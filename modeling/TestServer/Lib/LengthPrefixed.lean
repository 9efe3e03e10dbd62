import TestServer.Lib.CMemory
import TestServer.Lib.Loop
import TestServer.Lib.PrefixCode

/-! # Length-prefixed records

    A record is sent as its length, in four bytes, and then its bytes. The
    length is a signed field: one that is negative, or that counts bytes that
    have not come, begins no record.

    * `Record`, `code`: the records, and the prefix code they form.
    * `begins_iff`: when some bytes begin with a record.
    * `Framed`: bytes that a receiver can take record by record.
    * `Takes`, `Takes.safe_iff`: a loop that takes one record in each pass stays
      inside the bytes it got exactly when they are framed.
-/

open CInt CMemory Loop

namespace LengthPrefixed

/-! ### Records -/

/-- The bytes of a record, no more than its length field can count. -/
structure Record where
  bytes : List UInt8
  small : bytes.length < 2 ^ 31

/-- A record as it is sent. -/
def Record.frame (r : Record) : List UInt8 := toLE 4 r.bytes.length ++ r.bytes

theorem Record.ext_bytes {r r' : Record} (h : r.bytes = r'.bytes) : r = r' := by
  cases r
  cases r'
  cases h
  rfl

@[simp] theorem Record.frame_length (r : Record) : r.frame.length = 4 + r.bytes.length := by
  rw [frame, List.length_append, toLE_length]

theorem Record.frame_append (r : Record) (rest : List UInt8) :
    r.frame ++ rest = toLE 4 r.bytes.length ++ (r.bytes ++ rest) :=
  List.append_assoc _ _ _

theorem Record.readInt_frame (r : Record) {a rest : List UInt8} {off : Nat}
    (hoff : off = a.length) :
    readInt (a ++ (r.frame ++ rest)) off = some (r.bytes.length : Int) := by
  rw [frame_append]
  exact readInt_append hoff r.small

theorem Record.readInt_first (r : Record) (rest : List UInt8) :
    readInt (r.frame ++ rest) 0 = some (r.bytes.length : Int) :=
  r.readInt_frame (a := []) rfl

/-- The length field tells where a record ends. -/
theorem Record.frame_injective {r r' : Record} {x y : List UInt8}
    (h : r.frame ++ x = r'.frame ++ y) : r = r' := by
  have hlen : r.bytes.length = r'.bytes.length := by
    have hfield := r.readInt_first x
    rw [h, r'.readInt_first y] at hfield
    exact (Int.ofNat.inj (Option.some.inj hfield)).symm
  have hframes : r.frame = r'.frame :=
    (List.append_inj h (by rw [frame_length, frame_length, hlen])).1
  rw [frame, frame, hlen] at hframes
  exact ext_bytes (List.append_cancel_left hframes)

theorem Record.frame_ne_nil (r : Record) : r.frame ≠ [] := by
  intro hnil
  have hlen := r.frame_length
  rw [hnil, List.length_nil] at hlen
  omega

/-- Records form a prefix code. -/
def code : PrefixCode Record UInt8 where
  encode := Record.frame
  prefix_free := Record.frame_injective
  encode_ne_nil := Record.frame_ne_nil

/-- The bytes begin with a record of no more than `size` bytes exactly when they begin with a
    field that is neither negative nor above `size`, and there are that many bytes behind it. -/
theorem begins_iff {bs : List UInt8} {size : Nat} (hsize : size < 2 ^ 31) :
    (∃ r : Record, r.bytes.length ≤ size ∧ ∃ rest, bs = r.frame ++ rest) ↔
      ∃ n : Int, readInt bs 0 = some n ∧ 0 ≤ n ∧ n ≤ size ∧ 4 + n ≤ bs.length := by
  constructor
  · intro hbegins
    obtain ⟨r, hle, rest, rfl⟩ := hbegins
    refine ⟨r.bytes.length, r.readInt_first rest, by omega, by omega, ?_⟩
    rw [List.length_append, r.frame_length]
    omega
  · intro hfield
    obtain ⟨n, hread, hlow, hhigh, hlen⟩ := hfield
    obtain ⟨field, hbytes, hn⟩ := Option.map_eq_some_iff.mp hread
    obtain ⟨hfour, htake⟩ := readBytes_eq_some.mp hbytes
    rw [List.drop_zero] at htake
    have hfieldlen : field.length = 4 := by
      rw [← htake, List.length_take]
      omega
    have hlt : ofLE field < 256 ^ 4 := hfieldlen ▸ ofLE_lt field
    -- a field that is not negative is the number its bytes stand for
    have hvalue : (ofLE field : Int) = n := by
      rw [← hn] at hlow ⊢
      exact (signed_of_nonneg (by omega) (by omega) hlow).symm
    have hpayload : ((bs.drop 4).take (ofLE field)).length = ofLE field := by
      rw [List.length_take, List.length_drop]
      omega
    refine ⟨⟨(bs.drop 4).take (ofLE field), by omega⟩, ?_, (bs.drop 4).drop (ofLE field), ?_⟩
    · show ((bs.drop 4).take (ofLE field)).length ≤ size
      omega
    · have hframe : toLE 4 (ofLE field) = field := by
        rw [← hfieldlen]
        exact toLE_ofLE field
      show bs = (toLE 4 ((bs.drop 4).take (ofLE field)).length ++ (bs.drop 4).take (ofLE field))
        ++ (bs.drop 4).drop (ofLE field)
      rw [hpayload, hframe, List.append_assoc, List.take_append_drop, ← htake,
        List.take_append_drop]

/-! ### Loops that take records -/

/-- From the `k`-th record on, the bytes can be taken record by record: each is there in whole and
    has no more than `size` bytes, up to the end of the bytes or to a record at which it `ends`. -/
inductive Framed (size : Nat) (ends : Nat → Record → Prop) : Nat → List UInt8 → Prop where
  | last {k : Nat} {r : Record} {rest : List UInt8} : r.bytes.length ≤ size →
      rest = [] ∨ ends k r → Framed size ends k (r.frame ++ rest)
  | record {k : Nat} {r : Record} {rest : List UInt8} : r.bytes.length ≤ size →
      Framed size ends (k + 1) rest → Framed size ends k (r.frame ++ rest)

/-- Whole records are framed. -/
theorem framed_encodeAll {size : Nat} {ends : Nat → Record → Prop} {rs : List Record}
    (hne : rs ≠ []) (hsize : ∀ r ∈ rs, r.bytes.length ≤ size) (k : Nat) :
    Framed size ends k (code.encodeAll rs) := by
  induction rs generalizing k with
  | nil => exact absurd rfl hne
  | cons r rs ih =>
    have hle := hsize r List.mem_cons_self
    by_cases hnil : rs = []
    · subst hnil
      exact .last hle (Or.inl rfl)
    · exact .record hle (ih hnil (fun r' hr' => hsize r' (List.mem_cons_of_mem _ hr')) (k + 1))

/-- Bytes stay framed when there are more records to end at. -/
theorem Framed.mono {size k : Nat} {ends ends' : Nat → Record → Prop} {bs : List UInt8}
    (h : Framed size ends k bs) (hends : ∀ k r, ends k r → ends' k r) :
    Framed size ends' k bs := by
  induction h with
  | last hle hend => exact .last hle (hend.imp_right (hends _ _))
  | record hle _ ih => exact .record hle ih

variable {σ ρ : Type*} {body : σ → Pass σ ρ} {At : Nat → List UInt8 → σ → Prop}
  {Safe : σ → Prop} {size : Nat} {ends : Nat → Record → Prop}

/-- Each pass of the loop takes a record. `At k bs s` says that `bs` are the bytes to be taken from
    the `k`-th record on, `Safe s` that the pass takes no others. -/
structure Takes (body : σ → Pass σ ρ) (At : Nat → List UInt8 → σ → Prop) (Safe : σ → Prop)
    (size : Nat) (ends : Nat → Record → Prop) : Prop where
  safe : ∀ {k bs s}, At k bs s →
    (Safe s ↔ ∃ r : Record, r.bytes.length ≤ size ∧ ∃ rest, bs = r.frame ++ rest)
  last : ∀ {k r rest s}, At k (r.frame ++ rest) s → r.bytes.length ≤ size →
    rest = [] ∨ ends k r → ∃ out, body s = .leave out
  record : ∀ {k r rest s}, At k (r.frame ++ rest) s → r.bytes.length ≤ size →
    rest ≠ [] → ¬ ends k r → ∃ s', body s = .again s' ∧ At (k + 1) rest s'

/-- Every pass takes only the bytes that are there exactly when the bytes are framed. -/
theorem Takes.safe_iff (h : Takes body At Safe size ends) {k : Nat} {bs : List UInt8} {s : σ}
    (hat : At k bs s) : (∀ s', Visits body s s' → Safe s') ↔ Framed size ends k bs := by
  constructor
  · intro hall
    -- each record that is taken leaves fewer bytes
    induction hn : bs.length using Nat.strongRecOn generalizing k bs s with
    | _ n ih =>
      obtain ⟨r, hle, rest, rfl⟩ := (h.safe hat).mp (hall s .refl)
      by_cases hend : rest = [] ∨ ends k r
      · exact .last hle hend
      · obtain ⟨hrest, hmore⟩ := not_or.mp hend
        obtain ⟨s', hpass, hat'⟩ := h.record hat hle hrest hmore
        have hless : rest.length < n := by
          rw [List.length_append, r.frame_length] at hn
          omega
        exact .record hle (ih _ hless hat' (fun t ht => hall t (.head hpass ht)) rfl)
  · intro hframed
    induction hframed generalizing s with
    | last hle hend =>
      intro s' hvisits
      obtain ⟨out, hpass⟩ := h.last hat hle hend
      rw [hvisits.eq_of_leave hpass]
      exact (h.safe hat).mpr ⟨_, hle, _, rfl⟩
    | @record k r rest hle hframed ih =>
      intro s' hvisits
      have hsafe : Safe s := (h.safe hat).mpr ⟨_, hle, _, rfl⟩
      by_cases hend : rest = [] ∨ ends k r
      · obtain ⟨out, hpass⟩ := h.last hat hle hend
        rw [hvisits.eq_of_leave hpass]
        exact hsafe
      · obtain ⟨hrest, hmore⟩ := not_or.mp hend
        obtain ⟨t, hpass, hat'⟩ := h.record hat hle hrest hmore
        rcases hvisits.eq_or_again hpass with rfl | hlater
        · exact hsafe
        · exact ih hat' s' hlater

end LengthPrefixed
