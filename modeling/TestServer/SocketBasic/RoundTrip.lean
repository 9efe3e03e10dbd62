import TestServer.SocketBasic.AnyBytes

/-! # What is written is read

    The encoding loops of `write_chars` and `write_structs` and the decoding
    loops of `read_chars` and `read_structs`, on one block of bytes that a
    single `read` returns.

    * `visits_chars`, `returns_chars`: on whole records, `read_chars` copies one
      after the other to its rows.
    * `chars_round_trip`: its rows hold the strings `write_chars` was given.
    * `returns_structs`: `read_structs` copies one after the other to its first
      slot.
    * `structs_round_trip`: its slots hold the structures `write_structs` was
      given when the last one is the first, and the others happen to be in the
      memory already.
-/

open CInt CMemory LengthPrefixed Loop

namespace SocketBasic

/-! ### `read_chars` on whole records -/

variable {bs : List UInt8} {behind : Nat → Mem}

/-- When bytes are left behind whole records, the loop goes on to them. -/
theorem visits_chars (behind : Nat → Mem) {bs left : List UInt8} (hcount : bs.length ≤ bufferLength)
    (done : List Record) {todo : List Record} (hbs : bs = code.encodeAll (done ++ todo) ++ left)
    (hleft : left ≠ []) (hshort : ∀ r ∈ todo, r.bytes.length < col)
    (hrow : (done ++ todo).length < row) :
    Visits (readCharsPass behind (received bs)) (.after behind bs.length done)
      (.after behind bs.length (done ++ todo)) := by
  induction todo generalizing done with
  | nil =>
    rw [List.append_nil]
    exact .refl
  | cons r todo ih =>
    have hr := hshort r List.mem_cons_self
    have hrest : bs = code.encodeAll done ++ (r.frame ++ (code.encodeAll todo ++ left)) := by
      rw [hbs]
      simp [code]
    rw [List.length_append, List.length_cons] at hrow
    have hpass := readCharsPass_record behind hcount hrest (by omega) hr.le
    have hmore : code.encodeAll todo ++ left ≠ [] :=
      fun hnil => hleft (List.append_eq_nil_iff.mp hnil).2
    rw [if_pos (List.mem_append_left _ (zero_mem_padded hr)), if_pos ⟨by omega, hmore⟩] at hpass
    rw [List.append_cons] at hbs ⊢
    have hlater := ih _ hbs (fun r' hr' => hshort r' (List.mem_cons_of_mem _ hr')) (by
      rw [List.length_append, List.length_append, List.length_singleton]
      omega)
    exact Relation.ReflTransGen.head hpass hlater

/-- The record `read_chars` takes last: the tenth one, or the last one. -/
theorem exists_last {rs : List Record} (hne : rs ≠ []) :
    ∃ done r rest, rs = done ++ r :: rest ∧ done.length < row ∧
      (row ≤ done.length + 1 ∨ rest = []) ∧ rs.take row = done ++ [r] := by
  by_cases hfew : rs.length ≤ row
  · obtain ⟨done, r, rfl⟩ := (List.eq_nil_or_concat' rs).resolve_left hne
    rw [List.length_append, List.length_singleton] at hfew
    refine ⟨done, r, [], rfl, by omega, Or.inr rfl, List.take_of_length_le ?_⟩
    rw [List.length_append, List.length_singleton]
    exact hfew
  · have hten : 9 < rs.length := by
      rw [row] at hfew
      omega
    have hlen : (rs.take 9).length = 9 := List.length_take_of_le hten.le
    refine ⟨rs.take 9, rs[9], rs.drop 10, ?_, ?_, ?_, ?_⟩
    · rw [← List.drop_eq_getElem_cons hten, List.take_append_drop]
    · rw [hlen]
      decide
    · rw [hlen]
      exact Or.inl (by decide)
    · exact List.take_succ_eq_append_getElem hten

/-- On whole records, `read_chars` copies one after the other to its rows, until it has no more
    rows. -/
theorem returns_chars (behind : Nat → Mem) (hcount : bs.length ≤ bufferLength) {rs : List Record}
    (hbs : bs = code.encodeAll rs) (hne : rs ≠ []) (hshort : ∀ r ∈ rs, r.bytes.length < col) :
    Returns (readCharsPass behind (received bs)) (.start bs.length)
      (some (.after behind bs.length (rs.take row))) := by
  obtain ⟨done, r, rest, rfl, hrow, hend, htake⟩ := exists_last hne
  have hr : r.bytes.length < col := hshort r (by simp)
  have hrest : bs = code.encodeAll done ++ (r.frame ++ code.encodeAll rest) := by
    rw [hbs]
    simp [code]
  have hleft : r.frame ++ code.encodeAll rest ≠ [] :=
    fun hnil => r.frame_ne_nil (List.append_eq_nil_iff.mp hnil).1
  have hvisits := visits_chars behind hcount [] hrest hleft
    (fun r' hr' => hshort r' (List.mem_append_left _ hr')) hrow
  have hpass := readCharsPass_record behind hcount hrest hrow hr.le
  have hstop : ¬ (done.length + 1 < row ∧ code.encodeAll rest ≠ []) := by
    intro hgo
    rcases hend with hfull | hnil
    · omega
    · exact hgo.2 (PrefixCode.encodeAll_eq_nil.mpr hnil)
  rw [if_pos (List.mem_append_left _ (zero_mem_padded hr)), if_neg hstop] at hpass
  rw [CharsState.start_eq behind, htake]
  exact hvisits.returns.mpr (Returns.leave hpass)

/-! ### The rows -/

/-- The record of a text fits in a row, with a NUL behind it. -/
theorem short_records (ts : List Text) : ∀ r ∈ ts.map Text.record, r.bytes.length < col := by
  intro r hr
  obtain ⟨t, -, rfl⟩ := List.mem_map.mp hr
  exact t.short

/-- The row `i` when the records `rs` were copied. -/
theorem CharsState.cstr_after {count i : Nat} {ts : List Text} (hi : i < row) :
    ((CharsState.after behind count ((ts.map Text.record).take row)).data[i]?).bind cstr
      = some ((ts.map Text.bytes)[i]?.getD []) := by
  let rs := (ts.map Text.record).take row
  have hlen : rs.length = min row ts.length := by
    rw [List.length_take, List.length_map]
  show (((rs.map fun r => padded r.bytes) ++
    List.replicate (row - rs.length) (List.replicate col 0))[i]?).bind cstr = _
  by_cases hts : i < ts.length
  · -- the row of a text
    have hrec : (rs.map fun r => padded r.bytes)[i]? = some (padded ts[i].bytes) := by
      rw [List.getElem?_map, List.getElem?_take_of_lt hi, List.getElem?_map,
        List.getElem?_eq_getElem hts]
      rfl
    rw [List.getElem?_append_left (by rw [List.length_map]; omega), hrec, Option.bind_some,
      cstr_of_mem (zero_mem_padded ts[i].short), padded, beforeNul_append_replicate,
      beforeNul_of_notMem ts[i].nul_free,
      List.getElem?_map, List.getElem?_eq_getElem hts]
    rfl
  · -- a row that was not written to
    have hnone : (ts.map Text.bytes)[i]? = none :=
      List.getElem?_eq_none (by rw [List.length_map]; omega)
    rw [List.getElem?_append_right (by rw [List.length_map]; omega),
      List.getElem?_replicate_of_lt (by rw [List.length_map]; omega), hnone]
    rfl

/-- A row that the loop goes on to is one of the ten. -/
theorem readCharsPass_index {buffer : Mem} {s s' : CharsState}
    (h : readCharsPass behind buffer s = .again s') : s'.index < row := by
  unfold readCharsPass at h
  split at h
  · cases h
  · split at h
    · cases h
    · unfold CharsState.next at h
      split at h
      case isTrue hgo =>
        cases h
        exact hgo.1
      case isFalse => cases h

/-- The strings `write_chars` was given stand in the first rows after `read_chars`, as many as
    there are rows, and the other rows are empty; every pass stayed inside the bytes and inside a
    row. What stands behind the rows does not matter. -/
theorem chars_round_trip (ts : List Text) (hne : ts ≠ []) (e : List UInt8)
    (he : WritesChars (ts.map Text.bytes) e) (hcount : e.length ≤ 1024000) (behind : Nat → Mem) :
    (∃ s, Returns (readCharsPass behind (received e)) (.start e.length) (some s) ∧
      s.data.length = row ∧
      ∀ i < row, (s.data[i]?).bind cstr = some ((ts.map Text.bytes)[i]?.getD [])) ∧
    ∀ s, Visits (readCharsPass behind (received e)) (.start e.length) s →
      s.cursor.Inside e col ∧ s.index < row := by
  obtain rfl := (writesChars_iff ts e).mp he
  have hrecords : ts.map Text.record ≠ [] := by simpa using hne
  have hshort := short_records ts
  constructor
  · refine ⟨_, returns_chars behind hcount rfl hrecords hshort, ?_,
      fun i hi => CharsState.cstr_after hi⟩
    show (_ ++ List.replicate _ _ : List Mem).length = row
    rw [List.length_append, List.length_map, List.length_replicate, List.length_take]
    omega
  · intro s hvisits
    constructor
    · apply (charsInside_iff hcount).mpr _ behind s hvisits
      exact framed_encodeAll hrecords (fun r hr => (hshort r hr).le) 0
    · apply hvisits.invariant (I := fun s => s.index < row)
      · exact fun _ _ _ hpass => readCharsPass_index hpass
      · exact Nat.zero_lt_succ 9

/-- Two strings, one of them empty. -/
theorem chars_round_trip_two :
    ∃ s, Returns (readCharsPass (fun _ => []) (received [2, 0, 0, 0, 104, 105, 0, 0, 0, 0]))
        (.start 10) (some s) ∧
      s.data.length = row ∧ ∀ i < row, (s.data[i]?).bind cstr
        = some (([[104, 105], []] : List (List UInt8))[i]?.getD []) := by
  let t : Text := { bytes := [104, 105], nul_free := by decide, short := by decide }
  let u : Text := { bytes := [], nul_free := by decide, short := by decide }
  exact (chars_round_trip [t, u] (by decide) [2, 0, 0, 0, 104, 105, 0, 0, 0, 0]
    ((writesChars_iff [t, u] _).mpr (by decide)) (by decide) fun _ => []).1

/-! ### `read_structs` on the records of structures -/

/-- `address[i]` is the structure `a`, field by field. -/
structure HoldsAddress (address : Mem) (i : Nat) (a : Address) : Prop where
  attr1 : readInt address (i * sizeofAddress) = some a.attr1
  attr2 : readBytes address (i * sizeofAddress + 4) 100 = some a.attr2
  attr3 : readBool address (i * sizeofAddress + 104) = some a.attr3

/-- A slot holds one structure at most. -/
theorem HoldsAddress.unique {address : Mem} {i : Nat} {a b : Address}
    (ha : HoldsAddress address i a) (hb : HoldsAddress address i b) : a = b := by
  have h₁ := Option.some.inj (ha.attr1.symm.trans hb.attr1)
  have h₂ := Option.some.inj (ha.attr2.symm.trans hb.attr2)
  have h₃ := Option.some.inj (ha.attr3.symm.trans hb.attr3)
  cases a
  cases b
  cases h₁
  cases h₂
  cases h₃
  rfl

/-- The bytes of a structure are the structure. -/
theorem holdsAddress_bytes (a : Address) (others : Mem) :
    HoldsAddress (a.bytes ++ others) 0 a where
  attr1 := by
    have hfield : readInt ([] ++ (toLE 4 (unsigned 32 a.attr1)
        ++ ((a.attr2 ++ [if a.attr3 then 1 else 0]) ++ others))) 0 = some a.attr1 :=
      readInt_stored rfl a.attr1_low a.attr1_high
    rw [Address.bytes, List.append_assoc]
    exact hfield
  attr2 := by
    rw [Address.bytes, List.append_assoc, List.append_assoc]
    exact readBytes_append (toLE_length 4 _).symm a.attr2_length.symm
  attr3 := by
    have hfront : (toLE 4 (unsigned 32 a.attr1) ++ a.attr2).length = 104 := by
      rw [List.length_append, toLE_length, a.attr2_length]
    rw [Address.bytes, ← List.append_assoc, List.append_assoc, Nat.zero_mul, Nat.zero_add,
      readBool_append_right (by rw [hfront]), hfront]
    cases a.attr3 <;> rfl

/-- What the other slots hold does not depend on the first one. -/
theorem holdsAddress_others {slot slot' others : Mem} (hslot : slot.length = sizeofAddress)
    (hslot' : slot'.length = sizeofAddress) {i : Nat} (hi : 1 ≤ i) {a : Address}
    (h : HoldsAddress (slot ++ others) i a) : HoldsAddress (slot' ++ others) i a := by
  have hle : slot.length ≤ i * sizeofAddress := by
    rw [hslot]
    exact Nat.le_mul_of_pos_left _ hi
  have hsame : slot'.length = slot.length := hslot'.trans hslot.symm
  obtain ⟨h₁, h₂, h₃⟩ := h
  rw [readInt_append_right (by omega)] at h₁
  rw [readBytes_append_right (by omega)] at h₂
  rw [readBool_append_right (by omega)] at h₃
  constructor
  · rw [readInt_append_right (by omega), hsame]
    exact h₁
  · rw [readBytes_append_right (by omega), hsame]
    exact h₂
  · rw [readBool_append_right (by omega), hsame]
    exact h₃

/-- A structure takes the whole slot. -/
theorem overlay_record (a : Address) {slot : Mem} (hslot : slot.length = sizeofAddress) :
    overlay slot a.record = a.bytes := by
  show a.bytes ++ slot.drop a.bytes.length = a.bytes
  rw [a.bytes_length, ← hslot, List.drop_length, List.append_nil]

/-- On the records of structures, `read_structs` copies each to the first slot. -/
theorem returns_structs (hcount : bs.length ≤ bufferLength) {pre slot others : Mem}
    {s : StructsState} (hat : s.At bs.length pre.length slot others) (hnul : 0 ∈ others)
    {a : Address} {as : List Address}
    (hbs : bs = pre ++ code.encodeAll ((a :: as).map Address.record)) :
    ∃ s', Returns (readStructsPass (received bs)) s (some s') ∧
      s'.address = ((a :: as).getLast (List.cons_ne_nil a as)).bytes ++ others := by
  induction as generalizing a pre slot s with
  | nil =>
    obtain ⟨s', hpass, hat'⟩ := readStructsPass_record hat hcount hnul hbs a.bytes_length.le
    refine ⟨s', Returns.leave (hpass.trans (if_neg (not_not.mpr rfl))), ?_⟩
    rw [hat'.address, overlay_record a hat.slot]
    rfl
  | cons b as ih =>
    obtain ⟨s₁, hpass, hat₁⟩ := readStructsPass_record hat hcount hnul hbs a.bytes_length.le
    have hmore : code.encodeAll ((b :: as).map Address.record) ≠ [] :=
      fun hnil => List.cons_ne_nil _ _ (PrefixCode.encodeAll_eq_nil.mp hnil)
    obtain ⟨s', hreturns, haddress⟩ := ih hat₁ (by rw [hbs, List.append_assoc]; rfl)
    refine ⟨s', Returns.again (hpass.trans (if_pos hmore)) hreturns, ?_⟩
    rw [haddress, List.getLast_cons (List.cons_ne_nil b as)]

/-- A slot that the loop goes on to is one of the twenty. -/
theorem readStructsPass_index {buffer : Mem} {s s' : StructsState}
    (h : readStructsPass buffer s = .again s') : s'.index < num := by
  unfold readStructsPass at h
  split at h
  · cases h
  · split at h
    · cases h
    · unfold StructsState.next at h
      split at h
      case isTrue hgo =>
        cases h
        exact hgo.1
      case isFalse => cases h

/-- What is asked of `read_structs` on the bytes `e` that `write_structs` produces for `as`, with
    `mem` in the memory from `malloc`: it returns with each structure in its slot, as far as there
    are slots, and every pass stays inside the bytes and stores its record in one of the slots. -/
structure StructsRoundTrip (as : List Address) (e : List UInt8) (mem : Mem) : Prop where
  returned : ∃ address s, bzeroAttr2 mem = some address ∧
    Returns (readStructsPass (received e)) (.start address e.length) (some s) ∧
    ∀ i < num, ∀ a, as[i]? = some a → HoldsAddress s.address i a
  stored : ∀ address, bzeroAttr2 mem = some address →
    ∀ s, Visits (readStructsPass (received e)) (.start address e.length) s →
      s.index < num ∧ s.cursor.Inside e sizeofAddress

/-- `read_structs` is right exactly when the last structure is the first one and the others are
    in the memory already. -/
theorem structsRoundTrip_iff {as : List Address} (hne : as ≠ []) {e : List UInt8}
    (he : WritesStructs as e) (hcount : e.length ≤ bufferLength) {mem : Mem}
    (hmem : mem.length = num * sizeofAddress) :
    StructsRoundTrip as e mem ↔
      as.head? = as.getLast? ∧ ∃ address, bzeroAttr2 mem = some address ∧
        ∀ i < num, 1 ≤ i → ∀ a, as[i]? = some a → HoldsAddress address i a := by
  obtain rfl := (writesStructs_iff as e).mp he
  obtain ⟨slot, others, haddress, hslot, hnul, -⟩ := bzeroAttr2_spec hmem
  obtain ⟨a, rest, rfl⟩ := List.exists_cons_of_ne_nil hne
  let last := (a :: rest).getLast hne
  let e := code.encodeAll ((a :: rest).map Address.record)
  have hstart : (StructsState.start (slot ++ others) e.length).At e.length ([] : Mem).length slot
      others := StructsState.at_start hslot others e.length
  obtain ⟨s, hreturns, hs⟩ := returns_structs hcount hstart hnul rfl
  have hlast : HoldsAddress s.address 0 last := by
    rw [hs]
    exact holdsAddress_bytes last others
  constructor
  · intro h
    obtain ⟨address, s', haddress', hreturns', hholds⟩ := h.returned
    obtain rfl := Option.some.inj (haddress.symm.trans haddress')
    obtain rfl := Option.some.inj (Returns.unique hreturns hreturns')
    constructor
    · have hfirst : a = last := (hholds 0 (by decide) a rfl).unique hlast
      rw [List.head?_cons, List.getLast?_eq_some_getLast hne]
      exact congrArg some hfirst
    · refine ⟨_, haddress, fun i hi hpos b hb => ?_⟩
      have hslots := hholds i hi b hb
      rw [hs] at hslots
      exact holdsAddress_others last.bytes_length hslot hpos hslots
  · intro h
    obtain ⟨hsame, address', haddress', hholds⟩ := h
    obtain rfl := Option.some.inj (haddress.symm.trans haddress')
    have hfirst : a = last := by
      rw [List.head?_cons, List.getLast?_eq_some_getLast hne] at hsame
      exact Option.some.inj hsame
    constructor
    case returned =>
      refine ⟨_, s, haddress, hreturns, fun i hi b hb => ?_⟩
      rcases Nat.eq_zero_or_pos i with rfl | hpos
      · obtain rfl : a = b := Option.some.inj hb
        rw [hfirst]
        exact hlast
      · rw [hs]
        exact holdsAddress_others hslot last.bytes_length hpos (hholds i hi hpos b hb)
    case stored =>
      intro address haddress s hvisits
      constructor
      · apply hvisits.invariant (I := fun s => s.index < num)
        · exact fun _ _ _ hpass => readStructsPass_index hpass
        · exact Nat.zero_lt_succ 19
      · apply (structsInside_iff hcount).mpr _ mem address hmem haddress s hvisits
        apply framed_encodeAll (by simp)
        intro r hr
        obtain ⟨b, -, rfl⟩ := List.mem_map.mp hr
        exact b.bytes_length.le

/-- There is memory that does not hold the structure `b` in its second slot: `attr3` is another
    one. -/
theorem exists_memory_without (b : Address) :
    ∃ mem, mem.length = num * sizeofAddress ∧
      ∀ address, bzeroAttr2 mem = some address → ¬ HoldsAddress address 1 b := by
  let junk : UInt8 := if b.attr3 then 0 else 1
  have hmem : (List.replicate (num * sizeofAddress) junk).length = num * sizeofAddress :=
    List.length_replicate ..
  refine ⟨_, hmem, ?_⟩
  intro address haddress hholds
  obtain ⟨slot, others, haddress', -, -, hbytes⟩ := bzeroAttr2_spec hmem
  obtain rfl := Option.some.inj (haddress.symm.trans haddress')
  have hattr3 := hholds.attr3
  have hjunk : (slot ++ others)[1 * sizeofAddress + 104]? = some junk := by
    rw [hbytes, List.getElem?_replicate_of_lt (by decide)]
  rw [readBool, hjunk, Option.bind_eq_bind, Option.bind_some] at hattr3
  cases hb : b.attr3 <;> simp [junk, hb] at hattr3

/-- For given contents of the memory, `read_structs` holds what `write_structs` was given exactly
    when the last structure is the first one and the others are in the memory already; and it does
    so whatever is in the memory exactly when there is only one structure. -/
theorem structs_round_trip (as : List Address) (hne : as ≠ []) (e : List UInt8)
    (he : WritesStructs as e) (hcount : e.length ≤ 1024000) :
    (∀ mem, mem.length = num * sizeofAddress →
      (StructsRoundTrip as e mem ↔ as.head? = as.getLast? ∧
        ∃ address, bzeroAttr2 mem = some address ∧
          ∀ i < num, 1 ≤ i → ∀ a, as[i]? = some a → HoldsAddress address i a)) ∧
    ((∀ mem, mem.length = num * sizeofAddress → StructsRoundTrip as e mem) ↔ as.length = 1) := by
  refine ⟨fun mem hmem => structsRoundTrip_iff hne he hcount hmem, ?_⟩
  constructor
  · intro hall
    by_contra hlen
    obtain ⟨a, b, rest, rfl⟩ : ∃ a b rest, as = a :: b :: rest := by
      match as with
      | [] => exact absurd rfl hne
      | [a] => exact absurd rfl hlen
      | a :: b :: rest => exact ⟨a, b, rest, rfl⟩
    obtain ⟨mem, hmem, hwithout⟩ := exists_memory_without b
    obtain ⟨-, address, haddress, hholds⟩ :=
      (structsRoundTrip_iff hne he hcount hmem).mp (hall mem hmem)
    exact hwithout address haddress (hholds 1 (by decide) (le_refl 1) b rfl)
  · intro hone mem hmem
    obtain ⟨a, rfl⟩ := List.length_eq_one_iff.mp hone
    obtain ⟨slot, others, haddress, -⟩ := bzeroAttr2_spec hmem
    refine (structsRoundTrip_iff hne he hcount hmem).mpr ⟨rfl, _, haddress, ?_⟩
    intro i _ hpos b hb
    rw [List.getElem?_eq_none (by simpa using hpos)] at hb
    cases hb

/-- A structure with an empty text. -/
def Address.empty (attr1 : Int) (hlow : -2 ^ 31 ≤ attr1) (hhigh : attr1 < 2 ^ 31) : Address where
  attr1 := attr1
  attr2 := List.replicate 100 0
  attr3 := true
  attr1_low := hlow
  attr1_high := hhigh
  attr2_length := List.length_replicate ..

/-- One structure. -/
theorem structs_round_trip_one :
    let a := Address.empty (-7) (by decide) (by decide)
    ∀ mem, mem.length = num * sizeofAddress → StructsRoundTrip [a] a.record.frame mem := by
  intro a
  have he : WritesStructs [a] a.record.frame := (writesStructs_iff [a] _).mpr (by simp [code])
  exact (structs_round_trip [a] (by decide) _ he (by decide)).2.mpr rfl

/-- Two structures: the second one goes over the first. -/
theorem structs_overwritten :
    ¬ ∀ (as : List Address) (e : List UInt8) (mem : Mem), as ≠ [] → WritesStructs as e →
      e.length ≤ 1024000 → mem.length = num * sizeofAddress → StructsRoundTrip as e mem := by
  intro hall
  let a := Address.empty 500 (by decide) (by decide)
  let b := Address.empty 501 (by decide) (by decide)
  have he := (writesStructs_iff [a, b] _).mpr rfl
  have hmem : (List.replicate (num * sizeofAddress) (0 : UInt8)).length = num * sizeofAddress :=
    List.length_replicate ..
  have hcount : (code.encodeAll ([a, b].map Address.record)).length ≤ bufferLength := by
    simp [code, Address.record, sizeofAddress, bufferLength]
  have hround := hall [a, b] _ _ (List.cons_ne_nil a [b]) he hcount hmem
  have hsame := ((structsRoundTrip_iff (List.cons_ne_nil a [b]) he hcount hmem).mp hround).1
  have hattr1 := congrArg Address.attr1 (Option.some.inj hsame)
  exact absurd hattr1 (by decide)

end SocketBasic
