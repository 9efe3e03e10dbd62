import TestServer.Lib.LengthPrefixed
import Mathlib.Data.List.Forall2

/-! # `write_chars` and `write_structs`

    The encoding loops of `socket_basic/server.cpp`, which
    `socket_basic/client.cpp` holds as well. Each pass appends a record to a
    block of memory, first its length and then its bytes:

    ```
    for (int i=0; i< 5; i++) {
        int data_length = strlen(data[i]);
        memcpy(tmp_ptr, &data_length, sizeof(int));
        tmp_ptr += sizeof(int);
        total_length += sizeof(int);
        memcpy(tmp_ptr, data[i], data_length);
        tmp_ptr += data_length;
        total_length += data_length;
    }
    ```

    In `write_structs`, `data_length` is `sizeof(address[i])` and the bytes are
    those of `address[i]`.

    * `appendRecord`: what the two loops have in common.
    * `WritesChars`, `WritesStructs`: the bytes the loops produce for a list.
    * `writesChars_iff`, `writesStructs_iff`: these are the records of the list,
      one after the other.
-/

open CInt CMemory LengthPrefixed

namespace SocketBasic

/-! ### The loops -/

/-- The variables of the encoding loops. -/
structure WriteState where
  ptr : Mem
  /-- `tmp_ptr` as an offset from `ptr`. -/
  tmp_ptr : Nat
  total_length : Int

/-- `sizeof(int)`. -/
def sizeofInt : Nat := 4

/-- A pass of the encoding loops, behind the declaration of `data_length`. -/
def appendRecord (s : WriteState) (data_length : Int) (src : Mem) : Option WriteState := do
  let ptr ← writeInt s.ptr s.tmp_ptr data_length
  let total_length := signed 32 (s.total_length + sizeofInt)
  -- the third argument of `memcpy` is a `size_t`
  let ptr ← memcpy ptr (s.tmp_ptr + sizeofInt) src 0 (unsigned 64 data_length)
  some
    { ptr
      tmp_ptr := s.tmp_ptr + sizeofInt + data_length.toNat
      total_length := signed 32 (total_length + data_length) }

/-- The variables before the first pass. -/
def WriteState.start (ptr : Mem) : WriteState where
  ptr := ptr
  tmp_ptr := 0
  total_length := 0

/-- The bytes the loop put into the block. -/
def WriteState.produced (s : WriteState) : List UInt8 := s.ptr.take s.tmp_ptr

/-- `col`, the size of a row. -/
def col : Nat := 100

/-- `data[i]` after `bzero(data[i], col)` and `strcpy(data[i], s)`. -/
def charsRow (s : List UInt8) : Option Mem := strcpy (List.replicate col 0) 0 (c_str s)

/-- A pass of the loop of `write_chars`. -/
def writeCharsPass (s : WriteState) (row : Mem) : Option WriteState := do
  let n ← strlen row
  appendRecord s (signed 32 n) row

/-- On rows that hold the strings `ss`, the loop of `write_chars` produces the bytes `e`. -/
def WritesChars (ss : List (List UInt8)) (e : List UInt8) : Prop :=
  ∃ data, List.Forall₂ (fun s row => charsRow s = some row) ss data ∧
    ∃ ptr s, data.foldlM writeCharsPass (.start ptr) = some s ∧ s.produced = e

/-- `common::Address`. -/
structure Address where
  attr1 : Int
  attr2 : List UInt8
  attr3 : Bool
  attr1_low : -2 ^ 31 ≤ attr1
  attr1_high : attr1 < 2 ^ 31
  attr2_length : attr2.length = 100

/-- `sizeof(common::Address)`: the structure is packed. -/
def sizeofAddress : Nat := 105

/-- The bytes of an `Address` in memory. -/
def Address.bytes (a : Address) : List UInt8 :=
  toLE 4 (unsigned 32 a.attr1) ++ (a.attr2 ++ [if a.attr3 then 1 else 0])

/-- A pass of the loop of `write_structs`. -/
def writeStructsPass (s : WriteState) (a : Address) : Option WriteState :=
  appendRecord s sizeofAddress a.bytes

/-- On the structures `as`, the loop of `write_structs` produces the bytes `e`. -/
def WritesStructs (as : List Address) (e : List UInt8) : Prop :=
  ∃ ptr s, as.foldlM writeStructsPass (.start ptr) = some s ∧ s.produced = e

/-! ### What a pass appends -/

/-- The variables when `pre` was appended and `junk` is what is left of the block. -/
def WriteState.after (pre junk : Mem) : WriteState where
  ptr := pre ++ junk
  tmp_ptr := pre.length
  total_length := signed 32 pre.length

theorem WriteState.start_eq (ptr : Mem) : WriteState.start ptr = .after [] ptr := rfl

theorem WriteState.produced_after (pre junk : Mem) : (WriteState.after pre junk).produced = pre :=
  List.take_left

/-- The length of a record, converted to `size_t`. -/
theorem unsigned_record (r : Record) : unsigned 64 (r.bytes.length : Int) = r.bytes.length := by
  have := r.small
  rw [unsigned_of_range (by omega) (by omega), Int.toNat_natCast]

/-- A pass appends a record if there is room for it, and leaves the block if there is not. -/
theorem appendRecord_after (r : Record) (pre junk pad : Mem) :
    appendRecord (.after pre junk) r.bytes.length (r.bytes ++ pad) =
      if r.frame.length ≤ junk.length then
        some (.after (pre ++ r.frame) (junk.drop r.frame.length))
      else none := by
  have hlen := r.frame_length
  unfold appendRecord
  rw [unsigned_record]
  split
  case isTrue hroom =>
    -- the field goes over the first four bytes of the rest of the block, the record over the next
    obtain ⟨field, room, rfl, hfield⟩ := exists_block (m := junk) (n := 4) (by omega)
    rw [List.length_append] at hroom
    obtain ⟨old, rest, rfl, hold⟩ := exists_block (m := room) (n := r.bytes.length) (by omega)
    have hwrite : writeInt (pre ++ (field ++ (old ++ rest))) pre.length r.bytes.length
        = some (pre ++ (toLE 4 r.bytes.length ++ (old ++ rest))) :=
      writeInt_append rfl hfield r.small
    have hcopy : memcpy ((pre ++ toLE 4 r.bytes.length) ++ (old ++ rest)) (pre.length + sizeofInt)
        ([] ++ (r.bytes ++ pad)) 0 r.bytes.length
        = some ((pre ++ toLE 4 r.bytes.length) ++ (r.bytes ++ rest)) :=
      memcpy_append rfl rfl (by rw [List.length_append, toLE_length]; rfl) hold
    have hrest : (field ++ (old ++ rest)).drop r.frame.length = rest := by
      rw [← List.append_assoc, List.drop_left']
      rw [List.length_append, hfield, hold, hlen]
    have htotal : signed 32 (signed 32 (signed 32 pre.length + sizeofInt) + r.bytes.length)
        = signed 32 ((pre ++ r.frame).length : Nat) := by
      rw [signed_add_signed, add_assoc, signed_add_signed, List.length_append, hlen]
      rfl
    simp only [WriteState.after, hwrite, Option.bind_eq_bind, Option.bind_some]
    rw [← List.append_assoc pre, ← List.nil_append (r.bytes ++ pad), hcopy, hrest, Option.bind_some,
      htotal]
    simp [Record.frame, sizeofInt, Nat.add_assoc]
  case isFalse hroom =>
    simp only [WriteState.after]
    cases hwrite : writeInt (pre ++ junk) pre.length r.bytes.length with
    | none => rfl
    | some ptr =>
      -- there is room for the field, but not for the record behind it
      have hsame := writeBytes_length hwrite
      rw [List.length_append] at hsame
      have hcopy :
          memcpy ptr (pre.length + sizeofInt) (r.bytes ++ pad) 0 r.bytes.length = none := by
        apply memcpy_eq_none
        rw [hsame, sizeofInt]
        omega
      simp only [Option.bind_eq_bind, Option.bind_some, hcopy, Option.bind_none]

variable {α : Type} {pass : WriteState → α → Option WriteState} {toRecord : α → Record}

/-- A loop whose passes append records appends the records of a list if there is room for them, and
    leaves the block if there is not. -/
theorem foldlM_appendRecord
    (hpass : ∀ s a, ∃ pad,
      pass s a = appendRecord s (toRecord a).bytes.length ((toRecord a).bytes ++ pad))
    (as : List α) (pre junk : Mem) :
    as.foldlM pass (.after pre junk) =
      let bs := code.encodeAll (as.map toRecord)
      if bs.length ≤ junk.length then some (.after (pre ++ bs) (junk.drop bs.length))
      else none := by
  induction as generalizing pre junk with
  | nil => simp
  | cons a as ih =>
    obtain ⟨pad, ha⟩ := hpass (.after pre junk) a
    have hlen : (code.encodeAll ((a :: as).map toRecord)).length
        = (toRecord a).frame.length + (code.encodeAll (as.map toRecord)).length := by
      rw [List.map_cons, PrefixCode.encodeAll_cons, List.length_append]
      rfl
    rw [List.foldlM_cons, ha, appendRecord_after]
    by_cases hroom : (toRecord a).frame.length ≤ junk.length
    · rw [if_pos hroom, Option.bind_eq_bind, Option.bind_some, ih]
      by_cases hmore : (code.encodeAll (as.map toRecord)).length
          ≤ (junk.drop (toRecord a).frame.length).length
      · have hall : (code.encodeAll ((a :: as).map toRecord)).length ≤ junk.length := by
          rw [List.length_drop] at hmore
          omega
        refine (if_pos hmore).trans (Eq.trans ?_ (if_pos hall).symm)
        rw [hlen, List.drop_drop, List.append_assoc]
        rfl
      · have hnone : ¬ (code.encodeAll ((a :: as).map toRecord)).length ≤ junk.length := by
          rw [List.length_drop] at hmore
          omega
        exact (if_neg hmore).trans (if_neg hnone).symm
    · have hnone : ¬ (code.encodeAll ((a :: as).map toRecord)).length ≤ junk.length := by omega
      rw [if_neg hroom, Option.bind_eq_bind, Option.bind_none]
      exact (if_neg hnone).symm

/-- The bytes such a loop produces, whatever the size of its block. -/
theorem produced_iff
    (hpass : ∀ s a, ∃ pad,
      pass s a = appendRecord s (toRecord a).bytes.length ((toRecord a).bytes ++ pad))
    (as : List α) (e : List UInt8) :
    (∃ ptr s, as.foldlM pass (.start ptr) = some s ∧ s.produced = e) ↔
      e = code.encodeAll (as.map toRecord) := by
  constructor
  · intro hproduced
    obtain ⟨ptr, s, hloop, rfl⟩ := hproduced
    rw [WriteState.start_eq, foldlM_appendRecord hpass] at hloop
    obtain ⟨-, hs⟩ := Option.ite_none_right_eq_some.mp hloop
    rw [← Option.some.inj hs, WriteState.produced_after]
    rfl
  · intro he
    subst he
    have hloop := foldlM_appendRecord hpass as [] (code.encodeAll (as.map toRecord))
    rw [← WriteState.start_eq] at hloop
    exact ⟨_, _, hloop.trans (if_pos (le_refl _)), WriteState.produced_after _ _⟩

/-! ### Texts and structures -/

/-- A string that fits in a row: no NUL inside, and room for the one behind it. -/
structure Text where
  bytes : List UInt8
  nul_free : 0 ∉ bytes
  short : bytes.length < col

/-- The record a text is sent as. -/
def Text.record (t : Text) : Record where
  bytes := t.bytes
  small := t.short.trans (by decide)

/-- The record a structure is sent as. -/
def Address.record (a : Address) : Record where
  bytes := a.bytes
  small := by
    have := a.attr2_length
    simp only [bytes, List.length_append, toLE_length, List.length_singleton]
    omega

@[simp] theorem Address.bytes_length (a : Address) : a.bytes.length = sizeofAddress := by
  have := a.attr2_length
  simp only [bytes, List.length_append, toLE_length, List.length_singleton, sizeofAddress]
  omega

/-- A row of NULs into which `bs` was copied. -/
def padded (bs : List UInt8) : Mem := bs ++ List.replicate (col - bs.length) 0

/-- The row that holds a text. -/
def Text.row (t : Text) : Mem := padded t.bytes

theorem Text.row_eq (t : Text) :
    t.row = t.bytes ++ 0 :: List.replicate (col - t.bytes.length - 1) 0 := by
  have hroom : col - t.bytes.length = (col - t.bytes.length - 1) + 1 := by
    have := t.short
    omega
  rw [row, padded, hroom, List.replicate_succ, Nat.add_sub_cancel]

theorem charsRow_text (t : Text) : charsRow t.bytes = some t.row := by
  have hzeros : List.replicate col (0 : UInt8) = [] ++ (List.replicate (t.bytes.length + 1) 0
      ++ List.replicate (col - t.bytes.length - 1) 0) := by
    have := t.short
    rw [List.nil_append, ← List.replicate_add]
    congr 1
    omega
  unfold charsRow strcpy
  rw [cstr_c_str, beforeNul_of_notMem t.nul_free, Option.bind_eq_bind, Option.bind_some, hzeros,
    writeBytes_append List.length_nil.symm (by simp), t.row_eq]
  simp

theorem writeCharsPass_row (s : WriteState) (t : Text) :
    writeCharsPass s t.row = appendRecord s t.record.bytes.length t.row := by
  have hshort : t.bytes.length < 100 := t.short
  have hlen : signed 32 (t.bytes.length : Int) = t.record.bytes.length :=
    signed_of_range (by omega) (by omega)
  unfold writeCharsPass
  rw [t.row_eq, strlen_append_nul t.nul_free, Option.bind_eq_bind, Option.bind_some, hlen]

/-- Rows that hold the strings are those of the texts. -/
theorem forall₂_charsRow {ts : List Text} {data : List Mem} :
    List.Forall₂ (fun s row => charsRow s = some row) (ts.map Text.bytes) data ↔
      data = ts.map Text.row := by
  simp only [List.forall₂_map_left_iff, charsRow_text, Option.some.injEq]
  rw [← List.forall₂_map_left_iff (R := Eq), List.forall₂_eq_eq_eq, eq_comm]

/-- The loop of `write_chars` produces the records of its strings. -/
theorem writesChars_iff (ts : List Text) (e : List UInt8) :
    WritesChars (ts.map Text.bytes) e ↔ e = code.encodeAll (ts.map Text.record) := by
  unfold WritesChars
  simp only [forall₂_charsRow, exists_eq_left, List.foldlM_map]
  apply produced_iff
  intro s t
  exact ⟨List.replicate (col - t.bytes.length) 0, writeCharsPass_row s t⟩

/-- The loop of `write_structs` produces the records of its structures. -/
theorem writesStructs_iff (as : List Address) (e : List UInt8) :
    WritesStructs as e ↔ e = code.encodeAll (as.map Address.record) := by
  apply produced_iff
  intro s a
  refine ⟨[], ?_⟩
  rw [List.append_nil, Address.record, a.bytes_length]
  rfl

end SocketBasic
