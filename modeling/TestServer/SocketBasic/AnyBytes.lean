import TestServer.SocketBasic.Read

/-! # The decoding loops on the bytes of any peer

    A peer may send anything. What is asked of the loops is that they take
    lengths and records only from the bytes that were received, and copy no
    more than there is room for.

    * `CharsInside`, `StructsInside`: every pass of the loops does so.
    * `takes_chars`, `takes_structs`: the loops take one record in each pass.
    * `inside_iff`: they stay inside exactly when the bytes are whole records of
      the right size, up to the end of the bytes or, in `read_chars`, to the
      tenth one.
-/

open CInt CMemory LengthPrefixed Loop

namespace SocketBasic

/-! ### What is asked of a pass -/

/-- The length field and the bytes of the pass lie inside the received bytes `bs`, and there are
    between 0 and `size` of them. -/
def Cursor.Inside (bs : List UInt8) (size : Nat) (c : Cursor) : Prop :=
  ∃ data_length, readInt bs c.tmp_ptr = some data_length ∧ 0 ≤ data_length ∧ data_length ≤ size ∧
    (c.tmp_ptr : Int) + sizeofInt + data_length ≤ bs.length

/-- Every pass of `read_chars` on the received bytes stays inside them and inside a row, whatever
    stands behind the rows. -/
def CharsInside (bs : List UInt8) : Prop :=
  ∀ behind s, Visits (readCharsPass behind (received bs)) (.start bs.length) s →
    s.cursor.Inside bs col

/-- Every pass of `read_structs` stays inside the received bytes and inside an `Address`, whatever
    `malloc` left in the memory. -/
def StructsInside (bs : List UInt8) : Prop :=
  ∀ mem address, mem.length = num * sizeofAddress → bzeroAttr2 mem = some address →
    ∀ s, Visits (readStructsPass (received bs)) (.start address bs.length) s →
      s.cursor.Inside bs sizeofAddress

/-- `read_chars` ends at the tenth row too. -/
def EndsChars (i : Nat) (_ : Record) : Prop := row ≤ i + 1

/-- With this memory behind the rows, `read_chars` gets no further than the `i`-th record: there are
    no more rows, or `printf` finds no NUL in this one and behind it. -/
def StopsChars (behind : Nat → Mem) (i : Nat) (r : Record) : Prop :=
  EndsChars i r ∨ 0 ∉ padded r.bytes ++ behind i

/-- `read_structs` ends at the end of the bytes only. -/
def EndsStructs (_ : Nat) (_ : Record) : Prop := False

/-! ### The loops take records -/

variable {bs : List UInt8} {behind : Nat → Mem}

/-- A pass stays inside exactly when there is a whole record for it. -/
theorem inside_iff_begins {pre todo : List UInt8} {size : Nat} {c : Cursor}
    (hsize : size < 2 ^ 31) (hptr : c.tmp_ptr = pre.length) :
    c.Inside (pre ++ todo) size ↔
      ∃ r : Record, r.bytes.length ≤ size ∧ ∃ rest, todo = r.frame ++ rest := by
  rw [begins_iff hsize, Cursor.Inside, hptr, readInt_append_right (le_refl _), Nat.sub_self,
    List.length_append]
  constructor
  · intro hinside
    obtain ⟨n, hread, hlow, hhigh, hlen⟩ := hinside
    rw [sizeofInt] at hlen
    exact ⟨n, hread, hlow, hhigh, by omega⟩
  · intro hbegins
    obtain ⟨n, hread, hlow, hhigh, hlen⟩ := hbegins
    refine ⟨n, hread, hlow, hhigh, ?_⟩
    rw [sizeofInt]
    omega

/-- `read_chars` is at its `i`-th record, and `todo` is what is left of the bytes. -/
def CharsAt (behind : Nat → Mem) (bs : List UInt8) (i : Nat) (todo : List UInt8)
    (s : CharsState) : Prop :=
  ∃ done, done.length = i ∧ i < row ∧ bs = code.encodeAll done ++ todo ∧
    s = .after behind bs.length done

/-- `read_structs` is at a record, and `todo` is what is left of the bytes. -/
def StructsAt (bs others : List UInt8) (_ : Nat) (todo : List UInt8) (s : StructsState) : Prop :=
  ∃ pre slot, bs = pre ++ todo ∧ s.At bs.length pre.length slot others

theorem takes_chars (hcount : bs.length ≤ bufferLength) (behind : Nat → Mem) :
    Takes (readCharsPass behind (received bs)) (CharsAt behind bs)
      (fun s => s.cursor.Inside bs col) col (StopsChars behind) where
  safe := by
    intro i todo s hat
    obtain ⟨done, -, -, hbs, rfl⟩ := hat
    have hiff : (CharsState.after behind bs.length done).cursor.Inside
        (code.encodeAll done ++ todo) col ↔
          ∃ r : Record, r.bytes.length ≤ col ∧ ∃ rest, todo = r.frame ++ rest :=
      inside_iff_begins (by decide) rfl
    rwa [← hbs] at hiff
  last := by
    intro i r rest s hat hle hend
    obtain ⟨done, rfl, hrow, hbs, rfl⟩ := hat
    rw [readCharsPass_record behind hcount hbs hrow hle]
    split
    case isTrue hnul =>
      have hstop : ¬ (done.length + 1 < row ∧ rest ≠ []) := by
        intro hgo
        rcases hend with hnil | hrows | hnone
        · exact hgo.2 hnil
        · exact Nat.not_lt.mpr hrows hgo.1
        · exact hnone hnul
      exact ⟨_, if_neg hstop⟩
    case isFalse => exact ⟨_, rfl⟩
  record := by
    intro i r rest s hat hle hrest hmore
    obtain ⟨done, rfl, hrow, hbs, rfl⟩ := hat
    obtain ⟨hrows, hnul⟩ := not_or.mp hmore
    rw [readCharsPass_record behind hcount hbs hrow hle, if_pos (not_not.mp hnul),
      if_pos ⟨Nat.lt_of_not_le hrows, hrest⟩]
    refine ⟨_, rfl, done ++ [r], List.length_append, Nat.lt_of_not_le hrows, ?_, rfl⟩
    rw [hbs]
    simp [code]

theorem takes_structs (hcount : bs.length ≤ bufferLength) {others : Mem} (hnul : 0 ∈ others) :
    Takes (readStructsPass (received bs)) (StructsAt bs others)
      (fun s => s.cursor.Inside bs sizeofAddress) sizeofAddress EndsStructs where
  safe := by
    intro i todo s hat
    obtain ⟨pre, slot, rfl, hat⟩ := hat
    exact inside_iff_begins (by decide) (congrArg Cursor.tmp_ptr hat.cursor)
  last := by
    intro i r rest s hat hle hend
    obtain ⟨pre, slot, hbs, hat⟩ := hat
    obtain ⟨s', hpass, -⟩ := readStructsPass_record hat hcount hnul hbs hle
    have hnil : ¬ rest ≠ [] := not_not.mpr (hend.resolve_right id)
    exact ⟨_, hpass.trans (if_neg hnil)⟩
  record := by
    intro i r rest s hat hle hrest _
    obtain ⟨pre, slot, hbs, hat⟩ := hat
    obtain ⟨s', hpass, hat'⟩ := readStructsPass_record hat hcount hnul hbs hle
    exact ⟨s', hpass.trans (if_pos hrest), pre ++ r.frame, _, by rw [hbs, List.append_assoc], hat'⟩

/-! ### Exactly the framed bytes -/

theorem charsInside_iff (hcount : bs.length ≤ bufferLength) :
    CharsInside bs ↔ Framed col EndsChars 0 bs := by
  have hiff : ∀ behind, (∀ s, Visits (readCharsPass behind (received bs)) (.start bs.length) s →
      s.cursor.Inside bs col) ↔ Framed col (StopsChars behind) 0 bs := by
    intro behind
    apply (takes_chars hcount behind).safe_iff
    exact ⟨[], rfl, by decide, rfl, CharsState.start_eq _ _⟩
  constructor
  · intro hinside
    -- a NUL behind each row, and the loop goes on to the next one
    apply ((hiff fun _ => [0]).mp (hinside _)).mono
    intro i r hstops
    exact hstops.resolve_right (not_not.mpr (List.mem_append_right _ List.mem_cons_self))
  · intro hframed behind
    exact (hiff behind).mpr (hframed.mono fun _ _ hends => Or.inl hends)

theorem structsInside_iff (hcount : bs.length ≤ bufferLength) :
    StructsInside bs ↔ Framed sizeofAddress EndsStructs 0 bs := by
  have hloop : ∀ mem, mem.length = num * sizeofAddress → ∃ address, bzeroAttr2 mem = some address ∧
      ((∀ s, Visits (readStructsPass (received bs)) (.start address bs.length) s →
        s.cursor.Inside bs sizeofAddress) ↔ Framed sizeofAddress EndsStructs 0 bs) := by
    intro mem hmem
    obtain ⟨slot, others, haddress, hslot, hnul, -⟩ := bzeroAttr2_spec hmem
    refine ⟨_, haddress, (takes_structs hcount hnul).safe_iff ?_⟩
    exact ⟨[], slot, rfl, StructsState.at_start hslot others bs.length⟩
  constructor
  · intro hinside
    have hmem : (List.replicate (num * sizeofAddress) (0 : UInt8)).length = num * sizeofAddress :=
      List.length_replicate ..
    obtain ⟨address, haddress, hiff⟩ := hloop _ hmem
    exact hiff.mp (hinside _ address hmem haddress)
  · intro hframed mem address hmem haddress
    obtain ⟨address', haddress', hiff⟩ := hloop mem hmem
    obtain rfl := Option.some.inj (haddress.symm.trans haddress')
    exact hiff.mpr hframed

/-- The decoding loops stay inside the received bytes and the place they copy to exactly when the
    bytes are whole records of the right size, up to the end or, in `read_chars`, to the tenth
    one. -/
theorem inside_iff (bs : List UInt8) (hcount : bs.length ≤ 1024000) :
    (CharsInside bs ↔ Framed col EndsChars 0 bs) ∧
    (StructsInside bs ↔ Framed sizeofAddress EndsStructs 0 bs) :=
  ⟨charsInside_iff hcount, structsInside_iff hcount⟩

/-- The record of `hi`. -/
theorem inside_iff_hi :
    CharsInside [2, 0, 0, 0, 104, 105] ∧ StructsInside [2, 0, 0, 0, 104, 105] := by
  let r : Record := { bytes := [104, 105], small := by decide }
  have hiff := inside_iff [2, 0, 0, 0, 104, 105] (by decide)
  have hchars : Framed col EndsChars 0 (r.frame ++ []) := .last (by decide) (Or.inl rfl)
  have hstructs : Framed sizeofAddress EndsStructs 0 (r.frame ++ []) :=
    .last (by decide) (Or.inl rfl)
  have hframe : r.frame ++ [] = [2, 0, 0, 0, 104, 105] := by decide
  rw [hframe] at hchars hstructs
  exact ⟨hiff.1.mpr hchars, hiff.2.mpr hstructs⟩

/-- A length field that holds -1. -/
theorem negative_length_copied :
    ¬ ∀ bs : List UInt8, 1 ≤ bs.length → bs.length ≤ 1024000 →
      CharsInside bs ∧ StructsInside bs := by
  intro hall
  have hinside := (hall [255, 255, 255, 255] (by decide) (by decide)).1
  obtain ⟨n, hread, hlow, -⟩ := hinside (fun _ => []) _ .refl
  have hneg : readInt [255, 255, 255, 255] (CharsState.start 4).cursor.tmp_ptr = some (-1) := by
    decide
  obtain rfl := Option.some.inj (hneg.symm.trans hread)
  exact absurd hlow (by decide)

end SocketBasic
