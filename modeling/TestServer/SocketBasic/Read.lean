import TestServer.SocketBasic.Write

/-! # `read_chars` and `read_structs`

    The decoding loops of `socket_basic/server.cpp`, which
    `socket_basic/client.cpp` holds as well. One `read` fills the front of a
    buffer of NULs, and each pass copies a record out of it:

    ```
    int remain_length = count;
    char *tmp_ptr = buffer;
    int index = 0;
    do {
        int data_length = 0;
        memcpy(&data_length, tmp_ptr, sizeof(int));
        tmp_ptr += sizeof(int);
        remain_length -= sizeof(int);
        memcpy(data[index], tmp_ptr, data_length);
        tmp_ptr += data_length;
        remain_length -= data_length;
        printf("read index:%d, %d, %d, %s\n", index, sizeof(int), data_length, data[index]);
        index++;
    } while(index< row && remain_length >0);
    ```

    `read_structs` copies to `address[index]`, prints its three fields, and
    never increments `index`.

    * `copyRecord`: what the two loops have in common.
    * `readCharsPass`, `readStructsPass`: one pass of each.
    * `readCharsPass_frame`, `readStructsPass_frame`: what a pass does with a
      record.
-/

open CInt CMemory LengthPrefixed Loop

namespace SocketBasic

/-! ### The loops -/

/-- The size of `buffer`. -/
def bufferLength : Nat := 1024000

/-- `buffer` after `read` returned the bytes `bs`. -/
def received (bs : List UInt8) : Mem := bs ++ List.replicate (bufferLength - bs.length) 0

/-- `tmp_ptr`, as an offset from `buffer`, and `remain_length`. -/
structure Cursor where
  tmp_ptr : Nat
  remain_length : Int

/-- `tmp_ptr += n; remain_length -= n;` -/
def Cursor.advance (c : Cursor) (n : Int) : Cursor where
  tmp_ptr := c.tmp_ptr + n.toNat
  remain_length := signed 32 (c.remain_length - n)

/-- A pass of the decoding loops up to `printf`, with the record copied to `dst + off`: the value of
    `data_length`, the cursor, and the memory at `dst`. -/
def copyRecord (buffer : Mem) (c : Cursor) (dst : Mem) (off : Nat) :
    Option (Int × Cursor × Mem) := do
  let data_length ← readInt buffer c.tmp_ptr
  let c := c.advance sizeofInt
  -- the third argument of `memcpy` is a `size_t`
  let dst ← memcpy dst off buffer c.tmp_ptr (unsigned 64 data_length)
  some (data_length, c.advance data_length, dst)

/-- `row`. -/
def row : Nat := 10

/-- A line that `read_chars` prints. -/
structure CharsLine where
  index : Nat
  data_length : Int
  text : List UInt8

/-- The variables of the loop of `read_chars`, and what was printed. -/
structure CharsState where
  cursor : Cursor
  index : Nat
  data : List Mem
  printed : List CharsLine

/-- The test at the end of the loop of `read_chars`. -/
def CharsState.next (s : CharsState) : Pass CharsState (Option CharsState) :=
  if s.index < row ∧ 0 < s.cursor.remain_length then .again s else .leave (some s)

/-- A pass of the loop of `read_chars`, with the memory `behind i` behind the row `i`. It leaves the
    loop with `none` when it copies from outside the buffer or to outside the row, and when there is
    no NUL for `printf`. -/
def readCharsPass (behind : Nat → Mem) (buffer : Mem) (s : CharsState) :
    Pass CharsState (Option CharsState) :=
  match s.data[s.index]?.bind fun dst => copyRecord buffer s.cursor dst 0 with
  | none => .leave none
  | some (data_length, cursor, dst) =>
    -- `printf` reads up to the first NUL, and past a row that has none
    match cstr (dst ++ behind s.index) with
    | none => .leave none
    | some text =>
      CharsState.next
        { cursor
          index := s.index + 1
          data := s.data.set s.index dst
          printed := s.printed ++ [{ index := s.index, data_length, text }] }

/-- The variables before the first pass, when `count` bytes were read. -/
def CharsState.start (count : Nat) : CharsState where
  cursor := { tmp_ptr := 0, remain_length := count }
  index := 0
  data := List.replicate row (List.replicate col 0)
  printed := []

/-- `num` in `read_structs`. -/
def num : Nat := 20

/-- A line that `read_structs` prints. -/
structure StructsLine where
  index : Nat
  data_length : Int
  attr1 : Int
  attr2 : List UInt8
  attr3 : UInt8

/-- The variables of the loop of `read_structs`, and what was printed. -/
structure StructsState where
  cursor : Cursor
  index : Nat
  address : Mem
  printed : List StructsLine

/-- The test at the end of the loop of `read_structs`. -/
def StructsState.next (s : StructsState) : Pass StructsState (Option StructsState) :=
  if s.index < num ∧ 0 < s.cursor.remain_length then .again s else .leave (some s)

/-- What `printf` reads at `&address[index]`. -/
def printStruct (address : Mem) (index : Nat) (data_length : Int) : Option StructsLine := do
  let off := index * sizeofAddress
  let attr1 ← readInt address off
  let attr2 ← cstr (address.drop (off + 4))
  let attr3 ← address[off + 104]?
  some { index, data_length, attr1, attr2, attr3 }

/-- A pass of the loop of `read_structs`; `index` stays what it is. -/
def readStructsPass (buffer : Mem) (s : StructsState) : Pass StructsState (Option StructsState) :=
  match copyRecord buffer s.cursor s.address (s.index * sizeofAddress) with
  | none => .leave none
  | some (data_length, cursor, address) =>
    match printStruct address s.index data_length with
    | none => .leave none
    | some line =>
      StructsState.next { s with cursor, address, printed := s.printed ++ [line] }

/-- The variables before the first pass, when `count` bytes were read. -/
def StructsState.start (address : Mem) (count : Nat) : StructsState where
  cursor := { tmp_ptr := 0, remain_length := count }
  index := 0
  address := address
  printed := []

/-- `for (int i=0; i< num; i++) bzero(address[i].attr2, 100);` -/
def bzeroAttr2 (address : Mem) : Option Mem :=
  (List.range num).foldlM (fun address i => memset address (i * sizeofAddress + 4) 0 100) address

/-- The first slots after `bzero`: their texts begin with a NUL, and `attr3` is what `malloc`
    left. -/
theorem foldlM_bzero {mem : Mem} (hmem : mem.length = 2100) {n : Nat} (hn : n ≤ 20) :
    ∃ address, (List.range n).foldlM (fun address i => memset address (i * 105 + 4) 0 100) mem
        = some address ∧
      address.length = 2100 ∧ (∀ i < n, address[i * 105 + 4]? = some 0) ∧
      ∀ i, address[i * 105 + 104]? = mem[i * 105 + 104]? := by
  induction n with
  | zero => exact ⟨mem, rfl, hmem, nofun, fun _ => rfl⟩
  | succ n ih =>
    obtain ⟨address, haddress, hlen, hzero, hbyte⟩ := ih (by omega)
    have hroom : n * 105 + 4 + 100 ≤ address.length := by omega
    obtain ⟨address', hclear, hlen', hget⟩ := memset_getElem? 0 hroom
    refine ⟨address', ?_, hlen'.trans hlen, ?_, ?_⟩
    · rw [List.range_succ, List.foldlM_append, haddress, Option.bind_eq_bind, Option.bind_some,
        List.foldlM_cons, hclear]
      rfl
    · intro i hi
      rw [hget]
      split
      · rfl
      · exact hzero i (by omega)
    · intro i
      rw [hget, if_neg (by omega), hbyte]

/-- The memory `read_structs` fills: there is a NUL behind the first slot, and `attr3` is what
    `malloc` left. -/
theorem bzeroAttr2_spec {mem : Mem} (hmem : mem.length = num * sizeofAddress) :
    ∃ slot others, bzeroAttr2 mem = some (slot ++ others) ∧ slot.length = sizeofAddress ∧
      0 ∈ others ∧
      ∀ i, (slot ++ others)[i * sizeofAddress + 104]? = mem[i * sizeofAddress + 104]? := by
  obtain ⟨address, haddress, hlen, hzero, hbyte⟩ := foldlM_bzero hmem (le_refl 20)
  obtain ⟨slot, others, rfl, hslot⟩ := exists_block (m := address) (n := 105) (by omega)
  refine ⟨slot, others, haddress, hslot, ?_, hbyte⟩
  have hnul := hzero 1 (by omega)
  rw [List.getElem?_append_right (by omega)] at hnul
  exact List.mem_of_getElem? hnul

/-! ### A record in the buffer -/

/-- The buffer behind the bytes that were taken. -/
theorem received_append (a b : List UInt8) :
    received (a ++ b) = a ++ (b ++ List.replicate (bufferLength - (a ++ b).length) 0) :=
  List.append_assoc _ _ _

/-- The cursor when `n` of `count` bytes were taken. -/
def Cursor.after (count n : Nat) : Cursor where
  tmp_ptr := n
  remain_length := (count : Int) - n

/-- A pass that finds a record copies it. -/
theorem copyRecord_frame (r : Record) {count : Nat} {pre tail d old e : Mem}
    (hcount : count < 2 ^ 31) (hlow : pre.length + r.frame.length < count + 2 ^ 31)
    (hold : old.length = r.bytes.length) :
    copyRecord (pre ++ (r.frame ++ tail)) (.after count pre.length) (d ++ (old ++ e)) d.length
      = some ((r.bytes.length : Int), .after count (pre ++ r.frame).length,
          d ++ (r.bytes ++ e)) := by
  have hlen := r.frame_length
  have hfield : readInt (pre ++ (r.frame ++ tail)) (Cursor.after count pre.length).tmp_ptr
      = some (r.bytes.length : Int) := r.readInt_frame rfl
  have hcopy : memcpy (d ++ (old ++ e)) d.length
      ((pre ++ toLE 4 r.bytes.length) ++ (r.bytes ++ tail)) (pre.length + sizeofInt) r.bytes.length
      = some (d ++ (r.bytes ++ e)) :=
    memcpy_append (by rw [List.length_append, toLE_length]; rfl) rfl rfl hold
  have hremain : signed 32 (signed 32 ((count : Int) - pre.length - sizeofInt) - r.bytes.length)
      = (count : Int) - ((pre ++ r.frame).length : Nat) := by
    have hfield : signed 32 ((count : Int) - pre.length - sizeofInt)
        = (count : Int) - pre.length - sizeofInt := by
      rw [sizeofInt]
      exact signed_of_range (by omega) (by omega)
    rw [hfield, List.length_append, hlen, sizeofInt, signed_of_range (by omega) (by omega)]
    omega
  simp only [copyRecord, hfield, unsigned_record, Option.bind_eq_bind, Option.bind_some]
  rw [Cursor.advance, Cursor.after, Int.toNat_natCast, r.frame_append, ← List.append_assoc pre,
    hcopy, Option.bind_some, Cursor.advance, hremain, Cursor.after, List.length_append, hlen,
    Int.toNat_natCast, sizeofInt, Nat.add_assoc]

/-! ### `read_chars` -/

variable {behind : Nat → Mem}

/-- The line printed for the record `r` in row `i`. -/
def charsLine (behind : Nat → Mem) (i : Nat) (r : Record) : CharsLine where
  index := i
  data_length := r.bytes.length
  text := beforeNul (padded r.bytes ++ behind i)

/-- The variables when the records `done` were copied, out of `count` bytes. -/
def CharsState.after (behind : Nat → Mem) (count : Nat) (done : List Record) : CharsState where
  cursor := .after count (code.encodeAll done).length
  index := done.length
  data := done.map (fun r => padded r.bytes)
    ++ List.replicate (row - done.length) (List.replicate col 0)
  printed := done.mapIdx (charsLine behind)

@[simp] theorem CharsState.after_index (count : Nat) (done : List Record) :
    (CharsState.after behind count done).index = done.length := rfl

theorem CharsState.start_eq (behind : Nat → Mem) (count : Nat) :
    CharsState.start count = .after behind count [] := by
  simp [CharsState.start, CharsState.after, Cursor.after]

/-- The next row is still all NULs. -/
theorem CharsState.after_data {count : Nat} {done : List Record} (hrow : done.length < row) :
    (CharsState.after behind count done).data = done.map (fun r => padded r.bytes) ++
      (List.replicate col 0 ::
        List.replicate (row - (done.length + 1)) (List.replicate col 0)) := by
  have hfree : row - done.length = row - (done.length + 1) + 1 := by omega
  rw [after, hfree, List.replicate_succ]

/-- A record that fits in a row is copied to the row that is next. -/
theorem copyRecord_row (r : Record) {count : Nat} {pre tail : Mem} (hcount : count < 2 ^ 31)
    (hpre : pre.length ≤ count) (hfits : r.bytes.length ≤ col) :
    copyRecord (pre ++ (r.frame ++ tail)) (.after count pre.length) (List.replicate col 0) 0
      = some ((r.bytes.length : Int), .after count (pre ++ r.frame).length, padded r.bytes) := by
  have hlen := r.frame_length
  have hcol : col = 100 := rfl
  have hzeros : List.replicate col (0 : UInt8) = [] ++ (List.replicate r.bytes.length 0
      ++ List.replicate (col - r.bytes.length) 0) := by
    rw [List.nil_append, ← List.replicate_add, Nat.add_sub_cancel' hfits]
  rw [hzeros]
  exact copyRecord_frame r hcount (by omega) (List.length_replicate ..)

/-- The loop of `read_chars` goes on while there are rows and bytes. -/
theorem CharsState.next_after {bs rest : List UInt8} {done : List Record}
    (hbs : bs = code.encodeAll done ++ rest) :
    (CharsState.after behind bs.length done).next =
      if done.length < row ∧ rest ≠ [] then .again (.after behind bs.length done)
      else .leave (some (.after behind bs.length done)) := by
  have hlen := congrArg List.length hbs
  rw [List.length_append] at hlen
  have hremain : 0 < (CharsState.after behind bs.length done).cursor.remain_length ↔ rest ≠ [] := by
    rw [← List.length_pos_iff]
    show (0 : Int) < (bs.length : Int) - ((code.encodeAll done).length : Nat) ↔ _
    omega
  unfold next
  simp only [hremain]
  rfl

/-- A row has a NUL behind bytes that do not fill it. -/
theorem zero_mem_padded {bs : List UInt8} (hshort : bs.length < col) : 0 ∈ padded bs := by
  apply List.mem_append_right
  rw [List.mem_replicate]
  exact ⟨by omega, rfl⟩

/-- `printf` does not read past a row that the bytes do not fill. -/
theorem beforeNul_padded {bs : List UInt8} (hshort : bs.length < col) (tail : Mem) :
    beforeNul (padded bs ++ tail) = beforeNul bs := by
  rw [beforeNul_append_of_mem (zero_mem_padded hshort), padded, beforeNul_append_replicate]

/-- The variables after another record. -/
theorem CharsState.after_snoc {count : Nat} {done : List Record} (hrow : done.length < row)
    (r : Record) :
    CharsState.after behind count (done ++ [r]) =
      { cursor := .after count (code.encodeAll done ++ r.frame).length
        index := done.length + 1
        data := (CharsState.after behind count done).data.set done.length (padded r.bytes)
        printed := (CharsState.after behind count done).printed ++
          [charsLine behind done.length r] } := by
  have hdata : (CharsState.after behind count done).data.set done.length (padded r.bytes)
      = (CharsState.after behind count (done ++ [r])).data := by
    rw [after_data hrow, List.set_append_right _ _ (by simp), List.length_map, Nat.sub_self,
      List.set_cons_zero]
    simp [after]
  have hprinted : (CharsState.after behind count done).printed ++ [charsLine behind done.length r]
      = (CharsState.after behind count (done ++ [r])).printed := List.mapIdx_concat.symm
  have hbytes : code.encodeAll (done ++ [r]) = code.encodeAll done ++ r.frame := by
    rw [PrefixCode.encodeAll_append, PrefixCode.encodeAll_cons, PrefixCode.encodeAll_nil,
      List.append_nil]
    rfl
  rw [hdata, hprinted, ← hbytes]
  simp [after]

/-- A pass of `read_chars` that finds a record. -/
theorem readCharsPass_frame {count : Nat} {done : List Record} {r : Record} {tail : Mem}
    (hcount : count < 2 ^ 31) (hdone : (code.encodeAll done).length ≤ count)
    (hrow : done.length < row) (hfits : r.bytes.length ≤ col) :
    readCharsPass behind (code.encodeAll done ++ (r.frame ++ tail)) (.after behind count done) =
      if 0 ∈ padded r.bytes ++ behind done.length then
        (CharsState.after behind count (done ++ [r])).next
      else .leave none := by
  let s := CharsState.after behind count done
  have hfree : s.data[s.index]? = some (List.replicate col 0) := by
    show (CharsState.after behind count done).data[done.length]? = _
    rw [CharsState.after_data hrow, List.getElem?_append_right (by simp), List.length_map,
      Nat.sub_self]
    rfl
  have hcopy : (s.data[s.index]?.bind fun dst =>
        copyRecord (code.encodeAll done ++ (r.frame ++ tail)) s.cursor dst 0)
      = some ((r.bytes.length : Int), .after count (code.encodeAll done ++ r.frame).length,
        padded r.bytes) := by
    rw [hfree, Option.bind_some]
    exact copyRecord_row r hcount hdone hfits
  unfold readCharsPass
  simp only [s] at hcopy
  rw [hcopy]
  by_cases hnul : 0 ∈ padded r.bytes ++ behind done.length
  · have hprint := cstr_of_mem hnul
    rw [if_pos hnul]
    simp only [CharsState.after_index, hprint]
    rw [CharsState.after_snoc hrow]
    rfl
  · -- there is no NUL behind the row either
    have hprint := cstr_eq_none.mpr hnul
    rw [if_neg hnul]
    simp only [CharsState.after_index, hprint]

/-- The same for a record among the received bytes. -/
theorem readCharsPass_record (behind : Nat → Mem) {bs rest : List UInt8} {done : List Record}
    {r : Record} (hcount : bs.length ≤ bufferLength) (hbs : bs = code.encodeAll done ++ (r.frame ++ rest))
    (hrow : done.length < row) (hfits : r.bytes.length ≤ col) :
    readCharsPass behind (received bs) (.after behind bs.length done) =
      if 0 ∈ padded r.bytes ++ behind done.length then
        if done.length + 1 < row ∧ rest ≠ [] then .again (.after behind bs.length (done ++ [r]))
        else .leave (some (.after behind bs.length (done ++ [r])))
      else .leave none := by
  have hbuffer : received bs = code.encodeAll done
      ++ (r.frame ++ (rest ++ List.replicate (bufferLength - bs.length) 0)) := by
    rw [hbs, received_append, List.append_assoc r.frame, ← hbs]
  have hmore : bs = code.encodeAll (done ++ [r]) ++ rest := by
    rw [hbs]
    simp [code]
  have hle : (code.encodeAll done).length ≤ bs.length := by
    rw [hbs, List.length_append]
    exact Nat.le_add_right _ _
  rw [bufferLength] at hcount
  rw [hbuffer, readCharsPass_frame (by omega) hle hrow hfits, CharsState.next_after hmore,
    List.length_append]
  rfl

/-! ### `read_structs` -/

/-- What the first slot holds after a record was copied to it. -/
def overlay (slot : Mem) (r : Record) : Mem := r.bytes ++ slot.drop r.bytes.length

/-- `n` of `count` bytes were taken, and the memory is `slot` and then the other slots. -/
structure StructsState.At (count n : Nat) (slot others : Mem) (s : StructsState) : Prop where
  cursor : s.cursor = .after count n
  index : s.index = 0
  address : s.address = slot ++ others
  slot : slot.length = sizeofAddress

theorem StructsState.at_start {slot : Mem} (hslot : slot.length = sizeofAddress) (others : Mem)
    (count : Nat) : (StructsState.start (slot ++ others) count).At count 0 slot others where
  cursor := by simp [start, Cursor.after]
  index := rfl
  address := rfl
  slot := hslot

/-- The loop of `read_structs` goes on while there are bytes. -/
theorem StructsState.At.next {bs pre rest slot others : List UInt8} {s : StructsState}
    (hat : s.At bs.length pre.length slot others) (hbs : bs = pre ++ rest) :
    s.next = if rest ≠ [] then .again s else .leave (some s) := by
  have hlen := congrArg List.length hbs
  rw [List.length_append] at hlen
  have hgo : (s.index < num ∧ 0 < s.cursor.remain_length) ↔ rest ≠ [] := by
    rw [← List.length_pos_iff, hat.index, hat.cursor]
    show (0 < 20 ∧ (0 : Int) < (bs.length : Int) - (pre.length : Nat)) ↔ _
    omega
  unfold StructsState.next
  simp only [hgo]

/-- `printf` finds the three fields, and a NUL behind the text. -/
theorem printStruct_first {slot others : Mem} (hslot : slot.length = sizeofAddress)
    (hnul : 0 ∈ others) (data_length : Int) :
    ∃ line, printStruct (slot ++ others) 0 data_length = some line := by
  have hlen : 105 ≤ (slot ++ others).length := by
    rw [List.length_append, hslot]
    exact Nat.le_add_right _ _
  obtain ⟨attr1, hattr1⟩ : ∃ attr1, readInt (slot ++ others) 0 = some attr1 := by
    unfold readInt readBytes
    rw [if_pos (by omega)]
    exact ⟨_, rfl⟩
  have hattr2 : 0 ∈ (slot ++ others).drop 4 := by
    rw [List.drop_append_of_le_length (by rw [hslot]; decide)]
    exact List.mem_append_right _ hnul
  have hattr3 : (slot ++ others)[104]? = some ((slot ++ others)[104]) :=
    List.getElem?_eq_getElem (by omega)
  unfold printStruct
  simp only [Nat.zero_mul, Nat.zero_add, hattr1, cstr_of_mem hattr2, hattr3, Option.bind_eq_bind,
    Option.bind_some]
  exact ⟨_, rfl⟩

/-- A pass of `read_structs` that finds a record. -/
theorem readStructsPass_frame {count : Nat} {pre slot others : Mem} {s : StructsState}
    (hat : s.At count pre.length slot others) (hcount : count < 2 ^ 31) (hpre : pre.length ≤ count)
    (hnul : 0 ∈ others) {r : Record} (hfits : r.bytes.length ≤ sizeofAddress) (tail : Mem) :
    ∃ s' : StructsState, readStructsPass (pre ++ (r.frame ++ tail)) s = s'.next ∧
      s'.At count (pre ++ r.frame).length (overlay slot r) others := by
  have hlen := r.frame_length
  have hsize : sizeofAddress = 105 := rfl
  have hslot := hat.slot
  obtain ⟨old, rest, hold, holdlen⟩ := exists_block (m := slot) (n := r.bytes.length) (by omega)
  have hoverlay : overlay slot r = r.bytes ++ rest := by
    rw [overlay, hold, ← holdlen, List.drop_left]
  have hcopy : copyRecord (pre ++ (r.frame ++ tail)) s.cursor s.address (s.index * sizeofAddress)
      = some ((r.bytes.length : Int), .after count (pre ++ r.frame).length,
        overlay slot r ++ others) := by
    have hframe : copyRecord (pre ++ (r.frame ++ tail)) (.after count pre.length)
        ([] ++ (old ++ (rest ++ others))) ([] : Mem).length = some ((r.bytes.length : Int),
          .after count (pre ++ r.frame).length, [] ++ (r.bytes ++ (rest ++ others))) :=
      copyRecord_frame r hcount (by omega) holdlen
    rw [hat.cursor, hat.index, hat.address, hoverlay, hold, Nat.zero_mul, List.append_assoc,
      List.append_assoc]
    exact hframe
  have hlenslot : (overlay slot r).length = sizeofAddress := by
    rw [hold, List.length_append] at hslot
    rw [hoverlay, List.length_append, ← holdlen, hslot]
  obtain ⟨line, hline⟩ := printStruct_first hlenslot hnul r.bytes.length
  rw [← hat.index] at hline
  unfold readStructsPass
  simp only [hcopy, hline]
  exact ⟨_, rfl, rfl, hat.index, rfl, hlenslot⟩

/-- The same for a record among the received bytes. -/
theorem readStructsPass_record {bs pre rest slot others : List UInt8} {s : StructsState}
    {r : Record} (hat : s.At bs.length pre.length slot others) (hcount : bs.length ≤ bufferLength)
    (hnul : 0 ∈ others) (hbs : bs = pre ++ (r.frame ++ rest))
    (hfits : r.bytes.length ≤ sizeofAddress) :
    ∃ s', (readStructsPass (received bs) s = if rest ≠ [] then .again s' else .leave (some s')) ∧
      s'.At bs.length (pre ++ r.frame).length (overlay slot r) others := by
  have hbuffer : received bs
      = pre ++ (r.frame ++ (rest ++ List.replicate (bufferLength - bs.length) 0)) := by
    rw [hbs, received_append, List.append_assoc r.frame, ← hbs]
  have hle : pre.length ≤ bs.length := by
    rw [hbs, List.length_append]
    exact Nat.le_add_right _ _
  rw [bufferLength] at hcount
  obtain ⟨s', hpass, hat'⟩ := readStructsPass_frame hat (by omega) hle hnul hfits
    (rest ++ List.replicate (bufferLength - bs.length) 0)
  refine ⟨s', ?_, hat'⟩
  rw [hbuffer, hpass]
  exact hat'.next (by rw [hbs, List.append_assoc])

end SocketBasic
