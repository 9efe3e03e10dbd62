import TestServer.SocketBasic.Write

/-! # One text or one structure

    `write_char` and `read_char` of `socket_basic/server.cpp`,
    `socket_basic/client.cpp`, `sample_socket/test_server.cpp` and
    `sample_client/test_client.cpp`, and `write_struct` and `read_struct` of the
    first two:

    ```
    char buffer[100] = "How are you?";
    ssize_t count = write(fd, buffer, strlen(buffer));
    ```
    ```
    char buffer[100] = {0};
    ssize_t count = read(fd, buffer, 100);
    printf("read [%s] to fd[%d], return [%d].\\n", buffer, fd, count);
    ```
    ```
    char buffer[100];
    ssize_t count = read(fd, buffer, 100);
    common::User *u = reinterpret_cast<common::User *>(buffer);
    printf("Read, attr1=%d, attr2=%d, attr3=%d\\n", u->attr1, u->attr2, u->attr3);
    ```

    In `sample_socket/test_server.cpp`, the `buffer` of `read_char` has no
    initial value either. What is printed is not made to depend on `count`.

    * `writeChar`, `readChar`, `readCharZeroed`; `User`, `readStruct`.
    * `read_char_prints`: when a text is printed that is a function of the bytes
      read, in the two versions of `read_char`.
    * `read_struct_prints`: the same for the fields of a structure.
-/

open CInt CMemory

namespace SocketBasic

/-! ### Texts -/

/-- `char buffer[100] = "..."`. -/
def charBuffer (text : List UInt8) : Mem := text ++ List.replicate (100 - text.length) 0

/-- What `write_char` hands to `write`. -/
def writeChar (text : List UInt8) : Option (List UInt8) := do
  let n ← strlen (charBuffer text)
  readBytes (charBuffer text) 0 n

/-- What `read_char` prints when `read` put the bytes `received` into `buffer`; `none` when `printf`
    leaves the buffer. -/
def readChar (buffer : Mem) (received : List UInt8) : Option (List UInt8) := do
  let buffer ← writeBytes buffer 0 received
  cstr buffer

/-- `read_char` with `char buffer[100] = {0}`. -/
def readCharZeroed (received : List UInt8) : Option (List UInt8) :=
  readChar (List.replicate 100 0) received

/-- All of the text is written. -/
theorem writeChar_text (t : Text) : writeChar t.bytes = some t.bytes := by
  have hshort : t.bytes.length < 100 := t.short
  have hroom : 100 - t.bytes.length = (99 - t.bytes.length) + 1 := by omega
  have hlen : strlen (charBuffer t.bytes) = some t.bytes.length := by
    unfold charBuffer
    rw [hroom, List.replicate_succ, strlen_append_nul t.nul_free]
  have hread : readBytes ([] ++ (t.bytes ++ List.replicate (100 - t.bytes.length) 0)) 0
      t.bytes.length = some t.bytes := readBytes_append rfl rfl
  unfold writeChar
  rw [hlen, Option.bind_eq_bind, Option.bind_some]
  exact hread

/-- What `read` left of the buffer is printed behind what it put there. -/
theorem readChar_eq {buffer : Mem} {received : List UInt8} (h : received.length ≤ buffer.length) :
    readChar buffer received = cstr (received ++ buffer.drop received.length) := by
  have hwrite : writeBytes buffer 0 received = some (received ++ buffer.drop received.length) := by
    unfold writeBytes
    rw [if_pos (by omega), List.take_zero, List.nil_append, Nat.zero_add]
  unfold readChar
  rw [hwrite, Option.bind_eq_bind, Option.bind_some]

/-- A NUL among the bytes read ends the text, whatever stands behind it. -/
theorem readChar_of_mem {buffer : Mem} {received : List UInt8} (h : received.length ≤ buffer.length)
    (hnul : 0 ∈ received) : readChar buffer received = some (beforeNul received) := by
  rw [readChar_eq h, cstr_of_mem (List.mem_append_left _ hnul), beforeNul_append_of_mem hnul]

/-- A buffer without NULs is left by `printf` if none comes. -/
theorem readChar_none {received : List UInt8} (h : received.length ≤ 100) (hnul : 0 ∉ received) :
    readChar (List.replicate 100 1) received = none := by
  rw [readChar_eq (by rwa [List.length_replicate]), cstr_eq_none, List.drop_replicate,
    List.mem_append]
  exact fun hor => hor.elim hnul fun hmem => absurd (List.eq_of_mem_replicate hmem) (by decide)

/-- In a buffer of NULs, the bytes read end at the first NUL. -/
theorem readCharZeroed_eq {received : List UInt8} (h : received.length ≤ 100) :
    readCharZeroed received
      = if 0 ∈ received ∨ received.length < 100 then some (beforeNul received) else none := by
  have hmem : 0 ∈ received ++ List.replicate (100 - received.length) 0 ↔
      0 ∈ received ∨ received.length < 100 := by
    rw [List.mem_append, List.mem_replicate]
    constructor
    · exact fun hor => hor.imp_right fun hrest => by omega
    · exact fun hor => hor.imp_right fun hlt => ⟨by omega, rfl⟩
  unfold readCharZeroed
  rw [readChar_eq (by rwa [List.length_replicate]), List.drop_replicate]
  split
  case isTrue hnul => rw [cstr_of_mem (hmem.mpr hnul), beforeNul_append_replicate]
  case isFalse hnul => exact cstr_eq_none.mpr fun hin => hnul (hmem.mp hin)

/-- With a buffer that is not initialised, `read_char` prints a function of the bytes read exactly
    when there is a NUL among them, which `write_char` never sends. With a buffer of NULs it prints
    them up to the first NUL, and leaves the buffer exactly when 100 bytes without a NUL came. -/
theorem read_char_prints (received : List UInt8) (h : received.length ≤ 100) :
    ((∃ text, ∀ stack : Mem, stack.length = 100 → readChar stack received = some text) ↔
      0 ∈ received) ∧
    (0 ∈ received ∨ received.length < 100 → readCharZeroed received = some (beforeNul received)) ∧
    (readCharZeroed received = none ↔ 0 ∉ received ∧ received.length = 100) ∧
    ∀ (t : Text) sent, writeChar t.bytes = some sent → 0 ∉ sent := by
  refine ⟨⟨?_, ?_⟩, ?_, ?_, ?_⟩
  · intro hsame
    obtain ⟨text, htext⟩ := hsame
    by_contra hnul
    have hprints := htext (List.replicate 100 1) (List.length_replicate ..)
    rw [readChar_none h hnul] at hprints
    cases hprints
  · intro hnul
    refine ⟨beforeNul received, ?_⟩
    intro stack hstack
    exact readChar_of_mem (by omega) hnul
  · intro hends
    rw [readCharZeroed_eq h, if_pos hends]
  · rw [readCharZeroed_eq h]
    split
    case isTrue hends =>
      refine ⟨nofun, ?_⟩
      intro hno
      rcases hends with hnul | hlt
      · exact absurd hnul hno.1
      · omega
    case isFalse hno =>
      obtain ⟨hnul, hfull⟩ := not_or.mp hno
      exact ⟨fun _ => ⟨hnul, by omega⟩, fun _ => rfl⟩
  · intro t sent hsent
    rw [writeChar_text] at hsent
    rw [← Option.some.inj hsent]
    exact t.nul_free

/-- A text of two letters, as `write_char` sends it. -/
theorem read_char_prints_hi :
    ¬ ∃ text, ∀ stack : Mem, stack.length = 100 → readChar stack [104, 105] = some text :=
  fun hsame => absurd ((read_char_prints [104, 105] (by decide)).1.mp hsame) (by decide)

/-! ### Structures -/

/-- `common::User`. -/
structure User where
  attr1 : Int
  attr2 : Int
  attr3 : Bool
  attr1_low : -2 ^ 31 ≤ attr1
  attr1_high : attr1 < 2 ^ 31
  attr2_low : -2 ^ 31 ≤ attr2
  attr2_high : attr2 < 2 ^ 31

/-- `sizeof(common::User)`: the structure is packed. -/
def sizeofUser : Nat := 9

/-- The bytes of a `User` in memory, which `write_struct` hands to `write`. -/
def User.bytes (u : User) : List UInt8 :=
  toLE 4 (unsigned 32 u.attr1) ++ (toLE 4 (unsigned 32 u.attr2) ++ [if u.attr3 then 1 else 0])

/-- The line that `read_struct` prints. -/
structure UserLine where
  attr1 : Int
  attr2 : Int
  attr3 : UInt8

/-- The line for a structure. -/
def User.line (u : User) : UserLine where
  attr1 := u.attr1
  attr2 := u.attr2
  attr3 := if u.attr3 then 1 else 0

/-- What `read_struct` prints when `read` put the bytes `received` into `buffer`. -/
def readStruct (buffer : Mem) (received : List UInt8) : Option UserLine := do
  let buffer ← writeBytes buffer 0 received
  let attr1 ← readInt buffer 0
  let attr2 ← readInt buffer 4
  let attr3 ← buffer[8]?
  some { attr1, attr2, attr3 }

@[simp] theorem User.bytes_length (u : User) : u.bytes.length = sizeofUser := by
  simp [bytes, sizeofUser]

/-- What `read` left of the buffer stands behind what it put there. -/
theorem readStruct_eq {buffer : Mem} {received : List UInt8} (h : received.length ≤ buffer.length) :
    readStruct buffer received =
      (readInt (received ++ buffer.drop received.length) 0).bind fun attr1 =>
      (readInt (received ++ buffer.drop received.length) 4).bind fun attr2 =>
      ((received ++ buffer.drop received.length)[8]?).bind fun attr3 =>
      some (UserLine.mk attr1 attr2 attr3) := by
  have hwrite : writeBytes buffer 0 received = some (received ++ buffer.drop received.length) := by
    unfold writeBytes
    rw [if_pos (by omega), List.take_zero, List.nil_append, Nat.zero_add]
  unfold readStruct
  rw [hwrite, Option.bind_eq_bind, Option.bind_some]
  rfl

/-- A field inside the bytes read does not depend on what stands behind them. -/
theorem readInt_inside {received : List UInt8} {off : Nat} (h : off + 4 ≤ received.length) :
    ∃ x, ∀ rest, readInt (received ++ rest) off = some x := by
  refine ⟨signed 32 (ofLE ((received.drop off).take 4)), ?_⟩
  intro rest
  have hroom : off + 4 ≤ (received ++ rest).length := by
    rw [List.length_append]
    omega
  have htake : ((received ++ rest).drop off).take 4 = (received.drop off).take 4 := by
    rw [List.drop_append_of_le_length (by omega), List.take_append_of_le_length]
    rw [List.length_drop]
    omega
  unfold readInt
  rw [readBytes_eq_some.mpr ⟨hroom, htake⟩, Option.map_some]

/-- A structure that was received whole is printed. -/
theorem readStruct_bytes (u : User) {buffer : Mem} {more : List UInt8}
    (h : (u.bytes ++ more).length ≤ buffer.length) :
    readStruct buffer (u.bytes ++ more) = some u.line := by
  rw [readStruct_eq h, List.append_assoc]
  let rest := more ++ buffer.drop (u.bytes ++ more).length
  let last : List UInt8 := [if u.attr3 then 1 else 0]
  have hbytes : u.bytes ++ rest = [] ++ (toLE 4 (unsigned 32 u.attr1)
      ++ (toLE 4 (unsigned 32 u.attr2) ++ (last ++ rest))) := by
    simp [User.bytes, last]
  have hattr1 : readInt (u.bytes ++ rest) 0 = some u.attr1 := by
    rw [hbytes]
    exact readInt_stored rfl u.attr1_low u.attr1_high
  have hattr2 : readInt (u.bytes ++ rest) 4 = some u.attr2 := by
    rw [hbytes, List.nil_append]
    exact readInt_stored (toLE_length 4 _).symm u.attr2_low u.attr2_high
  have hattr3 : (u.bytes ++ rest)[8]? = some (if u.attr3 then 1 else 0) := by
    rw [hbytes, List.nil_append, ← List.append_assoc, List.getElem?_append_right (by simp)]
    simp [last]
  show (readInt (u.bytes ++ rest) 0).bind _ = _
  rw [hattr1, Option.bind_some]
  show (readInt (u.bytes ++ rest) 4).bind _ = _
  rw [hattr2, Option.bind_some]
  show ((u.bytes ++ rest)[8]?).bind _ = _
  rw [hattr3, Option.bind_some]
  rfl

/-- `read_struct` prints a function of the bytes read exactly when there are at least 9 of them:
    when `read` fails or comes short, bytes of the stack are printed. A structure that came whole is
    printed with its own fields. -/
theorem read_struct_prints (received : List UInt8) (h : received.length ≤ 100) :
    ((∃ line, ∀ stack : Mem, stack.length = 100 → readStruct stack received = some line) ↔
      sizeofUser ≤ received.length) ∧
    ∀ u : User, u.bytes <+: received →
      ∀ stack : Mem, stack.length = 100 → readStruct stack received = some u.line := by
  refine ⟨⟨?_, ?_⟩, ?_⟩
  · intro hsame
    obtain ⟨line, hline⟩ := hsame
    by_contra hshort
    rw [sizeofUser] at hshort
    -- the last field is a byte of the stack
    have hbyte : ∀ b : UInt8, line.attr3 = b := by
      intro b
      have hprints := hline (List.replicate 100 b) (List.length_replicate ..)
      rw [readStruct_eq (by rwa [List.length_replicate])] at hprints
      obtain ⟨attr1, -, hprints⟩ := Option.bind_eq_some_iff.mp hprints
      obtain ⟨attr2, -, hprints⟩ := Option.bind_eq_some_iff.mp hprints
      obtain ⟨attr3, hattr3, hline⟩ := Option.bind_eq_some_iff.mp hprints
      rw [List.getElem?_append_right (by omega), List.drop_replicate] at hattr3
      have hmem := List.eq_of_mem_replicate (List.mem_of_getElem? hattr3)
      rw [← Option.some.inj hline]
      exact hmem
    exact absurd ((hbyte 0).symm.trans (hbyte 1)) (by decide)
  · intro hlen
    rw [sizeofUser] at hlen
    have hinside : ∀ off, off + 4 ≤ received.length →
        ∃ v, ∀ rest : Mem, readInt (received ++ rest) off = some v := fun _ => readInt_inside
    obtain ⟨attr1, hattr1⟩ := hinside 0 (by omega)
    obtain ⟨attr2, hattr2⟩ := hinside 4 (by omega)
    obtain ⟨attr3, hattr3⟩ : ∃ b, received[8]? = some b :=
      ⟨received.get ⟨8, by omega⟩, List.getElem?_eq_getElem (by omega)⟩
    refine ⟨{ attr1, attr2, attr3 }, ?_⟩
    intro stack hstack
    rw [readStruct_eq (by omega), hattr1, hattr2, List.getElem?_append_left (by omega), hattr3]
    rfl
  · intro u hu stack hstack
    obtain ⟨more, rfl⟩ := hu
    exact readStruct_bytes u (by omega)

/-- The structure of the client. -/
theorem read_struct_prints_one :
    let u : User := ⟨101, 201, false, by decide, by decide, by decide, by decide⟩
    ∀ stack : Mem, stack.length = 100 → readStruct stack u.bytes = some u.line := by
  intro u
  have hlen : u.bytes.length ≤ 100 := by
    rw [u.bytes_length]
    decide
  exact (read_struct_prints u.bytes hlen).2 u (List.prefix_refl _)

end SocketBasic
