import TestServer.Lib.CMemory

/-! # The packet codec of `protocol/rpc.h` and `protocol/rpc.cpp`

    A packet is a `Message`: a magic number, the length of the whole packet
    and a NUL-terminated text. `Header` and `Message` are packed, so the magic
    number is at offset 0, the length at offset 4 and the text at offset 8.

    A buffer is the block of memory its pointer gives access to. The
    functions answer `none` when they would access memory outside it.
-/

open CMemory

namespace Rpc

/-- `Rpc::kMagic`. -/
def kMagic : UInt32 := 0x55443322

/-- `Rpc::kMaximumPacketLength`. -/
def kMaximumPacketLength : UInt32 := 1024000

theorem kMaximumPacketLength_toNat : kMaximumPacketLength.toNat = 1024000 := rfl

/-! ### The packed structures -/

/-- `struct Header`. -/
structure Header where
  magic : UInt32
  length : UInt32

/-- `sizeof(Header)`. -/
def sizeofHeader : Nat := 8

/-- `sizeof(Message)`: the two fields of the header and `char msg[1]`. -/
def sizeofMessage : Nat := 9

/-- The offset of `msg` in `Message`. -/
def offsetMsg : Nat := 8

/-- The two fields `Header` and `Message` begin with, read from a buffer. -/
def Header.read (buffer : Mem) : Option Header := do
  let magic ← readU32 buffer 0
  let length ← readU32 buffer 4
  some { magic, length }

/-! ### The functions of `Rpc` -/

/-- `ssize_t Rpc::GetMessageLength(const void *buffer, size_t length)`. -/
def getMessageLength (buffer : Mem) (length : Nat) : Option Int :=
  if length < sizeofHeader then some 0
  else do
    let header ← Header.read buffer
    if header.magic ≠ kMagic then some (-1)
    else if header.length > kMaximumPacketLength then some (-1)
    else some header.length.toNat

/-- `size_t Rpc::GetMessageLength(const std::string &msg)`. -/
def getStringMessageLength (msg : List UInt8) : Option Nat := do
  let n ← strlen (c_str msg)
  some (sizeofMessage + n)

/-- `int Rpc::Parse(const void *buffer, size_t length, std::string &msg)`: the return code and
    the new value of `msg`. The `printf` at its start reads the whole text, whatever the two
    checks say after it. -/
def parse (buffer : Mem) (length : Nat) (msg : List UInt8) : Option (Int × List UInt8) := do
  let message ← Header.read buffer
  -- from here on `text` is known to end inside the memory
  let text ← cstr (buffer.drop offsetMsg)
  if message.length.toNat > length then some (-1, msg)
  else if text.length > length then some (-2, msg)
  else some (0, text)

/-- `size_t Rpc::Serialize(void *buffer, const std::string &msg)`: the buffer after the call and
    the value returned. -/
def serialize (buffer : Mem) (msg : List UInt8) : Option (Mem × Nat) := do
  let n ← strlen (c_str msg)
  if n + sizeofMessage > kMaximumPacketLength.toNat then some (buffer, 0)
  else
    let buffer ← writeU32 buffer 0 kMagic
    -- both summands are cast to `uint32_t` before they are added
    let buffer ← writeU32 buffer 4 (UInt32.ofNat sizeofMessage + UInt32.ofNat n)
    let buffer ← strcpy buffer offsetMsg (c_str msg)
    let length ← readU32 buffer 4
    some (buffer, length.toNat)

/-! ### What the two readers can answer -/

/-- Eight accessible bytes hold a header, whatever follows them. -/
theorem Header.read_append {f : List UInt8} (h : sizeofHeader ≤ f.length) (r : List UInt8) :
    ∃ header, Header.read f = some header ∧ Header.read (f ++ r) = some header := by
  -- a field that lies inside `f` does not depend on what follows `f`
  have hfield : ∀ off, off + 4 ≤ f.length → ∃ v, readU32 f off = some v ∧
      readU32 (f ++ r) off = some v := by
    intro off hoff
    refine ⟨UInt32.ofNat (ofLE ((f.drop off).take 4)), ?_, ?_⟩
    · simp [readU32, readBytes, hoff]
    · have htake : ((f ++ r).drop off).take 4 = (f.drop off).take 4 := by
        rw [List.drop_append_of_le_length (by omega), List.take_append_of_le_length]
        rw [List.length_drop]
        omega
      unfold readU32 readBytes
      rw [if_pos (by rw [List.length_append]; omega), htake, Option.map_some]
  simp only [sizeofHeader] at h
  obtain ⟨magic, hm, hm'⟩ := hfield 0 (by omega)
  obtain ⟨length, hl, hl'⟩ := hfield 4 (by omega)
  exact ⟨{ magic, length }, by simp [Header.read, hm, hl], by simp [Header.read, hm', hl']⟩

/-- The header is read once enough bytes were received, and then more of them change nothing. -/
theorem getMessageLength_of_le {buffer : Mem} {n : Nat} (h : sizeofHeader ≤ n) :
    getMessageLength buffer n = getMessageLength buffer sizeofHeader := by
  unfold getMessageLength
  rw [if_neg (by omega), if_neg (by omega)]

/-- A packet's length is within the limit, or the header is rejected. -/
theorem getMessageLength_range {buffer : Mem} {n : Nat} {l : Int}
    (h : getMessageLength buffer n = some l) : l = -1 ∨ (0 ≤ l ∧ l ≤ 1024000) := by
  unfold getMessageLength at h
  split at h
  · -- fewer bytes than a header
    exact Or.inr (by simp at h; omega)
  · cases hr : Header.read buffer with
    | none => simp [hr] at h
    | some header =>
      simp only [hr, Option.bind_eq_bind, Option.bind_some] at h
      split at h
      · -- the wrong magic number
        exact Or.inl (Option.some.inj h).symm
      · split at h
        · -- a length above the limit
          exact Or.inl (Option.some.inj h).symm
        · next hlen =>
          have hle : header.length.toNat ≤ 1024000 := by
            rw [← kMaximumPacketLength_toNat]
            exact Nat.le_of_not_lt fun hlt => hlen (UInt32.lt_iff_toNat_lt.mpr hlt)
          have hl := Option.some.inj h
          exact Or.inr (by omega)

/-- Eight accessible bytes are enough for `GetMessageLength` to answer. -/
theorem getMessageLength_isSome {buffer : Mem} (h : sizeofHeader ≤ buffer.length) (n : Nat) :
    ∃ l, getMessageLength buffer n = some l := by
  obtain ⟨header, hread, -⟩ := Header.read_append h []
  unfold getMessageLength
  split
  · exact ⟨_, rfl⟩
  · simp only [hread, Option.bind_eq_bind, Option.bind_some]
    split
    · exact ⟨_, rfl⟩
    · split <;> exact ⟨_, rfl⟩

/-- A header that was looked at is there to be read. -/
theorem read_of_getMessageLength {buffer : Mem} {n : Nat} {l : Int} (hn : sizeofHeader ≤ n)
    (h : getMessageLength buffer n = some l) : ∃ header, Header.read buffer = some header := by
  unfold getMessageLength at h
  rw [if_neg (by omega)] at h
  cases hr : Header.read buffer with
  | none => simp [hr] at h
  | some header => exact ⟨header, rfl⟩

/-- `Parse` stays inside the memory when the text meets a NUL there. -/
theorem parse_of_terminated {buffer : Mem} {header : Header}
    (hread : Header.read buffer = some header) (hnul : 0 ∈ buffer.drop offsetMsg) (length : Nat)
    (msg : List UInt8) : ∃ ret out, parse buffer length msg = some (ret, out) := by
  obtain ⟨text, htext⟩ := Option.ne_none_iff_exists'.mp (mt cstr_eq_none.mp (not_not.mpr hnul))
  unfold parse
  rw [hread, htext]
  simp only [Option.bind_eq_bind, Option.bind_some]
  -- each of the three ways out returns something
  split
  · exact ⟨_, _, rfl⟩
  · split <;> exact ⟨_, _, rfl⟩

theorem parse_of_unterminated {buffer : Mem} (hnul : 0 ∉ buffer.drop offsetMsg) (length : Nat)
    (msg : List UInt8) : parse buffer length msg = none := by
  unfold parse
  rw [cstr_eq_none.mpr hnul]
  cases Header.read buffer <;> rfl

/-! ### Payloads and their frames -/

/-- A text that fits in a packet: no NUL inside, and short enough for the packet's length to be
    within the limit. -/
structure Payload where
  text : List UInt8
  nul_free : 0 ∉ text
  fits : text.length + sizeofMessage ≤ kMaximumPacketLength.toNat

/-- The length of a payload's packet. -/
def Payload.size (p : Payload) : Nat := p.text.length + sizeofMessage

/-- The value of the length field of a payload's packet. -/
def Payload.lengthField (p : Payload) : UInt32 := UInt32.ofNat p.size

/-- The bytes of a payload's packet. -/
def Payload.frame (p : Payload) : List UInt8 :=
  toLE 4 kMagic.toNat ++ (toLE 4 p.lengthField.toNat ++ (p.text ++ [0]))

/-- The payload a string is sent as: its bytes before the first NUL. -/
def Payload.ofString (s : List UInt8)
    (h : (beforeNul s).length + sizeofMessage ≤ kMaximumPacketLength.toNat) : Payload where
  text := beforeNul s
  nul_free := zero_notMem_beforeNul s
  fits := h

namespace Payload

theorem ext_text {p q : Payload} (h : p.text = q.text) : p = q := by
  cases p
  cases q
  cases h
  rfl

theorem size_le (p : Payload) : p.size ≤ 1024000 := by
  rw [← kMaximumPacketLength_toNat]
  exact p.fits

theorem size_ge (p : Payload) : sizeofMessage ≤ p.size := Nat.le_add_left _ _

@[simp] theorem frame_length (p : Payload) : p.frame.length = p.size := by
  simp only [frame, List.length_append, toLE_length, List.length_singleton, size, sizeofMessage]
  omega

/-- The length field of a packet holds its length: nothing is lost in 32 bits. -/
@[simp] theorem toNat_lengthField (p : Payload) : p.lengthField.toNat = p.size := by
  have hle := p.size_le
  rw [lengthField, UInt32.toNat_ofNat']
  omega

theorem frame_append (p : Payload) (rest : List UInt8) :
    p.frame ++ rest
      = toLE 4 kMagic.toNat ++ (toLE 4 p.lengthField.toNat ++ (p.text ++ 0 :: rest)) := by
  simp only [frame, List.append_assoc, List.singleton_append]

theorem read_frame (p : Payload) (rest : List UInt8) :
    Header.read (p.frame ++ rest) = some { magic := kMagic, length := p.lengthField } := by
  have hmagic : readU32 (p.frame ++ rest) 0 = some kMagic := by
    rw [frame_append, readU32_first]
  have hlength : readU32 (p.frame ++ rest) 4 = some p.lengthField := by
    rw [frame_append, readU32_append (toLE_length 4 _).symm]
  simp only [Header.read, hmagic, hlength, Option.bind_eq_bind, Option.bind_some]

theorem drop_frame (p : Payload) (rest : List UInt8) :
    (p.frame ++ rest).drop offsetMsg = p.text ++ 0 :: rest := by
  rw [frame_append, ← List.append_assoc]
  exact List.drop_left' (by simp [offsetMsg])

theorem getMessageLength_of_read {p : Payload} {buffer : Mem} {n : Nat} (hn : sizeofHeader ≤ n)
    (hread : Header.read buffer = some { magic := kMagic, length := p.lengthField }) :
    getMessageLength buffer n = some (p.size : Int) := by
  have hle : ¬ kMaximumPacketLength < p.lengthField := by
    rw [UInt32.lt_iff_toNat_lt, toNat_lengthField]
    exact Nat.not_lt.mpr p.fits
  unfold getMessageLength
  rw [if_neg (by omega), hread]
  simp [hle]

/-- `GetMessageLength` on a packet, whatever follows it. -/
theorem getMessageLength_frame (p : Payload) (rest : List UInt8) {n : Nat}
    (hn : sizeofHeader ≤ n) : getMessageLength (p.frame ++ rest) n = some (p.size : Int) :=
  getMessageLength_of_read hn (p.read_frame rest)

/-- `GetMessageLength` on the beginning of a packet. -/
theorem getMessageLength_begun {p : Payload} {left : List UInt8} (hleft : left <+: p.frame)
    (hheader : sizeofHeader ≤ left.length) (rest : List UInt8) {n : Nat} (hn : sizeofHeader ≤ n) :
    getMessageLength (left ++ rest) n = some (p.size : Int) := by
  obtain ⟨more, hmore⟩ := hleft
  obtain ⟨header, hread, hreadmore⟩ := Header.read_append hheader more
  obtain ⟨header', hread', hreadrest⟩ := Header.read_append hheader rest
  -- the header that was read is the one of the whole packet
  have hframe := p.read_frame []
  rw [List.append_nil, ← hmore, hreadmore] at hframe
  rw [hread] at hread'
  exact getMessageLength_of_read hn (hreadrest.trans (hread'.symm.trans hframe))

/-- `Parse` on a packet, whatever follows it. -/
theorem parse_frame (p : Payload) (rest msg : List UInt8) :
    parse (p.frame ++ rest) p.size msg = some (0, p.text) := by
  have htext : ¬ p.text.length > p.size := by simp [size]
  unfold parse
  rw [read_frame, drop_frame, cstr_append_nul p.nul_free]
  simp [htext]

end Payload

/-! ### `Serialize` -/

/-- The previous content of the memory a packet is written to, cut at the fields of the packet. -/
theorem exists_fields {prev : List UInt8} {p : Payload} (h : prev.length = p.size) :
    ∃ m4 l4 t : List UInt8, prev = m4 ++ (l4 ++ t) ∧ m4.length = 4 ∧ l4.length = 4 ∧
      t.length = p.text.length + 1 := by
  have hsize : prev.length = p.text.length + 9 := h
  refine ⟨prev.take 4, (prev.drop 4).take 4, (prev.drop 4).drop 4, ?_, ?_, ?_, ?_⟩
  · rw [List.take_append_drop, List.take_append_drop]
  · rw [List.length_take]
    omega
  · rw [List.length_take, List.length_drop]
    omega
  · rw [List.length_drop, List.length_drop]
    omega

/-- `Serialize` into a buffer that has room for the packet. -/
theorem serialize_frame (p : Payload) {s prev : List UInt8} (rest : List UInt8)
    (hs : beforeNul s = p.text) (hprev : prev.length = p.size) :
    serialize (prev ++ rest) s = some (p.frame ++ rest, p.size) := by
  have hfits : ¬ p.text.length + sizeofMessage > kMaximumPacketLength.toNat :=
    Nat.not_lt.mpr p.fits
  -- adding in 32 bits gives the length field of the packet
  have hadd : UInt32.ofNat sizeofMessage + UInt32.ofNat p.text.length = p.lengthField := by
    rw [← UInt32.ofNat_add, Nat.add_comm]
    rfl
  obtain ⟨m4, l4, t, rfl, hm, hl, ht⟩ := exists_fields hprev
  -- the three stores, one after the other, and the length read back
  have hmagic : writeU32 (m4 ++ (l4 ++ (t ++ rest))) 0 kMagic
      = some (toLE 4 kMagic.toNat ++ (l4 ++ (t ++ rest))) :=
    writeU32_first kMagic _ hm
  have hlength : writeU32 (toLE 4 kMagic.toNat ++ (l4 ++ (t ++ rest))) 4 p.lengthField
      = some (toLE 4 kMagic.toNat ++ (toLE 4 p.lengthField.toNat ++ (t ++ rest))) :=
    writeU32_append _ (toLE_length 4 _).symm hl
  have htext : strcpy (toLE 4 kMagic.toNat ++ (toLE 4 p.lengthField.toNat ++ (t ++ rest)))
      offsetMsg (c_str s) = some (p.frame ++ rest) := by
    unfold strcpy
    rw [cstr_c_str, hs, Option.bind_eq_bind, Option.bind_some, ← List.append_assoc,
      writeBytes_append (by simp [offsetMsg]) (by simpa using ht), p.frame_append]
    simp
  have hread : readU32 (p.frame ++ rest) 4 = some p.lengthField := by
    rw [p.frame_append, readU32_append (toLE_length 4 _).symm]
  unfold serialize
  simp only [strlen_c_str, hs, Option.bind_eq_bind, Option.bind_some, if_neg hfits, hadd,
    List.append_assoc, hmagic, hlength, htext, hread]
  rw [p.toNat_lengthField]

/-- `Serialize` refuses a string whose packet would be too long, and leaves the buffer alone. -/
theorem serialize_too_long {s : List UInt8} (buffer : Mem)
    (h : kMaximumPacketLength.toNat < (beforeNul s).length + sizeofMessage) :
    serialize buffer s = some (buffer, 0) := by
  simp [serialize, h]

end Rpc
