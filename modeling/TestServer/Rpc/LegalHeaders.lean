import TestServer.Rpc.RoundTrip

/-! # The headers `GetMessageLength` takes

    A header is legal when `Serialize` writes it for some string. It is the
    magic number, then a length between that of the empty text's packet and the
    limit.

    * `LegalHeader`, `legalHeader_iff`: the legal headers.
    * `getMessageLength_of_magic`, `getMessageLength_of_not_magic`: what
      `GetMessageLength` answers to each header.
    * `agrees_iff`: it agrees with `Serialize` on all headers but those with the
      magic number and a length below `sizeof(Message)`.
-/

open CMemory

namespace Rpc

/-! ### Headers as bytes -/

/-- The eight bytes of a header with the magic number and this length. -/
def headerBytes (length : Nat) : List UInt8 := toLE 4 kMagic.toNat ++ toLE 4 length

@[simp] theorem headerBytes_length (length : Nat) : (headerBytes length).length = sizeofHeader := by
  simp [headerBytes, sizeofHeader]

/-- The header of a packet. -/
theorem Payload.take_frame (p : Payload) : p.frame.take sizeofHeader = headerBytes p.size := by
  have hcut : p.frame = headerBytes p.size ++ (p.text ++ [0]) := by
    rw [frame, headerBytes, p.toNat_lengthField, List.append_assoc]
  rw [hcut, List.take_left' (headerBytes_length p.size)]

/-- Eight bytes are the two fields of a header. -/
theorem exists_header {bytes : List UInt8} (h : bytes.length = sizeofHeader) :
    ∃ magic length : UInt32, bytes = toLE 4 magic.toNat ++ toLE 4 length.toNat := by
  have hfield : ∀ field : List UInt8, field.length = 4 → ∃ v : UInt32, toLE 4 v.toNat = field := by
    intro field hfour
    have hlt : ofLE field < 256 ^ 4 := hfour ▸ ofLE_lt field
    refine ⟨UInt32.ofNat (ofLE field), ?_⟩
    rw [UInt32.toNat_ofNat', Nat.mod_eq_of_lt (by omega), ← hfour, toLE_ofLE]
  rw [sizeofHeader] at h
  obtain ⟨magic, length, rfl, hmagic⟩ := exists_block (m := bytes) (n := 4) (by omega)
  rw [List.length_append] at h
  obtain ⟨m, rfl⟩ := hfield magic hmagic
  obtain ⟨l, rfl⟩ := hfield length (by omega)
  exact ⟨m, l, rfl⟩

theorem read_header (magic length : UInt32) (rest : Mem) :
    Header.read (toLE 4 magic.toNat ++ toLE 4 length.toNat ++ rest) = some { magic, length } := by
  have hmagic : readU32 (toLE 4 magic.toNat ++ (toLE 4 length.toNat ++ rest)) 0 = some magic :=
    readU32_first _ _
  have hlength : readU32 (toLE 4 magic.toNat ++ (toLE 4 length.toNat ++ rest)) 4 = some length :=
    readU32_append (toLE_length 4 _).symm
  simp only [Header.read, List.append_assoc, hmagic, hlength, Option.bind_eq_bind, Option.bind_some]

/-! ### What `GetMessageLength` answers -/

/-- With the magic number, a length within the limit is the answer. -/
theorem getMessageLength_of_magic {length n : Nat} (hlen : length ≤ kMaximumPacketLength.toNat)
    (hn : sizeofHeader ≤ n) (rest : Mem) :
    getMessageLength (headerBytes length ++ rest) n = some (length : Int) := by
  have hmax : kMaximumPacketLength.toNat = 1024000 := rfl
  have hfield : (UInt32.ofNat length).toNat = length := by
    rw [UInt32.toNat_ofNat']
    omega
  have hread := read_header kMagic (UInt32.ofNat length) rest
  rw [hfield] at hread
  have hle : ¬ kMaximumPacketLength < UInt32.ofNat length := by
    rw [UInt32.lt_iff_toNat_lt, hfield]
    omega
  unfold getMessageLength headerBytes
  rw [if_neg (by omega), hread]
  simp [hle, hfield]

/-- Every other header is rejected. -/
theorem getMessageLength_of_not_magic {bytes : List UInt8} {n : Nat}
    (hbytes : bytes.length = sizeofHeader)
    (hnot : ∀ length ≤ kMaximumPacketLength.toNat, bytes ≠ headerBytes length)
    (hn : sizeofHeader ≤ n) (rest : Mem) : getMessageLength (bytes ++ rest) n = some (-1) := by
  obtain ⟨magic, length, rfl⟩ := exists_header hbytes
  unfold getMessageLength
  rw [if_neg (by omega), read_header, Option.bind_eq_bind, Option.bind_some]
  by_cases hmagic : magic = kMagic
  · subst hmagic
    -- the length is above the limit
    have hlong : kMaximumPacketLength < length := by
      rw [UInt32.lt_iff_toNat_lt]
      exact Nat.lt_of_not_le fun hle => hnot length.toNat hle rfl
    simp [hlong]
  · simp [hmagic]

/-! ### The headers `Serialize` writes -/

/-- `Serialize` writes this header for some string, whose packet has `length` bytes. -/
def LegalHeader (bytes : List UInt8) (length : Nat) : Prop :=
  ∃ s f, Serializes s f ∧ f.take sizeofHeader = bytes ∧ f.length = length

/-- The payload whose packet has a given length. -/
def Payload.ofSize (length : Nat) (hlow : sizeofMessage ≤ length)
    (hhigh : length ≤ kMaximumPacketLength.toNat) : Payload where
  text := List.replicate (length - sizeofMessage) 1
  nul_free := by
    rw [List.mem_replicate]
    exact fun h => absurd h.2 (by decide)
  fits := by
    rw [List.length_replicate]
    omega

/-- The legal headers have the magic number and a length between those of the empty packet and of
    the longest one. -/
theorem legalHeader_iff {bytes : List UInt8} {length : Nat} :
    LegalHeader bytes length ↔ sizeofMessage ≤ length ∧ length ≤ kMaximumPacketLength.toNat ∧
      bytes = headerBytes length := by
  constructor
  · intro h
    obtain ⟨s, f, hs, rfl, rfl⟩ := h
    obtain ⟨p, -, rfl⟩ := serializes_iff.mp hs
    rw [p.frame_length, p.take_frame]
    exact ⟨p.size_ge, p.fits, rfl⟩
  · intro h
    obtain ⟨hlow, hhigh, rfl⟩ := h
    let p := Payload.ofSize length hlow hhigh
    have hsize : p.size = length := by
      show (List.replicate (length - sizeofMessage) (1 : UInt8)).length + sizeofMessage = length
      rw [List.length_replicate]
      omega
    refine ⟨p.text, p.frame, serializes_iff.mpr ⟨p, beforeNul_of_notMem p.nul_free, rfl⟩, ?_, ?_⟩
    · rw [p.take_frame, hsize]
    · rw [p.frame_length, hsize]

/-! ### Agreement -/

/-- What is asked of `GetMessageLength` when `n` bytes were received that begin with this header,
    at least the header: a positive answer means that the header is legal and is the length of its
    packet, every other header is answered with -1, and none with 0. -/
structure Agrees (bytes rest : List UInt8) (n : Nat) : Prop where
  legal : ∀ length : Nat, 0 < length →
    (getMessageLength (bytes ++ rest) n = some (length : Int) ↔ LegalHeader bytes length)
  others : (∀ length, ¬ LegalHeader bytes length) →
    getMessageLength (bytes ++ rest) n = some (-1)
  not_zero : getMessageLength (bytes ++ rest) n ≠ some 0

theorem toLE_injective {w m n : Nat} (hm : m < 256 ^ w) (hn : n < 256 ^ w)
    (h : toLE w m = toLE w n) : m = n := by
  have hof := congrArg ofLE h
  rwa [ofLE_toLE, ofLE_toLE, Nat.mod_eq_of_lt hm, Nat.mod_eq_of_lt hn] at hof

theorem headerBytes_injective {m n : Nat} (hm : m ≤ kMaximumPacketLength.toNat)
    (hn : n ≤ kMaximumPacketLength.toNat) (h : headerBytes m = headerBytes n) : m = n := by
  rw [kMaximumPacketLength_toNat] at hm hn
  exact toLE_injective (by omega) (by omega) (List.append_cancel_left h)

variable {bytes : List UInt8} {n : Nat}

/-- A header with the magic number and a length within the limit is answered rightly exactly when
    there is a packet of that length. -/
theorem agrees_headerBytes {length : Nat} (hlen : length ≤ kMaximumPacketLength.toNat)
    (hn : sizeofHeader ≤ n) (rest : List UInt8) :
    Agrees (headerBytes length) rest n ↔ sizeofMessage ≤ length := by
  have hanswer := getMessageLength_of_magic hlen hn rest
  constructor
  · intro h
    have hpos : 0 < length := by
      by_contra hzero
      obtain rfl : length = 0 := by omega
      exact h.not_zero hanswer
    exact (legalHeader_iff.mp ((h.legal length hpos).mp hanswer)).1
  · intro hlow
    have hlegal : LegalHeader (headerBytes length) length := legalHeader_iff.mpr ⟨hlow, hlen, rfl⟩
    rw [sizeofMessage] at hlow
    constructor
    case legal =>
      intro length' _
      rw [hanswer]
      constructor
      · intro heq
        have hsame : length' = length := by simpa using heq.symm
        rwa [hsame]
      · intro h
        obtain ⟨-, hlen', hbytes⟩ := legalHeader_iff.mp h
        rw [headerBytes_injective hlen hlen' hbytes]
    case others => exact fun hnone => absurd hlegal (hnone length)
    case not_zero =>
      intro hzero
      have := Option.some.inj (hanswer.symm.trans hzero)
      omega

/-- A header that is rejected is not legal. -/
theorem agrees_of_not_magic (hbytes : bytes.length = sizeofHeader)
    (hnot : ∀ length ≤ kMaximumPacketLength.toNat, bytes ≠ headerBytes length)
    (hn : sizeofHeader ≤ n) (rest : List UInt8) : Agrees bytes rest n := by
  have hanswer := getMessageLength_of_not_magic hbytes hnot hn rest
  constructor
  case legal =>
    intro length _
    rw [hanswer]
    constructor
    · intro heq
      have := Option.some.inj heq
      omega
    · intro h
      obtain ⟨-, hlen, heq⟩ := legalHeader_iff.mp h
      exact absurd heq (hnot length hlen)
  case others => exact fun _ => hanswer
  case not_zero =>
    intro hzero
    have := Option.some.inj (hanswer.symm.trans hzero)
    omega

/-- `GetMessageLength` agrees with `Serialize` on every header but those with the magic number and
    a length below `sizeof(Message)`. -/
theorem agrees_iff (bytes rest : List UInt8) (n : Nat) (hbytes : bytes.length = sizeofHeader)
    (hn : sizeofHeader ≤ n) :
    Agrees bytes rest n ↔ ∀ length < sizeofMessage, bytes ≠ headerBytes length := by
  by_cases hmagic : ∃ length ≤ kMaximumPacketLength.toNat, bytes = headerBytes length
  · obtain ⟨length, hlen, rfl⟩ := hmagic
    rw [agrees_headerBytes hlen hn]
    constructor
    · intro hlow length' hshort heq
      have hle : length' ≤ kMaximumPacketLength.toNat := by omega
      have := headerBytes_injective hlen hle heq
      omega
    · intro hne
      by_contra hshort
      exact hne length (Nat.lt_of_not_le hshort) rfl
  · have hnot : ∀ length ≤ kMaximumPacketLength.toNat, bytes ≠ headerBytes length :=
      fun length hlen heq => hmagic ⟨length, hlen, heq⟩
    have hmax : sizeofMessage ≤ kMaximumPacketLength.toNat := by decide
    refine iff_of_true (agrees_of_not_magic hbytes hnot hn rest) ?_
    intro length hshort
    exact hnot length (by omega)

/-- The header of the packet of `Hi`. -/
theorem agrees_iff_hi : Agrees [0x22, 0x33, 0x44, 0x55, 11, 0, 0, 0] [72, 105, 0] 11 := by
  refine (agrees_iff _ _ 11 rfl (by decide)).mpr ?_
  intro length hshort heq
  have hmax : sizeofMessage ≤ kMaximumPacketLength.toNat := by decide
  have heleven : headerBytes 11 = headerBytes length := heq
  have := headerBytes_injective (by decide) (by omega) heleven
  rw [sizeofMessage] at hshort
  omega

/-- A length of 0 is answered with 0, as if the header had not been received. -/
theorem zero_length_waits :
    getMessageLength [0x22, 0x33, 0x44, 0x55, 0, 0, 0, 0] 8 = some 0 ∧
      ¬ Agrees [0x22, 0x33, 0x44, 0x55, 0, 0, 0, 0] [] 8 := by
  have hzero : getMessageLength [0x22, 0x33, 0x44, 0x55, 0, 0, 0, 0] 8 = some 0 := by decide
  exact ⟨hzero, fun h => h.not_zero hzero⟩

end Rpc
