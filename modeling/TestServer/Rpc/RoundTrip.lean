import TestServer.Lib.PrefixCode
import TestServer.Rpc.Codec

/-! # What `Serialize` writes, `GetMessageLength` and `Parse` read back

    * `serialize_round_trip`: the codec is a round trip on every string, up to
      its first NUL and up to the packet limit.
    * `Serializes`: the packets, as the byte strings `Serialize` produces.
      `serializes_iff` ties them to the payloads.
    * `serialize_touches_frame`: the bytes `Serialize` writes are exactly those
      `GetMessageLength` of the string counts.
    * `code`: packets form a prefix code, so a stream of packets can be cut
      into them in one way only.
-/

open CMemory

namespace Rpc

/-! ### The round trip -/

/-- A string whose packet fits comes back from every buffer as its bytes before the first NUL,
    whatever the buffer held and whatever follows the packet; a string whose packet does not fit
    leaves the buffer as it was. -/
theorem serialize_round_trip (s : List UInt8) :
    ((beforeNul s).length + sizeofMessage ≤ kMaximumPacketLength.toNat →
      ∀ prev rest : List UInt8, prev.length = (beforeNul s).length + 9 →
        ∃ buffer, serialize (prev ++ rest) s = some (buffer, (beforeNul s).length + 9) ∧
          (∀ n, sizeofHeader ≤ n →
            getMessageLength buffer n = some (((beforeNul s).length + 9 : Nat) : Int)) ∧
          ∀ out, parse buffer ((beforeNul s).length + 9) out = some (0, beforeNul s)) ∧
    (¬ (beforeNul s).length + sizeofMessage ≤ kMaximumPacketLength.toNat →
      ∀ buffer, serialize buffer s = some (buffer, 0)) := by
  constructor
  · -- the packet fits
    intro hfits prev rest hprev
    let p := Payload.ofString s hfits
    refine ⟨p.frame ++ rest, serialize_frame p rest rfl hprev, ?_, ?_⟩
    · intro n hn
      exact p.getMessageLength_frame rest hn
    · intro out
      exact p.parse_frame rest out
  · -- the packet would be too long
    intro hlong buffer
    exact serialize_too_long buffer (Nat.lt_of_not_le hlong)

/-- The round trip of `Hi`, written over an old buffer and followed by another packet's magic. -/
theorem serialize_round_trip_hi :
    ∃ buffer, serialize (List.replicate 11 7 ++ [0x22, 0x33]) [72, 105] = some (buffer, 11) ∧
      (∀ n, sizeofHeader ≤ n → getMessageLength buffer n = some 11) ∧
      ∀ out, parse buffer 11 out = some (0, [72, 105]) :=
  (serialize_round_trip [72, 105]).1 (by decide) (List.replicate 11 7) [0x22, 0x33] rfl

/-! ### Packets -/

/-- `f` is the packet of the string `s`: what `Serialize` leaves in a buffer of exactly the size
    it returns. -/
def Serializes (s f : List UInt8) : Prop :=
  f ≠ [] ∧ ∃ prev, serialize prev s = some (f, f.length)

/-- A buffer too small for the packet is overrun. -/
theorem serialize_no_room {s : List UInt8} {buffer : Mem} (p : Payload) (hs : beforeNul s = p.text)
    (h : buffer.length < p.size) : serialize buffer s = none := by
  have hfits : ¬ p.text.length + sizeofMessage > kMaximumPacketLength.toNat :=
    Nat.not_lt.mpr p.fits
  -- if not one of the two fields, `strcpy` leaves the buffer
  have hcopy : ∀ b : Mem, b.length = buffer.length → strcpy b offsetMsg (c_str s) = none := by
    intro b hb
    have hroom : ¬ offsetMsg + (p.text ++ [0]).length ≤ b.length := by
      have hsize : p.size = p.text.length + 9 := rfl
      simp only [offsetMsg, List.length_append, List.length_singleton]
      omega
    unfold strcpy writeBytes
    rw [cstr_c_str, hs, Option.bind_eq_bind, Option.bind_some, if_neg hroom]
  unfold serialize
  simp only [strlen_c_str, hs, Option.bind_eq_bind, Option.bind_some, if_neg hfits]
  cases hm : writeU32 buffer 0 kMagic with
  | none => rfl
  | some b =>
    simp only [Option.bind_some]
    cases hl : writeU32 b 4 (UInt32.ofNat sizeofMessage + UInt32.ofNat p.text.length) with
    | none => rfl
    | some b' =>
      have hlen : b'.length = buffer.length :=
        (writeBytes_length hl).trans (writeBytes_length hm)
      simp only [Option.bind_some, hcopy b' hlen, Option.bind_none]

/-- `Serialize` writes the `length` bytes `GetMessageLength` of the string counts, each of them and
    no other: what they hold afterwards does not depend on the buffer, what follows them stays, and
    a buffer with fewer bytes is overrun. The value returned and the length field are `length`. A
    string whose packet does not fit leaves every buffer as it was. -/
theorem serialize_touches_frame (s : List UInt8) :
    ∃ length, getStringMessageLength s = some length ∧
      (length ≤ kMaximumPacketLength.toNat →
        (∃ bytes : List UInt8, bytes.length = length ∧
          ∀ buffer : Mem, length ≤ buffer.length →
            ∃ after, serialize buffer s = some (after, length) ∧
              after.take length = bytes ∧ after.drop length = buffer.drop length ∧
              (readU32 after 4).map UInt32.toNat = some length) ∧
        ∀ buffer : Mem, buffer.length < length → serialize buffer s = none) ∧
      (kMaximumPacketLength.toNat < length → ∀ buffer, serialize buffer s = some (buffer, 0)) := by
  refine ⟨sizeofMessage + (beforeNul s).length, by simp [getStringMessageLength], ?_, ?_⟩
  · intro hfits
    rw [Nat.add_comm] at hfits ⊢
    let p := Payload.ofString s hfits
    constructor
    · refine ⟨p.frame, p.frame_length, ?_⟩
      intro buffer hroom
      -- the bytes of the packet go over the front of the buffer
      obtain ⟨prev, rest, rfl, hprev⟩ := exists_block hroom
      refine ⟨p.frame ++ rest, serialize_frame p rest rfl hprev, ?_, ?_, ?_⟩
      · exact List.take_left' p.frame_length
      · rw [List.drop_left' hprev]
        exact List.drop_left' p.frame_length
      · rw [p.frame_append, readU32_append (toLE_length 4 _).symm, Option.map_some,
          p.toNat_lengthField]
        rfl
    · intro buffer hroom
      exact serialize_no_room p rfl hroom
  · intro hlong buffer
    exact serialize_too_long buffer (by rwa [Nat.add_comm])

/-- No packet is the beginning of another one: it carries its length and its text. -/
theorem frame_injective {p q : Payload} {x y : List UInt8} (h : p.frame ++ x = q.frame ++ y) :
    p = q := by
  have hsize : p.size = q.size := by
    have hp := p.getMessageLength_frame x (le_refl sizeofHeader)
    rw [h, q.getMessageLength_frame y (le_refl sizeofHeader)] at hp
    simpa using (Option.some.inj hp).symm
  have htext := p.parse_frame x []
  rw [h, hsize, q.parse_frame y []] at htext
  exact Payload.ext_text (Prod.mk.inj (Option.some.inj htext)).2.symm

theorem frame_ne_nil (p : Payload) : p.frame ≠ [] := by
  intro hnil
  have hlen := p.frame_length
  have hsize := p.size_ge
  rw [hnil, List.length_nil] at hlen
  rw [sizeofMessage] at hsize
  omega

/-- The packets are the frames of the payloads. -/
theorem serializes_iff {s f : List UInt8} :
    Serializes s f ↔ ∃ p : Payload, beforeNul s = p.text ∧ f = p.frame := by
  constructor
  · intro hs
    obtain ⟨hne, prev, hser⟩ := hs
    by_cases hfits : (beforeNul s).length + sizeofMessage ≤ kMaximumPacketLength.toNat
    · let p := Payload.ofString s hfits
      by_cases hroom : p.size ≤ prev.length
      · have hprev : (prev.take p.size).length = p.size := by
          rw [List.length_take]
          omega
        have hframe := serialize_frame p (prev.drop p.size) rfl hprev
        rw [List.take_append_drop, hser] at hframe
        obtain ⟨hf, hlen⟩ := Prod.mk.inj (Option.some.inj hframe)
        -- the buffer is no longer than the packet
        have hdrop : prev.drop p.size = [] := by
          have := congrArg List.length hf
          rw [List.length_append, p.frame_length] at this
          exact List.length_eq_zero_iff.mp (by omega)
        exact ⟨p, rfl, by rw [hf, hdrop, List.append_nil]⟩
      · rw [serialize_no_room p rfl (by omega)] at hser
        cases hser
    · -- a string that is too long makes no packet: it returns 0, and `f` is not empty
      rw [serialize_too_long prev (by omega)] at hser
      obtain ⟨-, hzero⟩ := Prod.mk.inj (Option.some.inj hser)
      exact absurd (List.length_eq_zero_iff.mp hzero.symm) hne
  · intro hp
    obtain ⟨p, hs, rfl⟩ := hp
    have hprev : (List.replicate p.size (0 : UInt8)).length = p.size := List.length_replicate ..
    exact ⟨frame_ne_nil p, List.replicate p.size 0, by simpa using serialize_frame p [] hs hprev⟩

/-- Packets form a prefix code. -/
def code : PrefixCode Payload UInt8 where
  encode := Payload.frame
  prefix_free := frame_injective
  encode_ne_nil := frame_ne_nil

/-- The packets of a list of strings are those of a list of payloads. -/
theorem exists_payloads {ss fs : List (List UInt8)} (h : List.Forall₂ Serializes ss fs) :
    ∃ ps : List Payload, ss.map beforeNul = ps.map Payload.text ∧ fs = ps.map code.encode := by
  induction h with
  | nil => exact ⟨[], rfl, rfl⟩
  | cons hsf _ ih =>
    obtain ⟨p, hs, rfl⟩ := serializes_iff.mp hsf
    obtain ⟨ps, hss, rfl⟩ := ih
    exact ⟨p :: ps, by simp [hs, hss], rfl⟩

/-- The packets of a list of strings are the stream of their payloads. -/
theorem forall₂_serializes {ss fs : List (List UInt8)} (h : List.Forall₂ Serializes ss fs) :
    ∃ ps : List Payload, ss.map beforeNul = ps.map Payload.text ∧
      fs.flatten = code.encodeAll ps := by
  obtain ⟨ps, hss, rfl⟩ := exists_payloads h
  exact ⟨ps, hss, code.flatten_map_encode ps⟩

end Rpc
