import TestServer.Receiver.Reassembly

/-! # One message, handed over without cuts

    `Serialize` makes packets of up to `kMaximumPacketLength` bytes, and
    `GetMessageLength` accepts them. `read_string` has room for 1024 bytes. Its
    check against `buffer_length` comes after the read and never fails, since
    no more than the room was asked for, so of a longer packet it hands the
    first 1024 bytes to `parse`.

    * `Receives`: what a receiver must do with a message sent alone.
    * `receives_iff`: `read_string` does so exactly when the packet fits in its
      buffer.
-/

open CMemory Loop

namespace Receiver

/-- A socket from which the packet `f` can be read, and nothing after it; `readn` hands over all
    it is asked for while it can. -/
def Socket.single (f : List UInt8) : Socket := .start f []

/-- On the packet `f`, `read_string` returns without error, having stayed inside its buffer, and
    what it delivered is the message `s`, once. -/
def Receives (s f : List UInt8) (mem : Mem) : Prop :=
  ∃ r ret, ReadStringReturns Socket.readn mem (.single f) r ∧ r.ret = some ret ∧ 0 ≤ ret ∧
    r.delivered.map Delivery.msg = [s]

variable {f : List UInt8} {mem : Mem}

/-- The first read takes the bytes there is room for. -/
theorem block_single (f : List UInt8) : (Held.start f []).block = f.take bufferLength := by
  show [] ++ f.take (min bufferLength f.length) = f.take bufferLength
  rw [List.nil_append, ← List.take_take, List.take_length]

/-- A packet that fits is delivered. -/
theorem receives_of_fits (p : Rpc.Payload) (hmem : mem.length = bufferLength)
    (hfits : p.size ≤ bufferLength) : Receives p.text p.frame mem := by
  have hlen : p.frame.length = p.size := p.frame_length
  have hblock : (Held.start p.frame []).block = Rpc.code.encodeAll [p] := by
    rw [block_single, List.take_of_length_le (by omega)]
    exact (List.append_nil p.frame).symm
  have hfinishes : (Held.start p.frame []).Finishes := Or.inr ⟨Rpc.frame_ne_nil p, [p], hblock⟩
  obtain ⟨r, total, done, hr, hret, hlow, hhigh, hsock, htaken, hdelivered⟩ :=
    (Tracks.start hmem p.frame []).finishes hfinishes
  -- all of the packet was taken, so it is what was delivered
  have hall : Rpc.code.encodeAll done = Rpc.code.encodeAll [p] := by
    rw [← htaken, hsock, ← hblock]
    rfl
  obtain rfl : done = [p] := PrefixCode.encodeAll_injective hall
  have hshort : r.sock.taken.length ≤ 1024 := by
    rw [htaken, ← hblock, block_single, List.length_take]
    exact Nat.min_le_left _ _
  have hint : intOf total = total := intOf_of_range hlow (by omega)
  exact ⟨r, total, hr, hret.trans (by rw [hint]), hlow, hdelivered⟩

/-- Of a packet that does not fit, `parse` consumes the whole. -/
theorem not_receives_of_long {s : List UInt8} (p : Rpc.Payload) (hmem : mem.length = bufferLength)
    (hlong : bufferLength < p.size) : ¬ Receives s p.frame mem := by
  have hlen : p.frame.length = p.size := p.frame_length
  have hfirst : (p.frame.take bufferLength).length = bufferLength := by
    rw [List.length_take]
    omega
  have hcut : (Held.start p.frame []).CutsPacket := by
    refine ⟨Rpc.frame_ne_nil p, [], p, p.frame.take bufferLength, block_single p.frame,
      List.take_prefix _ _, ?_, ?_⟩
    · rw [hfirst]
      decide
    · rw [hfirst]
      exact hlong
  obtain ⟨r, hr, hnone⟩ := (Tracks.start hmem p.frame []).cutsPacket hcut
  intro hreceives
  obtain ⟨r', ret, hr', hret, -⟩ := hreceives
  rw [Returns.unique hr' hr, hnone] at hret
  cases hret

/-- `read_string` receives a message that `Serialize` accepts exactly when its packet is no longer
    than the buffer. -/
theorem receives_iff (s f : List UInt8) (hser : Rpc.Serializes s f) (hnul : 0 ∉ s) (mem : Mem)
    (hmem : mem.length = bufferLength) : Receives s f mem ↔ f.length ≤ bufferLength := by
  obtain ⟨p, hs, rfl⟩ := Rpc.serializes_iff.mp hser
  rw [beforeNul_of_notMem hnul] at hs
  rw [hs, p.frame_length]
  constructor
  · intro hreceives
    by_contra hlong
    exact not_receives_of_long p hmem (by omega) hreceives
  · exact receives_of_fits p hmem

/-- The packet of `hi` fits. -/
theorem receives_iff_hi :
    Receives [104, 105] [0x22, 0x33, 0x44, 0x55, 11, 0, 0, 0, 104, 105, 0]
      (List.replicate 1024 7) :=
  (receives_iff _ _ ⟨by decide, List.replicate 11 0, by decide⟩ (by decide) _
    (List.length_replicate ..)).mpr (by decide)

/-- A text of 1016 bytes makes a packet that is one byte too long. -/
theorem long_message_lost :
    ¬ ∀ (s f : List UInt8) (mem : Mem), Rpc.Serializes s f → 0 ∉ s → mem.length = bufferLength →
      Receives s f mem := by
  intro hall
  let p : Rpc.Payload :=
    { text := List.replicate 1016 97
      nul_free := fun h => absurd (List.eq_of_mem_replicate h) (by decide)
      fits := by rw [List.length_replicate, Rpc.kMaximumPacketLength_toNat]; decide }
  have hlong : bufferLength < p.size := by
    rw [Rpc.Payload.size, List.length_replicate]
    decide
  have hser : Rpc.Serializes p.text p.frame :=
    Rpc.serializes_iff.mpr ⟨p, beforeNul_of_notMem p.nul_free, rfl⟩
  have hmem : (List.replicate 1024 (0 : UInt8)).length = bufferLength := List.length_replicate ..
  exact not_receives_of_long p hmem hlong (hall _ _ _ hser p.nul_free hmem)

end Receiver
