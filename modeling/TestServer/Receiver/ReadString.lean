import TestServer.Receiver.Parse

/-! # `read_string`

    `read_string` of `sample_socket/test_server.cpp`, which
    `sample_client/test_client.cpp` holds as well. It fills a buffer of 1024
    bytes from the socket, lets `parse` print the packets in it, and keeps what
    `parse` left over for the next round:

    ```
    do {
        buffer_used = buffer;
        memset(buffer_used + count_used, 0, buffer_length - count_used);
        count = readn(fd, buffer_used + count_used, buffer_length - count_used);
        if (count == 0) break;
        if (count < 0) { free(buffer); return -1; }
        count_used = count_used + count;
        if (count_used > buffer_length) { free(buffer); return -1; }
        count_used = parse(buffer_used, count_used);
        strncpy((char *)buffer, (char *)buffer_used, count_used);
        total_length += count_used;
    } while(count_used != 0);
    free(buffer);
    return total_length;
    ```

    `parse` gets a copy of the pointer `buffer_used`, so `strncpy` copies the
    front of the buffer onto itself. `readn` is not part of this repository:
    it is a parameter.

    * `readPass`: one pass of `read_string`, or of the loop of `parse` in it.
    * `Socket`: a peer's stream, and a `readn` that cuts it anywhere.
    * `fillPass_block`, `visits_parsing`, `copyPass_kept`, `copyPass_negative`:
      what the three parts of a round do.
    * `returns_begun`: what happens where a packet is cut behind its header.
-/

open CMemory Loop

namespace Receiver

/-! ### The function -/

/-- `buffer_length`. -/
def bufferLength : Nat := 1024

/-- The conversion of the `ssize_t` that is returned to `int`. -/
def intOf (x : Int) : Int := x.bmod (2 ^ 32)

/-- A pointer into the buffer as an offset; there is none below the buffer. -/
def offset (p : Int) : Option Nat := if p < 0 then none else some p.toNat

variable {S : Type}

/-- The variables of `read_string` at the head of its loop, what was printed so far, and the
    socket. -/
structure ReadState (S : Type) where
  buffer : Mem
  count_used : Int
  total_length : Int
  delivered : List Delivery
  sock : S

/-- Where `read_string` is: at the head of its own loop, or of the loop of `parse`. -/
inductive ReadPoint (S : Type) where
  | filling (s : ReadState S)
  | parsing (s : ReadState S) (p : ParseState)

/-- How a call ended: with the value returned, or with `none` when it accessed memory outside the
    buffer; what it had printed by then; and the socket it left. -/
structure ReadResult (S : Type) where
  ret : Option Int
  delivered : List Delivery
  sock : S

/-- The call ends. -/
def ReadState.ends (s : ReadState S) (ret : Option Int) : Pass (ReadPoint S) (ReadResult S) :=
  .leave { ret, delivered := s.delivered, sock := s.sock }

/-- From the head of the loop to the call of `parse`. A `readn` that answers `none` returned a
    negative count. -/
def fillPass (readn : S → Nat → Option (List UInt8) × S) (s : ReadState S) :
    Pass (ReadPoint S) (ReadResult S) :=
  -- the third argument of `memset` and of `readn` is a `size_t`
  let room := sizeT (bufferLength - s.count_used)
  match (offset s.count_used).bind fun off => memset s.buffer off 0 room with
  | none => s.ends none
  | some buffer =>
    match readn s.sock room with
    | (none, sock) => { s with buffer, sock }.ends (some (-1))
    | (some chunk, sock) =>
      if chunk.length = 0 then { s with buffer, sock }.ends (some (intOf s.total_length))
      else
        -- what `readn` stores in the buffer
        match (offset s.count_used).bind fun off => writeBytes buffer off chunk with
        | none => { s with buffer, sock }.ends none
        | some buffer =>
          let s := { s with buffer, sock, count_used := s.count_used + chunk.length }
          if bufferLength < sizeT s.count_used then s.ends (some (-1))
          else .again (.parsing s (.start 0 s.count_used))

/-- From the return of `parse` to the end of the loop. -/
def copyPass (s : ReadState S) (p : ParseState) : Pass (ReadPoint S) (ReadResult S) :=
  let s := { s with count_used := p.count_used, delivered := s.delivered ++ p.delivered }
  -- `buffer_used` still points to the front of the buffer, and a negative count is converted to
  -- a huge `size_t`
  match strncpy s.buffer 0 0 (sizeT s.count_used) with
  | none => s.ends none
  | some buffer =>
    let s := { s with buffer, total_length := s.total_length + s.count_used }
    if s.count_used ≠ 0 then .again (.filling s) else s.ends (some (intOf s.total_length))

/-- One pass. -/
def readPass (readn : S → Nat → Option (List UInt8) × S) :
    ReadPoint S → Pass (ReadPoint S) (ReadResult S)
  | .filling s => fillPass readn s
  | .parsing s p =>
    match parsePass s.buffer p with
    | .again p' => .again (.parsing s p')
    | .leave none => { s with delivered := s.delivered ++ p.delivered }.ends none
    | .leave (some p') => copyPass s p'

/-- The variables at the first pass; `malloc` leaves `mem` in the buffer. -/
def ReadState.start (mem : Mem) (sock : S) : ReadState S where
  buffer := mem
  count_used := 0
  total_length := 0
  delivered := []
  sock := sock

/-- A call of `read_string` on the socket ends with `r`. -/
def ReadStringReturns (readn : S → Nat → Option (List UInt8) × S) (mem : Mem) (sock : S)
    (r : ReadResult S) : Prop :=
  Returns (readPass readn) (.filling (.start mem sock)) r

/-! ### The socket -/

/-- The reading side of a connection: the bytes of the peer's stream that were not read yet, how
    many of them the next calls of `readn` find there, and the bytes read so far. -/
structure Socket where
  stream : List UInt8
  cuts : List Nat
  taken : List UInt8

/-- A connection nothing was read from. -/
def Socket.start (stream : List UInt8) (cuts : List Nat) : Socket where
  stream := stream
  cuts := cuts
  taken := []

/-- How many bytes `readn` hands over: at least one if it can, and no more than asked for. When
    no more cuts are given, it hands over all it can. -/
def Socket.handed (sock : Socket) (asked : Nat) : Nat :=
  match sock.cuts with
  | [] => min asked sock.stream.length
  | k :: _ => min (max k 1) (min asked sock.stream.length)

/-- The bytes `readn` hands over. -/
def Socket.chunk (sock : Socket) (asked : Nat) : List UInt8 := sock.stream.take (sock.handed asked)

/-- The socket after `readn`. -/
def Socket.rest (sock : Socket) (asked : Nat) : Socket where
  stream := sock.stream.drop (sock.handed asked)
  cuts := sock.cuts.tail
  taken := sock.taken ++ sock.chunk asked

/-- `readn(fd, _, asked)` on the socket. -/
def Socket.readn (sock : Socket) (asked : Nat) : Option (List UInt8) × Socket :=
  (some (sock.chunk asked), sock.rest asked)

theorem Socket.handed_le (sock : Socket) (asked : Nat) :
    sock.handed asked ≤ min asked sock.stream.length := by
  unfold handed
  split
  · exact le_refl _
  · exact Nat.min_le_right _ _

theorem Socket.chunk_length_le (sock : Socket) (asked : Nat) :
    (sock.chunk asked).length ≤ asked := by
  have := sock.handed_le asked
  rw [chunk, List.length_take]
  omega

/-- `readn` hands over nothing only at the end of the stream. -/
theorem Socket.chunk_length_pos {sock : Socket} {asked : Nat} (hs : sock.stream ≠ [])
    (ha : 0 < asked) : 0 < (sock.chunk asked).length := by
  have hlen : 0 < sock.stream.length := List.length_pos_iff.mpr hs
  -- a cut of 0 counts as 1
  have hpos : 0 < sock.handed asked := by
    unfold handed
    split <;> omega
  rw [chunk, List.length_take]
  omega

theorem Socket.chunk_eof {sock : Socket} (hs : sock.stream = []) (asked : Nat) :
    sock.chunk asked = [] := by
  simp [chunk, hs]

theorem Socket.chunk_append (sock : Socket) (asked : Nat) :
    sock.chunk asked ++ (sock.rest asked).stream = sock.stream :=
  List.take_append_drop _ _

/-- The bytes read and the bytes to read are the stream, before and after a read. -/
theorem Socket.taken_append (sock : Socket) (asked : Nat) :
    (sock.rest asked).taken ++ (sock.rest asked).stream = sock.taken ++ sock.stream := by
  simp [rest, chunk]

/-! ### The parts of a round -/

variable {readn : S → Nat → Option (List UInt8) × S}

theorem intOf_of_range {x : Int} (h₀ : 0 ≤ x) (h : x < 2 ^ 31) : intOf x = x := by
  rw [intOf, Int.bmod_def]
  omega

theorem offset_natCast (n : Nat) : offset n = some n := by
  simp [offset]

/-- The buffer holds `left`, and `count_used` counts it. -/
structure ReadState.Holds (s : ReadState S) (left : List UInt8) : Prop where
  buffer : left <+: s.buffer
  length : s.buffer.length = bufferLength
  count : s.count_used = left.length

/-- The variables when `parse` is called: after what was held stand the bytes read, then NULs. -/
def ReadState.filled (s : ReadState S) (left chunk : List UInt8) (sock : S) : ReadState S where
  buffer := (left ++ chunk) ++ List.replicate (bufferLength - (left ++ chunk).length) 0
  count_used := (left ++ chunk).length
  total_length := s.total_length
  delivered := s.delivered
  sock := sock

theorem ReadState.filled_length (s : ReadState S) {left chunk : List UInt8} (sock : S)
    (hfit : (left ++ chunk).length ≤ bufferLength) :
    (s.filled left chunk sock).buffer.length = bufferLength := by
  rw [filled, List.length_append, List.length_replicate]
  omega

/-- What `parse` sees of the buffer after the first bytes were read. -/
theorem ReadState.view_filled (s : ReadState S) (chunk : List UInt8) (sock : S) :
    view (s.filled [] chunk sock).buffer (ParseState.start 0 chunk.length).buffer_used
      = chunk ++ List.replicate (bufferLength - chunk.length) 0 := rfl

/-- The room that is cleared and offered to `readn`. -/
theorem room_eq {s : ReadState S} {left : List UInt8} (h : s.Holds left) :
    sizeT (bufferLength - s.count_used) = bufferLength - left.length := by
  have hle : left.length ≤ bufferLength := h.length ▸ h.buffer.length_le
  rw [h.count, sizeT_of_nonneg (by omega)]
  omega

/-- `memset` clears the buffer behind what it holds. -/
theorem memset_held {s : ReadState S} {left : List UInt8} (h : s.Holds left) :
    ((offset s.count_used).bind fun off => memset s.buffer off 0 (bufferLength - left.length))
      = some (left ++ List.replicate (bufferLength - left.length) 0) := by
  obtain ⟨junk, hjunk⟩ := h.buffer
  have hlen := h.length
  rw [← hjunk, List.length_append] at hlen
  have hmem : memset (left ++ (junk ++ [])) left.length 0 (bufferLength - left.length)
      = some (left ++ (List.replicate (bufferLength - left.length) 0 ++ [])) :=
    memset_append 0 rfl (by omega)
  rw [h.count, offset_natCast, Option.bind_some, ← hjunk]
  simpa using hmem

theorem fillPass_eof {s : ReadState S} {left : List UInt8} {sock : S} (h : s.Holds left)
    (hread : readn s.sock (bufferLength - left.length) = (some [], sock)) :
    fillPass readn s = .leave
      { ret := some (intOf s.total_length), delivered := s.delivered, sock } := by
  simp [fillPass, room_eq h, memset_held h, hread, ReadState.ends]

/-- Bytes that fit behind what the buffer holds are put there, and `parse` is called. -/
theorem fillPass_block {s : ReadState S} {left chunk : List UInt8} {sock : S} (h : s.Holds left)
    (hread : readn s.sock (bufferLength - left.length) = (some chunk, sock))
    (hpos : 0 < chunk.length) (hfit : (left ++ chunk).length ≤ bufferLength) :
    fillPass readn s = .again
      (.parsing (s.filled left chunk sock) (.start 0 (left ++ chunk).length)) := by
  -- the bytes read go over the first of the NULs
  have hzeros : List.replicate (bufferLength - left.length) (0 : UInt8)
      = List.replicate chunk.length 0
        ++ List.replicate (bufferLength - (left ++ chunk).length) 0 := by
    rw [← List.replicate_add]
    congr 1
    rw [List.length_append] at hfit ⊢
    omega
  have hwrite : ((offset s.count_used).bind fun off =>
      writeBytes (left ++ List.replicate (bufferLength - left.length) 0) off chunk)
      = some (s.filled left chunk sock).buffer := by
    rw [h.count, offset_natCast, Option.bind_some, hzeros,
      writeBytes_append rfl (List.length_replicate ..)]
    simp [ReadState.filled]
  have hcount : s.count_used + (chunk.length : Int) = ((left ++ chunk).length : Nat) := by
    rw [h.count, List.length_append, Nat.cast_add]
  have hne : chunk ≠ [] := List.length_pos_iff.mp hpos
  -- so the check behind `readn` passes
  have hle : ¬ bufferLength < sizeT ((left ++ chunk).length : Nat) := by
    rw [sizeT_natCast]
    omega
  simp only [fillPass, room_eq h, memset_held h, hread, hcount, List.length_eq_zero_iff, hne,
    if_false, hwrite, if_neg hle]
  rfl

/-- The loop of `parse` inside `read_string`. -/
theorem visits_parsing {s : ReadState S} {p q : ParseState}
    (h : Visits (parsePass s.buffer) p q) :
    Visits (readPass readn) (.parsing s p) (.parsing s q) := by
  apply h.map (ReadPoint.parsing s)
  intro a b hab
  simp [readPass, hab]

/-- When `parse` returns, `read_string` goes on. -/
theorem readPass_parse_returns {s : ReadState S} {p q : ParseState}
    (h : Returns (parsePass s.buffer) p (some q)) :
    ∃ p', Visits (readPass readn) (.parsing s p) (.parsing s p') ∧
      readPass readn (.parsing s p') = copyPass s q := by
  obtain ⟨p', hv, hlast⟩ := h.last
  exact ⟨p', visits_parsing hv, by simp [readPass, hlast]⟩

/-- The variables after a round that leaves `n` bytes over. -/
def ReadState.kept (s : ReadState S) (p : ParseState) (n : Nat) : ReadState S where
  buffer := strncpyFill n s.buffer ++ s.buffer.drop n
  count_used := n
  total_length := s.total_length + n
  delivered := s.delivered ++ p.delivered
  sock := s.sock

/-- `strncpy` copies the front of the buffer onto itself. -/
theorem copyPass_kept {s : ReadState S} {p : ParseState} {n : Nat} (hn : p.count_used = n)
    (hfit : n ≤ s.buffer.length) :
    copyPass s p = if n ≠ 0 then .again (.filling (s.kept p n))
      else (s.kept p n).ends (some (intOf (s.kept p n).total_length)) := by
  simp [copyPass, hn, sizeT_natCast, strncpy_self hfit, ReadState.kept]

/-- What `strncpy` left at the front of the buffer is held in the next round. -/
theorem ReadState.kept_holds {s : ReadState S} (p : ParseState) {n : Nat}
    (hlen : s.buffer.length = bufferLength) (hfit : n ≤ bufferLength) :
    (s.kept p n).Holds (strncpyFill n s.buffer) where
  buffer := List.prefix_append _ _
  length := by
    rw [kept, List.length_append, strncpyFill_length, List.length_drop, hlen]
    omega
  count := by rw [kept, strncpyFill_length]

/-- A negative count makes `strncpy` write far outside the buffer. -/
theorem copyPass_negative {s : ReadState S} {p : ParseState} (hneg : p.count_used < 0)
    (hlow : -2 ^ 63 ≤ p.count_used) (hlen : s.buffer.length = bufferLength) :
    copyPass s p = .leave
      { ret := none, delivered := s.delivered ++ p.delivered, sock := s.sock } := by
  -- converted to `size_t`, the count is above 2^63
  have hsize : s.buffer.length < 0 + sizeT p.count_used := by
    rw [hlen, sizeT, if_pos hneg, bufferLength]
    omega
  simp [copyPass, strncpy_eq_none hsize, ReadState.ends]

/-- Where the buffer holds the beginning of a packet behind its header, `parse` consumes the whole
    packet and returns a negative count, or it reads on past the buffer. -/
theorem returns_begun {s : ReadState S} {q : ParseState} {p : Rpc.Payload} {left rest : List UInt8}
    (hview : view s.buffer q.buffer_used = left ++ rest) (hcount : q.count_used = left.length)
    (hleft : left <+: p.frame) (h8 : 8 ≤ left.length) (hlt : left.length < p.size)
    (hlen : s.buffer.length = bufferLength) :
    ∃ r, Returns (readPass readn) (.parsing s q) r ∧ r.ret = none := by
  have hsize := p.size_le
  have hverdict : verdict s.buffer q.buffer_used = some (p.size : Int) := by
    rw [verdict, hview]
    exact Rpc.Payload.getMessageLength_begun hleft h8 _ (le_refl _)
  by_cases hnul : Terminated s.buffer q.buffer_used
  · -- the packet is consumed in whole, although only its beginning has arrived
    obtain ⟨msg, hpass⟩ := parsePass_message (by omega) hverdict (by omega) hnul
    have hneg : (q.advance p.size msg).count_used < 0 := by
      show q.count_used - p.size < 0
      omega
    have hlow : -2 ^ 63 ≤ (q.advance p.size msg).count_used := by
      show -2 ^ 63 ≤ q.count_used - p.size
      omega
    rw [if_neg (by omega)] at hpass
    have hcopy := copyPass_negative hneg hlow hlen
    have hlast : readPass readn (.parsing s q) = copyPass s (q.advance p.size msg) := by
      simp only [readPass, hpass]
    exact ⟨_, Returns.leave (hlast.trans hcopy), rfl⟩
  · -- there is no NUL up to the end of the buffer
    have hpass := parsePass_runaway (by omega) hverdict (by omega) hnul
    have hlast : readPass readn (.parsing s q)
        = { s with delivered := s.delivered ++ q.delivered }.ends none := by
      simp only [readPass, hpass]
    exact ⟨_, Returns.leave hlast, rfl⟩

end Receiver
