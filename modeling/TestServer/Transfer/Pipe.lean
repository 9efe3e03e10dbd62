import TestServer.Transfer.Readn

/-! # `writen` and `readn` at the two ends of a pipe

    One process runs `writen` on a byte string and closes the pipe, another
    one runs `readn`. Their calls of `write` and `read` take place in any
    order, and each transfers as many bytes as it likes.

    * `Channel`, `Channel.step`: the two loops and the bytes between them.
    * `Channel.Inv`: what ties the two cursors to the bytes in the pipe.
    * `transfers_intact`: no byte is lost, added or moved, and what the two
      functions return is right.
-/

open CInt CMemory LTS

namespace Transfer

/-! ### The two loops -/

/-- A writer, a reader and the pipe between them. -/
structure Channel where
  writer : WriteState
  pipe : List UInt8
  /-- The writer closed its end. -/
  closed : Bool
  reader : ReadState
  deriving DecidableEq

/-- A step of one of the two. -/
inductive Move where
  /-- The writer calls `write`. -/
  | write (o : WriteOutcome)
  /-- The writer closes its end. -/
  | close
  /-- The reader's `read` takes `k` bytes. -/
  | read (k : Nat)
  /-- The reader's `read` finds the end of the bytes. -/
  | readEof

/-- One step. A `write` that does not transfer bytes was interrupted; a `read` waits while the pipe
    is empty and open. -/
def Channel.step (data : Mem) (m : Nat) (s : Channel) : Move → Option Channel
  | .write o =>
    if o.Fatal then none
    else do
      let (writer, bytes) ← writenStep data data.length s.writer o
      some { s with writer, pipe := s.pipe ++ bytes }
  | .close =>
    if s.writer.ret ≠ none ∧ s.closed = false then some { s with closed := true } else none
  | .read k =>
    if k ≤ s.pipe.length then do
      let reader ← readnStep m s.reader (.bytes (s.pipe.take k))
      some { s with reader, pipe := s.pipe.drop k }
    else none
  | .readEof =>
    if s.pipe = [] ∧ s.closed = true then do
      let reader ← readnStep m s.reader .eof
      some { s with reader }
    else none

/-- The writer is to write `data`, the reader to read `m` bytes into `buf`. -/
def Channel.start (data buf : Mem) (m : Nat) : Channel where
  writer := .start data.length
  pipe := []
  closed := false
  reader := .start buf m

/-- `writen(fd, data, n)` and `readn(fd, buf, m)`, in any order of their steps. -/
def transfer (data buf : Mem) (m : Nat) : System Channel Move :=
  .ofFun (fun s => s = .start data buf m) (Channel.step data m)

/-- The bytes the reader has. -/
def Channel.received (m : Nat) (s : Channel) : List UInt8 := s.reader.buf.take (m - s.reader.nleft)

/-- The bytes the writer has not written. -/
def Channel.unsent (data : Mem) (s : Channel) : List UInt8 :=
  data.drop (data.length - s.writer.nleft)

/-! ### The invariant -/

/-- The bytes read and the bytes in the pipe are the bytes written; the writer returns when it has
    written all, and the reader when it has all it wants or there are no more. -/
structure Channel.Inv (data : Mem) (m : Nat) (s : Channel) : Prop where
  writer : s.writer.Inv data.length
  reader : ∃ got, s.reader.Inv m got ∧ got ++ s.pipe = data.take s.writer.nptr
  written : s.writer.ret ≠ none → s.writer.nleft = 0
  closed : s.closed = true → s.writer.ret ≠ none
  stopped : ∀ r, s.reader.ret = some r → r = signed 64 s.reader.ptr ∧
    (s.reader.nleft = 0 ∨ (s.pipe = [] ∧ s.closed = true))

variable {data buf : Mem} {m : Nat} {s s' : Channel}

theorem Channel.inv_start (data : Mem) (hbuf : m ≤ buf.length) :
    (Channel.start data buf m).Inv data m where
  writer := WriteState.inv_start data.length
  reader := by
    refine ⟨[], ReadState.inv_start hbuf, ?_⟩
    show [] = data.take (WriteState.start data.length).nptr
    rw [WriteState.start, WriteState.head_nptr, List.take_zero]
  written := WriteState.head_nleft_eq_zero rfl
  closed := by
    intro hclosed
    cases hclosed
  stopped := by
    intro r hr
    have hret : (ReadState.start buf m).ret ≠ none := by
      show (Channel.start data buf m).reader.ret ≠ none
      rw [hr]
      exact Option.some_ne_none r
    have hleft := ReadState.head_nleft_eq_zero rfl hret
    exact ⟨ReadState.head_ret (Nat.zero_add m) rfl hr, Or.inl hleft⟩

/-- The bytes of a `write` go into the pipe. -/
theorem Channel.Inv.write (h : s.Inv data m) {o : WriteOutcome} (hquiet : ¬ o.Fatal)
    {writer : WriteState} {bytes : List UInt8}
    (hstep : writenStep data data.length s.writer o = some (writer, bytes)) :
    ({ s with writer, pipe := s.pipe ++ bytes } : Channel).Inv data m := by
  obtain ⟨hwriter, htake⟩ := h.writer.step hstep
  obtain ⟨got, hreader, hgot⟩ := h.reader
  obtain ⟨hret, hcases⟩ := writenStep_cases hstep
  constructor
  case writer => exact hwriter
  case reader => exact ⟨got, hreader, by rw [← List.append_assoc, hgot, htake]⟩
  case written =>
    intro hdone
    rcases hcases with ⟨k, -, -, -, rfl, -⟩ | ⟨-, rfl, -⟩ | ⟨hfatal, -⟩
    · exact WriteState.head_nleft_eq_zero hret hdone
    · exact WriteState.head_nleft_eq_zero hret hdone
    · exact absurd hfatal hquiet
  case closed => exact fun hclosed => absurd hret (h.closed hclosed)
  case stopped =>
    intro r hr
    obtain ⟨hval, hnone | ⟨-, hclosed⟩⟩ := h.stopped r hr
    · exact ⟨hval, Or.inl hnone⟩
    · -- a pipe that is closed is not written to
      exact absurd hret (h.closed hclosed)

/-- The bytes of a `read` come from the front of the pipe. -/
theorem Channel.Inv.read (h : s.Inv data m) {k : Nat} {reader : ReadState}
    (hstep : readnStep m s.reader (.bytes (s.pipe.take k)) = some reader) :
    ({ s with reader, pipe := s.pipe.drop k } : Channel).Inv data m := by
  obtain ⟨got, hreader, hgot⟩ := h.reader
  obtain ⟨hret, ⟨bs, b, hbs, -, hle, hwrite, hs⟩ | ⟨ho, -⟩ | ⟨⟨e, he, -⟩, -⟩⟩ :=
    readnStep_cases hstep
  · constructor
    case writer => exact h.writer
    case reader =>
      refine ⟨got ++ s.pipe.take k, hreader.step hstep, ?_⟩
      rw [List.append_assoc, List.take_append_drop, hgot]
    case written => exact h.written
    case closed => exact h.closed
    case stopped =>
      intro r hr
      have hcursor : s.reader.ptr + bs.length + (s.reader.nleft - bs.length) = m := by
        have := hreader.cursor
        omega
      let t : ReadState := ({ s.reader with buf := b } : ReadState).advance bs.length
      have ht : t.ret = none := hret
      have hdone : (t.head m).ret = some r := by
        rw [← hs]
        exact hr
      have hval := ReadState.head_ret (s := t) hcursor ht hdone
      have hret := Option.ne_none_iff_exists'.mpr ⟨r, hdone⟩
      have hnone := ReadState.head_nleft_eq_zero (s := t) ht hret
      show r = signed 64 reader.ptr ∧ (reader.nleft = 0 ∨ _)
      rw [hs]
      exact ⟨hval, Or.inl hnone⟩
  · rcases ho with ho | ho <;> cases ho
  · cases he

/-- At the end of the bytes, the reader returns. -/
theorem Channel.Inv.readEof (h : s.Inv data m) (hpipe : s.pipe = []) (hclosed : s.closed = true)
    {reader : ReadState} (hstep : readnStep m s.reader .eof = some reader) :
    ({ s with reader } : Channel).Inv data m := by
  obtain ⟨got, hreader, hgot⟩ := h.reader
  obtain ⟨hret, ⟨bs, b, hbs, -⟩ | ⟨-, hs⟩ | ⟨⟨e, he, -⟩, -⟩⟩ := readnStep_cases hstep
  · cases hbs
  · constructor
    case writer => exact h.writer
    case reader => exact ⟨got, by simpa [ReadOutcome.data] using hreader.step hstep, hgot⟩
    case written => exact h.written
    case closed => exact h.closed
    case stopped =>
      intro r hr
      have hcursor := hreader.cursor
      have hread : (m : Int) - s.reader.nleft = s.reader.ptr := by omega
      rw [hs] at hr ⊢
      rw [← Option.some.inj hr, hread]
      exact ⟨rfl, Or.inr ⟨hpipe, hclosed⟩⟩
  · cases he

/-- Every step keeps the invariant. -/
theorem Channel.Inv.step (h : s.Inv data m) {l : Move}
    (hstep : Channel.step data m s l = some s') : s'.Inv data m := by
  cases l with
  | write o =>
    simp only [Channel.step, Option.ite_none_left_eq_some] at hstep
    obtain ⟨hquiet, hsome⟩ := hstep
    obtain ⟨⟨writer, bytes⟩, hwriten, hs⟩ := Option.bind_eq_some_iff.mp hsome
    obtain rfl := Option.some.inj hs
    exact h.write hquiet hwriten
  | close =>
    simp only [Channel.step, Option.ite_none_right_eq_some, Option.some.injEq] at hstep
    obtain ⟨⟨hdone, hopen⟩, rfl⟩ := hstep
    refine ⟨h.writer, h.reader, h.written, fun _ => hdone, ?_⟩
    intro r hr
    obtain ⟨hval, hnone | ⟨-, hclosed⟩⟩ := h.stopped r hr
    · exact ⟨hval, Or.inl hnone⟩
    · rw [hopen] at hclosed
      cases hclosed
  | read k =>
    simp only [Channel.step, Option.ite_none_right_eq_some] at hstep
    obtain ⟨reader, hreadn, hs⟩ := Option.bind_eq_some_iff.mp hstep.2
    obtain rfl := Option.some.inj hs
    exact h.read hreadn
  | readEof =>
    simp only [Channel.step, Option.ite_none_right_eq_some] at hstep
    obtain ⟨⟨hpipe, hclosed⟩, hsome⟩ := hstep
    obtain ⟨reader, hreadn, hs⟩ := Option.bind_eq_some_iff.mp hsome
    obtain rfl := Option.some.inj hs
    exact h.readEof hpipe hclosed hreadn

theorem Channel.inv_of_reachable (hbuf : m ≤ buf.length) (h : (transfer data buf m).Reachable s) :
    s.Inv data m := by
  apply h.invariant
  · intro s hs
    subst hs
    exact Channel.inv_start data hbuf
  · intro s l s' hinv (hstep : Channel.step data m s l = some s')
    exact hinv.step hstep

/-! ### What the reader gets -/

/-- When both have returned, the reader has the first bytes of the string. -/
theorem Channel.Inv.finished (h : s.Inv data m) (hwriter : s.writer.ret ≠ none)
    (hreader : s.reader.ret ≠ none) :
    s.writer.ret = some (signed 64 data.length) ∧
    s.reader.ret = some (signed 64 (min data.length m : Nat)) ∧
    s.reader.buf.take (min data.length m) = data.take (min data.length m) := by
  obtain ⟨got, hread, hgot⟩ := h.reader
  have hwcursor := h.writer.cursor
  have hrcursor := hread.cursor
  have hroom := hread.room
  have hwritten := h.written hwriter
  have hall : s.writer.nptr = data.length := by omega
  rw [hall, List.take_length] at hgot
  obtain ⟨w, hw⟩ := Option.ne_none_iff_exists'.mp hwriter
  obtain ⟨r, hr⟩ := Option.ne_none_iff_exists'.mp hreader
  obtain ⟨hval, hstop⟩ := h.stopped r hr
  have hgotlen : got.length = s.reader.ptr := by
    rw [← hread.got, List.length_take]
    omega
  have hlen := congrArg List.length hgot
  rw [List.length_append] at hlen
  have hmin : s.reader.ptr = min data.length m := by
    rcases hstop with hnone | ⟨hpipe, -⟩
    · omega
    · rw [hpipe, List.length_nil] at hlen
      omega
  refine ⟨?_, by rw [hr, hval, hmin], ?_⟩
  · rcases h.writer.returned w hw with ⟨hsent, -⟩ | ⟨-, hleft⟩
    · rw [hw, hsent]
    · omega
  · rw [← hmin, hread.got, ← hgot, ← hgotlen, List.take_left]

/-- Whatever the order and the sizes of the calls, the reader's bytes, the bytes in the pipe and
    the writer's unsent bytes are the original string. When both functions have returned, `writen`
    returned the length of the string, `readn` that length or `m`, whichever is less, and the buffer
    begins with that many bytes of the string. (A length beyond the range of `ssize_t` is converted
    to it.) -/
theorem transfers_intact (data buf : Mem) (m : Nat) (hbuf : m ≤ buf.length)
    (h : (transfer data buf m).Reachable s) :
    s.received m ++ s.pipe ++ s.unsent data = data ∧
    (s.writer.ret ≠ none → s.reader.ret ≠ none →
      s.writer.ret = some (signed 64 data.length) ∧
      s.reader.ret = some (signed 64 (min data.length m : Nat)) ∧
      (data.length < 2 ^ 63 → s.writer.ret = some (data.length : Int) ∧
        s.reader.ret = some ((min data.length m : Nat) : Int)) ∧
      s.reader.buf.take (min data.length m) = data.take (min data.length m)) := by
  have hinv := Channel.inv_of_reachable hbuf h
  constructor
  · obtain ⟨got, hread, hgot⟩ := hinv.reader
    have hrcursor := hread.cursor
    have hwcursor := hinv.writer.cursor
    have hptr : m - s.reader.nleft = s.reader.ptr := by omega
    have hnptr : data.length - s.writer.nleft = s.writer.nptr := by omega
    rw [Channel.received, Channel.unsent, hptr, hnptr, hread.got, hgot, List.take_append_drop]
  · intro hwriter hreader
    obtain ⟨hw, hr, hdata⟩ := hinv.finished hwriter hreader
    refine ⟨hw, hr, ?_, hdata⟩
    intro hlen
    rw [hw, hr, signed_of_length hlen, signed_of_length (by omega)]
    exact ⟨rfl, rfl⟩

/-- Two bytes are written in one call and read in two, with the pipe closed in between. -/
theorem transfers_intact_two : ∃ s,
    System.replay (Channel.step [7, 8] 5) (.start [7, 8] [0, 0, 0, 0, 0] 5)
      [.write (.failed EINTR), .write (.wrote 2), .read 1, .close, .read 1, .readEof] = some s ∧
      s.writer.ret = some (2 : Nat) ∧ s.reader.ret = some (2 : Nat) := by
  have hstart : (transfer [7, 8] [0, 0, 0, 0, 0] 5).Reachable (.start [7, 8] [0, 0, 0, 0, 0] 5) :=
    ⟨[], .start rfl⟩
  exact ⟨_, rfl, ((transfers_intact [7, 8] [0, 0, 0, 0, 0] 5 (by decide)
    (System.replay_reachable hstart [.write (.failed EINTR), .write (.wrote 2), .read 1, .close,
      .read 1, .readEof] rfl)).2 (by decide) (by decide)).2.2.1 (by decide)⟩

end Transfer
