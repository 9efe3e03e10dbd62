import TestServer.Transfer.Writen

/-! # `readn`

    `readn` of `sample_io/test_file.cpp`. It calls `read` until the buffer is
    full or the file ends:

    ```
    ptr = (char *)buf;
    size_t nleft = n;
    ssize_t nreadn;
    while (nleft>0) {
        nreadn = read(fd, ptr, nleft);
        if (nreadn <0) {
            if (errno == EINTR) {
                nreadn = 0;
            } else {
                return -1;
            }
        }
        if (nreadn ==0) {
            break;
        }
        nleft -= nreadn;
        ptr += nreadn;
    }
    return n - nleft;
    ```

    The value that stands for a signal is the one that stands for the end of
    the file, so `readn` stops in both cases.

    * `readnPass`: one pass through the loop, with what `read` answers in it.
    * `Interrupted`: a sequence of answers with signals put into it.
    * `readn_iff`: what is asked of `readn` holds when nothing is to be read or
      the first call finds the end of the file; all but the part about signals
      holds in every call that no signal interrupts.
-/

open CInt CMemory LTS

namespace Transfer

/-! ### The loop -/

/-- What `read` answers. -/
inductive ReadOutcome where
  /-- These bytes were put into the buffer. -/
  | bytes (bs : List UInt8)
  /-- The end of the file. -/
  | eof
  /-- The call failed with this `errno`. -/
  | failed (errno : Nat)
  deriving DecidableEq

/-- The value `read` returns. -/
def ReadOutcome.nreadn : ReadOutcome → Int
  | bytes bs => bs.length
  | eof => 0
  | failed _ => -1

/-- `errno` after the call, where the call sets it. -/
def ReadOutcome.errno : ReadOutcome → Option Nat
  | failed errno => some errno
  | _ => none

/-- The bytes `read` puts into the buffer. -/
def ReadOutcome.data : ReadOutcome → List UInt8
  | bytes bs => bs
  | _ => []

/-- `read` puts no more bytes into the buffer than it is asked for, and says so. -/
def ReadOutcome.Possible (asked : Nat) : ReadOutcome → Prop
  | bytes bs => 1 ≤ bs.length ∧ bs.length ≤ asked
  | _ => True

instance (asked : Nat) : (o : ReadOutcome) → Decidable (o.Possible asked)
  | .bytes bs => inferInstanceAs (Decidable (1 ≤ bs.length ∧ bs.length ≤ asked))
  | .eof => .isTrue trivial
  | .failed _ => .isTrue trivial

/-- The variables of `readn`, the buffer, and the value returned. -/
structure ReadState where
  nleft : Nat
  /-- `ptr` as an offset from `buf`. -/
  ptr : Nat
  buf : Mem
  ret : Option Int
  deriving DecidableEq

/-- The statement behind the loop. -/
def ReadState.finish (n : Nat) (s : ReadState) : ReadState :=
  { s with ret := some (signed 64 ((n : Int) - s.nleft)) }

/-- The test at the head of the loop. -/
def ReadState.head (n : Nat) (s : ReadState) : ReadState :=
  if 0 < s.nleft then s else s.finish n

@[simp] theorem ReadState.head_nleft (n : Nat) (s : ReadState) : (s.head n).nleft = s.nleft := by
  unfold head
  split <;> rfl

@[simp] theorem ReadState.head_ptr (n : Nat) (s : ReadState) : (s.head n).ptr = s.ptr := by
  unfold head
  split <;> rfl

@[simp] theorem ReadState.head_buf (n : Nat) (s : ReadState) : (s.head n).buf = s.buf := by
  unfold head
  split <;> rfl

/-- The variables after `nreadn` bytes were read. -/
def ReadState.advance (s : ReadState) (nreadn : Nat) : ReadState :=
  { s with nleft := s.nleft - nreadn, ptr := s.ptr + nreadn }

/-- One pass through the loop, behind the call of `read`. -/
def readnPass (n : Nat) (s : ReadState) (o : ReadOutcome) : ReadState :=
  if o.nreadn < 0 ∧ o.errno ≠ some EINTR then { s with ret := some (-1) }
  else
    -- a signal is turned into the value that says the file has ended
    let nreadn := if o.nreadn < 0 then 0 else o.nreadn
    if nreadn = 0 then s.finish n
    else (s.advance nreadn.toNat).head n

/-- A call of `read(fd, ptr, nleft)` and the rest of the pass. There is no pass once `readn` has
    returned. -/
def readnStep (n : Nat) (s : ReadState) (o : ReadOutcome) : Option ReadState :=
  if s.ret = none ∧ o.Possible s.nleft then do
    let buf ← writeBytes s.buf s.ptr o.data
    some (readnPass n { s with buf } o)
  else none

/-- The variables before the first pass. -/
def ReadState.start (buf : Mem) (n : Nat) : ReadState :=
  ({ nleft := n, ptr := 0, buf, ret := none } : ReadState).head n

/-- The answers, up to the one after which `readn` returns. -/
def ReadReturns (buf : Mem) (n : Nat) (outcomes : List ReadOutcome) (s : ReadState) : Prop :=
  s.ret ≠ none ∧ ∃ used, used <+: outcomes ∧
    System.replay (readnStep n) (.start buf n) used = some s

/-! ### One pass -/

variable {buf : Mem} {n : Nat} {s s' : ReadState} {o : ReadOutcome}

/-- Everything a pass can do: bytes are read, or `readn` stops at the end of the file or at a
    signal, or it returns -1. -/
theorem readnStep_cases (h : readnStep n s o = some s') :
    s.ret = none ∧
    ((∃ bs buf, o = .bytes bs ∧ 1 ≤ bs.length ∧ bs.length ≤ s.nleft ∧
        writeBytes s.buf s.ptr bs = some buf ∧
        s' = (({ s with buf } : ReadState).advance bs.length).head n) ∨
      ((o = .eof ∨ o = .failed EINTR) ∧ s' = s.finish n) ∨
      ((∃ errno, o = .failed errno ∧ errno ≠ EINTR) ∧ s' = { s with ret := some (-1) })) := by
  unfold readnStep at h
  split at h
  case isFalse => cases h
  case isTrue hcall =>
    obtain ⟨hret, hpossible⟩ := hcall
    obtain ⟨buf, hwrite, hpass⟩ := Option.bind_eq_some_iff.mp h
    obtain rfl := Option.some.inj hpass
    refine ⟨hret, ?_⟩
    cases o with
    | bytes bs =>
      obtain ⟨hpos, hle⟩ := hpossible
      refine Or.inl ⟨bs, buf, rfl, hpos, hle, hwrite, ?_⟩
      have hneg : ¬ (bs.length : Int) < 0 := by omega
      have hne : ¬ (bs.length : Int) = 0 := by omega
      simp only [readnPass, ReadOutcome.nreadn, hneg, false_and, if_false, hne, Int.toNat_natCast]
    | eof =>
      obtain rfl := writeBytes_nil hwrite
      exact Or.inr (Or.inl ⟨Or.inl rfl, rfl⟩)
    | failed errno =>
      obtain rfl := writeBytes_nil hwrite
      by_cases he : errno = EINTR
      · subst he
        exact Or.inr (Or.inl ⟨Or.inr rfl, rfl⟩)
      · refine Or.inr (Or.inr ⟨⟨errno, rfl, he⟩, ?_⟩)
        simp [readnPass, ReadOutcome.nreadn, ReadOutcome.errno, he]

/-- At the end of the file, and at a signal, `readn` stops. -/
theorem readnStep_stop (hret : s.ret = none) (hptr : s.ptr ≤ s.buf.length)
    (ho : o = .eof ∨ o = .failed EINTR) : readnStep n s o = some (s.finish n) := by
  have hwrite : writeBytes s.buf s.ptr [] = some s.buf := by
    unfold writeBytes
    rw [if_pos (by simpa using hptr)]
    simp
  rcases ho with rfl | rfl
  · simp only [readnStep, hret, ReadOutcome.Possible, ReadOutcome.data, hwrite]
    rfl
  · simp only [readnStep, hret, ReadOutcome.Possible, ReadOutcome.data, hwrite]
    rfl

/-- `readn` makes no call after it has returned. -/
theorem replay_returned (hret : s.ret ≠ none) {outcomes : List ReadOutcome}
    (h : System.replay (readnStep n) s outcomes = some s') : outcomes = [] ∧ s' = s := by
  cases outcomes with
  | nil => exact ⟨rfl, (Option.some.inj h).symm⟩
  | cons o rest =>
    obtain ⟨t, hstep, -⟩ := Option.bind_eq_some_iff.mp h
    exact absurd (readnStep_cases hstep).1 hret

/-! ### What every call keeps -/

/-- The buffer begins with the bytes read so far, and the cursor and the bytes left make up `n`. -/
structure ReadState.Inv (n : Nat) (got : List UInt8) (s : ReadState) : Prop where
  cursor : s.ptr + s.nleft = n
  room : n ≤ s.buf.length
  got : s.buf.take s.ptr = got
  looping : s.ret = none → 0 < s.nleft
  returned : ∀ r, s.ret = some r → r = -1 ∨ r = signed 64 s.ptr

variable {got : List UInt8}

/-- The test at the head of the loop, and the statement behind it. -/
theorem ReadState.Inv.head (hcursor : s.ptr + s.nleft = n) (hroom : n ≤ s.buf.length)
    (hgot : s.buf.take s.ptr = got) (hret : s.ret = none) : (s.head n).Inv n got := by
  unfold ReadState.head
  split
  case isTrue hleft =>
    refine ⟨hcursor, hroom, hgot, fun _ => hleft, ?_⟩
    intro r hr
    rw [hret] at hr
    cases hr
  case isFalse hleft =>
    refine ⟨hcursor, hroom, hgot, nofun, ?_⟩
    intro r hr
    have hread : (n : Int) - s.nleft = s.ptr := by omega
    rw [← Option.some.inj hr, hread]
    exact Or.inr rfl

/-- `readn` leaves the loop at its head only when nothing is left. -/
theorem ReadState.head_nleft_eq_zero (h : s.ret = none) (hret : (s.head n).ret ≠ none) :
    (s.head n).nleft = 0 := by
  unfold ReadState.head at hret ⊢
  split at hret
  case isTrue => exact absurd h hret
  case isFalse hleft =>
    rw [if_neg hleft]
    exact Nat.eq_zero_of_not_pos hleft

/-- The value returned there. -/
theorem ReadState.head_ret (hcursor : s.ptr + s.nleft = n) (h : s.ret = none) {r : Int}
    (hret : (s.head n).ret = some r) : r = signed 64 (s.head n).ptr := by
  unfold ReadState.head at hret ⊢
  split at hret
  case isTrue =>
    rw [h] at hret
    cases hret
  case isFalse hleft =>
    have hread : (n : Int) - s.nleft = s.ptr := by omega
    rw [if_neg hleft, ← Option.some.inj hret, hread]
    rfl

theorem ReadState.inv_start (hbuf : n ≤ buf.length) : (ReadState.start buf n).Inv n [] :=
  ReadState.Inv.head (Nat.zero_add n) hbuf List.take_zero rfl

/-- What a call reads stands behind what was read before. -/
theorem ReadState.Inv.step (h : s.Inv n got) (hstep : readnStep n s o = some s') :
    s'.Inv n (got ++ o.data) := by
  have hcursor := h.cursor
  have hroom := h.room
  obtain ⟨hret, ⟨bs, buf, rfl, hpos, hle, hwrite, rfl⟩ | ⟨ho, rfl⟩ | ⟨⟨e, rfl, he⟩, rfl⟩⟩ :=
    readnStep_cases hstep
  · have hlen := writeBytes_length hwrite
    apply ReadState.Inv.head
    · show s.ptr + bs.length + (s.nleft - bs.length) = n
      omega
    · show n ≤ buf.length
      omega
    · show buf.take (s.ptr + bs.length) = got ++ bs
      rw [writeBytes_take hwrite, h.got]
    · exact hret
  · -- nothing was read
    have hdata : o.data = [] := by
      rcases ho with rfl | rfl <;> rfl
    rw [hdata, List.append_nil]
    refine ⟨hcursor, hroom, h.got, nofun, ?_⟩
    intro r hr
    have hread : (n : Int) - s.nleft = s.ptr := by omega
    rw [← Option.some.inj hr, hread]
    exact Or.inr rfl
  · refine ⟨hcursor, hroom, ?_, nofun, ?_⟩
    · exact h.got.trans (List.append_nil got).symm
    · intro r hr
      exact Or.inl (Option.some.inj hr).symm

/-- After any number of calls, the buffer begins with the bytes read. -/
theorem ReadState.Inv.replay (h : s.Inv n got) {outcomes : List ReadOutcome}
    (hreplay : System.replay (readnStep n) s outcomes = some s') :
    s'.Inv n (got ++ outcomes.flatMap ReadOutcome.data) := by
  induction outcomes generalizing s got with
  | nil =>
    obtain rfl := Option.some.inj hreplay
    rwa [List.flatMap_nil, List.append_nil]
  | cons o rest ih =>
    obtain ⟨t, hstep, hrest⟩ := Option.bind_eq_some_iff.mp hreplay
    have hinv := ih (h.step hstep) hrest
    rwa [List.append_assoc, ← List.flatMap_cons] at hinv

/-! ### Signals -/

/-- The second sequence is the first with interrupted calls put in, anywhere before its end. -/
inductive Interrupted : List ReadOutcome → List ReadOutcome → Prop where
  | nil : Interrupted [] []
  | keep {outcomes outcomes' : List ReadOutcome} (o : ReadOutcome) :
      Interrupted outcomes outcomes' → Interrupted (o :: outcomes) (o :: outcomes')
  | insert {outcomes outcomes' : List ReadOutcome} : outcomes ≠ [] →
      Interrupted outcomes outcomes' → Interrupted outcomes (.failed EINTR :: outcomes')

theorem Interrupted.refl (outcomes : List ReadOutcome) : Interrupted outcomes outcomes := by
  induction outcomes with
  | nil => exact .nil
  | cons o rest ih => exact .keep o ih

/-- A value that is not negative is `n` unless the file has ended, and the buffer begins with that
    many bytes, the ones read, in order. -/
structure ReadsAll (n : Nat) (outcomes : List ReadOutcome) (s : ReadState) : Prop where
  complete : ∀ r, s.ret = some r → 0 ≤ r → r = n ∨ outcomes.getLast? = some .eof
  data : ∀ r, s.ret = some r → 0 ≤ r →
    s.buf.take r.toNat = outcomes.flatMap ReadOutcome.data

/-- Interrupted calls change neither the value returned nor the buffer. -/
def IgnoresSignals (buf : Mem) (n : Nat) (outcomes : List ReadOutcome) (s : ReadState) : Prop :=
  ∀ outcomes', Interrupted outcomes outcomes' →
    ∃ s', ReadReturns buf n outcomes' s' ∧ s'.ret = s.ret ∧ s'.buf = s.buf

/-- The buffer begins with the bytes read. -/
theorem ReadState.Inv.data (h : s.Inv n got) (hn : n < 2 ^ 64) {r : Int} (hret : s.ret = some r)
    (hr : 0 ≤ r) : r = s.ptr ∧ s.buf.take r.toNat = got := by
  have hcursor := h.cursor
  rcases h.returned r hret with rfl | hsigned
  · omega
  · have hptr : r = s.ptr := by
      rw [hsigned] at hr ⊢
      exact signed_of_nonneg (by omega) (by omega) hr
    refine ⟨hptr, ?_⟩
    rw [hptr, Int.toNat_natCast, h.got]

/-- Calls that no signal interrupts go on until everything is read or the file has ended. -/
theorem complete_of_uninterrupted (hn : n < 2 ^ 64) {outcomes : List ReadOutcome}
    (hsignal : ∀ o ∈ outcomes, o ≠ .failed EINTR) (h : s.Inv n got) (hret : s.ret = none)
    (hreplay : System.replay (readnStep n) s outcomes = some s') {r : Int}
    (hr : s'.ret = some r) (hpos : 0 ≤ r) : r = n ∨ outcomes.getLast? = some .eof := by
  induction outcomes generalizing s got with
  | nil =>
    obtain rfl := Option.some.inj hreplay
    rw [hret] at hr
    cases hr
  | cons o rest ih =>
    obtain ⟨t, hstep, hrest⟩ := Option.bind_eq_some_iff.mp hreplay
    have hinv := h.step hstep
    by_cases hagain : t.ret = none
    · -- the loop goes on, and a later call is the last one
      rcases ih (fun o ho => hsignal o (List.mem_cons_of_mem _ ho)) hinv hagain hrest with
        hall | hlast
      · exact Or.inl hall
      · rw [List.getLast?_cons, hlast]
        exact Or.inr rfl
    · obtain ⟨rfl, rfl⟩ := replay_returned hagain hrest
      obtain ⟨-, ⟨bs, buf, rfl, hlen, hle, -, hs⟩ | ⟨ho, -⟩ | ⟨-, hs⟩⟩ := readnStep_cases hstep
      · -- the last call has filled the buffer
        left
        obtain ⟨hptr, -⟩ := hinv.data hn hr hpos
        have hcursor := hinv.cursor
        have hnone : s'.nleft = 0 := by
          rw [hs] at hagain ⊢
          exact ReadState.head_nleft_eq_zero hret hagain
        omega
      · rcases ho with rfl | rfl
        · exact Or.inr rfl
        · exact absurd rfl (hsignal _ List.mem_cons_self)
      · rw [hs] at hr
        have := Option.some.inj hr
        omega

/-- With something to read, the loop is entered. -/
theorem ReadState.start_of_pos (buf : Mem) (hpos : 0 < n) :
    ReadState.start buf n = { nleft := n, ptr := 0, buf, ret := none } := by
  unfold ReadState.start ReadState.head
  exact if_pos hpos

/-- With nothing to read, `readn` returns at once. -/
theorem ReadState.start_zero (buf : Mem) : (ReadState.start buf 0).ret ≠ none :=
  Option.some_ne_none _

/-- When the first call finds the end of the file or is interrupted, `readn` returns 0. -/
theorem readReturns_stop (buf : Mem) (hpos : 0 < n) (ho : o = .eof ∨ o = .failed EINTR)
    (rest : List ReadOutcome) :
    ReadReturns buf n (o :: rest) { nleft := n, ptr := 0, buf, ret := some 0 } := by
  refine ⟨nofun, [o], ⟨rest, rfl⟩, ?_⟩
  have hstop := readnStep_stop (n := n) (s := .start buf n)
    (by rw [ReadState.start_of_pos buf hpos]) (by simp [ReadState.start_of_pos buf hpos]) ho
  have hzero : (ReadState.start buf n).finish n = { nleft := n, ptr := 0, buf, ret := some 0 } := by
    rw [ReadState.start_of_pos buf hpos]
    simp only [ReadState.finish, Int.sub_self]
    rfl
  simp only [System.replay, hstop, Option.bind_some, hzero]

/-- There is one way for `readn` to return. -/
theorem ReadReturns.unique {outcomes : List ReadOutcome} {t t' : ReadState}
    (h : ReadReturns buf n outcomes t) (h' : ReadReturns buf n outcomes t') : t = t' := by
  obtain ⟨hret, used, hused, hreplay⟩ := h
  obtain ⟨hret', used', hused', hreplay'⟩ := h'
  rcases List.prefix_or_prefix_of_prefix hused hused' with ⟨more, rfl⟩ | ⟨more, rfl⟩
  · rw [System.replay_append, hreplay] at hreplay'
    exact (replay_returned hret hreplay').2.symm
  · rw [System.replay_append, hreplay'] at hreplay
    exact (replay_returned hret' hreplay).2

/-- A signal in the first call makes `readn` return 0. So it must return 0 without the signal too,
    and does so only when the first call finds the end of the file. -/
theorem eof_of_ignoresSignals (hbuf : n ≤ buf.length) (hn : n < 2 ^ 64) (hpos : 0 < n)
    {outcomes : List ReadOutcome} (h : System.replay (readnStep n) (.start buf n) outcomes = some s)
    (hret : s.ret ≠ none) (hall : ReadsAll n outcomes s)
    (hsignals : IgnoresSignals buf n outcomes s) : outcomes = [.eof] := by
  have hinv := (ReadState.inv_start hbuf).replay h
  have hstart : (ReadState.start buf n).ret = none := by rw [ReadState.start_of_pos buf hpos]
  cases outcomes with
  | nil =>
    obtain rfl := Option.some.inj h
    exact absurd hstart hret
  | cons o rest =>
    obtain ⟨t, ht, hsame, -⟩ := hsignals _ (.insert (List.cons_ne_nil o rest) (.refl _))
    obtain rfl := ht.unique (readReturns_stop buf hpos (Or.inr rfl) (o :: rest))
    have hzero : s.ret = some 0 := hsame.symm
    -- nothing was read, so the first call was not one that reads
    obtain ⟨hptr, hdata⟩ := hinv.data hn hzero (le_refl 0)
    obtain ⟨u, hstep, hrest⟩ := Option.bind_eq_some_iff.mp h
    obtain ⟨-, ⟨bs, buf', rfl, hlen, -⟩ | ⟨ho, hu⟩ | ⟨-, hu⟩⟩ := readnStep_cases hstep
    · rw [List.nil_append, List.flatMap_cons, Int.toNat_zero, List.take_zero] at hdata
      have hnil : bs = [] := (List.append_eq_nil_iff.mp hdata.symm).1
      rw [hnil, List.length_nil] at hlen
      omega
    · obtain ⟨rfl, rfl⟩ := replay_returned (by rw [hu]; exact nofun) hrest
      rcases hall.complete 0 hzero (le_refl 0) with hnone | hlast
      · omega
      · have heof : o = .eof := Option.some.inj hlast
        rw [heof]
    · obtain ⟨rfl, rfl⟩ := replay_returned (by rw [hu]; exact nofun) hrest
      rw [hu] at hzero
      cases hzero

/-! ### With signals and without -/

/-- With nothing to read there is no call a signal could interrupt. -/
theorem ignoresSignals_zero {outcomes : List ReadOutcome}
    (h : System.replay (readnStep 0) (.start buf 0) outcomes = some s) :
    s.ret = some 0 ∧ IgnoresSignals buf 0 outcomes s := by
  obtain ⟨rfl, rfl⟩ := replay_returned (ReadState.start_zero buf) h
  refine ⟨rfl, ?_⟩
  intro outcomes' hins
  cases hins with
  | nil => exact ⟨_, ⟨ReadState.start_zero buf, [], List.nil_prefix, rfl⟩, rfl, rfl⟩
  | insert hne _ => exact absurd rfl hne

/-- At the end of the file a signal makes no difference. -/
theorem ignoresSignals_eof (hpos : 0 < n)
    (h : System.replay (readnStep n) (.start buf n) [.eof] = some s) (hret : s.ret ≠ none) :
    IgnoresSignals buf n [.eof] s := by
  have hs : s = { nleft := n, ptr := 0, buf, ret := some 0 } :=
    ReadReturns.unique ⟨hret, _, List.prefix_refl _, h⟩ (readReturns_stop buf hpos (Or.inl rfl) [])
  intro outcomes' hins
  rw [hs]
  -- the first answer is the end of the file or a signal, and both end the call
  cases hins with
  | keep _ hrest => exact ⟨_, readReturns_stop buf hpos (Or.inl rfl) _, rfl, rfl⟩
  | insert _ hrest => exact ⟨_, readReturns_stop buf hpos (Or.inr rfl) _, rfl, rfl⟩

/-- `readn` does what is asked of it exactly when nothing is to be read or the first call finds the
    end of the file. Without the part about signals, it does so whenever no call is
    interrupted. -/
theorem readn_iff (buf : Mem) (n : Nat) (hbuf : n ≤ buf.length) (hn : n < 2 ^ 64)
    (outcomes : List ReadOutcome) {s : ReadState}
    (h : System.replay (readnStep n) (.start buf n) outcomes = some s) (hret : s.ret ≠ none) :
    (ReadsAll n outcomes s ∧ IgnoresSignals buf n outcomes s ↔ n = 0 ∨ outcomes = [.eof]) ∧
    ((∀ o ∈ outcomes, o ≠ .failed EINTR) → ReadsAll n outcomes s) := by
  have hinv := (ReadState.inv_start hbuf).replay h
  rw [List.nil_append] at hinv
  have hdata : ∀ r, s.ret = some r → 0 ≤ r →
      s.buf.take r.toNat = outcomes.flatMap ReadOutcome.data :=
    fun r hr hpos => (hinv.data hn hr hpos).2
  constructor
  · rcases Nat.eq_zero_or_pos n with rfl | hpos
    · obtain ⟨hzero, hsignals⟩ := ignoresSignals_zero h
      have hall : ∀ r, s.ret = some r → r = (0 : Nat) :=
        fun r hr => Option.some.inj (hr.symm.trans hzero)
      exact ⟨fun _ => Or.inl rfl, fun _ => ⟨⟨fun r hr _ => Or.inl (hall r hr), hdata⟩, hsignals⟩⟩
    · constructor
      · intro hboth
        exact Or.inr (eof_of_ignoresSignals hbuf hn hpos h hret hboth.1 hboth.2)
      · intro hcond
        obtain rfl : outcomes = [.eof] := hcond.resolve_left (by omega)
        exact ⟨⟨fun _ _ _ => Or.inr rfl, hdata⟩, ignoresSignals_eof hpos h hret⟩
  · intro hsignal
    refine ⟨fun r hr hpos => ?_, hdata⟩
    rcases Nat.eq_zero_or_pos n with rfl | hn0
    · exact Or.inl (Option.some.inj (hr.symm.trans (ignoresSignals_zero h).1))
    · have hstart : (ReadState.start buf n).ret = none := by rw [ReadState.start_of_pos buf hn0]
      exact complete_of_uninterrupted hn hsignal (ReadState.inv_start hbuf) hstart h hr hpos

/-- Three bytes of a file that holds two. -/
theorem readn_iff_two : ∃ s,
    System.replay (readnStep 3) (.start [0, 0, 0] 3) [.bytes [7], .bytes [8], .eof] = some s ∧
      ReadsAll 3 [.bytes [7], .bytes [8], .eof] s :=
  ⟨_, rfl, (readn_iff [0, 0, 0] 3 (by decide) (by decide) [.bytes [7], .bytes [8], .eof] rfl
    (by decide)).2 (by decide)⟩

/-- One byte is read, then a signal arrives: `readn` returns 1 where 3 bytes are to be read. -/
theorem readn_stops_at_signal :
    ¬ ∀ (buf : Mem) (n : Nat) (outcomes : List ReadOutcome) (s : ReadState), n ≤ buf.length →
      System.replay (readnStep n) (.start buf n) outcomes = some s → s.ret ≠ none →
        ReadsAll n outcomes s := by
  intro hall
  have hreads := hall [0, 0, 0] 3 [.bytes [7], .failed EINTR] _ (by decide) rfl (by decide)
  rcases hreads.complete 1 rfl (by decide) with hone | hlast
  · cases hone
  · cases hlast

end Transfer
