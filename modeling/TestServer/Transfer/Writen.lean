import TestServer.Lib.CInt
import TestServer.Lib.CMemory
import TestServer.Lib.System

/-! # `writen`

    `writen` of `sample_io/test_file.cpp`. It calls `write` until all of the
    buffer is written:

    ```
    size_t nleft = n;
    const void * nptr = vptr;
    ssize_t nwriten;
    while(nleft >0) {
        nwriten = write(fd, nptr, nleft);
        if (nwriten <=0) {
            if (nwriten <0 && errno == EINTR) {
                nwriten = 0;
            } else {
                return -1;
            }
        }
        nleft -= nwriten;
        nptr += nwriten;
    }
    return n;
    ```

    * `writenPass`: one pass through the loop, with what `write` answers in it.
    * `writen`: the loop together with the bytes its descriptor accepted.
    * `writen_exactly_once`: these are the bytes of the buffer, in order, and
      the value returned says whether all of them were accepted.
-/

open CInt CMemory LTS

namespace Transfer

/-! ### The loop -/

/-- `errno` after a call that a signal interrupted. -/
def EINTR : Nat := 4

/-- What `write` answers. -/
inductive WriteOutcome where
  /-- That many bytes were accepted. -/
  | wrote (k : Nat)
  | zero
  /-- The call failed with this `errno`. -/
  | failed (errno : Nat)
  deriving DecidableEq

/-- The value `write` returns. -/
def WriteOutcome.nwriten : WriteOutcome → Int
  | wrote k => k
  | zero => 0
  | failed _ => -1

/-- `errno` after the call, where the call sets it. -/
def WriteOutcome.errno : WriteOutcome → Option Nat
  | failed errno => some errno
  | _ => none

/-- `write` accepts no more than it is offered, and says so. -/
def WriteOutcome.Possible (offered : Nat) : WriteOutcome → Prop
  | wrote k => 1 ≤ k ∧ k ≤ offered
  | _ => True

instance (offered : Nat) : (o : WriteOutcome) → Decidable (o.Possible offered)
  | .wrote k => inferInstanceAs (Decidable (1 ≤ k ∧ k ≤ offered))
  | .zero => .isTrue trivial
  | .failed _ => .isTrue trivial

/-- The call wrote nothing, and the reason was not a signal. -/
def WriteOutcome.Fatal : WriteOutcome → Prop
  | wrote _ => False
  | zero => True
  | failed errno => errno ≠ EINTR

instance : (o : WriteOutcome) → Decidable o.Fatal
  | .wrote _ => .isFalse id
  | .zero => .isTrue trivial
  | .failed errno => inferInstanceAs (Decidable (errno ≠ EINTR))

/-- The variables of `writen`, and the value it returned. -/
structure WriteState where
  nleft : Nat
  /-- `nptr` as an offset from `vptr`. -/
  nptr : Nat
  ret : Option Int
  deriving DecidableEq

/-- The test at the head of the loop. -/
def WriteState.head (n : Nat) (s : WriteState) : WriteState :=
  if 0 < s.nleft then s else { s with ret := some (signed 64 n) }

@[simp] theorem WriteState.head_nleft (n : Nat) (s : WriteState) : (s.head n).nleft = s.nleft := by
  unfold head
  split <;> rfl

@[simp] theorem WriteState.head_nptr (n : Nat) (s : WriteState) : (s.head n).nptr = s.nptr := by
  unfold head
  split <;> rfl

/-- The variables after `nwriten` bytes were written. -/
def WriteState.advance (s : WriteState) (nwriten : Nat) : WriteState :=
  { s with nleft := s.nleft - nwriten, nptr := s.nptr + nwriten }

/-- One pass through the loop. -/
def writenPass (n : Nat) (s : WriteState) (o : WriteOutcome) : WriteState :=
  if o.nwriten ≤ 0 then
    if o.nwriten < 0 ∧ o.errno = some EINTR then (s.advance 0).head n
    else { s with ret := some (-1) }
  else (s.advance o.nwriten.toNat).head n

/-- A call of `write(fd, vptr + nptr, nleft)` and the rest of the pass: the variables after it and
    the bytes accepted. There is no pass once `writen` has returned. -/
def writenStep (vptr : Mem) (n : Nat) (s : WriteState) (o : WriteOutcome) :
    Option (WriteState × List UInt8) :=
  if s.ret = none ∧ o.Possible s.nleft then do
    let bytes ← readBytes vptr s.nptr o.nwriten.toNat
    some (writenPass n s o, bytes)
  else none

/-- The variables before the first pass. -/
def WriteState.start (n : Nat) : WriteState :=
  ({ nleft := n, nptr := 0, ret := none } : WriteState).head n

/-- `writen` and what its descriptor accepted. -/
structure Writing where
  loop : WriteState
  accepted : List UInt8
  deriving DecidableEq

/-- One call of `write`. -/
def Writing.step (vptr : Mem) (n : Nat) (s : Writing) (o : WriteOutcome) : Option Writing := do
  let (loop, bytes) ← writenStep vptr n s.loop o
  some { loop, accepted := s.accepted ++ bytes }

/-- Before the first call. -/
def Writing.start (n : Nat) : Writing where
  loop := .start n
  accepted := []

/-- The runs of `writen(fd, vptr, n)`. -/
def writen (vptr : Mem) (n : Nat) : System Writing WriteOutcome :=
  .ofFun (fun s => s = .start n) (Writing.step vptr n)

/-! ### One pass -/

variable {vptr : Mem} {n : Nat}

/-- Everything a pass can do: bytes are written, or a signal interrupted the call, or `writen`
    returns -1. -/
theorem writenStep_cases {s s' : WriteState} {o : WriteOutcome} {bytes : List UInt8}
    (h : writenStep vptr n s o = some (s', bytes)) :
    s.ret = none ∧
    ((∃ k, o = .wrote k ∧ 1 ≤ k ∧ k ≤ s.nleft ∧ s' = (s.advance k).head n ∧
        readBytes vptr s.nptr k = some bytes) ∨
      (o = .failed EINTR ∧ s' = (s.advance 0).head n ∧ bytes = []) ∨
      (o.Fatal ∧ s' = { s with ret := some (-1) } ∧ bytes = [])) := by
  unfold writenStep at h
  split at h
  case isFalse => cases h
  case isTrue hcall =>
    obtain ⟨hret, hpossible⟩ := hcall
    obtain ⟨bs, hread, hpass⟩ := Option.bind_eq_some_iff.mp h
    obtain ⟨rfl, rfl⟩ := Prod.mk.inj (Option.some.inj hpass)
    refine ⟨hret, ?_⟩
    cases o with
    | wrote k =>
      obtain ⟨hpos, hle⟩ := hpossible
      refine Or.inl ⟨k, rfl, hpos, hle, ?_, hread⟩
      have hnot : ¬ (k : Int) ≤ 0 := by omega
      show (if (k : Int) ≤ 0 then _ else _) = _
      rw [if_neg hnot]
      rfl
    | zero =>
      exact Or.inr (Or.inr ⟨trivial, rfl, readBytes_zero hread⟩)
    | failed errno =>
      by_cases he : errno = EINTR
      · subst he
        exact Or.inr (Or.inl ⟨rfl, rfl, readBytes_zero hread⟩)
      · refine Or.inr (Or.inr ⟨he, ?_, readBytes_zero hread⟩)
        simp [writenPass, WriteOutcome.nwriten, WriteOutcome.errno, he]

/-! ### What every call keeps -/

/-- The cursor and the bytes left make up the buffer, and `writen` returns when nothing is left, or
    -1 before that. -/
structure WriteState.Inv (n : Nat) (s : WriteState) : Prop where
  cursor : s.nptr + s.nleft = n
  looping : s.ret = none → 0 < s.nleft
  returned : ∀ r, s.ret = some r → (r = signed 64 n ∧ s.nleft = 0) ∨ (r = -1 ∧ 0 < s.nleft)

/-- The test at the head of the loop. -/
theorem WriteState.Inv.head {s : WriteState} (hcursor : s.nptr + s.nleft = n)
    (hret : s.ret = none) : (s.head n).Inv n := by
  unfold WriteState.head
  split
  case isTrue hleft =>
    refine ⟨hcursor, fun _ => hleft, ?_⟩
    intro r hr
    rw [hret] at hr
    cases hr
  case isFalse hleft =>
    have hnone : s.nleft = 0 := by omega
    refine ⟨hcursor, nofun, ?_⟩
    intro r hr
    exact Or.inl ⟨(Option.some.inj hr).symm, hnone⟩

theorem WriteState.inv_start (n : Nat) : (WriteState.start n).Inv n :=
  WriteState.Inv.head (Nat.zero_add n) rfl

/-- `writen` leaves the loop at its head only when nothing is left. -/
theorem WriteState.head_nleft_eq_zero {s : WriteState} (h : s.ret = none)
    (hret : (s.head n).ret ≠ none) : (s.head n).nleft = 0 := by
  unfold WriteState.head at hret ⊢
  split at hret
  case isTrue => exact absurd h hret
  case isFalse hleft =>
    rw [if_neg hleft]
    exact Nat.eq_zero_of_not_pos hleft

theorem WriteState.head_ret {s : WriteState} (h : s.ret = none) :
    (s.head n).ret = none ∨ (s.head n).ret = some (signed 64 n) := by
  unfold WriteState.head
  split
  · exact Or.inl h
  · exact Or.inr rfl

/-- A call keeps the invariant, and what it writes stands behind what was written before. -/
theorem WriteState.Inv.step {s s' : WriteState} {o : WriteOutcome} {bytes : List UInt8}
    (h : s.Inv n) (hstep : writenStep vptr n s o = some (s', bytes)) :
    s'.Inv n ∧ vptr.take s'.nptr = vptr.take s.nptr ++ bytes := by
  have hcursor := h.cursor
  obtain ⟨hret, ⟨k, rfl, hpos, hle, rfl, hread⟩ | ⟨rfl, rfl, rfl⟩ | ⟨hfatal, rfl, rfl⟩⟩ :=
    writenStep_cases hstep
  · constructor
    · apply WriteState.Inv.head
      · show s.nptr + k + (s.nleft - k) = n
        omega
      · exact hret
    · rw [head_nptr]
      show vptr.take (s.nptr + k) = vptr.take s.nptr ++ bytes
      rw [List.take_add, (readBytes_eq_some.mp hread).2]
  · -- interrupted: round again with the same variables
    constructor
    · exact WriteState.Inv.head hcursor hret
    · rw [head_nptr, List.append_nil]
      rfl
  · -- `writen` returns -1 in front of the bytes that are left
    constructor
    · refine ⟨hcursor, nofun, ?_⟩
      intro r hr
      exact Or.inr ⟨(Option.some.inj hr).symm, h.looping hret⟩
    · exact (List.append_nil _).symm

/-- What the descriptor accepted is the buffer up to the cursor. -/
structure Writing.Inv (vptr : Mem) (n : Nat) (s : Writing) : Prop where
  loop : s.loop.Inv n
  accepted : s.accepted = vptr.take s.loop.nptr

theorem Writing.inv_start (vptr : Mem) (n : Nat) : (Writing.start n).Inv vptr n where
  loop := WriteState.inv_start n
  accepted := by
    show [] = vptr.take (WriteState.start n).nptr
    rw [WriteState.start, WriteState.head_nptr, List.take_zero]

variable {s s' : Writing} {o : WriteOutcome}

theorem Writing.step_eq_some (h : Writing.step vptr n s o = some s') :
    ∃ bytes, writenStep vptr n s.loop o = some (s'.loop, bytes) ∧
      s'.accepted = s.accepted ++ bytes := by
  obtain ⟨⟨loop, bytes⟩, hstep, hs⟩ := Option.bind_eq_some_iff.mp h
  obtain rfl := Option.some.inj hs
  exact ⟨bytes, hstep, rfl⟩

theorem Writing.Inv.step (h : s.Inv vptr n) (hstep : Writing.step vptr n s o = some s') :
    s'.Inv vptr n := by
  obtain ⟨bytes, hwriten, haccepted⟩ := Writing.step_eq_some hstep
  obtain ⟨hloop, htake⟩ := h.loop.step hwriten
  exact ⟨hloop, by rw [haccepted, h.accepted, htake]⟩

theorem Writing.inv_of_reachable (h : (writen vptr n).Reachable s) : s.Inv vptr n := by
  apply h.invariant
  · intro s hs
    subst hs
    exact Writing.inv_start vptr n
  · intro s o s' hinv (hstep : Writing.step vptr n s o = some s')
    exact hinv.step hstep

/-! ### Failures -/

/-- `writen` returns -1 in the call that fails. -/
theorem Writing.returns_of_fatal (hfatal : o.Fatal) (hstep : Writing.step vptr n s o = some s') :
    s'.loop.ret = some (-1) := by
  obtain ⟨bytes, hwriten, -⟩ := Writing.step_eq_some hstep
  obtain ⟨-, ⟨k, rfl, -⟩ | ⟨rfl, -⟩ | ⟨-, hs, -⟩⟩ := writenStep_cases hwriten
  · cases hfatal
  · exact absurd rfl hfatal
  · rw [hs]

/-- A call that does not fail leads to another one, or to the end of the buffer. -/
theorem Writing.returns_of_not_fatal (hfatal : ¬ o.Fatal)
    (hstep : Writing.step vptr n s o = some s') :
    s'.loop.ret = none ∨ s'.loop.ret = some (signed 64 n) := by
  obtain ⟨bytes, hwriten, -⟩ := Writing.step_eq_some hstep
  obtain ⟨hret, ⟨k, -, -, -, hs, -⟩ | ⟨-, hs, -⟩ | ⟨hf, -⟩⟩ := writenStep_cases hwriten
  · rw [hs]
    exact WriteState.head_ret hret
  · rw [hs]
    exact WriteState.head_ret hret
  · exact absurd hf hfatal

/-- The number of bytes of a buffer comes back as it is. -/
theorem signed_of_length (hn : n < 2 ^ 63) : signed 64 n = n := by
  apply signed_of_range
  · omega
  · omega

/-- All of the buffer was accepted exactly when `writen` returned `n`. -/
theorem Writing.Inv.returned_iff (h : s.Inv vptr n) (hbuf : n ≤ vptr.length) (hn : n < 2 ^ 63) :
    s.loop.ret = some (n : Int) ↔ s.accepted = vptr.take n := by
  have hsigned := signed_of_length hn
  have hcursor := h.loop.cursor
  constructor
  · intro hret
    rcases h.loop.returned _ hret with ⟨-, hnone⟩ | ⟨hneg, -⟩
    · have hend : s.loop.nptr = n := by omega
      rw [h.accepted, hend]
    · omega
  · intro hall
    have hlen := congrArg List.length (h.accepted.symm.trans hall)
    rw [List.length_take, List.length_take] at hlen
    have hnone : s.loop.nleft = 0 := by omega
    cases hret : s.loop.ret with
    | none =>
      have := h.loop.looping hret
      omega
    | some r =>
      rcases h.loop.returned r hret with ⟨hr, -⟩ | ⟨-, hleft⟩
      · rw [hr, hsigned]
      · omega

/-- A run in which no call fails does not return -1. -/
theorem Writing.not_fails {tr : List (Writing × WriteOutcome)} (hn : n < 2 ^ 63)
    (h : (writen vptr n).Run tr s) (hok : Along (fun _ o => ¬ o.Fatal) tr) :
    s.loop.ret ≠ some (-1) := by
  have hneg : ∀ r, r = none ∨ r = some (signed 64 n) → r ≠ some (-1) := by
    intro r hr
    rcases hr with rfl | rfl
    · exact nofun
    · rw [signed_of_length hn]
      intro heq
      have := Option.some.inj heq
      omega
  refine h.invariant (I := fun s => s.loop.ret ≠ some (-1)) ?_ ?_ hok
  · intro s hs
    subst hs
    exact hneg _ (WriteState.head_ret rfl)
  · intro s o s' _ hnot (hstep : Writing.step vptr n s o = some s')
    exact hneg _ (Writing.returns_of_not_fatal hnot hstep)

/-- A run in which a call fails returns -1. -/
theorem Writing.fails {tr : List (Writing × WriteOutcome)} (h : (writen vptr n).Run tr s)
    (hbad : ¬ Along (fun _ o => ¬ o.Fatal) tr) : s.loop.ret = some (-1) := by
  refine h.broken (Q := fun s => s.loop.ret = some (-1)) ?_ ?_ hbad
  · intro _ s o s' _ _ (hstep : Writing.step vptr n s o = some s') hfatal
    exact Writing.returns_of_fatal (not_not.mp hfatal) hstep
  · intro s o s' (hstep : Writing.step vptr n s o = some s') hret
    -- there is no call after `writen` has returned
    obtain ⟨bytes, hwriten, -⟩ := Writing.step_eq_some hstep
    rw [(writenStep_cases hwriten).1] at hret
    cases hret

/-! ### Exactly once -/

/-- Whatever the calls of `write` answer, the descriptor accepted at every time the first
    `n - nleft` bytes of the buffer, in order. `writen` returns `n` exactly when all were accepted,
    and -1 exactly when a call returned 0 or failed with another `errno` than `EINTR`. -/
theorem writen_exactly_once (vptr : Mem) (n : Nat) (hbuf : n ≤ vptr.length) (hn : n < 2 ^ 63)
    (outcomes : List WriteOutcome) {s : Writing}
    (h : System.replay (Writing.step vptr n) (.start n) outcomes = some s) :
    s.loop.nleft ≤ n ∧ s.accepted = vptr.take (n - s.loop.nleft) ∧
    (s.loop.ret = some (n : Int) ↔ s.accepted = vptr.take n) ∧
    (s.loop.ret = some (-1) ↔ ∃ o ∈ outcomes, o.Fatal) ∧
    s.accepted <+: vptr.take n := by
  have hstart : (writen vptr n).Run [] (.start n) := .start rfl
  obtain ⟨tr, hrun, hlabels⟩ := hstart.replay outcomes h
  rw [List.nil_append] at hrun
  have hinv := Writing.inv_of_reachable ⟨tr, hrun⟩
  have hcursor := hinv.loop.cursor
  have hnptr : s.loop.nptr = n - s.loop.nleft := by omega
  have hfatal : (∃ o ∈ outcomes, o.Fatal) ↔ ¬ Along (fun _ o => ¬ o.Fatal) tr := by
    rw [not_along_label, hlabels]
  refine ⟨by omega, by rw [hinv.accepted, hnptr], hinv.returned_iff hbuf hn, ?_, ?_⟩
  · rw [hfatal]
    constructor
    · intro hret hok
      exact Writing.not_fails hn hrun hok hret
    · exact Writing.fails hrun
  · rw [hinv.accepted, hnptr]
    exact List.take_prefix_take_left (Nat.sub_le n _)

/-- Three bytes, written two at a time at most, with a signal in between. -/
theorem writen_exactly_once_three :
    ∃ s, System.replay (Writing.step [7, 8, 9] 3) (.start 3)
        [.wrote 2, .failed EINTR, .wrote 1] = some s ∧
      s.loop.ret = some (3 : Nat) ∧ s.accepted = [7, 8, 9] ∧ s.loop.ret ≠ some (-1) := by
  refine ⟨_, rfl, ?_⟩
  obtain ⟨-, -, hall, hfails, -⟩ := writen_exactly_once [7, 8, 9] 3 (by decide) (by decide)
    [.wrote 2, .failed EINTR, .wrote 1] rfl
  exact ⟨hall.mpr rfl, hall.mp rfl, fun hret => absurd (hfails.mp hret) (by decide)⟩

end Transfer
