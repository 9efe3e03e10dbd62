import TestServer.Select.SelectAccept

/-! # Which descriptors an iteration touches

    The loop that fills the sets skips the free slots (`<= 0`). The two loops
    behind `select` do not: they pass every slot to `FD_ISSET`.

    * `uses`: the values an iteration passes to `FD_SET`, `FD_ISSET` and the
      callbacks.
    * `RealOnly`: they are accepted descriptors, or `listening_fd`, within the
      range of an `fd_set`.
    * `realOnly_iff`: the iterations that touch nothing else are those whose
      scans find no free slot.
    * `along_realOnly_iff`: a server starts with 1024 free slots, and no run
      gets as far as the scans without testing one.
-/

open LTS

namespace Select

/-! ### The values passed on -/

/-- `FD_SETSIZE` of `sys/select.h`. -/
def FD_SETSIZE : Int := 1024

/-- A descriptor that an `fd_set` has a bit for. -/
def InRange (fd : Int) : Prop := 0 ≤ fd ∧ fd < FD_SETSIZE

instance (fd : Int) : Decidable (InRange fd) :=
  inferInstanceAs (Decidable (0 ≤ fd ∧ fd < FD_SETSIZE))

/-- The descriptor a callback is called with. -/
def Call.served : Call → Option Int
  | .read_message fd _ => some fd
  | .write_message fd _ => some fd
  | _ => none

/-- The values an iteration passes to `FD_SET`, `FD_ISSET`, `read_message` and `write_message`. -/
def uses (s : State) (l : Answers) : List Int :=
  -- `FD_SET`
  s.listening_fd :: s.array_linkage_fd.filter (¬ · ≤ 0) ++
    if l.Ends then []
    else
      -- `FD_ISSET`; both loops test every slot
      s.listening_fd :: (s.linked l).array_linkage_fd ++ (calls s l).filterMap Call.served

/-- The descriptors accepted by the end of an iteration. -/
def acceptedBy (s : State) (l : Answers) : List Int :=
  if l.Ends then s.accepted else (s.linked l).accepted

/-- An iteration tests and serves real connections only. -/
def RealOnly (s : State) (l : Answers) : Prop :=
  ∀ fd ∈ uses s l, (fd = s.listening_fd ∨ fd ∈ acceptedBy s l) ∧ InRange fd

variable {s s' : State} {l : Answers} {fd : Int}

theorem mem_served : fd ∈ (calls s l).filterMap Call.served ↔ ∃ ret, Served s l fd ret := by
  rw [List.mem_filterMap]
  constructor
  · intro h
    obtain ⟨c, hc, hfd⟩ := h
    cases c <;> simp only [Call.served, Option.some.injEq, reduceCtorEq] at hfd
    case read_message e ret =>
      subst hfd
      exact ⟨ret, Or.inl hc⟩
    case write_message e ret =>
      subst hfd
      exact ⟨ret, Or.inr hc⟩
  · intro h
    obtain ⟨ret, hread | hwrite⟩ := h
    · exact ⟨_, hread, rfl⟩
    · exact ⟨_, hwrite, rfl⟩

/-- Before `select` the listening descriptor and the connections are used, behind it whatever the
    table holds. -/
theorem mem_uses : fd ∈ uses s l ↔ fd = s.listening_fd ∨ fd ∈ descriptors s.array_linkage_fd ∨
    ¬ l.Ends ∧ fd ∈ (s.linked l).array_linkage_fd := by
  have hfilter : fd ∈ s.array_linkage_fd.filter (¬ · ≤ 0) ↔
      fd ∈ descriptors s.array_linkage_fd := by
    rw [mem_descriptors, List.mem_filter, decide_eq_true_iff, Int.not_le]
  -- a callback gets what `FD_ISSET` got
  have hserved : fd ∈ (calls s l).filterMap Call.served → fd ∈ (s.linked l).array_linkage_fd := by
    intro h
    obtain ⟨ret, hret⟩ := mem_served.mp h
    obtain ⟨-, i, hi, -⟩ := served_iff.mp hret
    exact List.mem_of_getElem? hi
  unfold uses
  rw [List.cons_append, List.mem_cons, List.mem_append, hfilter]
  by_cases hends : l.Ends
  · simp [hends]
  · rw [if_neg hends, List.cons_append, List.mem_cons, List.mem_append]
    constructor
    · intro h
      rcases h with h | h | h | h | h
      · exact Or.inl h
      · exact Or.inr (Or.inl h)
      · exact Or.inl h
      · exact Or.inr (Or.inr ⟨hends, h⟩)
      · exact Or.inr (Or.inr ⟨hends, hserved h⟩)
    · intro h
      rcases h with h | h | ⟨-, h⟩
      · exact Or.inl h
      · exact Or.inr (Or.inl h)
      · exact Or.inr (Or.inr (Or.inr (Or.inl h)))

/-! ### One iteration -/

/-- What is in the table was accepted, or is a `-1` from the beginning or a failed `accept`. -/
def Stored (s : State) : Prop := ∀ fd ∈ s.array_linkage_fd, fd = -1 ∨ fd ∈ s.accepted

theorem Stored.link (h : Stored s) (linkage_fd : Int) : Stored (s.link linkage_fd) := by
  intro fd hfd
  show fd = -1 ∨ fd ∈ if linkage_fd < 0 then s.accepted else s.accepted ++ [linkage_fd]
  by_cases hfail : linkage_fd < 0
  · rw [if_pos hfail]
    rcases mem_addFd hfd with heq | hmem
    · exact Or.inl (by rw [heq, oneAccept, if_pos hfail])
    · exact h fd hmem
  · rw [if_neg hfail, List.mem_append, List.mem_singleton]
    rcases mem_addFd hfd with heq | hmem
    · exact Or.inr (Or.inr (by rw [heq, oneAccept, if_neg hfail]))
    · exact (h fd hmem).imp_right Or.inl

theorem Stored.watch (h : Stored s) : Stored s.watch := h

theorem Stored.linked (h : Stored s) (l : Answers) : Stored (s.linked l) := by
  unfold State.linked
  split
  · exact h.watch.link l.accept
  · exact h.watch

theorem stored_of_reachable (h : server.Reachable s) : Stored s := by
  refine h.invariant (I := Stored) ?_ ?_
  · intro s hs
    obtain ⟨listening_fd, rfl⟩ := hs
    intro fd hfd
    exact Or.inl (List.eq_of_mem_replicate hfd)
  · intro s l s' hs hstep
    cases steps_of_step hstep with
    | ends _ => exact hs
    | links _ _ => exact hs.watch.link l.accept
    | serves _ _ => exact hs.watch

/-- A descriptor in the table is there after an `accept`. -/
theorem mem_linked (hpos : 0 < fd) (h : fd ∈ s.array_linkage_fd) :
    fd ∈ (s.linked l).array_linkage_fd := by
  unfold State.linked
  split
  · exact mem_addFd_of_pos hpos h
  · exact h

/-- An iteration tests and serves real connections only exactly when `listening_fd` and the
    connections are in the range of an `fd_set` and, if it gets to the scans, every slot holds a
    connection. -/
theorem realOnly_iff (h : server.Reachable s) (l : Answers) : RealOnly s l ↔
    InRange s.listening_fd ∧ (∀ fd ∈ descriptors s.array_linkage_fd, InRange fd) ∧
      (¬ l.Ends → ∀ fd ∈ (s.linked l).array_linkage_fd, InRange fd) := by
  have hstored := stored_of_reachable h
  constructor
  · intro hreal
    refine ⟨(hreal _ (mem_uses.mpr (Or.inl rfl))).2, ?_, ?_⟩
    · intro fd hfd
      exact (hreal fd (mem_uses.mpr (Or.inr (Or.inl hfd)))).2
    · intro hends fd hfd
      exact (hreal fd (mem_uses.mpr (Or.inr (Or.inr ⟨hends, hfd⟩)))).2
  · intro hrange fd hfd
    obtain ⟨hlistening, hset, hscan⟩ := hrange
    unfold acceptedBy
    rcases mem_uses.mp hfd with rfl | hfd | ⟨hends, hfd⟩
    · exact ⟨Or.inl rfl, hlistening⟩
    · refine ⟨Or.inr ?_, hset fd hfd⟩
      obtain ⟨hmem, hpos⟩ := mem_descriptors.mp hfd
      split
      · exact (hstored fd hmem).resolve_left (by omega)
      · exact (hstored.linked l fd (mem_linked hpos hmem)).resolve_left (by omega)
    · have hfdRange := hscan hends fd hfd
      rw [if_neg hends]
      refine ⟨Or.inr ((hstored.linked l fd hfd).resolve_left ?_), hfdRange⟩
      obtain ⟨hnonneg, -⟩ := hfdRange
      omega

/-! ### Whole runs -/

/-- No slot of the table was filled yet. -/
def AllFree (s : State) : Prop := s.array_linkage_fd = List.replicate 1024 (-1)

/-- An `accept` fills one slot, and the others are free. -/
theorem AllFree.free (h : AllFree s) (l : Answers) : -1 ∈ (s.linked l).array_linkage_fd := by
  have hrest : (-1 : Int) ∈ List.replicate 1023 (-1) := List.mem_replicate.mpr ⟨by decide, rfl⟩
  have hcons : s.array_linkage_fd = -1 :: List.replicate 1023 (-1) := h
  unfold State.linked
  split
  case isTrue =>
    show -1 ∈ addFd _ s.array_linkage_fd
    rw [hcons, addFd, if_pos (by decide)]
    exact List.mem_cons_of_mem _ hrest
  case isFalse =>
    show -1 ∈ s.array_linkage_fd
    rw [hcons]
    exact List.mem_cons_self

theorem AllFree.realOnly_iff (h : AllFree s) (hreach : server.Reachable s) (l : Answers) :
    RealOnly s l ↔ l.Ends ∧ InRange s.listening_fd := by
  have hnone : ∀ fd, fd ∉ descriptors s.array_linkage_fd := by
    intro fd hfd
    obtain ⟨hmem, hpos⟩ := mem_descriptors.mp hfd
    rw [h] at hmem
    have := List.eq_of_mem_replicate hmem
    omega
  rw [Select.realOnly_iff hreach]
  constructor
  · intro hrange
    obtain ⟨hlistening, -, hscan⟩ := hrange
    refine ⟨?_, hlistening⟩
    by_contra hends
    exact absurd (hscan hends (-1) (h.free l)) (by decide)
  · intro hends
    exact ⟨hends.2, fun fd hfd => absurd hfd (hnone fd), fun hgo => absurd hends.1 hgo⟩

/-- All slots are free as long as no call of `select` reported a descriptor. -/
theorem allFree_of_ends {tr : List (State × Answers)} (h : server.Run tr s)
    (hends : Along (fun _ l => l.Ends) tr) : AllFree s := by
  refine h.invariant (I := AllFree) ?_ ?_ hends
  · intro s hs
    obtain ⟨listening_fd, rfl⟩ := hs
    exact rfl
  · intro s l s' hs hends hstep
    cases steps_of_step hstep with
    | ends _ => exact hs
    | links hgo _ => exact absurd hends hgo
    | serves hgo _ => exact absurd hends hgo

/-- A run tests and serves real connections only exactly when `select` makes the loop end in every
    iteration (so in the first), and the listening descriptor is in the range of an `fd_set`. -/
theorem along_realOnly_iff {tr : List (State × Answers)} (h : server.Run tr s) :
    Along RealOnly tr ↔ Along (fun s l => l.Ends ∧ InRange s.listening_fd) tr := by
  induction h with
  | start _ => simp
  | @next tr s s' l hrun hstep ih =>
    rw [along_snoc, along_snoc, ih]
    apply and_congr_right
    intro hok
    have hends : Along (fun _ l => l.Ends) tr := fun p hp => (hok p hp).1
    exact (allFree_of_ends hrun hends).realOnly_iff ⟨tr, hrun⟩ l

/-- The answers of an iteration in which `select` returns `ret`, and only the listening descriptor
    is ready. -/
def onlyListening (ret accept : Int) : Answers where
  ret := ret
  rfds := {3}
  wfds := ∅
  stray_rfds := fun _ => false
  stray_wfds := fun _ => false
  accept := accept
  read_message := fun _ => 0
  write_message := fun _ => 0

/-- A `select` that times out. -/
theorem along_realOnly_timeout : Along RealOnly [(.start 3, onlyListening 0 5)] := by
  have hstart : server.Run [] (.start 3) := .start ⟨3, rfl⟩
  refine (along_realOnly_iff (hstart.next (l := onlyListening 0 5) rfl)).mpr fun p hp => ?_
  obtain rfl := List.mem_singleton.mp hp
  exact ⟨by decide, by decide⟩

/-- The first connection is accepted, and `FD_ISSET` is called with `-1` for the slots behind it. -/
theorem free_slot_tested : ∃ s, server.Run [(.start 3, onlyListening 1 5)] s ∧
    ¬ RealOnly (.start 3) (onlyListening 1 5) := by
  have hstart : server.Run [] (.start 3) := .start ⟨3, rfl⟩
  refine ⟨_, hstart.next (l := onlyListening 1 5) rfl, ?_⟩
  intro hreal
  have hfree : AllFree (.start 3) := rfl
  have huse : -1 ∈ uses (.start 3) (onlyListening 1 5) :=
    mem_uses.mpr (Or.inr (Or.inr ⟨by decide, hfree.free _⟩))
  exact absurd (hreal (-1) huse).2 (by decide)

end Select
