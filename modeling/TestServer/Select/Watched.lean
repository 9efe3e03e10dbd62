import TestServer.Select.SelectAccept

/-! # What `select` is asked to watch

    * `WatchesExactly`: the table holds the accepted descriptors, once each, and
      `select` is called with exactly these.
    * `Fresh`: `accept` fails or returns a new descriptor, of no more than 1024.
    * `watches_exactly`: runs with fresh descriptors keep it, whatever the
      callbacks return.
-/

open LTS

namespace Select

variable {s s' : State} {l : Answers} {fd : Int}

/-- What is watched is the descriptors accepted so far. -/
structure WatchesExactly (s : State) : Prop where
  entries : ∀ fd, fd ∈ descriptors s.array_linkage_fd ↔ fd ∈ s.accepted
  once : ∀ fd ∈ s.accepted, s.array_linkage_fd.count fd = 1
  rfds : ∀ fd, fd ∈ s.sets.rfds ↔ fd = s.listening_fd ∨ fd ∈ s.accepted
  wfds : ∀ fd, fd ∈ s.sets.wfds ↔ fd ∈ s.accepted
  max_fd : ∀ fd, fd ∈ s.sets.rfds ∨ fd ∈ s.sets.wfds → fd ≤ s.sets.max_fd

/-- If `accept` is called, it fails or returns a positive descriptor it did not return before, and
    it does that no more than 1024 times. -/
def Fresh (s : State) (l : Answers) : Prop :=
  ¬ l.Ends → s.listening_fd ∈ l.rfds →
    l.accept < 0 ∨ (0 < l.accept ∧ l.accept ∉ s.accepted ∧ s.accepted.length < 1024)

/-- The table holds what was accepted, in some order. -/
structure Inv (s : State) : Prop where
  slots : s.array_linkage_fd.length = 1024
  holds : (descriptors s.array_linkage_fd).Perm s.accepted
  fresh : s.accepted.Nodup
  listening : s.listening_fd ≤ s.max_fd

theorem inv_start (listening_fd : Int) : Inv (.start listening_fd) where
  slots := List.length_replicate
  holds := by
    have hnone : descriptors (List.replicate 1024 (-1)) = [] := by
      rw [descriptors, List.filter_replicate]
      rfl
    show (descriptors (List.replicate 1024 (-1))).Perm []
    rw [hnone]
  fresh := List.nodup_nil
  listening := le_refl _

theorem Inv.watch (h : Inv s) : Inv s.watch where
  slots := h.slots
  holds := h.holds
  fresh := h.fresh
  listening := le_trans h.listening State.max_fd_le

/-- A failed `accept` goes into a slot that holds no descriptor. -/
theorem Inv.linkFailed (h : Inv s) (hfail : fd < 0) : Inv (s.link fd) where
  slots := by
    show (addFd _ s.array_linkage_fd).length = 1024
    rw [addFd_length, h.slots]
  holds := by
    have hfd : oneAccept fd ≤ 0 := by
      rw [oneAccept, if_pos hfail]
      decide
    show (descriptors (addFd _ s.array_linkage_fd)).Perm (if fd < 0 then _ else _)
    rw [descriptors_addFd_of_nonpos hfd, if_pos hfail]
    exact h.holds
  fresh := by
    show (if fd < 0 then _ else _ : List Int).Nodup
    rw [if_pos hfail]
    exact h.fresh
  listening := h.listening

/-- A new descriptor finds a free slot. -/
theorem Inv.linkNew (h : Inv s) (hpos : 0 < fd) (hnew : fd ∉ s.accepted)
    (hroom : s.accepted.length < 1024) : Inv (s.link fd) where
  slots := by
    show (addFd _ s.array_linkage_fd).length = 1024
    rw [addFd_length, h.slots]
  holds := by
    have hok : ¬ fd < 0 := by omega
    have hfree : ∃ slot ∈ s.array_linkage_fd, slot ≤ 0 := by
      apply exists_free
      rw [h.holds.length_eq, h.slots]
      exact hroom
    show (descriptors (addFd (oneAccept fd) s.array_linkage_fd)).Perm (if fd < 0 then _ else _)
    rw [oneAccept, if_neg hok, if_neg hok]
    have hadd : (descriptors (addFd fd s.array_linkage_fd)).Perm (fd :: s.accepted) :=
      (descriptors_addFd hpos hfree).trans (h.holds.cons fd)
    exact hadd.trans (List.perm_append_singleton fd s.accepted).symm
  fresh := by
    have hok : ¬ fd < 0 := by omega
    show (if fd < 0 then _ else _ : List Int).Nodup
    rw [if_neg hok]
    exact h.fresh.append (List.nodup_singleton fd) (by simpa using hnew)
  listening := h.listening

theorem Inv.step (h : Inv s) (hfresh : Fresh s l) (hstep : step s l = some s') : Inv s' := by
  cases steps_of_step hstep with
  | ends _ => exact ⟨h.watch.slots, h.watch.holds, h.watch.fresh, h.watch.listening⟩
  | links hends hready =>
    rcases hfresh hends hready with hfail | ⟨hpos, hnew, hroom⟩
    · exact h.watch.linkFailed hfail
    · exact h.watch.linkNew hpos hnew hroom
  | serves _ _ => exact h.watch

theorem Inv.mem_accepted (h : Inv s) : fd ∈ descriptors s.array_linkage_fd ↔ fd ∈ s.accepted :=
  h.holds.mem_iff

theorem Inv.watchesExactly (h : Inv s) : WatchesExactly s where
  entries := fun _ => h.mem_accepted
  once := by
    intro fd hfd
    have hpos : 0 < fd := (mem_descriptors.mp (h.mem_accepted.mpr hfd)).2
    calc s.array_linkage_fd.count fd
      _ = (descriptors s.array_linkage_fd).count fd := by
        rw [descriptors, List.count_filter]
        exact decide_eq_true hpos
      _ = s.accepted.count fd := h.holds.count_eq fd
      _ = 1 := List.count_eq_one_of_mem h.fresh hfd
  rfds := by
    intro fd
    rw [State.mem_rfds, h.mem_accepted]
  wfds := by
    intro fd
    rw [State.mem_wfds, h.mem_accepted]
  max_fd := by
    intro fd hfd
    simp only [State.mem_rfds, State.mem_wfds, or_assoc, or_self] at hfd
    rcases hfd with rfl | hfd
    · exact le_trans h.listening State.max_fd_le
    · exact State.le_max_fd hfd

/-- In every run with fresh descriptors, what `select` is asked to watch is exact. -/
theorem watches_exactly {tr : List (State × Answers)} (h : server.Run tr s)
    (hfresh : Along Fresh tr) : WatchesExactly s := by
  have hinv : Inv s := by
    apply h.invariant (I := Inv) ?_ ?_ hfresh
    · intro s hs
      obtain ⟨listening_fd, rfl⟩ := hs
      exact inv_start listening_fd
    · intro s l s' hinv hfresh hstep
      exact hinv.step hfresh hstep
  exact hinv.watchesExactly

/-- A connection, a failed `accept` and a second connection. -/
theorem watches_exactly_two : ∃ s, server.Reachable s ∧ s.accepted = [5, 7] ∧
    WatchesExactly s := by
  let answer (fd : Int) : Answers :=
    { ret := 1, rfds := {3}, wfds := ∅, stray_rfds := fun _ => true, stray_wfds := fun _ => true,
      accept := fd, read_message := fun _ => 0, write_message := fun _ => 0 }
  let s₀ := State.start 3
  let s₁ := s₀.linked (answer 5)
  let s₂ := s₁.linked (answer (-1))
  let s₃ := s₂.linked (answer 7)
  have h₀ : server.Run [] s₀ := .start ⟨3, rfl⟩
  have h₁ : step s₀ (answer 5) = some s₁ := rfl
  have h₂ : step s₁ (answer (-1)) = some s₂ := rfl
  have h₃ : step s₂ (answer 7) = some s₃ := rfl
  have hrun := ((h₀.next h₁).next h₂).next h₃
  refine ⟨s₃, ⟨_, hrun⟩, rfl, watches_exactly hrun ?_⟩
  simp only [along_snoc, along_nil, true_and]
  refine ⟨⟨?_, ?_⟩, ?_⟩
  · intro _ _
    exact Or.inr ⟨by decide, by decide, by decide⟩
  · intro _ _
    exact Or.inl (by decide)
  · intro _ _
    exact Or.inr ⟨by decide, by decide, by decide⟩

end Select
