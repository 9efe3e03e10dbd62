import TestServer.Echo.Server

/-! # The descriptors of the echo server

    * `Exact`: the invariant that ties `cur_fds` to the descriptors registered
      with epoll. `cur_fds_exact` states what it says of reachable states.
    * `Overfull`: an event of the listening descriptor is next while `cur_fds`
      is at its limit. The test of the loop body then sends the event to the
      branch that reads, and the read fails.
    * `keeps_listening_iff`: the listening descriptor is kept exactly in the
      runs that never handle an event in such a state.
-/

open CMemory LTS

namespace Echo

/-! ### The descriptor count -/

/-- The count is exact, and the reported events are of registered descriptors. -/
structure Exact (s : State) : Prop where
  count : s.cur_fds = s.registered.length
  nodup : s.registered.Nodup
  opened : ∀ fd ∈ s.registered, fd ∈ s.opened
  bound : s.cur_fds ≤ 1000
  evs_registered : ∀ fd ∈ s.evs, fd ∈ s.registered
  evs_nodup : s.evs.Nodup
  listening : s.listening_fd ∈ s.opened → s.listening_fd ∈ s.registered

variable {s s' : State} {l : Label}

theorem exact_start (listening_fd : Int) (others : Finset Int) :
    Exact (.start listening_fd others) where
  count := rfl
  nodup := List.nodup_singleton _
  opened := by simp [State.start]
  bound := by
    show (1 : Int) ≤ 1000
    omega
  evs_registered := by simp [State.start]
  evs_nodup := List.nodup_nil
  listening := by simp [State.start]

/-- The rest of a batch. -/
theorem Exact.tail (h : Exact s) {fd : Int} {rest : List Int} (hevs : s.evs = fd :: rest) :
    Exact { s with evs := rest } ∧ fd ∈ s.registered ∧ fd ∉ rest := by
  have hreg := h.evs_registered
  have hnodup := h.evs_nodup
  rw [hevs] at hreg hnodup
  obtain ⟨hnotin, hrest⟩ := List.nodup_cons.mp hnodup
  exact ⟨{ h with evs_registered := fun e he => hreg e (List.mem_cons_of_mem _ he)
                  evs_nodup := hrest }, hreg fd List.mem_cons_self, hnotin⟩

/-- A fresh descriptor is registered and counted. -/
theorem Exact.accept (h : Exact s) (hlisten : s.listening_fd ∈ s.registered)
    (hroom : s.cur_fds < 1000) {linkage_fd : Int} (hfresh : linkage_fd ∉ s.opened) :
    Exact ((s.acceptOk linkage_fd).addOk linkage_fd) where
  count := by
    show s.cur_fds + 1 = ((s.registered ++ [linkage_fd]).length : Nat)
    rw [h.count, List.length_append, List.length_singleton, Nat.cast_add, Nat.cast_one]
  nodup := by
    have hnew : linkage_fd ∉ s.registered := fun hmem => hfresh (h.opened _ hmem)
    exact List.nodup_append.mpr ⟨h.nodup, List.nodup_singleton _, by
      intro a ha b hb heq
      subst heq
      exact hnew (List.mem_singleton.mp hb ▸ ha)⟩
  opened := by
    intro fd hfd
    rcases List.mem_append.mp hfd with hold | hnew
    · exact Finset.mem_insert_of_mem (h.opened fd hold)
    · exact List.mem_singleton.mp hnew ▸ Finset.mem_insert_self _ _
  bound := by
    show s.cur_fds + 1 ≤ 1000
    omega
  evs_registered := fun fd hfd => List.mem_append_left _ (h.evs_registered fd hfd)
  evs_nodup := h.evs_nodup
  listening := fun _ => List.mem_append_left _ hlisten

/-- A descriptor that is closed is deregistered and no longer counted. -/
theorem Exact.hangUp (h : Exact s) {fd : Int} (hfd : fd ∈ s.registered) (hevs : fd ∉ s.evs) :
    Exact (s.hangUp fd) := by
  have hregistered := s.hangUp_registered fd
  have hopened : (s.hangUp fd).opened = s.opened.erase fd := rfl
  have hcount : (s.hangUp fd).cur_fds = s.cur_fds - 1 := rfl
  -- the other descriptors stay registered
  have hkeep : ∀ e, e ≠ fd → e ∈ s.registered → e ∈ (s.hangUp fd).registered := by
    intro e hne he
    rw [hregistered]
    exact (List.mem_erase_of_ne hne).mpr he
  constructor
  case count =>
    have hpos := List.length_pos_of_mem hfd
    rw [hcount, hregistered, h.count, List.length_erase_of_mem hfd]
    omega
  case nodup => exact hregistered ▸ h.nodup.erase fd
  case opened =>
    intro e he
    rw [hregistered, h.nodup.mem_erase_iff] at he
    rw [hopened]
    exact Finset.mem_erase.mpr ⟨he.1, h.opened e he.2⟩
  case bound =>
    have := h.bound
    rw [hcount]
    omega
  case evs_registered =>
    intro e he
    exact hkeep e (fun heq => hevs (heq ▸ he)) (h.evs_registered e he)
  case evs_nodup => exact h.evs_nodup
  case listening =>
    intro hlisten
    rw [hopened] at hlisten
    obtain ⟨hne, hmem⟩ := Finset.mem_erase.mp hlisten
    exact hkeep _ hne (h.listening hmem)

/-- Every step keeps the count exact. -/
theorem Exact.step (h : Exact s) (hstep : step s l = some s') : Exact s' := by
  obtain ⟨-, hsteps⟩ := steps_of_step hstep
  cases hsteps with
  | wait _ hreport =>
    obtain ⟨-, -, hnodup, hreg⟩ := hreport
    exact { h with evs_registered := hreg, evs_nodup := hnodup }
  | waitFails _ => exact { h with }
  | accept hevs hacc _ hfresh =>
    -- the test for room in the loop body is what keeps the bound
    obtain ⟨hrest, hfd, -⟩ := h.tail hevs
    exact hrest.accept (hacc.1 ▸ hfd) hacc.2 hfresh
  | acceptFails hevs _ =>
    obtain ⟨hrest, -⟩ := h.tail hevs
    exact { hrest with }
  | addFails hevs hacc _ hfresh =>
    -- the new descriptor is open, but neither registered nor counted
    obtain ⟨hrest, hfd, -⟩ := h.tail hevs
    exact { hrest with
            opened := fun e he => Finset.mem_insert_of_mem (hrest.opened e he)
            listening := fun _ => hacc.1 ▸ hfd }
  | hangUp hevs _ _ _ _ =>
    -- no other event of the batch is about the descriptor that is closed
    obtain ⟨hrest, hfd, hnotin⟩ := h.tail hevs
    exact hrest.hangUp hfd hnotin
  | answer hevs _ _ _ _ _ =>
    obtain ⟨hrest, -⟩ := h.tail hevs
    exact { hrest with }

theorem exact_of_reachable (h : server.Reachable s) : Exact s := by
  apply h.invariant
  · intro s hs
    obtain ⟨listening_fd, others, -, rfl⟩ := hs
    exact exact_start listening_fd others
  · intro s l s' hs (hstep : step s l = some s')
    exact hs.step hstep

/-- In every reachable state `cur_fds` is the number of open descriptors that are registered, none
    of them twice, the listening one among them while it is open; and it never exceeds the room in
    `evs`, so neither does what `epoll_wait` reports. -/
theorem cur_fds_exact (h : server.Reachable s) :
    s.cur_fds = (s.registered.filter (· ∈ s.opened)).length ∧
    (s.listening_fd ∈ s.opened → s.listening_fd ∈ s.registered) ∧
    s.registered.Nodup ∧ s.cur_fds ≤ 1000 ∧
    ∀ evs s', step s (.wait evs) = some s' → evs.length ≤ 1000 := by
  have hexact := exact_of_reachable h
  have hopen : s.registered.filter (· ∈ s.opened) = s.registered :=
    List.filter_eq_self.mpr fun fd hfd => by simpa using hexact.opened fd hfd
  refine ⟨by rw [hopen, hexact.count], hexact.listening, hexact.nodup, hexact.bound, ?_⟩
  intro evs s' hstep
  -- `epoll_wait` reports no more than `cur_fds` descriptors
  obtain ⟨-, hsteps⟩ := steps_of_step hstep
  cases hsteps with
  | wait _ hreport =>
    have := hexact.bound
    obtain ⟨-, hlen, -⟩ := hreport
    omega

/-- The server with one connection. -/
theorem cur_fds_exact_one :
    ∃ s, System.replay step (.start 3 ∅) [.wait [3], .accept 5] = some s ∧
      s.cur_fds = (s.registered.filter (· ∈ s.opened)).length := by
  have hstart : server.Reachable (.start 3 ∅) := ⟨[], .start ⟨3, ∅, by decide, rfl⟩⟩
  exact ⟨_, rfl, (cur_fds_exact (System.replay_reachable hstart [.wait [3], .accept 5] rfl)).1⟩

/-! ### The listening descriptor -/

/-- The listening descriptor was not read from or closed, is registered, and `epoll_wait` was never
    called with nothing to wait for. -/
structure KeepsListening (s : State) : Prop where
  not_read : Call.read s.listening_fd ∉ s.calls
  not_closed : Call.close s.listening_fd ∉ s.calls
  registered : s.listening_fd ∈ s.registered
  waits : ∀ maxevents, Call.epoll_wait maxevents ∈ s.calls → 1 ≤ maxevents

/-- The next event is of the listening descriptor, and `cur_fds` is at its limit. -/
def Overfull (s : State) : Prop := s.evs.head? = some s.listening_fd ∧ 1000 ≤ s.cur_fds

instance (s : State) : Decidable (Overfull s) :=
  inferInstanceAs (Decidable (s.evs.head? = some s.listening_fd ∧ 1000 ≤ s.cur_fds))

/-- A call of the branch that reads, about the descriptor of the event. -/
def Call.OnEvent (c : Call) (fd : Int) : Prop :=
  c = .read fd ∨ c = .close fd ∨ c = .epoll_ctl_del fd ∨ ∃ bytes, c = .write fd bytes

theorem Call.OnEvent.unique {c : Call} {fd e : Int} (h : c.OnEvent fd) (h' : c.OnEvent e) :
    fd = e := by
  rcases h with rfl | rfl | rfl | ⟨bytes, rfl⟩ <;> simpa [OnEvent] using h'

/-- The calls of a step. -/
theorem calls_of_step (hstep : step s l = some s') :
    s'.listening_fd = s.listening_fd ∧ ∃ new, s'.calls = s.calls ++ new ∧
      ∀ c ∈ new, c = .epoll_wait s.cur_fds ∨ c = .accept s.listening_fd ∨
        (∃ fd, c = .epoll_ctl_add fd) ∨
        ∃ fd, s.evs.head? = some fd ∧ ¬ s.Accepts fd ∧ c.OnEvent fd := by
  obtain ⟨-, hsteps⟩ := steps_of_step hstep
  cases hsteps with
  | wait _ _ => exact ⟨rfl, _, rfl, by simp⟩
  | waitFails _ => exact ⟨rfl, _, rfl, by simp⟩
  | accept _ _ _ _ => exact ⟨rfl, _, rfl, by simp⟩
  | acceptFails _ _ => exact ⟨rfl, _, rfl, by simp⟩
  | addFails _ _ _ _ => exact ⟨rfl, _, rfl, by simp⟩
  | @hangUp fd rest received stack hevs hacc _ _ _ =>
    refine ⟨rfl, [.read fd, .close fd, .epoll_ctl_del fd], ?_, ?_⟩
    · simp [State.hangUp, State.epollCtlDel, State.close]
    · intro c hc
      refine Or.inr (Or.inr (Or.inr ⟨fd, by rw [hevs]; rfl, hacc, ?_⟩))
      simp only [List.mem_cons, List.not_mem_nil, or_false] at hc
      rcases hc with rfl | rfl | rfl
      · exact Or.inl rfl
      · exact Or.inr (Or.inl rfl)
      · exact Or.inr (Or.inr (Or.inl rfl))
  | @answer fd rest bytes stack answer hevs hacc _ _ _ _ =>
    refine ⟨rfl, [.read fd, .write fd answer], rfl, ?_⟩
    intro c hc
    refine Or.inr (Or.inr (Or.inr ⟨fd, by rw [hevs]; rfl, hacc, ?_⟩))
    simp only [List.mem_cons, List.not_mem_nil, or_false] at hc
    rcases hc with rfl | rfl
    · exact Or.inl rfl
    · exact Or.inr (Or.inr (Or.inr ⟨answer, rfl⟩))

/-- An event of the listening descriptor is read from only in an overfull state. -/
theorem overfull_of_not_accepts (hhead : s.evs.head? = some s.listening_fd)
    (hacc : ¬ s.Accepts s.listening_fd) : Overfull s :=
  ⟨hhead, Int.not_lt.mp fun hlt => hacc ⟨rfl, hlt⟩⟩

/-- An event handled in an overfull state is read from, and the read fails. -/
theorem read_of_overfull (hfull : Overfull s) (hstep : step s l = some s') :
    Call.read s'.listening_fd ∈ s'.calls := by
  obtain ⟨hhead, hcount⟩ := hfull
  obtain ⟨-, hsteps⟩ := steps_of_step hstep
  -- the event that is handled is the one of the listening descriptor
  have hno : ∀ fd rest, s.evs = fd :: rest → fd = s.listening_fd := by
    intro fd rest hevs
    rw [hevs] at hhead
    exact Option.some.inj hhead
  cases hsteps with
  | wait hevs _ => simp [hevs] at hhead
  | waitFails hevs => simp [hevs] at hhead
  | accept _ hacc _ _ => exact absurd hacc.2 (by omega)
  | acceptFails _ hacc => exact absurd hacc.2 (by omega)
  | addFails _ hacc _ _ => exact absurd hacc.2 (by omega)
  | hangUp hevs _ _ _ _ =>
    obtain rfl := hno _ _ hevs
    simp [State.hangUp, State.epollCtlDel, State.close]
  | answer hevs _ hread _ _ _ => exact absurd (hno _ _ hevs) hread.1

theorem registered_of_step (h : s.listening_fd ∈ s.registered) (hnot : ¬ Overfull s)
    (hstep : step s l = some s') : s'.listening_fd ∈ s'.registered := by
  obtain ⟨-, hsteps⟩ := steps_of_step hstep
  cases hsteps with
  | wait _ _ => exact h
  | waitFails _ => exact h
  | accept _ _ _ _ => exact List.mem_append_left _ h
  | acceptFails _ _ => exact h
  | addFails _ _ _ _ => exact h
  | @hangUp fd rest received stack hevs hacc _ _ _ =>
    have hne : s.listening_fd ≠ fd := by
      intro heq
      subst heq
      exact hnot (overfull_of_not_accepts (by rw [hevs]; rfl) hacc)
    rw [State.hangUp_registered]
    exact (List.mem_erase_of_ne hne).mpr h
  | answer _ _ _ _ _ _ => exact h

/-- Outside overfull states, every step keeps the listening descriptor. -/
theorem KeepsListening.step (h : KeepsListening s) (hexact : Exact s) (hnot : ¬ Overfull s)
    (hstep : step s l = some s') : KeepsListening s' := by
  obtain ⟨hfd, new, hcalls, hnew⟩ := calls_of_step hstep
  have hwait : 1 ≤ s.cur_fds := by
    have := List.length_pos_of_mem h.registered
    rw [hexact.count]
    omega
  -- a call on the event's descriptor is not about the listening one
  have honEvent : ∀ c ∈ new, ¬ c.OnEvent s.listening_fd := by
    intro c hc hon
    rcases hnew c hc with rfl | rfl | ⟨e, rfl⟩ | ⟨e, hhead, hacc, hone⟩
    · simp [Call.OnEvent] at hon
    · simp [Call.OnEvent] at hon
    · simp [Call.OnEvent] at hon
    · obtain rfl := hone.unique hon
      exact hnot (overfull_of_not_accepts hhead hacc)
  constructor
  case not_read =>
    rw [hfd, hcalls, List.mem_append]
    exact fun hor => hor.elim h.not_read fun hmem => honEvent _ hmem (Or.inl rfl)
  case not_closed =>
    rw [hfd, hcalls, List.mem_append]
    exact fun hor => hor.elim h.not_closed fun hmem => honEvent _ hmem (Or.inr (Or.inl rfl))
  case registered => exact registered_of_step h.registered hnot hstep
  case waits =>
    intro n hn
    rw [hcalls, List.mem_append] at hn
    rcases hn with hold | hmem
    · exact h.waits n hold
    · rcases hnew _ hmem with heq | heq | ⟨e, heq⟩ | ⟨e, -, -, hone⟩
      · cases heq
        exact hwait
      · cases heq
      · cases heq
      · simp [Call.OnEvent] at hone

/-- In a run, the listening descriptor was never given up if and only if no event was handled in
    an overfull state. -/
theorem keeps_listening_iff {tr : List (State × Label)} (h : server.Run tr s) :
    KeepsListening s ↔ Along (fun s _ => ¬ Overfull s) tr := by
  constructor
  · intro hkeeps
    by_contra hno
    refine hkeeps.not_read (h.broken (Q := fun s => Call.read s.listening_fd ∈ s.calls) ?_ ?_ hno)
    · -- the first such event
      intro _ s l s' _ _ (hstep : step s l = some s') hbad
      exact read_of_overfull (not_not.mp hbad) hstep
    · -- a call that was made stays made
      intro s l s' (hstep : step s l = some s') hmem
      obtain ⟨hfd, new, hcalls, -⟩ := calls_of_step hstep
      rw [hfd, hcalls]
      exact List.mem_append_left _ hmem
  · intro hok
    have hboth : Exact s ∧ KeepsListening s := by
      refine h.invariant (I := fun s => Exact s ∧ KeepsListening s) ?_ ?_ hok
      · intro s hs
        obtain ⟨listening_fd, others, -, rfl⟩ := hs
        exact ⟨exact_start listening_fd others, by simp [State.start], by simp [State.start],
          by simp [State.start], by simp [State.start]⟩
      · intro s l s' ⟨hexact, hkeeps⟩ hnot (hstep : step s l = some s')
        exact ⟨hexact.step hstep, hkeeps.step hexact hnot hstep⟩
    exact hboth.2

/-- The server accepts a connection. -/
theorem keeps_listening_iff_one :
    ∃ s, System.replay step (.start 3 ∅) [.wait [3], .accept 5] = some s ∧ KeepsListening s := by
  let s₁ := (State.start 3 ∅).report [3]
  let s₂ := (({ s₁ with evs := [] } : State).acceptOk 5).addOk 5
  have hstart : server.Run [] (.start 3 ∅) := .start ⟨3, ∅, by decide, rfl⟩
  have hwait : step (.start 3 ∅) (.wait [3]) = some s₁ := rfl
  have haccept : step s₁ (.accept 5) = some s₂ := rfl
  exact ⟨s₂, rfl, (keeps_listening_iff ((hstart.next hwait).next haccept)).mpr
    (along_snoc.mpr ⟨along_snoc.mpr ⟨along_nil _, by decide⟩, by decide⟩)⟩

/-! ### A full house -/

/-- A state with `k` connections, at `epoll_wait`. -/
structure Crowded (k : Nat) (s : State) : Prop where
  running : s.running = true
  listening : s.listening_fd = 3
  evs : s.evs = []
  cur_fds : s.cur_fds = k + 1
  registered : 3 ∈ s.registered
  opened : ∀ fd ∈ s.opened, fd ≤ 3 + k

/-- An event of the listening descriptor is reported. -/
theorem Crowded.wait {k : Nat} (h : Crowded k s) :
    step s (.wait [3]) = some (s.report [3]) := by
  refine step_of_steps h.running (.wait h.evs ⟨?_, ?_, List.nodup_singleton _, ?_⟩)
  · rw [h.cur_fds]
    omega
  · rw [h.cur_fds, List.length_singleton]
    omega
  · simpa using h.registered

/-- As long as there is room, one more connection can come in. -/
theorem reachable_crowded {k : Nat} (hk : k ≤ 999) : ∃ s, server.Reachable s ∧ Crowded k s := by
  induction k with
  | zero =>
    refine ⟨.start 3 ∅, ⟨[], .start ⟨3, ∅, by decide, rfl⟩⟩, rfl, rfl, rfl, rfl, by decide, ?_⟩
    simp [State.start]
  | succ k ih =>
    -- connection k gets the descriptor 4 + k
    obtain ⟨s, hreach, h⟩ := ih (by omega)
    have hnew : (4 + k : Int) ∉ s.opened := fun hmem => by
      have := h.opened _ hmem
      omega
    have hacc : (s.report [3]).Accepts 3 := ⟨h.listening.symm, by
      show s.cur_fds < 1000
      rw [h.cur_fds]
      omega⟩
    have haccept := step_of_steps (s := s.report [3]) h.running
      (.accept rfl hacc (by omega : (0 : Int) ≤ 4 + k) hnew)
    refine ⟨_, (hreach.next h.wait).next haccept, h.running, h.listening, rfl, ?_,
      List.mem_append_left _ h.registered, ?_⟩
    · show s.cur_fds + 1 = ((k + 1 : Nat) : Int) + 1
      rw [h.cur_fds, Nat.cast_add, Nat.cast_one]
    · intro fd hfd
      rcases Finset.mem_insert.mp hfd with rfl | hold
      · omega
      · have := h.opened fd hold
        omega

/-- With 999 connections open, one more event of the listening descriptor closes it. -/
theorem listening_given_up : ∃ s, server.Reachable s ∧ ¬ KeepsListening s ∧
    Call.close s.listening_fd ∈ s.calls ∧ s.listening_fd ∉ s.registered := by
  obtain ⟨s, hreach, h⟩ := reachable_crowded (le_refl 999)
  -- `cur_fds` is 1000: the event goes to the branch that reads
  have hnot : ¬ (s.report [3]).Accepts 3 := fun hacc => by
    have hroom : s.cur_fds < 1000 := hacc.2
    rw [h.cur_fds] at hroom
    omega
  have hhangUp : Steps (s.report [3]) (.read none (List.replicate 50 0)) _ :=
    .hangUp rfl hnot trivial (List.length_replicate ..) (by simp)
  have hread := step_of_steps (s := s.report [3]) h.running hhangUp
  have hfull := (hreach.next h.wait).next hread
  have hnodup := (exact_of_reachable hreach).nodup
  refine ⟨_, hfull, fun hkeeps => hkeeps.not_closed ?_, ?_, ?_⟩
  · simp [State.hangUp, State.epollCtlDel, State.close, State.report, h.listening]
  · simp [State.hangUp, State.epollCtlDel, State.close, State.report, h.listening]
  · rw [State.hangUp_registered]
    exact fun hmem => (hnodup.mem_erase_iff.mp hmem).1 h.listening

end Echo
