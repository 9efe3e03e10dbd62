import Mathlib.Data.Finset.Basic
import TestServer.Lib.System
import TestServer.Select.Table

/-! # `select_accept`

    `select_accept` and `one_accept` of `sample_socket/test_server.cpp`, with a
    table of 1024 slots, all `-1` at first:

    ```
    int max_fd = listening_fd;
    while (1) {
        FD_ZERO(&rfds); FD_ZERO(&wfds);
        FD_SET(listening_fd, &rfds);
        for (int i = 0; i < 1024; i++) {
            if (array_linkage_fd[i] <= 0) continue;
            FD_SET(array_linkage_fd[i], &rfds);
            FD_SET(array_linkage_fd[i], &wfds);
            if (array_linkage_fd[i] > max_fd) max_fd = array_linkage_fd[i];
        }
        int ret = select(max_fd + 1, &rfds, &wfds, NULL, NULL);
        if (ret == 0 || ret == -1) break;
        if (FD_ISSET(listening_fd, &rfds)) {
            int linkage_fd = one_accept(listening_fd);
            add_fd(linkage_fd, array_linkage_fd, 1024);
        }
        for (int i = 0; i < 1024; i++) {
            if (!FD_ISSET(array_linkage_fd[i], &rfds)) continue;
            ret = read_message(array_linkage_fd[i]);
        }
        for (int i = 0; i < 1024; i++) {
            if (!FD_ISSET(array_linkage_fd[i], &wfds)) continue;
            int ret = write_message(array_linkage_fd[i]);
        }
    }
    close(listening_fd);
    ```

    An `fd_set` is a set of integers, and `FD_ISSET` of a negative descriptor
    yields anything.

    * `Sets`, `State.sets`: what `select` is asked to watch.
    * `step`, `calls`: an iteration as one step, from one loop head to the next,
      and the calls it makes. What they answer is the step's label.
    * `not_served`: a descriptor that is not in the table at a loop head is not
      selected on and stays out of the table until it is accepted.
-/

open LTS

namespace Select

/-! ### State -/

/-- The variables of `select_accept` at a loop head. -/
structure State where
  listening_fd : Int
  max_fd : Int
  array_linkage_fd : List Int
  /-- `select_accept` has not returned. -/
  running : Bool
  /-- The descriptors `accept` returned so far. -/
  accepted : List Int

/-- What the calls of an iteration answer. -/
structure Answers where
  /-- What `select` returns, and leaves in the sets. -/
  ret : Int
  rfds : Finset Int
  wfds : Finset Int
  /-- What `FD_ISSET` yields on a negative entry of slot `i`. -/
  stray_rfds : Nat → Bool
  stray_wfds : Nat → Bool
  accept : Int
  /-- What the callbacks return for slot `i`. -/
  read_message : Nat → Int
  write_message : Nat → Int

/-- A call of an iteration, with what it is about; for the callbacks also what they return. -/
inductive Call where
  | select (nfds : Int) (rfds wfds : Finset Int)
  | accept (fd : Int)
  | read_message (fd ret : Int)
  | write_message (fd ret : Int)
  | close (fd : Int)
  deriving DecidableEq

/-! ### What is watched -/

/-- The two sets and `max_fd` while they are filled. -/
structure Sets where
  rfds : Finset Int
  wfds : Finset Int
  max_fd : Int

/-- A slot of the table is looked at. -/
def Sets.add (sets : Sets) (fd : Int) : Sets :=
  if fd ≤ 0 then sets
  else { rfds := insert fd sets.rfds, wfds := insert fd sets.wfds,
         max_fd := if sets.max_fd < fd then fd else sets.max_fd }

/-- What `select` is called with. -/
def State.sets (s : State) : Sets :=
  s.array_linkage_fd.foldl Sets.add { rfds := {s.listening_fd}, wfds := ∅, max_fd := s.max_fd }

/-! ### An iteration -/

/-- What `one_accept` returns when `accept` returns `linkage_fd`. -/
def oneAccept (linkage_fd : Int) : Int := if linkage_fd < 0 then -1 else linkage_fd

/-- The sets are filled. -/
def State.watch (s : State) : State := { s with max_fd := s.sets.max_fd }

/-- `accept` returned `linkage_fd`. A failure goes into the table too. -/
def State.link (s : State) (linkage_fd : Int) : State :=
  { s with array_linkage_fd := addFd (oneAccept linkage_fd) s.array_linkage_fd
           accepted := if linkage_fd < 0 then s.accepted else s.accepted ++ [linkage_fd] }

/-- `select` makes the loop end. -/
def Answers.Ends (l : Answers) : Prop := l.ret = 0 ∨ l.ret = -1

instance (l : Answers) : Decidable l.Ends := inferInstanceAs (Decidable (l.ret = 0 ∨ l.ret = -1))

/-- The state after the call of `select` and, when it reports one, the new connection. -/
def State.linked (s : State) (l : Answers) : State :=
  if s.listening_fd ∈ l.rfds then s.watch.link l.accept else s.watch

/-- An iteration of the loop. -/
def step (s : State) (l : Answers) : Option State :=
  if s.running then
    if l.Ends then some { s.watch with running := false } else some (s.linked l)
  else none

/-- `FD_ISSET(fd, &fds)`. -/
def fdIsset (fds : Finset Int) (stray : Bool) (fd : Int) : Bool :=
  if fd < 0 then stray else fd ∈ fds

/-- The calls of a loop over the table that calls `callback` for the descriptors in `fds`. -/
def scan (callback : Int → Int → Call) (fds : Finset Int) (stray : Nat → Bool) (ret : Nat → Int)
    (table : List Int) : List Call :=
  table.zipIdx.filterMap fun slot =>
    if fdIsset fds (stray slot.2) slot.1 then some (callback slot.1 (ret slot.2)) else none

/-- The calls of an iteration. -/
def calls (s : State) (l : Answers) : List Call :=
  .select (s.sets.max_fd + 1) s.sets.rfds s.sets.wfds ::
    if l.Ends then [.close s.listening_fd]
    else
      (if s.listening_fd ∈ l.rfds then [.accept s.listening_fd] else []) ++
        -- both loops run over the table with the new connection
        scan .read_message l.rfds l.stray_rfds l.read_message (s.linked l).array_linkage_fd ++
        scan .write_message l.wfds l.stray_wfds l.write_message (s.linked l).array_linkage_fd

/-- `select_accept` is called. -/
def State.start (listening_fd : Int) : State where
  listening_fd := listening_fd
  max_fd := listening_fd
  array_linkage_fd := List.replicate 1024 (-1)
  running := true
  accepted := []

/-- `select_accept`. -/
def server : System State Answers :=
  .ofFun (fun s => ∃ listening_fd, s = .start listening_fd) step

/-- Everything an iteration can do. -/
inductive Steps (s : State) (l : Answers) : State → Prop where
  | ends : l.Ends → Steps s l { s.watch with running := false }
  | links : ¬ l.Ends → s.listening_fd ∈ l.rfds → Steps s l (s.watch.link l.accept)
  | serves : ¬ l.Ends → s.listening_fd ∉ l.rfds → Steps s l s.watch

variable {s s' : State} {l : Answers} {fd : Int}

theorem steps_of_step (h : step s l = some s') : Steps s l s' := by
  unfold step at h
  split at h
  case isFalse => cases h
  case isTrue =>
    split at h
    case isTrue hends =>
      obtain rfl := Option.some.inj h
      exact .ends hends
    case isFalse hends =>
      obtain rfl := Option.some.inj h
      unfold State.linked
      split
      case isTrue hready => exact .links hends hready
      case isFalse hidle => exact .serves hends hidle

/-! ### What is watched, in terms of the table -/

/-- `sets` came from `base` by adding the descriptors `fds`. -/
structure Sets.Adds (base : Sets) (fds : List Int) (sets : Sets) : Prop where
  rfds : ∀ fd, fd ∈ sets.rfds ↔ fd ∈ base.rfds ∨ fd ∈ fds
  wfds : ∀ fd, fd ∈ sets.wfds ↔ fd ∈ base.wfds ∨ fd ∈ fds
  base_le : base.max_fd ≤ sets.max_fd
  le_max_fd : ∀ fd ∈ fds, fd ≤ sets.max_fd

theorem Sets.adds_add (sets : Sets) (slot : Int) :
    sets.Adds (descriptors [slot]) (sets.add slot) := by
  unfold Sets.add
  split
  case isTrue hfree =>
    have hnone : descriptors [slot] = [] := by
      have hslot : ¬ 0 < slot := by omega
      simp [descriptors, hslot]
    rw [hnone]
    exact ⟨by simp, by simp, le_refl _, by simp⟩
  case isFalse hused =>
    have hone : descriptors [slot] = [slot] := by
      have hslot : 0 < slot := by omega
      simp [descriptors, hslot]
    rw [hone]
    refine ⟨by simp [or_comm], by simp [or_comm], ?_, ?_⟩
    · show sets.max_fd ≤ if sets.max_fd < slot then slot else sets.max_fd
      split <;> omega
    · intro fd hfd
      obtain rfl := List.mem_singleton.mp hfd
      show fd ≤ if sets.max_fd < fd then fd else sets.max_fd
      split <;> omega

theorem Sets.Adds.trans {base sets sets' : Sets} {fds fds' : List Int} (h : base.Adds fds sets)
    (h' : sets.Adds fds' sets') : base.Adds (fds ++ fds') sets' where
  rfds := by
    intro fd
    rw [h'.rfds, h.rfds, List.mem_append, or_assoc]
  wfds := by
    intro fd
    rw [h'.wfds, h.wfds, List.mem_append, or_assoc]
  base_le := le_trans h.base_le h'.base_le
  le_max_fd := by
    intro fd hfd
    rcases List.mem_append.mp hfd with hfd | hfd
    · exact le_trans (h.le_max_fd fd hfd) h'.base_le
    · exact h'.le_max_fd fd hfd

/-- The loop over the table adds the descriptors in it. -/
theorem Sets.adds_foldl (table : List Int) (sets : Sets) :
    sets.Adds (descriptors table) (table.foldl Sets.add sets) := by
  induction table generalizing sets with
  | nil => exact ⟨by simp [descriptors], by simp [descriptors], le_refl _, by simp⟩
  | cons slot rest ih =>
    have hcons : descriptors (slot :: rest) = descriptors [slot] ++ descriptors rest :=
      List.filter_append [slot] rest
    rw [hcons]
    exact (sets.adds_add slot).trans (ih (sets.add slot))

@[simp] theorem State.mem_rfds :
    fd ∈ s.sets.rfds ↔ fd = s.listening_fd ∨ fd ∈ descriptors s.array_linkage_fd := by
  rw [State.sets, (Sets.adds_foldl _ _).rfds, Finset.mem_singleton]

@[simp] theorem State.mem_wfds :
    fd ∈ s.sets.wfds ↔ fd ∈ descriptors s.array_linkage_fd := by
  rw [State.sets, (Sets.adds_foldl _ _).wfds]
  simp

/-- A descriptor in the table is watched. -/
theorem State.mem_sets (h : fd ∈ s.array_linkage_fd) (hpos : 0 < fd) :
    fd ∈ s.sets.rfds ∧ fd ∈ s.sets.wfds := by
  have hheld := mem_descriptors.mpr ⟨h, hpos⟩
  exact ⟨State.mem_rfds.mpr (Or.inr hheld), State.mem_wfds.mpr hheld⟩

theorem State.max_fd_le : s.max_fd ≤ s.sets.max_fd :=
  (Sets.adds_foldl s.array_linkage_fd _).base_le

theorem State.le_max_fd (h : fd ∈ descriptors s.array_linkage_fd) : fd ≤ s.sets.max_fd :=
  (Sets.adds_foldl s.array_linkage_fd _).le_max_fd fd h

/-! ### Who is served -/

/-- A callback is called for the descriptors in the table that are in the set. -/
theorem mem_scan {callback : Int → Int → Call} {fds : Finset Int} {stray : Nat → Bool}
    {ret : Nat → Int} {table : List Int} {c : Call} :
    c ∈ scan callback fds stray ret table ↔
      ∃ i e, table[i]? = some e ∧ fdIsset fds (stray i) e ∧ callback e (ret i) = c := by
  unfold scan
  simp only [List.mem_filterMap, Prod.exists, List.mem_zipIdx_iff_getElem?,
    Option.ite_none_right_eq_some, Option.some.injEq]
  exact exists_comm

/-- A callback of the iteration was called for the descriptor and returned `ret`. -/
def Served (s : State) (l : Answers) (fd ret : Int) : Prop :=
  .read_message fd ret ∈ calls s l ∨ .write_message fd ret ∈ calls s l

instance (s : State) (l : Answers) (fd ret : Int) : Decidable (Served s l fd ret) :=
  inferInstanceAs (Decidable (_ ∨ _))

theorem served_iff {ret : Int} : Served s l fd ret ↔ ¬ l.Ends ∧
    ∃ i, (s.linked l).array_linkage_fd[i]? = some fd ∧
      (fdIsset l.rfds (l.stray_rfds i) fd ∧ l.read_message i = ret ∨
        fdIsset l.wfds (l.stray_wfds i) fd ∧ l.write_message i = ret) := by
  unfold Served calls
  by_cases hends : l.Ends
  · simp [hends]
  have hread : Call.read_message fd ret ∉
      if s.listening_fd ∈ l.rfds then [Call.accept s.listening_fd] else [] := by
    split <;> simp
  have hwrite : Call.write_message fd ret ∉
      if s.listening_fd ∈ l.rfds then [Call.accept s.listening_fd] else [] := by
    split <;> simp
  simp only [if_neg hends, List.mem_cons, List.mem_append, mem_scan, reduceCtorEq, hread, hwrite,
    Call.read_message.injEq, Call.write_message.injEq, and_false, exists_false, false_or, or_false]
  constructor
  · intro h
    rcases h with ⟨i, e, he, hset, rfl, hret⟩ | ⟨i, e, he, hset, rfl, hret⟩
    · exact ⟨hends, i, he, Or.inl ⟨hset, hret⟩⟩
    · exact ⟨hends, i, he, Or.inr ⟨hset, hret⟩⟩
  · intro h
    obtain ⟨-, i, he, ⟨hset, hret⟩ | ⟨hset, hret⟩⟩ := h
    · exact Or.inl ⟨i, fd, he, hset, rfl, hret⟩
    · exact Or.inr ⟨i, fd, he, hset, rfl, hret⟩

/-- Who is served is in the table at the next loop head. -/
theorem Served.mem {ret : Int} (h : Served s l fd ret) (hstep : step s l = some s') :
    fd ∈ s'.array_linkage_fd := by
  obtain ⟨hends, i, hi, -⟩ := served_iff.mp h
  have hs' : s' = s.linked l := by
    unfold step at hstep
    rw [if_neg hends] at hstep
    split at hstep
    · exact (Option.some.inj hstep).symm
    · cases hstep
  rw [hs']
  exact List.mem_of_getElem? hi

/-- A descriptor stays in the table. -/
theorem stays (hstep : step s l = some s') (hpos : 0 < fd) (h : fd ∈ s.array_linkage_fd) :
    fd ∈ s'.array_linkage_fd := by
  cases steps_of_step hstep with
  | ends _ => exact h
  | links _ _ => exact mem_addFd_of_pos hpos h
  | serves _ _ => exact h

/-- A descriptor that is not in the table is not selected on or served, and it does not come into
    the table, unless it is accepted. -/
theorem not_served (hstep : step s l = some s') (hout : fd ∉ s.array_linkage_fd) (hpos : 0 < fd)
    (hnew : l.accept ≠ fd) :
    fd ∉ s.sets.wfds ∧ fd ∉ s'.array_linkage_fd ∧ ∀ ret, ¬ Served s l fd ret := by
  have hout' : fd ∉ s'.array_linkage_fd := by
    cases steps_of_step hstep with
    | ends _ => exact hout
    | links _ _ =>
      intro hmem
      rcases mem_addFd hmem with heq | hmem
      · unfold oneAccept at heq
        split at heq <;> omega
      · exact hout hmem
    | serves _ _ => exact hout
  refine ⟨?_, hout', fun ret hserved => hout' (hserved.mem hstep)⟩
  intro hmem
  exact hout (mem_descriptors.mp (State.mem_wfds.mp hmem)).1

end Select
