import TestServer.Accept.ProcessAccept

/-! # Balanced descriptors

    * `Balanced`: a process closes nothing that is not open, and closes every
      connection it holds exactly once before it exits, returns or accepts again.
    * `Ledger`: what a process holds, it has closed or has open.
    * `Shape`: what is open at each point of a process.
    * `InOrder`: the server's `fork` does not fail, and the child's fails.
    * `balanced_iff`: these runs are balanced, and no others once every process
      has come to rest: where the server's `fork` fails it returns without a
      `close`, and a grandchild closes its descriptor twice.
-/

open LTS

namespace ProcessAccept

/-! ### What is asked -/

/-- The process exited, returned or is about to accept. -/
def Pc.atRest : Pc → Bool
  | accepting | returned | exited => true
  | _ => false

/-- How often the process closed a connection. -/
def Process.closed (p : Process) (c : Nat) : Nat :=
  (p.closes.map Prod.snd).count (some (.connection c))

/-- No `close` was called on a descriptor that was not open, and every connection the process holds
    was closed exactly once when it comes to rest. -/
structure Process.Balanced (p : Process) : Prop where
  clean : ∀ e ∈ p.closes, e.2 ≠ none
  released : p.pc.atRest → ∀ c ∈ p.held, p.closed c = 1

/-- All processes are balanced. -/
def Balanced (s : State) : Prop := ∀ p ∈ s.procs, p.Balanced

/-- All processes have come to rest. -/
def Settled (s : State) : Prop := ∀ p ∈ s.procs, p.pc.atRest

/-- A `fork` of a child fails, and a `fork` of the server does not. -/
def Pc.inOrder : Pc → Action → Bool
  | .childForking _, .fork => false
  | .forking _, .forkFails => false
  | _, _ => true

/-- The process that takes the step does so in order. -/
def InOrder (s : State) (l : Label) : Prop := (s.procs[l.i]?).all (·.pc.inOrder l.action)

instance (s : State) (l : Label) : Decidable (InOrder s l) := inferInstanceAs (Decidable (_ = true))

variable {p p' : Process} {s s' : State} {l : Label} {a : Action} {forks : List Process}
  {listening_fd fd : Int} {c n child : Nat}

/-! ### Open and closed -/

/-- How many descriptors of the process are open on a connection. -/
def Process.opened (p : Process) (c : Nat) : Nat :=
  (p.table.map Prod.snd).count (.connection c)

/-- `close` takes one entry out of the table. -/
theorem count_close (table : List (Int × Desc)) (fd : Int) (d : Desc) :
    [table.lookup fd].count (some d) + ((table.eraseP (·.1 = fd)).map Prod.snd).count d
      = (table.map Prod.snd).count d := by
  induction table with
  | nil => rfl
  | cons e rest ih =>
    obtain ⟨fd', d'⟩ := e
    by_cases hfd : fd' = fd
    · subst hfd
      simp only [List.lookup_cons_self, decide_true, List.eraseP_cons_of_pos, List.map_cons,
        List.count_cons, List.count_nil]
      simp [Nat.add_comm]
    · have hbeq : (fd == fd') = false := by simpa using Ne.symm hfd
      have hlookup : ((fd', d') :: rest).lookup fd = rest.lookup fd := by
        rw [List.lookup_cons, hbeq]
      have herase : ((fd', d') :: rest).eraseP (·.1 = fd)
          = (fd', d') :: rest.eraseP (·.1 = fd) := by simp [hfd]
      rw [hlookup, herase, List.map_cons, List.map_cons, List.count_cons (l := rest.map Prod.snd),
        ← ih, List.count_cons (l := (rest.eraseP _).map Prod.snd), Nat.add_assoc]

/-- What a `close` takes out of the table it records. -/
theorem Process.closed_add_opened_close (p : Process) (fd : Int) (c : Nat) :
    (p.close fd).closed c + (p.close fd).opened c = p.closed c + p.opened c := by
  have hcount := count_close p.table fd (.connection c)
  unfold closed opened close
  rw [List.map_append, List.count_append]
  simp only [List.map_cons, List.map_nil]
  omega

/-- What a process holds it has closed or has open, once. `n` connections were accepted. -/
structure Process.Ledger (n : Nat) (p : Process) : Prop where
  once : p.held.Nodup
  known : ∀ c ∈ p.held, c < n
  adds : ∀ c, p.held.count c = p.closed c + p.opened c

theorem Process.Ledger.mono (h : p.Ledger n) {m : Nat} (hm : n ≤ m) : p.Ledger m where
  once := h.once
  known := fun c hc => Nat.lt_of_lt_of_le (h.known c hc) hm
  adds := h.adds

theorem Process.Ledger.goTo (h : p.Ledger n) (pc : Pc) : (p.goTo pc).Ledger n :=
  ⟨h.once, h.known, h.adds⟩

theorem Process.Ledger.close (h : p.Ledger n) (fd : Int) : (p.close fd).Ledger n where
  once := h.once
  known := h.known
  adds := fun c => (h.adds c).trans (p.closed_add_opened_close fd c).symm

theorem Process.Ledger.acceptOk (h : p.Ledger n) (fd : Int) : (p.acceptOk fd n).Ledger (n + 1) where
  once := by
    have hnew : n ∉ p.held := fun hmem => absurd (h.known n hmem) (Nat.lt_irrefl n)
    exact List.nodup_cons.mpr ⟨hnew, h.once⟩
  known := by
    intro c hc
    rcases List.mem_cons.mp hc with rfl | hc
    · omega
    · have := h.known c hc
      omega
  adds := by
    intro c
    have hadds := h.adds c
    show (n :: p.held).count c = p.closed c + (Desc.connection n :: p.table.map Prod.snd).count _
    rw [List.count_cons, List.count_cons, hadds, opened]
    simp [Nat.add_assoc]

/-- The connections in a table. -/
theorem count_connections (descs : List Desc) (c : Nat) :
    (descs.filterMap Desc.connection?).count c = descs.count (.connection c) := by
  induction descs with
  | nil => rfl
  | cons d rest ih =>
    cases d with
    | listening =>
      rw [List.filterMap_cons_none rfl, ih]
      simp
    | connection c' => simp [Desc.connection?, List.count_cons, ih]

/-- A copy of the table is not more than the process held. -/
theorem Process.Ledger.forked (h : p.Ledger n) (pc : Pc) : (p.forked pc).Ledger n := by
  have hheld : ∀ c, (p.forked pc).held.count c = p.opened c :=
    count_connections (p.table.map Prod.snd)
  have hle : ∀ c, (p.forked pc).held.count c ≤ p.held.count c := by
    intro c
    rw [hheld, h.adds]
    omega
  refine ⟨?_, ?_, ?_⟩
  · rw [List.nodup_iff_count_le_one]
    intro c
    exact (hle c).trans (List.nodup_iff_count_le_one.mp h.once c)
  · intro c hc
    have hpos : 0 < (p.forked pc).held.count c := List.count_pos_iff.mpr hc
    exact h.known c (List.count_pos_iff.mp (Nat.lt_of_lt_of_le hpos (hle c)))
  · intro c
    rw [hheld]
    show p.opened c = [].count _ + p.opened c
    rw [List.count_nil, Nat.zero_add]

/-- A step keeps the ledger, and opens one for the process it forks. -/
theorem Process.Ledger.step (h : p.Ledger n) (hstep : p.Steps listening_fd n child a p' forks) :
    p'.Ledger (n + a.accepts.length) ∧ ∀ q ∈ forks, q.Ledger (n + a.accepts.length) := by
  cases hstep with
  | accept _ _ => exact ⟨h.acceptOk _, List.forall_mem_nil _⟩
  | acceptFails _ => exact ⟨h.goTo _, List.forall_mem_nil _⟩
  | fork _ => exact ⟨h.goTo _, List.forall_mem_singleton.mpr (h.forked _)⟩
  | forkFails _ => exact ⟨h.goTo _, List.forall_mem_nil _⟩
  | waited _ => exact ⟨h.goTo _, List.forall_mem_nil _⟩
  | closed _ => exact ⟨(h.close _).goTo _, List.forall_mem_nil _⟩
  | childClosed _ => exact ⟨(h.close _).goTo _, List.forall_mem_nil _⟩
  | childForks _ => exact ⟨h.goTo _, List.forall_mem_singleton.mpr (h.forked _)⟩
  | childForkFails _ => exact ⟨h.goTo _, List.forall_mem_nil _⟩
  | childExits _ => exact ⟨(h.close _).goTo _, List.forall_mem_nil _⟩
  | writes _ => exact ⟨h.goTo _, List.forall_mem_nil _⟩
  | reads _ => exact ⟨h.goTo _, List.forall_mem_nil _⟩
  | funcCloses _ => exact ⟨(h.close _).goTo _, List.forall_mem_nil _⟩
  | exits _ => exact ⟨(h.close _).goTo _, List.forall_mem_nil _⟩

/-! ### What is open where -/

/-- What is open when a process is at `pc`. The server that returned may have left a connection
    open. -/
def Process.ShapeAt (listening_fd : Int) (p : Process) : Pc → Prop
  | .accepting => p.table = [(listening_fd, .listening)]
  | .forking fd | .waiting fd _ | .closing fd | .childClosing fd =>
    fd ≠ listening_fd ∧ ∃ c, p.table = [(fd, .connection c), (listening_fd, .listening)]
  | .childForking fd | .childLeaving fd | .writing fd | .reading fd | .funcClosing fd =>
    ∃ c, p.table = [(fd, .connection c)]
  | .leaving _ | .exited => p.table = []
  | .returned => True

/-- What is open is what the process needs for the rest of its way. -/
def Process.Shape (listening_fd : Int) (p : Process) : Prop := p.ShapeAt listening_fd p.pc

theorem close_connection {fd : Int} {d : Desc} {rest : List (Int × Desc)}
    (h : p.table = (fd, d) :: rest) : (p.close fd).table = rest := by
  show p.table.eraseP (·.1 = fd) = rest
  rw [h, List.eraseP_cons_of_pos (by simp)]

theorem close_listening {fd : Int} {d : Desc} (hne : fd ≠ listening_fd)
    (h : p.table = [(fd, d), (listening_fd, .listening)]) :
    (p.close listening_fd).table = [(fd, d)] := by
  show p.table.eraseP (·.1 = listening_fd) = [(fd, d)]
  rw [h, List.eraseP_cons_of_neg (by simpa using hne), List.eraseP_cons_of_pos (by simp)]

theorem Process.Shape.step (h : p.Shape listening_fd)
    (hstep : p.Steps listening_fd c child a p' forks) :
    p'.Shape listening_fd ∧ ∀ q ∈ forks, q.Shape listening_fd := by
  unfold Process.Shape at h
  cases hstep with
  | @accept fd hpc hnew =>
    rw [hpc] at h
    have htable : p.table = [(listening_fd, .listening)] := h
    refine ⟨⟨?_, c, by simp [acceptOk, htable]⟩, List.forall_mem_nil _⟩
    rintro rfl
    simp [htable] at hnew
  | acceptFails _ => exact ⟨trivial, List.forall_mem_nil _⟩
  | fork hpc =>
    rw [hpc] at h
    exact ⟨h, List.forall_mem_singleton.mpr h⟩
  | forkFails _ => exact ⟨trivial, List.forall_mem_nil _⟩
  | waited hpc =>
    rw [hpc] at h
    exact ⟨h, List.forall_mem_nil _⟩
  | closed hpc =>
    rw [hpc] at h
    obtain ⟨-, c, htable⟩ := h
    exact ⟨close_connection htable, List.forall_mem_nil _⟩
  | childClosed hpc =>
    rw [hpc] at h
    obtain ⟨hne, c, htable⟩ := h
    exact ⟨⟨c, close_listening hne htable⟩, List.forall_mem_nil _⟩
  | childForks hpc =>
    rw [hpc] at h
    exact ⟨h, List.forall_mem_singleton.mpr h⟩
  | childForkFails hpc =>
    rw [hpc] at h
    exact ⟨h, List.forall_mem_nil _⟩
  | childExits hpc =>
    rw [hpc] at h
    obtain ⟨c, htable⟩ := h
    exact ⟨close_connection htable, List.forall_mem_nil _⟩
  | writes hpc =>
    rw [hpc] at h
    exact ⟨h, List.forall_mem_nil _⟩
  | reads hpc =>
    rw [hpc] at h
    exact ⟨h, List.forall_mem_nil _⟩
  | funcCloses hpc =>
    rw [hpc] at h
    obtain ⟨c, htable⟩ := h
    exact ⟨close_connection htable, List.forall_mem_nil _⟩
  | exits hpc =>
    rw [hpc] at h
    have htable : p.table = [] := h
    exact ⟨by simp [Process.Shape, Process.ShapeAt, goTo, close, htable], List.forall_mem_nil _⟩

/-! ### Runs in order -/

/-- What a process on its way to an imbalance shows when it is at `pc`: a grandchild has a `close`
    too many before or behind it, and a server that returned left a connection open. -/
def Process.DoomedAt (p : Process) : Pc → Prop
  | .writing _ | .reading _ | .funcClosing _ | .leaving _ => True
  | .exited => ∃ e ∈ p.closes, e.2 = none
  | .returned => ∃ c, 0 < p.opened c
  | _ => False

def Process.Doomed (p : Process) : Prop := p.DoomedAt p.pc

/-- The process closed nothing that was not open, and is not doomed. -/
structure Process.Tidy (p : Process) : Prop where
  clean : ∀ e ∈ p.closes, e.2 ≠ none
  sound : ¬ p.Doomed

/-- A `close` of an open descriptor. -/
theorem clean_close (h : ∀ e ∈ p.closes, e.2 ≠ none) {d : Desc}
    (hopen : p.table.lookup fd = some d) : ∀ e ∈ (p.close fd).closes, e.2 ≠ none := by
  intro e he
  rcases List.mem_append.mp he with he | he
  · exact h e he
  · obtain rfl := List.mem_singleton.mp he
    rw [hopen]
    nofun

/-- A step in order keeps a process tidy, and so is the process it forks. -/
theorem Process.Tidy.step (h : p.Tidy) (hshape : p.Shape listening_fd)
    (horder : p.pc.inOrder a = true) (hstep : p.Steps listening_fd c child a p' forks) :
    p'.Tidy ∧ ∀ q ∈ forks, q.Tidy := by
  obtain ⟨hclean, hsound⟩ := h
  unfold Process.Shape at hshape
  unfold Process.Doomed at hsound
  cases hstep with
  | accept _ _ => exact ⟨⟨hclean, id⟩, List.forall_mem_nil _⟩
  | acceptFails hpc =>
    rw [hpc] at hshape
    have htable : p.table = [(listening_fd, .listening)] := hshape
    refine ⟨⟨hclean, ?_⟩, List.forall_mem_nil _⟩
    intro hdoomed
    obtain ⟨c, hc⟩ := hdoomed
    simp [opened, goTo, htable] at hc
  | fork hpc =>
    exact ⟨⟨hclean, id⟩, List.forall_mem_singleton.mpr ⟨List.forall_mem_nil _, id⟩⟩
  | forkFails hpc =>
    rw [hpc] at horder
    exact absurd horder Bool.false_ne_true
  | waited _ => exact ⟨⟨hclean, id⟩, List.forall_mem_nil _⟩
  | closed hpc =>
    rw [hpc] at hshape
    obtain ⟨-, c, htable⟩ := hshape
    exact ⟨⟨clean_close hclean (by rw [htable, List.lookup_cons_self]), id⟩, List.forall_mem_nil _⟩
  | @childClosed fd hpc =>
    rw [hpc] at hshape
    obtain ⟨hne, c, htable⟩ := hshape
    have hopen : p.table.lookup listening_fd = some .listening := by
      have hbeq : (listening_fd == fd) = false := by simpa using Ne.symm hne
      rw [htable, List.lookup_cons, hbeq]
      exact List.lookup_cons_self
    exact ⟨⟨clean_close hclean hopen, id⟩, List.forall_mem_nil _⟩
  | childForks hpc =>
    rw [hpc] at horder
    exact absurd horder Bool.false_ne_true
  | childForkFails _ => exact ⟨⟨hclean, id⟩, List.forall_mem_nil _⟩
  | childExits hpc =>
    rw [hpc] at hshape
    obtain ⟨c, htable⟩ := hshape
    have hclean' := clean_close hclean (by rw [htable, List.lookup_cons_self])
    refine ⟨⟨hclean', ?_⟩, List.forall_mem_nil _⟩
    intro hdoomed
    obtain ⟨e, he, hnone⟩ := hdoomed
    exact hclean' e he hnone
  -- a grandchild is doomed
  | writes hpc =>
    rw [hpc] at hsound
    exact absurd trivial hsound
  | reads hpc =>
    rw [hpc] at hsound
    exact absurd trivial hsound
  | funcCloses hpc =>
    rw [hpc] at hsound
    exact absurd trivial hsound
  | exits hpc =>
    rw [hpc] at hsound
    exact absurd trivial hsound

/-- A doomed process stays doomed. -/
theorem Process.Doomed.step (h : p.Doomed) (hshape : p.Shape listening_fd)
    (hstep : p.Steps listening_fd c child a p' forks) : p'.Doomed := by
  unfold Process.Shape at hshape
  unfold Process.Doomed at h
  cases hstep with
  | writes _ => exact trivial
  | reads _ => exact trivial
  | funcCloses _ => exact trivial
  | @exits fd hpc =>
    -- the second `close` finds nothing open
    rw [hpc] at hshape
    have htable : p.table = [] := hshape
    refine ⟨(fd, none), ?_, rfl⟩
    show (fd, none) ∈ p.closes ++ [(fd, p.table.lookup fd)]
    rw [htable]
    exact List.mem_append_right _ (List.mem_singleton.mpr rfl)
  | accept hpc _ => exact (hpc ▸ h).elim
  | acceptFails hpc => exact (hpc ▸ h).elim
  | fork hpc => exact (hpc ▸ h).elim
  | forkFails hpc => exact (hpc ▸ h).elim
  | waited hpc => exact (hpc ▸ h).elim
  | closed hpc => exact (hpc ▸ h).elim
  | childClosed hpc => exact (hpc ▸ h).elim
  | childForks hpc => exact (hpc ▸ h).elim
  | childForkFails hpc => exact (hpc ▸ h).elim
  | childExits hpc => exact (hpc ▸ h).elim

/-- A step that is not in order dooms the process or the one it forks. -/
theorem doomed_of_not_inOrder (hno : ¬ p.pc.inOrder a = true) (hshape : p.Shape listening_fd)
    (hstep : p.Steps listening_fd c child a p' forks) : p'.Doomed ∨ ∃ q ∈ forks, q.Doomed := by
  unfold Process.Shape at hshape
  cases hstep with
  | forkFails hpc =>
    rw [hpc] at hshape
    obtain ⟨-, c, htable⟩ := hshape
    refine Or.inl ⟨c, ?_⟩
    simp [Process.opened, Process.goTo, htable]
  | childForks _ => exact Or.inr ⟨_, List.mem_singleton.mpr rfl, trivial⟩
  | fork hpc => exact absurd (hpc ▸ rfl) hno
  | childForkFails hpc => exact absurd (hpc ▸ rfl) hno
  | accept hpc _ => exact absurd (hpc ▸ rfl) hno
  | acceptFails hpc => exact absurd (hpc ▸ rfl) hno
  | waited hpc => exact absurd (hpc ▸ rfl) hno
  | closed hpc => exact absurd (hpc ▸ rfl) hno
  | childClosed hpc => exact absurd (hpc ▸ rfl) hno
  | childExits hpc => exact absurd (hpc ▸ rfl) hno
  | writes hpc => exact absurd (hpc ▸ rfl) hno
  | reads hpc => exact absurd (hpc ▸ rfl) hno
  | funcCloses hpc => exact absurd (hpc ▸ rfl) hno
  | exits hpc => exact absurd (hpc ▸ rfl) hno

/-! ### What that means for the balance -/

/-- At rest, what is not open was closed. -/
theorem Process.Ledger.closed_eq_one (h : p.Ledger n) {c : Nat} (hc : c ∈ p.held)
    (hopened : p.opened c = 0) : p.closed c = 1 := by
  have hadds := h.adds c
  rw [List.count_eq_one_of_mem h.once hc, hopened] at hadds
  omega

theorem Process.Tidy.balanced (h : p.Tidy) (hledger : p.Ledger n)
    (hshape : p.Shape listening_fd) : p.Balanced := by
  refine ⟨h.clean, ?_⟩
  intro hrest c hc
  apply hledger.closed_eq_one hc
  obtain ⟨-, hsound⟩ := h
  unfold Process.Shape at hshape
  unfold Process.Doomed at hsound
  cases hpc : p.pc <;> rw [hpc] at hrest hshape hsound
  case accepting =>
    have htable : p.table = [(listening_fd, .listening)] := hshape
    simp [opened, htable]
  case returned =>
    by_contra hopen
    exact hsound ⟨c, Nat.pos_of_ne_zero hopen⟩
  case exited =>
    have htable : p.table = [] := hshape
    simp [opened, htable]
  all_goals exact absurd hrest Bool.false_ne_true

theorem Process.Doomed.not_balanced (h : p.Doomed) (hledger : p.Ledger n) (hrest : p.pc.atRest) :
    ¬ p.Balanced := by
  intro hbal
  unfold Process.Doomed at h
  have hreleased := hbal.released hrest
  cases hpc : p.pc <;> rw [hpc] at hrest h
  case accepting => exact h
  case returned =>
    obtain ⟨c, hc⟩ := h
    have hadds := hledger.adds c
    have hheld : c ∈ p.held := List.count_pos_iff.mp (by omega)
    rw [List.count_eq_one_of_mem hledger.once hheld, hreleased c hheld] at hadds
    omega
  case exited =>
    obtain ⟨e, he, hnone⟩ := h
    exact hbal.clean e he hnone
  all_goals exact Bool.false_ne_true hrest

/-! ### Whole runs -/

/-- The ledgers of all processes, and what they have open. -/
def Inv (s : State) : Prop :=
  ∀ p ∈ s.procs, p.Ledger s.accepted.length ∧ p.Shape s.listening_fd

theorem inv_start (listening_fd : Int) : Inv (.start listening_fd) := by
  intro p hp
  obtain rfl := List.mem_singleton.mp hp
  refine ⟨⟨List.nodup_nil, List.forall_mem_nil _, ?_⟩, rfl⟩
  intro c
  show [].count c = [].count _ + [Desc.listening].count (.connection c)
  simp

theorem Inv.step (h : Inv s) (hstep : step s l = some s') : Inv s' := by
  obtain ⟨p, p', forks, hi, hsteps, rfl⟩ := steps_of_step hstep
  obtain ⟨hledger, hshape⟩ := h p (List.mem_of_getElem? hi)
  obtain ⟨hledger', hledgers⟩ := hledger.step hsteps
  obtain ⟨hshape', hshapes⟩ := hshape.step hsteps
  unfold Inv
  rw [List.length_append]
  refine forall_procs ?_ ⟨hledger', hshape'⟩ fun q hq => ⟨hledgers q hq, hshapes q hq⟩
  intro q hq
  obtain ⟨hledger, hshape⟩ := h q hq
  exact ⟨hledger.mono (Nat.le_add_right _ _), hshape⟩

/-- In a run in order, every process is tidy. -/
theorem tidy_of_inOrder {tr : List (State × Label)} (h : server.Run tr s)
    (horder : Along InOrder tr) : Inv s ∧ ∀ p ∈ s.procs, p.Tidy := by
  refine h.invariant (I := fun s => Inv s ∧ ∀ p ∈ s.procs, p.Tidy) ?_ ?_ horder
  · intro s hs
    obtain ⟨listening_fd, rfl⟩ := hs
    exact ⟨inv_start listening_fd, List.forall_mem_singleton.mpr ⟨List.forall_mem_nil _, id⟩⟩
  · intro s l s' hs horder hstep
    obtain ⟨hinv, htidy⟩ := hs
    refine ⟨hinv.step hstep, ?_⟩
    obtain ⟨p, p', forks, hi, hsteps, rfl⟩ := steps_of_step hstep
    have hp := List.mem_of_getElem? hi
    have hok : p.pc.inOrder l.action = true := by simpa [InOrder, hi] using horder
    obtain ⟨htidy', htidies⟩ := (htidy p hp).step (hinv p hp).2 hok hsteps
    exact forall_procs htidy htidy' htidies

theorem inv_of_reachable (h : server.Reachable s) : Inv s := by
  refine h.invariant (I := Inv) ?_ fun s l s' hs hstep => hs.step hstep
  intro s hs
  obtain ⟨listening_fd, rfl⟩ := hs
  exact inv_start listening_fd

/-- After a run that is not in order, some process is doomed. -/
theorem doomed_of_run {tr : List (State × Label)} (h : server.Run tr s)
    (hno : ¬ Along InOrder tr) : Inv s ∧ ∃ p ∈ s.procs, p.Doomed := by
  refine h.broken (Q := fun s => Inv s ∧ ∃ p ∈ s.procs, p.Doomed) ?_ ?_ hno
  · intro tr s l s' hrun _ hstep hno
    have hinv := inv_of_reachable ⟨tr, hrun⟩
    refine ⟨hinv.step hstep, ?_⟩
    obtain ⟨p, p', forks, hi, hsteps, rfl⟩ := steps_of_step hstep
    have hbad : ¬ p.pc.inOrder l.action = true := by simpa [InOrder, hi] using hno
    have hlt := (List.getElem?_eq_some_iff.mp hi).1
    rcases doomed_of_not_inOrder hbad (hinv p (List.mem_of_getElem? hi)).2 hsteps with
      hdoomed | ⟨q, hq, hdoomed⟩
    · exact ⟨p', List.mem_append_left _ (List.mem_set hlt _), hdoomed⟩
    · exact ⟨q, List.mem_append_right _ hq, hdoomed⟩
  · intro s l s' hstep hs
    obtain ⟨hinv, hdoomed⟩ := hs
    refine ⟨hinv.step hstep, ?_⟩
    obtain ⟨p, p', forks, hi, hsteps, rfl⟩ := steps_of_step hstep
    have hshape := (hinv p (List.mem_of_getElem? hi)).2
    exact exists_procs hi hdoomed fun h => h.step hshape hsteps

/-- In every run in which each `fork` of the server succeeds and each `fork` of a child fails, the
    descriptors are balanced in all processes. When all processes have come to rest, they are in
    no other run. -/
theorem balanced_iff {tr : List (State × Label)} (h : server.Run tr s) :
    (Along InOrder tr → Balanced s) ∧ (Settled s → (Balanced s ↔ Along InOrder tr)) := by
  have hgood : Along InOrder tr → Balanced s := by
    intro horder p hp
    obtain ⟨hinv, htidy⟩ := tidy_of_inOrder h horder
    exact (htidy p hp).balanced (hinv p hp).1 (hinv p hp).2
  refine ⟨hgood, fun hsettled => ⟨?_, hgood⟩⟩
  intro hbal
  by_contra hno
  obtain ⟨hinv, p, hp, hdoomed⟩ := doomed_of_run h hno
  exact hdoomed.not_balanced (hinv p hp).1 (hsettled p hp) (hbal p hp)

/-- A connection whose second `fork` fails, and the server in `accept` again. -/
theorem balanced_iff_refused : ∃ s, server.Reachable s ∧ s.accepted = [5] ∧ Settled s ∧
    Balanced s := by
  let ls : List Label := [⟨0, .accept 5⟩, ⟨0, .fork⟩, ⟨1, .go⟩, ⟨1, .forkFails⟩, ⟨1, .go⟩, ⟨0, .go⟩,
    ⟨0, .go⟩]
  let s : State :=
    { listening_fd := 3
      procs :=
        [{ pc := .accepting, table := [(3, .listening)], held := [0]
           closes := [(5, some (.connection 0))] },
          { pc := .exited, table := [], held := [0]
            closes := [(3, some .listening), (5, some (.connection 0))] }]
      accepted := [5] }
  have hstart : server.Run [] (.start 3) := .start ⟨3, rfl⟩
  have hrun : server.Run (System.trace step (.start 3) ls) s := hstart.trace ls rfl
  have horder : ∀ p ∈ System.trace step (.start 3) ls, InOrder p.1 p.2 := by decide
  have hsettled : ∀ p ∈ s.procs, p.pc.atRest = true := by decide
  exact ⟨s, ⟨_, hrun⟩, rfl, hsettled, (balanced_iff hrun).1 horder⟩

/-- A grandchild closes its descriptor twice, and a server whose `fork` fails never does. -/
theorem closed_twice_or_never :
    (∃ s, server.Reachable s ∧ ∃ p ∈ s.procs,
      p = { pc := .exited, table := [], held := [0]
            closes := [(5, some (.connection 0)), (5, none)] } ∧ ¬ p.Balanced) ∧
    ∃ s, server.Reachable s ∧ ∃ p ∈ s.procs,
      p = { pc := .returned, table := [(5, .connection 0), (3, .listening)], held := [0]
            closes := [] } ∧ ¬ p.Balanced := by
  have hstart : server.Reachable (.start 3) := ⟨[], .start ⟨3, rfl⟩⟩
  constructor
  · refine ⟨_, System.replay_reachable hstart [⟨0, .accept 5⟩, ⟨0, .fork⟩, ⟨1, .go⟩, ⟨1, .fork⟩,
      ⟨2, .go⟩, ⟨2, .go⟩, ⟨2, .go⟩, ⟨2, .go⟩] rfl, _, List.mem_of_getElem? (i := 2) rfl, rfl, ?_⟩
    intro hbal
    exact hbal.clean (5, none) (by decide) rfl
  · refine ⟨_, System.replay_reachable hstart [⟨0, .accept 5⟩, ⟨0, .forkFails⟩] rfl, _,
      List.mem_of_getElem? (i := 0) rfl, rfl, ?_⟩
    intro hbal
    exact absurd (hbal.released rfl 0 (by decide)) (by decide)

end ProcessAccept
