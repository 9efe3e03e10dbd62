import TestServer.Accept.ThreadAccept
import TestServer.Lib.Progress

/-! # Every connection has a thread of its own

    * `OwnThread`: every connection has a thread, every thread has the
      descriptor of its own connection, and what was done with a connection is
      what its thread did. When the threads have come to their end, every
      connection was served and closed, once.
    * `InTime`: a thread reads `func_data` before the main loop fills it for
      the next connection, and before `thread_accept` returns; and
      `pthread_create` does not fail.
    * `own_thread_iff`: the connections have threads of their own in the runs
      in which every step is in time; and, as long as `thread_accept` has not
      returned, in no others.
-/

open LTS

namespace ThreadAccept

variable {F : Type} {write_message read_message : F} {s s' : State F}

/-! ### Threads and their connections -/

/-- What a thread has done so far. -/
def Thread.ops : Thread F → List (Op F)
  | created => []
  | loaded _ => []
  | wrote d => [.call d.write_func]
  | served d => [.call d.write_func, .call d.read_func]
  | closed d => [.call d.write_func, .call d.read_func, .close]

/-- The data is that of connection `i`. -/
structure Describes (write_message read_message : F) (s : State F) (d : FuncData F) (i : Nat) :
    Prop where
  fd : s.accepted[i]? = some d.fd
  write_func : d.write_func = write_message
  read_func : d.read_func = read_message

/-- The main loop has accepted a connection and not created its thread yet. -/
def Pc.inHand : Pc → Bool
  | storing _ => true
  | creating => true
  | _ => false

/-- The step is one of a thread. -/
def Label.ofThread : Label F → Bool
  | .load .. | .write _ | .read _ | .close _ => true
  | _ => false

/-- What is done with the connection `i` by its thread: it is served and closed. -/
def servedAndClosed (write_message read_message : F) (i : Nat) : List (Use F) :=
  [{ thread := i, op := .call write_message, conn := some i },
    { thread := i, op := .call read_message, conn := some i },
    { thread := i, op := .close, conn := some i }]

/-- Every connection has its own thread. -/
structure OwnThread (write_message read_message : F) (s : State F) : Prop where
  /-- A thread read the data of its own connection. -/
  own : ∀ i t d, s.threads[i]? = some t → t.data? = some d →
    Describes write_message read_message s d i
  /-- It used that connection only. -/
  uses : ∀ u ∈ s.log, u.conn = some u.thread
  /-- A connection was used by its own thread only, as far as that thread got. -/
  served : ∀ i, (s.log.filter (·.conn = some i)).map Use.op = (s.threads[i]?).elim [] Thread.ops
  /-- Every connection has a thread, but for one the main loop is about to create it for. -/
  created : ∀ i < s.accepted.length,
    i < s.threads.length ∨ (s.pc.inHand = true ∧ i + 1 = s.accepted.length)
  /-- When no thread has a step left, every connection was served and closed by its thread, and
      nothing else was done with it. -/
  finished : (server write_message read_message).AtRest (fun l => l.ofThread = true) s →
    s.pc.inHand = false → ∀ i < s.accepted.length,
      s.log.filter (·.conn = some i) = servedAndClosed write_message read_message i

/-- A thread that reads `func_data` is the last one created, and the main loop has neither filled
    `func_data` again nor returned. `pthread_create` succeeds. -/
def InTime (s : State F) : Label F → Prop
  | .load i _ => i + 1 = s.threads.length ∧ (s.pc = .accepting ∨ ∃ fd, s.pc = .storing fd)
  | .createFails => False
  | _ => True

/-! ### The invariant -/

/-- The thread of connection `i` has closed its descriptor. -/
def State.Done (s : State F) (i : Nat) : Prop := ∃ d, s.threads[i]? = some (.closed d)

/-- A connection stays open under its descriptor until its thread is done, and the descriptor is
    not given to another one before that. -/
structure Descriptors (s : State F) : Prop where
  opened : ∀ i fd, s.accepted[i]? = some fd → ¬ s.Done i → s.table fd = some i
  distinct : ∀ i j fd, i < j → s.accepted[i]? = some fd → s.accepted[j]? = some fd → s.Done i

/-- What the threads did. -/
structure Served (write_message read_message : F) (s : State F) : Prop where
  own : ∀ i t d, s.threads[i]? = some t → t.data? = some d →
    Describes write_message read_message s d i
  uses : ∀ u ∈ s.log, u.conn = some u.thread
  ops : ∀ i, (s.log.filter (·.thread = i)).map Use.op = (s.threads[i]?).elim [] Thread.ops

/-- What `func_data` holds. -/
def Main (write_message read_message : F) (s : State F) : Prop :=
  match s.pc with
  | .accepting => s.accepted.length = s.threads.length ∧
      ∀ n, n + 1 = s.threads.length → Describes write_message read_message s s.func_data n
  | .storing fd => s.accepted.length = s.threads.length + 1 ∧
      s.accepted[s.threads.length]? = some fd ∧
      ∀ n, n + 1 = s.threads.length → Describes write_message read_message s s.func_data n
  | .creating => s.accepted.length = s.threads.length + 1 ∧
      Describes write_message read_message s s.func_data s.threads.length
  | .returned => s.accepted.length = s.threads.length

/-- What holds as long as every thread reads in time. -/
structure Inv (write_message read_message : F) (s : State F) : Prop where
  fds : Descriptors s
  served : Served write_message read_message s
  main : Main write_message read_message s

theorem inv_start (func_data : FuncData F) :
    Inv write_message read_message (.start func_data) where
  fds := ⟨by simp [State.start], by simp [State.start]⟩
  served := ⟨by simp [State.start], by simp [State.start], by simp [State.start]⟩
  main := by simp [Main, State.start]

/-- The uses of connection `i` are the uses by thread `i`. -/
theorem Served.ops_conn (h : Served write_message read_message s) (i : Nat) :
    (s.log.filter (·.conn = some i)).map Use.op = (s.threads[i]?).elim [] Thread.ops := by
  have hsame : s.log.filter (·.conn = some i) = s.log.filter (·.thread = i) := by
    apply List.filter_congr
    intro u hu
    rw [h.uses u hu]
    simp
  rw [hsame, h.ops i]

/-- Uses of one connection by one thread are known by what was done. -/
theorem uses_eq {us : List (Use F)} {i : Nat}
    (h : ∀ u ∈ us, u.conn = some i ∧ u.thread = i) :
    us = (us.map Use.op).map fun op => { thread := i, op, conn := some i } := by
  rw [List.map_map]
  refine (List.map_id us).symm.trans (List.map_congr_left fun u hu => ?_)
  obtain ⟨hconn, hthread⟩ := h u hu
  cases u
  simp_all

/-- A thread that has no step left is done. -/
theorem closed_of_rest
    (hrest : (server write_message read_message).AtRest (fun l => l.ofThread = true) s)
    {i : Nat} {t : Thread F} (hi : s.threads[i]? = some t) : ∃ d, t = .closed d := by
  have hno : ∀ l : Label F, l.ofThread = true → step write_message read_message s l = none :=
    fun l hl => Option.eq_none_iff_forall_ne_some.mpr fun s' => hrest l s' hl
  cases t with
  | created =>
    have := hno (.load i s.func_data) rfl
    simp [step, hi] at this
  | loaded d =>
    have := hno (.write i) rfl
    simp [step, hi] at this
  | wrote d =>
    have := hno (.read i) rfl
    simp [step, hi] at this
  | served d =>
    have := hno (.close i) rfl
    simp [step, hi] at this
  | closed d => exact ⟨d, rfl⟩

/-- The number of threads is that of the connections, but for the one the main loop has in hand. -/
theorem Main.length_eq (h : Main write_message read_message s) :
    s.accepted.length = s.threads.length + if s.pc.inHand then 1 else 0 := by
  unfold Main at h
  split at h
  · next hpc => simpa [hpc, Pc.inHand] using h.1
  · next hpc => simpa [hpc, Pc.inHand] using h.1
  · next hpc => simpa [hpc, Pc.inHand] using h.1
  · next hpc => simpa [hpc, Pc.inHand] using h

/-- What is known of the threads is what is asked for in terms of connections. -/
theorem Inv.ownThread (h : Inv write_message read_message s) :
    OwnThread write_message read_message s where
  own := h.served.own
  uses := h.served.uses
  served := h.served.ops_conn
  created := by
    intro i hi
    have hlen := h.main.length_eq
    split at hlen
    case isTrue hhand =>
      by_cases hlast : i + 1 = s.accepted.length
      · exact Or.inr ⟨hhand, hlast⟩
      · exact Or.inl (by omega)
    case isFalse => exact Or.inl (by omega)
  finished := by
    intro hrest hhand i hi
    have hlen : s.accepted.length = s.threads.length := by
      simpa [hhand] using h.main.length_eq
    have hlt : i < s.threads.length := hlen ▸ hi
    have hthread := List.getElem?_eq_getElem hlt
    obtain ⟨d, hd⟩ := closed_of_rest hrest hthread
    rw [hd] at hthread
    -- the thread is done with the connection it read the data of
    have hdesc := h.served.own i _ d hthread rfl
    have hops := h.served.ops_conn i
    rw [hthread, Option.elim_some, Thread.ops, hdesc.write_func, hdesc.read_func] at hops
    have hmine : ∀ u ∈ s.log.filter (·.conn = some i), u.conn = some i ∧ u.thread = i := by
      intro u hu
      obtain ⟨hlog, hconn⟩ := List.mem_filter.mp hu
      have hconn : u.conn = some i := by simpa using hconn
      have huse := h.served.uses u hlog
      rw [hconn] at huse
      exact ⟨hconn, (Option.some.inj huse).symm⟩
    rw [uses_eq hmine, hops]
    rfl

/-! ### Steps of the main loop -/

/-- The elements of a list keep their places when one more is put at its end. -/
theorem getElem?_snoc_of_some {α : Type} {as : List α} {a b : α} {i : Nat} (h : as[i]? = some b) :
    (as ++ [a])[i]? = some b := by
  rw [List.getElem?_append_left (List.getElem?_eq_some_iff.mp h).1, h]

/-- An element of a list with one more at its end. -/
theorem getElem?_snoc {α : Type} {as : List α} {a b : α} {i : Nat}
    (h : (as ++ [a])[i]? = some b) : as[i]? = some b ∨ (i = as.length ∧ b = a) := by
  rcases Nat.lt_trichotomy i as.length with hlt | heq | hgt
  · rw [List.getElem?_append_left hlt] at h
    exact Or.inl h
  · subst heq
    simp only [List.getElem?_concat_length, Option.some.injEq] at h
    exact Or.inr ⟨rfl, h.symm⟩
  · rw [List.getElem?_eq_none (by rw [List.length_append, List.length_singleton]; omega)] at h
    cases h

/-- Earlier connections keep their numbers. -/
theorem Describes.accept {d : FuncData F} {i : Nat}
    (h : Describes write_message read_message s d i) (fd : Int) :
    Describes write_message read_message (s.acceptOk fd) d i where
  fd := getElem?_snoc_of_some h.fd
  write_func := h.write_func
  read_func := h.read_func

theorem Inv.accept (h : Inv write_message read_message s) {fd : Int} (hpc : s.pc = .accepting)
    (hfresh : s.table fd = none) : Inv write_message read_message (s.acceptOk fd) := by
  -- a connection that is not done is open under another descriptor
  have hopen : ∀ i, s.accepted[i]? = some fd → s.Done i := by
    intro i hi
    by_contra hnot
    have := h.fds.opened i fd hi hnot
    rw [hfresh] at this
    cases this
  have hmain := h.main
  simp only [Main, hpc] at hmain
  constructor
  case fds =>
    constructor
    · intro i fd' hi hnot
      rcases getElem?_snoc hi with hold | ⟨rfl, rfl⟩
      · -- an earlier connection, open under a descriptor other than `fd`
        have hne : fd' ≠ fd := fun heq => hnot (hopen i (heq ▸ hold))
        show Function.update s.table fd (some s.accepted.length) fd' = some i
        rw [Function.update_of_ne hne]
        exact h.fds.opened i fd' hold hnot
      · simp [State.acceptOk]
    · intro i j fd' hij hi hj
      have hlt : i < s.accepted.length := by
        have hjlt : j < (s.accepted ++ [fd]).length := (List.getElem?_eq_some_iff.mp hj).1
        rw [List.length_append, List.length_singleton] at hjlt
        omega
      have hi' : s.accepted[i]? = some fd' :=
        (getElem?_snoc hi).resolve_right fun hlast => Nat.ne_of_lt hlt hlast.1
      rcases getElem?_snoc hj with hold | ⟨-, rfl⟩
      · exact h.fds.distinct i j fd' hij hi' hold
      · -- the new connection has the descriptor of one that is done
        exact hopen i hi'
  case served =>
    exact ⟨fun i t d ht hd => (h.served.own i t d ht hd).accept fd, h.served.uses, h.served.ops⟩
  case main =>
    refine ⟨?_, ?_, fun n hn => (hmain.2 n hn).accept fd⟩
    · simp [State.acceptOk, hmain.1]
    · simp [State.acceptOk, ← hmain.1]

theorem Inv.store (h : Inv write_message read_message s) {fd : Int} (hpc : s.pc = .storing fd) :
    Inv write_message read_message
      { s with pc := .creating, func_data := { fd, write_func := write_message,
                                               read_func := read_message } } := by
  have hmain := h.main
  simp only [Main, hpc] at hmain
  exact { fds := ⟨h.fds.opened, h.fds.distinct⟩
          served := ⟨fun i t d ht hd => { h.served.own i t d ht hd with }, h.served.uses,
            h.served.ops⟩
          main := ⟨hmain.1, hmain.2.1, rfl, rfl⟩ }

theorem Inv.create (h : Inv write_message read_message s) (hpc : s.pc = .creating) :
    Inv write_message read_message
      { s with pc := .accepting, threads := s.threads ++ [.created] } := by
  have hmain := h.main
  simp only [Main, hpc] at hmain
  -- a thread that is done stays done
  have hdone : ∀ i, s.Done i →
      ({ s with pc := .accepting, threads := s.threads ++ [.created] } : State F).Done i := by
    intro i hi
    obtain ⟨d, hd⟩ := hi
    exact ⟨d, getElem?_snoc_of_some hd⟩
  constructor
  case fds =>
    constructor
    · intro i fd hi hnot
      exact h.fds.opened i fd hi fun hd => hnot (hdone i hd)
    · intro i j fd hij hi hj
      exact hdone i (h.fds.distinct i j fd hij hi hj)
  case served =>
    refine ⟨?_, h.served.uses, ?_⟩
    · intro i t d ht hd
      rcases getElem?_snoc ht with hold | ⟨-, rfl⟩
      · exact { h.served.own i t d hold hd with }
      · cases hd
    · intro i
      rw [h.served.ops i]
      cases hget : (s.threads ++ [Thread.created])[i]? with
      | none =>
        have hle := List.getElem?_eq_none_iff.mp hget
        rw [List.length_append] at hle
        rw [List.getElem?_eq_none (by omega)]
      | some t =>
        rcases getElem?_snoc hget with hold | ⟨rfl, rfl⟩
        · rw [hold]
        · -- the new thread has done nothing, like no thread
          rw [List.getElem?_eq_none (le_refl _)]
          rfl
  case main =>
    refine ⟨?_, ?_⟩
    · simp [hmain.1]
    · intro n hn
      have heq : n = s.threads.length := by simpa using hn
      subst heq
      exact { hmain.2 with }

/-- `accept` fails, and `thread_accept` returns. -/
theorem Inv.leave (h : Inv write_message read_message s) (hpc : s.pc = .accepting) :
    Inv write_message read_message { s with pc := .returned } where
  fds := ⟨h.fds.opened, h.fds.distinct⟩
  served := ⟨fun i t d ht hd => { h.served.own i t d ht hd with }, h.served.uses, h.served.ops⟩
  main := by
    have hmain := h.main
    simp only [Main, hpc] at hmain
    exact hmain.1

/-! ### Steps of the threads -/

/-- Only thread `i` goes on. -/
theorem getElem?_goTo {i : Nat} {t t' : Thread F} (hi : s.threads[i]? = some t) (j : Nat) :
    (s.goTo i t').threads[j]? = if j = i then some t' else s.threads[j]? := by
  have hlt := (List.getElem?_eq_some_iff.mp hi).1
  simp only [State.goTo, List.getElem?_set, hlt, if_true, eq_comm]

/-- The main loop does not notice what the threads do. -/
theorem Main.congr (h : Main write_message read_message s) (hpc : s'.pc = s.pc)
    (hdata : s'.func_data = s.func_data) (hacc : s'.accepted = s.accepted)
    (hlen : s'.threads.length = s.threads.length) : Main write_message read_message s' := by
  have hdesc : ∀ d i, Describes write_message read_message s d i →
      Describes write_message read_message s' d i :=
    fun d i hd => { hd with fd := by rw [hacc, hd.fd] }
  simp only [Main, hpc, hdata, hacc, hlen] at h ⊢
  split at h
  · exact ⟨h.1, fun n hn => hdesc _ _ (h.2 n hn)⟩
  · exact ⟨h.1, h.2.1, fun n hn => hdesc _ _ (h.2.2 n hn)⟩
  · exact ⟨h.1, hdesc _ _ h.2⟩
  · exact h

/-- A thread that is not done yet and goes on without closing its descriptor. -/
theorem Descriptors.goTo (h : Descriptors s) {i : Nat} {t t' : Thread F}
    (hi : s.threads[i]? = some t) (ht : ∀ d, t ≠ .closed d) (ht' : ∀ d, t' ≠ .closed d) :
    Descriptors (s.goTo i t') := by
  -- neither before nor after the step is thread `i` done
  have hdone : ∀ j, (s.goTo i t').Done j ↔ s.Done j := by
    intro j
    unfold State.Done
    by_cases hj : j = i
    · subst hj
      simp [getElem?_goTo hi, hi, ht, ht']
    · simp [getElem?_goTo hi, hj]
  constructor
  · intro j fd hj hnot
    exact h.opened j fd hj (fun hd => hnot ((hdone j).mpr hd))
  · intro j k fd hjk hj hk
    exact (hdone j).mpr (h.distinct j k fd hjk hj hk)

/-- A thread that is done frees its descriptor. -/
theorem Descriptors.close (h : Descriptors s) {i : Nat} {t : Thread F} {d : FuncData F}
    (hi : s.threads[i]? = some t) (ht : ∀ d, t ≠ .closed d) (hfd : s.accepted[i]? = some d.fd) :
    Descriptors ((s.closeFd d.fd).goTo i (.closed d)) := by
  have hdone : ∀ j, s.Done j →
      ((s.closeFd d.fd).goTo i (.closed d)).Done j := by
    intro j hj'
    obtain ⟨e, he⟩ := hj'
    by_cases hj : j = i
    · subst hj
      rw [hi] at he
      exact absurd (Option.some.inj he) (ht e)
    · refine ⟨e, ?_⟩
      rw [getElem?_goTo (s := s.closeFd d.fd) hi, if_neg hj]
      exact he
  have hself : ((s.closeFd d.fd).goTo i (.closed d)).Done i :=
    ⟨d, by rw [getElem?_goTo (s := s.closeFd d.fd) hi, if_pos rfl]⟩
  have hopen : s.table d.fd = some i := by
    apply h.opened i d.fd hfd
    intro hd
    obtain ⟨e, he⟩ := hd
    rw [hi] at he
    exact ht e (Option.some.inj he)
  constructor
  · intro j fd hj hnot
    have hjopen : s.table fd = some j := h.opened j fd hj fun hd => hnot (hdone j hd)
    -- another connection is open under another descriptor, so its own stays open
    have hne : fd ≠ d.fd := by
      intro heq
      subst heq
      rw [hopen] at hjopen
      exact hnot (Option.some.inj hjopen ▸ hself)
    show Function.update s.table d.fd none fd = some j
    rw [Function.update_of_ne hne]
    exact hjopen
  · intro j k fd hjk hj hk
    exact hdone j (h.distinct j k fd hjk hj hk)

/-- A thread reads the data of its connection. -/
theorem Served.load (h : Served write_message read_message s) {i : Nat} {d : FuncData F}
    (hi : s.threads[i]? = some .created) (hd : Describes write_message read_message s d i) :
    Served write_message read_message (s.goTo i (.loaded d)) := by
  constructor
  case own =>
    intro j t e ht he
    rw [getElem?_goTo hi] at ht
    split at ht
    · next heq =>
      subst heq
      obtain rfl := Option.some.inj ht
      obtain rfl := Option.some.inj he
      exact { hd with }
    · exact { h.own j t e ht he with }
  case uses => exact h.uses
  case ops =>
    intro j
    have hops := h.ops j
    rw [getElem?_goTo hi]
    split
    · next heq =>
      subst heq
      rw [hi] at hops
      exact hops
    · exact hops

/-- A thread uses the descriptor of its connection. -/
theorem Served.use (h : Served write_message read_message s) {i : Nat} {t t' : Thread F}
    {d : FuncData F} {op : Op F} (hi : s.threads[i]? = some t) (ht : t.data? = some d)
    (ht' : t'.data? = some d) (hops : t'.ops = t.ops ++ [op]) (hopen : s.table d.fd = some i) :
    Served write_message read_message ((s.use i op d.fd).goTo i t') := by
  constructor
  case own =>
    intro j u e hu he
    rw [getElem?_goTo (s := s.use i op d.fd) hi] at hu
    split at hu
    · next heq =>
      subst heq
      obtain rfl := Option.some.inj hu
      rw [ht'] at he
      obtain rfl := Option.some.inj he
      exact { h.own j t d hi ht with }
    · exact { h.own j u e hu he with }
  case uses =>
    intro u hu
    rcases List.mem_append.mp hu with hold | hnew
    · exact h.uses u hold
    · -- the connection open under the descriptor is the thread's own
      obtain rfl := List.mem_singleton.mp hnew
      exact hopen
  case ops =>
    intro j
    have hold := h.ops j
    rw [getElem?_goTo (s := s.use i op d.fd) hi]
    simp only [State.goTo, State.use, List.filter_append, List.map_append]
    split
    · next heq =>
      subst heq
      rw [hi] at hold
      rw [hold]
      simp [hops]
    · next hne =>
      rw [hold]
      simp [Ne.symm hne]

/-- A step that is in time keeps the invariant. -/
theorem Inv.next (h : Inv write_message read_message s) {l : Label F} (hok : InTime s l)
    (hstep : step write_message read_message s l = some s') :
    Inv write_message read_message s' := by
  have hlen : ∀ i t, (s.threads.set i t).length = s.threads.length := fun i t => List.length_set
  -- the descriptor of a thread that is not done is open
  have hopen : ∀ i t d, s.threads[i]? = some t → t.data? = some d → (∀ d, t ≠ .closed d) →
      s.table d.fd = some i := by
    intro i t d hi ht hnot
    apply h.fds.opened i d.fd (h.served.own i t d hi ht).fd
    intro hd
    obtain ⟨e, he⟩ := hd
    rw [hi] at he
    exact hnot e (Option.some.inj he)
  cases steps_of_step hstep with
  | accept hpc hfresh => exact h.accept hpc hfresh
  | acceptFails hpc => exact h.leave hpc
  | store hpc => exact h.store hpc
  | create hpc => exact h.create hpc
  | createFails _ => exact hok.elim
  | @load i junk hi =>
    obtain ⟨hlast, hpc⟩ := hok
    have hnot : s.pc ≠ .returned := by
      rcases hpc with hpc | ⟨fd, hpc⟩ <;> simp [hpc]
    -- `func_data` still holds the data of the last thread created
    have hdesc : Describes write_message read_message s s.func_data i := by
      have hmain := h.main
      rcases hpc with hpc | ⟨fd, hpc⟩
      · simp only [Main, hpc] at hmain
        exact hmain.2 i hlast
      · simp only [Main, hpc] at hmain
        exact hmain.2.2 i hlast
    rw [if_neg hnot]
    exact { fds := h.fds.goTo hi (by simp) (by simp)
            served := h.served.load hi hdesc
            main := h.main.congr rfl rfl rfl (hlen _ _) }
  | @write i d hi =>
    have hd := hopen i _ d hi rfl (by simp)
    exact { fds := Descriptors.goTo (s := s.use i _ d.fd) ⟨h.fds.opened, h.fds.distinct⟩ hi
              (by simp) (by simp)
            served := h.served.use hi rfl rfl rfl hd
            main := h.main.congr rfl rfl rfl (hlen _ _) }
  | @read i d hi =>
    have hd := hopen i _ d hi rfl (by simp)
    exact { fds := Descriptors.goTo (s := s.use i _ d.fd) ⟨h.fds.opened, h.fds.distinct⟩ hi
              (by simp) (by simp)
            served := h.served.use hi rfl rfl rfl hd
            main := h.main.congr rfl rfl rfl (hlen _ _) }
  | @close i d hi =>
    have hd := hopen i _ d hi rfl (by simp)
    have hserved : Served write_message read_message ((s.use i .close d.fd).goTo i (.closed d)) :=
      h.served.use hi rfl rfl rfl hd
    exact { fds := Descriptors.close (s := s.use i _ d.fd) ⟨h.fds.opened, h.fds.distinct⟩ hi
              (by simp) (h.served.own i _ d hi rfl).fd
            served := ⟨fun j t e ht he => { hserved.own j t e ht he with }, hserved.uses,
              hserved.ops⟩
            main := h.main.congr rfl rfl rfl (hlen _ _) }

/-! ### Late reads -/

/-- A thread has read the descriptor of another connection for its own. -/
def Mixed (s : State F) : Prop :=
  ∃ (i : Nat) (t : Thread F) (d : FuncData F) (fd : Int),
    s.threads[i]? = some t ∧ t.data? = some d ∧ s.accepted[i]? = some fd ∧ fd ≠ d.fd

/-- `thread_accept` has returned with a connection in hand. -/
def Abandoned (s : State F) : Prop :=
  s.pc = .returned ∧ s.threads.length < s.accepted.length

/-- Earlier connections keep their numbers. -/
theorem accepted_of_step {l : Label F} (hstep : step write_message read_message s l = some s')
    {i : Nat} {fd : Int} (h : s.accepted[i]? = some fd) : s'.accepted[i]? = some fd := by
  cases steps_of_step hstep with
  | accept _ _ => exact getElem?_snoc_of_some h
  | _ => exact h

/-- What a thread read stays what it read. -/
theorem data_of_step {l : Label F} (hstep : step write_message read_message s l = some s')
    {i : Nat} {t : Thread F} {d : FuncData F} (hi : s.threads[i]? = some t)
    (ht : t.data? = some d) : ∃ t', s'.threads[i]? = some t' ∧ t'.data? = some d := by
  -- a thread that goes on from `t₁` to `t₂` takes along what it read
  have hgoTo : ∀ (u : State F) j t₁ t₂, u.threads = s.threads → s.threads[j]? = some t₁ →
      (t₁.data? = some d → t₂.data? = some d) →
      ∃ t', (u.goTo j t₂).threads[i]? = some t' ∧ t'.data? = some d := by
    intro u j t₁ t₂ hu hj hdata
    rw [getElem?_goTo (by rw [hu, hj] : u.threads[j]? = some t₁), hu]
    by_cases heq : i = j
    · subst heq
      rw [hi] at hj
      obtain rfl := Option.some.inj hj
      exact ⟨t₂, if_pos rfl, hdata ht⟩
    · exact ⟨t, by rw [if_neg heq, hi], ht⟩
  cases steps_of_step hstep with
  | accept _ _ => exact ⟨t, hi, ht⟩
  | acceptFails _ => exact ⟨t, hi, ht⟩
  | store _ => exact ⟨t, hi, ht⟩
  | create _ => exact ⟨t, getElem?_snoc_of_some hi, ht⟩
  | createFails _ => exact ⟨t, hi, ht⟩
  | load hj => exact hgoTo _ _ _ _ rfl hj nofun
  | write hj => exact hgoTo _ _ _ _ rfl hj id
  | read hj => exact hgoTo _ _ _ _ rfl hj id
  | close hj => exact hgoTo _ _ _ _ rfl hj id

theorem returned_of_step {l : Label F} (hstep : step write_message read_message s l = some s')
    (h : s.pc = .returned) : s'.pc = .returned := by
  cases steps_of_step hstep with
  | accept hpc _ => rw [h] at hpc; cases hpc
  | acceptFails hpc => rfl
  | store hpc => rw [h] at hpc; cases hpc
  | create hpc => rw [h] at hpc; cases hpc
  | createFails hpc => rfl
  | load _ => exact h
  | write _ => exact h
  | read _ => exact h
  | close _ => exact h

/-- A thread that does not read in time finds the data of a later connection. -/
theorem Inv.late (h : Inv write_message read_message s) {i : Nat} {junk : FuncData F}
    (hi : s.threads[i]? = some .created) (hpc : s.pc ≠ .returned)
    (hlate : ¬ InTime s (.load i junk)) :
    ∃ n, i < n ∧ Describes write_message read_message s s.func_data n := by
  have hlt := (List.getElem?_eq_some_iff.mp hi).1
  have hmain := h.main
  unfold Main at hmain
  split at hmain
  · next heq =>
    -- about to accept: the data is that of the last thread, and thread `i` is not the last
    have hne : i + 1 ≠ s.threads.length := fun hlast => hlate ⟨hlast, Or.inl heq⟩
    exact ⟨s.threads.length - 1, by omega, hmain.2 _ (by omega)⟩
  · next fd heq =>
    have hne : i + 1 ≠ s.threads.length := fun hlast => hlate ⟨hlast, Or.inr ⟨fd, heq⟩⟩
    exact ⟨s.threads.length - 1, by omega, hmain.2.2 _ (by omega)⟩
  · -- filled for a thread that is not created yet
    exact ⟨_, hlt, hmain.2⟩
  · next heq => exact absurd heq hpc

/-- The first thread that does not read in time takes the descriptor of another connection for its
    own, and a `pthread_create` that fails leaves a connection to nobody. -/
theorem Inv.late_step (h : Inv write_message read_message s) {l : Label F}
    (hpc : s.pc ≠ .returned) (hbad : ¬ InTime s l)
    (hstep : step write_message read_message s l = some s') : Mixed s' ∨ Abandoned s' := by
  cases steps_of_step hstep with
  | @load i junk hi =>
    obtain ⟨n, hin, hdesc⟩ := h.late hi hpc hbad
    have hn := (List.getElem?_eq_some_iff.mp hdesc.fd).1
    obtain ⟨fd, hacc⟩ : ∃ fd, s.accepted[i]? = some fd :=
      ⟨_, List.getElem?_eq_getElem (by omega : i < s.accepted.length)⟩
    refine Or.inl ⟨i, .loaded s.func_data, s.func_data, fd, ?_, rfl, hacc, ?_⟩
    · rw [getElem?_goTo hi, if_pos rfl, if_neg hpc]
    · -- two connections had one descriptor, so the thread of the first would be done
      intro heq
      subst heq
      obtain ⟨d, hd⟩ := h.fds.distinct i n _ hin hacc hdesc.fd
      rw [hi] at hd
      cases hd
  | createFails hcreating =>
    have hlen := h.main.length_eq
    rw [hcreating] at hlen
    refine Or.inr ⟨rfl, ?_⟩
    show s.threads.length < s.accepted.length
    rw [hlen]
    exact Nat.lt_succ_self _
  | _ => exact absurd trivial hbad

theorem Mixed.step (h : Mixed s) {l : Label F}
    (hstep : step write_message read_message s l = some s') : Mixed s' := by
  obtain ⟨i, t, d, fd, hi, ht, hfd, hne⟩ := h
  obtain ⟨t', hi', ht'⟩ := data_of_step hstep hi ht
  exact ⟨i, t', d, fd, hi', ht', accepted_of_step hstep hfd, hne⟩

theorem Abandoned.step (h : Abandoned s) {l : Label F}
    (hstep : step write_message read_message s l = some s') : Abandoned s' := by
  obtain ⟨hpc, hless⟩ := h
  refine ⟨returned_of_step hstep hpc, ?_⟩
  have hno : ∀ {pc : Pc}, pc ≠ .returned → s.pc ≠ pc := fun hne heq => hne (heq.symm.trans hpc)
  cases steps_of_step hstep with
  | accept hat _ | acceptFails hat | store hat | create hat | createFails hat =>
    exact absurd hat (hno nofun)
  | _ => simpa [State.goTo, State.use, State.closeFd] using hless

theorem Mixed.not_ownThread (h : Mixed s) : ¬ OwnThread write_message read_message s := by
  intro hown
  obtain ⟨i, t, d, fd, hi, ht, hfd, hne⟩ := h
  have heq := (hown.own i t d hi ht).fd
  rw [hfd] at heq
  exact hne (Option.some.inj heq)

theorem Abandoned.not_ownThread (h : Abandoned s) : ¬ OwnThread write_message read_message s := by
  intro hown
  obtain ⟨hpc, hless⟩ := h
  rcases hown.created s.threads.length hless with hlt | ⟨hhand, -⟩
  · exact absurd hlt (Nat.lt_irrefl _)
  · simp [hpc, Pc.inHand] at hhand

/-! ### Runs -/

/-- A step of a `thread_accept` that has not returned is in time. -/
def InTimeSoFar (s : State F) (l : Label F) : Prop := s.pc = .returned ∨ InTime s l

theorem inTime_of_not_returned {tr : List (State F × Label F)}
    (h : (server write_message read_message).Run tr s) (hpc : s.pc ≠ .returned)
    (hok : Along InTimeSoFar tr) : Along InTime tr := by
  induction h with
  | start _ => exact along_nil _
  | next hrun hstep ih =>
    obtain ⟨htr, hlast⟩ := along_snoc.mp hok
    have hbefore := fun hret => hpc (returned_of_step hstep hret)
    exact along_snoc.mpr ⟨ih hbefore htr, hlast.resolve_left hbefore⟩

theorem inv_of_run {tr : List (State F × Label F)}
    (h : (server write_message read_message).Run tr s) (hok : Along InTime tr) :
    Inv write_message read_message s := by
  refine h.invariant ?_ ?_ hok
  · intro s hs
    obtain ⟨func_data, rfl⟩ := hs
    exact inv_start func_data
  · intro s l s' hs hl (hstep : step write_message read_message s l = some s')
    exact hs.next hl hstep

/-- In every run whose steps are in time every connection has a thread of its own, which serves and
    closes it. As long as `thread_accept` has not returned, this is so in no other run; and when it
    has, the steps up to its return were in time. -/
theorem own_thread_iff {tr : List (State F × Label F)}
    (h : (server write_message read_message).Run tr s) :
    (Along InTime tr → OwnThread write_message read_message s) ∧
    (s.pc ≠ .returned → (OwnThread write_message read_message s ↔ Along InTime tr)) ∧
    (OwnThread write_message read_message s → Along InTimeSoFar tr) := by
  have hgood : Along InTime tr → OwnThread write_message read_message s :=
    fun hok => (inv_of_run h hok).ownThread
  have hsofar : OwnThread write_message read_message s → Along InTimeSoFar tr := by
    intro hown
    by_contra hno
    have hbroken : Mixed s ∨ Abandoned s := by
      refine h.broken (Q := fun s => Mixed s ∨ Abandoned s) ?_ ?_ hno
      · -- the first step that is not in time
        intro tr s l s' hrun hok (hstep : step write_message read_message s l = some s') hbad
        obtain ⟨hpc, hlate⟩ := not_or.mp hbad
        exact (inv_of_run hrun (inTime_of_not_returned hrun hpc hok)).late_step hpc hlate hstep
      · -- and the steps after it
        intro s l s' (hstep : step write_message read_message s l = some s') hbroken
        exact hbroken.imp (fun h => h.step hstep) fun h => h.step hstep
    rcases hbroken with hmixed | habandoned
    · exact hmixed.not_ownThread hown
    · exact habandoned.not_ownThread hown
  exact ⟨hgood, fun hpc => ⟨fun hown => inTime_of_not_returned h hpc (hsofar hown), hgood⟩, hsofar⟩

/-- One connection, whose thread reads before the next one comes, and goes on to its end: it served
    and closed the connection. -/
theorem own_thread_iff_one : ∃ s : State Nat,
    System.replay (step 1 2) (.start { fd := 0, write_func := 0, read_func := 0 })
      [.accept 5, .store, .create, .load 0 { fd := 0, write_func := 0, read_func := 0 }, .write 0,
        .read 0, .close 0] = some s ∧
    OwnThread 1 2 s ∧ s.log.filter (·.conn = some 0) = servedAndClosed 1 2 0 := by
  let junk : FuncData Nat := { fd := 0, write_func := 0, read_func := 0 }
  let d : FuncData Nat := { fd := 5, write_func := 1, read_func := 2 }
  let s₁ := (State.start junk).acceptOk 5
  let s₂ : State Nat := { s₁ with pc := .creating, func_data := d }
  let s₃ : State Nat := { s₂ with pc := .accepting, threads := [.created] }
  let s₄ := s₃.goTo 0 (.loaded d)
  let s₅ := (s₄.use 0 (.call 1) 5).goTo 0 (.wrote d)
  let s₆ := (s₅.use 0 (.call 2) 5).goTo 0 (.served d)
  let s₇ := ((s₆.use 0 .close 5).closeFd 5).goTo 0 (.closed d)
  have h₀ : (server 1 2).Run [] (.start junk) := .start ⟨junk, rfl⟩
  have h₁ : step 1 2 (.start junk) (.accept 5) = some s₁ := rfl
  have h₂ : step 1 2 s₁ .store = some s₂ := rfl
  have h₃ : step 1 2 s₂ .create = some s₃ := rfl
  have h₄ : step 1 2 s₃ (.load 0 junk) = some s₄ := rfl
  have h₅ : step 1 2 s₄ (.write 0) = some s₅ := rfl
  have h₆ : step 1 2 s₅ (.read 0) = some s₆ := rfl
  have h₇ : step 1 2 s₆ (.close 0) = some s₇ := rfl
  have hrun := ((((((h₀.next h₁).next h₂).next h₃).next h₄).next h₅).next h₆).next h₇
  have hown : OwnThread 1 2 s₇ := by
    refine (own_thread_iff hrun).1 ?_
    simp only [along_snoc, along_nil, true_and]
    exact ⟨⟨⟨⟨⟨⟨trivial, trivial⟩, trivial⟩, rfl, Or.inl rfl⟩, trivial⟩, trivial⟩, trivial⟩
  refine ⟨s₇, rfl, hown, hown.finished ?_ rfl 0 (by decide)⟩
  -- the only thread is done
  intro l s' hl (hstep : step 1 2 s₇ l = some s')
  have hthreads : s₇.threads = [.closed d] := rfl
  cases l with
  | load i _ | write i | read i | close i =>
    cases i with
    | zero => simp [step, hthreads] at hstep
    | succ i => simp [step, hthreads] at hstep
  | _ => cases hl

/-- The second connection comes before the first thread runs: both threads take it for theirs, and
    nobody serves or closes the first one. -/
theorem connection_unserved : ∃ s : State Nat, (server 1 2).Reachable s ∧
    ¬ OwnThread 1 2 s ∧ s.accepted = [5, 6] ∧ (∀ i < 2, s.Done i) ∧
    ∀ u ∈ s.log, u.conn ≠ some 0 := by
  let junk : FuncData Nat := { fd := 0, write_func := 0, read_func := 0 }
  have hstart : (server 1 2).Reachable (.start junk) := ⟨[], .start ⟨junk, rfl⟩⟩
  refine ⟨_, System.replay_reachable hstart [.accept 5, .store, .create, .accept 6, .store,
    .load 0 junk, .write 0, .read 0, .close 0, .create, .load 1 junk, .write 1, .read 1, .close 1]
    rfl, ?_, rfl, ?_, by decide⟩
  · intro hown
    have hfd := (hown.own 0 _ _ rfl rfl).fd
    cases hfd
  · intro i hi
    match i, hi with
    | 0, _ => exact ⟨_, rfl⟩
    | 1, _ => exact ⟨_, rfl⟩

end ThreadAccept
