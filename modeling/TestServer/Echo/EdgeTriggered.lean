import Mathlib.Data.Finset.SDiff
import TestServer.Echo.Descriptors

/-! # The echo server under edge-triggered notification

    Every descriptor is registered with `EPOLLIN | EPOLLET`: an arrival on a
    descriptor arms one notification for it, and `epoll_wait` clears the
    notifications it reports. The handler of an event takes one connection, or
    one read of at most 50 bytes.

    * `Kernel`: the server's loop together with the notifications, the
      connections queued on the listening socket and the unread bytes.
    * `Drains`: the handler takes everything there is, or more arrived since
      the event was reported.
    * `none_stranded`: when all handlers do, no input waits without a
      notification while the server waits in `epoll_wait`.
    * `left_behind`: a handler that does not leaves input behind that nothing
      notifies the server of.
-/

open CMemory LTS

namespace Echo

/-! ### Arrivals and notifications -/

/-- What arrived on a connection and was not read yet. -/
structure Conn where
  unread : Nat
  hungUp : Bool
  deriving DecidableEq

/-- The server's loop and the kernel's side of it. -/
structure Kernel where
  loop : State
  /-- The descriptors with a pending notification. -/
  pending : Finset Int
  /-- The connections queued on the listening socket. -/
  queued : List Conn
  /-- The accepted connections, by descriptor. -/
  conn : Int → Conn

/-- What peers do. -/
inductive Arrival where
  /-- A connection is queued on the listening socket. -/
  | connect
  /-- Bytes arrive on the `i`-th queued connection. -/
  | sendQueued (i n : Nat)
  /-- The peer of the `i`-th queued connection closes it. -/
  | finishQueued (i : Nat)
  /-- Bytes arrive on an accepted connection. -/
  | send (fd : Int) (n : Nat)
  /-- The peer of an accepted connection closes it. -/
  | finish (fd : Int)

/-- An arrival, or a step of the server. -/
inductive Event where
  | arrival (a : Arrival)
  | server (l : Label)

/-- The descriptor has queued connections or unread bytes. -/
def Kernel.Backlog (k : Kernel) (fd : Int) : Prop :=
  if fd = k.loop.listening_fd then k.queued ≠ [] else 0 < (k.conn fd).unread

instance (k : Kernel) (fd : Int) : Decidable (k.Backlog fd) :=
  inferInstanceAs (Decidable (if fd = k.loop.listening_fd then k.queued ≠ []
    else 0 < (k.conn fd).unread))

/-- `accept` returned `linkage_fd` for the first queued connection, which is then registered.
    Registering a descriptor arms a notification when there is something to read already. -/
def Kernel.link (k : Kernel) (loop : State) (c : Conn) (linkage_fd : Int) : Kernel where
  loop := loop
  pending := if 0 < c.unread ∨ c.hungUp then insert linkage_fd k.pending else k.pending
  queued := k.queued.tail
  conn := Function.update k.conn linkage_fd c

/-- `read` answered on `fd`. It hands over all unread bytes but no more than 50, and waits when
    there are none and the peer did not close. -/
def Kernel.deliver (k : Kernel) (loop : State) (fd : Int) : Option (List UInt8) → Option Kernel
  | none => some { k with loop, pending := k.pending.erase fd }
  | some bytes =>
    let c := k.conn fd
    -- reading 0 bytes is the end of the stream, and the descriptor is closed
    if (0 < c.unread ∨ c.hungUp) ∧ bytes.length = min 50 c.unread then
      some { k with loop
                    pending := if bytes.length = 0 then k.pending.erase fd else k.pending
                    conn := Function.update k.conn fd { c with unread := c.unread - bytes.length } }
    else none

/-- The kernel's part in a step of the server that leads to `loop`. -/
def Kernel.serve (k : Kernel) (loop : State) : Label → Option Kernel
  | .wait evs =>
    if evs ≠ [] ∧ ∀ fd ∈ evs, fd ∈ k.pending then
      some { k with loop, pending := k.pending \ evs.toFinset }
    else none
  | .accept linkage_fd => k.queued.head?.map fun c => k.link loop c linkage_fd
  | .addFails _ => k.queued.head?.map fun _ => { k with loop, queued := k.queued.tail }
  | .read received _ => k.loop.evs.head?.bind fun fd => k.deliver loop fd received
  | .waitFails => some { k with loop }
  | .acceptFails => some { k with loop }

/-- Something arrives on an accepted connection. -/
def Kernel.arriveOn (k : Kernel) (fd : Int) (c : Conn) : Option Kernel :=
  if fd ∈ k.loop.registered ∧ fd ≠ k.loop.listening_fd then
    some { k with conn := Function.update k.conn fd c, pending := insert fd k.pending }
  else none

/-- The kernel's part in an arrival. -/
def Kernel.arrive (k : Kernel) : Arrival → Option Kernel
  | .connect =>
    if k.loop.listening_fd ∈ k.loop.registered then
      some { k with queued := k.queued ++ [{ unread := 0, hungUp := false }]
                    pending := insert k.loop.listening_fd k.pending }
    else none
  -- a queued connection has no descriptor yet that could be notified
  | .sendQueued i n =>
    k.queued[i]?.map fun c => { k with queued := k.queued.set i { c with unread := c.unread + n } }
  | .finishQueued i =>
    k.queued[i]?.map fun c => { k with queued := k.queued.set i { c with hungUp := true } }
  | .send fd n => k.arriveOn fd { k.conn fd with unread := (k.conn fd).unread + n }
  | .finish fd => k.arriveOn fd { k.conn fd with hungUp := true }

/-- One arrival or one step of the server. -/
def kstep (k : Kernel) : Event → Option Kernel
  | .arrival a => k.arrive a
  -- the server's own step, and the kernel's answer that goes with its label
  | .server l => (step k.loop l).bind fun loop => k.serve loop l

/-- The server starts; connections may be queued by then. -/
def Kernel.start (listening_fd : Int) (others : Finset Int) (queued : List Conn) : Kernel where
  loop := .start listening_fd others
  pending := if queued = [] then ∅ else {listening_fd}
  queued := queued
  conn := fun _ => { unread := 0, hungUp := false }

/-- The echo server and its kernel. -/
def kernel : System Kernel Event :=
  .ofFun (fun k => ∃ listening_fd others queued, 0 < listening_fd ∧
    k = .start listening_fd others queued) kstep

/-! ### The loop in the kernel is the server -/

variable {k k' : Kernel}

/-- The kernel answers a `read` on the descriptor of the event. -/
theorem serve_read {loop : State} {fd : Int} {rest : List Int} (hevs : k.loop.evs = fd :: rest)
    (received : Option (List UInt8)) (stack : Mem) :
    k.serve loop (.read received stack) = k.deliver loop fd received := by
  show (k.loop.evs.head?.bind fun fd => k.deliver loop fd received) = _
  rw [hevs]
  rfl

/-- A `read` that succeeds hands over what there is, up to 50 bytes, and leaves the rest. -/
theorem deliver_some {loop : State} {fd : Int} {bytes : List UInt8}
    (h : k.deliver loop fd (some bytes) = some k') :
    bytes.length = min 50 (k.conn fd).unread ∧
      k' = { k with loop
                    pending := if bytes.length = 0 then k.pending.erase fd else k.pending
                    conn := Function.update k.conn fd
                      { k.conn fd with unread := (k.conn fd).unread - bytes.length } } := by
  simp only [Kernel.deliver, Option.ite_none_right_eq_some, Option.some.injEq] at h
  obtain ⟨⟨-, hlen⟩, rfl⟩ := h
  exact ⟨hlen, rfl⟩

theorem serve_loop {loop : State} {l : Label} (h : k.serve loop l = some k') : k'.loop = loop := by
  cases l with
  | wait evs =>
    simp only [Kernel.serve, Option.ite_none_right_eq_some, Option.some.injEq] at h
    exact h.2 ▸ rfl
  | accept linkage_fd =>
    obtain ⟨c, -, rfl⟩ := Option.map_eq_some_iff.mp h
    rfl
  | addFails linkage_fd =>
    obtain ⟨c, -, rfl⟩ := Option.map_eq_some_iff.mp h
    rfl
  | read received stack =>
    obtain ⟨fd, -, hdeliver⟩ := Option.bind_eq_some_iff.mp h
    cases received with
    | none => exact Option.some.inj hdeliver ▸ rfl
    | some bytes => exact (deliver_some hdeliver).2 ▸ rfl
  | waitFails => exact Option.some.inj h ▸ rfl
  | acceptFails => exact Option.some.inj h ▸ rfl

theorem backlog_listening : k.Backlog k.loop.listening_fd ↔ k.queued ≠ [] := by
  simp [Kernel.Backlog]

theorem backlog_conn {fd : Int} (h : fd ≠ k.loop.listening_fd) :
    k.Backlog fd ↔ 0 < (k.conn fd).unread := by
  simp [Kernel.Backlog, h]

/-- The queue and the connection of the descriptor decide. -/
theorem Kernel.Backlog.congr {fd : Int} (h : k'.Backlog fd)
    (hl : k'.loop.listening_fd = k.loop.listening_fd) (hq : k'.queued = k.queued)
    (hc : k'.conn fd = k.conn fd) : k.Backlog fd := by
  simpa only [Backlog, hl, hq, hc] using h

/-- What a queued connection holds does not matter. -/
theorem backlog_set {i : Nat} {c : Conn} {fd : Int}
    (h : ({ k with queued := k.queued.set i c } : Kernel).Backlog fd) : k.Backlog fd := by
  by_cases hfd : fd = k.loop.listening_fd
  · subst hfd
    have hne : k.queued.set i c ≠ [] := backlog_listening.mp h
    exact backlog_listening.mpr fun hnil => hne (by rw [hnil, List.set_nil])
  · let k' : Kernel := { k with queued := k.queued.set i c }
    have hunread : 0 < (k'.conn fd).unread := (backlog_conn (k := k') hfd).mp h
    exact (backlog_conn hfd).mpr hunread

/-- Arrivals do not touch the loop, and what they add is notified. -/
theorem arrive_spec {a : Arrival} (h : k.arrive a = some k') :
    k'.loop = k.loop ∧ k.pending ⊆ k'.pending ∧
      ∀ fd, k'.Backlog fd → k.Backlog fd ∨ fd ∈ k'.pending := by
  -- bytes or a hang-up on an accepted connection arm its descriptor, and change no other
  have harriveOn : ∀ fd c, k.arriveOn fd c = some k' → k'.loop = k.loop ∧
      k.pending ⊆ k'.pending ∧ ∀ e, k'.Backlog e → k.Backlog e ∨ e ∈ k'.pending := by
    intro fd c hon
    simp only [Kernel.arriveOn, Option.ite_none_right_eq_some, Option.some.injEq] at hon
    obtain ⟨-, rfl⟩ := hon
    refine ⟨rfl, Finset.subset_insert _ _, ?_⟩
    intro e hback
    by_cases he : e = fd
    · exact Or.inr (he ▸ Finset.mem_insert_self _ _)
    · exact Or.inl (hback.congr rfl rfl (Function.update_of_ne he _ _))
  cases a with
  | connect =>
    simp only [Kernel.arrive, Option.ite_none_right_eq_some, Option.some.injEq] at h
    obtain ⟨-, rfl⟩ := h
    refine ⟨rfl, Finset.subset_insert _ _, ?_⟩
    intro e hback
    by_cases he : e = k.loop.listening_fd
    · exact Or.inr (he ▸ Finset.mem_insert_self _ _)
    · left
      simpa [Kernel.Backlog, he] using hback
  | sendQueued i n =>
    obtain ⟨c, -, rfl⟩ := Option.map_eq_some_iff.mp h
    exact ⟨rfl, Finset.Subset.refl _, fun e hback => Or.inl (backlog_set hback)⟩
  | finishQueued i =>
    obtain ⟨c, -, rfl⟩ := Option.map_eq_some_iff.mp h
    exact ⟨rfl, Finset.Subset.refl _, fun e hback => Or.inl (backlog_set hback)⟩
  | send fd n => exact harriveOn fd _ h
  | finish fd => exact harriveOn fd _ h

/-- What holds of the server's loop holds of it in every state of the kernel. -/
theorem reachable_loop (h : kernel.Reachable k) : server.Reachable k.loop := by
  apply h.map Kernel.loop
  · intro k hk
    obtain ⟨listening_fd, others, queued, hpos, rfl⟩ := hk
    exact ⟨listening_fd, others, hpos, rfl⟩
  · intro k e k' (hstep : kstep k e = some k')
    cases e with
    | arrival a =>
      -- the server does not notice
      exact Or.inr (arrive_spec hstep).1.symm
    | server l =>
      obtain ⟨loop, hloop, hserve⟩ := Option.bind_eq_some_iff.mp hstep
      exact Or.inl ⟨l, (serve_loop hserve).symm ▸ hloop⟩

/-! ### Handlers that take everything -/

/-- The handler takes all that is there, or its descriptor has a notification again. -/
def Drains (k : Kernel) : Event → Prop
  | .server (.accept _) => k.queued.length ≤ 1 ∨ k.loop.listening_fd ∈ k.pending
  | .server (.read (some _) _) =>
    ∀ fd, k.loop.evs.head? = some fd → (k.conn fd).unread ≤ 50 ∨ fd ∈ k.pending
  | _ => True

/-- While the server runs, input of a registered descriptor is notified, or its event was reported
    and not handled yet. -/
def Armed (k : Kernel) : Prop :=
  k.loop.running = true → ∀ fd ∈ k.loop.registered, k.Backlog fd →
    fd ∈ k.pending ∨ fd ∈ k.loop.evs

theorem armed_start (listening_fd : Int) (others : Finset Int) (queued : List Conn) :
    Armed (.start listening_fd others queued) := by
  intro _ fd hfd hback
  have heq : fd = listening_fd := by simpa [Kernel.start, State.start] using hfd
  subst heq
  have hne : queued ≠ [] := by simpa [Kernel.Backlog, Kernel.start, State.start] using hback
  exact Or.inl (by simp [Kernel.start, hne])

/-- An arrival keeps all input notified. -/
theorem Armed.arrival (h : Armed k) {a : Arrival} (harrive : k.arrive a = some k') : Armed k' := by
  obtain ⟨hloop, hpending, hnew⟩ := arrive_spec harrive
  intro hrun fd hfd hback
  rw [hloop] at hrun hfd ⊢
  rcases hnew fd hback with hold | hin
  · exact (h hrun fd hfd hold).imp_left fun hmem => hpending hmem
  · exact Or.inl hin

theorem Kernel.pending_subset_link (k : Kernel) (loop : State) (c : Conn) (linkage_fd : Int) :
    k.pending ⊆ (k.link loop c linkage_fd).pending := by
  unfold link
  split
  · exact Finset.subset_insert _ _
  · exact Finset.Subset.refl _

/-- Accepting the only queued connection, or with a notification pending again. -/
theorem Armed.link (h : Armed k) (hrun : k.loop.running = true) (hexact : Exact k.loop)
    {rest : List Int} (hevs : k.loop.evs = k.loop.listening_fd :: rest)
    (hok : k.queued.length ≤ 1 ∨ k.loop.listening_fd ∈ k.pending) {linkage_fd : Int}
    (hfresh : linkage_fd ∉ k.loop.opened) (c : Conn) {loop : State}
    (hlisten : loop.listening_fd = k.loop.listening_fd) (hrest : loop.evs = rest)
    (hreg : loop.registered = k.loop.registered ++ [linkage_fd]) :
    Armed (k.link loop c linkage_fd) := by
  have hsub := k.pending_subset_link loop c linkage_fd
  have hlmem : k.loop.listening_fd ∈ k.loop.registered :=
    hexact.evs_registered _ (hevs ▸ List.mem_cons_self)
  intro _ fd hfd hback
  rcases List.mem_append.mp (hreg ▸ hfd : fd ∈ k.loop.registered ++ [linkage_fd]) with hold | hnew
  · have hne : fd ≠ linkage_fd := fun heq => hfresh (heq ▸ hexact.opened fd hold)
    by_cases hl : fd = loop.listening_fd
    · -- the listening descriptor: what is left in the queue
      subst hl
      have htail : k.queued.tail ≠ [] := backlog_listening.mp hback
      rcases hok with hone | hmem
      · exact absurd (List.length_eq_zero_iff.mp (by rw [List.length_tail]; omega)) htail
      · exact Or.inl (hsub (hlisten ▸ hmem))
    · -- a connection accepted before
      have hunread : 0 < (Function.update k.conn linkage_fd c fd).unread :=
        (backlog_conn (k := k.link loop c linkage_fd) hl).mp hback
      rw [Function.update_of_ne hne] at hunread
      rw [hlisten] at hl
      rcases h hrun fd hold ((backlog_conn hl).mpr hunread) with hpend | hev
      · exact Or.inl (hsub hpend)
      · rw [hevs] at hev
        exact Or.inr (hrest ▸ List.mem_of_ne_of_mem hl hev)
  · -- the connection that was accepted
    obtain rfl := List.mem_singleton.mp hnew
    have hl : fd ≠ loop.listening_fd := by
      intro heq
      subst heq
      exact hfresh (hlisten ▸ hexact.opened _ hlmem)
    have hunread : 0 < (Function.update k.conn fd c fd).unread :=
      (backlog_conn (k := k.link loop c fd) hl).mp hback
    rw [Function.update_self] at hunread
    left
    simp [Kernel.link, hunread]

/-- Closing a connection. -/
theorem Armed.drop (h : Armed k) (hrun : k.loop.running = true) (hexact : Exact k.loop) {fd : Int}
    {rest : List Int} (hevs : k.loop.evs = fd :: rest)
    (hloop : k'.loop = ({ k.loop with evs := rest } : State).hangUp fd)
    (hpending : k'.pending = k.pending.erase fd)
    (hback : ∀ e, e ≠ fd → k'.Backlog e → k.Backlog e) : Armed k' := by
  intro _ e he hb
  rw [hloop, State.hangUp_registered] at he
  obtain ⟨hne, hmem⟩ := hexact.nodup.mem_erase_iff.mp he
  rcases h hrun e hmem (hback e hne hb) with hpend | hev
  · exact Or.inl (hpending ▸ Finset.mem_erase.mpr ⟨hne, hpend⟩)
  · rw [hevs] at hev
    exact Or.inr (hloop ▸ List.mem_of_ne_of_mem hne hev)

/-- Reading all there is, or with a notification pending again. -/
theorem Armed.take (h : Armed k) (hrun : k.loop.running = true) {fd : Int} {rest : List Int}
    (hevs : k.loop.evs = fd :: rest) (hfd : fd ≠ k.loop.listening_fd)
    (hok : (k.conn fd).unread ≤ 50 ∨ fd ∈ k.pending) {loop : State}
    (hlisten : loop.listening_fd = k.loop.listening_fd) (hrest : loop.evs = rest)
    (hreg : loop.registered = k.loop.registered) :
    Armed { k with loop
                   conn := Function.update k.conn fd { k.conn fd with
                     unread := (k.conn fd).unread - min 50 (k.conn fd).unread } } := by
  intro _ e he hb
  by_cases heq : e = fd
  · subst heq
    left
    have hunread := (backlog_conn (k := { k with loop, conn := _ }) (hlisten ▸ hfd)).mp hb
    simp only [Function.update_self] at hunread
    exact hok.resolve_left (by omega)
  · have hback : k.Backlog e := hb.congr hlisten rfl (Function.update_of_ne heq _ _)
    rcases h hrun e (hreg ▸ he) hback with hpend | hev
    · exact Or.inl hpend
    · rw [hevs] at hev
      exact Or.inr (hrest ▸ List.mem_of_ne_of_mem heq hev)

/-- A step of the server whose handler takes everything keeps all input notified. -/
theorem Armed.server (h : Armed k) (hexact : Exact k.loop) {l : Label} (hok : Drains k (.server l))
    {loop : State} (hstep : step k.loop l = some loop) (hserve : k.serve loop l = some k') :
    Armed k' := by
  obtain ⟨hrun, hsteps⟩ := steps_of_step hstep
  cases hsteps with
  | @wait evs hevs hreport =>
    simp only [Kernel.serve, Option.ite_none_right_eq_some, Option.some.injEq] at hserve
    obtain ⟨-, rfl⟩ := hserve
    intro _ fd hfd hback
    have harmed := h hrun fd hfd hback
    rw [hevs] at harmed
    by_cases hin : fd ∈ evs
    · -- its notification is cleared, but its event is still to be handled
      exact Or.inr hin
    · left
      have hpending : fd ∈ k.pending := harmed.resolve_right (List.not_mem_nil)
      simpa [hin] using hpending
  -- after these failures the server does not run any more
  | waitFails _ =>
    obtain rfl := Option.some.inj hserve
    intro hrun'
    cases hrun'
  | acceptFails _ _ =>
    obtain rfl := Option.some.inj hserve
    intro hrun'
    cases hrun'
  | addFails _ _ _ _ =>
    obtain ⟨c, -, rfl⟩ := Option.map_eq_some_iff.mp hserve
    intro hrun'
    cases hrun'
  | @accept fd linkage_fd rest hevs hacc hnonneg hfresh =>
    obtain ⟨c, -, rfl⟩ := Option.map_eq_some_iff.mp hserve
    exact h.link hrun hexact (hacc.1 ▸ hevs) hok hfresh c rfl rfl rfl
  | @hangUp fd rest received stack hevs hacc hread hstack hempty =>
    rw [serve_read hevs] at hserve
    cases received with
    | none =>
      obtain rfl := Option.some.inj hserve
      exact h.drop hrun hexact hevs rfl rfl fun e _ hb => hb
    | some bytes =>
      obtain rfl := hempty bytes rfl
      obtain ⟨-, rfl⟩ := deliver_some hserve
      exact h.drop hrun hexact hevs rfl rfl fun e hne hb =>
        hb.congr rfl rfl (Function.update_of_ne hne _ _)
  | @answer fd rest bytes stack answer hevs hacc hread hstack hne hanswer =>
    rw [serve_read hevs] at hserve
    obtain ⟨hlen, rfl⟩ := deliver_some hserve
    have hpos : ¬ bytes.length = 0 := by simpa using hne
    rw [if_neg hpos, hlen]
    exact h.take hrun hevs hread.1 (hok fd (by rw [hevs]; rfl)) rfl rfl rfl

/-! ### No input is stranded -/

/-- In every run whose handlers take all there is, or find their descriptor notified again, no
    input waits without a notification while the server is about to call `epoll_wait`. -/
theorem none_stranded {tr : List (Kernel × Event)} (h : kernel.Run tr k) (hok : Along Drains tr)
    (hrun : k.loop.running = true) (hwait : k.loop.evs = []) :
    ∀ fd ∈ k.loop.registered, k.Backlog fd → fd ∈ k.pending := by
  have hinv : Exact k.loop ∧ Armed k := by
    refine h.invariant (I := fun k => Exact k.loop ∧ Armed k) ?_ ?_ hok
    · intro k hk
      obtain ⟨listening_fd, others, queued, -, rfl⟩ := hk
      exact ⟨exact_start listening_fd others, armed_start listening_fd others queued⟩
    · intro k e k' ⟨hexact, harmed⟩ hdrains (hstep : kstep k e = some k')
      cases e with
      | arrival a => exact ⟨(arrive_spec hstep).1 ▸ hexact, harmed.arrival hstep⟩
      | server l =>
        obtain ⟨loop, hloop, hserve⟩ := Option.bind_eq_some_iff.mp hstep
        exact ⟨(serve_loop hserve).symm ▸ hexact.step hloop,
          harmed.server hexact hdrains hloop hserve⟩
  intro fd hfd hback
  have harmed := hinv.2 hrun fd hfd hback
  rw [hwait] at harmed
  exact harmed.resolve_right List.not_mem_nil

/-- A connection on which ten bytes arrived already is accepted. -/
theorem none_stranded_one : ∃ k,
    System.replay kstep (.start 3 ∅ [{ unread := 10, hungUp := false }])
      [.server (.wait [3]), .server (.accept 5)] = some k ∧ k.Backlog 5 ∧ 5 ∈ k.pending := by
  let c : Conn := { unread := 10, hungUp := false }
  let k₀ := Kernel.start 3 ∅ [c]
  let k₁ : Kernel := { k₀ with loop := k₀.loop.report [3], pending := k₀.pending \ [3].toFinset }
  let k₂ := k₁.link ((({ k₁.loop with evs := [] } : State).acceptOk 5).addOk 5) c 5
  have hstart : kernel.Run [] k₀ := .start ⟨3, ∅, [c], by decide, rfl⟩
  have hwait : kstep k₀ (.server (.wait [3])) = some k₁ := rfl
  have haccept : kstep k₁ (.server (.accept 5)) = some k₂ := rfl
  have hok : Along Drains ([] ++ [(k₀, .server (.wait [3]))] ++ [(k₁, .server (.accept 5))]) :=
    along_snoc.mpr ⟨along_snoc.mpr ⟨along_nil _, trivial⟩, Or.inl (by decide)⟩
  exact ⟨k₂, rfl, by decide, none_stranded ((hstart.next hwait).next haccept) hok rfl rfl 5
    (by decide) (by decide)⟩

/-- A handler that does not take all there is, on a descriptor that is not notified again, leaves
    input behind that no event of the batch and no notification leads the server to. -/
theorem left_behind (h : kernel.Reachable k) {e : Event} (hstep : kstep k e = some k')
    (hbad : ¬ Drains k e) : ∃ fd ∈ k'.loop.registered, k'.Backlog fd ∧ fd ∉ k'.pending ∧
      fd ∉ k'.loop.evs := by
  have hexact := exact_of_reachable (reachable_loop h)
  cases e with
  | arrival a => exact absurd trivial hbad
  | server l =>
    obtain ⟨loop, hloop, hserve⟩ := Option.bind_eq_some_iff.mp hstep
    obtain ⟨-, hsteps⟩ := steps_of_step hloop
    cases hsteps with
    | wait _ _ => exact absurd trivial hbad
    | waitFails _ => exact absurd trivial hbad
    | acceptFails _ _ => exact absurd trivial hbad
    | addFails _ _ _ _ => exact absurd trivial hbad
    | @accept fd linkage_fd rest hevs hacc hnonneg hfresh =>
      -- one connection was accepted, and another one is queued
      obtain ⟨c, -, rfl⟩ := Option.map_eq_some_iff.mp hserve
      obtain ⟨hmany, hpend⟩ := not_or.mp hbad
      obtain ⟨-, hreg, hnotin⟩ := hexact.tail hevs
      obtain rfl := hacc.1
      have hne : k.loop.listening_fd ≠ linkage_fd := fun heq =>
        hfresh (heq ▸ hexact.opened _ hreg)
      refine ⟨k.loop.listening_fd, List.mem_append_left _ hreg, backlog_listening.mpr ?_, ?_,
        hnotin⟩
      · intro hnil
        have hlen : k.queued.tail.length = 0 := congrArg List.length hnil
        rw [List.length_tail] at hlen
        omega
      · show k.loop.listening_fd ∉
          if 0 < c.unread ∨ c.hungUp then insert linkage_fd k.pending else k.pending
        split
        · simp [hne, hpend]
        · exact hpend
    | @hangUp fd rest received stack hevs hacc hread hstack hempty =>
      cases received with
      | none => exact absurd trivial hbad
      | some bytes =>
        obtain rfl := hempty bytes rfl
        rw [serve_read hevs] at hserve
        -- nothing was read because there was nothing to read
        have hnone : 0 = min 50 (k.conn fd).unread := (deliver_some hserve).1
        refine absurd (fun e he => ?_) hbad
        rw [hevs] at he
        obtain rfl := Option.some.inj he
        exact Or.inl (by omega)
    | @answer fd rest bytes stack answer hevs hacc hread hstack hne hanswer =>
      rw [serve_read hevs] at hserve
      obtain ⟨hlen, rfl⟩ := deliver_some hserve
      have hpos : ¬ bytes.length = 0 := by simpa using hne
      rw [if_neg hpos]
      obtain ⟨-, hreg, hnotin⟩ := hexact.tail hevs
      have hover : ¬ ((k.conn fd).unread ≤ 50 ∨ fd ∈ k.pending) := by
        refine fun hor => hbad fun e he => ?_
        rw [hevs] at he
        obtain rfl := Option.some.inj he
        exact hor
      -- 50 bytes were read, and there were more
      obtain ⟨hmany, hpend⟩ := not_or.mp hover
      refine ⟨fd, hreg, ?_, hpend, hnotin⟩
      rw [backlog_conn]
      · simp only [Function.update_self]
        omega
      · exact hread.1

/-- Two connections arrive before the server looks: it accepts one, and waits in `epoll_wait` with
    the other one queued and nothing to wake it up. -/
theorem connection_stranded : ∃ k, kernel.Reachable k ∧ k.loop.running = true ∧ k.loop.evs = [] ∧
    3 ∈ k.loop.registered ∧ k.Backlog 3 ∧ 3 ∉ k.pending := by
  have hstart : kernel.Reachable (.start 3 ∅ []) := ⟨[], .start ⟨3, ∅, [], by decide, rfl⟩⟩
  exact ⟨_, System.replay_reachable hstart [.arrival .connect, .arrival .connect,
    .server (.wait [3]), .server (.accept 5)] rfl, rfl, rfl, by decide, by decide, by decide⟩

end Echo
