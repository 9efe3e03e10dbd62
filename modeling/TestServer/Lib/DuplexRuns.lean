import TestServer.Lib.Duplex

/-! # How two processes at the ends of a connection get on

    * `length_le`: there are finitely many steps.
    * `closed_or_waits`: when no step is left, both processes have closed their
      ends, unless each of them waits in its `write`, or one gave up.
    * `both_write`: two processes that write first and write too much do wait.
    * `read_some`: what a `read` returns.
    * `gaveUp_cases`, `gives_up_on_bytes`: when a process gives up.
-/

open LTS

namespace Duplex

variable {α : Type*} {P : Side → Script α} {cap low : Side → Nat} {s s' : State α}

/-! ### How long a run is -/

/-- How many calls are left from a phase on. -/
def Script.calls (P : Script α) : Phase → Nat
  | .write => if P.readsFirst then 2 else 3
  | .read => if P.readsFirst then 3 else 2
  | .close => 1
  | .closed => 0
  | .gaveUp => 0

theorem Script.calls_next_write (P : Script α) : P.calls (P.next .write) < P.calls .write := by
  cases h : P.readsFirst <;> simp [next, calls, h]

theorem Script.calls_next_read (P : Script α) : P.calls (P.next .read) < P.calls .read := by
  cases h : P.readsFirst <;> simp [next, calls, h]

theorem Script.calls_afterFailure (P : Script α) (p : Phase) :
    P.calls (P.afterFailure p) ≤ P.calls (P.next p) := by
  unfold afterFailure
  split
  · exact Nat.zero_le _
  · exact le_refl _

/-- The bytes and calls a process has in front of it. -/
def Endpoint.todo (P : Script α) (e : Endpoint α) : Nat :=
  (P.message.length - e.put) + P.calls e.phase

theorem Endpoint.todo_afterRead {P : Script α} {e : Endpoint α} (h : e.phase = .read)
    (answer : Option (List α)) : (e.afterRead P answer).todo P < e.todo P := by
  have hnext := P.calls_next_read
  have hfail := P.calls_afterFailure .read
  simp only [todo, afterRead, h]
  split <;> omega

/-- The bytes and calls the two have in front of them. -/
def State.todo (P : Side → Script α) (s : State α) : Nat :=
  (s.ends .left).todo (P .left) + (s.ends .right).todo (P .right)

theorem State.todo_lt {x : Side} {e : Endpoint α} (hx : s'.ends x = e)
    (hother : s'.ends x.other = s.ends x.other) (hless : e.todo (P x) < (s.ends x).todo (P x)) :
    s'.todo P < s.todo P := by
  subst hx
  unfold State.todo
  cases x with
  | left =>
    simp only [Side.other] at hother
    rw [hother]
    omega
  | right =>
    simp only [Side.other] at hother
    rw [hother]
    omega

/-- Every step is a step forward. -/
theorem State.todo_step {l : Side × Action} (hstep : Duplex.step P cap s l = some s') :
    s'.todo P < s.todo P := by
  obtain ⟨x, a⟩ := l
  cases a with
  | put k =>
    obtain ⟨⟨hphase, hpos, hle, -⟩, hs⟩ := Option.ite_none_right_eq_some.mp hstep
    obtain rfl := Option.some.inj hs
    refine State.todo_lt (x := x) (e := (s.ends x).afterPut (P x) k) (by simp) (by simp) ?_
    have hnext := (P x).calls_next_write
    simp only [Endpoint.todo, Endpoint.afterPut, hphase]
    split <;> omega
  | epipe =>
    obtain ⟨⟨hphase, -⟩, hs⟩ := Option.ite_none_right_eq_some.mp hstep
    obtain rfl := Option.some.inj hs
    refine State.todo_lt (x := x) (e := (s.ends x).afterEpipe (P x)) (by simp) (by simp) ?_
    have hnext := (P x).calls_next_write
    have hfail := (P x).calls_afterFailure .write
    simp only [Endpoint.todo, Endpoint.afterEpipe, hphase]
    split <;> omega
  | take k =>
    obtain ⟨⟨hphase, -⟩, hs⟩ := Option.ite_none_right_eq_some.mp hstep
    obtain rfl := Option.some.inj hs
    refine State.todo_lt (x := x) ?_ (by simp)
      (Endpoint.todo_afterRead hphase (some ((s.wire x.other).take k)))
    simp
  | eof =>
    obtain ⟨⟨hphase, -⟩, hs⟩ := Option.ite_none_right_eq_some.mp hstep
    obtain rfl := Option.some.inj hs
    refine State.todo_lt (x := x) ?_ (by simp) (Endpoint.todo_afterRead hphase (some []))
    simp
  | reset =>
    obtain ⟨⟨hphase, -⟩, hs⟩ := Option.ite_none_right_eq_some.mp hstep
    obtain rfl := Option.some.inj hs
    refine State.todo_lt (x := x) ?_ (by simp) (Endpoint.todo_afterRead hphase none)
    simp
  | close =>
    obtain ⟨hphase, hs⟩ := Option.ite_none_right_eq_some.mp hstep
    obtain rfl := Option.some.inj hs
    refine State.todo_lt (x := x) (e := { s.ends x with phase := .closed }) (by simp)
      (by simp) ?_
    simp only [Endpoint.todo, hphase, Script.calls]
    omega

/-- A run has no more steps than there are bytes and calls. -/
theorem length_le {tr : List (State α × (Side × Action))} (h : (session P cap).Run tr s) :
    tr.length ≤ (P .left).message.length + (P .right).message.length + 6 := by
  have hwork : work (fun _ => True) tr + s.todo P
      ≤ (P .left).message.length + (P .right).message.length + 6 := by
    apply h.work_le
    · intro s hs
      subst hs
      have hcalls : ∀ x, (P x).calls (P x).first = 3 := by
        intro x
        cases hfirst : (P x).readsFirst <;> simp [Script.first, Script.calls, hfirst]
      simp only [State.todo, Endpoint.todo, State.start, hcalls]
      omega
    · intro s l s' _ (hstep : Duplex.step P cap s l = some s')
      have hless := State.todo_step hstep
      rw [if_pos trivial]
      omega
  have hall : work (fun _ => True) tr = tr.length := by simp [work]
  omega

/-! ### How a run ends -/

/-- No process is sure of a step, where `low x` bytes of `x` have room in the connection for
    sure. -/
abbrev Stuck (P : Side → Script α) (low : Side → Nat) : State α → Prop :=
  (session P low).AtRest fun _ => True

/-- Processes that have closed their ends make no step. -/
theorem stuck_of_closed (h : ∀ x, (s.ends x).phase = .closed) : Stuck P low s := by
  intro l s' _ hstep
  obtain ⟨x, a⟩ := l
  have hstep : Duplex.step P low s (x, a) = some s' := hstep
  cases a with
  | _ => simp [Duplex.step, h x] at hstep

/-- The process gave up on bytes that it does not accept. -/
def Endpoint.Rejected (P : Script α) (e : Endpoint α) : Prop :=
  e.phase = .gaveUp ∧ ∃ bytes, e.got = some (some bytes) ∧ P.accepts bytes = false

/-- A process gives up only on bytes that it does not accept. -/
theorem SideInv.rejected {P : Script α} {cap : Nat} {e o : Endpoint α} {out : List α}
    (h : SideInv P cap e o out) (hgaveUp : e.phase = .gaveUp) : e.Rejected P := by
  obtain ⟨-, answer, hgot, hrefuses⟩ := h.gaveUp hgaveUp
  cases answer with
  | none => exact absurd hgot h.failed
  | some bytes =>
    have hne := (h.answer bytes hgot).1
    exact ⟨hgaveUp, bytes, hgot, by simpa [Script.refuses, hne] using hrefuses⟩

/-- A process that is not sure of a step has closed its end or given up, or waits in one of its
    calls for the other one. -/
theorem State.Inv.waits (h : s.Inv P cap) (hroom : ∀ x, 1 ≤ (P x).room)
    (hstuck : Stuck P low s) (x : Side) :
    (s.ends x).phase = .closed ∨ (s.ends x).Rejected (P x) ∨
    ((s.ends x).phase = .write ∧ (s.ends x.other).phase ≠ .closed ∧
      low x ≤ (s.wire x).length) ∨
    ((s.ends x).phase = .read ∧ (s.ends x.other).phase ≠ .closed ∧ s.wire x.other = []) := by
  have hno : ∀ a s', Duplex.step P low s (x, a) ≠ some s' :=
    fun a s' hs => hstuck (x, a) s' trivial hs
  cases hphase : (s.ends x).phase with
  | write =>
    refine Or.inr (Or.inr (Or.inl ⟨rfl, fun hclosed => ?_, ?_⟩))
    · exact hno .epipe _ (if_pos ⟨hphase, hclosed⟩)
    · by_contra hroom
      have hless := (h x).writing hphase
      exact hno (.put 1) _ (if_pos ⟨hphase, le_refl 1, by omega, by omega⟩)
  | read =>
    refine Or.inr (Or.inr (Or.inr ⟨rfl, fun hclosed => ?_, ?_⟩))
    · by_cases hnil : (s.wire x.other).length = 0
      · exact hno .eof _ (if_pos ⟨hphase, hclosed, hnil⟩)
      · exact hno (.take 1) _ (if_pos ⟨hphase, le_refl 1, hroom x, by omega⟩)
    · by_contra hne
      have hpos := List.length_pos_iff.mpr hne
      exact hno (.take 1) _ (if_pos ⟨hphase, le_refl 1, hroom x, hpos⟩)
  | close => exact absurd (if_pos hphase) (hno .close _)
  | closed => exact Or.inl rfl
  | gaveUp => exact Or.inr (Or.inl ((h x).rejected hphase))

/-- A process in its `read` that has written all finds the other one writing. -/
theorem State.Inv.not_both_read (h : s.Inv P cap) (hmessage : ∀ x, (P x).message ≠ []) {x : Side}
    (hfirst : (P x).readsFirst = false) (hread : (s.ends x).phase = .read)
    (hother : (s.ends x.other).phase = .read) : s.wire x ≠ [] := by
  have hopen : (s.ends x.other).phase ≠ .closed := by simp [hother]
  have hall := ((h x).sent (Or.inr (Or.inr ⟨hread, hfirst⟩))).resolve_right hopen
  have hstream := (h x).stream
  rw [Endpoint.taken_of_none ((h x.other).fresh (Or.inl hother)), List.nil_append, hall,
    List.take_length] at hstream
  rw [hstream]
  exact hmessage x

/-- When no step is left that a process is sure of, both have closed their ends, or one gave up on
    the bytes it read, or both wait in `write` before more bytes than there is room for. -/
theorem closed_or_waits (hmessage : ∀ x, (P x).message ≠ []) (hroom : ∀ x, 1 ≤ (P x).room)
    (hlow : ∀ x, 1 ≤ low x) (hfirst : ∃ x, (P x).readsFirst = false)
    (h : (session P cap).Reachable s) (hstuck : Stuck P low s) :
    (∀ x, (s.ends x).phase = .closed) ∨ (∃ x, (s.ends x).Rejected (P x)) ∨
    ∀ x, (s.ends x).phase = .write ∧ low x < (P x).message.length := by
  have hinv := State.inv_of_reachable hmessage h
  obtain ⟨x, hx⟩ := hfirst
  have both : ∀ {p : Side → Prop}, p x → p x.other → ∀ y, p y := by
    intro p hpx hpo y
    rcases x.eq_or y with rfl | rfl
    · exact hpx
    · exact hpo
  -- a writer that waits has more bytes than there is room for
  have hmore : ∀ y, (s.ends y).phase = .write → low y ≤ (s.wire y).length →
      low y < (P y).message.length := by
    intro y hwrite hfull
    have hless := (hinv y).writing hwrite
    have hlen := congrArg List.length (hinv y).stream
    rw [List.length_append, List.length_take] at hlen
    omega
  have hother := hinv.waits hroom hstuck x.other
  rw [Side.other_other] at hother
  rcases hinv.waits hroom hstuck x with hcx | hrejected | ⟨hwx, hox, hfx⟩ | ⟨hrx, hox, hnx⟩
  · rcases hother with hco | hrejected | ⟨-, hoo, -⟩ | ⟨-, hoo, -⟩
    · exact Or.inl (both hcx hco)
    · exact Or.inr (Or.inl ⟨_, hrejected⟩)
    · exact absurd hcx hoo
    · exact absurd hcx hoo
  · exact Or.inr (Or.inl ⟨_, hrejected⟩)
  · rcases hother with hco | hrejected | ⟨hwo, hoo, hfo⟩ | ⟨hro, hoo, hno⟩
    · exact absurd hco hox
    · exact Or.inr (Or.inl ⟨_, hrejected⟩)
    · exact Or.inr (Or.inr (both ⟨hwx, hmore x hwx hfx⟩ ⟨hwo, hmore x.other hwo hfo⟩))
    · -- the other one waits for bytes, and there are some
      have := hlow x
      rw [hno, List.length_nil] at hfx
      omega
  · rcases hother with hco | hrejected | ⟨hwo, hoo, hfo⟩ | ⟨hro, hoo, hno⟩
    · exact absurd hco hox
    · exact Or.inr (Or.inl ⟨_, hrejected⟩)
    · have := hlow x.other
      rw [hnx, List.length_nil] at hfo
      omega
    · exact absurd hno (hinv.not_both_read hmessage hx hrx hro)

/-- Two processes that write first, and more than the connection holds, never get any further. -/
theorem both_write (hmessage : ∀ x, (P x).message ≠ []) (hfirst : ∀ x, (P x).readsFirst = false)
    (hmore : ∀ x, cap x < (P x).message.length) (h : (session P cap).Reachable s) (x : Side) :
    (s.ends x).phase = .write := by
  have hboth : s.Inv P cap ∧ ∀ x, (s.ends x).phase = .write := by
    apply h.invariant (I := fun s => s.Inv P cap ∧ ∀ x, (s.ends x).phase = .write)
    · intro s hs
      subst hs
      refine ⟨State.inv_of_reachable hmessage ⟨[], .start rfl⟩, ?_⟩
      intro x
      simp [State.start, Script.first, hfirst x]
    · intro s l s' hboth (hstep : Duplex.step P cap s l = some s')
      obtain ⟨hinv, hwrite⟩ := hboth
      refine ⟨hinv.step hmessage hstep, ?_⟩
      obtain ⟨x, a⟩ := l
      cases a with
      | put k =>
        obtain ⟨⟨-, -, -, hroom⟩, hs⟩ := Option.ite_none_right_eq_some.mp hstep
        obtain rfl := Option.some.inj hs
        -- all that was written is under way, so it is not the whole message
        have hnone := (hinv x.other).fresh (Or.inr ⟨hwrite x.other, hfirst x.other⟩)
        have hlen := congrArg List.length (hinv x).stream
        rw [Endpoint.taken_of_none hnone, List.nil_append, List.length_take] at hlen
        have hput := (hinv x).put_le
        have hcapx := hmore x
        have hne : (s.ends x).put + k ≠ (P x).message.length := by omega
        intro z
        rcases x.eq_or z with rfl | rfl
        · simp [Endpoint.afterPut, hne]
        · simpa using hwrite x.other
      | epipe =>
        obtain ⟨⟨-, hclosed⟩, -⟩ := Option.ite_none_right_eq_some.mp hstep
        rw [hwrite] at hclosed
        cases hclosed
      | take k =>
        obtain ⟨⟨hread, -⟩, -⟩ := Option.ite_none_right_eq_some.mp hstep
        rw [hwrite] at hread
        cases hread
      | eof =>
        obtain ⟨⟨hread, -⟩, -⟩ := Option.ite_none_right_eq_some.mp hstep
        rw [hwrite] at hread
        cases hread
      | reset =>
        obtain ⟨⟨hread, -⟩, -⟩ := Option.ite_none_right_eq_some.mp hstep
        rw [hwrite] at hread
        cases hread
      | close =>
        obtain ⟨hclose, -⟩ := Option.ite_none_right_eq_some.mp hstep
        rw [hwrite] at hclose
        cases hclose
  exact hboth.2 x

/-! ### What is read -/

/-- A `read` returns the beginning of the other message. -/
theorem read_some (hmessage : ∀ x, (P x).message ≠ []) (h : (session P cap).Reachable s) {x : Side}
    {answer : Option (List α)} (hgot : (s.ends x).got = some answer) :
    ∃ bytes, answer = some bytes ∧ bytes ≠ [] ∧ bytes.length ≤ (P x).room ∧
      bytes.length ≤ cap x.other ∧ bytes <+: (P x.other).message := by
  have hinv := State.inv_of_reachable hmessage h
  have hother := hinv x.other
  rw [Side.other_other] at hother
  cases answer with
  | none => exact absurd hgot (hinv x).failed
  | some bytes =>
    obtain ⟨hne, hlen⟩ := (hinv x).answer bytes hgot
    have htaken : (s.ends x).taken = bytes := by rw [Endpoint.taken, hgot]
    have hfits := hother.taken_le
    have hstream := hother.stream
    rw [htaken] at hfits hstream
    exact ⟨bytes, rfl, hne, hlen, hfits,
      (hstream ▸ List.prefix_append bytes _).trans (List.take_prefix _ _)⟩

/-! ### Processes that give up -/

/-- A process gave up on bytes that the other message begins with. -/
theorem gaveUp_cases (hmessage : ∀ x, (P x).message ≠ []) (h : (session P cap).Reachable s)
    {x : Side} (hgaveUp : (s.ends x).phase = .gaveUp) :
    ∃ bytes, bytes ≠ [] ∧ bytes <+: (P x.other).message ∧ bytes.length ≤ (P x).room ∧
      bytes.length ≤ cap x.other ∧ (P x).accepts bytes = false := by
  have hinv := State.inv_of_reachable hmessage h
  obtain ⟨-, answer, hgot, hno⟩ := (hinv x).rejected hgaveUp
  obtain ⟨bytes, hanswer, hne, hlen, hfits, hpre⟩ := read_some hmessage h hgot
  obtain rfl := Option.some.inj hanswer
  exact ⟨_, hne, hpre, hlen, hfits, hno⟩

/-- A process that reads first gives up on bytes it does not accept, if these come first. -/
theorem gives_up_on_bytes {x : Side} (hfirst : (P x).readsFirst = true)
    (hother : (P x.other).readsFirst = false) (hchecks : (P x).checks = true) {bytes : List α}
    (hne : bytes ≠ []) (hpre : bytes <+: (P x.other).message) (hlen : bytes.length ≤ (P x).room)
    (hfits : bytes.length ≤ cap x.other) (hrejects : (P x).accepts bytes = false) :
    ∃ s, (session P cap).Reachable s ∧ (s.ends x).phase = .gaveUp := by
  have hstart : (session P cap).Reachable (.start P) := ⟨[], .start rfl⟩
  have hpos := List.length_pos_iff.mpr hne
  have hwrite : ((State.start P).ends x.other).phase = .write := by
    simp [State.start, Script.first, hother]
  -- the other one writes these bytes
  have hput : Duplex.step P cap (.start P) (x.other, .put bytes.length) = some _ :=
    if_pos ⟨hwrite, hpos, by
      show 0 + bytes.length ≤ _
      have := hpre.length_le
      omega, by
      show 0 + bytes.length ≤ _
      omega⟩
  let s₁ := ((State.start P).setEnd x.other
    (((State.start P).ends x.other).afterPut (P x.other) bytes.length)).setWire x.other
      ([] ++ ((P x.other).message.drop 0).take bytes.length)
  have hwire : s₁.wire x.other = bytes := by
    simp only [s₁, State.setWire_self, List.nil_append, List.drop_zero]
    exact (List.prefix_iff_eq_take.mp hpre).symm
  have hread : (s₁.ends x).phase = .read := by
    simp [s₁, State.start, Script.first, hfirst]
  have htake : Duplex.step P cap s₁ (x, .take bytes.length) = some _ :=
    if_pos ⟨hread, hpos, hlen, by rw [hwire]⟩
  refine ⟨_, (hstart.next hput).next htake, ?_⟩
  simp [Endpoint.afterRead, Script.afterFailure, Script.refuses, hchecks, hwire, hrejects]

end Duplex
