import Mathlib.Logic.Function.Basic
import TestServer.Lib.Progress

/-! # Two processes at the ends of a connection

    Each of the two makes one call of `write`, one of `read` and closes its
    end. The connection holds a bounded number of bytes in each direction. A
    `write` waits until it got rid of all its bytes, a `read` until there is at
    least one. Either process may do its `read` first, and may give up, leaving
    its end open, as soon as a call does not return a positive number.

    * `Script`: what one process does; `step`: a step of one of the two.
    * `State.Inv`: what ties the two processes to the bytes under way.
    * `State.Inv.not_eof`, `State.Inv.put_ne_zero`: what the calls do not find.
-/

open LTS

namespace Duplex

/-! ### The processes -/

/-- One of the two processes. -/
inductive Side where
  | left
  | right
  deriving DecidableEq

/-- The other one. -/
def Side.other : Side → Side
  | left => right
  | right => left

@[simp] theorem Side.other_other (x : Side) : x.other.other = x := by cases x <;> rfl

@[simp] theorem Side.other_ne (x : Side) : x.other ≠ x := by cases x <;> simp [other]

theorem Side.eq_or (x y : Side) : y = x ∨ y = x.other := by
  cases x <;> cases y <;> simp [other]

variable {α : Type*}

/-- What a process does. -/
structure Script (α : Type*) where
  message : List α
  /-- How many bytes `read` asks for. -/
  room : Nat
  readsFirst : Bool
  /-- The process gives up after a call that does not return a positive number, and after a `read`
      of bytes it does not accept. -/
  checks : Bool
  accepts : List α → Bool

/-- Where a process is. -/
inductive Phase where
  | write
  | read
  | close
  | closed
  | gaveUp
  deriving DecidableEq

/-- The first call. -/
def Script.first (P : Script α) : Phase := if P.readsFirst then .read else .write

/-- What comes behind a call. -/
def Script.next (P : Script α) : Phase → Phase
  | .write => if P.readsFirst then .close else .read
  | .read => if P.readsFirst then .write else .close
  | p => p

/-- The process has no use for this answer of `read`; `none` stands for -1. -/
def Script.refuses (P : Script α) : Option (List α) → Bool
  | none => true
  | some bytes => bytes.isEmpty || !P.accepts bytes

/-- What comes behind a call that was of no use. -/
def Script.afterFailure (P : Script α) (p : Phase) : Phase := if P.checks then .gaveUp else P.next p

/-- A process: where it is, how many bytes it has got rid of, and the answer of its `read`. -/
structure Endpoint (α : Type*) where
  phase : Phase
  put : Nat
  /-- `some none` for a `read` that failed. -/
  got : Option (Option (List α))

/-- The two processes, and the bytes each has written and the other one has not read. -/
structure State (α : Type*) where
  ends : Side → Endpoint α
  wire : Side → List α

/-- A step of a process. -/
inductive Action where
  /-- Bytes of the message are taken over by the connection. -/
  | put (k : Nat)
  /-- `write` finds the other end closed. -/
  | epipe
  /-- `read` returns that many bytes. -/
  | take (k : Nat)
  /-- `read` finds the end of the bytes. -/
  | eof
  /-- `read` fails, since the other end was closed in front of bytes it had not read. Bytes that
      are still there for `read` are handed over before that. -/
  | reset
  | close
  deriving DecidableEq

/-- A process after `k` bytes were taken over; `write` returns with the last of them. -/
def Endpoint.afterPut (P : Script α) (e : Endpoint α) (k : Nat) : Endpoint α where
  phase := if e.put + k = P.message.length then P.next .write else .write
  put := e.put + k
  got := e.got

/-- A process after `write` failed; it returns the number of bytes that were taken over, if any. -/
def Endpoint.afterEpipe (P : Script α) (e : Endpoint α) : Endpoint α :=
  { e with phase := if e.put = 0 then P.afterFailure .write else P.next .write }

/-- A process after `read` returned. -/
def Endpoint.afterRead (P : Script α) (e : Endpoint α) (answer : Option (List α)) : Endpoint α :=
  { e with
    phase := if P.refuses answer then P.afterFailure .read else P.next .read
    got := some answer }

/-- The process `x` is now `e`. -/
def State.setEnd (s : State α) (x : Side) (e : Endpoint α) : State α :=
  { s with ends := Function.update s.ends x e }

/-- The bytes under way from `x` are now `bytes`. -/
def State.setWire (s : State α) (x : Side) (bytes : List α) : State α :=
  { s with wire := Function.update s.wire x bytes }

/-- One step; `cap x` bytes of `x` can be under way. -/
def step (P : Side → Script α) (cap : Side → Nat) (s : State α) :
    Side × Action → Option (State α)
  | (x, .put k) =>
    if (s.ends x).phase = .write ∧ 1 ≤ k ∧ (s.ends x).put + k ≤ (P x).message.length ∧
        (s.wire x).length + k ≤ cap x then
      some ((s.setEnd x ((s.ends x).afterPut (P x) k)).setWire x
        (s.wire x ++ ((P x).message.drop (s.ends x).put).take k))
    else none
  | (x, .epipe) =>
    if (s.ends x).phase = .write ∧ (s.ends x.other).phase = .closed then
      some (s.setEnd x ((s.ends x).afterEpipe (P x)))
    else none
  | (x, .take k) =>
    if (s.ends x).phase = .read ∧ 1 ≤ k ∧ k ≤ (P x).room ∧ k ≤ (s.wire x.other).length then
      some ((s.setEnd x ((s.ends x).afterRead (P x) (some ((s.wire x.other).take k)))).setWire
        x.other ((s.wire x.other).drop k))
    else none
  | (x, .eof) =>
    if (s.ends x).phase = .read ∧ (s.ends x.other).phase = .closed ∧
        (s.wire x.other).length = 0 then
      some (s.setEnd x ((s.ends x).afterRead (P x) (some [])))
    else none
  | (x, .reset) =>
    if (s.ends x).phase = .read ∧ (s.ends x.other).phase = .closed ∧
        (s.wire x.other).length = 0 ∧ 0 < (s.wire x).length then
      some (s.setEnd x ((s.ends x).afterRead (P x) none))
    else none
  | (x, .close) =>
    if (s.ends x).phase = .close then some (s.setEnd x { s.ends x with phase := .closed })
    else none

/-- Nothing was written or read. -/
def State.start (P : Side → Script α) : State α where
  ends := fun x => { phase := (P x).first, put := 0, got := none }
  wire := fun _ => []

/-- The two processes, whose steps interleave in any way. -/
def session (P : Side → Script α) (cap : Side → Nat) : System (State α) (Side × Action) :=
  .ofFun (fun s => s = .start P) (step P cap)

/-! ### The state after a step -/

section update

variable (s : State α) (x : Side) (e : Endpoint α) (bytes : List α)

@[simp] theorem State.setEnd_self : (s.setEnd x e).ends x = e := Function.update_self ..

@[simp] theorem State.setEnd_other : (s.setEnd x e).ends x.other = s.ends x.other :=
  Function.update_of_ne x.other_ne ..

@[simp] theorem State.setEnd_of_other : (s.setEnd x.other e).ends x = s.ends x :=
  Function.update_of_ne x.other_ne.symm ..

@[simp] theorem State.setEnd_wire : (s.setEnd x e).wire = s.wire := rfl

@[simp] theorem State.setWire_ends : (s.setWire x bytes).ends = s.ends := rfl

@[simp] theorem State.setWire_self : (s.setWire x bytes).wire x = bytes := Function.update_self ..

@[simp] theorem State.setWire_other : (s.setWire x bytes).wire x.other = s.wire x.other :=
  Function.update_of_ne x.other_ne ..

@[simp] theorem State.setWire_of_other : (s.setWire x.other bytes).wire x = s.wire x :=
  Function.update_of_ne x.other_ne.symm ..

end update

variable {P : Script α}

theorem Script.next_write : P.next .write = if P.readsFirst then .close else .read := rfl

theorem Script.next_read : P.next .read = if P.readsFirst then .write else .close := rfl

/-! ### The invariant -/

/-- The bytes `read` returned. -/
def Endpoint.taken (e : Endpoint α) : List α :=
  match e.got with
  | some (some bytes) => bytes
  | _ => []

theorem Endpoint.taken_of_none {e : Endpoint α} (h : e.got = none) : e.taken = [] := by
  simp [taken, h]

/-- What holds of a process `e` that does `P`, of the bytes under way from it and of the other
    process `o`. -/
structure SideInv (P : Script α) (cap : Nat) (e o : Endpoint α) (out : List α) : Prop where
  stream : o.taken ++ out = P.message.take e.put
  put_le : e.put ≤ P.message.length
  within : out.length ≤ cap
  taken_le : o.taken.length ≤ cap
  writing : e.phase = .write → e.put < P.message.length
  early : e.phase = .read → P.readsFirst = true → e.put = 0
  fresh : e.phase = .read ∨ (e.phase = .write ∧ P.readsFirst = false) → e.got = none
  /-- Behind `write`, the message is written, or the other end is closed. -/
  sent : e.phase = .close ∨ e.phase = .closed ∨ (e.phase = .read ∧ P.readsFirst = false) →
    e.put = P.message.length ∨ o.phase = .closed
  /-- Behind `read`, there is an answer. -/
  read : e.phase = .close ∨ e.phase = .closed ∨ (e.phase = .write ∧ P.readsFirst = true) →
    e.got ≠ none
  gaveUp : e.phase = .gaveUp → P.checks = true ∧ ∃ answer, e.got = some answer ∧ P.refuses answer
  failed : e.got ≠ some none
  answer : ∀ bytes, e.got = some (some bytes) → bytes ≠ [] ∧ bytes.length ≤ P.room

/-- It holds of both. -/
def State.Inv (P : Side → Script α) (cap : Side → Nat) (s : State α) : Prop :=
  ∀ x, SideInv (P x) (cap x) (s.ends x) (s.ends x.other) (s.wire x)

variable {cap : Nat} {e o o' : Endpoint α} {out : List α}

theorem SideInv.start (P Q : Script α) (cap : Nat) (hmessage : P.message ≠ []) :
    SideInv P cap { phase := P.first, put := 0, got := none }
      { phase := Q.first, put := 0, got := none } [] where
  stream := rfl
  put_le := Nat.zero_le _
  within := Nat.zero_le _
  taken_le := Nat.zero_le _
  writing := fun _ => List.length_pos_iff.mpr hmessage
  early := fun _ _ => rfl
  fresh := fun _ => rfl
  sent := by
    intro h
    -- the first call is `write`, or `read` comes first
    cases hfirst : P.readsFirst <;> simp [Script.first, hfirst] at h
  read := by
    intro h
    cases hfirst : P.readsFirst <;> simp [Script.first, hfirst] at h
  gaveUp := by
    intro h
    cases hfirst : P.readsFirst <;> simp [Script.first, hfirst] at h
  failed := by simp
  answer := by simp

/-- What the other process does matters only by the bytes it reads and by its close. -/
theorem SideInv.of_other (h : SideInv P cap e o out) (htaken : o'.taken = o.taken)
    (hclosed : o.phase = .closed → o'.phase = .closed) : SideInv P cap e o' out where
  stream := htaken ▸ h.stream
  put_le := h.put_le
  within := h.within
  taken_le := htaken ▸ h.taken_le
  writing := h.writing
  early := h.early
  fresh := h.fresh
  sent := fun hp => (h.sent hp).imp_right hclosed
  read := h.read
  gaveUp := h.gaveUp
  failed := h.failed
  answer := h.answer

/-- Bytes of the message are taken over. -/
theorem SideInv.put (h : SideInv P cap e o out) {k : Nat} (hphase : e.phase = .write)
    (hle : e.put + k ≤ P.message.length) (hroom : out.length + k ≤ cap) :
    SideInv P cap (e.afterPut P k) o (out ++ (P.message.drop e.put).take k) := by
  have hphase' : (e.afterPut P k).phase
      = if e.put + k = P.message.length then P.next .write else .write := rfl
  have hput : (e.afterPut P k).put = e.put + k := rfl
  constructor
  case stream => rw [← List.append_assoc, h.stream, hput, List.take_add]
  case put_le => exact hle
  case within =>
    rw [List.length_append, List.length_take]
    omega
  case taken_le => exact h.taken_le
  case writing =>
    intro hw
    rw [hphase'] at hw
    split at hw
    · rw [Script.next_write] at hw
      split at hw <;> cases hw
    · next hne => exact lt_of_le_of_ne hle hne
  case early =>
    intro hr hfirst
    rw [hphase', Script.next_write, hfirst] at hr
    split at hr <;> cases hr
  case fresh =>
    intro hor
    rw [hphase', Script.next_write] at hor
    -- `read` has not been called if it comes second
    have hsecond : P.readsFirst = false := by
      rcases hor with hr | ⟨-, hfirst⟩
      · split at hr
        · split at hr
          · cases hr
          · next hno => simpa using hno
        · cases hr
      · exact hfirst
    exact h.fresh (Or.inr ⟨hphase, hsecond⟩)
  case sent =>
    intro hor
    rw [hphase'] at hor
    split at hor
    · next hall => exact Or.inl hall
    · simp at hor
  case read =>
    intro hor
    rw [hphase', Script.next_write] at hor
    -- what follows `write` follows `read` as well only if that came first
    have hfirst : P.readsFirst = true := by
      by_contra hno
      rw [if_neg hno] at hor
      rcases hor with hc | hc | ⟨-, hfirst⟩
      · split at hc <;> cases hc
      · split at hc <;> cases hc
      · exact hno hfirst
    exact h.read (Or.inr (Or.inr ⟨hphase, hfirst⟩))
  case gaveUp =>
    intro hg
    rw [hphase', Script.next_write] at hg
    split at hg
    · split at hg <;> cases hg
    · cases hg
  case failed => exact h.failed
  case answer => exact h.answer

/-- The other end is closed behind some bytes. -/
theorem SideInv.epipe (h : SideInv P cap e o out) (hphase : e.phase = .write)
    (hclosed : o.phase = .closed) (hput : e.put ≠ 0) : SideInv P cap (e.afterEpipe P) o out := by
  have hnext : (e.afterEpipe P).phase = if P.readsFirst then .close else .read := if_neg hput
  constructor
  case stream => exact h.stream
  case put_le => exact h.put_le
  case within => exact h.within
  case taken_le => exact h.taken_le
  case writing =>
    intro hw
    rw [hnext] at hw
    split at hw <;> cases hw
  case early =>
    intro hr hfirst
    rw [hnext, hfirst] at hr
    cases hr
  case fresh =>
    intro hor
    have hsecond : P.readsFirst = false := by
      by_contra hfirst
      rw [hnext, if_pos (by simpa using hfirst)] at hor
      simp at hor
    exact h.fresh (Or.inr ⟨hphase, hsecond⟩)
  case sent => exact fun _ => Or.inr hclosed
  case read =>
    intro hor
    have hfirst : P.readsFirst = true := by
      by_contra hno
      rw [hnext, if_neg hno] at hor
      simp at hor
    exact h.read (Or.inr (Or.inr ⟨hphase, hfirst⟩))
  case gaveUp =>
    intro hg
    rw [hnext] at hg
    split at hg <;> cases hg
  case failed => exact h.failed
  case answer => exact h.answer

/-- A process gives up behind its `read`, or goes on. -/
theorem Endpoint.afterRead_cases (P : Script α) (e : Endpoint α) (answer : Option (List α)) :
    ((P.checks = true ∧ P.refuses answer) ∧ (e.afterRead P answer).phase = .gaveUp) ∨
    (¬ (P.checks = true ∧ P.refuses answer) ∧ (e.afterRead P answer).phase = P.next .read) := by
  unfold afterRead Script.afterFailure
  cases P.refuses answer <;> cases P.checks <;> simp

/-- `read` has returned bytes. -/
theorem SideInv.answered (h : SideInv P cap e o out) (hphase : e.phase = .read)
    (hmessage : P.message ≠ []) {bytes : List α} (hne : bytes ≠ []) (hlen : bytes.length ≤ P.room) :
    SideInv P cap (e.afterRead P (some bytes)) o out := by
  have hgot : (e.afterRead P (some bytes)).got = some (some bytes) := rfl
  have hput : (e.afterRead P (some bytes)).put = e.put := rfl
  have hcases := Endpoint.afterRead_cases P e (some bytes)
  generalize e.afterRead P (some bytes) = e' at *
  rw [Script.next_read] at hcases
  have hnotread : e'.phase ≠ .read := by
    intro hr
    rcases hcases with ⟨-, hg⟩ | ⟨-, hn⟩
    · rw [hg] at hr
      cases hr
    · rw [hn] at hr
      split at hr <;> cases hr
  have hwrite : e'.phase = .write → P.readsFirst = true := by
    intro hw
    rcases hcases with ⟨-, hg⟩ | ⟨-, hn⟩
    · rw [hg] at hw
      cases hw
    · rw [hn] at hw
      split at hw
      · assumption
      · cases hw
  constructor
  case stream => rw [hput, h.stream]
  case put_le => exact hput ▸ h.put_le
  case within => exact h.within
  case taken_le => exact h.taken_le
  case writing =>
    intro hw
    rw [hput, h.early hphase (hwrite hw)]
    exact List.length_pos_iff.mpr hmessage
  case early => exact fun hr => absurd hr hnotread
  case fresh =>
    intro hor
    rcases hor with hr | ⟨hw, hfirst⟩
    · exact absurd hr hnotread
    · rw [hwrite hw] at hfirst
      cases hfirst
  case sent =>
    intro hor
    rw [hput]
    rcases hcases with ⟨-, hg⟩ | ⟨-, hn⟩
    · rw [hg] at hor
      simp at hor
    · -- nothing is left to write, as `write` came first
      have hsecond : P.readsFirst = false := by
        by_contra hfirst
        rw [hn, if_pos (by simpa using hfirst)] at hor
        simp at hor
      exact h.sent (Or.inr (Or.inr ⟨hphase, hsecond⟩))
  case read =>
    intro _
    rw [hgot]
    simp
  case gaveUp =>
    intro hg
    rcases hcases with ⟨hgives, -⟩ | ⟨-, hn⟩
    · exact ⟨hgives.1, some bytes, hgot, hgives.2⟩
    · rw [hn] at hg
      split at hg <;> cases hg
  case failed =>
    rw [hgot]
    simp
  case answer =>
    intro bytes' hbytes
    obtain rfl := Option.some.inj (Option.some.inj (hgot.symm.trans hbytes))
    exact ⟨hne, hlen⟩

/-- The bytes at the front are read by the other process. -/
theorem SideInv.taken (h : SideInv P cap e o out) (hnone : o.got = none) (hread : o.phase = .read)
    {k : Nat} (htaken : o'.taken = out.take k) : SideInv P cap e o' (out.drop k) := by
  have hopen : o.phase ≠ .closed := by
    rw [hread]
    simp
  have hstream := h.stream
  rw [Endpoint.taken_of_none hnone, List.nil_append] at hstream
  constructor
  case stream => rw [htaken, List.take_append_drop, hstream]
  case put_le => exact h.put_le
  case within =>
    rw [List.length_drop]
    exact (Nat.sub_le _ _).trans h.within
  case taken_le =>
    rw [htaken]
    exact (List.length_take_le' k out).trans h.within
  case writing => exact h.writing
  case early => exact h.early
  case fresh => exact h.fresh
  case sent => exact fun hp => Or.inl ((h.sent hp).resolve_right hopen)
  case read => exact h.read
  case gaveUp => exact h.gaveUp
  case failed => exact h.failed
  case answer => exact h.answer

/-! ### Runs -/

section runs

variable {P : Side → Script α} {cap : Side → Nat} {s s' : State α}

/-- If something holds of both processes and of the bytes under way from them, it holds of the
    state. -/
theorem State.inv_of {x : Side}
    (hx : SideInv (P x) (cap x) (s.ends x) (s.ends x.other) (s.wire x))
    (hother : SideInv (P x.other) (cap x.other) (s.ends x.other) (s.ends x) (s.wire x.other)) :
    s.Inv P cap := by
  intro z
  rcases x.eq_or z with rfl | rfl
  · exact hx
  · rw [Side.other_other]
    exact hother

/-- No `read` finds the end of the bytes before it got some, or fails. -/
theorem State.Inv.not_eof (h : s.Inv P cap) (hmessage : ∀ x, (P x).message ≠ []) {x : Side}
    (hread : (s.ends x).phase = .read) (hclosed : (s.ends x.other).phase = .closed) :
    (s.wire x.other).length ≠ 0 := by
  have hother := h x.other
  rw [Side.other_other] at hother
  have hopen : (s.ends x).phase ≠ .closed := by simp [hread]
  -- the other process closed its end behind the whole message, and nothing of it was read
  have hall := (hother.sent (Or.inr (Or.inl hclosed))).resolve_right hopen
  have hstream := hother.stream
  rw [Endpoint.taken_of_none ((h x).fresh (Or.inl hread)), List.nil_append, hall,
    List.take_length] at hstream
  rw [hstream]
  exact fun hnil => hmessage x.other (List.length_eq_zero_iff.mp hnil)

/-- A process that has closed its end has read something. -/
theorem State.Inv.taken_ne_nil (h : s.Inv P cap) {x : Side}
    (hclosed : (s.ends x.other).phase = .closed) : (s.ends x.other).taken ≠ [] := by
  have hother := h x.other
  rw [Side.other_other] at hother
  obtain ⟨answer, hanswer⟩ :=
    Option.ne_none_iff_exists'.mp (hother.read (Or.inr (Or.inl hclosed)))
  cases answer with
  | none => exact absurd hanswer hother.failed
  | some bytes =>
    rw [Endpoint.taken, hanswer]
    exact (hother.answer bytes hanswer).1

/-- An end is closed only when bytes of the other one were read. -/
theorem State.Inv.put_ne_zero (h : s.Inv P cap) {x : Side}
    (hclosed : (s.ends x.other).phase = .closed) : (s.ends x).put ≠ 0 := by
  intro hzero
  have hstream := (h x).stream
  rw [hzero, List.take_zero] at hstream
  exact h.taken_ne_nil hclosed (List.append_eq_nil_iff.mp hstream).1

/-- Every step keeps the invariant. -/
theorem State.Inv.step (h : s.Inv P cap) (hmessage : ∀ x, (P x).message ≠ [])
    {l : Side × Action} (hstep : step P cap s l = some s') : s'.Inv P cap := by
  obtain ⟨x, a⟩ := l
  have hx := h x
  have hother := h x.other
  rw [Side.other_other] at hother
  cases a with
  | put k =>
    obtain ⟨⟨hphase, -, hle, hroom⟩, hs⟩ := Option.ite_none_right_eq_some.mp hstep
    obtain rfl := Option.some.inj hs
    refine State.inv_of (x := x) ?_ ?_
    · simpa using hx.put hphase hle hroom
    · have hsame : SideInv (P x.other) (cap x.other) (s.ends x.other)
          ((s.ends x).afterPut (P x) k) (s.wire x.other) :=
        hother.of_other rfl (by simp [hphase])
      simpa using hsame
  | epipe =>
    obtain ⟨⟨hphase, hclosed⟩, hs⟩ := Option.ite_none_right_eq_some.mp hstep
    obtain rfl := Option.some.inj hs
    refine State.inv_of (x := x) ?_ ?_
    · simpa using hx.epipe hphase hclosed (h.put_ne_zero hclosed)
    · have hsame : SideInv (P x.other) (cap x.other) (s.ends x.other)
          ((s.ends x).afterEpipe (P x)) (s.wire x.other) :=
        hother.of_other rfl (by simp [hphase])
      simpa using hsame
  | take k =>
    obtain ⟨⟨hphase, hpos, hroom, hle⟩, hs⟩ := Option.ite_none_right_eq_some.mp hstep
    obtain rfl := Option.some.inj hs
    have hlen : ((s.wire x.other).take k).length = k := by
      rw [List.length_take]
      omega
    refine State.inv_of (x := x) ?_ ?_
    · have hanswered : SideInv (P x) (cap x)
          ((s.ends x).afterRead (P x) (some ((s.wire x.other).take k))) (s.ends x.other)
          (s.wire x) := by
        exact hx.answered hphase (hmessage x) (List.length_pos_iff.mp (by omega)) (by omega)
      simpa using hanswered
    · have htaken : SideInv (P x.other) (cap x.other) (s.ends x.other)
          ((s.ends x).afterRead (P x) (some ((s.wire x.other).take k)))
          ((s.wire x.other).drop k) :=
        hother.taken (hx.fresh (Or.inl hphase)) hphase rfl
      simpa using htaken
  | eof =>
    obtain ⟨⟨hphase, hclosed, hempty⟩, -⟩ := Option.ite_none_right_eq_some.mp hstep
    exact absurd hempty (h.not_eof hmessage hphase hclosed)
  | reset =>
    obtain ⟨⟨hphase, hclosed, hempty, -⟩, -⟩ := Option.ite_none_right_eq_some.mp hstep
    exact absurd hempty (h.not_eof hmessage hphase hclosed)
  | close =>
    obtain ⟨hphase, hs⟩ := Option.ite_none_right_eq_some.mp hstep
    obtain rfl := Option.some.inj hs
    refine State.inv_of (x := x) ?_ ?_
    · have hclosed : SideInv (P x) (cap x) { s.ends x with phase := .closed } (s.ends x.other)
          (s.wire x) :=
        { hx with
          writing := by simp
          early := by simp
          fresh := by simp
          sent := fun _ => hx.sent (Or.inl hphase)
          read := fun _ => hx.read (Or.inl hphase)
          gaveUp := by simp }
      simpa using hclosed
    · have hsame : SideInv (P x.other) (cap x.other) (s.ends x.other)
          { s.ends x with phase := .closed } (s.wire x.other) :=
        hother.of_other rfl fun _ => rfl
      simpa using hsame

theorem State.inv_of_reachable (hmessage : ∀ x, (P x).message ≠ [])
    (h : (session P cap).Reachable s) : s.Inv P cap := by
  apply h.invariant
  · intro s hs
    subst hs
    intro x
    exact SideInv.start (P x) (P x.other) (cap x) (hmessage x)
  · intro s l s' hinv (hstep : Duplex.step P cap s l = some s')
    exact hinv.step hmessage hstep

end runs

end Duplex
