import TestServer.Echo.Server

/-! # What a reply reveals

    `buff` is not initialised, and `read` fills no more of it than it has
    bytes for. `strncat` copies it up to its first NUL, or all 50 bytes:

    ```
    char buff[50];
    count = read(evs[i].data.fd, &buff, 50);
    char buff2[100] = "hahahahha";
    strncat(buff2, buff, sizeof(buff));
    count = write(evs[i].data.fd, &buff2, sizeof(buff2));
    ```

    * `reply_injective`: what is written back says what was copied.
    * `reply_filled_iff`: it does not depend on what the stack held exactly when
      the bytes read have a NUL or fill `buff`.
    * `answers_iff`: so the loop answers with a function of what it read exactly
      for these bytes.
    * `replay_sameReads`: a client that only sends such bytes sees nothing else,
      however long the server runs.
-/

open CMemory LTS

namespace Echo

/-! ### The bytes written back -/

/-- What is written back says what the text was. -/
theorem reply_injective {buff buff' : Mem} (h : buff.length = 50) (h' : buff'.length = 50) :
    reply buff = reply buff' ↔ beforeNul buff = beforeNul buff' := by
  rw [reply_eq h, reply_eq h']
  constructor
  · intro heq
    have htext := congrArg beforeNul (List.append_cancel_left (Option.some.inj heq))
    rwa [beforeNul_append_replicate, beforeNul_append_replicate,
      beforeNul_of_notMem (zero_notMem_beforeNul buff),
      beforeNul_of_notMem (zero_notMem_beforeNul buff')] at htext
  · intro heq
    rw [heq]

/-! ### What the stack held -/

variable {bytes : List UInt8}

/-- `buff` after `read` returned the bytes, where the stack held `stack`. -/
def filled (bytes stack : List UInt8) : Mem := bytes ++ stack.drop bytes.length

theorem filled_length {stack : List UInt8} (h : bytes.length ≤ 50) (hstack : stack.length = 50) :
    (filled bytes stack).length = 50 := by
  rw [filled, List.length_append, List.length_drop]
  omega

/-- A NUL among the bytes ends the text, and 50 bytes leave nothing of the stack. -/
theorem beforeNul_filled (h : bytes.length = 50 ∨ 0 ∈ bytes) {stack : List UInt8}
    (hstack : stack.length = 50) : beforeNul (filled bytes stack) = beforeNul bytes := by
  rcases h with hfull | hnul
  · rw [filled, List.drop_eq_nil_of_le (by omega), List.append_nil]
  · exact beforeNul_append_of_mem hnul _

/-- Otherwise a byte of the stack is part of the text, unless it is a NUL. -/
theorem beforeNul_filled_stale (h : bytes.length < 50) (hnul : 0 ∉ bytes) :
    beforeNul (filled bytes (List.replicate 50 1)) ≠ beforeNul (filled bytes (List.replicate 50 0))
    := by
  obtain ⟨n, hn⟩ : ∃ n, 50 - bytes.length = n + 1 := ⟨49 - bytes.length, by omega⟩
  unfold filled
  rw [List.drop_replicate, List.drop_replicate, beforeNul_append_of_notMem hnul,
    beforeNul_append_replicate, beforeNul_of_notMem hnul, hn, List.replicate_succ]
  simp [beforeNul]

/-- The answer is a function of the bytes read exactly when they end the text themselves. -/
theorem reply_filled_iff (h : bytes.length ≤ 50) :
    (∃ answer, answer.length = 100 ∧
      ∀ stack, stack.length = 50 → reply (filled bytes stack) = some answer) ↔
    bytes.length = 50 ∨ 0 ∈ bytes := by
  have hzeros : (List.replicate 50 (0 : UInt8)).length = 50 := List.length_replicate
  have hones : (List.replicate 50 (1 : UInt8)).length = 50 := List.length_replicate
  constructor
  · intro hsame
    obtain ⟨answer, -, hanswer⟩ := hsame
    by_contra hno
    obtain ⟨hshort, hnul⟩ := not_or.mp hno
    have heq := (hanswer _ hones).trans (hanswer _ hzeros).symm
    exact beforeNul_filled_stale (lt_of_le_of_ne h hshort) hnul
      ((reply_injective (filled_length h hones) (filled_length h hzeros)).mp heq)
  · intro hends
    obtain ⟨answer, hanswer, hlen⟩ := reply_length (filled_length h hzeros)
    refine ⟨answer, hlen, ?_⟩
    intro stack hstack
    rw [← hanswer]
    apply (reply_injective (filled_length h hstack) (filled_length h hzeros)).mpr
    rw [beforeNul_filled hends hstack, beforeNul_filled hends hzeros]

/-! ### What the loop writes back -/

/-- One event with bytes to read. -/
theorem step_read {s : State} {fd : Int} {rest : List Int} {stack : Mem} (hrun : s.running = true)
    (hevs : s.evs = fd :: rest) (hacc : ¬ s.Accepts fd) (hfd : fd ≠ s.listening_fd)
    (hpos : 1 ≤ bytes.length) (hmax : bytes.length ≤ 50) (hstack : stack.length = 50) :
    step s (.read (some bytes) stack)
      = (reply (filled bytes stack)).map (({ s with evs := rest } : State).answer fd) := by
  have hread : ({ s with evs := rest } : State).MayRead fd (some bytes) := ⟨hfd, hmax⟩
  have hlen : bytes.length ≠ 0 := by omega
  unfold step
  simp only [if_pos hrun, hevs, if_neg hacc, readStep, if_pos (And.intro hread hstack),
    if_neg hlen, filled]

/-- The bytes of an answer can be told from the state after it. -/
theorem State.answer_injective {s : State} {fd : Int} {a b : Mem}
    (h : s.answer fd a = s.answer fd b) : a = b := by
  simpa [answer] using congrArg State.calls h

/-- The server writes back 100 bytes that are a function of the bytes just read, whatever `buff`
    held, exactly when these bytes have a NUL or fill `buff`. -/
theorem answers_iff (s : State) {fd : Int} {rest : List Int} (hrun : s.running = true)
    (hevs : s.evs = fd :: rest) (hacc : ¬ s.Accepts fd) (hfd : fd ≠ s.listening_fd)
    (hpos : 1 ≤ bytes.length) (hmax : bytes.length ≤ 50) :
    (∃ answer : Mem, answer.length = 100 ∧ ∀ stack : Mem, stack.length = 50 →
      step s (.read (some bytes) stack)
        = some (({ s with evs := rest } : State).answer fd answer)) ↔
    bytes.length = 50 ∨ 0 ∈ bytes := by
  rw [← reply_filled_iff hmax]
  constructor
  · intro h
    obtain ⟨answer, hlen, hanswer⟩ := h
    refine ⟨answer, hlen, ?_⟩
    intro stack hstack
    have hstep := hanswer stack hstack
    rw [step_read hrun hevs hacc hfd hpos hmax hstack] at hstep
    obtain ⟨answer', hreply, heq⟩ := Option.map_eq_some_iff.mp hstep
    rw [hreply, State.answer_injective heq]
  · intro h
    obtain ⟨answer, hlen, hanswer⟩ := h
    refine ⟨answer, hlen, ?_⟩
    intro stack hstack
    rw [step_read hrun hevs hacc hfd hpos hmax hstack, hanswer stack hstack, Option.map_some]

/-- The loop where a client's event is the next one. -/
def connected : State where
  listening_fd := 3
  cur_fds := 2
  evs := [5]
  running := true
  opened := {5, 3}
  registered := [3, 5]
  calls := [.epoll_wait 1, .accept 3, .epoll_ctl_add 5, .epoll_wait 2]

/-- A client that sends `"hi"` and its NUL. -/
theorem answers_iff_hi :
    (∃ answer : Mem, answer.length = 100 ∧ ∀ stack : Mem, stack.length = 50 →
      step connected (.read (some [104, 105, 0]) stack)
        = some (({ connected with evs := [] } : State).answer 5 answer)) ↔
    [104, 105, 0].length = 50 ∨ (0 : UInt8) ∈ [104, 105, 0] :=
  answers_iff connected (by decide) (by decide) (by decide) (by decide) (by decide) (by decide)

/-- A client that sends `"hi"` alone is sent what the stack held behind it. -/
theorem stale_bytes_sent : server.Reachable connected ∧
    ∃ secret other : Mem, secret.length = 50 ∧ other.length = 50 ∧
      (step connected (.read (some [104, 105]) secret)).map State.calls
        ≠ (step connected (.read (some [104, 105]) other)).map State.calls := by
  have hstart : server.Reachable (.start 3 ∅) := ⟨[], .start ⟨3, ∅, by decide, rfl⟩⟩
  refine ⟨System.replay_reachable hstart [.wait [3], .accept 5, .wait [5]] rfl, ?_⟩
  exact ⟨List.replicate 50 83, List.replicate 50 0, by decide, by decide, by decide⟩

/-! ### Whole runs -/

/-- Labels that differ in what the stack held only, where the bytes read end the text. -/
inductive SameReads : Label → Label → Prop where
  | read {received : Option (List UInt8)} {stack stack' : Mem} :
      stack.length = 50 → stack'.length = 50 →
      (∀ bytes, received = some bytes → bytes.length = 50 ∨ 0 ∈ bytes) →
      SameReads (.read received stack) (.read received stack')
  | same {l : Label} : SameReads l l

/-- One step does not depend on what the stack held. -/
theorem step_sameReads (s : State) {l l' : Label} (h : SameReads l l') : step s l = step s l' := by
  cases h with
  | same => rfl
  | @read received stack stack' hstack hstack' hends =>
    have hread : ∀ (t : State) (fd : Int),
        readStep t fd (.read received stack) = readStep t fd (.read received stack') := by
      intro t fd
      simp only [readStep, hstack, hstack']
      split
      case isFalse => rfl
      case isTrue hmay =>
        cases received with
        | none => rfl
        | some bytes =>
          have hmax : bytes.length ≤ 50 := hmay.1.2
          obtain ⟨answer, -, hanswer⟩ := (reply_filled_iff hmax).mpr (hends bytes rfl)
          have heq := (hanswer stack hstack).trans (hanswer stack' hstack').symm
          simp only [filled] at heq
          simp only [heq]
    unfold step
    split
    case isFalse => rfl
    case isTrue =>
      cases s.evs with
      | nil => rfl
      | cons fd rest =>
        simp only [hread]
        rfl

/-- Nor does a whole run: the server cannot tell what its stack held, and no client learns it. -/
theorem replay_sameReads {ls ls' : List Label} (h : List.Forall₂ SameReads ls ls') (s : State) :
    System.replay step s ls = System.replay step s ls' := by
  induction h generalizing s with
  | nil => rfl
  | cons hl _ ih =>
    simp only [System.replay, step_sameReads s hl, ih]

end Echo
