import TestServer.Lib.DuplexRuns
import TestServer.SocketBasic.ShortRead
import TestServer.SocketBasic.Single

/-! # The tests of the suite `A`

    In each of them `socket_basic/server.cpp` accepts a connection that
    `socket_basic/client.cpp` makes, and the two talk over it:

    ```
    int ret = write_char(linkage_fd);
    ASSERT_GT(ret, 0);
    ret = read_char(linkage_fd);
    ASSERT_GT(ret, 0);
    // close listening fd
    close(linkage_fd);
    close(listening_fd);
    ```
    ```
    write_char(socket_fd);
    read_char(socket_fd);
    close(socket_fd);
    ```

    `ASSERT_GT` leaves the test, with both descriptors open, when it does not
    hold. In the test `PROTO` the server reads first, and what it reads has to
    be accepted by `ParseFromArray`.

    * `Test`, `Test.script`: the five tests.
    * `Test.writes_iff`: what the two sides write.
    * `suite_ends`: every run of the two processes ends, and how.
    * `server_leaks_iff`: when the server can leave its descriptors open.
    * `chars_session_prints`: what `read_chars` prints in the test `CHARS`,
      however the bytes are cut on their way.
-/

open CMemory LengthPrefixed LTS Duplex

namespace SocketBasic

/-! ### The two processes -/

abbrev server : Side := .left

abbrev client : Side := .right

/-- A test, with what is written by its two sides. -/
inductive Test where
  | CHAR (text : Side → Text)
  | STRUCT (u : Side → User)
  /-- What `SerializeToArray` makes, and what the server's `ParseFromArray` says. -/
  | PROTO (message : Side → List UInt8) (ParseFromArray : List UInt8 → Bool)
  | CHARS (texts : Side → List Text)
  | STRUCTS (address : Side → List Address)

/-- The bytes `e` are what a side hands to `write`. -/
def Test.Writes : Test → Side → List UInt8 → Prop
  | CHAR text, x, e => writeChar (text x).bytes = some e
  | STRUCT u, x, e => e = (u x).bytes
  | PROTO message _, x, e => e = message x
  | CHARS texts, x, e => WritesChars ((texts x).map Text.bytes) e
  | STRUCTS address, x, e => WritesStructs (address x) e

/-- The bytes that a side writes. -/
def Test.message : Test → Side → List UInt8
  | CHAR text, x => (text x).bytes
  | STRUCT u, x => (u x).bytes
  | PROTO message _, x => message x
  | CHARS texts, x => stream (texts x)
  | STRUCTS address, x => code.encodeAll ((address x).map Address.record)

/-- The size of the buffer that both sides read into. -/
def Test.room : Test → Nat
  | CHAR _ | STRUCT _ => 100
  | PROTO .. | CHARS _ | STRUCTS _ => bufferLength

/-- The server reads first. -/
def Test.readsFirst : Test → Bool
  | PROTO .. => true
  | _ => false

/-- The server has a use for the bytes it read. -/
def Test.accepts : Test → List UInt8 → Bool
  | PROTO _ ParseFromArray, bytes => ParseFromArray bytes
  | _, _ => true

/-- What the two sides do with their descriptor. -/
def Test.script (T : Test) : Side → Script UInt8
  | .left =>
    { message := T.message server
      room := T.room
      readsFirst := T.readsFirst
      checks := true
      accepts := T.accepts }
  | .right =>
    { message := T.message client
      room := T.room
      readsFirst := false
      checks := false
      accepts := fun _ => true }

@[simp] theorem Test.script_message (T : Test) (x : Side) :
    (T.script x).message = T.message x := by
  cases x <;> rfl

@[simp] theorem Test.script_room (T : Test) (x : Side) : (T.script x).room = T.room := by
  cases x <;> rfl

/-- The message is what the functions of the source write. -/
theorem Test.writes_iff (T : Test) (x : Side) (e : List UInt8) :
    T.Writes x e ↔ e = T.message x := by
  cases T with
  | CHAR text =>
    show writeChar (text x).bytes = some e ↔ e = (text x).bytes
    rw [writeChar_text, Option.some.injEq, eq_comm]
  | STRUCT u => exact Iff.rfl
  | PROTO message ParseFromArray => exact Iff.rfl
  | CHARS texts => exact writesChars_iff (texts x) e
  | STRUCTS address => exact writesStructs_iff (address x) e

theorem Test.room_pos (T : Test) : 1 ≤ T.room := by
  cases T <;> simp [room, bufferLength]

theorem Test.accepts_of_writes_first {T : Test} (h : T.readsFirst = false) (bytes : List UInt8) :
    T.accepts bytes = true := by
  cases T <;> first | rfl | cases h

/-- A side that gives up on the bytes it read is the server of `PROTO`. -/
theorem Test.rejected_server {T : Test} {e : Endpoint UInt8} {x : Side}
    (h : e.Rejected (T.script x)) : x = server ∧ T.readsFirst = true := by
  obtain ⟨-, bytes, -, hno⟩ := h
  cases x with
  | left =>
    refine ⟨rfl, ?_⟩
    by_contra hfirst
    have hyes : T.accepts bytes = true :=
      Test.accepts_of_writes_first (by simpa using hfirst) bytes
    exact absurd (hyes.symm.trans hno) (by simp)
  | right => cases hno

variable {T : Test} {s : Duplex.State UInt8}

/-! ### How a test ends -/

theorem Test.readsFirst_client (T : Test) : (T.script client).readsFirst = false := rfl

/-- Where the server writes first, nobody reads first. -/
theorem Test.script_readsFirst (h : T.readsFirst = false) (x : Side) :
    (T.script x).readsFirst = false := by
  cases x with
  | left => exact h
  | right => rfl

/-- Two sides write `message`, over a connection that has room for `low x` bytes of a side for sure
    and never holds more than `cap x`. A test takes no more steps than there are bytes to write, and
    six. When no step is left that a side is sure of, both have closed their descriptor, or both
    wait in `write` with more bytes than `low x`, or the server, which reads first, refused what it
    read. When both write first, and more than `cap x`, they are in `write` all the time. -/
theorem suite_ends (T : Test) (message : Side → List UInt8) (hmessage : ∀ x, T.Writes x (message x))
    (hne : ∀ x, message x ≠ []) (low cap : Side → Nat) (hlow : ∀ x, 1 ≤ low x)
    {tr : List (Duplex.State UInt8 × (Side × Action))} (h : (session T.script cap).Run tr s) :
    tr.length ≤ (message server).length + (message client).length + 6 ∧
    (Stuck T.script low s →
      (∀ x, (s.ends x).phase = .closed) ∨
      (∀ x, (s.ends x).phase = .write ∧ low x < (message x).length) ∨
      (T.readsFirst = true ∧ (s.ends server).Rejected (T.script server))) ∧
    (T.readsFirst = false → (∀ x, cap x < (message x).length) →
      ∀ x, (s.ends x).phase = .write) := by
  obtain rfl : message = T.message := funext fun x => (T.writes_iff x _).mp (hmessage x)
  have hscript : ∀ x, (T.script x).message ≠ [] := fun x => by simpa using hne x
  have hroom : ∀ x, 1 ≤ (T.script x).room := fun x => by simpa using T.room_pos
  refine ⟨length_le h, fun hstuck => ?_, fun hfirst hmore => ?_⟩
  · rcases closed_or_waits hscript hroom hlow ⟨client, T.readsFirst_client⟩ ⟨tr, h⟩ hstuck with
      hclosed | ⟨x, hrejected⟩ | hwait
    · exact Or.inl hclosed
    · obtain ⟨rfl, hfirst⟩ := Test.rejected_server hrejected
      exact Or.inr (Or.inr ⟨hfirst, hrejected⟩)
    · simp only [Test.script_message] at hwait
      exact Or.inr (Or.inl hwait)
  · exact both_write hscript (Test.script_readsFirst hfirst) (fun x => by simpa using hmore x)
      ⟨tr, h⟩

/-- The greetings of the test `CHAR`. -/
def greetings : Side → Text
  | .left => ⟨[72, 111, 119, 32, 97, 114, 101, 32, 121, 111, 117, 63], by decide, by decide⟩
  | .right =>
    ⟨[72, 101, 108, 108, 111, 32, 87, 111, 114, 108, 100, 44, 32, 76, 105, 108, 121, 46],
      by decide, by decide⟩

/-- The test `CHAR`, in which both sides read all that the other one wrote, has room for the
    greetings, so it cannot end but with both descriptors closed. -/
theorem suite_ends_CHAR : ∃ s,
    (session (Test.CHAR greetings).script fun _ => 4096).Reachable s ∧
      Stuck (Test.CHAR greetings).script (fun _ => 64) s ∧ ∀ x, (s.ends x).phase = .closed := by
  let ls : List (Side × Action) :=
    [(server, .put 12), (client, .put 18), (server, .take 18), (client, .take 12),
      (server, .close), (client, .close)]
  let s₀ := Duplex.State.start (Test.CHAR greetings).script
  let s := (System.replay (Duplex.step (Test.CHAR greetings).script fun _ => 4096) s₀ ls).get
    (by decide)
  have h₀ : (session (Test.CHAR greetings).script fun _ => 4096).Run [] s₀ := .start rfl
  obtain ⟨tr, hrun, -⟩ := h₀.replay ls (Option.some_get _).symm
  have hstuck : Stuck (Test.CHAR greetings).script (fun _ => 64) s :=
    stuck_of_closed fun x => by cases x <;> decide
  have hends := (suite_ends (.CHAR greetings) (fun x => (greetings x).bytes)
    (fun x => writeChar_text (greetings x)) (fun x => by cases x <;> decide) (fun _ => 64)
    (fun _ => 4096) (fun _ => by decide) hrun).2.1 hstuck
  refine ⟨s, ⟨_, hrun⟩, hstuck, ?_⟩
  rcases hends with hclosed | hwait | ⟨hfirst, -⟩
  · exact hclosed
  · have hshort : ¬ 64 < (greetings server).bytes.length := by decide
    exact absurd (hwait server).2 hshort
  · cases hfirst

/-! ### Descriptors that stay open -/

/-- The server can come to leave its two descriptors open exactly when it reads first and does not
    accept bytes that the message of the client begins with, as far as the connection and its
    buffer have room for them. Where it writes first it never does: what the client has written is
    there to be read when the client closes its end, whatever that one has left unread. -/
theorem server_leaks_iff (T : Test) (message : Side → List UInt8)
    (hmessage : ∀ x, T.Writes x (message x)) (hne : ∀ x, message x ≠ []) (cap : Side → Nat) :
    (∃ s, (session T.script cap).Reachable s ∧ (s.ends server).phase = .gaveUp) ↔
      T.readsFirst = true ∧ ∃ bytes, bytes ≠ [] ∧ bytes <+: message client ∧
        bytes.length ≤ T.room ∧ bytes.length ≤ cap client ∧ T.accepts bytes = false := by
  obtain rfl : message = T.message := funext fun x => (T.writes_iff x _).mp (hmessage x)
  have hscript : ∀ x, (T.script x).message ≠ [] := fun x => by simpa using hne x
  constructor
  · intro hleaks
    obtain ⟨s, hs, hgaveUp⟩ := hleaks
    obtain ⟨bytes, hbytes, hpre, hlen, hfits, hno⟩ := gaveUp_cases hscript hs hgaveUp
    refine ⟨?_, bytes, hbytes, hpre, hlen, hfits, hno⟩
    by_contra hfirst
    have hyes : T.accepts bytes = true :=
      Test.accepts_of_writes_first (by simpa using hfirst) bytes
    exact absurd (hyes.symm.trans hno) (by simp)
  · intro hcond
    obtain ⟨hfirst, bytes, hbytes, hpre, hlen, hfits, hno⟩ := hcond
    exact gives_up_on_bytes (x := server) hfirst rfl rfl hbytes hpre hlen hfits hno

/-- In the test `PROTO` it can, if the client's message of two bytes comes in two parts of which
    the first one is no message. -/
theorem server_leaks_iff_PROTO :
    let T : Test := .PROTO (fun _ => [8, 1]) fun bytes => bytes.length == 2
    ∃ s, (session T.script fun _ => 4096).Reachable s ∧ (s.ends server).phase = .gaveUp := by
  intro T
  exact (server_leaks_iff T (fun _ => [8, 1]) (fun _ => rfl) (fun _ => by decide) fun _ =>
    4096).mpr ⟨rfl, [8], by decide, ⟨[1], rfl⟩, by decide, by decide, rfl⟩

/-! ### What is printed -/

/-- Of the beginning of what `write_chars` sent, `read_chars` prints the first texts and then the
    beginning of the next one. -/
theorem extracts_of_isPrefix {ts : List Text} (hten : ts.length ≤ row) {p : List UInt8}
    (hne : p ≠ []) (hp : p <+: stream ts) :
    ∃ done t rest k, ts = done ++ t :: rest ∧
      Extracts p (done.map Text.bytes ++ [t.bytes.take k]) := by
  obtain ⟨done', todo', left, hsplit, hs, hleft⟩ := PrefixCode.splits_of_isPrefix hp
  obtain ⟨done, todo, rfl, rfl, rfl⟩ := List.map_eq_append_iff.mp hsplit
  have hpdone : p = stream done ++ left := hs.eq
  have hlen : done.length + todo.length ≤ row := by rwa [List.length_append] at hten
  by_cases hnil : left = []
  · -- the bytes end behind the last of `done`
    rw [hnil, List.append_nil] at hpdone
    have hdone : done ≠ [] := by
      intro hempty
      rw [hempty] at hpdone
      exact hne hpdone
    obtain ⟨before, t, rfl⟩ := List.eq_nil_or_concat done |>.resolve_left hdone
    refine ⟨before, t, todo, t.bytes.length, by simp, ?_⟩
    have hwhole := extracts_whole hdone (by omega) (stream_fits (by omega))
    rw [← hpdone] at hwhole
    simpa using hwhole
  · obtain ⟨r, rest', htodo, hpre, hlt⟩ := hleft.resolve_left hnil
    obtain ⟨t, rest, rfl, rfl, rfl⟩ := List.map_eq_cons_iff.mp htodo
    have htake : left = t.record.frame.take left.length := List.prefix_iff_eq_take.mp hpre
    refine ⟨done, t, rest, left.length - 4, rfl, ?_⟩
    rw [List.length_cons] at hlen
    have hcut := extracts_cut done (t := t) (by omega) (List.length_pos_iff.mpr hnil) hlt
      (stream_frame_fits hten)
    rwa [← htake, ← hpdone] at hcut

/-- In the test `CHARS`, whatever run the two sides have made: a `read` that has returned has
    returned bytes, and of these `read_chars` prints texts of the other side, in their order and
    from the first one on; only the last that it prints may be cut. -/
theorem chars_session_prints (texts : Side → List Text) (hne : ∀ x, texts x ≠ [])
    (hten : ∀ x, (texts x).length ≤ row) (cap : Side → Nat)
    (h : (session (Test.CHARS texts).script cap).Reachable s) (x : Side)
    (answer : Option (List UInt8)) (hgot : (s.ends x).got = some answer) :
    ∃ bytes done t rest k, answer = some bytes ∧ texts x.other = done ++ t :: rest ∧
      Extracts bytes (done.map Text.bytes ++ [t.bytes.take k]) := by
  have hstream : ∀ y, ((Test.CHARS texts).script y).message = stream (texts y) :=
    fun y => Test.script_message _ y
  have hmessage : ∀ y, ((Test.CHARS texts).script y).message ≠ [] := by
    intro y hnil
    rw [hstream] at hnil
    exact hne y (List.map_eq_nil_iff.mp (PrefixCode.encodeAll_eq_nil.mp hnil))
  obtain ⟨bytes, rfl, hbytes, -, -, hpre⟩ := read_some hmessage h hgot
  rw [hstream] at hpre
  obtain ⟨done, t, rest, k, hsplit, hextracts⟩ := extracts_of_isPrefix (hten _) hbytes hpre
  exact ⟨bytes, done, t, rest, k, rfl, hsplit, hextracts⟩

/-- Both sides write `hi`, and the client reads the first five bytes. -/
theorem chars_session_prints_hi :
    let hi : Text := ⟨[104, 105], by decide, by decide⟩
    let texts : Side → List Text := fun _ => [hi]
    ∃ done t rest k, texts server = done ++ t :: rest ∧
      Extracts [2, 0, 0, 0, 104] (done.map Text.bytes ++ [t.bytes.take k]) := by
  intro hi texts
  let step := Duplex.step (Test.CHARS texts).script fun _ => 4096
  let s₀ := Duplex.State.start (Test.CHARS texts).script
  let s₁ := (step s₀ (server, .put 6)).get (by decide)
  let s₂ := (step s₁ (client, .put 6)).get (by decide)
  let s₃ := (step s₂ (client, .take 5)).get (by decide)
  have h₀ : (session (Test.CHARS texts).script fun _ => 4096).Reachable s₀ := ⟨[], .start rfl⟩
  have hs₁ : step s₀ (server, .put 6) = some s₁ := (Option.some_get _).symm
  have hs₂ : step s₁ (client, .put 6) = some s₂ := (Option.some_get _).symm
  have hs₃ : step s₂ (client, .take 5) = some s₃ := (Option.some_get _).symm
  have h := ((h₀.next hs₁).next hs₂).next hs₃
  have hgot : (s₃.ends client).got = some (some [2, 0, 0, 0, 104]) := by decide
  obtain ⟨bytes, done, t, rest, k, hbytes, hprints⟩ :=
    chars_session_prints texts (fun _ => by simp [texts]) (fun _ => by decide) _ h client
      (some [2, 0, 0, 0, 104]) hgot
  rw [← Option.some.inj hbytes] at hprints
  exact ⟨done, t, rest, k, hprints⟩

end SocketBasic
