import TestServer.Transfer.Readn

/-! # The tests of `writen` and `readn`

    `TWriten` and `TReadn` of `sample_io/test_file.cpp` use one file, which is
    still there in the next run of the program:

    ```
    int fd = open("aa", O_CREAT | O_APPEND | O_RDWR, S_IRUSR | S_IWUSR);
    ASSERT_GT(fd, 0);
    char *v = new char[100]();
    strncpy(v, "ABCDEFGHIJKLMNOPQRSTUVWXYZ", 26);
    ssize_t n = writen(fd, v, strlen(v));
    ASSERT_EQ(n, strlen(v));
    ```
    ```
    int fd = open("aa", O_RDONLY);
    char *v = new char[200]();
    ssize_t n = readn(fd, v, 200);
    printf("v.size=%d.\n", strlen(v));
    printf("v=%s.\n", v);
    ```

    * `TWriten`, `TReadn`: the tests, with what their calls answer.
    * `history`: the program is run again and again.
    * `file_grows`: what any number of runs does to the file, and what they read
      of it.
    * `strlen_leaves_buffer`: when `strlen(v)` leaves the 200 bytes.
-/

open CInt CMemory LTS

namespace Transfer

/-! ### The tests -/

/-- The literal of `TWriten`, without its NUL. -/
def letters : List UInt8 :=
  [65, 66, 67, 68, 69, 70, 71, 72, 73, 74, 75, 76, 77, 78, 79, 80, 81, 82, 83, 84, 85, 86, 87, 88,
    89, 90]

/-- The file `aa`, which may not exist. -/
abbrev File := Option (List UInt8)

/-- What is in the file. -/
def File.content (file : File) : List UInt8 := file.getD []

/-- What the calls of `TWriten` answer. -/
structure WriteAnswers where
  /-- The descriptor `open` returns, unless it fails. -/
  fd : Option Nat
  outcomes : List WriteOutcome

/-- `TWriten`: whether it passes, the bytes that were appended to the file, and the file. -/
def TWriten (a : WriteAnswers) (file : File) : Option (Bool × List UInt8 × File) :=
  match a.fd with
  | none => some (false, [], file)
  | some fd =>
    -- `O_CREAT`
    if fd = 0 then some (false, [], some file.content)
    else do
      let v ← writeBytes (List.replicate 100 0) 0 (strncpyFill 26 (c_str letters))
      let size ← strlen v
      let s ← System.replay (Writing.step v size) (.start size) a.outcomes
      let n ← s.loop.ret
      -- `O_APPEND`
      some (n == size, s.accepted, some (file.content ++ s.accepted))

/-- `read` answers with what stands in the file behind the offset of the descriptor. -/
def Offers (content : List UInt8) (offset : Nat) : ReadOutcome → Prop
  | .bytes bs => bs <+: content.drop offset
  | .eof => content.length ≤ offset
  | .failed _ => True

instance (content : List UInt8) (offset : Nat) : (o : ReadOutcome) →
    Decidable (Offers content offset o)
  | .bytes bs => inferInstanceAs (Decidable (bs <+: content.drop offset))
  | .eof => inferInstanceAs (Decidable (content.length ≤ offset))
  | .failed _ => .isTrue trivial

/-- `readn` on a file, and the offset of its descriptor. -/
structure Scanning where
  loop : ReadState
  offset : Nat

/-- One call of `read`. -/
def Scanning.step (content : List UInt8) (n : Nat) (s : Scanning) (o : ReadOutcome) :
    Option Scanning :=
  if Offers content s.offset o then do
    let loop ← readnStep n s.loop o
    some { loop, offset := s.offset + o.data.length }
  else none

/-- Before the first call. -/
def Scanning.start (buf : Mem) (n : Nat) : Scanning where
  loop := .start buf n
  offset := 0

/-- What the calls of `TReadn` answer. -/
structure ReadAnswers where
  opens : Bool
  outcomes : List ReadOutcome

/-- `errno` after a call on a descriptor that is not open. -/
def EBADF : Nat := 9

/-- `TReadn`: what `readn` returns, and what it leaves in `v`. -/
def TReadn (a : ReadAnswers) (file : File) : Option (Int × Mem) :=
  match a.opens, file with
  | true, some content => do
    let s ← System.replay (Scanning.step content 200) (.start (List.replicate 200 0) 200)
      a.outcomes
    let n ← s.loop.ret
    some (n, s.loop.buf)
  | _, _ => do
    -- `fd` is -1
    let s ← readnStep 200 (.start (List.replicate 200 0) 200) (.failed EBADF)
    let n ← s.ret
    some (n, s.buf)

/-- What happens in a run of the program. -/
structure Outcome where
  writes : WriteAnswers
  reads : ReadAnswers
  /-- `TWriten` passes. -/
  passed : Bool
  appended : List UInt8
  /-- What `TReadn` gets. -/
  n : Int
  v : Mem

/-- A run of the program: `TWriten`, then `TReadn`. -/
def Program (file : File) (o : Outcome) (file' : File) : Prop :=
  TWriten o.writes file = some (o.passed, o.appended, file') ∧
    TReadn o.reads file' = some (o.n, o.v)

/-- The program is run again and again. -/
def history (file : File) : System File Outcome where
  init := fun s => s = file
  step := Program

/-! ### `TWriten` -/

variable {content : List UInt8} {file file' : File}

theorem copied_letters : writeBytes (List.replicate 100 0) 0 (strncpyFill 26 (c_str letters))
    = some (letters ++ List.replicate 74 0) := by
  decide

theorem strlen_letters : strlen (letters ++ List.replicate 74 0) = some 26 :=
  strlen_append_nul (by decide) (List.replicate 73 0)

/-- `TWriten` appends a beginning of the letters to the file, and passes when it is all of them. -/
theorem TWriten_cases {a : WriteAnswers} {passed : Bool} {appended : List UInt8}
    (h : TWriten a file = some (passed, appended, file')) :
    file'.content = file.content ++ appended ∧ appended <+: letters ∧
      (passed = true ↔ appended = letters) ∧ (passed = true → file' ≠ none) := by
  unfold TWriten at h
  split at h
  case h_1 =>
    obtain ⟨rfl, hrest⟩ := Prod.mk.inj (Option.some.inj h)
    obtain ⟨rfl, rfl⟩ := Prod.mk.inj hrest
    exact ⟨(List.append_nil _).symm, List.nil_prefix, by decide, nofun⟩
  case h_2 fd _ =>
    split at h
    case isTrue =>
      obtain ⟨rfl, hrest⟩ := Prod.mk.inj (Option.some.inj h)
      obtain ⟨rfl, rfl⟩ := Prod.mk.inj hrest
      exact ⟨(List.append_nil _).symm, List.nil_prefix, by decide, nofun⟩
    case isFalse =>
      simp only [copied_letters, strlen_letters, Option.bind_eq_bind, Option.bind_some] at h
      obtain ⟨s, hreplay, h⟩ := Option.bind_eq_some_iff.mp h
      obtain ⟨n, hret, h⟩ := Option.bind_eq_some_iff.mp h
      obtain ⟨rfl, hrest⟩ := Prod.mk.inj (Option.some.inj h)
      obtain ⟨rfl, rfl⟩ := Prod.mk.inj hrest
      -- the run of `writen`
      have hinv : s.Inv (letters ++ List.replicate 74 0) 26 :=
        Writing.inv_of_reachable (System.replay_reachable ⟨[], .start rfl⟩ _ hreplay)
      have htake : (letters ++ List.replicate 74 0).take 26 = letters := by decide
      have hcursor := hinv.loop.cursor
      refine ⟨rfl, ?_, ?_, nofun⟩
      · rw [hinv.accepted, ← htake]
        exact List.take_prefix_take_left (by omega)
      · have hiff := hinv.returned_iff (by decide) (by decide)
        rw [htake, hret, Option.some.injEq] at hiff
        rw [← hiff]
        exact beq_iff_eq

/-! ### `TReadn` -/

/-- The buffer holds the file up to the offset, and NULs behind that. -/
structure Scanning.Inv (content : List UInt8) (n : Nat) (s : Scanning) : Prop where
  cursor : s.offset = s.loop.ptr
  left : s.offset + s.loop.nleft = n
  inside : s.offset ≤ content.length
  buf : s.loop.buf = content.take s.offset ++ List.replicate (n - s.offset) 0
  returned : ∀ r, s.loop.ret = some r → r = -1 ∨ r = signed 64 s.offset

/-- `readn` stopped at the end of the file, or has all it wants. -/
def Scanning.Complete (content : List UInt8) (s : Scanning) : Prop :=
  ∀ r, s.loop.ret = some r →
    r = signed 64 s.offset ∧ (s.loop.nleft = 0 ∨ s.offset = content.length)

section scanning

variable {n : Nat} {s s' : Scanning} {o : ReadOutcome}

theorem Scanning.inv_start (content : List UInt8) (n : Nat) :
    (Scanning.start (List.replicate n 0) n).Inv content n where
  cursor := by
    show 0 = (ReadState.head n _).ptr
    rw [ReadState.head_ptr]
  left := by
    show 0 + (ReadState.head n _).nleft = n
    rw [ReadState.head_nleft, Nat.zero_add]
  inside := Nat.zero_le _
  buf := by
    show (ReadState.head n _).buf = content.take 0 ++ List.replicate n 0
    rw [ReadState.head_buf, List.take_zero, List.nil_append]
  returned := by
    intro r hr
    refine Or.inr ?_
    have hval := ReadState.head_ret (Nat.zero_add n) rfl hr
    rw [ReadState.head_ptr] at hval
    exact hval

theorem Scanning.step_eq_some (h : Scanning.step content n s o = some s') :
    Offers content s.offset o ∧ readnStep n s.loop o = some s'.loop ∧
      s'.offset = s.offset + o.data.length := by
  unfold Scanning.step at h
  rw [Option.ite_none_right_eq_some] at h
  obtain ⟨hoffers, hsome⟩ := h
  obtain ⟨loop, hstep, hs⟩ := Option.bind_eq_some_iff.mp hsome
  obtain rfl := Option.some.inj hs
  exact ⟨hoffers, hstep, rfl⟩

/-- A call that reads nothing. -/
theorem Scanning.Inv.same (h : s.Inv content n) {ret : Option Int}
    (hloop : s'.loop = { s.loop with ret := ret }) (hoffset : s'.offset = s.offset)
    (hret : ∀ r, ret = some r → r = -1 ∨ r = signed 64 s.offset) : s'.Inv content n where
  cursor := by
    rw [hoffset, hloop]
    exact h.cursor
  left := by
    rw [hoffset, hloop]
    exact h.left
  inside := by
    rw [hoffset]
    exact h.inside
  buf := by
    rw [hoffset, hloop]
    exact h.buf
  returned := by
    rw [hoffset, hloop]
    exact hret

/-- The bytes that `read` puts into the buffer are the next ones of the file. -/
theorem Scanning.Inv.advance (h : s.Inv content n) (hret : s.loop.ret = none) {bs : List UInt8}
    {buf : Mem} (hoffers : bs <+: content.drop s.offset) (hle : bs.length ≤ s.loop.nleft)
    (hwrite : writeBytes s.loop.buf s.loop.ptr bs = some buf)
    (hloop : s'.loop = (({ s.loop with buf } : ReadState).advance bs.length).head n)
    (hoffset : s'.offset = s.offset + bs.length) : s'.Inv content n ∧ s'.Complete content := by
  have hcursor := h.cursor
  have hleft := h.left
  obtain ⟨rest, hrest⟩ := hoffers
  have hlen := congrArg List.length hrest
  rw [List.length_append, List.length_drop] at hlen
  have hnext : content.take (s.offset + bs.length) = content.take s.offset ++ bs := by
    rw [List.take_add, ← hrest, List.take_left]
  have hroom : n - s.offset = bs.length + (n - (s.offset + bs.length)) := by omega
  have happend : writeBytes (content.take s.offset ++ (List.replicate bs.length 0 ++
      List.replicate (n - (s.offset + bs.length)) 0)) s.offset bs =
      some (content.take s.offset ++ (bs ++ List.replicate (n - (s.offset + bs.length)) 0)) :=
    writeBytes_append (List.length_take_of_le h.inside).symm List.length_replicate
  rw [← List.replicate_add, ← hroom, ← h.buf, hcursor, hwrite] at happend
  have hdone : ∀ r, s'.loop.ret = some r → r = signed 64 s'.offset ∧ s'.loop.nleft = 0 := by
    intro r hr
    rw [hloop] at hr ⊢
    have hsum : s.loop.ptr + bs.length + (s.loop.nleft - bs.length) = n := by omega
    have hlooping : (({ s.loop with buf } : ReadState).advance bs.length).ret = none := hret
    have hval := ReadState.head_ret hsum hlooping hr
    rw [ReadState.head_ptr] at hval
    have hnone := ReadState.head_nleft_eq_zero hlooping (Option.ne_none_iff_exists'.mpr ⟨r, hr⟩)
    rw [hval, hoffset, hcursor]
    exact ⟨rfl, hnone⟩
  constructor
  · constructor
    case cursor =>
      rw [hoffset, hloop, ReadState.head_ptr, hcursor]
      rfl
    case left =>
      rw [hoffset, hloop, ReadState.head_nleft]
      show s.offset + bs.length + (s.loop.nleft - bs.length) = n
      omega
    case inside =>
      have := h.inside
      omega
    case buf =>
      rw [hoffset, hloop, ReadState.head_buf, hnext, List.append_assoc, hcursor]
      exact Option.some.inj happend
    case returned => exact fun r hr => Or.inr (hdone r hr).1
  · exact fun r hr => ⟨(hdone r hr).1, Or.inl (hdone r hr).2⟩

/-- Every call keeps the invariant, and if it does not fail, `readn` stops only at the end. -/
theorem Scanning.Inv.step (h : s.Inv content n) (hstep : Scanning.step content n s o = some s') :
    s'.Inv content n ∧ ((∀ e, o ≠ .failed e) → s'.Complete content) := by
  obtain ⟨hoffers, hreadn, hoffset⟩ := Scanning.step_eq_some hstep
  obtain ⟨hret, ⟨bs, buf, rfl, -, hle, hwrite, hloop⟩ | ⟨ho, hloop⟩ | ⟨⟨e, rfl, he⟩, hloop⟩⟩ :=
    readnStep_cases hreadn
  · obtain ⟨hinv, hcomplete⟩ := h.advance hret hoffers hle hwrite hloop hoffset
    exact ⟨hinv, fun _ => hcomplete⟩
  · have hsame : s'.offset = s.offset := by
      rw [hoffset]
      rcases ho with rfl | rfl <;> rfl
    have hread : (n : Int) - s.loop.nleft = s.offset := by
      have := h.left
      omega
    refine ⟨h.same hloop hsame ?_, fun hquiet r hr => ?_⟩
    · intro r hr
      rw [← Option.some.inj hr, hread]
      exact Or.inr rfl
    · rw [hloop] at hr
      refine ⟨by rw [← Option.some.inj hr, hread, hsame], ?_⟩
      rcases ho with rfl | rfl
      · rw [hsame]
        exact Or.inr (le_antisymm h.inside hoffers)
      · exact absurd rfl (hquiet EINTR)
  · refine ⟨h.same hloop hoffset ?_, fun hquiet => absurd rfl (hquiet e)⟩
    intro r hr
    exact Or.inl (Option.some.inj hr).symm

theorem Scanning.complete_start (content : List UInt8) (n : Nat) :
    (Scanning.start (List.replicate n 0) n).Complete content := by
  intro r hr
  have hval := ReadState.head_ret (Nat.zero_add n) rfl hr
  rw [ReadState.head_ptr] at hval
  exact ⟨hval, Or.inl (ReadState.head_nleft_eq_zero rfl (Option.ne_none_iff_exists'.mpr ⟨r, hr⟩))⟩

/-- After any number of calls the buffer holds the file up to the offset. -/
theorem Scanning.Inv.replay (h : s.Inv content n) {outcomes : List ReadOutcome}
    (hreplay : System.replay (Scanning.step content n) s outcomes = some s') :
    s'.Inv content n := by
  induction outcomes generalizing s with
  | nil =>
    obtain rfl := Option.some.inj hreplay
    exact h
  | cons o rest ih =>
    obtain ⟨t, hstep, hrest⟩ := Option.bind_eq_some_iff.mp hreplay
    exact ih (h.step hstep).1 hrest

/-- If no call failed, `readn` went on to the end. -/
theorem Scanning.Inv.complete (h : s.Inv content n) (hcomplete : s.Complete content)
    {outcomes : List ReadOutcome} (hquiet : ∀ o ∈ outcomes, ∀ e, o ≠ .failed e)
    (hreplay : System.replay (Scanning.step content n) s outcomes = some s') :
    s'.Complete content := by
  induction outcomes generalizing s with
  | nil =>
    obtain rfl := Option.some.inj hreplay
    exact hcomplete
  | cons o rest ih =>
    obtain ⟨t, hstep, hrest⟩ := Option.bind_eq_some_iff.mp hreplay
    obtain ⟨hinv, hnext⟩ := h.step hstep
    exact ih hinv (hnext (hquiet o List.mem_cons_self))
      (fun o' ho' => hquiet o' (List.mem_cons_of_mem _ ho')) hrest

end scanning

/-- What `TReadn` finds in `v` is the beginning of the file and then NULs. `readn` returns how much
    it is, or -1. When the file can be opened and no `read` fails, it is the whole file or 200
    bytes. -/
theorem TReadn_cases {a : ReadAnswers} {r : Int} {v : Mem} (h : TReadn a file = some (r, v)) :
    ∃ k : Nat, k ≤ 200 ∧ k ≤ file.content.length ∧ (r = -1 ∨ r = k) ∧
      v = file.content.take k ++ List.replicate (200 - k) 0 ∧
      (a.opens = true → file ≠ none → (∀ o ∈ a.outcomes, ∀ e, o ≠ .failed e) →
        r = k ∧ k = min 200 file.content.length) := by
  unfold TReadn at h
  split at h
  case h_1 content _ =>
    obtain ⟨s, hreplay, h⟩ := Option.bind_eq_some_iff.mp h
    obtain ⟨ret, hret, h⟩ := Option.bind_eq_some_iff.mp h
    obtain ⟨rfl, rfl⟩ := Prod.mk.inj (Option.some.inj h)
    have hstart := Scanning.inv_start content 200
    have hinv := hstart.replay hreplay
    have hleft := hinv.left
    have hsigned : signed 64 (s.offset : Int) = s.offset := signed_of_length (by omega)
    refine ⟨s.offset, by omega, hinv.inside, ?_, hinv.buf, fun _ _ hquiet => ?_⟩
    · rw [← hsigned]
      exact hinv.returned ret hret
    · have hcomplete := hstart.complete (Scanning.complete_start content 200) hquiet hreplay
      obtain ⟨hval, hend⟩ := hcomplete ret hret
      have hinside := hinv.inside
      refine ⟨by rw [hval, hsigned], ?_⟩
      show s.offset = min 200 content.length
      rcases hend with hnone | hall <;> omega
  case h_2 hclosed =>
    obtain ⟨s, hstep, h⟩ := Option.bind_eq_some_iff.mp h
    obtain ⟨ret, hret, h⟩ := Option.bind_eq_some_iff.mp h
    obtain ⟨rfl, rfl⟩ := Prod.mk.inj (Option.some.inj h)
    obtain ⟨-, ⟨bs, buf, hbytes, -⟩ | ⟨hstop, -⟩ | ⟨-, hs⟩⟩ := readnStep_cases hstep
    · cases hbytes
    · exact absurd hstop (by decide)
    rw [hs] at hret ⊢
    have hbuf : (ReadState.start (List.replicate 200 0) 200).buf = List.replicate 200 0 :=
      ReadState.head_buf 200 _
    refine ⟨0, by omega, Nat.zero_le _, Or.inl (Option.some.inj hret).symm, hbuf, ?_⟩
    intro hopens hsome
    obtain ⟨content, rfl⟩ := Option.ne_none_iff_exists'.mp hsome
    exact absurd rfl (hclosed content hopens)

/-! ### Any number of runs -/

variable {tr : List (File × Outcome)} {o : Outcome}

/-- The NULs behind the bytes that were read end the string, if there are any. -/
theorem strlen_read_eq_none {content : List UInt8} {k : Nat} (hk : k ≤ 200) :
    strlen (content.take k ++ List.replicate (200 - k) 0) = none ↔
      k = 200 ∧ 0 ∉ content.take k := by
  have hroom : 200 - k = 0 ↔ k = 200 := by omega
  rw [strlen_eq_none, List.mem_append, not_or, List.mem_replicate, and_comm]
  simp [hroom]

/-- Whatever the calls answer: every run appends a beginning of the letters to the file, all of them
    exactly when `TWriten` passes, and `TReadn` gets a beginning of the file, followed by NULs. In
    the end the file holds what it held at first and then what the runs appended. -/
theorem file_grows (h : (history file).Run tr file') :
    file'.content = file.content ++ tr.flatMap (fun p => p.2.appended) ∧
    ∀ p ∈ tr, p.2.appended <+: letters ∧ (p.2.passed = true ↔ p.2.appended = letters) ∧
      ∃ k : Nat, k ≤ 200 ∧ k ≤ (p.1.content ++ p.2.appended).length ∧ (p.2.n = -1 ∨ p.2.n = k) ∧
        p.2.v = (p.1.content ++ p.2.appended).take k ++ List.replicate (200 - k) 0 := by
  constructor
  · induction h with
    | start hs =>
      obtain rfl := hs
      exact (List.append_nil _).symm
    | next _ hstep ih =>
      obtain ⟨hwrites, -⟩ := hstep
      rw [(TWriten_cases hwrites).1, ih, List.flatMap_append, List.append_assoc]
      simp
  · intro p hp
    obtain ⟨file'', hwrites, hreads⟩ := h.step_of_mem hp
    obtain ⟨hcontent, hpre, hpassed, -⟩ := TWriten_cases hwrites
    obtain ⟨k, hk, hlength, hret, hv, -⟩ := TReadn_cases hreads
    rw [hcontent] at hv hlength
    exact ⟨hpre, hpassed, k, hk, hlength, hret, hv⟩

/-- The first run makes the file; the letters are written in two calls, with a signal in between. -/
theorem file_grows_new :
    let o : Outcome :=
      { writes := { fd := some 3, outcomes := [.wrote 20, .failed EINTR, .wrote 6] }
        reads := { opens := true, outcomes := [.bytes letters, .eof] }
        passed := true
        appended := letters
        n := 26
        v := letters ++ List.replicate 174 0 }
    ∃ file', (history none).Run [(none, o)] file' ∧ file'.content = letters := by
  intro o
  have hstep : Program none o (some letters) := ⟨by decide +kernel, by decide +kernel⟩
  have hrun : (history none).Run ([] ++ [(none, o)]) (some letters) := .next (.start rfl) hstep
  exact ⟨_, hrun, (file_grows hrun).1⟩

theorem content_of_passed (h : (history file).Run tr file')
    (hpassed : ∀ p ∈ tr, p.2.passed = true) :
    file'.content = file.content ++ (List.replicate tr.length letters).flatten := by
  induction h with
  | start hs =>
    obtain rfl := hs
    exact (List.append_nil _).symm
  | @next tr s s' o _ hstep ih =>
    obtain ⟨hwrites, -⟩ := hstep
    obtain ⟨hcontent, -, hall, -⟩ := TWriten_cases hwrites
    have hlast : o.passed = true := hpassed (s, o) (by simp)
    rw [hcontent, hall.mp hlast, ih fun p hp => hpassed p (List.mem_append_left _ hp),
      List.length_append, List.length_singleton, List.replicate_succ', List.flatten_append,
      List.append_assoc]
    simp

/-- After runs in which `TWriten` passed, the next such run has `TReadn` read all that the file held
    at first and the letters of every run, or 200 bytes of it. `strlen(v)` then goes on behind the
    end of `v` exactly when this makes 200 bytes or more. -/
theorem strlen_leaves_buffer (hnul : 0 ∉ file.content) (h : (history file).Run tr file')
    (hpassed : ∀ p ∈ tr, p.2.passed = true) {file'' : File} (hlast : Program file' o file'')
    (hwrites : o.passed = true) (hopens : o.reads.opens = true)
    (hreads : ∀ r ∈ o.reads.outcomes, ∀ e, r ≠ .failed e) :
    o.n = (min 200 (file.content.length + 26 * (tr.length + 1)) : Nat) ∧
    (strlen o.v = none ↔ 200 ≤ file.content.length + 26 * (tr.length + 1)) := by
  obtain ⟨hwrite, hread⟩ := hlast
  obtain ⟨hcontent, -, hall, hsome⟩ := TWriten_cases hwrite
  rw [hall.mp hwrites, content_of_passed h hpassed] at hcontent
  have hsize : file''.content.length = file.content.length + 26 * (tr.length + 1) := by
    have hlen : letters.length = 26 := rfl
    rw [hcontent]
    simp only [List.length_append, List.length_flatten, List.map_replicate,
      List.sum_replicate_nat, hlen]
    omega
  have hnone : 0 ∉ file''.content := by
    have hletters : 0 ∉ letters := by decide
    rw [hcontent]
    simp only [List.mem_append, List.mem_flatten, List.mem_replicate, not_or, not_exists]
    refine ⟨⟨hnul, fun bs hbs => ?_⟩, hletters⟩
    obtain ⟨⟨-, rfl⟩, hmem⟩ := hbs
    exact hletters hmem
  obtain ⟨k, hk, -, -, hv, hend⟩ := TReadn_cases hread
  obtain ⟨hn, hmin⟩ := hend hopens (hsome hwrites) hreads
  rw [hsize] at hmin
  refine ⟨by rw [hn, hmin], ?_⟩
  rw [hv, strlen_read_eq_none hk]
  constructor
  · intro hfull
    omega
  · intro hlong
    exact ⟨by omega, fun hmem => hnone (List.mem_of_mem_take hmem)⟩

/-- A file of 148 bytes, and an earlier run that makes them 174. -/
theorem strlen_leaves_buffer_148 :
    let old : List UInt8 := List.replicate 148 97
    let content := old ++ letters ++ letters
    ∃ v, TReadn { opens := true, outcomes := [.bytes content] } (some content) = some (200, v) ∧
      strlen v = none := by
  intro old content
  let earlier : Outcome :=
    { writes := { fd := some 3, outcomes := [.wrote 26] }
      reads := { opens := true, outcomes := [.bytes (old ++ letters), .eof] }
      passed := true
      appended := letters
      n := 174
      v := old ++ letters ++ List.replicate 26 0 }
  let o : Outcome :=
    { writes := { fd := some 3, outcomes := [.wrote 26] }
      reads := { opens := true, outcomes := [.bytes content] }
      passed := true
      appended := letters
      n := 200
      v := content }
  have hfirst : Program (some old) earlier (some (old ++ letters)) :=
    ⟨by decide +kernel, by decide +kernel⟩
  have hlast : Program (some (old ++ letters)) o (some content) :=
    ⟨by decide +kernel, by decide +kernel⟩
  have hrun : (history (some old)).Run ([] ++ [(some old, earlier)]) (some (old ++ letters)) :=
    .next (.start rfl) hfirst
  have hleaves := strlen_leaves_buffer (by decide +kernel) hrun (by simp [earlier]) hlast rfl rfl
    (by simp [o])
  exact ⟨_, hlast.2, hleaves.2.mpr (by decide +kernel)⟩

end Transfer
