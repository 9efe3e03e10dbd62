import TestServer.Receiver.Parse

/-! # Which bytes `parse` consumes

    The length in a header is chosen by the peer. `parse` adds it to its
    cursor without looking at how many bytes were received, so a packet that
    has only partly arrived takes the cursor past them, and the count it
    returns becomes negative.

    * `ConsumesReceived`: the cursor stays among the received bytes, the count
      returned is one of them, and every packet delivered lies among them.
    * `WithinReceived`: along the chain of packets from the start, every
      header asks for no more than the bytes that are left.
    * `consumes_received_iff`: on input without a rejected header the two are
      the same.
-/

open CMemory Loop

namespace Receiver

/-- `parse(mem + start, n)` comes to no header that `GetMessageLength` rejects. -/
def MeetsNoRejected (mem : Mem) (start n : Nat) : Prop :=
  ∀ s, Visits (parsePass mem) (.start start n) s →
    Rpc.getMessageLength (view mem s.buffer_used) (sizeT s.count_used) ≠ some (-1)

/-- The packet of a delivered message lies between the addresses `start` and `e`. -/
def Delivery.Inside (start e : Int) (d : Delivery) : Prop :=
  start ≤ d.cursor ∧ 0 ≤ d.msg_length ∧ d.cursor + d.msg_length ≤ e

/-- `parse(mem + start, n)` consumes only the `n` bytes received. -/
structure ConsumesReceived (mem : Mem) (start n : Nat) : Prop where
  /-- On the way the cursor stays among the received bytes, and so does every packet. -/
  visits : ∀ s, Visits (parsePass mem) (.start start n) s → s.buffer_used ≤ start + n ∧
    ∀ d ∈ s.delivered, d.Inside start (start + n)
  /-- And so they do at the end, where the count returned is between 0 and `n`. -/
  returns : ∀ s, ParseReturns mem start n s → 0 ≤ s.count_used ∧ s.count_used ≤ n ∧
    s.buffer_used ≤ start + n ∧ ∀ d ∈ s.delivered, d.Inside start (start + n)

/-- From the address `p` on, with the received bytes ending at `e`, every header in the chain of
    packets asks for no more than the bytes left. The chain ends where fewer than eight bytes are
    left, at a header of length zero, or at a text without a NUL, which takes `parse` out of the
    memory before it moves on. -/
inductive WithinReceived (mem : Mem) (e : Int) : Int → Prop where
  | short {p : Int} : e - p < 8 → WithinReceived mem e p
  | zero {p : Int} : verdict mem p = some 0 → WithinReceived mem e p
  | runaway {p : Int} : ¬ Terminated mem p → WithinReceived mem e p
  | packet {p : Int} (l : Int) : verdict mem p = some l → 0 < l → l ≤ e - p →
      WithinReceived mem e (p + l) → WithinReceived mem e p

variable {mem : Mem} {start n : Nat}

theorem verdict_isSome (mem : Mem) {p : Int} (h₀ : 0 ≤ p) (h : p + 8 ≤ mem.length) :
    ∃ l, verdict mem p = some l := by
  apply Rpc.getMessageLength_isSome
  unfold view
  rw [if_neg (by omega), List.length_drop, Rpc.sizeofHeader]
  omega

/-! ### From the chain of headers to the cursor -/

/-- What holds at the head of every pass when the chain of headers stays inside. -/
structure InsideAt (mem : Mem) (start n : Nat) (s : ParseState) : Prop where
  count : s.count_used = start + n - s.buffer_used
  low : (start : Int) ≤ s.buffer_used
  high : s.buffer_used ≤ start + n
  chain : WithinReceived mem (start + n) s.buffer_used
  inside : ∀ d ∈ s.delivered, d.Inside start (start + n)

/-- A message moves the cursor to the next packet of the chain. -/
theorem InsideAt.advance {s : ParseState} (h : InsideAt mem start n s) {l : Int} {msg : List UInt8}
    (h8 : 8 ≤ s.count_used) (hv : verdict mem s.buffer_used = some l) (hne : l ≠ 0)
    (ht : Terminated mem s.buffer_used) : InsideAt mem start n (s.advance l msg) := by
  obtain ⟨hcount, hlow, hhigh, hchain, hinside⟩ := h
  cases hchain with
  | short hshort => omega
  | zero hzero =>
    rw [hzero] at hv
    exact absurd (Option.some.inj hv).symm hne
  | runaway hrun => exact absurd ht hrun
  | packet l' hv' hpos hle hrest =>
    obtain rfl : l' = l := Option.some.inj (hv'.symm.trans hv)
    refine ⟨?_, ?_, ?_, hrest, ?_⟩
    · show s.count_used - l' = start + n - (s.buffer_used + l')
      omega
    · show (start : Int) ≤ s.buffer_used + l'
      omega
    · show s.buffer_used + l' ≤ start + n
      omega
    · intro d hd
      rcases List.mem_append.mp hd with hd | hd
      · exact hinside d hd
      · -- the packet just delivered ends where the next one begins
        obtain rfl := List.mem_singleton.mp hd
        exact ⟨hlow, hpos.le, by simp only; omega⟩

theorem InsideAt.again {s s' : ParseState} (h : InsideAt mem start n s)
    (hpass : parsePass mem s = .again s') : InsideAt mem start n s' := by
  have hcount := h.count
  have hhigh := h.high
  rcases parsePass_verdict (s := s) mem (by omega) with
    ⟨-, hleave⟩ | hfault | ⟨l, msg, h8, hv, hne, ht, hmsg⟩
  · rw [hleave] at hpass
    cases hpass
  · rw [hfault] at hpass
    cases hpass
  · rw [hmsg] at hpass
    split at hpass <;> cases hpass
    exact h.advance h8 hv hne ht

theorem InsideAt.leave {s t : ParseState} (h : InsideAt mem start n s)
    (hpass : parsePass mem s = .leave (some t)) : InsideAt mem start n t := by
  have hcount := h.count
  have hhigh := h.high
  rcases parsePass_verdict (s := s) mem (by omega) with
    ⟨-, hleave⟩ | hfault | ⟨l, msg, h8, hv, hne, ht, hmsg⟩
  · -- nothing was consumed by the last pass
    rw [hleave] at hpass
    cases hpass
    exact h
  · rw [hfault] at hpass
    cases hpass
  · rw [hmsg] at hpass
    split at hpass <;> cases hpass
    exact h.advance h8 hv hne ht

theorem consumes_of_within (h : WithinReceived mem (start + n) start) :
    ConsumesReceived mem start n := by
  have hstart : InsideAt mem start n (.start start n) :=
    ⟨by simp [ParseState.start], le_refl _, by simp [ParseState.start], h,
      by simp [ParseState.start]⟩
  have hvisit : ∀ s, Visits (parsePass mem) (.start start n) s → InsideAt mem start n s :=
    fun s hs => hs.invariant (fun _ _ hI hpass => hI.again hpass) hstart
  constructor
  · intro s hs
    exact ⟨(hvisit s hs).high, (hvisit s hs).inside⟩
  · intro t ht
    -- the result comes from the last pass, and that one keeps the invariant too
    obtain ⟨s, hs, hlast⟩ := Returns.last ht
    have hend := (hvisit s hs).leave hlast
    have hcount := hend.count
    have hlow := hend.low
    have hhigh := hend.high
    exact ⟨by omega, by omega, hhigh, hend.inside⟩

/-! ### From the cursor back to the chain of headers -/

theorem within_of_consumes (hmem : start + n ≤ mem.length) (hmeets : MeetsNoRejected mem start n)
    (h : ConsumesReceived mem start n) {s : ParseState}
    (hs : Visits (parsePass mem) (.start start n) s)
    (hcount : s.count_used = start + n - s.buffer_used) (hlow : (start : Int) ≤ s.buffer_used)
    (hhigh : s.buffer_used ≤ start + n) : WithinReceived mem (start + n) s.buffer_used := by
  -- every accepted header takes at least one byte off the count
  induction hm : s.count_used.toNat using Nat.strongRecOn generalizing s with
  | _ m ih =>
    by_cases h8 : s.count_used < 8
    · exact .short (by omega)
    · obtain ⟨l, hv⟩ := verdict_isSome (p := s.buffer_used) mem (by omega) (by omega)
      by_cases hzero : l = 0
      · exact .zero (hzero ▸ hv)
      · by_cases ht : Terminated mem s.buffer_used
        · have hpos : 0 < l := by
            have hrej := hmeets s hs
            rw [getMessageLength_eq_verdict (by omega), hv] at hrej
            rcases verdict_range hv with rfl | ⟨hl, -⟩
            · exact absurd rfl hrej
            · omega
          obtain ⟨msg, hpass⟩ := parsePass_message (by omega) hv hzero ht
          split at hpass
          · next hmore =>
            -- the loop goes on: the next head shows that the packet was inside
            have hnext : Visits (parsePass mem) (.start start n) (s.advance l msg) := hs.tail hpass
            have hcur : s.buffer_used + l ≤ start + n := (h.visits _ hnext).1
            have hleft : 0 < s.count_used - l := hmore
            refine .packet l hv hpos (by omega) (ih (s.advance l msg).count_used.toNat ?_ hnext ?_
              ?_ ?_ rfl)
            · show (s.count_used - l).toNat < m
              omega
            · show s.count_used - l = start + n - (s.buffer_used + l)
              omega
            · show (start : Int) ≤ s.buffer_used + l
              omega
            · exact hcur
          · next hend =>
            -- the loop is left: the cursor it ends with shows it
            have hret : ParseReturns mem start n (s.advance l msg) :=
              hs.returns.mpr (Returns.leave hpass)
            have hcur : s.buffer_used + l ≤ start + n := (h.returns _ hret).2.2.1
            have hnone : ¬ 0 < s.count_used - l := hend
            exact .packet l hv hpos (by omega) (.short (by omega))
        · -- a text without a NUL takes `parse` out of the memory
          exact .runaway ht

/-- On input without a rejected header, `parse` consumes only what was received exactly when every
    header in the chain of packets asks for no more than the bytes left. -/
theorem consumes_received_iff (before received after : List UInt8)
    (h : MeetsNoRejected (before ++ (received ++ after)) before.length received.length) :
    ConsumesReceived (before ++ (received ++ after)) before.length received.length ↔
      WithinReceived (before ++ (received ++ after)) (before.length + received.length)
        before.length := by
  constructor
  · intro hcons
    let s := ParseState.start before.length received.length
    have hstart : WithinReceived (before ++ (received ++ after))
        (before.length + received.length) s.buffer_used :=
      within_of_consumes (by simp) h hcons Relation.ReflTransGen.refl
        (by simp [s, ParseState.start]) (le_refl _) (by simp [s, ParseState.start])
    exact hstart
  · exact consumes_of_within

/-! ### A packet that has only begun to arrive -/

/-- The header of a packet of a thousand bytes. -/
def begun : List UInt8 := [0x22, 0x33, 0x44, 0x55, 0xE8, 3, 0, 0]

theorem parsePass_begun :
    parsePass (begun ++ [0]) (.start 0 8)
      = .leave (some ((ParseState.start 0 8).advance 1000 [])) := by
  rfl

theorem meetsNoRejected_begun : MeetsNoRejected (begun ++ [0]) 0 8 := by
  intro s hs
  -- there is only one pass, so only one head to look at
  have hstay : s = .start 0 8 := by
    apply hs.invariant (I := fun s => s = .start 0 8) _ rfl
    intro t t' ht hpass
    subst ht
    rw [parsePass_begun] at hpass
    cases hpass
  rw [hstay]
  decide

theorem consumes_received_iff_begun :
    ConsumesReceived (begun ++ [0]) 0 8 ↔ WithinReceived (begun ++ [0]) 8 0 :=
  consumes_received_iff [] begun [0] meetsNoRejected_begun

/-- Eight received bytes after which `parse` returns a count of -992. -/
theorem parse_consumes_too_much :
    ¬ ∀ before received after : List UInt8,
      MeetsNoRejected (before ++ (received ++ after)) before.length received.length →
        ConsumesReceived (before ++ (received ++ after)) before.length received.length := by
  intro hall
  have hret : ParseReturns (begun ++ [0]) 0 8 ((ParseState.start 0 8).advance 1000 []) :=
    Returns.leave parsePass_begun
  have hneg := ((hall [] begun [0] meetsNoRejected_begun).returns _ hret).1
  simp [ParseState.advance, ParseState.start] at hneg

end Receiver
