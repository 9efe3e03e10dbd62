import TestServer.Lib.Loop
import TestServer.Rpc.RoundTrip

/-! # The receiver's `parse` loop

    `parse` of `sample_socket/test_server.cpp`; `sample_client/test_client.cpp`
    holds the same function. It walks a cursor over the received bytes, packet
    by packet, and prints the text of each:

    ```
    do {
        ssize_t msg_length = rpc::Rpc::GetMessageLength(buffer_used, (size_t)count_used);
        if (msg_length == 0) break;
        std::string msg;
        int ret = rpc::Rpc::Parse(buffer_used, msg_length, msg);
        printf("read [%s]\n", msg.c_str());
        buffer_used = buffer_used + msg_length;
        count_used = count_used - msg_length;
    } while (count_used > 0);
    return count_used;
    ```

    Neither the -1 of `GetMessageLength` nor `ret` is looked at. Addresses are
    indices into the accessible memory, which may extend below and above the
    received bytes.
-/

open CMemory Loop

namespace Receiver

/-! ### The loop -/

/-- The conversion of an `ssize_t` to `size_t`. -/
def sizeT (x : Int) : Nat := if x < 0 then (x + 2 ^ 64).toNat else x.toNat

/-- The memory accessible from the address `p` on. -/
def view (mem : Mem) (p : Int) : Mem := if p < 0 then [] else mem.drop p.toNat

/-- A message `parse` printed: where its packet was, the length it took for it, and the text. -/
structure Delivery where
  cursor : Int
  msg_length : Int
  msg : List UInt8

/-- The variables of `parse`, and what it printed so far. -/
structure ParseState where
  buffer_used : Int
  count_used : Int
  delivered : List Delivery

/-- The variables after a message of length `msg_length` was printed as `msg`. -/
def ParseState.advance (s : ParseState) (msg_length : Int) (msg : List UInt8) : ParseState where
  buffer_used := s.buffer_used + msg_length
  count_used := s.count_used - msg_length
  delivered := s.delivered ++ [{ cursor := s.buffer_used, msg_length, msg }]

/-- One pass through the loop of `parse`. The loop is left with the final variables, or with
    `none` if an access fell outside the memory. -/
def parsePass (mem : Mem) (s : ParseState) : Pass ParseState (Option ParseState) :=
  match Rpc.getMessageLength (view mem s.buffer_used) (sizeT s.count_used) with
  | none => .leave none
  | some msg_length =>
    if msg_length = 0 then .leave (some s)
    else
      -- a length of -1 gets here too, and is converted to `size_t`
      match Rpc.parse (view mem s.buffer_used) (sizeT msg_length) [] with
      | none => .leave none
      | some (_ret, msg) =>
        -- the return code is not looked at: the text is printed, the cursor moves
        if 0 < (s.advance msg_length msg).count_used then .again (s.advance msg_length msg)
        else .leave (some (s.advance msg_length msg))

/-- The variables `parse(mem + start, count)` starts with. -/
def ParseState.start (start count : Int) : ParseState where
  buffer_used := start
  count_used := count
  delivered := []

/-- `parse(mem + start, count)` returns `s.count_used`, having moved the cursor to
    `s.buffer_used` and printed `s.delivered`. -/
def ParseReturns (mem : Mem) (start count : Int) (s : ParseState) : Prop :=
  Returns (parsePass mem) (.start start count) (some s)

/-! ### The conversions -/

theorem sizeT_of_nonneg {x : Int} (h : 0 ≤ x) : sizeT x = x.toNat := by
  rw [sizeT, if_neg (by omega)]

@[simp] theorem sizeT_natCast (n : Nat) : sizeT n = n := by simp [sizeT]

@[simp] theorem view_natCast (mem : Mem) (p : Nat) : view mem p = mem.drop p := by simp [view]

theorem view_add {mem : Mem} {p : Int} {n : Nat} {xs rest : List UInt8}
    (h : view mem p = xs ++ rest) (hp : 0 ≤ p) (hn : n = xs.length) : view mem (p + n) = rest := by
  subst hn
  unfold view at h ⊢
  rw [if_neg (by omega)] at h ⊢
  have htoNat : (p + xs.length).toNat = p.toNat + xs.length := by omega
  rw [htoNat, ← List.drop_drop, h, List.drop_left]

/-! ### One pass -/

variable {mem : Mem} {s : ParseState}

/-- Fewer bytes than a header: the loop is left. -/
theorem parsePass_short (h₀ : 0 ≤ s.count_used) (h : s.count_used < 8) :
    parsePass mem s = .leave (some s) := by
  have hlt : sizeT s.count_used < Rpc.sizeofHeader := by
    rw [sizeT_of_nonneg h₀, Rpc.sizeofHeader]
    omega
  simp [parsePass, Rpc.getMessageLength, hlt]

theorem parsePass_zero
    (h : Rpc.getMessageLength (view mem s.buffer_used) (sizeT s.count_used) = some 0) :
    parsePass mem s = .leave (some s) := by
  simp [parsePass, h]

theorem parsePass_unreadable
    (h : Rpc.getMessageLength (view mem s.buffer_used) (sizeT s.count_used) = none) :
    parsePass mem s = .leave none := by
  simp [parsePass, h]

theorem parsePass_unterminated {msg_length : Int} (hne : msg_length ≠ 0)
    (h : Rpc.getMessageLength (view mem s.buffer_used) (sizeT s.count_used) = some msg_length)
    (hparse : Rpc.parse (view mem s.buffer_used) (sizeT msg_length) [] = none) :
    parsePass mem s = .leave none := by
  simp [parsePass, h, hne, hparse]

theorem parsePass_advance {msg_length ret : Int} {msg : List UInt8} (hne : msg_length ≠ 0)
    (h : Rpc.getMessageLength (view mem s.buffer_used) (sizeT s.count_used) = some msg_length)
    (hparse : Rpc.parse (view mem s.buffer_used) (sizeT msg_length) [] = some (ret, msg)) :
    parsePass mem s = if 0 < (s.advance msg_length msg).count_used then
      .again (s.advance msg_length msg) else .leave (some (s.advance msg_length msg)) := by
  simp [parsePass, h, hne, hparse]

/-- Everything one pass can do. -/
theorem parsePass_cases (mem : Mem) (s : ParseState) :
    (Rpc.getMessageLength (view mem s.buffer_used) (sizeT s.count_used) = some 0 ∧
      parsePass mem s = .leave (some s)) ∨
    parsePass mem s = .leave none ∨
    ∃ msg_length ret msg, msg_length ≠ 0 ∧
      Rpc.getMessageLength (view mem s.buffer_used) (sizeT s.count_used) = some msg_length ∧
      Rpc.parse (view mem s.buffer_used) (sizeT msg_length) [] = some (ret, msg) ∧
      parsePass mem s = if 0 < (s.advance msg_length msg).count_used then
        .again (s.advance msg_length msg) else .leave (some (s.advance msg_length msg)) := by
  cases hl : Rpc.getMessageLength (view mem s.buffer_used) (sizeT s.count_used) with
  | none => exact Or.inr (Or.inl (parsePass_unreadable hl))
  | some msg_length =>
    by_cases hz : msg_length = 0
    · subst hz
      exact Or.inl ⟨rfl, parsePass_zero hl⟩
    · cases hp : Rpc.parse (view mem s.buffer_used) (sizeT msg_length) [] with
      | none => exact Or.inr (Or.inl (parsePass_unterminated hz hl hp))
      | some rm =>
        exact Or.inr (Or.inr ⟨msg_length, rm.1, rm.2, hz, rfl, hp, parsePass_advance hz hl hp⟩)

/-- As long as the count does not become negative, leaving the loop after a message is the same
    as going round again: the next pass would leave it at once. -/
theorem returns_advance {msg_length : Int} {msg : List UInt8} {r : Option ParseState}
    (hpass : parsePass mem s = if 0 < (s.advance msg_length msg).count_used then
      .again (s.advance msg_length msg) else .leave (some (s.advance msg_length msg)))
    (h : 0 ≤ (s.advance msg_length msg).count_used) :
    Returns (parsePass mem) s r ↔ Returns (parsePass mem) (s.advance msg_length msg) r := by
  by_cases hpos : 0 < (s.advance msg_length msg).count_used
  · rw [if_pos hpos] at hpass
    exact returns_again hpass
  · -- nothing is left, and a pass over nothing leaves the loop with the same variables
    rw [if_neg hpos] at hpass
    rw [returns_leave hpass, returns_leave (parsePass_short h (by omega))]

/-- What was printed stays printed. -/
theorem delivered_mono {t : ParseState} (h : Returns (parsePass mem) s (some t)) :
    s.delivered <+: t.delivered := by
  refine Returns.induct (P := fun s r => ∀ t, r = some t → s.delivered <+: t.delivered) ?_ ?_ h
    t rfl
  · -- the last pass leaves the loop as it is, or after one more message
    intro s r hb t hr
    subst hr
    rcases parsePass_cases mem s with ⟨-, hp⟩ | hp | ⟨l, ret, msg, -, -, -, hp⟩
    · rw [hp] at hb
      cases hb
      exact List.prefix_refl _
    · rw [hp] at hb
      cases hb
    · rw [hp] at hb
      split at hb <;> cases hb
      exact List.prefix_append _ _
  · intro s s' r hb _ ih t hr
    apply List.IsPrefix.trans _ (ih t hr)
    rcases parsePass_cases mem s with ⟨-, hp⟩ | hp | ⟨l, ret, msg, -, -, -, hp⟩
    · rw [hp] at hb
      cases hb
    · rw [hp] at hb
      cases hb
    · rw [hp] at hb
      split at hb <;> cases hb
      exact List.prefix_append _ _

/-! ### Passes by the header at the cursor -/

/-- What `GetMessageLength` says of the header at the address `p`. -/
def verdict (mem : Mem) (p : Int) : Option Int :=
  Rpc.getMessageLength (view mem p) Rpc.sizeofHeader

/-- The memory holds a NUL from the text of the packet at `p` on, so that `strlen` stops. -/
def Terminated (mem : Mem) (p : Int) : Prop := 0 ∈ (view mem p).drop Rpc.offsetMsg

instance (mem : Mem) (p : Int) : Decidable (Terminated mem p) :=
  inferInstanceAs (Decidable (0 ∈ (view mem p).drop Rpc.offsetMsg))

theorem getMessageLength_eq_verdict (h : 8 ≤ s.count_used) :
    Rpc.getMessageLength (view mem s.buffer_used) (sizeT s.count_used)
      = verdict mem s.buffer_used := by
  have hle : Rpc.sizeofHeader ≤ sizeT s.count_used := by
    rw [sizeT_of_nonneg (by omega), Rpc.sizeofHeader]
    omega
  exact Rpc.getMessageLength_of_le hle

theorem verdict_range {p l : Int} (h : verdict mem p = some l) :
    l = -1 ∨ (0 ≤ l ∧ l ≤ 1024000) := Rpc.getMessageLength_range h

/-- A header that is not zero, and a text that ends: a message is printed and the cursor moves by
    what the header says, be it backwards. -/
theorem parsePass_message {l : Int} (h : 8 ≤ s.count_used)
    (hv : verdict mem s.buffer_used = some l) (hne : l ≠ 0) (ht : Terminated mem s.buffer_used) :
    ∃ msg, parsePass mem s = if 0 < (s.advance l msg).count_used then
      .again (s.advance l msg) else .leave (some (s.advance l msg)) := by
  obtain ⟨header, hread⟩ := Rpc.read_of_getMessageLength (le_refl _) hv
  obtain ⟨ret, msg, hparse⟩ := Rpc.parse_of_terminated hread ht (sizeT l) []
  exact ⟨msg, parsePass_advance hne ((getMessageLength_eq_verdict h).trans hv) hparse⟩

/-- A rejected header moves the cursor one byte back. -/
theorem parsePass_rejected (h : 8 ≤ s.count_used)
    (hv : verdict mem s.buffer_used = some (-1)) (ht : Terminated mem s.buffer_used) :
    ∃ msg, parsePass mem s = .again (s.advance (-1) msg) := by
  obtain ⟨msg, hpass⟩ := parsePass_message h hv (by decide) ht
  -- the count grows, so the loop goes on
  have hmore : 0 < (s.advance (-1) msg).count_used := by
    show 0 < s.count_used - (-1)
    omega
  rw [if_pos hmore] at hpass
  exact ⟨msg, hpass⟩

/-- A text that does not end takes `parse` out of the memory. -/
theorem parsePass_runaway {l : Int} (h : 8 ≤ s.count_used)
    (hv : verdict mem s.buffer_used = some l) (hne : l ≠ 0) (ht : ¬ Terminated mem s.buffer_used) :
    parsePass mem s = .leave none :=
  parsePass_unterminated hne ((getMessageLength_eq_verdict h).trans hv)
    (Rpc.parse_of_unterminated ht _ _)

/-- Everything one pass can do, by the header at the cursor. -/
theorem parsePass_verdict (mem : Mem) (h₀ : 0 ≤ s.count_used) :
    ((s.count_used < 8 ∨ verdict mem s.buffer_used = some 0) ∧ parsePass mem s = .leave (some s)) ∨
    parsePass mem s = .leave none ∨
    ∃ l msg, 8 ≤ s.count_used ∧ verdict mem s.buffer_used = some l ∧ l ≠ 0 ∧
      Terminated mem s.buffer_used ∧ parsePass mem s =
        if 0 < (s.advance l msg).count_used then .again (s.advance l msg)
        else .leave (some (s.advance l msg)) := by
  by_cases h8 : s.count_used < 8
  · exact Or.inl ⟨Or.inl h8, parsePass_short h₀ h8⟩
  · have hle : 8 ≤ s.count_used := by omega
    cases hv : verdict mem s.buffer_used with
    | none =>
      exact Or.inr (Or.inl (parsePass_unreadable ((getMessageLength_eq_verdict hle).trans hv)))
    | some l =>
      by_cases hz : l = 0
      · subst hz
        exact Or.inl ⟨Or.inr rfl, parsePass_zero ((getMessageLength_eq_verdict hle).trans hv)⟩
      · by_cases ht : Terminated mem s.buffer_used
        · obtain ⟨msg, hpass⟩ := parsePass_message hle hv hz ht
          exact Or.inr (Or.inr ⟨l, msg, hle, rfl, hz, ht, hpass⟩)
        · exact Or.inr (Or.inl (parsePass_runaway hle hv hz ht))

/-! ### Whole packets -/

/-- The state after the packets of `ps` were consumed. -/
def ParseState.consume (s : ParseState) : List Rpc.Payload → ParseState
  | [] => s
  | p :: ps => (s.advance p.size p.text).consume ps

theorem ParseState.consume_buffer_used (s : ParseState) (ps : List Rpc.Payload) :
    (s.consume ps).buffer_used = s.buffer_used + (Rpc.code.encodeAll ps).length := by
  induction ps generalizing s with
  | nil => simp [consume]
  | cons p ps ih =>
    have hlen : (Rpc.code.encode p).length = p.size := p.frame_length
    simp only [consume, ih, advance, PrefixCode.encodeAll_cons, List.length_append, hlen]
    omega

theorem ParseState.consume_count_used (s : ParseState) (ps : List Rpc.Payload) :
    (s.consume ps).count_used = s.count_used - (Rpc.code.encodeAll ps).length := by
  induction ps generalizing s with
  | nil => simp [consume]
  | cons p ps ih =>
    have hlen : (Rpc.code.encode p).length = p.size := p.frame_length
    simp only [consume, ih, advance, PrefixCode.encodeAll_cons, List.length_append, hlen]
    omega

/-- The messages delivered are the texts of the payloads, in order. -/
theorem ParseState.consume_delivered (s : ParseState) (ps : List Rpc.Payload) :
    (s.consume ps).delivered.map Delivery.msg
      = s.delivered.map Delivery.msg ++ ps.map Rpc.Payload.text := by
  induction ps generalizing s with
  | nil => simp [consume]
  | cons p ps ih => simp [consume, ih, advance]

/-- One pass over a whole packet. -/
theorem parsePass_packet (p : Rpc.Payload) {rest : List UInt8}
    (hview : view mem s.buffer_used = Rpc.code.encode p ++ rest)
    (hcount : (p.size : Int) ≤ s.count_used) :
    parsePass mem s = if 0 < (s.advance p.size p.text).count_used then
      .again (s.advance p.size p.text) else .leave (some (s.advance p.size p.text)) := by
  have hsize := p.size_ge
  simp only [Rpc.sizeofMessage] at hsize
  have hheader : Rpc.sizeofHeader ≤ sizeT s.count_used := by
    rw [sizeT_of_nonneg (by omega), Rpc.sizeofHeader]
    omega
  have hlength : Rpc.getMessageLength (view mem s.buffer_used) (sizeT s.count_used)
      = some (p.size : Int) := by
    rw [hview]
    exact p.getMessageLength_frame rest hheader
  have hparse : Rpc.parse (view mem s.buffer_used) (sizeT p.size) [] = some (0, p.text) := by
    rw [hview, sizeT_natCast]
    exact p.parse_frame rest []
  exact parsePass_advance (by omega) hlength hparse

/-- Received bytes that begin with whole packets are parsed as from the end of these packets. -/
theorem returns_consume {ps : List Rpc.Payload} {rest : List UInt8} {r : Option ParseState}
    (hview : view mem s.buffer_used = Rpc.code.encodeAll ps ++ rest) (hpos : 0 ≤ s.buffer_used)
    (hcount : ((Rpc.code.encodeAll ps).length : Int) ≤ s.count_used) :
    Returns (parsePass mem) s r ↔ Returns (parsePass mem) (s.consume ps) r := by
  induction ps generalizing s with
  | nil => rfl
  | cons p ps ih =>
    have hlen : (Rpc.code.encode p).length = p.size := p.frame_length
    rw [PrefixCode.encodeAll_cons, List.append_assoc] at hview
    rw [PrefixCode.encodeAll_cons, List.length_append, hlen] at hcount
    have hpass := parsePass_packet p hview (by omega)
    have hleft : 0 ≤ (s.advance p.size p.text).count_used := by
      show 0 ≤ s.count_used - p.size
      omega
    rw [returns_advance hpass hleft]
    apply ih (view_add hview hpos hlen.symm)
    · show 0 ≤ s.buffer_used + p.size
      omega
    · show ((Rpc.code.encodeAll ps).length : Int) ≤ s.count_used - p.size
      omega

/-- The heads of the passes over whole packets, when received bytes follow them. -/
theorem visits_consume {ps : List Rpc.Payload} {rest : List UInt8}
    (hview : view mem s.buffer_used = Rpc.code.encodeAll ps ++ rest) (hpos : 0 ≤ s.buffer_used)
    (hcount : ((Rpc.code.encodeAll ps).length : Int) < s.count_used) :
    Visits (parsePass mem) s (s.consume ps) := by
  induction ps generalizing s with
  | nil => exact Relation.ReflTransGen.refl
  | cons p ps ih =>
    have hlen : (Rpc.code.encode p).length = p.size := p.frame_length
    rw [PrefixCode.encodeAll_cons, List.append_assoc] at hview
    rw [PrefixCode.encodeAll_cons, List.length_append, hlen] at hcount
    have hpass := parsePass_packet p hview (by omega)
    have hmore : 0 < (s.advance p.size p.text).count_used := by
      show 0 < s.count_used - p.size
      omega
    rw [if_pos hmore] at hpass
    refine Relation.ReflTransGen.head hpass (ih (view_add hview hpos hlen.symm) ?_ ?_)
    · show 0 ≤ s.buffer_used + p.size
      omega
    · show ((Rpc.code.encodeAll ps).length : Int) < s.count_used - p.size
      omega

/-- Whole packets, then fewer bytes than a header: the packets are delivered and the rest is left
    over. -/
theorem returns_packets {ps : List Rpc.Payload} {rest : List UInt8}
    (hview : view mem s.buffer_used = Rpc.code.encodeAll ps ++ rest) (hpos : 0 ≤ s.buffer_used)
    (hcount : ((Rpc.code.encodeAll ps).length : Int) ≤ s.count_used)
    (htail : s.count_used < (Rpc.code.encodeAll ps).length + 8) :
    Returns (parsePass mem) s (some (s.consume ps)) := by
  rw [returns_consume hview hpos hcount]
  apply Returns.leave
  apply parsePass_short
  · rw [ParseState.consume_count_used]
    omega
  · rw [ParseState.consume_count_used]
    omega

/-! ### Batches -/

/-- Received bytes made of the packets of a list of strings and a tail too short for a header:
    `parse` delivers exactly the strings, each up to its first NUL, in order and once each, and
    returns the length of the tail. -/
theorem parse_batch (ss fs : List (List UInt8)) (tail before after : List UInt8)
    (hss : List.Forall₂ Rpc.Serializes ss fs) (htail : tail.length < 8) :
    ∃ s, ParseReturns (before ++ (fs.flatten ++ (tail ++ after))) before.length
        (fs.flatten ++ tail).length s ∧
      s.delivered.map Delivery.msg = ss.map beforeNul ∧ s.count_used = tail.length := by
  obtain ⟨ps, hps, hflat⟩ := Rpc.forall₂_serializes hss
  rw [hflat]
  have hview : view (before ++ (Rpc.code.encodeAll ps ++ (tail ++ after))) before.length
      = Rpc.code.encodeAll ps ++ (tail ++ after) := by simp
  refine ⟨(ParseState.start _ _).consume ps, returns_packets hview ?_ ?_ ?_, ?_, ?_⟩
  · exact Int.natCast_nonneg _
  · show ((Rpc.code.encodeAll ps).length : Int) ≤ (Rpc.code.encodeAll ps ++ tail).length
    rw [List.length_append, Nat.cast_add]
    omega
  · show ((Rpc.code.encodeAll ps ++ tail).length : Int) < (Rpc.code.encodeAll ps).length + 8
    rw [List.length_append, Nat.cast_add]
    omega
  · rw [ParseState.consume_delivered, hps]
    simp [ParseState.start]
  · rw [ParseState.consume_count_used]
    simp [ParseState.start]

/-- Two packets, the second one empty, then three stray bytes. -/
theorem parse_batch_two :
    let f₁ : List UInt8 := [0x22, 0x33, 0x44, 0x55, 11, 0, 0, 0, 72, 105, 0]
    let f₂ : List UInt8 := [0x22, 0x33, 0x44, 0x55, 9, 0, 0, 0, 0]
    ∃ s, ParseReturns ([7] ++ ([f₁, f₂].flatten ++ ([1, 2, 3] ++ [72, 72]))) 1
        ([f₁, f₂].flatten ++ [1, 2, 3]).length s ∧
      s.delivered.map Delivery.msg = [[72, 105], []] ∧ s.count_used = 3 :=
  parse_batch [[72, 105], [0, 72]] _ [1, 2, 3] [7] [72, 72]
    (.cons ⟨by decide, List.replicate 11 0, by decide⟩
      (.cons ⟨by decide, List.replicate 9 0, by decide⟩ .nil)) (by decide)

end Receiver
