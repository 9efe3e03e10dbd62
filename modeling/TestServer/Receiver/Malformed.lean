import TestServer.Receiver.Parse

/-! # `parse` on malformed input

    A rejected header makes `parse` move its cursor one byte back, where it
    finds another header, and so on until one is accepted. That one decides
    whether the loop ever ends: its packet must reach beyond the header that
    was rejected, or the cursor comes back to it for ever.

    * `Settles`: the headers in memory let the cursor come to rest.
    * `returns_iff_settles`: `parse` returns exactly when they do.
    * `EndsOnMalformed`: what a receiver must do when whole packets are
      followed by a malformed one. `parse_ends_iff`: `parse` does so exactly
      when the headers let it return and there is no malformed packet.
-/

open CMemory Loop

namespace Receiver

/-! ### Where the cursor comes to rest -/

/-- The headers above `p` and up to `q` are all rejected, and `parse` can step back over them. -/
def RejectedBetween (mem : Mem) (p q : Int) : Prop :=
  ∀ x, p < x → x ≤ q → verdict mem x = some (-1) ∧ Terminated mem x

/-- From `q` on, with the received bytes ending at `e`, the headers in memory lead the cursor
    steadily forward to an end: there are fewer than eight bytes left; or the last header up to
    `q` that is not rejected, at `p`, has length zero; or its packet reaches beyond `q`, and the
    headers after that packet lead to an end. -/
inductive Settles (mem : Mem) (e : Int) : Int → Prop where
  | short {q : Int} : e - q < 8 → Settles mem e q
  | zero {q : Int} (p : Int) : 8 ≤ e - q → p ≤ q → RejectedBetween mem p q →
      verdict mem p = some 0 → Settles mem e q
  | packet {q : Int} (p l : Int) : 8 ≤ e - q → p ≤ q → RejectedBetween mem p q →
      verdict mem p = some l → 0 < l → Terminated mem p → q < p + l →
      Settles mem e (p + l) → Settles mem e q

/-- The variables of `parse` when its cursor is at `q` and the received bytes end at `e`. -/
def ParseState.At (e q : Int) (s : ParseState) : Prop :=
  s.buffer_used = q ∧ s.count_used = e - q

theorem ParseState.At.advance {e q : Int} {s : ParseState} (h : s.At e q) (l : Int)
    (msg : List UInt8) : (s.advance l msg).At e (q + l) := by
  obtain ⟨hb, hc⟩ := h
  constructor
  · show s.buffer_used + l = q + l
    rw [hb]
  · show s.count_used - l = e - (q + l)
    omega

variable {mem : Mem} {e : Int}

theorem RejectedBetween.refl (p : Int) : RejectedBetween mem p p := by
  intro x h₁ h₂
  omega

theorem RejectedBetween.step {p q : Int} (h : RejectedBetween mem p (q - 1))
    (hq : verdict mem q = some (-1)) (ht : Terminated mem q) : RejectedBetween mem p q := by
  intro x h₁ h₂
  by_cases hx : x = q
  · exact hx ▸ ⟨hq, ht⟩
  · exact h x h₁ (by omega)

/-- The cursor steps back over rejected headers. -/
theorem visits_back {p q : Int} (hpq : p ≤ q) (hq : 8 ≤ e - q) (hrej : RejectedBetween mem p q)
    {s : ParseState} (hs : s.At e q) : ∃ t, Visits (parsePass mem) s t ∧ t.At e p := by
  obtain ⟨n, hn⟩ : ∃ n : Nat, q = p + n := ⟨(q - p).toNat, by omega⟩
  induction n generalizing q s with
  | zero =>
    obtain rfl : q = p := by omega
    exact ⟨s, Relation.ReflTransGen.refl, hs⟩
  | succ n ih =>
    -- the header at `q` is rejected: one byte back, and on from there
    obtain ⟨hv, ht⟩ := hrej q (by omega) (le_refl q)
    obtain ⟨hb, hc⟩ := hs
    rw [← hb] at hv ht
    obtain ⟨msg, hpass⟩ := parsePass_rejected (by omega) hv ht
    have hback : (s.advance (-1) msg).At e (q - 1) := ParseState.At.advance ⟨hb, hc⟩ (-1) msg
    obtain ⟨t, hvisit, hat⟩ := ih (q := q - 1) (by omega) (by omega)
      (fun x h₁ h₂ => hrej x h₁ (by omega)) hback (by omega)
    exact ⟨t, Relation.ReflTransGen.head hpass hvisit, hat⟩

/-- A packet that ends at a rejected header keeps the cursor in a circle for ever. -/
theorem not_returns_of_trap {p q l : Int} (hpq : p < q) (hq : 8 ≤ e - q)
    (hrej : RejectedBetween mem p q) (hv : verdict mem p = some l) (ht : Terminated mem p)
    (htrap : p + l = q) {s : ParseState} (hs : s.At e q)
    (r : Option ParseState) : ¬ Returns (parsePass mem) s r := by
  -- whenever the cursor is at `q`, it will be there again
  apply not_returns_of_recurrent (S := fun s => s.At e q) _ hs r
  intro s hs
  obtain ⟨t, hvisit, hat⟩ := visits_back hpq.le hq hrej hs
  obtain ⟨hb, hc⟩ := hat
  rw [← hb] at hv ht
  obtain ⟨msg, hpass⟩ := parsePass_message (by omega) hv (by omega) ht
  have hmore : 0 < (t.advance l msg).count_used := by
    show 0 < t.count_used - l
    omega
  rw [if_pos hmore] at hpass
  refine ⟨t.advance l msg, ?_, Relation.TransGen.tail' hvisit hpass⟩
  rw [← htrap]
  exact ParseState.At.advance ⟨hb, hc⟩ l msg

/-! ### When `parse` returns -/

theorem settles_of_returns {q : Int} {s t : ParseState} (hs : s.At e q) (hq : 0 ≤ e - q)
    (h : Returns (parsePass mem) s (some t)) : Settles mem e q := by
  refine Returns.induct (P := fun s r => ∀ q t, r = some t → s.At e q → 0 ≤ e - q →
    Settles mem e q) ?_ ?_ h q t rfl hs hq
  · -- the last pass
    rintro s r hlast q t rfl ⟨rfl, hc⟩ hq
    rcases parsePass_verdict (s := s) mem (by omega) with
      ⟨hshort | hzero, -⟩ | hfault | ⟨l, msg, h8, hv, hne, ht, hpass⟩
    · exact .short (by omega)
    · by_cases h8 : e - s.buffer_used < 8
      · exact .short h8
      · exact .zero _ (by omega) (le_refl _) (RejectedBetween.refl _) hzero
    · rw [hfault] at hlast
      cases hlast
    · -- the loop is left because the packet reaches the end of the received bytes
      rw [hpass] at hlast
      split at hlast
      · cases hlast
      · next hend =>
        have hnone : ¬ 0 < s.count_used - l := hend
        exact .packet _ l (by omega) (le_refl _) (RejectedBetween.refl _) hv (by omega) ht
          (by omega) (.short (by omega))
  · -- a pass before it, from whose next head on the headers lead to an end
    rintro s s' r hagain hr ih q t rfl ⟨rfl, hc⟩ hq
    rcases parsePass_verdict (s := s) mem (by omega) with
      ⟨-, hleave⟩ | hfault | ⟨l, msg, h8, hv, hne, ht, hpass⟩
    · rw [hleave] at hagain
      cases hagain
    · rw [hfault] at hagain
      cases hagain
    · rw [hpass] at hagain
      split at hagain
      · next hmore =>
        cases hagain
        have hnext : (s.advance l msg).At e (s.buffer_used + l) :=
          ParseState.At.advance ⟨rfl, hc⟩ l msg
        have hset := ih _ _ rfl hnext (by obtain ⟨-, hcount⟩ := hnext; omega)
        rcases verdict_range hv with rfl | ⟨hlow, -⟩
        · -- a rejected header: look at how the walk back from the byte below it goes on
          cases hset with
          | short hshort => omega
          | zero p _ hp hrej hz =>
            exact .zero p (by omega) (by omega) (hrej.step hv ht) hz
          | packet p l' _ hp hrej hv' hl' ht' hreach hrest =>
            by_cases htrap : p + l' = s.buffer_used
            · -- that packet ends here: the loop would not return
              exact absurd (Returns.again (hpass.trans (if_pos hmore)) hr)
                (not_returns_of_trap (by omega) (by omega) (hrej.step hv ht) hv' ht' htrap
                  ⟨rfl, hc⟩ _)
            · exact .packet p l' (by omega) (by omega) (hrej.step hv ht) hv' hl' ht' (by omega)
                hrest
        · -- an accepted header: its packet reaches beyond it
          exact .packet _ l (by omega) (le_refl _) (RejectedBetween.refl _) hv (by omega) ht
            (by omega) hset
      · cases hagain

theorem returns_of_settles {q : Int} (h : Settles mem e q) {s : ParseState} (hs : s.At e q)
    (hq : 0 ≤ e - q) : ∃ t, Returns (parsePass mem) s (some t) := by
  induction h generalizing s with
  | short hshort =>
    obtain ⟨hb, hc⟩ := hs
    exact ⟨s, Returns.leave (parsePass_short (by omega) (by omega))⟩
  | zero p h8 hpq hrej hz =>
    obtain ⟨t, hvisit, hb, hc⟩ := visits_back hpq h8 hrej hs
    rw [← hb] at hz
    exact ⟨t, hvisit.returns.mpr (Returns.leave (parsePass_zero
      ((getMessageLength_eq_verdict (by omega)).trans hz)))⟩
  | packet p l h8 hpq hrej hv hl ht hreach _ ih =>
    -- back over the rejected headers, then forward over the packet at `p`
    obtain ⟨t, hvisit, hb, hc⟩ := visits_back hpq h8 hrej hs
    rw [← hb] at hv ht
    obtain ⟨msg, hpass⟩ := parsePass_message (by omega) hv (by omega) ht
    have hnext : (t.advance l msg).At e (p + l) := ParseState.At.advance ⟨hb, hc⟩ l msg
    split at hpass
    · next hmore =>
      obtain ⟨u, hu⟩ := ih hnext (by obtain ⟨-, hcount⟩ := hnext; omega)
      exact ⟨u, hvisit.returns.mpr (Returns.again hpass hu)⟩
    · exact ⟨_, hvisit.returns.mpr (Returns.leave hpass)⟩

/-- `parse` returns exactly when the headers in memory lead its cursor to an end. -/
theorem returns_iff_settles {start : Int} {n : Nat} :
    (∃ s, ParseReturns mem start n s) ↔ Settles mem (start + n) start := by
  have hat : (ParseState.start start n).At (start + n) start := ⟨rfl, by simp [ParseState.start]⟩
  constructor
  · intro hreturns
    obtain ⟨s, hs⟩ := hreturns
    exact settles_of_returns hat (by omega) hs
  · intro h
    exact returns_of_settles h hat (by omega)

/-! ### Whole packets followed by a malformed one -/

/-- The received bytes are the packets of the strings `ss`, then at least eight bytes `bad` whose
    header `GetMessageLength` rejects. -/
structure MalformedAfter (received after : List UInt8) (ss fs : List (List UInt8))
    (bad : List UInt8) : Prop where
  packets : List.Forall₂ Rpc.Serializes ss fs
  received_eq : received = fs.flatten ++ bad
  header : Rpc.sizeofHeader ≤ bad.length
  rejected : Rpc.getMessageLength (bad ++ after) bad.length = some (-1)

/-- What is asked of `parse` on `received`, with `before` and `after` around it in memory: it
    returns; and if whole packets are followed by a malformed one, it returns at that header,
    having delivered the packets' strings and nothing else, and its cursor never moves back. -/
def EndsOnMalformed (before received after : List UInt8) : Prop :=
  let mem := before ++ (received ++ after)
  (∃ s, ParseReturns mem before.length received.length s) ∧
  ∀ ss fs bad, MalformedAfter received after ss fs bad →
    (∃ s, ParseReturns mem before.length received.length s ∧
      s.delivered.map Delivery.msg = ss.map beforeNul ∧
      s.buffer_used = before.length + fs.flatten.length) ∧
    ∀ t t', Visits (parsePass mem) (.start before.length received.length) t →
      parsePass mem t = .again t' → t.buffer_used ≤ t'.buffer_used

/-- On whole packets followed by a malformed one, `parse` prints more than the packets' strings
    or leaves the memory. -/
theorem not_delivers_of_malformed {before received after bad : List UInt8}
    {ss fs : List (List UInt8)} (h : MalformedAfter received after ss fs bad) {s : ParseState}
    (hs : ParseReturns (before ++ (received ++ after)) before.length received.length s) :
    s.delivered.map Delivery.msg ≠ ss.map beforeNul := by
  obtain ⟨hpackets, rfl, hheader, hrej⟩ := h
  obtain ⟨ps, hps, hflat⟩ := Rpc.forall₂_serializes hpackets
  rw [hflat] at hs
  simp only [Rpc.sizeofHeader] at hheader
  generalize hmem : before ++ (Rpc.code.encodeAll ps ++ bad ++ after) = mem at hs
  have hview : view mem before.length = Rpc.code.encodeAll ps ++ (bad ++ after) := by
    rw [← hmem, view_natCast, List.drop_left, List.append_assoc]
  let c := (ParseState.start before.length (Rpc.code.encodeAll ps ++ bad).length).consume ps
  have hcount : c.count_used = bad.length := by
    rw [ParseState.consume_count_used]
    simp [ParseState.start]
  have hcursor : view mem c.buffer_used = bad ++ after := by
    rw [ParseState.consume_buffer_used]
    exact view_add hview (Int.natCast_nonneg _) rfl
  have hv : verdict mem c.buffer_used = some (-1) := by
    rw [verdict, hcursor, ← Rpc.getMessageLength_of_le hheader]
    exact hrej
  have hret : Returns (parsePass mem) c (some s) :=
    (returns_consume (s := .start _ _) hview (Int.natCast_nonneg _)
      (by simp [ParseState.start])).mp hs
  by_cases ht : Terminated mem c.buffer_used
  · -- the rejected header is taken for a packet, and its text is printed
    obtain ⟨msg, hpass⟩ := parsePass_rejected (by omega) hv ht
    have hle := (delivered_mono ((returns_again hpass).mp hret)).length_le
    have hdel := congrArg List.length (ParseState.consume_delivered
      (.start before.length (Rpc.code.encodeAll ps ++ bad).length) ps)
    intro heq
    have hlen := congrArg List.length heq
    rw [hps] at hlen
    simp only [List.length_map, ParseState.start, List.map_nil, List.nil_append] at hdel hlen
    simp only [ParseState.advance, List.length_append, List.length_singleton] at hle
    have hc : c.delivered.length = ps.length := hdel
    omega
  · -- `parse` leaves the memory, so it did not return
    have hpass := parsePass_runaway (by omega) hv (by decide) ht
    cases (returns_leave hpass).mp hret

/-- `parse` ends as a receiver must on malformed input exactly when no whole packets are followed
    by a malformed one and the headers in memory lead the cursor to an end. -/
theorem parse_ends_iff (before received after : List UInt8) :
    EndsOnMalformed before received after ↔
      Settles (before ++ (received ++ after)) (before.length + received.length) before.length ∧
      ¬ ∃ ss fs bad, MalformedAfter received after ss fs bad := by
  constructor
  · intro hends
    obtain ⟨hreturns, hstops⟩ := hends
    refine ⟨returns_iff_settles.mp hreturns, ?_⟩
    intro hmal
    obtain ⟨ss, fs, bad, h⟩ := hmal
    obtain ⟨⟨s, hs, hdel, -⟩, -⟩ := hstops ss fs bad h
    exact not_delivers_of_malformed h hs hdel
  · intro hcond
    obtain ⟨hsettles, hno⟩ := hcond
    refine ⟨returns_iff_settles.mpr hsettles, ?_⟩
    intro ss fs bad h
    exact absurd ⟨ss, fs, bad, h⟩ hno

/-- A header of length one, and after that one byte a header that is rejected. -/
def circular : List UInt8 := [0x22, 0x33, 0x44, 0x55, 1, 0, 0, 0, 0]

/-- Nine received bytes on which `parse` never returns. -/
theorem parse_runs_forever :
    ¬ ∀ before received after : List UInt8, EndsOnMalformed before received after := by
  intro hall
  obtain ⟨s, hs⟩ := (hall [] circular [0]).1
  let mem : Mem := circular ++ [0]
  have hrej : RejectedBetween mem 0 1 := by
    intro x h₁ h₂
    obtain rfl : x = 1 := by omega
    decide
  -- the first pass takes the cursor from the accepted header to the rejected one
  have hv : verdict mem (ParseState.start 0 9).buffer_used = some 1 := by decide
  have ht : Terminated mem (ParseState.start 0 9).buffer_used := by decide
  obtain ⟨msg, hpass⟩ := parsePass_message (by decide) hv (by decide) ht
  rw [if_pos (by simp [ParseState.start, ParseState.advance])] at hpass
  exact not_returns_of_trap (e := 9) (by decide) (by decide) hrej (l := 1) (by decide) (by decide)
    (by decide) ⟨rfl, rfl⟩ _ ((returns_again hpass).mp hs)

end Receiver
