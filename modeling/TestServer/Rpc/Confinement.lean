import TestServer.Rpc.Codec

/-! # Which bytes a parsed message comes from

    `Parse` is told how many bytes the packet has, but compares the length of
    the text with the length of the whole packet, although the text starts
    `offsetMsg` bytes into it. A text without a NUL inside its packet runs on
    into the bytes after it, and is accepted if it does not run far.

    `Confined` says that `Parse` looks at the packet only; `confined_iff`
    characterises the packets for which it holds.
-/

open CMemory

namespace Rpc

/-- What `Parse` answers for the packet `f`, and the text it returns, do not depend on the memory
    after the packet, and a text is returned only if its NUL is one of the packet's bytes. Memory
    is assumed to hold a NUL somewhere from the text on, as `strlen` needs one. -/
def Confined (f : List UInt8) : Prop :=
  (∀ r₁ r₂ msg, 0 ∈ (f ++ r₁).drop offsetMsg → 0 ∈ (f ++ r₂).drop offsetMsg →
    parse (f ++ r₁) f.length msg = parse (f ++ r₂) f.length msg) ∧
  ∀ r msg out, parse (f ++ r) f.length msg = some (0, out) → 0 ∈ f.drop offsetMsg

/-- The packet's length field says more bytes than the packet has. -/
def Overlong (f : List UInt8) : Prop :=
  ∃ header, Header.read f = some header ∧ f.length < header.length.toNat

/-! ### The fields and the text of a packet -/

theorem drop_offsetMsg_append {f : List UInt8} (h : sizeofMessage ≤ f.length) (r : List UInt8) :
    (f ++ r).drop offsetMsg = f.drop offsetMsg ++ r := by
  simp only [sizeofMessage] at h
  exact List.drop_append_of_le_length (by simp only [offsetMsg]; omega)

theorem sizeofHeader_le {f : List UInt8} (h : sizeofMessage ≤ f.length) :
    sizeofHeader ≤ f.length := Nat.le_of_succ_le h

/-- A NUL inside the packet ends the text before it can reach the limit. -/
theorem parse_terminated {f : List UInt8} (h : sizeofMessage ≤ f.length)
    (hnul : 0 ∈ f.drop offsetMsg) (r msg : List UInt8) :
    ∃ header text, Header.read f = some header ∧
      parse (f ++ r) f.length msg
        = some (if header.length.toNat > f.length then (-1, msg) else (0, text)) ∧
      ∃ tl, f.drop offsetMsg = text ++ 0 :: tl ∧ 0 ∉ text := by
  obtain ⟨header, hread, hread'⟩ := Header.read_append (sizeofHeader_le h) r
  obtain ⟨text, tl, htext, hno⟩ := List.eq_append_cons_of_mem hnul
  refine ⟨header, text, hread, ?_, tl, htext, hno⟩
  have hlen : ¬ text.length > f.length := by
    have := congrArg List.length htext
    rw [List.length_drop, List.length_append] at this
    omega
  unfold parse
  rw [hread', drop_offsetMsg_append h, htext, List.append_assoc, List.cons_append,
    cstr_append_nul hno]
  by_cases hover : header.length.toNat > f.length <;> simp [hover, hlen]

/-! ### Confinement -/

theorem confined_of_terminated {f : List UInt8} (h : sizeofMessage ≤ f.length)
    (hnul : 0 ∈ f.drop offsetMsg) : Confined f := by
  refine ⟨?_, fun _ _ _ _ => hnul⟩
  intro r₁ r₂ msg _ _
  -- both runs read the same header, and the same return code follows from it
  obtain ⟨h₁, t₁, hread₁, hp₁, tl₁, htext₁, hno₁⟩ := parse_terminated h hnul r₁ msg
  obtain ⟨h₂, t₂, hread₂, hp₂, tl₂, htext₂, hno₂⟩ := parse_terminated h hnul r₂ msg
  obtain rfl : h₁ = h₂ := Option.some.inj (hread₁.symm.trans hread₂)
  -- both texts stop at the first NUL of the packet
  have htext : t₁ = t₂ := by
    have hc₁ := cstr_append_nul hno₁ tl₁
    rw [← htext₁, htext₂, cstr_append_nul hno₂] at hc₁
    exact (Option.some.inj hc₁).symm
  rw [hp₁, hp₂, htext]

theorem confined_of_overlong {f : List UInt8} (h : sizeofMessage ≤ f.length)
    (hover : Overlong f) : Confined f := by
  -- the length is compared before the text is: the answer is -1 on every memory
  have hparse : ∀ r msg, 0 ∈ (f ++ r).drop offsetMsg →
      parse (f ++ r) f.length msg = some (-1, msg) := by
    intro r msg hnul
    obtain ⟨header, hread, hread'⟩ := Header.read_append (sizeofHeader_le h) r
    obtain ⟨header', hread'', hlt⟩ := hover
    obtain rfl : header' = header := Option.some.inj (hread''.symm.trans hread)
    obtain ⟨text, htext⟩ := Option.ne_none_iff_exists'.mp (mt cstr_eq_none.mp (not_not.mpr hnul))
    unfold parse
    rw [hread', Option.bind_eq_bind, Option.bind_some, htext, Option.bind_eq_bind,
      Option.bind_some, if_pos hlt]
  constructor
  · intro r₁ r₂ msg h₁ h₂
    rw [hparse r₁ msg h₁, hparse r₂ msg h₂]
  · intro r msg out hr
    by_cases hnul : 0 ∈ (f ++ r).drop offsetMsg
    · rw [hparse r msg hnul] at hr
      cases hr
    · -- no NUL at all: `Parse` does not return
      unfold parse at hr
      rw [cstr_eq_none.mpr hnul] at hr
      cases hread : Header.read (f ++ r) <;> simp [hread] at hr

/-- A text that runs past its packet is taken from whatever lies there. -/
theorem parse_runs_on {f r : List UInt8} (h : sizeofMessage ≤ f.length)
    (hnul : 0 ∉ f.drop offsetMsg) (hover : ¬ Overlong f) (hr : 0 ∉ r)
    (hlen : r.length ≤ offsetMsg) (msg : List UInt8) :
    parse (f ++ (r ++ [0])) f.length msg = some (0, f.drop offsetMsg ++ r) := by
  obtain ⟨header, hread, hread'⟩ := Header.read_append (sizeofHeader_le h) (r ++ [0])
  have hle : ¬ header.length.toNat > f.length := fun hgt => hover ⟨header, hread, hgt⟩
  -- the text is what the packet holds of it and the bytes `r` behind the packet
  have hno : 0 ∉ f.drop offsetMsg ++ r := by simp [hnul, hr]
  have hshort : ¬ (f.drop offsetMsg ++ r).length > f.length := by
    simp only [sizeofMessage, offsetMsg] at h hlen ⊢
    rw [List.length_append, List.length_drop]
    omega
  unfold parse
  rw [hread', drop_offsetMsg_append h, ← List.append_assoc, cstr_append_nul hno]
  simp only [Option.bind_eq_bind, Option.bind_some, if_neg hle, if_neg hshort]

/-- `Parse` is confined to a packet exactly when the packet holds a NUL from its text on, or its
    length field is too large for `Parse` to look at the text at all. -/
theorem confined_iff (f : List UInt8) (h : sizeofMessage ≤ f.length) :
    Confined f ↔ Overlong f ∨ 0 ∈ f.drop offsetMsg := by
  constructor
  · intro hconf
    obtain ⟨hsame, -⟩ := hconf
    by_contra hneither
    rw [not_or] at hneither
    obtain ⟨hover, hnul⟩ := hneither
    -- one byte of stale memory is enough to change the text
    have hone := parse_runs_on (r := []) h hnul hover (by simp) (by simp) []
    have htwo := parse_runs_on (r := [1]) h hnul hover (by simp) (by simp [offsetMsg]) []
    have heq := hsame ([] ++ [0]) ([1] ++ [0]) []
      (by rw [drop_offsetMsg_append h]; simp) (by rw [drop_offsetMsg_append h]; simp)
    rw [hone, htwo] at heq
    simp at heq
  · intro hor
    rcases hor with hover | hnul
    · exact confined_of_overlong h hover
    · exact confined_of_terminated h hnul

/-- A packet of nine bytes whose text is `a` without a NUL: the shortest that is not confined. -/
def unterminated : List UInt8 := [0x22, 0x33, 0x44, 0x55, 9, 0, 0, 0, 97]

theorem confined_iff_unterminated :
    Confined unterminated ↔ Overlong unterminated ∨ 0 ∈ unterminated.drop offsetMsg :=
  confined_iff unterminated (by decide)

/-- Two memories that agree on the packet, and two different messages. -/
theorem parse_reads_past_packet :
    ¬ ∀ length (m₁ m₂ : List UInt8) msg, sizeofMessage ≤ length →
      m₁.take length = m₂.take length → 0 ∈ m₁.drop offsetMsg → 0 ∈ m₂.drop offsetMsg →
        parse m₁ length msg = parse m₂ length msg := by
  intro hall
  have := hall 9 (unterminated ++ [98, 0]) (unterminated ++ [99, 0]) []
  revert this
  decide

end Rpc
