import Mathlib.Data.List.Infix

/-! # Prefix codes and the splitting of a stream

    A prefix code gives every value a non-empty codeword such that no
    codeword begins another. A receiver that is handed a stream of codewords
    piece by piece uses the codewords it holds in whole, keeps the rest and
    waits.

    * `encodeAll`: the stream that carries a list of values.
    * `Splits`: a byte string is the codewords of a list of values, then a
      remainder that does not begin with a codeword. This is what a receiver
      must compute from the bytes it holds.
    * `splits_of_isPrefix`: every initial part of a stream splits, and what
      remains is the beginning of the next codeword.
    * `isPrefix_of_encodeAll`: whoever has the first codewords of a stream has
      its first values.
-/

/-- A code in which no codeword is the beginning of another. -/
structure PrefixCode (α β : Type*) where
  encode : α → List β
  prefix_free : ∀ {a b : α} {x y : List β}, encode a ++ x = encode b ++ y → a = b
  encode_ne_nil : ∀ a, encode a ≠ []

namespace PrefixCode

variable {α β : Type*} (code : PrefixCode α β)

/-- The codewords of the values, one after the other. -/
def encodeAll (as : List α) : List β := as.flatMap code.encode

@[simp] theorem encodeAll_nil : code.encodeAll [] = [] := rfl

@[simp] theorem encodeAll_cons (a : α) (as : List α) :
    code.encodeAll (a :: as) = code.encode a ++ code.encodeAll as := rfl

@[simp] theorem encodeAll_append (as bs : List α) :
    code.encodeAll (as ++ bs) = code.encodeAll as ++ code.encodeAll bs := by
  simp [encodeAll]

theorem flatten_map_encode (as : List α) : (as.map code.encode).flatten = code.encodeAll as :=
  List.flatMap_def.symm

/-- `bs` is the codewords of `as` followed by `left`, which does not begin with a codeword. -/
structure Splits (bs : List β) (as : List α) (left : List β) : Prop where
  eq : bs = code.encodeAll as ++ left
  unfinished : ∀ a rest, left ≠ code.encode a ++ rest

variable {code}

theorem splits_nil : code.Splits [] [] [] where
  eq := rfl
  unfinished := by
    intro a rest h
    exact code.encode_ne_nil a (List.append_eq_nil_iff.mp h.symm).1

/-- A stream whose codewords are the first ones of another carries its first values. -/
theorem isPrefix_of_encodeAll {as bs : List α}
    (h : code.encodeAll as <+: code.encodeAll bs) : as <+: bs := by
  induction as generalizing bs with
  | nil => exact List.nil_prefix
  | cons a as ih =>
    obtain ⟨rest, hrest⟩ := h
    cases bs with
    | nil =>
      have hnil : code.encode a = [] := by
        have := List.append_eq_nil_iff.mp hrest
        simpa using (List.append_eq_nil_iff.mp this.1).1
      exact absurd hnil (code.encode_ne_nil a)
    | cons b bs =>
      have heq : code.encode a ++ (code.encodeAll as ++ rest)
          = code.encode b ++ code.encodeAll bs := by simpa using hrest
      obtain rfl := code.prefix_free heq
      exact List.cons_prefix_cons.mpr ⟨rfl, ih ⟨rest, List.append_cancel_left heq⟩⟩

/-- Only the empty stream carries nothing. -/
theorem encodeAll_eq_nil {as : List α} : code.encodeAll as = [] ↔ as = [] := by
  constructor
  · intro h
    cases as with
    | nil => rfl
    | cons a as => exact absurd (List.append_eq_nil_iff.mp h).1 (code.encode_ne_nil a)
  · intro h
    rw [h, encodeAll_nil]

/-- A stream carries one list of values. -/
theorem encodeAll_injective {as bs : List α} (h : code.encodeAll as = code.encodeAll bs) :
    as = bs := by
  have hsub : as <+: bs := by
    apply code.isPrefix_of_encodeAll
    rw [h]
  have hsup : bs <+: as := by
    apply code.isPrefix_of_encodeAll
    rw [h]
  exact hsub.eq_of_length_le hsup.length_le

/-- Every initial part of a stream splits into the values it carries in whole and, if it stops
    inside a codeword, the beginning of that codeword. -/
theorem splits_of_isPrefix {bs : List β} {as : List α} (h : bs <+: code.encodeAll as) :
    ∃ done todo left, as = done ++ todo ∧ code.Splits bs done left ∧
      (left = [] ∨ ∃ a rest, todo = a :: rest ∧ left <+: code.encode a ∧
        left.length < (code.encode a).length) := by
  induction as generalizing bs with
  | nil =>
    obtain rfl : bs = [] := by simpa using h
    exact ⟨[], [], [], rfl, splits_nil, Or.inl rfl⟩
  | cons a as ih =>
    obtain ⟨more, hmore⟩ := h
    rw [encodeAll_cons] at hmore
    by_cases hlen : (code.encode a).length ≤ bs.length
    · -- the first codeword is there in whole
      have hpre : code.encode a <+: bs :=
        List.prefix_of_prefix_length_le ⟨_, rfl⟩ ⟨more, hmore⟩ hlen
      obtain ⟨bs', rfl⟩ := hpre
      rw [List.append_assoc] at hmore
      obtain ⟨done, todo, left, rfl, hs, hleft⟩ := ih ⟨more, List.append_cancel_left hmore⟩
      exact ⟨a :: done, todo, left, rfl, ⟨by simp [hs.eq], hs.unfinished⟩, hleft⟩
    · -- the bytes stop inside the first codeword
      have hpre : bs <+: code.encode a :=
        List.prefix_of_prefix_length_le ⟨more, hmore⟩ ⟨_, rfl⟩ (by omega)
      refine ⟨[], a :: as, bs, rfl, ⟨by simp, ?_⟩, Or.inr ⟨a, as, rfl, hpre, by omega⟩⟩
      intro b rest hb
      obtain ⟨tl, htl⟩ := hpre
      have heq : code.encode b ++ (rest ++ tl) = code.encode a ++ [] := by
        rw [← List.append_assoc, ← hb, htl, List.append_nil]
      obtain rfl := code.prefix_free heq
      rw [hb, List.length_append] at hlen
      omega

end PrefixCode
