import Mathlib.Data.Option.Basic
import Mathlib.Data.List.Basic

/-! # Tables of open descriptors

    The table of a process says what each descriptor is open on. A new
    descriptor is the lowest one that is free.

    * `Table.get`, `Table.put`: looking a slot up and changing it, with
      `get_put_self` and `get_put_of_ne`.
    * `Table.openFile`, `Table.close`, `Table.dup2`: the system calls.
    * `get_lowest`, `lowest_le`: what is the lowest free descriptor.
    * `get_close`, `get_dup2`, `dup2_none`: the table after a call.
    * `Opens`, `Kept`, `Same`: how a table has changed.
-/

namespace Descriptors

/-- A table of open descriptors. Those behind the last slot are free. -/
structure Table (δ : Type*) where
  slots : List (Option δ)
  deriving DecidableEq

namespace Table

variable {δ : Type*}

/-- What the descriptor is open on. -/
def get (t : Table δ) (fd : Nat) : Option δ := (t.slots[fd]?).join

/-- The slot `fd` is changed. -/
def put (t : Table δ) (fd : Nat) (v : Option δ) : Table δ where
  slots := (t.slots ++ List.replicate (fd + 1 - t.slots.length) none).set fd v

/-- The lowest descriptor that is free. -/
def lowest (t : Table δ) : Nat := t.slots.findIdx Option.isNone

/-- `open`, `socket` or `accept`. -/
def openFile (t : Table δ) (file : δ) : Nat × Table δ := (t.lowest, t.put t.lowest (some file))

/-- `close(fd)`; `none` for -1. -/
def close (t : Table δ) (fd : Nat) : Option (Table δ) :=
  if (t.get fd).isSome then some (t.put fd none) else none

/-- `dup2(oldfd, newfd)`; `none` for -1. -/
def dup2 (t : Table δ) (oldfd newfd : Nat) : Option (Table δ) :=
  (t.get oldfd).map fun file => t.put newfd (some file)

@[simp] theorem get_put_self (t : Table δ) (fd : Nat) (v : Option δ) : (t.put fd v).get fd = v := by
  have hlen : fd < (t.slots ++ List.replicate (fd + 1 - t.slots.length) none).length := by
    rw [List.length_append, List.length_replicate]
    omega
  rw [get, put, List.getElem?_set_self hlen, Option.join_some]

theorem get_put_of_ne (t : Table δ) {fd e : Nat} (v : Option δ) (h : e ≠ fd) :
    (t.put fd v).get e = t.get e := by
  rw [get, put, List.getElem?_set_ne h.symm, get]
  by_cases hlen : e < t.slots.length
  · rw [List.getElem?_append_left hlen]
  · rw [List.getElem?_append_right (by omega), List.getElem?_eq_none (Nat.not_lt.mp hlen),
      List.getElem?_replicate]
    split <;> rfl

theorem get_put (t : Table δ) (fd : Nat) (v : Option δ) (e : Nat) :
    (t.put fd v).get e = if e = fd then v else t.get e := by
  split
  · next h => rw [h, get_put_self]
  · next h => exact get_put_of_ne t v h

/-- The lowest free descriptor is free. -/
@[simp] theorem get_lowest (t : Table δ) : t.get t.lowest = none := by
  rw [get, lowest]
  by_cases hlen : t.slots.findIdx Option.isNone < t.slots.length
  · have hfree := List.findIdx_getElem (w := hlen)
    rw [List.getElem?_eq_getElem hlen, Option.isNone_iff_eq_none.mp hfree]
    rfl
  · rw [List.getElem?_eq_none (Nat.not_lt.mp hlen)]
    rfl

/-- No lower descriptor is. -/
theorem lowest_le {t : Table δ} {fd : Nat} (h : t.get fd = none) : t.lowest ≤ fd := by
  by_contra hlt
  rw [lowest, Nat.not_le] at hlt
  have hlen : fd < t.slots.length := Nat.lt_of_lt_of_le hlt List.findIdx_le_length
  have hused := List.not_of_lt_findIdx hlt
  rw [get, List.getElem?_eq_getElem hlen, Option.join_some] at h
  rw [h] at hused
  cases hused

/-- `close`, when its result is not looked at. -/
theorem get_close (t : Table δ) (fd e : Nat) :
    ((t.close fd).getD t).get e = if e = fd then none else t.get e := by
  unfold close
  split
  · rw [Option.getD_some, get_put]
  · next hfree =>
    rw [Option.getD_none]
    split
    · next h =>
      rw [h]
      simpa using hfree
    · rfl

/-- `dup2`, when its result is not looked at and `oldfd` is open. -/
theorem get_dup2 {t : Table δ} {oldfd : Nat} {file : δ} (h : t.get oldfd = some file)
    (newfd e : Nat) :
    ((t.dup2 oldfd newfd).getD t).get e = if e = newfd then some file else t.get e := by
  rw [dup2, h, Option.map_some, Option.getD_some, get_put]

/-- The same when it is not. -/
theorem dup2_none {t : Table δ} {oldfd : Nat} (h : t.get oldfd = none) (newfd : Nat) :
    (t.dup2 oldfd newfd).getD t = t := by
  rw [dup2, h, Option.map_none, Option.getD_none]

/-- Some descriptor is open on `file`. -/
def holds [DecidableEq δ] (t : Table δ) (file : δ) : Bool := t.slots.contains (some file)

theorem holds_iff [DecidableEq δ] {t : Table δ} {file : δ} :
    t.holds file = true ↔ ∃ fd, t.get fd = some file := by
  rw [holds, List.contains_iff_mem, List.mem_iff_getElem?]
  simp only [get, Option.join_eq_some_iff]

/-! ### Changes of a table -/

/-- `fd` was free and is open on `file` now; nothing else has changed. -/
structure Opens (t : Table δ) (fd : Nat) (file : δ) (t' : Table δ) : Prop where
  free : t.get fd = none
  get : ∀ e, t'.get e = if e = fd then some file else t.get e

/-- What was open is open on the same. -/
def Kept (t t' : Table δ) : Prop := ∀ fd file, t.get fd = some file → t'.get fd = some file

/-- Both tables have the same descriptors. -/
def Same (t t' : Table δ) : Prop := ∀ fd, t'.get fd = t.get fd

theorem opens_lowest (t : Table δ) (file : δ) : t.Opens t.lowest file (t.openFile file).2 :=
  ⟨t.get_lowest, fun e => t.get_put t.lowest (some file) e⟩

theorem Opens.kept {t t' : Table δ} {fd : Nat} {file : δ} (h : t.Opens fd file t') :
    t.Kept t' := by
  intro e file' he
  have hne : e ≠ fd := by
    rintro rfl
    rw [h.free] at he
    cases he
  rw [h.get, if_neg hne, he]

theorem Kept.refl (t : Table δ) : t.Kept t := fun _ _ h => h

theorem Kept.trans {t t' t'' : Table δ} (h : t.Kept t') (h' : t'.Kept t'') : t.Kept t'' :=
  fun fd file he => h' fd file (h fd file he)

theorem Same.kept {t t' : Table δ} (h : t.Same t') : t.Kept t' :=
  fun fd _ he => (h fd).trans he

theorem Same.trans {t t' t'' : Table δ} (h : t.Same t') (h' : t'.Same t'') : t.Same t'' :=
  fun fd => (h' fd).trans (h fd)

theorem Kept.holds [DecidableEq δ] {t t' : Table δ} (h : t.Kept t') {file : δ}
    (hholds : t.holds file = true) : t'.holds file = true := by
  obtain ⟨fd, hfd⟩ := holds_iff.mp hholds
  exact holds_iff.mpr ⟨fd, h fd file hfd⟩

theorem Same.holds [DecidableEq δ] {t t' : Table δ} (h : t.Same t') (file : δ) :
    t'.holds file = t.holds file := by
  rw [Bool.eq_iff_iff, holds_iff, holds_iff]
  simp only [h _]

/-- A descriptor that was opened is closed again. -/
theorem Opens.close {t t' : Table δ} {fd : Nat} {file : δ} (h : t.Opens fd file t') :
    t.Same ((t'.close fd).getD t') := by
  intro e
  rw [get_close, h.get]
  split
  · next heq => rw [heq, h.free]
  · rfl

end Table

end Descriptors
