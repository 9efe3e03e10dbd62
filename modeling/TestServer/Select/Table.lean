import Mathlib.Data.List.Basic

/-! # The table of connections

    `add_fd` of `sample_socket/test_server.cpp`, which puts a descriptor in the
    first free slot of a table, and `del_fd`, which frees the first slot that
    holds it:

    ```
    for (int i = 0; i < size ; i++) {
        if (array_fd[i] <= 0) {
            array_fd[i] = fd;
            break;
        }
    }
    for (int i = 0; i < size; i++) {
        if (array_fd[i] == fd) {
            array_fd[i] = -1;
            break;
        }
    }
    ```

    * `addFd_cases`, `delFd_cases`: a call sets at most one slot.
    * `descriptors`: what a table holds, its positive entries.
    * `descriptors_addFd`: a table with a free slot holds the new descriptor
      after the call, and what it held before.
    * `descriptors_delFd`: the descriptor is removed.
-/

namespace Select

/-- `void add_fd(int fd, int array_fd[], int size)`: the table after the call. -/
def addFd (fd : Int) : List Int → List Int
  | [] => []
  | slot :: rest => if slot ≤ 0 then fd :: rest else slot :: addFd fd rest

/-- `void del_fd(int fd, int array_fd[], int size)`: the table after the call. -/
def delFd (fd : Int) : List Int → List Int
  | [] => []
  | slot :: rest => if slot = fd then -1 :: rest else slot :: delFd fd rest

/-- The descriptors in a table. -/
def descriptors (table : List Int) : List Int := table.filter (0 < ·)

variable {fd : Int} {table : List Int}

@[simp] theorem mem_descriptors {e : Int} : e ∈ descriptors table ↔ e ∈ table ∧ 0 < e := by
  simp [descriptors]

/-! ### Which slot changes -/

/-- `add_fd` finds no free slot, or sets one. -/
theorem addFd_cases (fd : Int) (table : List Int) :
    (∀ slot ∈ table, 0 < slot) ∧ addFd fd table = table ∨
      ∃ i slot, table[i]? = some slot ∧ slot ≤ 0 ∧ addFd fd table = table.set i fd := by
  induction table with
  | nil => exact Or.inl ⟨by simp, rfl⟩
  | cons slot rest ih =>
    unfold addFd
    split
    case isTrue hfree => exact Or.inr ⟨0, slot, rfl, hfree, rfl⟩
    case isFalse hused =>
      rcases ih with ⟨hfull, hsame⟩ | ⟨i, free, hi, hle, hset⟩
      · refine Or.inl ⟨?_, by rw [hsame]⟩
        intro e he
        rcases List.mem_cons.mp he with rfl | he
        · omega
        · exact hfull e he
      · exact Or.inr ⟨i + 1, free, hi, hle, by rw [hset, List.set_cons_succ]⟩

/-- `del_fd` does not find the descriptor, or frees a slot that holds it. -/
theorem delFd_cases (fd : Int) (table : List Int) :
    fd ∉ table ∧ delFd fd table = table ∨
      ∃ i, table[i]? = some fd ∧ delFd fd table = table.set i (-1) := by
  induction table with
  | nil => exact Or.inl ⟨List.not_mem_nil, rfl⟩
  | cons slot rest ih =>
    unfold delFd
    split
    case isTrue hslot =>
      subst hslot
      exact Or.inr ⟨0, rfl, rfl⟩
    case isFalse hslot =>
      rcases ih with ⟨hout, hsame⟩ | ⟨i, hi, hset⟩
      · refine Or.inl ⟨?_, by rw [hsame]⟩
        rw [List.mem_cons, not_or]
        exact ⟨Ne.symm hslot, hout⟩
      · exact Or.inr ⟨i + 1, hi, by rw [hset, List.set_cons_succ]⟩

/-- A slot that is set held `old` and holds `new`; every other entry stays where it is. -/
theorem getElem?_set_other {i : Nat} {old new e : Int} (h : table[i]? = some old) (hold : e ≠ old)
    (hnew : e ≠ new) (j : Nat) : (table.set i new)[j]? = some e ↔ table[j]? = some e := by
  by_cases hj : i = j
  · subst hj
    obtain ⟨hi, -⟩ := List.getElem?_eq_some_iff.mp h
    rw [List.getElem?_set_self hi, h, Option.some.injEq, Option.some.injEq]
    exact iff_of_false (Ne.symm hnew) (Ne.symm hold)
  · rw [List.getElem?_set_ne hj]

@[simp] theorem addFd_length (fd : Int) (table : List Int) :
    (addFd fd table).length = table.length := by
  rcases addFd_cases fd table with ⟨-, hsame⟩ | ⟨i, slot, -, -, hset⟩
  · rw [hsame]
  · rw [hset, List.length_set]

@[simp] theorem delFd_length (fd : Int) (table : List Int) :
    (delFd fd table).length = table.length := by
  rcases delFd_cases fd table with ⟨-, hsame⟩ | ⟨i, -, hset⟩
  · rw [hsame]
  · rw [hset, List.length_set]

theorem mem_addFd {e : Int} (h : e ∈ addFd fd table) : e = fd ∨ e ∈ table := by
  rcases addFd_cases fd table with ⟨-, hsame⟩ | ⟨i, slot, -, -, hset⟩
  · rw [hsame] at h
    exact Or.inr h
  · rw [hset] at h
    exact (List.mem_or_eq_of_mem_set h).symm

/-- No descriptor is put over another one. -/
theorem mem_addFd_of_pos {e : Int} (he : 0 < e) (h : e ∈ table) : e ∈ addFd fd table := by
  rcases addFd_cases fd table with ⟨-, hsame⟩ | ⟨i, slot, hi, hle, hset⟩
  · rwa [hsame]
  · rw [hset]
    by_cases hfd : e = fd
    · subst hfd
      exact List.mem_set (List.getElem?_eq_some_iff.mp hi).1 _
    · obtain ⟨j, hj⟩ := List.getElem?_of_mem h
      exact List.mem_of_getElem? ((getElem?_set_other hi (by omega) hfd j).mpr hj)

/-! ### What the table holds -/

/-- A table with a free slot takes the descriptor. -/
theorem descriptors_addFd (hfd : 0 < fd) (hfree : ∃ slot ∈ table, slot ≤ 0) :
    (descriptors (addFd fd table)).Perm (fd :: descriptors table) := by
  induction table with
  | nil =>
    obtain ⟨slot, hslot, -⟩ := hfree
    cases hslot
  | cons slot rest ih =>
    unfold addFd
    split
    case isTrue hslot =>
      have hnone : ¬ 0 < slot := by omega
      simp [descriptors, hfd, hnone]
    case isFalse hslot =>
      have hpos : 0 < slot := by omega
      obtain ⟨free, hmem, hle⟩ := hfree
      have hrest : free ∈ rest := by
        rcases List.mem_cons.mp hmem with rfl | hrest
        · omega
        · exact hrest
      have hperm := ih ⟨free, hrest, hle⟩
      simp only [descriptors, List.filter_cons, hpos, decide_true, if_true] at hperm ⊢
      exact (hperm.cons slot).trans (.swap fd slot _)

/-- A failed `accept` leaves no trace. -/
theorem descriptors_addFd_of_nonpos (hfd : fd ≤ 0) (table : List Int) :
    descriptors (addFd fd table) = descriptors table := by
  have hnone : ¬ 0 < fd := by omega
  induction table with
  | nil => rfl
  | cons slot rest ih =>
    unfold addFd
    split
    case isTrue hslot =>
      have hfree : ¬ 0 < slot := by omega
      simp [descriptors, hnone, hfree]
    case isFalse =>
      simp only [descriptors, List.filter_cons] at ih ⊢
      rw [ih]

/-- `del_fd` takes the descriptor out once, and no other. -/
theorem descriptors_delFd (hfd : 0 < fd) (table : List Int) :
    descriptors (delFd fd table) = (descriptors table).erase fd := by
  induction table with
  | nil => rfl
  | cons slot rest ih =>
    unfold delFd
    split
    case isTrue hslot =>
      subst hslot
      simp [descriptors, hfd]
    case isFalse hslot =>
      simp only [descriptors, List.filter_cons] at ih ⊢
      split
      · rw [ih, List.erase_cons_tail (by simpa using hslot)]
      · exact ih

/-- A table with fewer descriptors than slots has a free slot. -/
theorem exists_free (h : (descriptors table).length < table.length) : ∃ slot ∈ table, slot ≤ 0 := by
  by_contra hnone
  have hall : descriptors table = table := by
    apply List.filter_eq_self.mpr
    intro slot hslot
    have hpos : 0 < slot := Int.not_le.mp fun hle => hnone ⟨slot, hslot, hle⟩
    exact decide_eq_true hpos
  rw [hall] at h
  exact absurd h (Nat.lt_irrefl _)

end Select
