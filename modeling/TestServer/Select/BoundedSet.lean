import Mathlib.Data.Finset.Card
import TestServer.Lib.System
import TestServer.Select.Table

/-! # The table as a bounded set

    A table of `N` slots, all `-1` at first, on which `add_fd` and `del_fd` are
    called, with positive descriptors and `add_fd` only for descriptors that
    are not in the table.

    * `boundedSet`: a set of at most `N` descriptors.
    * `KeepsOthers`: a call without an effect on the set leaves the table, and
      no call moves another descriptor.
    * `refines_boundedSet`: the descriptors in the table form, without
      duplicates, the set.
-/

open LTS

namespace Select

/-- A call of one of the two functions. -/
inductive TableCall where
  | add_fd (fd : Int)
  | del_fd (fd : Int)
  deriving DecidableEq

/-- The descriptor a call is about. -/
def TableCall.fd : TableCall → Int
  | .add_fd fd => fd
  | .del_fd fd => fd

/-! ### The table -/

/-- The table after a call. -/
def TableCall.onTable : TableCall → List Int → List Int
  | .add_fd fd, table => addFd fd table
  | .del_fd fd, table => delFd fd table

/-- The descriptor is positive, and new to the table where it is to be added. -/
def TableCall.Allowed (table : List Int) : TableCall → Prop
  | .add_fd fd => 0 < fd ∧ fd ∉ table
  | .del_fd fd => 0 < fd

instance (table : List Int) : (c : TableCall) → Decidable (c.Allowed table)
  | .add_fd fd => inferInstanceAs (Decidable (0 < fd ∧ fd ∉ table))
  | .del_fd fd => inferInstanceAs (Decidable (0 < fd))

/-- The table and the calls made on it. -/
def tableOf (N : Nat) : System (List Int) TableCall :=
  .ofFun (fun table => table = List.replicate N (-1)) fun table c =>
    if c.Allowed table then some (c.onTable table) else none

/-! ### The set -/

/-- The set after a call: a descriptor is inserted if fewer than `N` are present. -/
def TableCall.onSet (N : Nat) : TableCall → Finset Int → Finset Int
  | .add_fd fd, fds => if fds.card < N then insert fd fds else fds
  | .del_fd fd, fds => fds.erase fd

/-- A set of at most `N` descriptors. -/
def boundedSet (N : Nat) : System (Finset Int) TableCall :=
  .ofFun (fun fds => fds = ∅) fun fds c => some (c.onSet N fds)

/-- The descriptors in a table, as a set. -/
def held (table : List Int) : Finset Int := (descriptors table).toFinset

@[simp] theorem mem_held {table : List Int} {fd : Int} : fd ∈ held table ↔ fd ∈ table ∧ 0 < fd := by
  rw [held, List.mem_toFinset, mem_descriptors]

/-- A call without an effect on the set leaves the table as it is, and no call moves or changes the
    slot of another descriptor. -/
def KeepsOthers (N : Nat) (table : List Int) (c : TableCall) : Prop :=
  (c.onSet N (held table) = held table → c.onTable table = table) ∧
    ∀ e, 0 < e → e ≠ c.fd → ∀ i : Nat, (c.onTable table)[i]? = some e ↔ table[i]? = some e

variable {N : Nat} {table table' : List Int} {c : TableCall} {fds : Finset Int}

/-! ### One call -/

/-- The table has `N` slots, and the descriptors in it form the set, without duplicates. -/
structure Represents (N : Nat) (table : List Int) (fds : Finset Int) : Prop where
  slots : table.length = N
  once : (descriptors table).Nodup
  same : held table = fds

theorem Represents.card (h : Represents N table fds) : (descriptors table).length = fds.card := by
  rw [← h.same, held, List.toFinset_card_of_nodup h.once]

theorem Represents.start : Represents N (List.replicate N (-1)) ∅ where
  slots := List.length_replicate
  once := by
    rw [descriptors, List.filter_replicate]
    exact List.nodup_nil
  same := by
    rw [held, descriptors, List.filter_replicate]
    rfl

/-- A table is full exactly when the set has `N` elements. -/
theorem Represents.free_iff (h : Represents N table fds) :
    (∃ slot ∈ table, slot ≤ 0) ↔ fds.card < N := by
  rw [← h.card, ← h.slots]
  refine ⟨?_, exists_free⟩
  intro hfree
  obtain ⟨slot, hmem, hle⟩ := hfree
  exact List.length_filter_lt_length_iff_exists.mpr ⟨slot, hmem, by simpa using hle⟩

theorem Represents.add_fd (h : Represents N table fds) {fd : Int} (hfd : 0 < fd)
    (hout : fd ∉ table) : Represents N (addFd fd table) ((TableCall.add_fd fd).onSet N fds) := by
  have hslots : (addFd fd table).length = N := by rw [addFd_length, h.slots]
  by_cases hroom : fds.card < N
  · have hperm := descriptors_addFd hfd (h.free_iff.mpr hroom)
    have hnew : fd ∉ descriptors table := fun hmem => hout (mem_descriptors.mp hmem).1
    refine ⟨hslots, hperm.nodup_iff.mpr (List.nodup_cons.mpr ⟨hnew, h.once⟩), ?_⟩
    rw [held, TableCall.onSet, if_pos hroom, List.toFinset_eq_of_perm _ _ hperm,
      List.toFinset_cons, ← h.same, held]
  · -- no slot is free
    have hsame : addFd fd table = table := by
      rcases addFd_cases fd table with ⟨-, hsame⟩ | ⟨i, slot, hi, hle, -⟩
      · exact hsame
      · exact absurd (h.free_iff.mp ⟨slot, List.mem_of_getElem? hi, hle⟩) hroom
    rw [hsame, TableCall.onSet, if_neg hroom]
    exact h

theorem Represents.del_fd (h : Represents N table fds) {fd : Int} (hfd : 0 < fd) :
    Represents N (delFd fd table) ((TableCall.del_fd fd).onSet N fds) where
  slots := by rw [delFd_length, h.slots]
  once := by
    rw [descriptors_delFd hfd]
    exact h.once.erase fd
  same := by
    rw [held, descriptors_delFd hfd, TableCall.onSet, ← h.same, held]
    ext e
    rw [List.mem_toFinset, h.once.mem_erase_iff, Finset.mem_erase, List.mem_toFinset]

theorem Represents.call (h : Represents N table fds) (hc : c.Allowed table) :
    Represents N (c.onTable table) (c.onSet N fds) := by
  cases c with
  | add_fd fd => exact h.add_fd hc.1 hc.2
  | del_fd fd => exact h.del_fd hc

/-- A call sets the slot of its own descriptor, or a free one. -/
theorem Represents.keepsOthers (h : Represents N table fds) (hc : c.Allowed table) :
    KeepsOthers N table c := by
  unfold KeepsOthers
  rw [h.same]
  cases c with
  | add_fd fd =>
    obtain ⟨hfd, hout⟩ := hc
    have hnew : fd ∉ fds := by
      rw [← h.same, mem_held]
      exact fun hmem => hout hmem.1
    show ((TableCall.add_fd fd).onSet N fds = fds → addFd fd table = table) ∧
      ∀ e, 0 < e → e ≠ fd → ∀ i : Nat, (addFd fd table)[i]? = some e ↔ table[i]? = some e
    rcases addFd_cases fd table with ⟨-, hsame⟩ | ⟨i, slot, hi, hle, hset⟩
    · rw [hsame]
      exact ⟨fun _ => rfl, fun _ _ _ _ => Iff.rfl⟩
    · constructor
      · intro hno
        -- there is room, so the set has grown
        have hroom := h.free_iff.mp ⟨slot, List.mem_of_getElem? hi, hle⟩
        rw [TableCall.onSet, if_pos hroom] at hno
        exact absurd (Finset.insert_eq_self.mp hno) hnew
      · intro e he hne
        rw [hset]
        exact getElem?_set_other hi (by omega) hne
  | del_fd fd =>
    show ((TableCall.del_fd fd).onSet N fds = fds → delFd fd table = table) ∧
      ∀ e, 0 < e → e ≠ fd → ∀ i : Nat, (delFd fd table)[i]? = some e ↔ table[i]? = some e
    rcases delFd_cases fd table with ⟨-, hsame⟩ | ⟨i, hi, hset⟩
    · rw [hsame]
      exact ⟨fun _ => rfl, fun _ _ _ _ => Iff.rfl⟩
    · constructor
      · intro hno
        have hmem : fd ∈ fds := by
          rw [← h.same, mem_held]
          exact ⟨List.mem_of_getElem? hi, hc⟩
        exact absurd hmem (Finset.erase_eq_self.mp hno)
      · intro e he hne
        rw [hset]
        exact getElem?_set_other hi hne (by omega)

/-! ### Sequences of calls -/

theorem step_tableOf (h : (tableOf N).step table c table') :
    c.Allowed table ∧ c.onTable table = table' := by
  change (if c.Allowed table then some (c.onTable table) else none) = some table' at h
  rwa [Option.ite_none_right_eq_some, Option.some.injEq] at h

/-- The same calls on the set. -/
theorem exists_represents {tr : List (List Int × TableCall)} (h : (tableOf N).Run tr table) :
    ∃ str fds, (boundedSet N).Run str fds ∧ str.map Prod.snd = tr.map Prod.snd ∧
      Represents N table fds := by
  apply h.simulates (R := Represents N)
  · intro table htable
    exact ⟨∅, rfl, htable ▸ Represents.start⟩
  · intro table c table' fds hrep hstep
    obtain ⟨hc, rfl⟩ := step_tableOf hstep
    exact ⟨c.onSet N fds, rfl, hrep.call hc⟩

/-- Every call left the other descriptors alone. -/
theorem along_keepsOthers {tr : List (List Int × TableCall)} (h : (tableOf N).Run tr table) :
    Along (KeepsOthers N) tr := by
  induction h with
  | start _ => exact along_nil _
  | @next tr table table' c hbefore hstep ih =>
    obtain ⟨_, _, _, _, hrep⟩ := exists_represents hbefore
    exact along_snoc.mpr ⟨ih, hrep.keepsOthers (step_tableOf hstep).1⟩

/-- `add_fd` and `del_fd` implement a set of at most `N` descriptors: after every sequence of calls
    the table holds, without duplicates, the set that the same calls make, and every call left the
    slots of the other descriptors as they were. -/
theorem refines_boundedSet {tr : List (List Int × TableCall)} (h : (tableOf N).Run tr table) :
    (descriptors table).Nodup ∧
      (∃ str, (boundedSet N).Run str (held table) ∧ str.map Prod.snd = tr.map Prod.snd) ∧
      Along (KeepsOthers N) tr := by
  obtain ⟨str, fds, hrun, hcalls, hrep⟩ := exists_represents h
  exact ⟨hrep.once, ⟨str, hrep.same ▸ hrun, hcalls⟩, along_keepsOthers h⟩

/-- A table of two slots: a third descriptor does not fit until one of the others is deleted, and
    then takes its slot. -/
theorem refines_boundedSet_two : ∃ table str, (descriptors table).Nodup ∧
    (boundedSet 2).Run str (held table) ∧ table = [9, 7] ∧
    str.map Prod.snd = [.add_fd 5, .add_fd 7, .add_fd 9, .del_fd 5, .add_fd 9] := by
  have hstart : (tableOf 2).Run [] [-1, -1] := .start rfl
  let cs : List TableCall := [.add_fd 5, .add_fd 7, .add_fd 9, .del_fd 5, .add_fd 9]
  obtain ⟨tr, hrun, hlabels⟩ : ∃ tr, (tableOf 2).Run tr [9, 7] ∧ tr.map Prod.snd = cs :=
    hstart.replay cs rfl
  obtain ⟨honce, ⟨str, hset, hcalls⟩, -⟩ := refines_boundedSet hrun
  exact ⟨[9, 7], str, honce, hset, rfl, hcalls.trans hlabels⟩

end Select
