import Mathlib.Tactic

/-!
# Descriptor tables

The descriptors of a process: the numbers below a limit, each free or held by something. A new
descriptor has the lowest free number; there is none when the table is full.
-/

/-- What holds each descriptor. -/
structure Descriptors (H : Type*) where
  limit : ℕ
  holder : ℕ → Option H

namespace Descriptors

variable {H : Type*} (d : Descriptors H)

/-- The lowest free number. -/
def free : Option ℕ := (List.range d.limit).find? fun n => (d.holder n).isNone

/-- The table with a holder for `n`. -/
def hold (n : ℕ) (h : H) : Descriptors H :=
  { d with holder := Function.update d.holder n (some h) }

/-- A close; of a descriptor that is not open it fails, and changes nothing. -/
def close (n : ℕ) : Descriptors H := { d with holder := Function.update d.holder n none }

/-- The close of what may be `-1`. -/
def closeAny : Option ℕ → Descriptors H
  | none => d
  | some n => d.close n

@[simp] theorem limit_hold (n : ℕ) (h : H) : (d.hold n h).limit = d.limit := rfl

@[simp] theorem limit_close (n : ℕ) : (d.close n).limit = d.limit := rfl

@[simp] theorem limit_closeAny (n : Option ℕ) : (d.closeAny n).limit = d.limit := by
  cases n <;> rfl

@[simp] theorem holder_hold_self (n : ℕ) (h : H) : (d.hold n h).holder n = some h :=
  Function.update_self ..

@[simp] theorem holder_close_self (n : ℕ) : (d.close n).holder n = none := Function.update_self ..

variable {d}

theorem holder_hold_of_ne {n m : ℕ} (hne : m ≠ n) (h : H) : (d.hold n h).holder m = d.holder m :=
  Function.update_of_ne hne ..

theorem holder_close_of_ne {n m : ℕ} (hne : m ≠ n) : (d.close n).holder m = d.holder m :=
  Function.update_of_ne hne ..

theorem free_eq_some {n : ℕ} (h : d.free = some n) : n < d.limit ∧ d.holder n = none := by
  refine ⟨List.mem_range.1 (List.mem_of_find?_eq_some h), ?_⟩
  simpa using List.find?_some h

/-- There is no new descriptor exactly when the table is full. -/
theorem free_eq_none_iff : d.free = none ↔ ∀ n < d.limit, d.holder n ≠ none := by
  rw [free, List.find?_eq_none]
  simp

theorem free_ne_none_iff : d.free ≠ none ↔ ∃ n < d.limit, d.holder n = none := by
  rw [ne_eq, free_eq_none_iff]
  push Not
  rfl

/-- A close takes nothing from the free numbers. -/
theorem free_close_ne_none (h : d.free ≠ none) (n : ℕ) : (d.close n).free ≠ none := by
  obtain ⟨m, hlt, hm⟩ := free_ne_none_iff.1 h
  refine free_ne_none_iff.2 ⟨m, hlt, ?_⟩
  rcases eq_or_ne m n with rfl | hne
  · exact d.holder_close_self m
  · rwa [holder_close_of_ne hne]

/-- What is held after a close was held before it. -/
theorem holder_of_close {n m : ℕ} {h : H} (hm : (d.close n).holder m = some h) :
    m ≠ n ∧ d.holder m = some h := by
  have hne : m ≠ n := by
    rintro rfl
    rw [holder_close_self] at hm
    cases hm
  exact ⟨hne, by rwa [holder_close_of_ne hne] at hm⟩

/-- A new descriptor takes nothing from the others. -/
theorem holder_hold_of_free {n m : ℕ} (hfree : d.holder n = none) {h h' : H}
    (hm : d.holder m = some h') : (d.hold n h).holder m = some h' := by
  rwa [holder_hold_of_ne]
  rintro rfl
  rw [hfree] at hm
  cases hm

end Descriptors
