import Mathlib.Tactic

/-!
# The front of an ordered set

A loop over an ordered set that stops at the first element beyond a bound takes exactly the elements
below it; and a loop that erases the elements of a list leaves the others.
-/

universe u v

/-- In a list ordered by `r`, the elements at its front with a property that holds of everything
before such an element are all the elements with that property. -/
theorem List.Pairwise.takeWhile_eq_filter {α : Type u} {r : α → α → Prop} {p : α → Bool}
    {l : List α} (h : l.Pairwise r) (hp : ∀ a b, r a b → p b = true → p a = true) :
    l.takeWhile p = l.filter p := by
  induction l with
  | nil => rfl
  | cons a l ih =>
    obtain ⟨ha, hl⟩ := List.pairwise_cons.1 h
    by_cases hpa : p a = true
    · rw [List.takeWhile_cons_of_pos hpa, List.filter_cons_of_pos hpa, ih hl]
    · rw [List.takeWhile_cons_of_neg hpa, List.filter_cons_of_neg hpa, eq_comm,
        List.filter_eq_nil_iff]
      exact fun b hb hpb => hpa (hp a b (ha b hb) hpb)

namespace Std.ExtTreeSet

variable {α : Type u} {cmp : α → α → Ordering} [TransCmp cmp] [LawfulEqCmp cmp]

theorem mem_foldl_erase {β : Type v} {f : β → α} {l : List β} {t : ExtTreeSet α cmp} {a : α} :
    a ∈ l.foldl (fun t b => t.erase (f b)) t ↔ a ∈ t ∧ a ∉ l.map f := by
  induction l generalizing t with
  | nil => simp
  | cons b l ih =>
    rw [List.foldl_cons, ih, mem_erase, List.map_cons, List.mem_cons, ne_eq,
      LawfulEqCmp.compare_eq_iff_eq, eq_comm]
    tauto

end Std.ExtTreeSet

/-- The lexicographic comparison of two components tells any two pairs apart. -/
instance lawfulEqCmp_compareLex {α : Type u} {β : Type v} [Ord α] [Ord β] [Std.LawfulEqOrd α]
    [Std.LawfulEqOrd β] :
    Std.LawfulEqCmp (compareLex (compareOn Prod.fst) (compareOn Prod.snd) :
      α × β → α × β → Ordering) where
  compare_self {a} := by
    simp [compareLex, compareOn]
  eq_of_compare {a b} h := by
    simp only [compareLex, compareOn, Ordering.then_eq_eq,
      Std.LawfulEqCmp.compare_eq_iff_eq] at h
    exact Prod.ext h.1 h.2
