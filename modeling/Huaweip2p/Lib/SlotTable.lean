import Mathlib.Tactic

/-!
# Slot tables

An array of slots, each owned by exactly one key, beside a record of the slot of each key. A key is
added at the end; it is removed by dropping the last slot, after the slot of the removed key was
exchanged with it.

* `SlotTable owns slots index`: the slots and the keys with a slot are in bijection, and each slot
  is one that its key may own;
* `empty`, `imp`, `set`, `permute`, `push`, `pop`, `swap`, `swapPop`: the operations keep that.
-/

/-- The keys with a slot (`index`) and the slots are in bijection; `owns k s` tells which slots may
be those of the key `k`. -/
structure SlotTable {κ σ : Type*} (owns : κ → σ → Prop) (slots : Array σ) (index : κ → Option ℕ) :
    Prop where
  owned : ∀ k i, index k = some i → ∃ s, slots[i]? = some s ∧ owns k s
  onto : ∀ i, i < slots.size → ∃ k, index k = some i
  inj : ∀ k k' i, index k = some i → index k' = some i → k = k'

namespace SlotTable

variable {κ σ : Type*} {owns : κ → σ → Prop} {slots : Array σ} {index : κ → Option ℕ}

theorem empty : SlotTable owns #[] (fun _ => none) where
  owned := by simp
  onto := by simp
  inj := by simp

theorem lt_size (h : SlotTable owns slots index) {k : κ} {i : ℕ} (hk : index k = some i) :
    i < slots.size := by
  obtain ⟨s, hs, -⟩ := h.owned k i hk
  exact (Array.getElem?_eq_some_iff.1 hs).1

/-- A slot belongs to the key that has its index. -/
theorem exists_owner (h : SlotTable owns slots index) {i : ℕ} {s : σ} (hs : slots[i]? = some s) :
    ∃ k, index k = some i ∧ owns k s := by
  obtain ⟨k, hk⟩ := h.onto i (Array.getElem?_eq_some_iff.1 hs).1
  obtain ⟨s', hs', howns⟩ := h.owned k i hk
  obtain rfl := Option.some.inj (hs.symm.trans hs')
  exact ⟨k, hk, howns⟩

/-- Only which slots the keys with a slot may own matters. -/
theorem imp (h : SlotTable owns slots index) {owns' : κ → σ → Prop}
    (himp : ∀ k i s, index k = some i → owns k s → owns' k s) : SlotTable owns' slots index where
  owned k i hi := by
    obtain ⟨s, hs, howns⟩ := h.owned k i hi
    exact ⟨s, hs, himp k i s hi howns⟩
  onto := h.onto
  inj := h.inj

/-- A slot may be overwritten, and what its key may own may change with it. -/
theorem set (h : SlotTable owns slots index) {owns' : κ → σ → Prop} {k : κ} {i : ℕ} {s : σ}
    (hk : index k = some i) (hs : owns' k s) (hother : ∀ x t, x ≠ k → owns x t → owns' x t) :
    SlotTable owns' (slots.setIfInBounds i s) index where
  owned x j hj := by
    rcases eq_or_ne i j with rfl | hne
    · obtain rfl := h.inj k x i hk hj
      exact ⟨s, Array.getElem?_setIfInBounds_self_of_lt (h.lt_size hk), hs⟩
    · have hx : x ≠ k := by
        rintro rfl
        exact hne (Option.some.inj (hk.symm.trans hj))
      obtain ⟨t, ht, howns⟩ := h.owned x j hj
      exact ⟨t, by rw [Array.getElem?_setIfInBounds_ne hne, ht], hother x t hx howns⟩
  onto j hj := h.onto j (by simpa using hj)
  inj := h.inj

/-- The slots may be permuted when the indices follow them. -/
theorem permute (h : SlotTable owns slots index) (e : Equiv.Perm ℕ) {slots' : Array σ}
    (hget : ∀ l, slots'[e l]? = slots[l]?) :
    SlotTable owns slots' (fun k => (index k).map e) where
  owned k i hi := by
    obtain ⟨l, hl, rfl⟩ := Option.map_eq_some_iff.1 hi
    rw [hget]
    exact h.owned k l hl
  onto i hi := by
    have hl : e.symm i < slots.size := by
      by_contra hge
      have hnone := hget (e.symm i)
      rw [Equiv.apply_symm_apply, Array.getElem?_eq_getElem hi,
        Array.getElem?_eq_none (Nat.le_of_not_lt hge)] at hnone
      simp at hnone
    obtain ⟨k, hk⟩ := h.onto _ hl
    exact ⟨k, by rw [hk, Option.map_some, Equiv.apply_symm_apply]⟩
  inj a b i ha hb := by
    obtain ⟨l, hl, rfl⟩ := Option.map_eq_some_iff.1 ha
    obtain ⟨m, hm, hlm⟩ := Option.map_eq_some_iff.1 hb
    obtain rfl := e.injective hlm
    exact h.inj a b m hl hm

section Operations

variable [DecidableEq κ]

theorem push (h : SlotTable owns slots index) {k : κ} {s : σ} (hk : index k = none)
    (hs : owns k s) :
    SlotTable owns (slots.push s) (Function.update index k (some slots.size)) where
  owned k' i hi := by
    rcases eq_or_ne k' k with rfl | hne
    · rw [Function.update_self] at hi
      obtain rfl := Option.some.inj hi
      exact ⟨s, Array.getElem?_push_size, hs⟩
    · rw [Function.update_of_ne hne] at hi
      obtain ⟨s', hs', howns⟩ := h.owned k' i hi
      exact ⟨s', (Array.getElem?_push_lt (h.lt_size hi)).trans
        (by rw [← hs', Array.getElem?_eq_getElem]), howns⟩
  onto i hi := by
    rw [Array.size_push] at hi
    rcases Nat.lt_succ_iff_lt_or_eq.1 hi with hlt | rfl
    · obtain ⟨k', hk'⟩ := h.onto i hlt
      have hne : k' ≠ k := by
        rintro rfl
        simp [hk] at hk'
      exact ⟨k', by rwa [Function.update_of_ne hne]⟩
    · exact ⟨k, Function.update_self ..⟩
  inj a b i ha hb := by
    have hnew : ∀ x, x ≠ k → Function.update index k (some slots.size) x ≠ some slots.size := by
      intro x hx hi
      rw [Function.update_of_ne hx] at hi
      exact absurd (h.lt_size hi) (Nat.lt_irrefl _)
    rcases eq_or_ne a k with rfl | hak
    · rw [Function.update_self] at ha
      obtain rfl := Option.some.inj ha
      by_contra hne
      exact hnew b (Ne.symm hne) hb
    · rcases eq_or_ne b k with rfl | hbk
      · rw [Function.update_self] at hb
        obtain rfl := Option.some.inj hb
        exact absurd ha (hnew a hak)
      · rw [Function.update_of_ne hak] at ha
        rw [Function.update_of_ne hbk] at hb
        exact h.inj a b i ha hb

theorem pop (h : SlotTable owns slots index) {k : κ} (hk : index k = some (slots.size - 1)) :
    SlotTable owns slots.pop (Function.update index k none) where
  owned k' i hi := by
    have hne : k' ≠ k := by
      rintro rfl
      simp at hi
    rw [Function.update_of_ne hne] at hi
    have hi' : i ≠ slots.size - 1 := by
      rintro rfl
      exact hne (h.inj k' k _ hi hk)
    obtain ⟨s, hs, howns⟩ := h.owned k' i hi
    have hlt := h.lt_size hi
    exact ⟨s, by rw [Array.getElem?_pop, if_pos (by omega), hs], howns⟩
  onto i hi := by
    rw [Array.size_pop] at hi
    obtain ⟨k', hk'⟩ := h.onto i (by omega)
    have hne : k' ≠ k := by
      rintro rfl
      have := Option.some.inj (hk.symm.trans hk')
      omega
    exact ⟨k', by rwa [Function.update_of_ne hne]⟩
  inj a b i ha hb := by
    have hold : ∀ x, Function.update index k none x = some i → index x = some i := by
      intro x hx
      rcases eq_or_ne x k with rfl | hne
      · simp at hx
      · rwa [Function.update_of_ne hne] at hx
    exact h.inj a b i (hold a ha) (hold b hb)

/-- Exchanging two slots exchanges the indices of their keys. -/
theorem swap (h : SlotTable owns slots index) {k k' : κ} {i j : ℕ} (hne : k ≠ k')
    (hk : index k = some i) (hk' : index k' = some j) :
    SlotTable owns (slots.swapIfInBounds i j)
      (Function.update (Function.update index k (some j)) k' (some i)) := by
  have hi := h.lt_size hk
  have hj := h.lt_size hk'
  have hindex : Function.update (Function.update index k (some j)) k' (some i) =
      fun x => (index x).map (Equiv.swap i j) := by
    funext x
    rcases eq_or_ne x k' with rfl | hx'
    · rw [Function.update_self, hk', Option.map_some, Equiv.swap_apply_right]
    rw [Function.update_of_ne hx']
    rcases eq_or_ne x k with rfl | hx
    · rw [Function.update_self, hk, Option.map_some, Equiv.swap_apply_left]
    rw [Function.update_of_ne hx]
    cases hm : index x with
    | none => rfl
    | some m =>
      rw [Option.map_some, Equiv.swap_apply_of_ne_of_ne]
      · rintro rfl
        exact hx (h.inj x k _ hm hk)
      · rintro rfl
        exact hx' (h.inj x k' _ hm hk')
  rw [hindex, Array.swapIfInBounds_def, dif_pos hi, dif_pos hj]
  apply h.permute
  intro l
  rw [Array.getElem?_swap]
  rcases eq_or_ne l i with rfl | hli
  · rw [Equiv.swap_apply_left, if_pos rfl, Array.getElem?_eq_getElem]
  · rcases eq_or_ne l j with rfl | hlj
    · rw [Equiv.swap_apply_right, if_neg hli, if_pos rfl, Array.getElem?_eq_getElem]
    · rw [Equiv.swap_apply_of_ne_of_ne hli hlj, if_neg hlj.symm, if_neg hli.symm]

/-- Removal: the slot of `k` goes, and the last slot takes its place. -/
theorem swapPop (h : SlotTable owns slots index) {k k' : κ} {i : ℕ} (hne : k ≠ k')
    (hk : index k = some i) (hk' : index k' = some (slots.size - 1)) :
    SlotTable owns (slots.swapIfInBounds i (slots.size - 1)).pop
      (Function.update (Function.update index k' (some i)) k none) := by
  have hswap := h.swap hne hk hk'
  have hlast : Function.update (Function.update index k (some (slots.size - 1))) k' (some i) k =
      some ((slots.swapIfInBounds i (slots.size - 1)).size - 1) := by
    rw [Function.update_of_ne hne, Function.update_self, Array.size_swapIfInBounds]
  have hpop := hswap.pop hlast
  rw [Function.update_comm hne.symm, Function.update_idem] at hpop
  rwa [Function.update_comm hne.symm]

end Operations

end SlotTable
