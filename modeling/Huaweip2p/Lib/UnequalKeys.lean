import Huaweip2p.Lib.RbTree

/-!
# Search trees whose comparator only tells keys apart

`std::set` asks of its comparator to be a strict weak order. This file works out what the tree of
`RbTree` does when the comparator is `key a ≠ key b`, which is irreflexive and whose equivalence is
equality of keys, but which is neither asymmetric nor transitive:

* the descent of `equal_range` turns right at every other key, so `eraseKey` finds a key exactly
  when it lies on the right spine (`eraseKey_of_rightSpine`, `eraseKey_of_not_rightSpine`);
* the descent of an insertion turns left at every other key, so `insertUnique` sees a key exactly
  when it lies on the left spine and otherwise puts the value first, whether or not the key is in
  the tree (`insertUnique_of_leftSpine`, `insertUnique_of_not_leftSpine`).
-/

namespace RbTree

variable {α κ : Type*} [DecidableEq κ] (key : α → κ)

/-- The comparator `key a ≠ key b`. -/
def unequal (a b : α) : Bool := decide (key a ≠ key b)

theorem unequal_of_ne {a b : α} (h : key a ≠ key b) : unequal key a b = true := by
  simp [unequal, h]

theorem unequal_of_eq {a b : α} (h : key a = key b) : unequal key a b = false := by
  simp [unequal, h]

/-! ### Deletion -/

theorem lowerBound_of_ne {k : α} {t : RbTree α} (h : ∀ x ∈ t.toList, key x ≠ key k) (i j : ℕ) :
    lowerBound (unequal key) k t i j = j := by
  induction t generalizing i with
  | nil => rfl
  | node c l v r ihl ihr =>
    rw [lowerBound, unequal_of_ne key (h v (by simp)), if_pos rfl]
    exact ihr (fun x hx => h x (by simp [hx])) _

theorem upperBound_of_ne {k : α} {t : RbTree α} (h : ∀ x ∈ t.toList, key x ≠ key k) (i j : ℕ) :
    upperBound (unequal key) k t i j = if t.size = 0 then j else i := by
  induction t generalizing j with
  | nil => rfl
  | node c l v r ihl ihr =>
    rw [upperBound, unequal_of_ne key (Ne.symm (h v (by simp))), if_pos rfl,
      ihl (fun x hx => h x (by simp [hx])), size,
      if_neg (show l.size + 1 + r.size ≠ 0 by omega)]
    split_ifs <;> omega

/-- A key off the right spine has an empty equal range at the end. -/
theorem equalRange_of_not_rightSpine {k : α} {t : RbTree α}
    (h : ∀ x ∈ t.rightSpine, key x ≠ key k) (i j : ℕ) :
    equalRange (unequal key) k t i j = (j, j) := by
  induction t generalizing i with
  | nil => rfl
  | node c l v r ihl ihr =>
    rw [equalRange, unequal_of_ne key (h v (by simp [rightSpine])), if_pos rfl]
    exact ihr (fun x hx => h x (by simp [rightSpine, hx])) _

/-- A key on the right spine of a tree without repeated keys is its own equal range. -/
theorem equalRange_of_rightSpine {k x : α} {t : RbTree α} (hx : x ∈ t.rightSpine)
    (hk : key x = key k) (hnd : (t.toList.map key).Nodup) (i : ℕ) :
    ∃ xs ys, t.toList = xs ++ x :: ys ∧
      equalRange (unequal key) k t i (i + t.size) = (i + xs.length, i + xs.length + 1) := by
  induction t generalizing i with
  | nil => simp [rightSpine] at hx
  | node c l v r ihl ihr =>
    simp only [toList_node, List.map_append, List.map_cons] at hnd
    obtain ⟨-, hvr, hdis⟩ := List.nodup_append.1 hnd
    obtain ⟨hv, hr⟩ := List.nodup_cons.1 hvr
    rcases List.mem_cons.1 hx with rfl | hx
    · refine ⟨l.toList, r.toList, rfl, ?_⟩
      have hl : ∀ y ∈ l.toList, key y ≠ key k := fun y hy e =>
        hdis _ (List.mem_map_of_mem hy) _ (by simp) (e.trans hk.symm)
      have hr' : ∀ y ∈ r.toList, key y ≠ key k := fun y hy e =>
        hv (List.mem_map.2 ⟨y, hy, e.trans hk.symm⟩)
      rw [equalRange, unequal_of_eq key hk, unequal_of_eq key hk.symm, if_neg (by simp),
        if_neg (by simp), lowerBound_of_ne key hl, upperBound_of_ne key hr', length_toList]
      simp only [size, Prod.mk.injEq, true_and]
      split_ifs <;> omega
    · have hne : key v ≠ key k := fun e =>
        hv (List.mem_map.2 ⟨x, mem_toList_of_mem_rightSpine hx, hk.trans e.symm⟩)
      obtain ⟨xs, ys, ht, he⟩ := ihr hx hr (i + l.size + 1)
      refine ⟨l.toList ++ v :: xs, ys, by simp [ht], ?_⟩
      rw [equalRange, unequal_of_ne key hne, if_pos rfl, size,
        show i + (l.size + 1 + r.size) = i + l.size + 1 + r.size by omega, he]
      simp only [List.length_append, List.length_cons, length_toList, Prod.mk.injEq]
      omega

/-- Erasing a key off the right spine erases nothing. -/
theorem eraseKey_of_not_rightSpine {k : α} {t : RbTree α}
    (h : ∀ x ∈ t.rightSpine, key x ≠ key k) : eraseKey (unequal key) k t = (t, 0) := by
  unfold eraseKey
  rw [equalRange_of_not_rightSpine key h]
  cases t with
  | nil => rfl
  | node c l v r =>
    dsimp only
    rw [if_neg (by simp only [size]; omega), Nat.sub_self, eraseRange, Nat.sub_self]

/-- Erasing a key on the right spine removes its value, when no key is repeated. -/
theorem eraseKey_of_rightSpine {k x : α} {t : RbTree α} (hx : x ∈ t.rightSpine)
    (hk : key x = key k) (hnd : (t.toList.map key).Nodup) :
    ∃ xs ys, t.toList = xs ++ x :: ys ∧ (eraseKey (unequal key) k t).1.toList = xs ++ ys ∧
      (eraseKey (unequal key) k t).2 = 1 := by
  obtain ⟨xs, ys, ht, he⟩ := equalRange_of_rightSpine key hx hk hnd 0
  simp only [Nat.zero_add] at he
  have hsize : t.size = xs.length + 1 + ys.length := by
    rw [← length_toList, ht]
    simp only [List.length_append, List.length_cons]
    omega
  have hlist : (eraseKey (unequal key) k t).1.toList = xs ++ ys := by
    unfold eraseKey
    rw [he]
    dsimp only
    split_ifs with hall
    · have hxs : xs = [] := List.length_eq_zero_iff.1 hall.1
      have hys : ys = [] := List.length_eq_zero_iff.1 (by omega)
      simp [hxs, hys]
    · rw [Nat.add_sub_cancel_left, eraseRange, eraseRange, toList_eraseAt, ht,
        List.eraseIdx_append_of_length_le le_rfl]
      simp
  refine ⟨xs, ys, ht, hlist, ?_⟩
  have hsize' : (eraseKey (unequal key) k t).1.size = xs.length + ys.length := by
    rw [← length_toList, hlist, List.length_append]
  show t.size - (eraseKey (unequal key) k t).1.size = 1
  omega

/-! ### Insertion -/

theorem before_insertPath_of_ne {k : α} {t : RbTree α} (h : ∀ x ∈ t.leftSpine, key x ≠ key k)
    (fs : List (Frame α)) : before (insertPath (unequal key) k t fs) = before fs := by
  induction t generalizing fs with
  | nil => rfl
  | node c l v r ihl ihr =>
    rw [insertPath, unequal_of_ne key (Ne.symm (h v (by simp [leftSpine]))), if_pos rfl,
      ihl (fun x hx => h x (by simp [leftSpine, hx]))]
    simp

/-- Once the descent has turned right, at an equal key, the value before the hole stays one of an
equal key: every later right turn is at an equal key too. -/
theorem getLast?_before_insertPath {k j : α} (t : RbTree α) {fs : List (Frame α)}
    (hj : (before fs).getLast? = some j) (hk : key j = key k) :
    ∃ j', (before (insertPath (unequal key) k t fs)).getLast? = some j' ∧ key j' = key k := by
  induction t generalizing fs j with
  | nil => exact ⟨j, hj, hk⟩
  | node c l v r ihl ihr =>
    by_cases h : key k = key v
    · rw [insertPath, unequal_of_eq key h, if_neg (by simp)]
      exact ihr (j := v) (by simp) h.symm
    · rw [insertPath, unequal_of_ne key h, if_pos rfl]
      exact ihl (by simpa using hj) hk

theorem getLast?_before_insertPath_of_leftSpine {k x : α} {t : RbTree α} (hx : x ∈ t.leftSpine)
    (hk : key x = key k) (fs : List (Frame α)) :
    ∃ j, (before (insertPath (unequal key) k t fs)).getLast? = some j ∧ key j = key k := by
  induction t generalizing fs with
  | nil => simp [leftSpine] at hx
  | node c l v r ihl ihr =>
    by_cases h : key k = key v
    · rw [insertPath, unequal_of_eq key h, if_neg (by simp)]
      exact getLast?_before_insertPath key r (j := v) (by simp) h.symm
    · rw [insertPath, unequal_of_ne key h, if_pos rfl]
      rcases List.mem_cons.1 hx with rfl | hx
      · exact absurd hk.symm h
      · exact ihl hx _

/-- A value whose key is on the left spine is not inserted. -/
theorem insertUnique_of_leftSpine {k x : α} {t : RbTree α} (hx : x ∈ t.leftSpine)
    (hk : key x = key k) : insertUnique (unequal key) k t = t := by
  obtain ⟨j, hj, hjk⟩ := getLast?_before_insertPath_of_leftSpine key hx hk []
  unfold insertUnique
  dsimp only
  rw [hj]
  dsimp only
  rw [unequal_of_eq key hjk, if_neg (by simp)]

/-- A value whose key is not on the left spine becomes the first one. -/
theorem insertUnique_of_not_leftSpine {k : α} {t : RbTree α}
    (h : ∀ x ∈ t.leftSpine, key x ≠ key k) :
    (insertUnique (unequal key) k t).toList = k :: t.toList := by
  have hb : before (insertPath (unequal key) k t []) = [] := by
    rw [before_insertPath_of_ne key h, before_nil]
  have ha := before_after_insertPath (unequal key) k t []
  rw [hb] at ha
  unfold insertUnique
  dsimp only
  rw [hb, List.getLast?_nil]
  simp only [toList_insertRebalance, hb]
  simpa using ha

end RbTree
