import Mathlib.Tactic

/-!
# Red-black search trees with an arbitrary comparator

The search tree behind `std::set` and `std::map`, following `_Rb_tree` of libstdc++ step by step:
a descent that asks only the comparator, an insertion and a deletion that rebalance with the
rotations and recolourings of `_Rb_tree_insert_and_rebalance` and
`_Rb_tree_rebalance_for_erase`. Nothing is assumed of the comparator `lt`; what it has to be is
for the user of the tree to say.

* `RbTree`, `toList` (the iteration order), `Frame` (one step of a path to the root), `zip`;
* `insertRebalance`, `insertUnique`: `_M_insert_unique`;
* `eraseRebalance`, `eraseAt`: `_M_erase` of the node at an in-order position;
* `equalRange`, `eraseKey`: `erase(const key_type&)`.

A node is named by its in-order position, `end()` by the size of the tree.
-/

/-- The colour of a node. -/
inductive Color
  | red
  | black
  deriving DecidableEq, Repr

/-- The side of its parent a node hangs on. -/
inductive Side
  | left
  | right
  deriving DecidableEq, Repr

/-- A binary tree with coloured nodes. -/
inductive RbTree (α : Type*)
  | nil
  | node (color : Color) (left : RbTree α) (val : α) (right : RbTree α)
  deriving DecidableEq, Repr

namespace RbTree

variable {α : Type*}

/-- The values in iteration order. -/
def toList : RbTree α → List α
  | nil => []
  | node _ l v r => l.toList ++ v :: r.toList

@[simp] theorem toList_nil : (nil : RbTree α).toList = [] := rfl

@[simp] theorem toList_node (c : Color) (l : RbTree α) (v : α) (r : RbTree α) :
    (node c l v r).toList = l.toList ++ v :: r.toList := rfl

/-- The number of nodes. -/
def size : RbTree α → ℕ
  | nil => 0
  | node _ l _ r => l.size + 1 + r.size

@[simp] theorem length_toList (t : RbTree α) : t.toList.length = t.size := by
  induction t with
  | nil => rfl
  | node c l v r ihl ihr =>
    simp only [toList_node, List.length_append, List.length_cons, ihl, ihr, size]
    omega

/-- The colour of the root; an absent node counts as black. -/
def color : RbTree α → Color
  | nil => .black
  | node c _ _ _ => c

/-- The nodes met by always turning left from the root. -/
def leftSpine : RbTree α → List α
  | nil => []
  | node _ l v _ => v :: l.leftSpine

/-- The nodes met by always turning right from the root. -/
def rightSpine : RbTree α → List α
  | nil => []
  | node _ _ v r => v :: r.rightSpine

theorem mem_toList_of_mem_leftSpine {t : RbTree α} {x : α} (h : x ∈ t.leftSpine) :
    x ∈ t.toList := by
  induction t with
  | nil => simp [leftSpine] at h
  | node c l v r ihl ihr =>
    rcases List.mem_cons.1 h with rfl | h
    · simp
    · simp [ihl h]

theorem mem_toList_of_mem_rightSpine {t : RbTree α} {x : α} (h : x ∈ t.rightSpine) :
    x ∈ t.toList := by
  induction t with
  | nil => simp [rightSpine] at h
  | node c l v r ihl ihr =>
    rcases List.mem_cons.1 h with rfl | h
    · simp
    · simp [ihr h]

/-- Colour the root, if there is one. -/
def paint (c : Color) : RbTree α → RbTree α
  | nil => nil
  | node _ l v r => node c l v r

@[simp] theorem toList_paint (c : Color) (t : RbTree α) : (t.paint c).toList = t.toList := by
  cases t <;> rfl

/-! ### Paths -/

/-- A node with `x` on side `s` and `y` on the other side. -/
def link (s : Side) (c : Color) (x : RbTree α) (v : α) (y : RbTree α) : RbTree α :=
  match s with
  | .left => node c x v y
  | .right => node c y v x

/-- One step from a node to its parent: the side the node hangs on, the parent's colour and value,
and the node's sibling. -/
structure Frame (α : Type*) where
  side : Side
  color : Color
  val : α
  sibling : RbTree α

/-- Rebuild the tree around `x` along the path to the root. -/
def zip : RbTree α → List (Frame α) → RbTree α
  | x, [] => x
  | x, f :: fs => zip (link f.side f.color x f.val f.sibling) fs

/-- The values before the hole of a path, in iteration order. -/
def before : List (Frame α) → List α
  | [] => []
  | f :: fs => before fs ++ match f.side with
    | .left => []
    | .right => f.sibling.toList ++ [f.val]

/-- The values after the hole of a path, in iteration order. -/
def after : List (Frame α) → List α
  | [] => []
  | f :: fs => (match f.side with
    | .left => f.val :: f.sibling.toList
    | .right => []) ++ after fs

@[simp] theorem before_nil : before ([] : List (Frame α)) = [] := rfl
@[simp] theorem after_nil : after ([] : List (Frame α)) = [] := rfl

@[simp] theorem before_left (c : Color) (v : α) (y : RbTree α) (fs : List (Frame α)) :
    before (⟨.left, c, v, y⟩ :: fs) = before fs := by simp [before]

@[simp] theorem before_right (c : Color) (v : α) (y : RbTree α) (fs : List (Frame α)) :
    before (⟨.right, c, v, y⟩ :: fs) = before fs ++ (y.toList ++ [v]) := rfl

@[simp] theorem after_left (c : Color) (v : α) (y : RbTree α) (fs : List (Frame α)) :
    after (⟨.left, c, v, y⟩ :: fs) = v :: (y.toList ++ after fs) := rfl

@[simp] theorem after_right (c : Color) (v : α) (y : RbTree α) (fs : List (Frame α)) :
    after (⟨.right, c, v, y⟩ :: fs) = after fs := by simp [after]

@[simp] theorem toList_zip (x : RbTree α) (fs : List (Frame α)) :
    (zip x fs).toList = before fs ++ x.toList ++ after fs := by
  induction fs generalizing x with
  | nil => simp [zip]
  | cons f fs ih =>
    obtain ⟨s, c, v, y⟩ := f
    cases s <;> simp [zip, link, ih]

theorem before_append (p q : List (Frame α)) : before (p ++ q) = before q ++ before p := by
  induction p with
  | nil => simp
  | cons f p ih => simp [before, ih]

theorem after_append (p q : List (Frame α)) : after (p ++ q) = after p ++ after q := by
  induction p with
  | nil => simp
  | cons f p ih => simp [after, ih]

/-! ### Insertion -/

/-- The rotations that end the loop of `_Rb_tree_insert_and_rebalance`: `x` hangs on its red
parent, the parent hangs on side `s` of the grandparent, and the uncle `u` is not red. A node on
the inner side is rotated out first. -/
def insertRotate (s : Side) (x : RbTree α) (p : Frame α) (g : α) (u : RbTree α) : RbTree α :=
  if p.side = s then
    link s .black x p.val (link s .red p.sibling g u)
  else
    match x with
    | nil => link s .red (link p.side p.color x p.val p.sibling) g u
    | node _ l v r =>
      match s with
      | .left => node .black (node .red p.sibling p.val l) v (node .red r g u)
      | .right => node .black (node .red u g l) v (node .red r p.val p.sibling)

/-- `_Rb_tree_insert_and_rebalance` from the red node `x` up the path to the root. -/
def insertRebalance : RbTree α → List (Frame α) → RbTree α
  | x, [] => x.paint .black
  | x, [p] => (zip x [p]).paint .black
  | x, p :: g :: fs =>
    if p.color = .red then
      if g.sibling.color = .red then
        insertRebalance (link g.side .red (link p.side .black x p.val p.sibling) g.val
          (g.sibling.paint .black)) fs
      else
        (zip (insertRotate g.side x p g.val g.sibling) fs).paint .black
    else
      (zip x (p :: g :: fs)).paint .black

theorem toList_insertRotate (s : Side) (x : RbTree α) (p : Frame α) (g : α) (u : RbTree α) :
    (insertRotate s x p g u).toList =
      (link s .red (link p.side .red x p.val p.sibling) g u).toList := by
  obtain ⟨ps, pc, pv, py⟩ := p
  cases s <;> cases ps <;> cases x <;> simp [insertRotate, link]

@[simp] theorem toList_insertRebalance (x : RbTree α) (fs : List (Frame α)) :
    (insertRebalance x fs).toList = before fs ++ x.toList ++ after fs := by
  fun_induction insertRebalance x fs with
  | case1 x => simp
  | case2 x p => simp
  | case3 x p g fs hp hu ih =>
    rw [ih]
    obtain ⟨ps, pc, pv, py⟩ := p
    obtain ⟨gs, gc, gv, gy⟩ := g
    cases ps <;> cases gs <;> simp [link]
  | case4 x p g fs hp hu =>
    obtain ⟨ps, pc, pv, py⟩ := p
    obtain ⟨gs, gc, gv, gy⟩ := g
    simp only [toList_paint, toList_zip, toList_insertRotate]
    cases ps <;> cases gs <;> simp [link]
  | case5 x p g fs hp => simp

section Search

variable (lt : α → α → Bool)

/-- The descent of `_M_get_insert_unique_pos`: the path to the place of `k` below `t`. -/
def insertPath (k : α) : RbTree α → List (Frame α) → List (Frame α)
  | nil, fs => fs
  | node c l v r, fs =>
    if lt k v then insertPath k l (⟨.left, c, v, r⟩ :: fs)
    else insertPath k r (⟨.right, c, v, l⟩ :: fs)

/-- `_M_insert_unique`: the value just before the place found (`--j`, or `j` itself after a right
turn) must be below `k`; otherwise `k` counts as present and nothing is inserted. -/
def insertUnique (k : α) (t : RbTree α) : RbTree α :=
  let fs := insertPath lt k t []
  match (before fs).getLast? with
  | none => insertRebalance (node .red nil k nil) fs
  | some j => if lt j k then insertRebalance (node .red nil k nil) fs else t

theorem before_after_insertPath (k : α) (t : RbTree α) (fs : List (Frame α)) :
    before (insertPath lt k t fs) ++ after (insertPath lt k t fs) =
      before fs ++ t.toList ++ after fs := by
  induction t generalizing fs with
  | nil => simp [insertPath]
  | node c l v r ihl ihr =>
    by_cases h : lt k v <;> simp [insertPath, h, ihl, ihr]

/-- Insertion adds `k` at one place of the iteration order, or changes nothing. -/
theorem insertUnique_cases (k : α) (t : RbTree α) :
    insertUnique lt k t = t ∨
      ∃ xs ys, t.toList = xs ++ ys ∧ (insertUnique lt k t).toList = xs ++ k :: ys := by
  have h := before_after_insertPath lt k t []
  simp only [before_nil, after_nil, List.nil_append, List.append_nil] at h
  unfold insertUnique
  dsimp only
  split
  · exact Or.inr ⟨_, _, h.symm, by simp⟩
  · split_ifs
    · exact Or.inr ⟨_, _, h.symm, by simp⟩
    · exact Or.inl rfl

theorem mem_insertUnique {k x : α} {t : RbTree α} (hx : x ∈ (insertUnique lt k t).toList) :
    x = k ∨ x ∈ t.toList := by
  rcases insertUnique_cases lt k t with h | ⟨xs, ys, ht, hi⟩
  · exact Or.inr (h ▸ hx)
  · rw [hi] at hx
    rw [ht]
    simp only [List.mem_append, List.mem_cons] at hx ⊢
    tauto

end Search

/-! ### Deletion -/

/-- The loop body of `_Rb_tree_rebalance_for_erase` for `x` on side `s` of a node `(c, v)` with the
black sibling `w`; the flag says that the subtree is still one black node short. -/
def eraseBlackSibling (s : Side) (c : Color) (x : RbTree α) (v : α) (w : RbTree α) :
    RbTree α × Bool :=
  match w with
  | nil => (link s c x v nil, true)
  | node _ l wv r =>
    let inner := match s with | .left => l | .right => r
    let outer := match s with | .left => r | .right => l
    if inner.color = .black ∧ outer.color = .black then
      (link s c x v (w.paint .red), true)
    else if outer.color = .black then
      match inner with
      | nil => (link s c x v (w.paint .red), true)
      | node _ il iv ir =>
        match s with
        | .left => (node c (node .black x v il) iv (node .black ir wv outer), false)
        | .right => (node c (node .black outer wv il) iv (node .black ir v x), false)
    else
      (link s c (link s .black x v inner) wv (outer.paint .black), false)

theorem toList_eraseBlackSibling (s : Side) (c : Color) (x : RbTree α) (v : α) (w : RbTree α) :
    (eraseBlackSibling s c x v w).1.toList = (link s c x v w).toList := by
  unfold eraseBlackSibling
  cases w with
  | nil => rfl
  | node wc l wv r =>
    dsimp only
    split_ifs with h₁ h₂
    · cases s <;> simp [link]
    · cases s with
      | left => cases l <;> simp [link]
      | right => cases r <;> simp [link]
    · cases s <;> simp [link]

/-- The loop of `_Rb_tree_rebalance_for_erase` from `x`, which is one black node short, up the path
to the root. Under a red sibling the sibling is rotated up first; its place is then taken by a red
parent, at which the loop ends. -/
def eraseRebalance : RbTree α → List (Frame α) → RbTree α
  | x, [] => x.paint .black
  | x, f :: fs =>
    if x.color = .red then zip (x.paint .black) (f :: fs)
    else
      match f.sibling with
      | node .red l wv r =>
        let inner := match f.side with | .left => l | .right => r
        let outer := match f.side with | .left => r | .right => l
        let y := eraseBlackSibling f.side .red x f.val inner
        zip (if y.2 then y.1.paint .black else y.1) (⟨f.side, .black, wv, outer⟩ :: fs)
      | w =>
        let y := eraseBlackSibling f.side f.color x f.val w
        if y.2 then eraseRebalance y.1 fs else zip y.1 fs

@[simp] theorem toList_eraseRebalance (x : RbTree α) (fs : List (Frame α)) :
    (eraseRebalance x fs).toList = before fs ++ x.toList ++ after fs := by
  induction fs generalizing x with
  | nil => simp [eraseRebalance]
  | cons f fs ih =>
    obtain ⟨s, c, v, w⟩ := f
    unfold eraseRebalance
    split_ifs with hx
    · simp
    · dsimp only
      split
      · rename_i l wv r
        rw [toList_zip]
        split_ifs <;> cases s <;>
          simp [toList_eraseBlackSibling, link]
      · rename_i w _
        split_ifs
        · rw [ih, toList_eraseBlackSibling]
          cases s <;> simp [link]
        · rw [toList_zip, toList_eraseBlackSibling]
          cases s <;> simp [link]

/-- The leftmost node below `(c, l, v, r)`: its colour, value and right child, and the path down to
it. -/
def leftmost : Color → RbTree α → α → RbTree α → List (Frame α) →
    Color × α × RbTree α × List (Frame α)
  | c, nil, v, r, fs => (c, v, r, fs)
  | c, node lc ll lv lr, v, r, fs => leftmost lc ll lv lr (⟨.left, c, v, r⟩ :: fs)

theorem toList_leftmost (c : Color) (l : RbTree α) (v : α) (r : RbTree α) (fs : List (Frame α)) :
    before (leftmost c l v r fs).2.2.2 = before fs ∧
      (leftmost c l v r fs).2.1 ::
        ((leftmost c l v r fs).2.2.1.toList ++ after (leftmost c l v r fs).2.2.2) =
      l.toList ++ v :: (r.toList ++ after fs) := by
  induction l generalizing c v r fs with
  | nil => simp [leftmost]
  | node lc ll lv lr ihl ihr =>
    obtain ⟨h₁, h₂⟩ := ihl lc lv lr (⟨.left, c, v, r⟩ :: fs)
    refine ⟨by simpa [leftmost] using h₁, ?_⟩
    simp only [leftmost, h₂]
    simp

/-- Unlink a node of colour `c` whose only child is `x`. -/
def splice (c : Color) (x : RbTree α) (fs : List (Frame α)) : RbTree α :=
  if c = .black then eraseRebalance x fs else zip x fs

@[simp] theorem toList_splice (c : Color) (x : RbTree α) (fs : List (Frame α)) :
    (splice c x fs).toList = before fs ++ x.toList ++ after fs := by
  unfold splice
  split_ifs <;> simp

/-- `_Rb_tree_rebalance_for_erase` on the node `(c, l, v, r)`: with two children its in-order
successor takes its place and its colour. -/
def eraseNode (c : Color) (l : RbTree α) (r : RbTree α) (fs : List (Frame α)) : RbTree α :=
  match l, r with
  | nil, r => splice c r fs
  | l, nil => splice c l fs
  | l, node rc rl rv rr =>
    let y := leftmost rc rl rv rr []
    splice y.1 y.2.2.1 (y.2.2.2 ++ ⟨.right, c, y.2.1, l⟩ :: fs)

theorem toList_eraseNode (c : Color) (l : RbTree α) (r : RbTree α) (fs : List (Frame α)) :
    (eraseNode c l r fs).toList = before fs ++ (l.toList ++ r.toList) ++ after fs := by
  unfold eraseNode
  split
  · simp
  · simp
  · rename_i rc rl rv rr _
    obtain ⟨h₁, h₂⟩ := toList_leftmost rc rl rv rr []
    simp only [before_nil, after_nil, List.append_nil] at h₁ h₂
    dsimp only
    rw [toList_splice, before_append, after_append, h₁, toList_node, ← h₂]
    simp

/-- Erase the node at in-order position `i`. -/
def eraseAt : RbTree α → ℕ → List (Frame α) → RbTree α
  | nil, _, fs => zip nil fs
  | node c l v r, i, fs =>
    if i < l.size then eraseAt l i (⟨.left, c, v, r⟩ :: fs)
    else if i = l.size then eraseNode c l r fs
    else eraseAt r (i - (l.size + 1)) (⟨.right, c, v, l⟩ :: fs)

theorem toList_eraseAt (t : RbTree α) (i : ℕ) (fs : List (Frame α)) :
    (eraseAt t i fs).toList = before fs ++ t.toList.eraseIdx i ++ after fs := by
  induction t generalizing i fs with
  | nil => simp [eraseAt]
  | node c l v r ihl ihr =>
    unfold eraseAt
    split_ifs with h₁ h₂
    · rw [ihl, toList_node, List.eraseIdx_append_of_lt_length (by simpa using h₁)]
      simp
    · subst h₂
      rw [toList_eraseNode, toList_node, List.eraseIdx_append_of_length_le (by simp)]
      simp
    · rw [ihr, toList_node, List.eraseIdx_append_of_length_le (by simp; omega),
        length_toList, show i - l.size = (i - (l.size + 1)) + 1 by omega,
        List.eraseIdx_cons_succ]
      simp

section Search

variable (lt : α → α → Bool)

/-- `_M_lower_bound` below a subtree that starts at in-order position `i`, `j` being the answer so
far. -/
def lowerBound (k : α) : RbTree α → ℕ → ℕ → ℕ
  | nil, _, j => j
  | node _ l v r, i, j =>
    if lt v k then lowerBound k r (i + l.size + 1) j else lowerBound k l i (i + l.size)

/-- `_M_upper_bound`, likewise. -/
def upperBound (k : α) : RbTree α → ℕ → ℕ → ℕ
  | nil, _, j => j
  | node _ l v r, i, j =>
    if lt k v then upperBound k l i (i + l.size) else upperBound k r (i + l.size + 1) j

/-- `equal_range`: both ends as in-order positions. -/
def equalRange (k : α) : RbTree α → ℕ → ℕ → ℕ × ℕ
  | nil, _, j => (j, j)
  | node _ l v r, i, j =>
    if lt v k then equalRange k r (i + l.size + 1) j
    else if lt k v then equalRange k l i (i + l.size)
    else (lowerBound lt k l i (i + l.size), upperBound lt k r (i + l.size + 1) j)

/-- Erase `n` nodes from position `i` on: `while (first != last) erase(first++)`. -/
def eraseRange : ℕ → ℕ → RbTree α → RbTree α
  | 0, _, t => t
  | n + 1, i, t => eraseRange n i (eraseAt t i [])

/-- `erase(const key_type&)`: erase the equal range; the number of nodes erased. -/
def eraseKey (k : α) (t : RbTree α) : RbTree α × ℕ :=
  let p := equalRange lt k t 0 t.size
  let t' := if p.1 = 0 ∧ p.2 = t.size then nil else eraseRange (p.2 - p.1) p.1 t
  (t', t.size - t'.size)

theorem eraseRange_sublist (n i : ℕ) (t : RbTree α) :
    (eraseRange n i t).toList.Sublist t.toList := by
  induction n generalizing t with
  | zero => exact List.Sublist.refl _
  | succ n ih =>
    have h : (eraseAt t i []).toList = t.toList.eraseIdx i := by simp [toList_eraseAt]
    exact (ih _).trans (h ▸ List.eraseIdx_sublist _ _)

/-- Erasing a key only removes values. -/
theorem eraseKey_sublist (k : α) (t : RbTree α) :
    (eraseKey lt k t).1.toList.Sublist t.toList := by
  unfold eraseKey
  dsimp only
  split_ifs
  · exact List.nil_sublist _
  · exact eraseRange_sublist _ _ _

end Search

end RbTree
