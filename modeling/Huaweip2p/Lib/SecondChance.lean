import Huaweip2p.Lib.Runs

/-!
# Queues with second chances

A queue of at most `capacity` members. A newcomer to a full queue asks its first member: when that
one works it goes to the end and the newcomer is turned away, otherwise the newcomer gets its place.

* `insert_cases`: the four ways of a request;
* `asked_of_gone`: who leaves the queue was asked, and did not work;
* `exists_replaced`: while the same members work and one of a full queue does not, not every one of
  as many newcomers as the queue has members is turned away.
-/

universe u

namespace SecondChance

variable {α : Type u} [DecidableEq α] (capacity : ℕ) (works : α → Bool)

/-- The member that a newcomer asks. -/
def asked (q : List α) (a : α) : Option α :=
  if a ∈ q ∨ q.length < capacity then none else q.head?

/-- The queue after `a` asked to be a member. -/
def insert (q : List α) (a : α) : List α :=
  if a ∈ q then q
  else if q.length < capacity then q ++ [a]
  else match q with
    | [] => []
    | f :: q => if works f then q ++ [f] else q ++ [a]

variable {capacity works} {q : List α} {a : α}

theorem insert_of_mem (h : a ∈ q) :
    insert capacity works q a = q ∧ asked capacity q a = none := by
  simp [insert, asked, h]

theorem insert_of_room (h : a ∉ q) (hlen : q.length < capacity) :
    insert capacity works q a = q ++ [a] ∧ asked capacity q a = none := by
  simp [insert, asked, h, hlen]

theorem insert_of_full (works : α → Bool) {f : α} (h : a ∉ f :: q) (hlen : capacity ≤ (f :: q).length) :
    insert capacity works (f :: q) a = (if works f then q ++ [f] else q ++ [a]) ∧
      asked capacity (f :: q) a = some f := by
  rw [insert, asked, if_neg h, if_neg (Nat.not_lt.2 hlen),
    if_neg (not_or.2 ⟨h, Nat.not_lt.2 hlen⟩)]
  exact ⟨rfl, rfl⟩

/-- The ways of a request: `a` is a member, or there is a place, or the first member is asked. -/
theorem insert_cases (capacity : ℕ) (works : α → Bool) (q : List α) (a : α) :
    (a ∈ q ∧ insert capacity works q a = q) ∨
    (a ∉ q ∧ q.length < capacity ∧ insert capacity works q a = q ++ [a]) ∨
    (q = [] ∧ insert capacity works q a = []) ∨
    ∃ f q', q = f :: q' ∧ a ∉ q ∧ capacity ≤ q.length ∧ asked capacity q a = some f ∧
      insert capacity works q a = if works f then q' ++ [f] else q' ++ [a] := by
  by_cases ha : a ∈ q
  · exact .inl ⟨ha, (insert_of_mem ha).1⟩
  · rcases Nat.lt_or_ge q.length capacity with hlen | hlen
    · exact .inr (.inl ⟨ha, hlen, (insert_of_room ha hlen).1⟩)
    · cases q with
      | nil =>
        refine .inr (.inr (.inl ⟨rfl, ?_⟩))
        rw [insert, if_neg ha, if_neg (Nat.not_lt.2 hlen)]
      | cons f q =>
        obtain ⟨hinsert, hasked⟩ := insert_of_full works ha hlen
        exact .inr (.inr (.inr ⟨f, q, rfl, ha, hlen, hasked, hinsert⟩))

theorem nodup_insert (h : q.Nodup) : (insert capacity works q a).Nodup := by
  rcases insert_cases capacity works q a with
    ⟨-, hi⟩ | ⟨ha, -, hi⟩ | ⟨-, hi⟩ | ⟨f, q', rfl, ha, -, -, hi⟩
  · rwa [hi]
  · rw [hi]
    exact (List.perm_append_singleton a q).nodup_iff.2 (List.nodup_cons.2 ⟨ha, h⟩)
  · rw [hi]
    exact List.nodup_nil
  · rw [hi]
    split_ifs
    · exact (List.perm_append_singleton f q').nodup_iff.2 h
    · rw [List.mem_cons, not_or] at ha
      exact (List.perm_append_singleton a q').nodup_iff.2
        (List.nodup_cons.2 ⟨ha.2, (List.nodup_cons.1 h).2⟩)

theorem length_insert_le (h : q.length ≤ capacity) :
    (insert capacity works q a).length ≤ capacity := by
  rcases insert_cases capacity works q a with
    ⟨-, hi⟩ | ⟨-, hlen, hi⟩ | ⟨-, hi⟩ | ⟨f, q', rfl, -, -, -, hi⟩
  · rwa [hi]
  · rw [hi, List.length_append, List.length_singleton]
    exact hlen
  · rw [hi]
    exact Nat.zero_le _
  · rw [hi]
    split_ifs
    · rwa [List.length_append]
    · rwa [List.length_append]

/-- Who leaves the queue was asked, and did not work. -/
theorem asked_of_gone {x : α} (hx : x ∈ q) (hgone : x ∉ insert capacity works q a) :
    asked capacity q a = some x ∧ works x = false := by
  rcases insert_cases capacity works q a with
    ⟨-, h⟩ | ⟨-, -, h⟩ | ⟨rfl, -⟩ | ⟨f, q', rfl, -, -, hasked, h⟩
  · rw [h] at hgone
    exact absurd hx hgone
  · rw [h] at hgone
    exact absurd (List.mem_append_left _ hx) hgone
  · cases hx
  · rw [h] at hgone
    have hxq : x ∉ q' := by
      intro hmem
      split_ifs at hgone
      · exact hgone (List.mem_append_left _ hmem)
      · exact hgone (List.mem_append_left _ hmem)
    obtain rfl := (List.mem_cons.1 hx).resolve_right hxq
    cases hw : works x with
    | true => simp [hw] at hgone
    | false => exact ⟨hasked, rfl⟩

/-- One step of a run: somebody asks to be a member, or something else happens. -/
def step (capacity : ℕ) (works : α → Bool) (q : List α) : Option α → List α
  | some a => insert capacity works q a
  | none => q

/-- The newcomer gets the place of a member that does not work. -/
def Replaced (capacity : ℕ) (works : α → Bool) (q : List α) (a : α) : Prop :=
  a ∉ q ∧ capacity ≤ q.length ∧ ∃ f q', q = f :: q' ∧ works f = false ∧
    insert capacity works q a = q' ++ [a]

/-- The induction is on the run; the first member that does not work comes nearer with every
newcomer that is turned away. -/
theorem exists_replaced_of_position {ws rest : List α} {d : α} (hq : q = ws ++ d :: rest)
    (hws : ∀ x ∈ ws, works x = true) (hd : works d = false) (hfull : capacity ≤ q.length)
    {es : List (Option α)} (hcount : ws.length < (es.filterMap id).length)
    (hnew : ∀ pre a post, es = pre ++ some a :: post →
      (Runs.run (step capacity works) q pre).Perm q → a ∉ q) :
    ∃ pre a post, es = pre ++ some a :: post ∧
      Replaced capacity works (Runs.run (step capacity works) q pre) a := by
  induction es generalizing q ws rest with
  | nil => cases hcount
  | cons e es ih =>
    cases e with
    | none =>
      obtain ⟨pre, a, post, rfl, hreplaced⟩ := ih hq hws hfull hcount fun pre a post h hperm =>
        hnew (none :: pre) a post (by rw [h, List.cons_append]) hperm
      exact ⟨none :: pre, a, post, rfl, hreplaced⟩
    | some a =>
      have ha := hnew [] a es rfl (List.Perm.refl _)
      cases ws with
      | nil =>
        obtain rfl : q = d :: rest := hq
        refine ⟨[], a, es, rfl, ha, hfull, d, rest, rfl, hd, ?_⟩
        rw [Runs.run_nil, (insert_of_full works ha hfull).1, hd]
        rfl
      | cons w ws =>
        obtain rfl : q = w :: (ws ++ d :: rest) := hq
        obtain ⟨hw, hws⟩ := List.forall_mem_cons.1 hws
        have hstep : step capacity works (w :: (ws ++ d :: rest)) (some a) =
            ws ++ d :: rest ++ [w] := by
          rw [step, (insert_of_full works ha hfull).1, hw, if_pos rfl]
        have hperm : (ws ++ d :: rest ++ [w]).Perm (w :: (ws ++ d :: rest)) :=
          List.perm_append_singleton w _
        have hrest : ws ++ d :: rest ++ [w] = ws ++ d :: (rest ++ [w]) := by
          rw [List.append_assoc, List.cons_append]
        obtain ⟨pre, b, post, rfl, hreplaced⟩ := ih hrest hws
          (hfull.trans_eq hperm.length_eq.symm) (Nat.lt_of_succ_lt_succ hcount)
          fun pre b post h hpre hmem => by
            rw [← hstep] at hpre
            exact hnew (some a :: pre) b post (by rw [h, List.cons_append])
              (hpre.trans (hstep ▸ hperm)) (hperm.subset hmem)
        rw [← hstep] at hreplaced
        exact ⟨some a :: pre, b, post, rfl, hreplaced⟩

/-- While the same members work, and one of a full queue does not, one of as many newcomers as the
queue has members gets the place of such a one. -/
theorem exists_replaced (es : List (Option α)) (hdead : ∃ d ∈ q, works d = false)
    (hfull : capacity ≤ q.length) (hcount : q.length ≤ (es.filterMap id).length)
    (hnew : ∀ pre a post, es = pre ++ some a :: post →
      (Runs.run (step capacity works) q pre).Perm q → a ∉ q) :
    ∃ pre a post, es = pre ++ some a :: post ∧
      Replaced capacity works (Runs.run (step capacity works) q pre) a := by
  obtain ⟨d, hd, ws, rest, rfl, hws⟩ : ∃ d, works d = false ∧ ∃ ws rest, q = ws ++ d :: rest ∧
      ∀ x ∈ ws, works x = true := by
    cases hfind : q.find? fun x => !works x with
    | none =>
      obtain ⟨d, hmem, hd⟩ := hdead
      simpa [hd] using List.find?_eq_none.1 hfind d hmem
    | some d =>
      obtain ⟨hd, ws, rest, rfl, hws⟩ := List.find?_eq_some_iff_append.1 hfind
      exact ⟨d, by simpa using hd, ws, rest, rfl, fun x hx => by simpa using hws x hx⟩
  refine exists_replaced_of_position rfl hws hd hfull (Nat.lt_of_lt_of_le ?_ hcount) hnew
  rw [List.length_append, List.length_cons]
  omega

end SecondChance
