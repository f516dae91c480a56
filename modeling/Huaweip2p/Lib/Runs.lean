import Mathlib.Tactic

/-!
# Runs of a transition function

The run of a list of events under a transition function `step : σ → ε → σ`, and two rules about
it: an invariant of every step is an invariant of the run, and where a property `Q` of a step is,
under an invariant, equivalent to a condition `C` on the state before it and the event, `Q` holds
of a whole run exactly when `C` does.
-/

namespace Runs

variable {σ ε : Type*} (step : σ → ε → σ)

/-- The state after the events `es`. -/
def run (s : σ) (es : List ε) : σ := es.foldl step s

@[simp] theorem run_nil (s : σ) : run step s [] = s := rfl

@[simp] theorem run_cons (s : σ) (e : ε) (es : List ε) :
    run step s (e :: es) = run step (step s e) es := rfl

theorem run_append (s : σ) (es es' : List ε) :
    run step s (es ++ es') = run step (run step s es) es' := List.foldl_append

/-- Every step of the run satisfies `Q`: state before, event, state after. -/
def EveryStep (Q : σ → ε → σ → Prop) (s : σ) (es : List ε) : Prop :=
  ∀ pre e post, es = pre ++ e :: post → Q (run step s pre) e (step (run step s pre) e)

theorem everyStep_nil (Q : σ → ε → σ → Prop) (s : σ) : EveryStep step Q s [] := by
  intro pre e post h
  simp at h

theorem everyStep_cons (Q : σ → ε → σ → Prop) (s : σ) (e : ε) (es : List ε) :
    EveryStep step Q s (e :: es) ↔ Q s e (step s e) ∧ EveryStep step Q (step s e) es := by
  constructor
  · intro h
    exact ⟨h [] e es rfl, fun pre e' post hes => h (e :: pre) e' post (by simp [hes])⟩
  · rintro ⟨h, hs⟩ pre e' post hes
    cases pre with
    | nil =>
      obtain ⟨rfl, rfl⟩ := List.cons.inj hes
      exact h
    | cons p pre =>
      obtain ⟨rfl, rfl⟩ := List.cons.inj hes
      exact hs pre e' post rfl

variable {step}

/-- An invariant of the initial state that the events of a run keep holds after the run. -/
theorem run_invariant {I : σ → Prop} {es : List ε} (hI : ∀ s, ∀ e ∈ es, I s → I (step s e)) {s : σ}
    (hs : I s) : I (run step s es) := by
  induction es generalizing s with
  | nil => exact hs
  | cons e es ih =>
    exact ih (fun s e he => hI s e (List.mem_cons_of_mem _ he)) (hI s e List.mem_cons_self hs)

/-- What the steps keep that meet a condition holds after a run whose steps all meet it. -/
theorem run_of_everyStep {I : σ → Prop} {C : σ → ε → Prop}
    (hI : ∀ s e, I s → C s e → I (step s e)) {s : σ} (hs : I s) {es : List ε}
    (hC : EveryStep step (fun s e _ => C s e) s es) : I (run step s es) := by
  induction es generalizing s with
  | nil => exact hs
  | cons e es ih =>
    rw [everyStep_cons] at hC
    exact ih (hI s e hs hC.1) hC.2

/-- Where the steps that meet a condition keep an invariant and satisfy `Q`, every step of a run
satisfies `Q` when all its steps meet the condition. -/
theorem EveryStep.of_invariant {I : σ → Prop} {C : σ → ε → Prop} {Q : σ → ε → σ → Prop}
    (h : ∀ s e, I s → C s e → I (step s e) ∧ Q s e (step s e)) {s : σ} (hs : I s) {es : List ε}
    (hC : EveryStep step (fun s e _ => C s e) s es) : EveryStep step Q s es := by
  induction es generalizing s with
  | nil => exact everyStep_nil step Q s
  | cons e es ih =>
    rw [everyStep_cons] at hC ⊢
    obtain ⟨hI, hQ⟩ := h s e hs hC.1
    exact ⟨hQ, ih hI hC.2⟩

/-- Where the steps that meet a condition do to the view `abs` of the state what the steps of
another function do, a run whose steps all meet it does so too. -/
theorem run_simulates {τ : Type*} {step' : τ → ε → τ} (abs : σ → τ) {I : σ → Prop}
    {C : σ → ε → Prop}
    (h : ∀ s e, I s → C s e → I (step s e) ∧ abs (step s e) = step' (abs s) e) {s : σ} (hs : I s)
    {es : List ε} (hC : EveryStep step (fun s e _ => C s e) s es) :
    abs (run step s es) = run step' (abs s) es := by
  induction es generalizing s with
  | nil => rfl
  | cons e es ih =>
    rw [everyStep_cons] at hC
    obtain ⟨hI, habs⟩ := h s e hs hC.1
    rw [run_cons, run_cons, ih hI hC.2, habs]

/-- Where each step does to the view `abs` of the state what some steps of another function do, or
none, so does a run. -/
theorem run_refines {τ ε' : Type*} {step' : τ → ε' → τ} (abs : σ → τ) {I : σ → Prop}
    (h : ∀ s e, I s → I (step s e) ∧ ∃ es', abs (step s e) = run step' (abs s) es') {s : σ}
    (hs : I s) (es : List ε) : ∃ es', abs (run step s es) = run step' (abs s) es' := by
  induction es generalizing s with
  | nil => exact ⟨[], rfl⟩
  | cons e es ih =>
    obtain ⟨hI, pre, hpre⟩ := h s e hs
    obtain ⟨post, hpost⟩ := ih hI
    exact ⟨pre ++ post, by rw [run_cons, hpost, hpre, run_append]⟩

/-! ### Progress -/

/-- The number of steps of a run that are of the kind `M`. -/
def count (step : σ → ε → σ) (M : σ → ε → Bool) : σ → List ε → ℕ
  | _, [] => 0
  | s, e :: es => (if M s e then 1 else 0) + count step M (step s e) es

/-- The steps of a kind that the event alone decides. -/
theorem count_eq_countP (M : ε → Bool) (s : σ) (es : List ε) :
    count step (fun _ e => M e) s es = es.countP M := by
  induction es generalizing s with
  | nil => rfl
  | cons e es ih => rw [count, ih, List.countP_cons, Nat.add_comm]

/-- Where a step of the kind `M` lowers the rank, but any step may raise it by its cost `c`, there
are no more steps of the kind than the rank and the costs say. -/
theorem rank_add_count_le_add {I : σ → Prop} {C : σ → ε → Prop} {r : σ → ℕ} {M : σ → ε → Bool}
    {c : ε → ℕ} (hI : ∀ s e, I s → C s e → I (step s e))
    (hrank : ∀ s e, I s → C s e → r (step s e) + (if M s e then 1 else 0) ≤ r s + c e) {s : σ}
    (hs : I s) {es : List ε} (hC : EveryStep step (fun s e _ => C s e) s es) :
    r (run step s es) + count step M s es ≤ r s + (es.map c).sum := by
  induction es generalizing s with
  | nil => exact le_refl _
  | cons e es ih =>
    rw [everyStep_cons] at hC
    have hstep := hrank s e hs hC.1
    have hrest := ih (hI s e hs hC.1) hC.2
    rw [run_cons, count, List.map_cons, List.sum_cons]
    omega

/-- Where every step of a run lowers the rank if it is of the kind `M`, and does not raise it
otherwise, there are no more of the kind than the rank says. -/
theorem rank_add_count_le {C : σ → ε → Prop} {r : σ → ℕ} {M : σ → ε → Bool}
    (hrank : ∀ s e, C s e → r (step s e) + (if M s e then 1 else 0) ≤ r s) {s : σ} {es : List ε}
    (hC : EveryStep step (fun s e _ => C s e) s es) :
    r (run step s es) + count step M s es ≤ r s := by
  have h := rank_add_count_le_add (I := fun _ => True) (r := r) (M := M) (c := fun _ => 0)
    (fun _ _ _ _ => trivial) (fun s e _ hC => hrank s e hC) trivial hC
  simpa using h

/-- Where, under an invariant and until the goal is reached, a step of the kind `M` lowers the rank
of the state and no other step raises it, the goal is reached after as many steps of the kind as the
rank says. -/
theorem goal_of_rank {I G : σ → Prop} {C : σ → ε → Prop} {r : σ → ℕ} {M : σ → ε → Bool}
    (hI : ∀ s e, I s → C s e → I (step s e)) (hG : ∀ s e, I s → C s e → G s → G (step s e))
    (hpos : ∀ s, I s → ¬ G s → 0 < r s)
    (hrank : ∀ s e, I s → C s e → ¬ G s →
      G (step s e) ∨ r (step s e) + (if M s e then 1 else 0) ≤ r s)
    {s : σ} (hs : I s) {es : List ε} (hC : EveryStep step (fun s e _ => C s e) s es)
    (hcount : r s ≤ count step M s es) : G (run step s es) := by
  induction es generalizing s with
  | nil =>
    by_contra hnot
    have hlt := hpos s hs hnot
    rw [count] at hcount
    omega
  | cons e es ih =>
    rw [everyStep_cons] at hC
    rw [count] at hcount
    have hgoal : G (step s e) → G (run step (step s e) es) := fun h =>
      (run_of_everyStep (I := fun s => I s ∧ G s)
        (fun s e h hC => ⟨hI s e h.1 hC, hG s e h.1 hC h.2⟩) ⟨hI s e hs hC.1, h⟩ hC.2).2
    by_cases hnot : G s
    · exact hgoal (hG s e hs hC.1 hnot)
    · rcases hrank s e hs hC.1 hnot with h | h
      · exact hgoal h
      · exact ih (hI s e hs hC.1) hC.2 (by omega)

/-! ### Steps that may fail -/

theorem guard_bind {α : Type} {P : Prop} [Decidable P] (h : P) (f : Unit → Option α) :
    (guard P >>= f) = f () := by
  rw [guard, if_pos h]
  rfl

theorem guard_bind_none {α : Type} {P : Prop} [Decidable P] (h : ¬ P) (f : Unit → Option α) :
    (guard P >>= f) = none := by
  rw [guard, if_neg h]
  rfl

/-- A list of steps that may fail: where each of them, from a state of an invariant, succeeds and
keeps it, all of them succeed. -/
theorem foldlM_invariant_of_mem {f : σ → ε → Option σ} {I : σ → Prop} {es : List ε}
    (hf : ∀ s, ∀ e ∈ es, I s → ∃ s', f s e = some s' ∧ I s') {s : σ} (hs : I s) :
    ∃ s', es.foldlM f s = some s' ∧ I s' := by
  induction es generalizing s with
  | nil => exact ⟨s, rfl, hs⟩
  | cons e es ih =>
    obtain ⟨s₁, hs₁, h₁⟩ := hf s e List.mem_cons_self hs
    obtain ⟨s', hs', h'⟩ := ih (fun s e he => hf s e (List.mem_cons_of_mem _ he)) h₁
    exact ⟨s', by rw [List.foldlM_cons, hs₁]; exact hs', h'⟩

theorem foldlM_invariant {f : σ → ε → Option σ} {I : σ → Prop}
    (hf : ∀ s e, I s → ∃ s', f s e = some s' ∧ I s') {s : σ} (hs : I s) (es : List ε) :
    ∃ s', es.foldlM f s = some s' ∧ I s' :=
  foldlM_invariant_of_mem (fun s e _ => hf s e) hs

/-- Where the steps that succeed keep an invariant, all of them together keep it when they do. -/
theorem foldlM_of_some {f : σ → ε → Option σ} {I : σ → Prop}
    (hf : ∀ s e s', f s e = some s' → I s → I s') {es : List ε} {s s' : σ}
    (h : es.foldlM f s = some s') (hs : I s) : I s' := by
  induction es generalizing s with
  | nil => exact Option.some.inj h ▸ hs
  | cons e es ih =>
    rw [List.foldlM_cons] at h
    obtain ⟨s₁, hs₁, hrest⟩ := Option.bind_eq_some_iff.1 h
    exact ih hrest (hf s e s₁ hs₁ hs)

/-- What one of the steps brings about, under an invariant, and the others keep holds in the end. -/
theorem foldlM_of_mem {f : σ → ε → Option σ} {I P : σ → Prop}
    (hI : ∀ s e s', f s e = some s' → I s → I s') (hP : ∀ s e s', f s e = some s' → P s → P s')
    {e : ε} (he : ∀ s s', f s e = some s' → I s → P s') {es : List ε} (hmem : e ∈ es) {s s' : σ}
    (h : es.foldlM f s = some s') (hs : I s) : P s' := by
  induction es generalizing s with
  | nil => cases hmem
  | cons e' es ih =>
    rw [List.foldlM_cons] at h
    obtain ⟨s₁, hs₁, hrest⟩ := Option.bind_eq_some_iff.1 h
    rcases List.mem_cons.1 hmem with rfl | hmem
    · exact foldlM_of_some hP hrest (he s s₁ hs₁ hs)
    · exact ih hmem hrest (hI s e' s₁ hs₁ hs)

/-- Where each step succeeds and does what some steps of another function do to a related state, or
none, so does a run. -/
theorem foldlM_refines {τ ε' : Type*} {f : σ → ε → Option σ} {step' : τ → ε' → τ}
    {R : σ → τ → Prop}
    (h : ∀ s t e, R s t → ∃ s' es', f s e = some s' ∧ R s' (run step' t es')) {s : σ} {t : τ}
    (hR : R s t) (es : List ε) : ∃ s' es', es.foldlM f s = some s' ∧ R s' (run step' t es') := by
  induction es generalizing s t with
  | nil => exact ⟨s, [], rfl, hR⟩
  | cons e es ih =>
    obtain ⟨s₁, pre, hs₁, h₁⟩ := h s t e hR
    obtain ⟨s', post, hs', h'⟩ := ih h₁
    refine ⟨s', pre ++ post, by rw [List.foldlM_cons, hs₁]; exact hs', ?_⟩
    rwa [run_append]

/-- Updates of different places, each of which succeeds where it starts from. -/
theorem foldlM_update {κ α : Type*} [DecidableEq κ] {f : κ → α → Option α} {s s' : κ → α}
    {ks : List κ} (hks : ks.Nodup) (h : ∀ k ∈ ks, f k (s k) = some (s' k))
    (hrest : ∀ k, k ∉ ks → s' k = s k) :
    ks.foldlM (fun s k => (f k (s k)).map (Function.update s k)) s = some s' := by
  induction ks generalizing s with
  | nil =>
    have heq : s' = s := funext fun k => hrest k List.not_mem_nil
    rw [heq]
    rfl
  | cons k ks ih =>
    obtain ⟨hk, hks⟩ := List.nodup_cons.1 hks
    rw [List.foldlM_cons, h k List.mem_cons_self]
    refine ih hks (fun k' hk' => ?_) fun k' hk' => ?_
    · have hne : k' ≠ k := fun heq => hk (heq ▸ hk')
      rw [Function.update_of_ne hne]
      exact h k' (List.mem_cons_of_mem _ hk')
    · by_cases hkk : k' = k
      · subst hkk
        rw [Function.update_self]
      · rw [Function.update_of_ne hkk]
        exact hrest k' fun hmem => (List.mem_cons.1 hmem).elim hkk hk'

/-- Steps that may fail, of related results: they fail together, and their results are related. -/
theorem rel_bind {α β γ δ : Type*} {R : α → β → Prop} {P : γ → δ → Prop} {f : α → Option γ}
    {g : β → Option δ} (hf : ∀ a b, R a b → Option.Rel P (f a) (g b)) {o : Option α} {o' : Option β}
    (h : Option.Rel R o o') : Option.Rel P (o.bind f) (o'.bind g) := by
  cases h with
  | none => exact .none
  | some h => exact hf _ _ h

/-- The same where both begin with one result. -/
theorem rel_bind_of_eq {α γ δ : Type*} {P : γ → δ → Prop} {f : α → Option γ} {g : α → Option δ}
    (hf : ∀ a, Option.Rel P (f a) (g a)) (o : Option α) : Option.Rel P (o.bind f) (o.bind g) := by
  cases o with
  | none => exact .none
  | some a => exact hf a

/-- A step that fails when the other does and goes on with its result. -/
theorem rel_bind_some {α γ : Type*} {P : γ → α → Prop} {f : α → γ} (hf : ∀ a, P (f a) a)
    (o : Option α) : Option.Rel P (o.bind fun a => some (f a)) o := by
  cases o with
  | none => exact .none
  | some a => exact .some (hf a)

theorem rel_getD {α β : Type*} {R : α → β → Prop} {o : Option α} {o' : Option β}
    (h : Option.Rel R o o') {a : α} {b : β} (hab : R a b) : R (o.getD a) (o'.getD b) := by
  cases h with
  | none => exact hab
  | some h => exact h

theorem rel_foldlM {α β : Type*} {R : α → β → Prop} {f : α → ε → Option α} {g : β → ε → Option β}
    (hf : ∀ a b, R a b → ∀ e, Option.Rel R (f a e) (g b e)) {a : α} {b : β} (h : R a b)
    (es : List ε) : Option.Rel R (es.foldlM f a) (es.foldlM g b) := by
  induction es generalizing a b with
  | nil => exact .some h
  | cons e es ih =>
    rw [List.foldlM_cons, List.foldlM_cons]
    exact rel_bind (fun a b h => ih h) (hf a b h e)

/-- Where `Q` is equivalent to `C` on the states of an invariant that a step with `Q` keeps, every
step of a run satisfies `Q` exactly when every step satisfies `C`. -/
theorem everyStep_iff {I : σ → Prop} {Q : σ → ε → σ → Prop} {C : σ → ε → Prop}
    (hQ : ∀ s e, I s → (Q s e (step s e) ↔ C s e))
    (hI : ∀ s e, I s → Q s e (step s e) → I (step s e)) {s : σ} (hs : I s) (es : List ε) :
    EveryStep step Q s es ↔ EveryStep step (fun s e _ => C s e) s es := by
  induction es generalizing s with
  | nil => simp only [everyStep_nil]
  | cons e es ih =>
    rw [everyStep_cons, everyStep_cons, ← hQ s e hs]
    exact and_congr_right fun h => ih (hI s e hs h)

/-- The same for steps that may fail, and then change nothing: where a step succeeds with `Q` under
`C` and keeps the invariant, and fails without `Q` otherwise. -/
theorem everyStep_getD_iff {step? : σ → ε → Option σ} {I : σ → Prop} {Q : σ → ε → σ → Prop}
    {C : σ → ε → Prop}
    (h : ∀ s e, I s → (∃ s', step? s e = some s' ∧ I s' ∧ Q s e s' ∧ C s e) ∨
      (step? s e = none ∧ ¬ Q s e s ∧ ¬ C s e)) {s : σ} (hs : I s) (es : List ε) :
    EveryStep (fun s e => (step? s e).getD s) Q s es ↔
      EveryStep (fun s e => (step? s e).getD s) (fun s e _ => C s e) s es := by
  apply everyStep_iff (I := I)
  · intro s e hI
    rcases h s e hI with ⟨s', hs', -, hQ, hC⟩ | ⟨hnone, hQ, hC⟩
    · rw [hs', Option.getD_some]
      exact iff_of_true hQ hC
    · rw [hnone, Option.getD_none]
      exact iff_of_false hQ hC
  · intro s e hI hQ
    rcases h s e hI with ⟨s', hs', hI', -⟩ | ⟨hnone, hnot, -⟩
    · rwa [hs', Option.getD_some]
    · rw [hnone, Option.getD_none] at hQ
      exact absurd hQ hnot
  · exact hs

end Runs
