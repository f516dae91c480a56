import Mathlib.Tactic

/-!
# Work queues

Several queues of work items, each worked off from its front. `Holds pending owed` says that every
item of the set `owed` waits in its queue, once, and that nothing else waits: an item owed may be
queued, and what is taken from a queue was owed there and is not owed any more.
-/

namespace WorkQueues

variable {L F : Type*} {pending : L → List F} {owed : Set (L × F)} {l : L} {f : F}

/-- What waits in the queues is what is owed, each item once. -/
structure Holds (pending : L → List F) (owed : Set (L × F)) : Prop where
  nodup : ∀ l, (pending l).Nodup
  mem_iff : ∀ l f, f ∈ pending l ↔ (l, f) ∈ owed

theorem holds_empty : Holds (fun _ : L => ([] : List F)) ∅ where
  nodup _ := .nil
  mem_iff l f := by simp

/-- The front of a queue was owed there. -/
theorem Holds.front_mem (h : Holds pending owed) {fs : List F} (hl : pending l = f :: fs) :
    (l, f) ∈ owed := by
  rw [← h.mem_iff, hl]
  exact List.mem_cons_self

variable [DecidableEq L]

/-- The queues with `f` at the end of the queue `l`. -/
def enqueue (pending : L → List F) (l : L) (f : F) : L → List F :=
  Function.update pending l (pending l ++ [f])

theorem Holds.enqueue (h : Holds pending owed) (hnew : (l, f) ∉ owed) :
    Holds (enqueue pending l f) (insert (l, f) owed) where
  nodup m := by
    unfold WorkQueues.enqueue
    rcases eq_or_ne m l with rfl | hne
    · rw [Function.update_self, List.nodup_append]
      refine ⟨h.nodup m, List.nodup_singleton f, fun g hg g' hg' => ?_⟩
      rw [List.mem_singleton] at hg'
      rintro rfl
      exact hnew ((h.mem_iff m f).1 (hg' ▸ hg))
    · rw [Function.update_of_ne hne]
      exact h.nodup m
  mem_iff m g := by
    unfold WorkQueues.enqueue
    rcases eq_or_ne m l with rfl | hne
    · rw [Function.update_self, List.mem_append, List.mem_singleton, h.mem_iff, Set.mem_insert_iff,
        Prod.mk.injEq, or_comm]
      simp
    · rw [Function.update_of_ne hne, h.mem_iff, Set.mem_insert_iff, Prod.mk.injEq]
      simp [hne]

/-- Without its front, the queues hold what else was owed. -/
theorem Holds.dequeue (h : Holds pending owed) {fs : List F} (hl : pending l = f :: fs) :
    Holds (Function.update pending l fs) (owed \ {(l, f)}) where
  nodup m := by
    rcases eq_or_ne m l with rfl | hne
    · rw [Function.update_self]
      have hnodup := h.nodup m
      rw [hl] at hnodup
      exact (List.nodup_cons.1 hnodup).2
    · rw [Function.update_of_ne hne]
      exact h.nodup m
  mem_iff m g := by
    rw [Set.mem_sdiff, Set.mem_singleton_iff, Prod.mk.injEq, ← h.mem_iff]
    rcases eq_or_ne m l with rfl | hne
    · have hnodup := h.nodup m
      rw [hl] at hnodup ⊢
      rw [Function.update_self, List.mem_cons]
      constructor
      · intro hg
        refine ⟨.inr hg, fun hgf => ?_⟩
        rw [hgf.2] at hg
        exact (List.nodup_cons.1 hnodup).1 hg
      · rintro ⟨rfl | hg, hne⟩
        · exact absurd ⟨rfl, rfl⟩ hne
        · exact hg
    · rw [Function.update_of_ne hne]
      simp [hne]

end WorkQueues
