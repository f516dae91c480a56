import Mathlib.Tactic

/-!
# Computations that log their checks

A `Traced ε α` is a computation that may stop without a result and that leaves a log of the events
`ε` it went through, the last of them included. A property of every event, such as "this read is
in bounds", is then a property of the log: `Traced.All`.
-/

universe u v

/-- A log of events and, unless the computation stopped, a result. -/
structure Traced (ε : Type u) (α : Type v) where
  log : List ε
  val : Option α

namespace Traced

variable {ε : Type u} {α β : Type v}

instance : Monad (Traced ε) where
  pure a := ⟨[], some a⟩
  bind m f := match m.val with
    | none => ⟨m.log, none⟩
    | some a => ⟨m.log ++ (f a).log, (f a).val⟩

/-- One event, and then either a value or the end of the computation. -/
def emit (e : ε) (v : Option α) : Traced ε α := ⟨[e], v⟩

@[simp] theorem log_pure (a : α) : (pure a : Traced ε α).log = [] := rfl
@[simp] theorem val_pure (a : α) : (pure a : Traced ε α).val = some a := rfl
@[simp] theorem log_emit (e : ε) (v : Option α) : (emit e v).log = [e] := rfl
@[simp] theorem val_emit (e : ε) (v : Option α) : (emit e v).val = v := rfl

section Bind

variable (m : Traced ε α) (f : α → Traced ε β)

@[simp] theorem val_bind : (m >>= f).val = m.val.bind fun a => (f a).val := by
  obtain ⟨log, val⟩ := m
  cases val <;> rfl

theorem log_bind_of_some {a : α} (h : m.val = some a) : (m >>= f).log = m.log ++ (f a).log := by
  obtain ⟨log, val⟩ := m
  subst h
  rfl

theorem log_bind_of_none (h : m.val = none) : (m >>= f).log = m.log := by
  obtain ⟨log, val⟩ := m
  subst h
  rfl

end Bind

/-- Every event of the log satisfies `P`. -/
def All (P : ε → Prop) (m : Traced ε α) : Prop := ∀ e ∈ m.log, P e

variable {P : ε → Prop}

instance [DecidablePred P] (m : Traced ε α) : Decidable (m.All P) :=
  inferInstanceAs (Decidable (∀ e ∈ m.log, P e))

@[simp] theorem all_pure (a : α) : All P (pure a : Traced ε α) := by
  simp [All]

@[simp] theorem all_emit (e : ε) (v : Option α) : All P (emit e v) ↔ P e := by
  simp [All]

/-- The events of a sequence are those of its first part and, if that has a result, those of the
second part on it. -/
theorem all_bind (m : Traced ε α) (f : α → Traced ε β) :
    All P (m >>= f) ↔ All P m ∧ ∀ a, m.val = some a → All P (f a) := by
  cases h : m.val with
  | none => simp [All, log_bind_of_none m f h]
  | some a => simp [All, log_bind_of_some m f h, or_imp, forall_and]

end Traced
