import Mathlib.Tactic

/-!
# Ledgers of resources

Resources are numbered as they are created; each is closed or handed over in the end, and at most
one is held. `Balanced held` counts: every resource created is held, closed or handed over, exactly
one of these and once.
-/

/-- How many resources were created, and which of them were closed and handed over, in order. -/
structure Ledger where
  created : ℕ
  closed : List ℕ
  handed : List ℕ
  deriving DecidableEq, Repr

namespace Ledger

def empty : Ledger := ⟨0, [], []⟩

variable (l : Ledger)

def create : Ledger := { l with created := l.created + 1 }

def close (r : ℕ) : Ledger := { l with closed := l.closed ++ [r] }

def hand (r : ℕ) : Ledger := { l with handed := l.handed ++ [r] }

/-- Each resource created is held, closed or handed over, once; no other is. -/
def Balanced (held : Option ℕ) : Prop :=
  ∀ r, (if held = some r then 1 else 0) + l.closed.count r + l.handed.count r =
    if r < l.created then 1 else 0

variable {l} {r : ℕ}

theorem balanced_empty : empty.Balanced none := by
  intro r
  simp [empty]

theorem Balanced.create (h : l.Balanced none) : l.create.Balanced (some l.created) := by
  intro s
  have hs := h s
  rcases Nat.lt_trichotomy s l.created with hlt | rfl | hgt
  · have hne : l.created ≠ s := by omega
    simpa [Ledger.create, hlt, hne, Nat.lt_succ_of_lt hlt] using hs
  · simp at hs
    simp [Ledger.create, hs]
  · have hne : l.created ≠ s := by omega
    simpa [Ledger.create, hne, not_lt.2 hgt.le, not_lt.2 (Nat.succ_le_of_lt hgt)] using hs

theorem Balanced.close (h : l.Balanced (some r)) : (l.close r).Balanced none := by
  intro s
  have hs := h s
  show 0 + (l.closed ++ [r]).count s + l.handed.count s = if s < l.created then 1 else 0
  rw [← hs, List.count_append, List.count_singleton]
  rcases eq_or_ne r s with rfl | hne
  · simp only [beq_self_eq_true, if_true]
    omega
  · simp [hne]

/-- It does not matter for the balance which way resources go. -/
theorem balanced_swap {held : Option ℕ} :
    Balanced ⟨l.created, l.handed, l.closed⟩ held ↔ l.Balanced held := by
  refine forall_congr' fun s => ?_
  dsimp only
  rw [Nat.add_right_comm]

theorem Balanced.hand (h : l.Balanced (some r)) : (l.hand r).Balanced none :=
  balanced_swap.1 (balanced_swap.2 h).close

/-- A resource that is closed at once changes nothing for the others. -/
theorem Balanced.create_close {held : Option ℕ} (h : l.Balanced held) :
    (l.create.close l.created).Balanced held := by
  intro s
  have hs := h s
  show _ + (l.closed ++ [l.created]).count s + l.handed.count s = if s < l.created + 1 then 1 else 0
  rw [List.count_append, List.count_singleton]
  rcases eq_or_ne l.created s with rfl | hne
  · rw [if_neg (Nat.lt_irrefl _)] at hs
    rw [if_pos (Nat.lt_succ_self _)]
    simp only [beq_self_eq_true, if_true]
    omega
  · have hlt : s < l.created + 1 ↔ s < l.created := by omega
    simpa [hne, hlt] using hs

/-- What is neither held nor closed nor handed over is lost. -/
theorem Balanced.eq (h : l.Balanced (some r)) {held : Option ℕ} (h' : l.Balanced held) :
    held = some r := by
  have hr := h r
  have hr' := h' r
  by_contra hne
  rw [if_pos rfl] at hr
  rw [if_neg hne] at hr'
  omega

/-- Each resource created was closed, once; no other was. -/
def AllClosed (l : Ledger) : Prop := ∀ r, l.closed.count r = if r < l.created then 1 else 0

/-- Some resource was not closed. -/
def Leaked (l : Ledger) : Prop := ∃ r < l.created, r ∉ l.closed

theorem allClosed_empty : empty.AllClosed := fun _ => rfl

/-- All were closed when the ledger balances without what was handed over. -/
theorem allClosed_iff_balanced : l.AllClosed ↔ Balanced { l with handed := [] } none := by
  simp [AllClosed, Balanced]

theorem AllClosed.create_close (h : l.AllClosed) : (l.create.close l.created).AllClosed :=
  allClosed_iff_balanced.2 (allClosed_iff_balanced.1 h).create_close

theorem AllClosed.leaked_create (h : l.AllClosed) : l.create.Leaked := by
  refine ⟨l.created, Nat.lt_succ_self _, fun hmem => ?_⟩
  have hcount := List.count_pos_iff.2 hmem
  have hs := h l.created
  rw [if_neg (Nat.lt_irrefl _)] at hs
  exact absurd hs hcount.ne'

theorem Leaked.create (h : l.Leaked) : l.create.Leaked := by
  obtain ⟨r, hr, hnot⟩ := h
  exact ⟨r, Nat.lt_succ_of_lt hr, hnot⟩

theorem Leaked.create_close (h : l.Leaked) : (l.create.close l.created).Leaked := by
  obtain ⟨r, hr, hnot⟩ := h
  refine ⟨r, Nat.lt_succ_of_lt hr, fun hmem => ?_⟩
  rcases List.mem_append.1 hmem with hmem | hmem
  · exact hnot hmem
  · exact hr.ne (List.mem_singleton.1 hmem)

theorem Leaked.not_allClosed (h : l.Leaked) : ¬ l.AllClosed := by
  obtain ⟨r, hr, hnot⟩ := h
  intro hclosed
  have hs := hclosed r
  rw [if_pos hr, List.count_eq_zero_of_not_mem hnot] at hs
  cases hs

/-- As many were closed as were created. -/
theorem AllClosed.length_closed (h : l.AllClosed) : l.closed.length = l.created := by
  have hperm : l.closed.Perm (List.range l.created) := by
    refine List.perm_iff_count.2 fun r => ?_
    rw [h r, List.nodup_range.count]
    simp only [List.mem_range]
  rw [hperm.length_eq, List.length_range]

end Ledger
