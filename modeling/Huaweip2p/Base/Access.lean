import Huaweip2p.Base.Bytes
import Huaweip2p.Lib.Traced

/-!
# Checked reads

The handlers read a message by index and by `substr`, and the catalogue by dereferencing what
`find` returns. Each such step is an `Access` in the log of the computation. A read at `size()`
yields the terminating zero; a read beyond it, the dereference of `end()`, and a `substr` that
starts beyond the end (which throws `std::out_of_range`) stop the computation.
-/

namespace Huaweip2p

/-- A step that has a precondition. -/
inductive Access
  /-- `s[i]` on a string of the given size. -/
  | index (i size : ℕ)
  /-- `s.substr(pos, n)` on a string of the given size. -/
  | substr (pos size : ℕ)
  /-- The dereference of the iterator returned by a `find` that did or did not find the key. -/
  | find (found : Bool)
  deriving DecidableEq, Repr

/-- The access reads inside the message: an index is less than the size, the start of a substring
at most the size. -/
def Access.InBounds : Access → Prop
  | .index i size => i < size
  | .substr pos size => pos ≤ size
  | .find _ => True

/-- The access does not dereference `end()`. -/
def Access.Found : Access → Prop
  | .find found => found = true
  | _ => True

instance : DecidablePred Access.InBounds
  | .index i size => inferInstanceAs (Decidable (i < size))
  | .substr pos size => inferInstanceAs (Decidable (pos ≤ size))
  | .find _ => inferInstanceAs (Decidable True)

instance : DecidablePred Access.Found
  | .index _ _ => inferInstanceAs (Decidable True)
  | .substr _ _ => inferInstanceAs (Decidable True)
  | .find found => inferInstanceAs (Decidable (found = true))

/-- `s[i]`. -/
def charAt (s : Str) (i : ℕ) : Traced Access UInt8 :=
  .emit (.index i s.length) (if i < s.length then s[i]? else if i = s.length then some 0 else none)

/-- `s.substr(pos, n)`. -/
def substr (s : Str) (pos n : ℕ) : Traced Access Str :=
  .emit (.substr pos s.length) (if pos ≤ s.length then some ((s.drop pos).take n) else none)

theorem val_charAt {s : Str} {i : ℕ} (h : i < s.length) : (charAt s i).val = some s[i] := by
  simp [charAt, h]

theorem val_substr {s : Str} {pos n : ℕ} (h : pos ≤ s.length) :
    (substr s pos n).val = some ((s.drop pos).take n) := by
  simp [substr, h]

section Bind

variable {β : Type} (s : Str)

theorem val_charAt_bind {s : Str} {i : ℕ} (h : i < s.length) (f : UInt8 → Traced Access β) :
    (charAt s i >>= f).val = (f s[i]).val := by
  rw [Traced.val_bind, val_charAt h, Option.bind_some]

theorem val_substr_bind {s : Str} {pos n : ℕ} (h : pos ≤ s.length) (f : Str → Traced Access β) :
    (substr s pos n >>= f).val = (f ((s.drop pos).take n)).val := by
  rw [Traced.val_bind, val_substr h, Option.bind_some]

/-- A read stays inside the string when its index does; what follows is then run on the byte. -/
theorem inBounds_charAt_bind_iff (i : ℕ) (f : UInt8 → Traced Access β) :
    (charAt s i >>= f).All Access.InBounds ↔ ∃ h : i < s.length, (f s[i]).All Access.InBounds := by
  rw [Traced.all_bind, charAt, Traced.all_emit, ← charAt]
  constructor
  · rintro ⟨h, hf⟩
    exact ⟨h, hf _ (val_charAt h)⟩
  · rintro ⟨h, hf⟩
    refine ⟨h, fun c hc => ?_⟩
    rw [val_charAt h, Option.some.injEq] at hc
    exact hc ▸ hf

/-- A substring stays inside the string when its start does. -/
theorem inBounds_substr_bind_iff (pos n : ℕ) (f : Str → Traced Access β) :
    (substr s pos n >>= f).All Access.InBounds ↔
      pos ≤ s.length ∧ (f ((s.drop pos).take n)).All Access.InBounds := by
  rw [Traced.all_bind, substr, Traced.all_emit, ← substr]
  refine and_congr_right fun h => ?_
  simp only [val_substr h, Option.some.injEq, forall_eq']

end Bind

end Huaweip2p
