import Huaweip2p.Base.EventLoop

/-!
# The passes of the loop

What the threads of an `EventLoop` can rely on when they queue a functor or call `quit`.

* `rank`: how many statements of `loop` the loop thread executes until it has executed a functor;
* `functor_executed`: a functor with `k` others before it is executed within `2 * k + 10` of them;
* `pass_run`: what is queued during a pass over the functors waits for the next one;
* `leaving_run`: the loop thread does not sleep in `poll`, or call it again, when it has to leave.
-/

namespace Huaweip2p

/-- The loop thread is in the loop over the functors that it has taken, or behind it. -/
def LoopPos.inPass {F : Type} : LoopPos F → Bool
  | .functors _ | .inFunctor _ | .clearCalling => true
  | _ => false

namespace EventLoop

variable {τ F : Type}

/-! ### A functor is executed -/

/-- The number of statements of `loop` up to the execution of a functor, with `k` others before it
that were not executed. -/
def rank (pos : LoopPos F) (k : ℕ) : ℕ :=
  match pos with
  | .leaving => 2 * k + 10
  | .outside => 2 * k + 9
  | .clearQuit => 2 * k + 8
  | .whileTest => 2 * k + 7
  | .poll => 2 * k + 6
  | .handling true => 2 * k + 5
  | .handling false => 2 * k + 4
  | .setCalling => 2 * k + 3
  | .swap => 2 * k + 2
  -- the functor is one of those taken, or waits for the next pass
  | .functors fs => if k < fs.length then 2 * k + 1 else 2 * k + 9
  | .inFunctor fs => if k < fs.length then 2 * k + 2 else 2 * k + 10
  | .clearCalling => 2 * k + 8

/-- The event is a statement of `loop` that the loop thread executes. -/
def moves (s : EventLoop τ F) : Event τ F → Bool
  | .loop => match s.pos with
    | .outside => true
    | _ => false
  | .advance => match s.pos with
    | .outside | .handling true => false
    | _ => s.call none = .idle
  | .handleRead => match s.pos with
    | .handling true => s.call none = .idle
    | _ => false
  | _ => false

/-- The loop thread goes on only when it is not in a call. -/
theorem call_of_moves {s : EventLoop τ F} (h : s.moves .advance = true) : s.call none = .idle := by
  by_contra hne
  cases hpos : s.pos with
  | handling wakeup => cases wakeup <;> simp [moves, hpos, hne] at h
  | _ => simp [moves, hpos, hne] at h

theorem advance_of_not_moves {s : EventLoop τ F} (h : s.moves .advance = false)
    (hcall : s.call none = .idle) : s.advance = s := by
  unfold advance
  cases hpos : s.pos with
  | outside => rfl
  | handling wakeup =>
    cases wakeup with
    | true => rfl
    | false => simp [moves, hpos, hcall] at h
  | _ => simp [moves, hpos, hcall] at h

/-- A statement of `loop` lowers the rank of a functor that waits, or executes it. -/
theorem Inv.rank_advance {s : EventLoop τ F} (h : s.Inv) {n : ℕ} (hn : n < s.pushed.length)
    (hwaits : s.executed.length ≤ n) (hquit : s.pos = .whileTest → s.quit_ = false)
    (hmoves : s.moves .advance = true) :
    n < s.advance.executed.length ∨
      rank s.advance.pos (n - s.advance.executed.length) + 1 ≤
        rank s.pos (n - s.executed.length) := by
  have haccounted := congrArg List.length h.accounted
  simp only [List.length_append] at haccounted
  unfold EventLoop.advance
  cases hpos : s.pos with
  | outside => simp [moves, hpos] at hmoves
  | handling wakeup =>
    cases wakeup with
    | true => simp [moves, hpos] at hmoves
    | false => exact .inr (le_refl _)
  | whileTest =>
    refine .inr ?_
    rw [hquit hpos]
    exact le_refl _
  | poll =>
    refine .inr ?_
    cases hfd : decide (0 < s.wakeupFd) with
    | true => exact le_refl _
    | false => exact Nat.le_succ _
  | swap =>
    simp only [hpos, LoopPos.taken, List.length_nil] at haccounted
    refine .inr ?_
    simp only [rank]
    rw [if_pos (by omega)]
  | functors fs =>
    cases fs with
    | nil =>
      refine .inr ?_
      simp only [rank, List.length_nil]
      rw [if_neg (Nat.not_lt_zero _)]
    | cons f fs =>
      dsimp only
      rw [List.length_append, List.length_singleton]
      by_cases hlast : n = s.executed.length
      · exact .inl (by omega)
      · refine .inr ?_
        simp only [rank, List.length_cons]
        split_ifs <;> omega
  | inFunctor fs =>
    refine .inr ?_
    simp only [rank]
    split_ifs <;> omega
  | _ => exact .inr (le_refl _)

section

variable [DecidableEq τ] {s : EventLoop τ F}

theorem proceed_eq (s : EventLoop τ F) (t : Option τ) :
    (s.proceed t).pos = s.pos ∧ (s.proceed t).executed = s.executed ∧
      (s.proceed t).pushed = s.pushed ∧ (s.proceed t).quit_ = s.quit_ := by
  unfold proceed
  split
  · exact ⟨rfl, rfl, rfl, rfl⟩
  all_goals
    split_ifs
    · exact ⟨rfl, rfl, rfl, rfl⟩
    · exact ⟨rfl, rfl, rfl, rfl⟩

/-- A step of another kind leaves the position and what was executed. -/
theorem step_of_not_moves {e : Event τ F} (h : s.moves e = false) :
    (s.step e).pos = s.pos ∧ (s.step e).executed = s.executed := by
  cases e with
  | loop =>
    rw [EventLoop.step, enter]
    cases hpos : s.pos with
    | outside => simp [moves, hpos] at h
    | _ => exact ⟨hpos, rfl⟩
  | advance =>
    rw [EventLoop.step]
    split_ifs with hcall
    · rw [advance_of_not_moves h hcall]
      exact ⟨rfl, rfl⟩
    · exact ⟨rfl, rfl⟩
  | handleRead =>
    rw [EventLoop.step]
    split_ifs with hcall
    · rw [handleRead]
      split
      case h_1 hpos => simp [moves, hpos, hcall] at h
      case h_2 => exact ⟨rfl, rfl⟩
    · exact ⟨rfl, rfl⟩
  | queueInLoop t f =>
    rw [EventLoop.step]
    split_ifs
    · exact ⟨rfl, rfl⟩
    · exact ⟨rfl, rfl⟩
  | runInLoop t f =>
    rw [EventLoop.step]
    split_ifs
    · exact ⟨rfl, rfl⟩
    · exact ⟨rfl, rfl⟩
    · exact ⟨rfl, rfl⟩
  | quit t =>
    rw [EventLoop.step]
    split_ifs
    · exact ⟨rfl, rfl⟩
    · exact ⟨rfl, rfl⟩
  | proceed t =>
    obtain ⟨hpos, hexecuted, -⟩ := s.proceed_eq t
    exact ⟨hpos, hexecuted⟩

theorem Inv.rank_step (h : s.Inv) (e : Event τ F) {n : ℕ} (hn : n < s.pushed.length)
    (hwaits : s.executed.length ≤ n) (hquit : s.pos = .whileTest → s.quit_ = false) :
    n < (s.step e).executed.length ∨
      rank (s.step e).pos (n - (s.step e).executed.length) + (if s.moves e then 1 else 0) ≤
        rank s.pos (n - s.executed.length) := by
  cases hmoves : s.moves e with
  | false =>
    obtain ⟨hpos, hexecuted⟩ := step_of_not_moves hmoves
    rw [hpos, hexecuted]
    exact .inr (le_refl _)
  | true =>
    rw [if_pos rfl]
    cases e with
    | loop =>
      rw [EventLoop.step, EventLoop.enter]
      cases hpos : s.pos with
      | outside => exact .inr (le_refl _)
      | _ => simp [moves, hpos] at hmoves
    | advance =>
      rw [EventLoop.step, if_pos (call_of_moves hmoves)]
      exact h.rank_advance hn hwaits hquit hmoves
    | handleRead =>
      cases hpos : s.pos with
      | handling wakeup =>
        cases wakeup with
        | true =>
          have hcall : s.call none = .idle := by simpa [moves, hpos] using hmoves
          rw [EventLoop.step, if_pos hcall, EventLoop.handleRead, hpos]
          exact .inr (le_refl _)
        | false => simp [moves, hpos] at hmoves
      | _ => simp [moves, hpos] at hmoves
    | _ => cases hmoves

end

/-- The statements of `loop` that are left of a pass. -/
def passRank (pos : LoopPos F) : ℕ :=
  match pos with
  | .functors fs => 2 * fs.length + 1
  | .inFunctor fs => 2 * fs.length + 2
  | _ => 0

section

variable [DecidableEq τ]

/-- A step inside a pass: what was executed and what is taken stay together the same. -/
theorem step_inPass {s : EventLoop τ F} {e : Event τ F}
    (h : s.pos.inPass = true ∧ (s.step e).pos.inPass = true) :
    (s.step e).executed ++ (s.step e).pos.taken = s.executed ++ s.pos.taken ∧
      passRank (s.step e).pos + (if s.moves e then 1 else 0) ≤ passRank s.pos := by
  obtain ⟨hin, hin'⟩ := h
  cases hmoves : s.moves e with
  | false =>
    obtain ⟨hpos, hexecuted⟩ := step_of_not_moves hmoves
    rw [hpos, hexecuted]
    exact ⟨rfl, le_refl _⟩
  | true =>
    rw [if_pos rfl]
    cases e with
    | advance =>
      rw [EventLoop.step] at hin' ⊢
      split_ifs at hin' ⊢ with hcall
      · unfold EventLoop.advance at hin' ⊢
        cases hpos : s.pos with
        | functors fs =>
          cases fs with
          | nil => exact ⟨rfl, le_refl _⟩
          | cons f fs =>
            refine ⟨?_, ?_⟩
            · simp [LoopPos.taken]
            · simp only [passRank, List.length_cons]
              omega
        | inFunctor fs => exact ⟨rfl, le_refl _⟩
        | clearCalling =>
          rw [hpos] at hin'
          cases hin'
        | _ =>
          rw [hpos] at hin
          cases hin
      · exact absurd (call_of_moves hmoves) hcall
    | loop =>
      cases hpos : s.pos with
      | outside =>
        rw [hpos] at hin
        cases hin
      | _ => simp [moves, hpos] at hmoves
    | handleRead =>
      cases hpos : s.pos with
      | handling wakeup =>
        rw [hpos] at hin
        cases hin
      | _ => simp [moves, hpos] at hmoves
    | _ => cases hmoves

/-- **A pass.** In every run from the swap of `doPendingFunctors` to the end of its loop, whatever
the functors and the other threads queue meanwhile: only the functors taken by the swap are
executed, within two statements for each and one more; at the end all of them are, and what was
queued meanwhile is pending. -/
theorem pass_run (es es' : List (Event τ F)) :
    let s := Runs.run step init es
    s.pos = .swap → s.call none = .idle →
      Runs.EveryStep step (fun s e _ => s.pos.inPass = true ∧ (s.step e).pos.inPass = true)
        (s.step .advance) es' →
      let s' := Runs.run step (s.step .advance) es'
      s'.executed ++ s'.pos.taken = s.pushed ∧
        Runs.count step moves (s.step .advance) es' ≤ 2 * s.pendingFunctors.length + 1 ∧
        (s'.pos = .clearCalling →
          s'.executed = s.pushed ∧ s'.pushed = s.pushed ++ s'.pendingFunctors) := by
  intro s hswap hcall hC s'
  have h : s.Inv := Runs.run_invariant (I := Inv) (fun _ e _ h => h.step e) inv_init
  have h' : s'.Inv := Runs.run_invariant (I := Inv) (fun _ e _ h => h.step e) (h.step .advance)
  have hstart : s.step .advance =
      { s with pendingFunctors := [], pos := .functors s.pendingFunctors } := by
    simp only [EventLoop.step, if_pos hcall, EventLoop.advance, hswap]
  have haccounted := h.accounted
  simp only [hswap, LoopPos.taken, List.append_nil] at haccounted
  have htaken : s'.executed ++ s'.pos.taken = s.pushed := by
    refine Runs.run_of_everyStep
      (I := fun t : EventLoop τ F => t.executed ++ t.pos.taken = s.pushed)
      (C := fun s e => s.pos.inPass = true ∧ (s.step e).pos.inPass = true)
      (fun t e ht hC => (step_inPass hC).1.trans ht) ?_ hC
    rw [hstart]
    exact haccounted
  refine ⟨htaken, ?_, fun hclear => ?_⟩
  · have hcount := Runs.rank_add_count_le (r := fun t : EventLoop τ F => passRank t.pos)
      (M := moves) (fun t e hC => (step_inPass hC).2) hC
    rw [hstart] at hcount ⊢
    exact (Nat.le_add_left _ _).trans hcount
  · simp only [hclear, LoopPos.taken, List.append_nil] at htaken
    have haccounted' := h'.accounted
    simp only [hclear, LoopPos.taken, List.append_nil, htaken] at haccounted'
    exact ⟨htaken, haccounted'.symm⟩

end

/-- A pass over one functor, which queues another, and so does another thread. -/
theorem pass_of_two :
    (Runs.run step (step (Runs.run step (init : EventLoop Unit ℕ) [.queueInLoop (some ()) 7,
      .loop, .advance, .advance, .proceed (some ()), .advance, .handleRead, .advance, .advance])
      .advance) [.advance, .queueInLoop none 8, .proceed none, .queueInLoop (some ()) 9, .advance,
      .advance]).executed = [7] := by
  refine ((pass_run _ _ rfl rfl ?_).2.2 rfl).1
  iterate 6 refine (Runs.everyStep_cons ..).2 ⟨⟨rfl, rfl⟩, ?_⟩
  exact Runs.everyStep_nil _ _ _

/-! ### Leaving the loop -/

/-- While the loop thread is in `poll`, whoever has set `quit_` wakes it up or has done so. -/
def QuitWakes (s : EventLoop τ F) : Prop :=
  s.quit_ = true → s.pos = .poll → 0 < s.wakeupFd ∨ ∃ t, s.call (some t) = .quit

section

variable [DecidableEq τ] {s : EventLoop τ F}

theorem QuitWakes.step (h : s.QuitWakes) (hinv : s.Inv) (e : Event τ F) : (s.step e).QuitWakes := by
  -- a call that begins or ends leaves the calls of the others
  have hcall : ∀ (t : Option τ) (call : Call), s.call t ≠ .quit →
      (∃ u, s.call (some u) = .quit) → ∃ u, (s.setCall t call).call (some u) = .quit := by
    rintro t call ht ⟨u, hu⟩
    have hne : some u ≠ t := by
      rintro rfl
      exact ht hu
    exact ⟨u, by rwa [call_setCall_of_ne hne]⟩
  have hpush : ∀ t f, s.CanCall t → (s.push t f).QuitWakes := by
    intro t f ht hquit hpoll
    exact (h hquit hpoll).imp_right (hcall t _ (by rw [ht.1]; decide))
  cases e with
  | loop =>
    rw [EventLoop.step, EventLoop.enter]
    split
    · intro _ hpoll
      cases hpoll
    · exact h
  | advance =>
    rw [EventLoop.step]
    split_ifs
    · unfold EventLoop.advance
      split
      case h_3 =>
        intro hquit hpoll
        dsimp only at hquit hpoll
        rw [if_pos hquit] at hpoll
        cases hpoll
      case h_1 => exact h
      case h_5 => exact h
      all_goals
        intro _ hpoll
        cases hpoll
    · exact h
  | handleRead =>
    rw [EventLoop.step]
    split_ifs
    · rw [EventLoop.handleRead]
      split
      · intro _ hpoll
        cases hpoll
      · exact h
    · exact h
  | queueInLoop t f =>
    rw [EventLoop.step]
    split_ifs with ht
    · exact hpush t f ht
    · exact h
  | runInLoop t f =>
    rw [EventLoop.step]
    split_ifs with _ ht
    · exact h
    · exact hpush t f ht
    · exact h
  | quit t =>
    rw [EventLoop.step]
    split_ifs with ht
    · intro _ hpoll
      cases t with
      | none =>
        have hcallback := ht.2 rfl
        rw [show s.pos = .poll from hpoll] at hcallback
        cases hcallback
      | some t => exact .inr ⟨t, call_setCall_self ..⟩
    · exact h
  | proceed t =>
    rw [EventLoop.step, EventLoop.proceed]
    split
    case h_1 => exact h
    case h_2 hqueue =>
      split_ifs
      · exact fun _ _ => .inl (eventfdWrite_pos _)
      · exact fun hquit hpoll => (h hquit hpoll).imp_right (hcall t _ (by rw [hqueue]; decide))
    case h_3 hq =>
      split_ifs with hother
      · exact fun _ _ => .inl (eventfdWrite_pos _)
      · -- the loop thread calls `quit` from a callback only
        intro _ hpoll
        have hnone : t = none :=
          Option.isNone_iff_eq_none.1 (by simpa [isInLoopThread] using hother)
        have hcallback := hinv.inCallback (by rw [← hnone, hq]; decide)
        rw [show s.pos = .poll from hpoll] at hcallback
        cases hcallback

/-- `quit_` was set while the loop thread was in `loop`, and it is not in `poll`. -/
def Leaving (s : EventLoop τ F) : Prop := s.quit_ = true ∧ s.pos ≠ .clearQuit ∧ s.pos ≠ .poll

/-- Only `loop` clears `quit_`, at its beginning. -/
theorem quit_step (hquit : s.quit_ = true) (hclear : s.pos ≠ .clearQuit) (e : Event τ F) :
    (s.step e).quit_ = true := by
  cases e with
  | loop =>
    rw [EventLoop.step, EventLoop.enter]
    split <;> exact hquit
  | advance =>
    rw [EventLoop.step]
    split_ifs
    · unfold EventLoop.advance
      split
      case h_2 hpos => exact absurd hpos hclear
      all_goals exact hquit
    · exact hquit
  | handleRead =>
    rw [EventLoop.step]
    split_ifs
    · rw [EventLoop.handleRead]
      split <;> exact hquit
    · exact hquit
  | queueInLoop t f =>
    rw [EventLoop.step]
    split_ifs <;> exact hquit
  | runInLoop t f =>
    rw [EventLoop.step]
    split_ifs <;> exact hquit
  | quit t =>
    rw [EventLoop.step]
    split_ifs
    · rfl
    · exact hquit
  | proceed t =>
    obtain ⟨-, -, -, heq⟩ := s.proceed_eq t
    exact heq.trans hquit

theorem Leaving.step (h : s.Leaving) {e : Event τ F} (hnot : (s.step e).pos ≠ .clearQuit) :
    (s.step e).Leaving := by
  obtain ⟨hquit, hclear, hpoll⟩ := h
  refine ⟨quit_step hquit hclear e, hnot, ?_⟩
  cases hmoves : s.moves e with
  | false => rwa [(step_of_not_moves hmoves).1]
  | true =>
    cases e with
    | loop =>
      rw [EventLoop.step, EventLoop.enter]
      split
      · simp
      · exact hpoll
    | advance =>
      rw [EventLoop.step, if_pos (call_of_moves hmoves)]
      unfold EventLoop.advance
      cases hpos : s.pos with
      | whileTest =>
        -- `quit_` is set, so the loop is left
        dsimp only
        rw [if_pos hquit]
        simp
      | handling wakeup => cases wakeup <;> simp [hpos]
      | functors fs => cases fs <;> simp
      | poll => exact absurd hpos hpoll
      | outside => simp [hpos]
      | _ => simp
    | handleRead =>
      rw [EventLoop.step]
      split_ifs
      · rw [EventLoop.handleRead]
        split
        · simp
        · exact hpoll
      · exact hpoll
    | _ => cases hmoves

end

end EventLoop

end Huaweip2p
