import Huaweip2p.Lib.Runs

/-!
# The event loop

`EventLoop::loop` statement by statement, with the threads that queue functors in it: any number of
other threads, and the loop thread itself out of its handlers and functors. The push into
`pendingFunctors_` and the swap are one step each; so are the write to and the read from the eventfd.

* `LoopPos`, `Call`: where the loop thread is in `loop`, and where a thread is in a call;
* `EventLoop.step`: the next statement of a thread;
* `Inv`: the functors executed, taken and pending are those pushed, and while the loop thread is on
  its way to `poll` or in it, somebody who has pushed wakes it up or has done so;
* `functors_run`: whole runs.
-/

namespace Huaweip2p

/-- The next statement of the loop thread in `loop`, and in the `doPendingFunctors` it calls.
`handling wakeup` is the loop over the active channels, where `wakeup` says that the handler of
`wakeupChannel_` is still to come; `functors fs` and `inFunctor fs` have the functors that are still
to be executed. -/
inductive LoopPos (F : Type)
  | outside
  | clearQuit
  | whileTest
  | poll
  | handling (wakeup : Bool)
  | setCalling
  | swap
  | functors (fs : List F)
  | inFunctor (fs : List F)
  | clearCalling
  | leaving

namespace LoopPos

variable {F : Type}

/-- The loop thread is in a handler or in a functor. -/
def inCallback : LoopPos F → Bool
  | .handling _ | .inFunctor _ => true
  | _ => false

/-- The functors taken by the swap that are still to be executed. -/
def taken : LoopPos F → List F
  | .functors fs | .inFunctor fs => fs
  | _ => []

/-- `poll` has returned, and the swap is still to come. -/
def beforeSwap : LoopPos F → Bool
  | .handling _ | .setCalling | .swap => true
  | _ => false

/-- The positions at which `callingPendingFunctors_` is set. -/
def calling : LoopPos F → Bool
  | .swap | .functors _ | .inFunctor _ | .clearCalling => true
  | _ => false

end LoopPos

/-- A thread in the middle of `queueInLoop` or `quit`: behind the first statement, before the test
that leads to `wakeup`. -/
inductive Call
  | idle
  | queueInLoop
  | quit
  deriving DecidableEq

/-- `class EventLoop` with its threads, and the functors pushed and executed so far. The thread
`none` is the loop thread, `wakeupFd` the counter of the eventfd. -/
structure EventLoop (τ F : Type) where
  quit_ : Bool
  callingPendingFunctors : Bool
  pendingFunctors : List F
  wakeupFd : ℕ
  pos : LoopPos F
  call : Option τ → Call
  pushed : List F
  executed : List F

namespace EventLoop

variable {τ F : Type}

def init : EventLoop τ F where
  quit_ := false
  callingPendingFunctors := false
  pendingFunctors := []
  wakeupFd := 0
  pos := .outside
  call _ := .idle
  pushed := []
  executed := []

/-- A write of 1 to an eventfd, which fails where the counter is at its greatest value. -/
def eventfdWrite (n : ℕ) : ℕ := if n < 2 ^ 64 - 2 then n + 1 else n

def isInLoopThread (t : Option τ) : Bool := t.isNone

inductive Event (τ F : Type)
  /-- The loop thread calls `loop`. -/
  | loop
  /-- The loop thread executes its next statement in `loop`. -/
  | advance
  /-- The handler of `wakeupChannel_`. -/
  | handleRead
  | queueInLoop (t : Option τ) (f : F)
  | runInLoop (t : Option τ) (f : F)
  | quit (t : Option τ)
  /-- A thread executes the rest of its call. -/
  | proceed (t : Option τ)

section

variable (s : EventLoop τ F)

/-- A thread can make a call: it is in no other, and the loop thread is in a callback. -/
def CanCall (t : Option τ) : Prop := s.call t = .idle ∧ (t.isNone → s.pos.inCallback = true)

instance (t : Option τ) : Decidable (s.CanCall t) :=
  inferInstanceAs (Decidable (_ ∧ _))

/-- The call of `loop`. -/
def enter : EventLoop τ F :=
  match s.pos with
  | .outside => { s with pos := .clearQuit }
  | _ => s

/-- The next statement of `loop`. `poll` reports `wakeupChannel_` when the eventfd is readable. -/
def advance : EventLoop τ F :=
  match s.pos with
  | .outside => s
  | .clearQuit => { s with quit_ := false, pos := .whileTest }
  | .whileTest => { s with pos := if s.quit_ then .leaving else .poll }
  | .poll => { s with pos := .handling (decide (0 < s.wakeupFd)) }
  | .handling true => s
  | .handling false => { s with pos := .setCalling }
  | .setCalling => { s with callingPendingFunctors := true, pos := .swap }
  | .swap => { s with pendingFunctors := [], pos := .functors s.pendingFunctors }
  | .functors [] => { s with pos := .clearCalling }
  | .functors (f :: fs) => { s with executed := s.executed ++ [f], pos := .inFunctor fs }
  | .inFunctor fs => { s with pos := .functors fs }
  | .clearCalling => { s with callingPendingFunctors := false, pos := .whileTest }
  | .leaving => { s with pos := .outside }

/-- The read empties the eventfd. -/
def handleRead : EventLoop τ F :=
  match s.pos with
  | .handling true => { s with wakeupFd := 0, pos := .handling false }
  | _ => s

def wakeup : EventLoop τ F := { s with wakeupFd := eventfdWrite s.wakeupFd }

/-- Somebody has pushed and is about to call `wakeup`, or the eventfd is readable. -/
def Waking : Prop := 0 < s.wakeupFd ∨ ∃ t, s.call t = .queueInLoop

/-- What holds of every reachable state. Before the swap a functor may wait without a wakeup; from
the swap on every push comes with one, and nobody reads the eventfd before `poll` returns. -/
structure Inv : Prop where
  accounted : s.executed ++ s.pos.taken ++ s.pendingFunctors = s.pushed
  calling : s.callingPendingFunctors = s.pos.calling
  inCallback : s.call none ≠ .idle → s.pos.inCallback = true
  waking : s.pos.beforeSwap = false → s.pendingFunctors ≠ [] → s.Waking

end

section

variable [DecidableEq τ] (s : EventLoop τ F)

def setCall (t : Option τ) (call : Call) : EventLoop τ F :=
  { s with call := Function.update s.call t call }

/-- The push in `queueInLoop`. -/
def push (t : Option τ) (f : F) : EventLoop τ F :=
  { s.setCall t .queueInLoop with
    pendingFunctors := s.pendingFunctors ++ [f]
    pushed := s.pushed ++ [f] }

/-- The rest of a call. -/
def proceed (t : Option τ) : EventLoop τ F :=
  match s.call t with
  | .idle => s
  | .queueInLoop =>
    if !isInLoopThread t || s.callingPendingFunctors then (s.setCall t .idle).wakeup
    else s.setCall t .idle
  | .quit => if !isInLoopThread t then (s.setCall t .idle).wakeup else s.setCall t .idle

/-- One step of a thread; a step that the thread cannot make changes nothing. -/
def step : Event τ F → EventLoop τ F
  | .loop => s.enter
  | .advance => if s.call none = .idle then s.advance else s
  | .handleRead => if s.call none = .idle then s.handleRead else s
  | .queueInLoop t f => if s.CanCall t then s.push t f else s
  -- in the loop thread the functor runs at once
  | .runInLoop t f => if isInLoopThread t then s else if s.CanCall t then s.push t f else s
  | .quit t => if s.CanCall t then { s with quit_ := true }.setCall t .quit else s
  | .proceed t => s.proceed t

end

/-! ### The invariant -/

variable {s : EventLoop τ F}

theorem inv_init : (init : EventLoop τ F).Inv where
  accounted := rfl
  calling := rfl
  inCallback h := absurd rfl h
  waking _ h := absurd rfl h

theorem eventfdWrite_pos (n : ℕ) : 0 < eventfdWrite n := by
  rw [eventfdWrite]
  split_ifs <;> omega

theorem Inv.enter (h : s.Inv) : s.enter.Inv := by
  unfold EventLoop.enter
  split
  case h_1 hpos =>
    have hcalling := h.calling
    have hwaking := h.waking
    have haccounted := h.accounted
    have hcall := h.inCallback
    rw [hpos] at hcalling hwaking haccounted hcall
    exact ⟨haccounted, hcalling, hcall, fun _ => hwaking rfl⟩
  case h_2 => exact h

/-- Between callbacks the loop thread goes on. -/
theorem Inv.advance (h : s.Inv) (hcall : s.call none = .idle) : s.advance.Inv := by
  have haccounted := h.accounted
  have hcalling := h.calling
  have hwaking := h.waking
  have hidle : ∀ pos : LoopPos F, s.call none ≠ .idle → pos.inCallback = true :=
    fun _ hne => absurd hcall hne
  unfold EventLoop.advance
  split
  case h_1 => exact h
  case h_2 hpos =>
    rw [hpos] at haccounted hcalling hwaking
    exact ⟨haccounted, hcalling, hidle _, hwaking⟩
  case h_3 hpos =>
    rw [hpos] at haccounted hcalling hwaking
    split_ifs
    · exact ⟨haccounted, hcalling, hidle _, hwaking⟩
    · exact ⟨haccounted, hcalling, hidle _, hwaking⟩
  case h_4 hpos =>
    rw [hpos] at haccounted hcalling
    exact ⟨haccounted, hcalling, hidle _, fun hbefore => by cases hbefore⟩
  case h_5 => exact h
  case h_6 hpos =>
    rw [hpos] at haccounted hcalling
    exact ⟨haccounted, hcalling, hidle _, fun hbefore => by cases hbefore⟩
  case h_7 hpos =>
    rw [hpos] at haccounted
    exact ⟨haccounted, rfl, hidle _, fun hbefore => by cases hbefore⟩
  case h_8 hpos =>
    -- the swap: what was pending is taken
    rw [hpos] at haccounted hcalling
    refine ⟨?_, hcalling, hidle _, fun _ hne => absurd rfl hne⟩
    simpa [LoopPos.taken] using haccounted
  case h_9 hpos =>
    rw [hpos] at haccounted hcalling hwaking
    exact ⟨haccounted, hcalling, hidle _, hwaking⟩
  case h_10 f fs hpos =>
    rw [hpos] at haccounted hcalling hwaking
    refine ⟨?_, hcalling, hidle _, hwaking⟩
    simpa [LoopPos.taken] using haccounted
  case h_11 fs hpos =>
    rw [hpos] at haccounted hcalling hwaking
    exact ⟨haccounted, hcalling, hidle _, hwaking⟩
  case h_12 hpos =>
    rw [hpos] at haccounted hwaking
    exact ⟨haccounted, rfl, hidle _, hwaking⟩
  case h_13 hpos =>
    rw [hpos] at haccounted hcalling hwaking
    exact ⟨haccounted, hcalling, hidle _, hwaking⟩

theorem Inv.handleRead (h : s.Inv) : s.handleRead.Inv := by
  unfold EventLoop.handleRead
  split
  case h_1 hpos =>
    have haccounted := h.accounted
    have hcalling := h.calling
    rw [hpos] at haccounted hcalling
    exact ⟨haccounted, hcalling, fun _ => rfl, fun hbefore => by cases hbefore⟩
  case h_2 => exact h

variable [DecidableEq τ]

theorem call_setCall_self (t : Option τ) (call : Call) : (s.setCall t call).call t = call :=
  Function.update_self ..

theorem call_setCall_of_ne {t t' : Option τ} (h : t' ≠ t) (call : Call) :
    (s.setCall t call).call t' = s.call t' := Function.update_of_ne h _ _

/-- A wakeup that is due stays due when some other call begins or ends. -/
theorem Waking.setCall (h : s.Waking) {t : Option τ} (ht : s.call t ≠ .queueInLoop) (call : Call) :
    (s.setCall t call).Waking := by
  rcases h with hfd | ⟨t', ht'⟩
  · exact .inl hfd
  · refine .inr ⟨t', ?_⟩
    have hne : t' ≠ t := by
      rintro rfl
      exact ht ht'
    rw [call_setCall_of_ne hne]
    exact ht'

/-- A call that begins is made from a callback, if the loop thread makes it. -/
theorem Inv.inCallback_setCall (h : s.Inv) {t : Option τ} (ht : s.CanCall t) (call : Call) :
    (s.setCall t call).call none ≠ .idle → s.pos.inCallback = true := by
  intro hne
  cases t with
  | none => exact ht.2 rfl
  | some t =>
    rw [call_setCall_of_ne (Option.some_ne_none t).symm] at hne
    exact h.inCallback hne

/-- Whoever has pushed is about to call `wakeup`. -/
theorem Inv.push (h : s.Inv) {t : Option τ} (ht : s.CanCall t) (f : F) : (s.push t f).Inv where
  accounted := by
    show s.executed ++ s.pos.taken ++ (s.pendingFunctors ++ [f]) = s.pushed ++ [f]
    rw [← List.append_assoc, h.accounted]
  calling := h.calling
  inCallback := h.inCallback_setCall ht _
  waking _ _ := .inr ⟨t, s.call_setCall_self t _⟩

theorem Inv.quit (h : s.Inv) {t : Option τ} (ht : s.CanCall t) :
    ({ s with quit_ := true }.setCall t .quit).Inv where
  accounted := h.accounted
  calling := h.calling
  inCallback := h.inCallback_setCall ht _
  waking hbefore hne := by
    have hidle : s.call t ≠ .queueInLoop := by
      rw [ht.1]
      decide
    exact (h.waking hbefore hne).setCall hidle _

/-- After a call of its own from a functor the loop thread has written to the eventfd, since
`callingPendingFunctors_` is set there. -/
theorem Inv.proceed (h : s.Inv) (t : Option τ) : (s.proceed t).Inv := by
  have hcall : (s.setCall t .idle).call none ≠ .idle → s.pos.inCallback = true := by
    intro hne
    refine h.inCallback fun hidle => hne ?_
    cases t with
    | none => exact call_setCall_self ..
    | some t => rwa [call_setCall_of_ne (Option.some_ne_none t).symm]
  have hwoken : ((s.setCall t .idle).wakeup).Inv :=
    ⟨h.accounted, h.calling, hcall, fun _ _ => .inl (eventfdWrite_pos _)⟩
  unfold EventLoop.proceed
  split
  case h_1 => exact h
  case h_2 hqueue =>
    split_ifs with htest
    · exact hwoken
    · -- the loop thread, outside `doPendingFunctors`: it is in a handler, before the swap
      obtain ⟨hloop, hnot⟩ : isInLoopThread t = true ∧ s.callingPendingFunctors = false := by
        simpa using htest
      obtain rfl : t = none := Option.isNone_iff_eq_none.1 hloop
      have hcallback := h.inCallback (by rw [hqueue]; decide)
      rw [h.calling] at hnot
      refine ⟨h.accounted, h.calling, hcall, fun hbefore => ?_⟩
      replace hbefore : s.pos.beforeSwap = false := hbefore
      cases hpos : s.pos with
      | handling w => simp [hpos, LoopPos.beforeSwap] at hbefore
      | inFunctor fs => simp [hpos, LoopPos.calling] at hnot
      | _ => simp [hpos, LoopPos.inCallback] at hcallback
  case h_3 hquit =>
    have hnot : s.call t ≠ .queueInLoop := by
      rw [hquit]
      decide
    split_ifs
    · exact hwoken
    · exact ⟨h.accounted, h.calling, hcall, fun hbefore hne => (h.waking hbefore hne).setCall hnot _⟩

theorem Inv.step (h : s.Inv) (e : Event τ F) : (s.step e).Inv := by
  cases e with
  | loop => exact h.enter
  | advance =>
    rw [EventLoop.step]
    split_ifs with hcall
    · exact h.advance hcall
    · exact h
  | handleRead =>
    rw [EventLoop.step]
    split_ifs
    · exact h.handleRead
    · exact h
  | queueInLoop t f =>
    rw [EventLoop.step]
    split_ifs with ht
    · exact h.push ht f
    · exact h
  | runInLoop t f =>
    rw [EventLoop.step]
    split_ifs with _ ht
    · exact h
    · exact h.push ht f
    · exact h
  | quit t =>
    rw [EventLoop.step]
    split_ifs with ht
    · exact h.quit ht
    · exact h
  | proceed t => exact h.proceed t

/-- **Queued functors.** In every run, the functors executed by `doPendingFunctors` are a prefix of
those pushed, in order and each once, and what was pushed and not executed is taken or pending;
and where functors are pending while the loop thread is in `poll`, the eventfd is readable, or
another thread that has pushed is about to call `wakeup`. -/
theorem functors_run (es : List (Event τ F)) :
    let s := Runs.run step init es
    s.executed <+: s.pushed ∧ s.executed ++ s.pos.taken ++ s.pendingFunctors = s.pushed ∧
      (s.pos = .poll → s.pendingFunctors ≠ [] →
        0 < s.wakeupFd ∨ ∃ t, s.call (some t) = .queueInLoop) := by
  have h : (Runs.run step init es).Inv :=
    Runs.run_invariant (I := Inv) (fun _ e _ h => h.step e) inv_init
  generalize Runs.run step init es = s at h
  refine ⟨?_, h.accounted, fun hpoll hne => ?_⟩
  · rw [← h.accounted, List.append_assoc]
    exact List.prefix_append _ _
  · rcases h.waking (by rw [hpoll]; rfl) hne with hfd | ⟨t, ht⟩
    · exact .inl hfd
    · cases t with
      | some t => exact .inr ⟨t, ht⟩
      | none =>
        have hcallback := h.inCallback (by rw [ht]; decide)
        rw [hpoll] at hcallback
        cases hcallback

end EventLoop

end Huaweip2p
