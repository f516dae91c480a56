import Huaweip2p.Base.EventLoop

/-!
# A loop in a thread of its own

`EventLoopThread`: the owner starts a thread, waits in `startLoop` until it has published its
`EventLoop`, and later asks it to quit and joins it; the thread publishes the loop before it calls
`loop`, whose first statement resets `quit_`. Every statement is one step, and other threads use the
loop meanwhile.

* `EventLoopThread.step`: the next statement of the owner, of the thread, or of somebody else;
* `QuitLost`: a quit request that the loop does not see;
* `quit_run`: in which runs no quit request is lost, and that in no other it need not be.
-/

namespace Huaweip2p

/-- The next statement of the owner: in `startLoop` the start of the thread and the wait for
`loop_`, then the destructor with the two parts of `quit` and the `join`. -/
inductive OwnerPos
  | start
  | waiting
  | started
  | quitting
  | joining
  | joined
  deriving DecidableEq

/-- The next statement of `threadFunc`. -/
inductive ThreadPos
  | notStarted
  | constructing
  | callback
  | publishing
  | calling
  | looping
  | finished
  deriving DecidableEq

/-- `class EventLoopThread`, where `published` is whether `loop_` is set. Of the threads of its loop
the owner is `some none`. -/
structure EventLoopThread (τ F : Type) where
  owner : OwnerPos
  thread : ThreadPos
  published : Bool
  loop : EventLoop (Option τ) F

namespace EventLoopThread

variable {τ F : Type}

def init : EventLoopThread τ F := ⟨.start, .notStarted, false, .init⟩

/-- What handlers, functors and other threads do with the loop. -/
inductive Use (τ F : Type)
  | handleRead
  | queueInLoop (t : Option τ) (f : F)
  | runInLoop (t : Option τ) (f : F)
  | quit (t : Option τ)
  | proceed (t : Option τ)

def Use.event : Use τ F → EventLoop.Event (Option τ) F
  | .handleRead => .handleRead
  | .queueInLoop t f => .queueInLoop (t.map some) f
  | .runInLoop t f => .runInLoop (t.map some) f
  | .quit t => .quit (t.map some)
  | .proceed t => .proceed (t.map some)

inductive Event (τ F : Type)
  | owner
  | thread
  | use (u : Use τ F)

section

variable [DecidableEq τ] (s : EventLoopThread τ F)

/-- The next statement of the owner; it waits for `loop_` and for the end of the thread. -/
def ownerStep : EventLoopThread τ F :=
  match s.owner with
  | .start => { s with owner := .waiting, thread := .constructing }
  | .waiting => if s.published then { s with owner := .started } else s
  | .started => { s with owner := .quitting, loop := s.loop.step (.quit (some none)) }
  | .quitting => { s with owner := .joining, loop := s.loop.step (.proceed (some none)) }
  | .joining => if s.thread = .finished then { s with owner := .joined } else s
  | .joined => s

/-- The thread inside `loop`. -/
def loopStep : EventLoopThread τ F :=
  match s.loop.pos with
  | .outside => { s with thread := .finished }
  | _ => { s with loop := s.loop.step .advance }

/-- The next statement of the thread. -/
def threadStep : EventLoopThread τ F :=
  match s.thread with
  | .notStarted => s
  | .constructing => { s with thread := .callback }
  | .callback => { s with thread := .publishing }
  | .publishing => { s with thread := .calling, published := true }
  | .calling => { s with thread := .looping, loop := s.loop.step .loop }
  | .looping => s.loopStep
  | .finished => s

def step : Event τ F → EventLoopThread τ F
  | .owner => s.ownerStep
  | .thread => s.threadStep
  | .use u => if s.published then { s with loop := s.loop.step u.event } else s

end

variable (s : EventLoopThread τ F)

/-- The thread has left the `while` loop. -/
def LeftWhile : Prop :=
  s.thread = .finished ∨ s.thread = .looping ∧ (s.loop.pos = .leaving ∨ s.loop.pos = .outside)

/-- `quit` has returned in the owner, and the thread has still to run or is running its `while` loop
with `quit_` false. -/
def QuitLost : Prop :=
  (s.owner = .joining ∨ s.owner = .joined) ∧ ¬ s.LeftWhile ∧ s.loop.quit_ = false

/-- The thread has executed the first statement of `loop`, which resets `quit_`. -/
def PastReset : Prop :=
  s.thread = .finished ∨ s.thread = .looping ∧ s.loop.pos ≠ .clearQuit

/-- The owner calls `quit` only when the thread is past the reset. -/
def Safe : Event τ F → Prop
  | .owner => s.owner = .started → s.PastReset
  | _ => True

/-! ### What a step of the loop leaves alone -/

section Loop

variable [DecidableEq τ] {l : EventLoop τ F}

theorem call_advance (l : EventLoop τ F) : (l.step .advance).call = l.call := by
  rw [EventLoop.step]
  split_ifs
  · unfold EventLoop.advance
    split <;> rfl
  · rfl

/-- Only the first statement of `loop` resets `quit_`, and nothing leads back to it. -/
theorem advance_of_ne_clearQuit (h : l.pos ≠ .clearQuit) :
    (l.step .advance).quit_ = l.quit_ ∧ (l.step .advance).pos ≠ .clearQuit := by
  rw [EventLoop.step]
  split_ifs
  · unfold EventLoop.advance
    split
    case h_2 hpos => exact absurd hpos h
    case h_3 => exact ⟨rfl, by split_ifs <;> simp⟩
    all_goals exact ⟨rfl, by simp [*]⟩
  · exact ⟨rfl, h⟩

/-- The end of a call moves no thread in `loop` and does not reset `quit_`. -/
theorem pos_proceed (t : Option τ) :
    (l.proceed t).pos = l.pos ∧ (l.proceed t).quit_ = l.quit_ := by
  unfold EventLoop.proceed
  split
  · exact ⟨rfl, rfl⟩
  · split_ifs <;> exact ⟨rfl, rfl⟩
  · split_ifs <;> exact ⟨rfl, rfl⟩

theorem call_proceed_of_ne {t t' : Option τ} (h : t' ≠ t) : (l.proceed t).call t' = l.call t' := by
  have hset : (l.setCall t .idle).call t' = l.call t' := EventLoop.call_setCall_of_ne h _
  unfold EventLoop.proceed
  split
  · rfl
  · split_ifs <;> exact hset
  · split_ifs <;> exact hset

end Loop

/-- What others do to the loop: the loop thread may get on in its handlers, `quit_` may be set, and
the owner is not in their calls. -/
structure Used (l l' : EventLoop (Option τ) F) : Prop where
  pos : l'.pos = l.pos ∨ l.pos = .handling true ∧ l'.pos = .handling false
  quit_ : l.quit_ = true → l'.quit_ = true
  call : l'.call (some none) = l.call (some none)

theorem Used.refl (l : EventLoop (Option τ) F) : Used l l := ⟨.inl rfl, id, rfl⟩

variable [DecidableEq τ]

theorem used_step (l : EventLoop (Option τ) F) (u : Use τ F) : Used l (l.step u.event) := by
  have hne : ∀ t : Option τ, some none ≠ t.map some := by
    intro t
    cases t <;> simp
  have hpush : ∀ t f, Used l (l.push (Option.map some t) f) := fun t f =>
    ⟨.inl rfl, id, EventLoop.call_setCall_of_ne (hne t) _⟩
  cases u with
  | handleRead =>
    rw [Use.event, EventLoop.step]
    split_ifs
    · unfold EventLoop.handleRead
      split
      case h_1 hpos => exact ⟨.inr ⟨hpos, rfl⟩, id, rfl⟩
      case h_2 => exact .refl l
    · exact .refl l
  | queueInLoop t f =>
    rw [Use.event, EventLoop.step]
    split_ifs
    · exact hpush t f
    · exact .refl l
  | runInLoop t f =>
    rw [Use.event, EventLoop.step]
    split_ifs
    · exact .refl l
    · exact hpush t f
    · exact .refl l
  | quit t =>
    rw [Use.event, EventLoop.step]
    split_ifs
    · exact ⟨.inl rfl, fun _ => rfl, EventLoop.call_setCall_of_ne (hne t) _⟩
    · exact .refl l
  | proceed t =>
    obtain ⟨hpos, hquit⟩ := pos_proceed (l := l) (t.map some)
    exact ⟨.inl hpos, fun h => hquit.trans h, call_proceed_of_ne (hne t)⟩

/-! ### All runs -/

/-- The thread has published its loop. -/
def Published (s : EventLoopThread τ F) : Prop :=
  s.thread = .calling ∨ s.thread = .looping ∨ s.thread = .finished

/-- What holds of every reachable state: the owner goes on after the loop is published, nobody is in
`loop` before it is called, and the owner is in no call before it calls `quit`. -/
structure Inv (s : EventLoopThread τ F) : Prop where
  loop : s.loop.Inv
  published : s.published = true → s.Published
  owner : s.owner ≠ .start → s.owner ≠ .waiting → s.Published
  start : s.owner = .start → s.thread = .notStarted
  outside : s.thread ≠ .looping → s.thread ≠ .finished → s.loop.pos = .outside
  idle : s.owner = .start ∨ s.owner = .waiting ∨ s.owner = .started →
    s.loop.call (some none) = .idle

variable {s : EventLoopThread τ F}

omit [DecidableEq τ] in
theorem inv_init : (init : EventLoopThread τ F).Inv where
  loop := EventLoop.inv_init
  published h := by cases h
  owner h := absurd rfl h
  start _ := rfl
  outside _ _ := rfl
  idle _ := rfl

theorem Inv.ownerStep (h : s.Inv) : s.ownerStep.Inv := by
  unfold EventLoopThread.ownerStep
  split
  case h_1 howner =>
    have hnot := h.start howner
    refine
      { loop := h.loop
        published := fun hp => ?_
        owner := fun _ hne => absurd rfl hne
        start := fun hstart => by cases hstart
        outside := fun _ _ => h.outside (by simp [hnot]) (by simp [hnot])
        idle := fun _ => h.idle (.inl howner) }
    have hpublished := h.published hp
    simp [Published, hnot] at hpublished
  case h_2 howner =>
    split_ifs with hp
    · exact
        { h with
          owner := fun _ _ => h.published hp
          start := fun hstart => by cases hstart
          idle := fun _ => h.idle (.inr (.inl howner)) }
    · exact h
  case h_3 howner =>
    have hpublished : s.Published := h.owner (by simp [howner]) (by simp [howner])
    refine
      { loop := h.loop.step (.quit (some none))
        published := h.published
        owner := fun _ _ => hpublished
        start := fun hstart => by cases hstart
        outside := fun h₁ h₂ => ?_
        idle := fun hidle => by simp at hidle }
    have houtside := h.outside h₁ h₂
    show EventLoop.pos (ite _ _ _) = _
    split_ifs <;> exact houtside
  case h_4 howner =>
    have hpublished : s.Published := h.owner (by simp [howner]) (by simp [howner])
    refine
      { loop := h.loop.step (.proceed (some none))
        published := h.published
        owner := fun _ _ => hpublished
        start := fun hstart => by cases hstart
        outside := fun h₁ h₂ => ?_
        idle := fun hidle => by simp at hidle }
    exact (pos_proceed _).1.trans (h.outside h₁ h₂)
  case h_5 howner =>
    have hpublished : s.Published := h.owner (by simp [howner]) (by simp [howner])
    split_ifs
    · exact
        { h with
          owner := fun _ _ => hpublished
          start := fun hstart => by cases hstart
          idle := fun hidle => by simp at hidle }
    · exact h
  case h_6 => exact h

/-- The thread goes on inside `loop`, or leaves it. -/
theorem Inv.loopStep (h : s.Inv) (hthread : s.thread = .looping) : s.loopStep.Inv := by
  have hstart : s.owner ≠ .start := by
    intro howner
    have hnot := h.start howner
    rw [hthread] at hnot
    cases hnot
  unfold EventLoopThread.loopStep
  split
  · exact
      { h with
        published := fun _ => .inr (.inr rfl)
        owner := fun _ _ => .inr (.inr rfl)
        start := fun howner => absurd howner hstart
        outside := fun _ hne => absurd rfl hne }
  · exact
      { loop := h.loop.step .advance
        published := h.published
        owner := h.owner
        start := h.start
        outside := fun hne => absurd hthread hne
        idle := fun hidle => by
          show (s.loop.step .advance).call _ = _
          rw [call_advance]
          exact h.idle hidle }

theorem Inv.threadStep (h : s.Inv) : s.threadStep.Inv := by
  have hstart : s.thread ≠ .notStarted → s.owner ≠ .start := fun hne howner => hne (h.start howner)
  -- the thread gets on before it is in `loop`
  have hbefore : s.thread ≠ .notStarted → ∀ thread, thread ≠ .looping → thread ≠ .finished →
      ∀ published, (s.Published ∨ published = true → thread = .calling) → s.loop.pos = .outside →
      Inv { s with thread := thread, published := published } := by
    intro hne thread hlooping hfinished published hcalling houtside
    exact
      { loop := h.loop
        published := fun hp => .inl (hcalling (.inr hp))
        owner := fun h₁ h₂ => .inl (hcalling (.inl (h.owner h₁ h₂)))
        start := fun howner => absurd howner (hstart hne)
        outside := fun _ _ => houtside
        idle := h.idle }
  have hnot : ∀ thread, thread ≠ .calling → thread ≠ .looping → thread ≠ .finished →
      s.thread = thread → ¬ (s.Published ∨ s.published = true) := by
    intro thread h₁ h₂ h₃ hthread hp
    have hpublished : s.Published := hp.elim id h.published
    rw [Published, hthread] at hpublished
    tauto
  unfold EventLoopThread.threadStep
  split
  case h_1 => exact h
  case h_2 hthread =>
    exact hbefore (by simp [hthread]) _ (by simp) (by simp) _
      (fun hp => absurd hp (hnot _ (by simp) (by simp) (by simp) hthread))
      (h.outside (by simp [hthread]) (by simp [hthread]))
  case h_3 hthread =>
    exact hbefore (by simp [hthread]) _ (by simp) (by simp) _
      (fun hp => absurd hp (hnot _ (by simp) (by simp) (by simp) hthread))
      (h.outside (by simp [hthread]) (by simp [hthread]))
  case h_4 hthread =>
    exact hbefore (by simp [hthread]) _ (by simp) (by simp) _ (fun _ => rfl)
      (h.outside (by simp [hthread]) (by simp [hthread]))
  case h_5 hthread =>
    exact
      { loop := h.loop.step .loop
        published := fun _ => .inr (.inl rfl)
        owner := fun _ _ => .inr (.inl rfl)
        start := fun howner => absurd howner (hstart (by simp [hthread]))
        outside := fun hne => absurd rfl hne
        idle := fun hidle => by
          have hcall := h.idle hidle
          show (EventLoop.enter _).call _ = _
          unfold EventLoop.enter
          split <;> exact hcall }
  case h_6 hthread => exact h.loopStep hthread
  case h_7 => exact h

theorem Inv.step (h : s.Inv) (e : Event τ F) : (s.step e).Inv := by
  cases e with
  | owner => exact h.ownerStep
  | thread => exact h.threadStep
  | use u =>
    have hused := used_step s.loop u
    rw [EventLoopThread.step]
    split_ifs
    · refine
        { h with
          loop := h.loop.step _
          outside := fun h₁ h₂ => ?_
          idle := fun hidle => hused.call.trans (h.idle hidle) }
      rcases hused.pos with hpos | ⟨hpos, -⟩
      · exact hpos.trans (h.outside h₁ h₂)
      · have houtside := h.outside h₁ h₂
        rw [hpos] at houtside
        cases houtside
    · exact h

/-! ### Runs in which the owner waits -/

/-- A quit request was made, and the loop has seen it or will see it. -/
def Asked (s : EventLoopThread τ F) : Prop :=
  s.owner = .quitting ∨ s.owner = .joining ∨ s.owner = .joined → s.PastReset ∧ s.loop.quit_ = true

theorem PastReset.threadStep (h : s.PastReset) :
    s.threadStep.PastReset ∧ s.threadStep.owner = s.owner ∧
      s.threadStep.loop.quit_ = s.loop.quit_ := by
  rcases h with hfinished | ⟨hlooping, hpos⟩
  · simp [EventLoopThread.threadStep, hfinished, PastReset]
  · have hthread : s.threadStep = s.loopStep := by
      rw [EventLoopThread.threadStep, hlooping]
    rw [hthread]
    unfold EventLoopThread.loopStep
    split
    · exact ⟨.inl rfl, rfl, rfl⟩
    · obtain ⟨hquit, hne⟩ := advance_of_ne_clearQuit hpos
      exact ⟨.inr ⟨hlooping, hne⟩, rfl, hquit⟩

theorem step_quit (h : s.loop.call (some none) = .idle) :
    s.loop.step (.quit (some none)) =
      { s.loop with quit_ := true }.setCall (some none) .quit :=
  if_pos ⟨h, by simp⟩

/-- The step that the condition is about is the call of `quit`. -/
theorem Asked.step (h : s.Asked) (hinv : s.Inv) {e : Event τ F} (he : s.Safe e) :
    (s.step e).Asked := by
  intro hasked
  cases e with
  | owner =>
    have hproceed := pos_proceed (l := s.loop) (some none)
    rw [EventLoopThread.step] at hasked ⊢
    unfold EventLoopThread.ownerStep at hasked ⊢
    cases howner : s.owner with
    | start => simp [howner] at hasked
    | waiting =>
      cases hp : s.published <;> simp [howner, hp] at hasked
    | started =>
      rw [step_quit (hinv.idle (.inr (.inr howner)))]
      exact ⟨he howner, rfl⟩
    | quitting =>
      obtain ⟨hpast, hquit⟩ := h (.inl howner)
      refine ⟨hpast.imp_right fun ⟨hlooping, hpos⟩ => ⟨hlooping, ?_⟩, hproceed.2.trans hquit⟩
      exact fun hclear => hpos (hproceed.1.symm.trans hclear)
    | joining =>
      dsimp only
      split_ifs
      · exact h (.inr (.inl howner))
      · exact h (.inr (.inl howner))
    | joined => exact h (.inr (.inr howner))
  | thread =>
    have howner : s.threadStep.owner = s.owner := by
      unfold EventLoopThread.threadStep EventLoopThread.loopStep
      split <;> try rfl
      split <;> rfl
    rw [EventLoopThread.step, howner] at hasked
    obtain ⟨hpast, hquit⟩ := h hasked
    obtain ⟨hpast', -, hquit'⟩ := hpast.threadStep
    exact ⟨hpast', hquit'.trans hquit⟩
  | use u =>
    have hused := used_step s.loop u
    rw [EventLoopThread.step] at hasked ⊢
    split_ifs at hasked ⊢
    · obtain ⟨hpast, hquit⟩ := h hasked
      refine ⟨hpast.imp_right fun ⟨hlooping, hpos⟩ => ⟨hlooping, ?_⟩, hused.quit_ hquit⟩
      rcases hused.pos with heq | ⟨-, heq⟩
      · exact fun hclear => hpos (heq.symm.trans hclear)
      · intro hclear
        cases heq.symm.trans hclear
    · exact h hasked

/-! ### Runs in which it does not -/

/-- The first statement of `loop` forgets the request. -/
theorem quitLost_of_clearQuit (howner : s.owner = .joining) (hthread : s.thread = .looping)
    (hpos : s.loop.pos = .clearQuit) (hcall : s.loop.call none = .idle) :
    (s.step .thread).QuitLost := by
  have hloop : s.loop.step .advance = { s.loop with quit_ := false, pos := .whileTest } := by
    rw [EventLoop.step, if_pos hcall, EventLoop.advance, hpos]
  have hstep : s.step .thread = { s with loop := s.loop.step .advance } := by
    simp only [EventLoopThread.step, EventLoopThread.threadStep, hthread, EventLoopThread.loopStep,
      hpos]
  rw [hstep, hloop]
  exact ⟨.inl howner, by simp [LeftWhile, hthread], rfl⟩

/-- A quit request that comes before the reset may be lost. -/
theorem Inv.exists_quitLost (h : s.Inv) {e : Event τ F} (he : ¬ s.Safe e) :
    ∃ es, (Runs.run EventLoopThread.step s (e :: es)).QuitLost := by
  cases e with
  | use u => exact absurd trivial he
  | thread => exact absurd trivial he
  | owner =>
    obtain ⟨howner, hpast⟩ : s.owner = .started ∧ ¬ s.PastReset := by
      simpa [Safe] using he
    -- the owner returns from `quit`
    have hquit : Runs.run EventLoopThread.step s [.owner, .owner] =
        { s with
          owner := .joining
          loop := (s.loop.step (.quit (some none))).step (.proceed (some none)) } := by
      simp only [Runs.run_cons, Runs.run_nil, EventLoopThread.step, EventLoopThread.ownerStep,
        howner]
    set s₁ := Runs.run EventLoopThread.step s [.owner, .owner]
    have hinv₁ : s₁.Inv := Runs.run_invariant (I := Inv) (fun _ e _ h => h.step e) h
    have hpos₁ : s₁.loop.pos = s.loop.pos := by
      rw [hquit, step_quit (h.idle (.inr (.inr howner)))]
      exact (pos_proceed _).1
    have howner₁ : s₁.owner = .joining := by rw [hquit]
    have hthread₁ : s₁.thread = s.thread := by rw [hquit]
    have hcall : ∀ l : EventLoop (Option τ) F, l.Inv → l.pos = .clearQuit → l.call none = .idle := by
      intro l hl hpos
      by_contra hne
      have hcallback := hl.inCallback hne
      rw [hpos] at hcallback
      cases hcallback
    rcases h.owner (by simp [howner]) (by simp [howner]) with hthread | hthread | hthread
    · -- the thread has still to call `loop`
      refine ⟨[.owner, .thread, .thread], ?_⟩
      have hpos : s₁.loop.pos = .outside := hpos₁.trans (h.outside (by simp [hthread])
        (by simp [hthread]))
      have hs₂ : s₁.step .thread = { s₁ with
          thread := .looping, loop := { s₁.loop with pos := .clearQuit } } := by
        simp only [EventLoopThread.step, EventLoopThread.threadStep, hthread₁.trans hthread,
          EventLoop.step, EventLoop.enter, hpos]
      have hinv₂ := hinv₁.step .thread
      show ((s₁.step .thread).step .thread).QuitLost
      rw [hs₂] at hinv₂ ⊢
      exact quitLost_of_clearQuit howner₁ rfl rfl (hcall _ hinv₂.loop rfl)
    · -- the thread is in front of the reset
      have hpos : s.loop.pos = .clearQuit := by
        by_contra hne
        exact hpast (.inr ⟨hthread, hne⟩)
      refine ⟨[.owner, .thread], ?_⟩
      show (s₁.step .thread).QuitLost
      exact quitLost_of_clearQuit howner₁ (hthread₁.trans hthread) (hpos₁.trans hpos)
        (hcall _ hinv₁.loop (hpos₁.trans hpos))
    · exact absurd (.inl hthread) hpast

/-- **Quit requests.** In every run in which the owner calls `quit` only when the thread is past the
reset, no quit request is lost; and wherever it does otherwise, the run can go on to a state in
which the request is lost. -/
theorem quit_run :
    (∀ es : List (Event τ F), Runs.EveryStep EventLoopThread.step (fun s e _ => s.Safe e) init es →
      ¬ (Runs.run EventLoopThread.step init es).QuitLost) ∧
    ∀ (es : List (Event τ F)) (e : Event τ F), ¬ (Runs.run EventLoopThread.step init es).Safe e →
      ∃ es', (Runs.run EventLoopThread.step init (es ++ e :: es')).QuitLost := by
  constructor
  · intro es hsafe hlost
    obtain ⟨-, hasked⟩ : (Runs.run EventLoopThread.step init es).Inv ∧
        (Runs.run EventLoopThread.step init es).Asked :=
      Runs.run_of_everyStep (I := fun s : EventLoopThread τ F => s.Inv ∧ s.Asked)
        (fun _ e h he => ⟨h.1.step e, h.2.step h.1 he⟩) ⟨inv_init, by simp [Asked, init]⟩ hsafe
    obtain ⟨howner, -, hquit⟩ := hlost
    rw [(hasked (.inr howner)).2] at hquit
    cases hquit
  · intro es e he
    have hinv : (Runs.run EventLoopThread.step init es).Inv :=
      Runs.run_invariant (I := Inv) (fun _ e _ h => h.step e) inv_init
    obtain ⟨es', hlost⟩ := hinv.exists_quitLost he
    exact ⟨es', by rwa [Runs.run_append]⟩

/-- The owner calls `quit` between the publication of the loop and the call of `loop`. -/
theorem quit_lost : (Runs.run EventLoopThread.step (init : EventLoopThread Unit Unit)
    [.owner, .thread, .thread, .thread, .owner, .owner, .owner, .thread, .thread]).QuitLost := by
  have hpos : (Runs.run EventLoopThread.step (init : EventLoopThread Unit Unit)
    [.owner, .thread, .thread, .thread, .owner, .owner, .owner, .thread, .thread]).loop.pos =
      .whileTest := rfl
  refine ⟨.inl (by decide), ?_, by decide⟩
  rintro (hthread | ⟨-, hleft | hleft⟩)
  · exact absurd hthread (by decide)
  · cases hpos.symm.trans hleft
  · cases hpos.symm.trans hleft

end EventLoopThread

end Huaweip2p
