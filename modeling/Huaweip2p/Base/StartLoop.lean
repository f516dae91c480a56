import Huaweip2p.Base.EventLoopThread

/-!
# Starting a loop in a thread

`EventLoopThread::startLoop` beside `threadFunc`, with the statements of `MutexLock`,
`MutexLockGuard` and `Condition` that they execute: the owner waits until the thread has published
its loop, and is woken by it, or by nobody.

* `StartLoop.step`: the next statement of the owner or of the thread, or a spurious wakeup;
* `Inv`: who has the mutex, what is published, and that a sleeping owner will be woken;
* `atomic`: the same with the wait as one statement, as `EventLoopThread` has it;
* `startLoop_run`: no deadlock, and how many statements it takes.
-/

namespace Huaweip2p

/-- The two threads. -/
inductive Party
  | owner
  | thread
  deriving DecidableEq

/-- The next statement of `startLoop`. `lock` and `unlock` of the guard are two statements each, and
`wait` gives the mutex up, sleeps, and takes the mutex again. -/
inductive StartPos
  | start
  | lock
  | setHolder
  | test
  | wait
  | sleeping
  | woken
  | clearHolder
  | unlock
  | returned
  deriving DecidableEq

/-- The next statement of `threadFunc`, up to `loop`. -/
inductive FuncPos
  | notStarted
  | construct
  | callback
  | lock
  | setHolder
  | publish
  | notify
  | clearHolder
  | unlock
  | loop
  deriving DecidableEq

/-- `class EventLoopThread` in `startLoop`: `mutex` is who has `mutex_`, and `holder` is its
`holder_`; `published` is whether `loop_` is set. -/
structure StartLoop where
  owner : StartPos
  thread : FuncPos
  mutex : Option Party
  holder : Option Party
  published : Bool
  deriving DecidableEq

/-- The owner has the mutex. -/
def StartPos.holds : StartPos → Bool
  | .setHolder | .test | .wait | .clearHolder | .unlock => true
  | _ => false

/-- The owner has found `loop_` set. -/
def StartPos.leaves : StartPos → Bool
  | .clearHolder | .unlock | .returned => true
  | _ => false

/-- The owner has set `holder_`, and not reset it. -/
def StartPos.mayHold : StartPos → Bool
  | .test | .wait | .sleeping | .woken | .clearHolder => true
  | _ => false

/-- The thread has the mutex. -/
def FuncPos.holds : FuncPos → Bool
  | .setHolder | .publish | .notify | .clearHolder | .unlock => true
  | _ => false

/-- The thread has set `loop_`. -/
def FuncPos.published : FuncPos → Bool
  | .notify | .clearHolder | .unlock | .loop => true
  | _ => false

/-- The thread has notified. -/
def FuncPos.notified : FuncPos → Bool
  | .clearHolder | .unlock | .loop => true
  | _ => false

def FuncPos.mayHold : FuncPos → Bool
  | .publish | .notify | .clearHolder => true
  | _ => false

theorem FuncPos.notified_of_published (t : FuncPos) (h : t.published = false) :
    t.notified = false := by
  cases t <;> first | rfl | cases h

namespace StartLoop

def init : StartLoop := ⟨.start, .notStarted, none, none, false⟩

inductive Event
  | owner
  | thread
  /-- `wait` returns although nobody notified. -/
  | spurious
  deriving DecidableEq

variable (s : StartLoop)

def ownerStep : StartLoop :=
  match s.owner with
  | .start => { s with owner := .lock, thread := .construct }
  | .lock => if s.mutex = none then { s with owner := .setHolder, mutex := some .owner } else s
  | .setHolder => { s with owner := .test, holder := some .owner }
  | .test => { s with owner := if s.published then .clearHolder else .wait }
  | .wait => { s with owner := .sleeping, mutex := none }
  | .sleeping => s
  -- `holder_` is not set again
  | .woken => if s.mutex = none then { s with owner := .test, mutex := some .owner } else s
  | .clearHolder => { s with owner := .unlock, holder := none }
  | .unlock => { s with owner := .returned, mutex := none }
  | .returned => s

/-- A sleeping owner is woken. -/
def wake : StartLoop := { s with owner := if s.owner = .sleeping then .woken else s.owner }

def threadStep : StartLoop :=
  match s.thread with
  | .notStarted => s
  | .construct => { s with thread := .callback }
  | .callback => { s with thread := .lock }
  | .lock => if s.mutex = none then { s with thread := .setHolder, mutex := some .thread } else s
  | .setHolder => { s with thread := .publish, holder := some .thread }
  | .publish => { s with thread := .notify, published := true }
  | .notify => { s.wake with thread := .clearHolder }
  | .clearHolder => { s with thread := .unlock, holder := none }
  | .unlock => { s with thread := .loop, mutex := none }
  | .loop => s

def step : Event → StartLoop
  | .owner => s.ownerStep
  | .thread => s.threadStep
  | .spurious => s.wake

/-- A statement that is executed. -/
def moves : Event → Bool
  | .owner => match s.owner with
    | .lock | .woken => s.mutex = none
    | .sleeping | .returned => false
    | _ => true
  | .thread => match s.thread with
    | .lock => s.mutex = none
    | .notStarted | .loop => false
    | _ => true
  | .spurious => false

/-! ### The invariant -/

/-- Who has the mutex, and what is published, follows from where the two are; `holder_` is never
another one's than it says; an owner that waits does so for what is not published, and one that
sleeps will be woken. -/
structure Inv : Prop where
  mutex_owner : s.mutex = some .owner ↔ s.owner.holds = true
  mutex_thread : s.mutex = some .thread ↔ s.thread.holds = true
  published_eq : s.published = s.thread.published
  started : s.owner = .start ↔ s.thread = .notStarted
  waits : s.owner = .wait → s.thread.published = false
  sleeps : s.owner = .sleeping → s.thread.notified = false
  leaves : s.owner.leaves = true → s.thread.published = true
  holder_owner : s.holder = some .owner → s.owner.mayHold = true
  holder_thread : s.holder = some .thread → s.thread.mayHold = true

theorem inv_init : init.Inv where
  mutex_owner := by decide
  mutex_thread := by decide
  published_eq := rfl
  started := by decide
  waits := by decide
  sleeps := by decide
  leaves := by decide
  holder_owner := by decide
  holder_thread := by decide

variable {s}

/-- The owner goes on, after it has started the thread. -/
theorem Inv.not_started (h : s.Inv) (howner : s.owner ≠ .start) {o : StartPos} (ho : o ≠ .start) :
    o = .start ↔ s.thread = .notStarted :=
  iff_of_false ho (mt h.started.2 howner)

/-- The thread goes on. -/
theorem Inv.thread_started (h : s.Inv) (hthread : s.thread ≠ .notStarted) {t : FuncPos}
    (ht : t ≠ .notStarted) : s.owner = .start ↔ t = .notStarted :=
  iff_of_false (mt h.started.1 hthread) ht

theorem Inv.ownerStep (h : s.Inv) : s.ownerStep.Inv := by
  obtain ⟨owner, thread, mutex, holder, published⟩ := s
  cases owner with
  | start =>
    obtain rfl : thread = .notStarted := h.started.1 rfl
    exact { h with
      started := ⟨nofun, nofun⟩
      waits := nofun
      sleeps := nofun }
  | lock =>
    unfold StartLoop.ownerStep
    dsimp only
    split_ifs with hfree
    · subst hfree
      exact { h with
        mutex_owner := iff_of_true rfl rfl
        mutex_thread := iff_of_false nofun fun hholds => nomatch h.mutex_thread.2 hholds
        started := h.not_started nofun nofun
        waits := nofun
        sleeps := nofun }
    · exact h
  | setHolder =>
    exact { h with
      started := h.not_started nofun nofun
      waits := nofun
      sleeps := nofun
      holder_owner := fun _ => rfl
      holder_thread := nofun }
  | test =>
    cases published with
    | true =>
      exact { h with
        started := h.not_started nofun nofun
        waits := nofun
        sleeps := nofun
        leaves := fun _ => h.published_eq.symm }
    | false =>
      exact { h with
        started := h.not_started nofun nofun
        waits := fun _ => h.published_eq.symm
        sleeps := nofun }
  | wait =>
    obtain rfl : mutex = some .owner := h.mutex_owner.2 rfl
    exact { h with
      mutex_owner := iff_of_false nofun nofun
      mutex_thread := iff_of_false nofun fun hholds => nomatch h.mutex_thread.2 hholds
      started := h.not_started nofun nofun
      waits := nofun
      -- nothing is published, so nobody has notified
      sleeps := fun _ => thread.notified_of_published (h.waits rfl) }
  | sleeping => exact h
  | woken =>
    unfold StartLoop.ownerStep
    dsimp only
    split_ifs with hfree
    · subst hfree
      exact { h with
        mutex_owner := iff_of_true rfl rfl
        mutex_thread := iff_of_false nofun fun hholds => nomatch h.mutex_thread.2 hholds
        started := h.not_started nofun nofun
        waits := nofun
        sleeps := nofun }
    · exact h
  | clearHolder =>
    exact { h with
      started := h.not_started nofun nofun
      waits := nofun
      sleeps := nofun
      holder_owner := nofun
      holder_thread := nofun }
  | unlock =>
    obtain rfl : mutex = some .owner := h.mutex_owner.2 rfl
    exact { h with
      mutex_owner := iff_of_false nofun nofun
      mutex_thread := iff_of_false nofun fun hholds => nomatch h.mutex_thread.2 hholds
      started := h.not_started nofun nofun
      waits := nofun
      sleeps := nofun }
  | returned => exact h

theorem Inv.wake (h : s.Inv) : s.wake.Inv := by
  obtain ⟨owner, thread, mutex, holder, published⟩ := s
  obtain ⟨_, _, _, _, _, _, _, _, _⟩ := h
  unfold StartLoop.wake
  dsimp only
  split_ifs <;> constructor <;> simp_all [StartPos.holds, StartPos.leaves, StartPos.mayHold]

theorem Inv.threadStep (h : s.Inv) : s.threadStep.Inv := by
  obtain ⟨owner, thread, mutex, holder, published⟩ := s
  cases thread with
  | notStarted => exact h
  | construct => exact { h with started := h.thread_started nofun nofun }
  | callback => exact { h with started := h.thread_started nofun nofun }
  | lock =>
    unfold StartLoop.threadStep
    dsimp only
    split_ifs with hfree
    · subst hfree
      exact { h with
        mutex_owner := iff_of_false nofun fun hholds => nomatch h.mutex_owner.2 hholds
        mutex_thread := iff_of_true rfl rfl
        started := h.thread_started nofun nofun }
    · exact h
  | setHolder =>
    exact { h with
      started := h.thread_started nofun nofun
      holder_owner := nofun
      holder_thread := fun _ => rfl }
  | publish =>
    obtain rfl : mutex = some .thread := h.mutex_thread.2 rfl
    -- an owner that is about to wait has the mutex
    have hwait : owner ≠ .wait := by
      rintro rfl
      exact nomatch h.mutex_owner.2 rfl
    exact { h with
      published_eq := rfl
      started := h.thread_started nofun nofun
      waits := fun howner => absurd howner hwait
      leaves := fun _ => rfl }
  | notify =>
    unfold StartLoop.threadStep StartLoop.wake
    dsimp only
    split_ifs with hsleeping
    · subst hsleeping
      exact { h with
        started := iff_of_false nofun nofun
        waits := nofun
        sleeps := nofun }
    · exact { h with
        started := h.thread_started nofun nofun
        sleeps := fun howner => absurd howner hsleeping }
  | clearHolder =>
    exact { h with
      started := h.thread_started nofun nofun
      holder_owner := nofun
      holder_thread := nofun }
  | unlock =>
    obtain rfl : mutex = some .thread := h.mutex_thread.2 rfl
    exact { h with
      mutex_owner := iff_of_false nofun fun hholds => nomatch h.mutex_owner.2 hholds
      mutex_thread := iff_of_false nofun nofun
      started := h.thread_started nofun nofun }
  | loop => exact h

/-- The step lemma. -/
theorem Inv.step (h : s.Inv) (e : Event) : (s.step e).Inv := by
  cases e with
  | owner => exact h.ownerStep
  | thread => exact h.threadStep
  | spurious => exact h.wake

/-! ### Progress -/

/-- The statements that the owner still executes, with those that a wakeup brings. -/
def ownerRank : StartPos → ℕ
  | .start => 8
  | .lock => 7
  | .setHolder | .woken => 6
  | .test => 5
  | .wait => 4
  | .sleeping => 3
  | .clearHolder => 2
  | .unlock => 1
  | .returned => 0

/-- The statements that the thread still executes, with the wakeup of `notify`. -/
def threadRank : FuncPos → ℕ
  | .notStarted | .construct => 11
  | .callback => 10
  | .lock => 9
  | .setHolder => 8
  | .publish => 7
  | .notify => 6
  | .clearHolder => 2
  | .unlock => 1
  | .loop => 0

variable (s) in
def rank : ℕ := ownerRank s.owner + threadRank s.thread

/-- What an event may add to the rank: a spurious wakeup lets the owner look again. -/
def cost : Event → ℕ
  | .spurious => 3
  | _ => 0

theorem ownerRank_wake_le (s : StartLoop) : ownerRank s.wake.owner ≤ ownerRank s.owner + 3 := by
  unfold StartLoop.wake
  dsimp only
  split_ifs with hsleeping
  · rw [hsleeping, ownerRank, ownerRank]
  · exact Nat.le_add_right _ _

theorem sum_cost (es : List Event) : (es.map cost).sum = 3 * es.count .spurious := by
  induction es with
  | nil => rfl
  | cons e es ih =>
    rw [List.map_cons, List.sum_cons, ih]
    cases e <;> simp [cost]
    omega

theorem Inv.rank_ownerStep (h : s.Inv) :
    s.ownerStep.rank + (if s.moves .owner then 1 else 0) ≤ s.rank := by
  obtain ⟨owner, thread, mutex, holder, published⟩ := s
  cases owner with
  | start =>
    obtain rfl : thread = .notStarted := h.started.1 rfl
    exact le_refl 19
  | lock =>
    cases mutex with
    | none =>
      show 6 + threadRank thread + 1 ≤ 7 + threadRank thread
      omega
    | some _ => exact le_refl _
  | setHolder =>
    show 5 + threadRank thread + 1 ≤ 6 + threadRank thread
    omega
  | test =>
    cases published with
    | true =>
      show 2 + threadRank thread + 1 ≤ 5 + threadRank thread
      omega
    | false =>
      show 4 + threadRank thread + 1 ≤ 5 + threadRank thread
      omega
  | wait =>
    show 3 + threadRank thread + 1 ≤ 4 + threadRank thread
    omega
  | sleeping => exact le_refl _
  | woken =>
    cases mutex with
    | none =>
      show 5 + threadRank thread + 1 ≤ 6 + threadRank thread
      omega
    | some _ => exact le_refl _
  | clearHolder =>
    show 1 + threadRank thread + 1 ≤ 2 + threadRank thread
    omega
  | unlock =>
    show 0 + threadRank thread + 1 ≤ 1 + threadRank thread
    omega
  | returned => exact le_refl _

theorem rank_threadStep (s : StartLoop) :
    s.threadStep.rank + (if s.moves .thread then 1 else 0) ≤ s.rank := by
  have hwake := s.ownerRank_wake_le
  obtain ⟨owner, thread, mutex, holder, published⟩ := s
  cases thread with
  | notStarted => exact le_refl _
  | lock =>
    cases mutex with
    | none => exact le_refl (ownerRank owner + 9)
    | some _ => exact le_refl _
  | notify =>
    -- the woken owner takes the mutex, and looks again
    exact Nat.add_le_add_right hwake 3
  | loop => exact le_refl _
  | _ => exact le_refl (_ + _ + 1)

/-- A statement lowers the rank by one. -/
theorem Inv.rank_step (h : s.Inv) (e : Event) :
    (s.step e).rank + (if s.moves e then 1 else 0) ≤ s.rank + cost e := by
  cases e with
  | owner => exact h.rank_ownerStep
  | thread => exact s.rank_threadStep
  | spurious =>
    have hwake := Nat.add_le_add_right s.ownerRank_wake_le (threadRank s.thread)
    exact hwake.trans_eq (Nat.add_right_comm _ _ _)

theorem moves_owner_of_holds (h : s.owner.holds = true) : s.moves .owner = true := by
  unfold moves
  cases hpos : s.owner <;> rw [hpos] at h <;> first | rfl | cases h

theorem moves_thread_of_holds (h : s.thread.holds = true) : s.moves .thread = true := by
  unfold moves
  cases hpos : s.thread <;> rw [hpos] at h <;> first | rfl | cases h

/-- There is no deadlock: as long as the owner has not returned from `startLoop`, or the thread has
not come to its loop, one of them goes on. -/
theorem Inv.exists_moves (h : s.Inv) (howner : s.moves .owner = false)
    (hthread : s.moves .thread = false) : s.owner = .returned ∧ s.thread = .loop := by
  have hfree : s.mutex = none := by
    match hmutex : s.mutex with
    | none => rfl
    | some .owner =>
      rw [moves_owner_of_holds (h.mutex_owner.1 hmutex)] at howner
      cases howner
    | some .thread =>
      rw [moves_thread_of_holds (h.mutex_thread.1 hmutex)] at hthread
      cases hthread
  have hpos : s.thread = .notStarted ∨ s.thread = .loop := by
    cases hpos : s.thread <;> simp_all [moves]
  have hpos' : s.owner = .sleeping ∨ s.owner = .returned := by
    cases hpos : s.owner <;> simp_all [moves]
  rcases hpos with hpos | hpos
  · rw [h.started.2 hpos] at hpos'
    simp at hpos'
  · rcases hpos' with hpos' | hpos'
    · have hnot := h.sleeps hpos'
      rw [hpos] at hnot
      cases hnot
    · exact ⟨hpos', hpos⟩

/-! ### The wait as one statement -/

/-- Where the owner is in `EventLoopThread`. -/
def StartPos.atomic : StartPos → OwnerPos
  | .start => .start
  | .returned => .started
  | _ => .waiting

def FuncPos.atomic : FuncPos → ThreadPos
  | .notStarted => .notStarted
  | .construct => .constructing
  | .callback => .callback
  | .lock | .setHolder | .publish => .publishing
  | _ => .calling

variable (τ F : Type)

/-- The same in `EventLoopThread`, whose wait is one statement; the loop has not started. -/
def atomic (s : StartLoop) : EventLoopThread τ F :=
  ⟨StartPos.atomic s.owner, FuncPos.atomic s.thread, s.published, .init⟩

variable {τ F} [DecidableEq τ]

variable (τ F) in
theorem Inv.atomic_ownerStep (h : s.Inv) : s.ownerStep.atomic τ F = s.atomic τ F ∨
    s.ownerStep.atomic τ F = (s.atomic τ F).step .owner := by
  have hleaves := h.leaves
  have hpublished := h.published_eq
  obtain ⟨owner, thread, mutex, holder, published⟩ := s
  cases owner with
  | start => exact .inr rfl
  | unlock =>
    obtain rfl : published = true := hpublished.trans (hleaves rfl)
    exact .inr rfl
  | lock | woken =>
    unfold StartLoop.ownerStep
    dsimp only
    split_ifs
    · exact .inl rfl
    · exact .inl rfl
  | test => cases published <;> exact .inl rfl
  | setHolder | wait | sleeping | clearHolder | returned => exact .inl rfl

variable (τ F) in
omit [DecidableEq τ] in
theorem atomic_wake (s : StartLoop) : s.wake.atomic τ F = s.atomic τ F := by
  unfold StartLoop.wake atomic
  dsimp only
  split_ifs with hsleeping
  · rw [hsleeping]
    rfl
  · rfl

variable (τ F) in
theorem atomic_threadStep (s : StartLoop) : s.threadStep.atomic τ F = s.atomic τ F ∨
    s.threadStep.atomic τ F = (s.atomic τ F).step .thread := by
  have hwake := s.atomic_wake τ F
  obtain ⟨owner, thread, mutex, holder, published⟩ := s
  cases thread with
  | construct | callback | publish => exact .inr rfl
  | lock =>
    unfold StartLoop.threadStep
    dsimp only
    split_ifs
    · exact .inl rfl
    · exact .inl rfl
  | notify => exact .inl hwake
  | notStarted | setHolder | clearHolder | unlock | loop => exact .inl rfl

/-- Whatever the two execute, `EventLoopThread` does it in some of its steps. -/
theorem Inv.atomic_step (h : s.Inv) (e : Event) :
    ∃ es', (s.step e).atomic τ F = Runs.run EventLoopThread.step (s.atomic τ F) es' := by
  cases e with
  | owner =>
    rcases h.atomic_ownerStep τ F with heq | heq
    · exact ⟨[], heq⟩
    · exact ⟨[.owner], heq⟩
  | thread =>
    rcases s.atomic_threadStep τ F with heq | heq
    · exact ⟨[], heq⟩
    · exact ⟨[.thread], heq⟩
  | spurious => exact ⟨[], s.atomic_wake τ F⟩

/-- **Starting a loop.** In every interleaving of the statements of `startLoop` and `threadFunc`,
with any spurious wakeups: never both have the mutex; the two do what `EventLoopThread` does with
the wait as one statement; they execute at most 19 statements, and 3 for each spurious wakeup; and
when neither can go on, the owner has returned, the loop is published and nobody has the mutex. -/
theorem startLoop_run (es : List Event) :
    let s := Runs.run step init es
    ¬ (s.owner.holds = true ∧ s.thread.holds = true) ∧
      (∃ es', s.atomic τ F = Runs.run EventLoopThread.step .init es') ∧
      Runs.count step moves init es ≤ 19 + 3 * es.count .spurious ∧
      (s.moves .owner = false → s.moves .thread = false → s.owner = .returned ∧
        s.thread = .loop ∧ s.published = true ∧ s.mutex = none ∧ s.holder = none) := by
  intro s
  have h : s.Inv := Runs.run_invariant (I := Inv) (fun _ e _ h => h.step e) inv_init
  refine ⟨fun hboth => ?_, ?_, ?_, fun howner hthread => ?_⟩
  · have hmutex := h.mutex_owner.2 hboth.1
    rw [h.mutex_thread.2 hboth.2] at hmutex
    cases hmutex
  · exact Runs.run_refines (atomic τ F) (I := Inv) (fun _ e h => ⟨h.step e, h.atomic_step e⟩)
      inv_init es
  · have hall : Runs.EveryStep step (fun _ _ _ => True) init es := fun _ _ _ _ => trivial
    have hcount := Runs.rank_add_count_le_add (I := Inv) (r := rank) (M := moves) (c := cost)
      (fun _ e h _ => h.step e) (fun _ e h _ => h.rank_step e) inv_init hall
    rw [sum_cost] at hcount
    exact (Nat.le_add_left _ _).trans hcount
  · obtain ⟨hreturned, hloop⟩ := h.exists_moves howner hthread
    have hmutex_owner := h.mutex_owner
    have hmutex_thread := h.mutex_thread
    have hpublished := h.published_eq
    have hholder_owner := h.holder_owner
    have hholder_thread := h.holder_thread
    rw [hreturned] at hmutex_owner hholder_owner
    rw [hloop] at hmutex_thread hpublished hholder_thread
    refine ⟨hreturned, hloop, hpublished, ?_, ?_⟩
    · match hmutex : s.mutex with
      | none => rfl
      | some .owner => cases hmutex_owner.1 hmutex
      | some .thread => cases hmutex_thread.1 hmutex
    · match hholder : s.holder with
      | none => rfl
      | some .owner => cases hholder_owner hholder
      | some .thread => cases hholder_thread hholder

/-- After a wait `holder_` does not name the owner that has the mutex. -/
example : (Runs.run step init [.owner, .owner, .owner, .owner, .owner, .spurious, .thread, .thread,
    .thread, .thread, .thread, .thread, .thread, .thread, .owner]).mutex = some .owner ∧
    (Runs.run step init [.owner, .owner, .owner, .owner, .owner, .spurious, .thread, .thread,
      .thread, .thread, .thread, .thread, .thread, .thread, .owner]).holder = none := by
  decide

end StartLoop

end Huaweip2p
