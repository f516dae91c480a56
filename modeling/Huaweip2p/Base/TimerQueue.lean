import Huaweip2p.Lib.Runs

/-!
# The timer queue

`TimerQueue` as the source has it: the sorted set `timers_`, the set `activeTimers_` for
cancellation, the set `cancelingTimers_` of timers cancelled while the expired ones run, and the
`Timer` objects on the heap. An operation returns `none` where it would dereference or delete a
`Timer` that has been deleted.

`pending` says what a timer queue is for: from the log of what was asked of it and what it ran, the
timers it owes a run. `handleRead_runs_due_iff` says in which runs this queue pays.
-/

namespace Huaweip2p

/-- The address of a `Timer`. -/
abbrev Addr := ℕ

/-- `TimerId`, and `ActiveTimer`: the address of a timer and its sequence number. -/
abbrev TimerId := Addr × ℕ

/-- `class Timer`. Times are microseconds; the callback is named by a number. -/
structure Timer where
  callback : ℕ
  expiration : ℤ
  interval : ℤ
  repeats : Bool
  sequence : ℕ
  deriving DecidableEq, Repr

/-- `Timer::restart`. The new expiration of a repeating timer is commented out in the source. -/
def Timer.restart (t : Timer) (_now : ℤ) : Timer :=
  if t.repeats then t else { t with expiration := 0 }

abbrev Heap := Std.ExtTreeMap Addr Timer

/-- The order of `pair<Timestamp, Timer*>`. -/
abbrev entryCompare : ℤ × Addr → ℤ × Addr → Ordering :=
  compareLex (compareOn Prod.fst) (compareOn Prod.snd)

/-- The order of `pair<Timer*, int64_t>`. -/
abbrev activeCompare : TimerId → TimerId → Ordering :=
  compareLex (compareOn Prod.fst) (compareOn Prod.snd)

instance : Std.TransCmp entryCompare := inferInstance

instance : Std.TransCmp activeCompare := inferInstance

/-- `class TimerQueue`, with the heap of its timers, `s_numCreated_`, and the expiration for which
`timerfd_` is armed. -/
structure TimerQueue where
  timers : Std.ExtTreeSet (ℤ × Addr) entryCompare
  activeTimers : Std.ExtTreeSet TimerId activeCompare
  callingExpiredTimers : Bool
  cancelingTimers : Std.ExtTreeSet TimerId activeCompare
  heap : Heap
  numCreated : ℕ
  timerfd : Option ℤ

/-- What a callback does to the queue. -/
inductive Action
  | addTimer (callback : ℕ) (time interval : ℤ)
  | cancel (id : TimerId)
  deriving DecidableEq, Repr

/-- What the queue is run with: the address that the n-th `new Timer` returns, and the callbacks. -/
structure TimerEnv where
  malloc : ℕ → Heap → Addr
  malloc_fresh : ∀ n h, h[malloc n h]? = none
  actions : ℕ → List Action

/-- What was asked of a queue and what it did. -/
inductive TimerOp
  | added (id : TimerId) (time interval : ℤ)
  | cancelled (id : TimerId)
  | ran (id : TimerId) (now : ℤ)
  deriving DecidableEq, Repr

namespace TimerQueue

/-- `UINTPTR_MAX`. -/
def uintptrMax : Addr := 2 ^ 64 - 1

/-- The constructor. -/
def init : TimerQueue where
  timers := ∅
  activeTimers := ∅
  callingExpiredTimers := false
  cancelingTimers := ∅
  heap := ∅
  numCreated := 0
  timerfd := none

/-- `insert`, with its result `earliestChanged`. It looks at the sets and leaves them as they
are. -/
def insert (q : TimerQueue) (timer : Addr) : Option (TimerQueue × Bool) := do
  let _when ← (q.heap[timer]?).map Timer.expiration
  return (q, q.timers.isEmpty)

def addTimerInLoop (q : TimerQueue) (timer : Addr) : Option TimerQueue := do
  let (q, earliestChanged) ← q.insert timer
  if earliestChanged then
    let t ← q.heap[timer]?
    return { q with timerfd := some t.expiration }
  else return q

def cancelInLoop (q : TimerQueue) (id : TimerId) : Option TimerQueue :=
  if q.activeTimers.contains id then
    -- the erasure from `timers_` is commented out in the source
    if (q.heap[id.1]?).isSome then
      some { q with heap := q.heap.erase id.1, activeTimers := q.activeTimers.erase id }
    else none
  else if q.callingExpiredTimers then
    some { q with cancelingTimers := q.cancelingTimers.insert id }
  else some q

variable (env : TimerEnv)

/-- `addTimer` in the loop thread. -/
def addTimer (q : TimerQueue) (callback : ℕ) (time interval : ℤ) :
    Option (TimerQueue × List TimerOp) := do
  let timer := env.malloc q.numCreated q.heap
  let sequence := q.numCreated + 1
  let t : Timer := ⟨callback, time, interval, interval > 0, sequence⟩
  let q ← { q with heap := q.heap.insert timer t, numCreated := sequence }.addTimerInLoop timer
  return (q, [.added (timer, sequence) time interval])

/-- `cancel` in the loop thread. -/
def cancel (q : TimerQueue) (id : TimerId) : Option (TimerQueue × List TimerOp) := do
  let q ← q.cancelInLoop id
  return (q, [.cancelled id])

/-- One call of a callback on the queue. -/
def act (q : TimerQueue) : Action → Option (TimerQueue × List TimerOp)
  | .addTimer callback time interval => q.addTimer env callback time interval
  | .cancel id => q.cancel id

/-- The loop of `getExpired` that takes the expired timers out of `activeTimers_`. -/
def eraseActive (q : TimerQueue) (entry : ℤ × Addr) : Option TimerQueue := do
  let t ← q.heap[entry.2]?
  return { q with activeTimers := q.activeTimers.erase (entry.2, t.sequence) }

/-- `getExpired`. -/
def getExpired (q : TimerQueue) (now : ℤ) : Option (TimerQueue × List (ℤ × Addr)) := do
  let sentry := (now, uintptrMax)
  let expired := q.timers.toList.takeWhile fun entry => entryCompare entry sentry == .lt
  let q := { q with timers := expired.foldl (fun ts entry => ts.erase entry) q.timers }
  let q ← expired.foldlM eraseActive q
  return (q, expired)

/-- `iter->second->run()`: the callback of an expired timer, action by action. -/
def runTimer (now : ℤ) (r : TimerQueue × List TimerOp) (entry : ℤ × Addr) :
    Option (TimerQueue × List TimerOp) := do
  let t ← r.1.heap[entry.2]?
  (env.actions t.callback).foldlM
    (fun r a => do
      let (q, ops) ← r.1.act env a
      return (q, r.2 ++ ops))
    (r.1, r.2 ++ [.ran (entry.2, t.sequence) now])

/-- The loop of `reset`: a repeating timer that was not cancelled meanwhile is restarted and
inserted, any other is deleted. -/
def resetTimer (now : ℤ) (q : TimerQueue) (entry : ℤ × Addr) : Option TimerQueue := do
  let t ← q.heap[entry.2]?
  if t.repeats && !q.cancelingTimers.contains (entry.2, t.sequence) then
    let (q, _) ← { q with heap := q.heap.insert entry.2 (t.restart now) }.insert entry.2
    return q
  else return { q with heap := q.heap.erase entry.2 }

/-- `reset`. -/
def reset (q : TimerQueue) (expired : List (ℤ × Addr)) (now : ℤ) : Option TimerQueue := do
  let q ← expired.foldlM (resetTimer now) q
  match q.timers.min? with
  | none => return q
  | some entry =>
    let t ← q.heap[entry.2]?
    return if t.expiration > 0 then { q with timerfd := some t.expiration } else q

/-- `handleRead`, at the time `now`. -/
def handleRead (q : TimerQueue) (now : ℤ) : Option (TimerQueue × List TimerOp) := do
  let (q, expired) ← q.getExpired now
  let q := { q with callingExpiredTimers := true, cancelingTimers := ∅ }
  let (q, ops) ← expired.foldlM (runTimer env now) (q, [])
  let q ← { q with callingExpiredTimers := false }.reset expired now
  return (q, ops)

/-! ### What a timer queue is for -/

/-- A timer that is owed a run. -/
structure Pending where
  id : TimerId
  due : ℤ
  interval : ℤ
  deriving DecidableEq, Repr

/-- A timer is owed a run from when it is added on; no longer when it is cancelled; after its run
again, an interval later, when it repeats, and no longer otherwise. -/
def account (ps : List Pending) : TimerOp → List Pending
  | .added id time interval => ps ++ [⟨id, time, interval⟩]
  | .cancelled id => ps.filter fun p => p.id ≠ id
  | .ran id now => ps.filterMap fun p =>
    if p.id = id then
      if p.interval > 0 then some { p with due := now + p.interval } else none
    else some p

/-- The timers owed a run after a log. -/
def pending (log : List TimerOp) : List Pending := log.foldl account []

/-- The timers owed a run at the time `now`. -/
def dueTimers (log : List TimerOp) (now : ℤ) : List Pending :=
  (pending log).filter fun p => p.due ≤ now

/-- The timers run in a log. -/
def ranIds (log : List TimerOp) : List TimerId :=
  log.filterMap fun
    | .ran id _ => some id
    | _ => none

/-! ### Runs -/

/-- A step in the loop thread. -/
inductive Event
  | addTimer (callback : ℕ) (time interval : ℤ)
  | cancel (id : TimerId)
  | handleRead (now : ℤ)
  deriving DecidableEq, Repr

/-- What a step does to the queue, and what it logs. -/
def perform (q : TimerQueue) : Event → Option (TimerQueue × List TimerOp)
  | .addTimer callback time interval => q.addTimer env callback time interval
  | .cancel id => q.cancel id
  | .handleRead now => q.handleRead env now

/-- A queue with the log of its run. -/
structure World where
  queue : TimerQueue
  log : List TimerOp

/-- One step of a run. -/
def step (w : World) (e : Event) : World :=
  match w.queue.perform env e with
  | some (q, ops) => ⟨q, w.log ++ ops⟩
  | none => w

/-- The step is performed, and if it is a `handleRead`, it runs the timers owed a run by then, each
once, and no others. -/
def RunsDue (w : World) (e : Event) : Prop :=
  ∃ q ops, w.queue.perform env e = some (q, ops) ∧
    ∀ now, e = .handleRead now → (ranIds ops).Perm ((dueTimers w.log now).map Pending.id)

/-- No timer is owed a run at a `handleRead`. -/
def NoneDue (w : World) (e : Event) : Prop := ∀ now, e = .handleRead now → dueTimers w.log now = []

/-- The sets of the queue are empty, and no callback is running. -/
structure Idle (q : TimerQueue) : Prop where
  timers : q.timers = ∅
  activeTimers : q.activeTimers = ∅
  callingExpiredTimers : q.callingExpiredTimers = false

theorem idle_init : init.Idle := ⟨rfl, rfl, rfl⟩

/-- `insert` inserts nothing, so `addTimer` leaves the sets empty. -/
theorem Idle.addTimer {q : TimerQueue} (h : q.Idle) (callback : ℕ) (time interval : ℤ) :
    ∃ q' id, q.addTimer env callback time interval = some (q', [.added id time interval]) ∧
      q'.Idle := by
  refine ⟨{ q with
    heap := q.heap.insert (env.malloc q.numCreated q.heap)
      ⟨callback, time, interval, interval > 0, q.numCreated + 1⟩
    numCreated := q.numCreated + 1
    timerfd := some time }, (env.malloc q.numCreated q.heap, q.numCreated + 1), ?_,
    h.timers, h.activeTimers, h.callingExpiredTimers⟩
  simp [TimerQueue.addTimer, addTimerInLoop, insert, h.timers]

/-- A timer to cancel is found in no set. -/
theorem Idle.cancel {q : TimerQueue} (h : q.Idle) (id : TimerId) :
    q.cancel id = some (q, [.cancelled id]) := by
  simp [TimerQueue.cancel, cancelInLoop, h.activeTimers, h.callingExpiredTimers]

/-- `handleRead` finds no expired timer. -/
theorem Idle.handleRead {q : TimerQueue} (h : q.Idle) (now : ℤ) :
    ∃ q', q.handleRead env now = some (q', []) ∧ q'.Idle := by
  refine ⟨{ q with cancelingTimers := ∅, callingExpiredTimers := false }, ?_,
    h.timers, h.activeTimers, rfl⟩
  have hnone : (∅ : Std.ExtTreeSet (ℤ × Addr) entryCompare).toList = [] :=
    Std.ExtTreeSet.toList_eq_nil_iff.2 rfl
  simp [TimerQueue.handleRead, getExpired, reset, h.timers, hnone]

/-- A step on idle sets leaves them idle and runs nothing. -/
theorem Idle.perform {q : TimerQueue} (h : q.Idle) (e : Event) :
    ∃ q' ops, q.perform env e = some (q', ops) ∧ q'.Idle ∧ ranIds ops = [] := by
  cases e with
  | addTimer callback time interval =>
    obtain ⟨q', id, hq', h'⟩ := h.addTimer env callback time interval
    exact ⟨q', _, hq', h', rfl⟩
  | cancel id => exact ⟨q, _, h.cancel id, h, rfl⟩
  | handleRead now =>
    obtain ⟨q', hq', h'⟩ := h.handleRead env now
    exact ⟨q', _, hq', h', rfl⟩

theorem step_idle (w : World) (e : Event) (h : w.queue.Idle) : (step env w e).queue.Idle := by
  obtain ⟨q', ops, hq', h', -⟩ := h.perform env e
  rw [step, hq']
  exact h'

/-- Since nothing runs, a step pays what is owed exactly when nothing is. -/
theorem runsDue_iff {w : World} (h : w.queue.Idle) (e : Event) :
    RunsDue env w e ↔ NoneDue w e := by
  obtain ⟨q', ops, hq', -, hran⟩ := h.perform env e
  constructor
  · rintro ⟨q, ops', hq, hdue⟩ now he
    rw [hq', Option.some.injEq, Prod.mk.injEq] at hq
    obtain ⟨-, rfl⟩ := hq
    have := hdue now he
    rw [hran, List.nil_perm, List.map_eq_nil_iff] at this
    exact this
  · intro hnone
    refine ⟨q', ops, hq', fun now he => ?_⟩
    rw [hran, hnone now he, List.map_nil]

/-- **Timers.** In a run from the constructor on, every `handleRead` runs exactly the timers owed a
run exactly when no timer is owed a run at any of them. -/
theorem handleRead_runs_due_iff (es : List Event) :
    Runs.EveryStep (step env) (fun w e _ => RunsDue env w e) ⟨init, []⟩ es ↔
      Runs.EveryStep (step env) (fun w e _ => NoneDue w e) ⟨init, []⟩ es :=
  Runs.everyStep_iff (I := fun w : World => w.queue.Idle)
    (fun _ e h => runsDue_iff env h e) (fun w e h _ => step_idle env w e h) idle_init es

/-- Addresses above all that are taken. -/
def mallocAbove : TimerEnv where
  malloc _ h := h.keys.foldr max 0 + 1
  malloc_fresh := by
    intro _ h
    have hle : ∀ (l : List Addr) (a : Addr), a ∈ l → a ≤ l.foldr max 0 := by
      intro l a ha
      induction l with
      | nil => cases ha
      | cons b l ih =>
        rcases List.mem_cons.1 ha with rfl | ha
        · exact le_max_left _ _
        · exact (ih ha).trans (le_max_right _ _)
    refine Std.ExtTreeMap.getElem?_eq_none fun hmem => ?_
    exact Nat.not_succ_le_self _ (hle _ _ (Std.ExtTreeMap.mem_keys.2 hmem))
  actions _ := []

/-- A one-shot timer for the time 5 does not run at the time 10. -/
theorem not_handleRead_runs_due :
    ¬ Runs.EveryStep (step mallocAbove) (fun w e _ => RunsDue mallocAbove w e) ⟨init, []⟩
      [.addTimer 0 5 0, .handleRead 10] := by
  intro h
  have hidle : (step mallocAbove ⟨init, []⟩ (.addTimer 0 5 0)).queue.Idle :=
    step_idle mallocAbove _ _ idle_init
  have hnone := (runsDue_iff mallocAbove hidle (.handleRead 10)).1
    (h [.addTimer 0 5 0] (.handleRead 10) [] rfl) 10 rfl
  exact absurd hnone (by decide +kernel)

end TimerQueue

end Huaweip2p
