import Huaweip2p.Base.Connector
import Huaweip2p.Base.TimerQueue

/-!
# The retries of the connector

`Connector` together with the timer queue of its loop: `retry` asks for a timer, each time after
twice the delay up to a limit, and `handleRead` of the queue runs `startInLoop` for the timers that
expired.

* `Retries`: the connector, `retryDelayMs_` and the queue, with the functions of the source;
* `Follows`: what they do to the connector is what `Connector` says;
* `retries_run`: the delays asked for, and that none of the timers ever runs.
-/

namespace Huaweip2p

/-- `class Connector` with `retryDelayMs_` and the queue of its loop; `delays` are those that
`retry` asked for since the last `restart`, and `attempts` counts the calls of `connect`. -/
structure Retries where
  connector : Connector
  retryDelayMs : ℕ
  queue : TimerQueue
  delays : List ℕ
  attempts : ℕ

namespace Retries

def kMaxRetryDelayMs : ℕ := 30 * 1000

def kInitRetryDelayMs : ℕ := 500

def init : Retries := ⟨.init, kInitRetryDelayMs, .init, [], 0⟩

variable (env : TimerEnv) (now : ℤ) (w : Retries)

/-- `loop_->runAfter` with `startInLoop` as its callback, at the time `now`. -/
def runAfter (delayMs : ℕ) : Option Retries := do
  let (queue, _) ← w.queue.addTimer env 0 (now + 1000 * delayMs) 0
  return { w with queue := queue }

/-- `retry`. -/
def retry (sockfd : ℕ) : Option Retries :=
  let w := { w with connector := w.connector.retry sockfd }
  if w.connector.connect_ then do
    let w ← w.runAfter env now w.retryDelayMs
    return { w with
      delays := w.delays ++ [w.retryDelayMs]
      retryDelayMs := min (w.retryDelayMs * 2) kMaxRetryDelayMs }
  else some w

def connect (savedErrno : ℕ) : Option Retries :=
  let sockfd := w.connector.sockets.created
  let w := { w with
    connector.sockets := w.connector.sockets.create
    attempts := w.attempts + 1 }
  if Connector.InProgress savedErrno then do
    let c ← w.connector.connecting sockfd
    return { w with connector := c }
  else if Connector.Retries savedErrno then w.retry env now sockfd
  else some { w with connector.sockets := w.connector.sockets.close sockfd }

def startInLoop (savedErrno : ℕ) : Option Retries := do
  guard (w.connector.state = .kDisconnected)
  if w.connector.connect_ then w.connect env now savedErrno else return w

def start (savedErrno : ℕ) : Option Retries :=
  startInLoop env now { w with connector.connect_ := true } savedErrno

def stopInLoop : Option Retries :=
  if w.connector.state = .kConnecting then do
    let (sockfd, c) ← Connector.removeAndResetChannel
      { w.connector with state := .kDisconnected }
    retry env now { w with connector := c } sockfd
  else some w

def stop : Option Retries := stopInLoop env now { w with connector.connect_ := false }

def restart (savedErrno : ℕ) : Option Retries :=
  startInLoop env now { w with
    connector.state := .kDisconnected
    retryDelayMs := kInitRetryDelayMs
    connector.connect_ := true
    delays := [] } savedErrno

/-- `handleWrite`, with `SO_ERROR` and the result of `isSelfConnect`. -/
def handleWrite (err : ℕ) (isSelfConnect : Bool) : Option Retries :=
  if w.connector.state = .kConnecting then do
    let (sockfd, c) ← w.connector.removeAndResetChannel
    if err ≠ 0 then retry env now { w with connector := c } sockfd
    else if isSelfConnect then retry env now { w with connector := c } sockfd
    else
      let c := { c with state := .kConnected }
      if c.connect_ then
        return { w with connector := { c with sockets := c.sockets.hand sockfd } }
      else return { w with connector := { c with sockets := c.sockets.close sockfd } }
  else do
    guard (w.connector.state = .kDisconnected)
    return w

def handleError : Option Retries := do
  guard (w.connector.state = .kConnecting)
  let (sockfd, c) ← w.connector.removeAndResetChannel
  retry env now { w with connector := c } sockfd

def callback (err : ℕ) (isSelfConnect : Bool) (w : Retries) :
    Channel.Callback → Option Retries
  | .write => w.handleWrite env now err isSelfConnect
  | .error => w.handleError env now
  | .close | .read => some w

/-- The callback of an expired timer is `startInLoop`, whatever the queue is. -/
def runTimer (savedErrno : ℕ) (w : Retries) (entry : ℤ × Addr) : Option Retries := do
  let _ ← w.queue.heap[entry.2]?
  w.startInLoop env now savedErrno

/-- `TimerQueue::handleRead`. -/
def handleRead (savedErrno : ℕ) : Option Retries := do
  let (queue, expired) ← w.queue.getExpired now
  let w := { w with
    queue := { queue with callingExpiredTimers := true, cancelingTimers := ∅ } }
  let w ← expired.foldlM (runTimer env now savedErrno) w
  let queue ← { w.queue with callingExpiredTimers := false }.reset expired now
  return { w with queue := queue }

/-- What happens, at the time `now`. -/
inductive Event
  | start (now : ℤ) (savedErrno : ℕ)
  | stop (now : ℤ)
  | restart (now : ℤ) (savedErrno : ℕ)
  /-- `poll` returned events for the channel of the connector. -/
  | handleEvent (now : ℤ) (revents : Int32) (err : ℕ) (isSelfConnect : Bool)
  /-- The oldest `resetChannel`. -/
  | resetChannel
  /-- The timerfd is readable. -/
  | handleRead (now : ℤ) (savedErrno : ℕ)
  deriving DecidableEq, Repr

def step? : Event → Option Retries
  | .start now savedErrno => w.start env now savedErrno
  | .stop now => w.stop env now
  | .restart now savedErrno => w.restart env now savedErrno
  | .handleEvent now revents err isSelfConnect => if w.connector.registered then
      (Channel.handleEventWithGuard Connector.isSet revents).foldlM
        (callback env now err isSelfConnect) w
    else some w
  | .resetChannel => do
    let c ← w.connector.step? .resetChannel
    return { w with connector := c }
  | .handleRead now savedErrno => w.handleRead env now savedErrno

/-- A step whose assertion fails is not made. -/
def step (e : Event) : Retries := (w.step? env e).getD w

/-- The event as one of the connector alone, unless it is one of the timer queue. -/
def Event.connector : Event → Option Connector.Event
  | .start _ savedErrno => some (.start savedErrno)
  | .stop _ => some .stop
  | .restart _ savedErrno => some (.restart savedErrno)
  | .handleEvent _ revents err isSelfConnect => some (.handleEvent revents err isSelfConnect)
  | .resetChannel => some .resetChannel
  | .handleRead _ _ => none

/-- The call that may make an attempt. -/
def Event.starts : Event → Bool
  | .start _ _ | .restart _ _ => true
  | _ => false

/-! ### What it does to the connector -/

/-- The connector is `c`, no timer is in a set of the queue, and the delays asked for doubled from
`kInitRetryDelayMs` up to `kMaxRetryDelayMs`; there were at most `n` attempts. -/
structure Follows (n : ℕ) (w : Retries) (c : Connector) : Prop where
  connector_eq : w.connector = c
  idle : w.queue.Idle
  delays_eq : w.delays = (List.range w.delays.length).map fun i =>
    min (kInitRetryDelayMs * 2 ^ i) kMaxRetryDelayMs
  retryDelayMs_eq : w.retryDelayMs = min (kInitRetryDelayMs * 2 ^ w.delays.length) kMaxRetryDelayMs
  attempts_le : w.attempts ≤ n

section

variable {env now w} {n : ℕ} {c : Connector}

theorem Follows.with_connector (h : Follows n w c) (c' : Connector) :
    Follows n { w with connector := c' } c' := { h with connector_eq := rfl }

theorem Follows.mono (h : Follows n w c) {m : ℕ} (hle : n ≤ m) : Follows m w c :=
  { h with attempts_le := h.attempts_le.trans hle }

/-- One more delay. -/
theorem Follows.delays_append (h : Follows n w c) :
    w.delays ++ [w.retryDelayMs] = (List.range (w.delays.length + 1)).map fun i =>
      min (kInitRetryDelayMs * 2 ^ i) kMaxRetryDelayMs := by
  rw [List.range_succ, List.map_append, List.map_singleton, ← h.delays_eq, ← h.retryDelayMs_eq]

theorem Follows.retryDelayMs_double (h : Follows n w c) :
    min (w.retryDelayMs * 2) kMaxRetryDelayMs =
      min (kInitRetryDelayMs * 2 ^ (w.delays.length + 1)) kMaxRetryDelayMs := by
  rw [h.retryDelayMs_eq, pow_succ]
  unfold kInitRetryDelayMs kMaxRetryDelayMs
  omega

theorem Follows.retry (h : Follows n w c) (sockfd : ℕ) :
    Option.Rel (Follows n) (w.retry env now sockfd) (some (c.retry sockfd)) := by
  obtain rfl := h.connector_eq
  unfold Retries.retry
  dsimp only
  split_ifs with hconnect
  · obtain ⟨q, id, hq, hidle⟩ := h.idle.addTimer env 0 (now + 1000 * w.retryDelayMs) 0
    unfold Retries.runAfter
    dsimp only
    rw [hq]
    refine .some ⟨rfl, hidle, ?_, ?_, h.attempts_le⟩
    · rw [List.length_append, List.length_singleton]
      exact h.delays_append
    · rw [List.length_append, List.length_singleton]
      exact h.retryDelayMs_double
  · exact .some (h.with_connector _)

theorem Follows.connect (h : Follows n w c) (savedErrno : ℕ) :
    Option.Rel (Follows (n + 1)) (w.connect env now savedErrno) (c.connect savedErrno) := by
  obtain rfl := h.connector_eq
  have hcreate : Follows (n + 1) { w with
      connector.sockets := w.connector.sockets.create
      attempts := w.attempts + 1 } { w.connector with
      sockets := w.connector.sockets.create } :=
    { h with connector_eq := rfl, attempts_le := Nat.succ_le_succ h.attempts_le }
  unfold Retries.connect Connector.connect
  dsimp only
  split_ifs
  · exact Runs.rel_bind_some (fun c' => hcreate.with_connector c') _
  · exact hcreate.retry _
  · exact .some (hcreate.with_connector _)

theorem Follows.startInLoop (h : Follows n w c) (savedErrno : ℕ) :
    Option.Rel (Follows (n + 1)) (w.startInLoop env now savedErrno)
      (c.startInLoop savedErrno) := by
  obtain rfl := h.connector_eq
  unfold Retries.startInLoop Connector.startInLoop
  refine Runs.rel_bind_of_eq (fun _ => ?_) _
  split_ifs
  · exact h.connect savedErrno
  · exact .some (h.mono (Nat.le_succ n))

theorem Follows.start (h : Follows n w c) (savedErrno : ℕ) :
    Option.Rel (Follows (n + 1)) (w.start env now savedErrno) (c.start savedErrno) := by
  obtain rfl := h.connector_eq
  exact (h.with_connector _).startInLoop savedErrno

theorem Follows.restart (h : Follows n w c) (savedErrno : ℕ) :
    Option.Rel (Follows (n + 1)) (w.restart env now savedErrno) (c.restart savedErrno) := by
  obtain rfl := h.connector_eq
  have hreset : Follows n { w with
      connector.state := .kDisconnected
      retryDelayMs := kInitRetryDelayMs
      connector.connect_ := true
      delays := [] } { w.connector with state := .kDisconnected, connect_ := true } :=
    { h with connector_eq := rfl, delays_eq := rfl, retryDelayMs_eq := rfl }
  exact hreset.startInLoop savedErrno

theorem Follows.stop (h : Follows n w c) : Option.Rel (Follows n) (w.stop env now) c.stop := by
  obtain rfl := h.connector_eq
  unfold Retries.stop Connector.stop Retries.stopInLoop Connector.stopInLoop
  dsimp only
  split_ifs
  · refine Runs.rel_bind_of_eq (fun r => ?_) _
    exact (h.with_connector r.2).retry r.1
  · exact .some (h.with_connector _)

theorem Follows.handleError (h : Follows n w c) :
    Option.Rel (Follows n) (w.handleError env now) c.handleError := by
  obtain rfl := h.connector_eq
  unfold Retries.handleError Connector.handleError
  refine Runs.rel_bind_of_eq (fun _ => Runs.rel_bind_of_eq (fun r => ?_) _) _
  exact (h.with_connector r.2).retry r.1

theorem Follows.handleWrite (h : Follows n w c) (err : ℕ) (isSelfConnect : Bool) :
    Option.Rel (Follows n) (w.handleWrite env now err isSelfConnect)
      (c.handleWrite err isSelfConnect) := by
  obtain rfl := h.connector_eq
  unfold Retries.handleWrite Connector.handleWrite
  by_cases hstate : w.connector.state = .kConnecting
  · rw [if_pos hstate, if_pos hstate]
    split_ifs
    · exact Runs.rel_bind_of_eq (fun r => (h.with_connector (Prod.snd r)).retry r.1) _
    · exact Runs.rel_bind_of_eq (fun r => (h.with_connector (Prod.snd r)).retry r.1) _
    · refine Runs.rel_bind_of_eq (fun r => ?_) _
      dsimp only
      split_ifs
      · exact .some (h.with_connector _)
      · exact .some (h.with_connector _)
  · rw [if_neg hstate, if_neg hstate]
    exact Runs.rel_bind_of_eq (fun _ => .some h) _

theorem Follows.callback (h : Follows n w c) (err : ℕ) (isSelfConnect : Bool)
    (cb : Channel.Callback) : Option.Rel (Follows n)
      (Retries.callback env now err isSelfConnect w cb)
      (Connector.callback err isSelfConnect c cb) := by
  cases cb with
  | write => exact h.handleWrite err isSelfConnect
  | error => exact h.handleError
  | close | read => exact .some h

theorem Follows.handleEvent (h : Follows n w c) (revents : Int32) (err : ℕ)
    (isSelfConnect : Bool) : Option.Rel (Follows n)
      (w.step? env (.handleEvent now revents err isSelfConnect))
      (c.step? (.handleEvent revents err isSelfConnect)) := by
  obtain rfl := h.connector_eq
  unfold Retries.step? Connector.step?
  dsimp only
  split_ifs
  · exact Runs.rel_foldlM (fun _ _ h cb => h.callback err isSelfConnect cb) h _
  · exact .some h

theorem Follows.resetChannel (h : Follows n w c) :
    Option.Rel (Follows n) (w.step? env .resetChannel) (c.step? .resetChannel) := by
  obtain rfl := h.connector_eq
  exact Runs.rel_bind_some (fun c' => h.with_connector c') (w.connector.step? .resetChannel)

variable (env now) in
/-- The queue finds no timer expired, so `startInLoop` is not called. -/
theorem Follows.handleRead (h : Follows n w c) (savedErrno : ℕ) :
    ∃ w', w.handleRead env now savedErrno = some w' ∧ Follows n w' c := by
  have hnone : (∅ : Std.ExtTreeSet (ℤ × Addr) entryCompare).toList = [] :=
    Std.ExtTreeSet.toList_eq_nil_iff.2 rfl
  refine ⟨{ w with queue := { w.queue with
      cancelingTimers := ∅
      callingExpiredTimers := false } }, ?_, { h with
    idle := ⟨h.idle.timers, h.idle.activeTimers, rfl⟩ }⟩
  simp [Retries.handleRead, TimerQueue.getExpired, TimerQueue.reset, h.idle.timers, hnone]

/-! ### Runs -/

variable (env) in
/-- A step does to the connector what the step of `Connector` does, and `handleRead` of the queue
does nothing. -/
theorem Follows.step (h : Follows n w c) (e : Event) :
    Follows (n + if e.starts then 1 else 0) (w.step env e)
      (Runs.run Connector.step c e.connector.toList) := by
  cases e with
  | start now savedErrno =>
    exact Runs.rel_getD (h.start savedErrno) (h.mono (Nat.le_succ n))
  | stop now => exact Runs.rel_getD h.stop h
  | restart now savedErrno =>
    exact Runs.rel_getD (h.restart savedErrno) (h.mono (Nat.le_succ n))
  | handleEvent now revents err isSelfConnect =>
    exact Runs.rel_getD (h.handleEvent revents err isSelfConnect) h
  | resetChannel => exact Runs.rel_getD h.resetChannel h
  | handleRead now savedErrno =>
    obtain ⟨w', hw', h'⟩ := h.handleRead env now savedErrno
    show Follows n ((w.handleRead env now savedErrno).getD w) c
    rw [hw']
    exact h'

variable (env) in
theorem Follows.run (h : Follows n w c) (es : List Event) :
    Follows (n + es.countP Event.starts) (Runs.run (Retries.step env) w es)
      (Runs.run Connector.step c (es.filterMap Event.connector)) := by
  induction es generalizing n w c with
  | nil => exact h
  | cons e es ih =>
    have hrest := ih (h.step env e)
    rw [← Runs.run_append, Nat.add_assoc, Nat.add_comm _ (es.countP _), ← List.countP_cons]
      at hrest
    rw [Runs.run_cons, List.filterMap_cons]
    cases hconnector : e.connector with
    | none =>
      rw [hconnector] at hrest
      exact hrest
    | some ce =>
      rw [hconnector] at hrest
      exact hrest

end

end Retries

end Huaweip2p
