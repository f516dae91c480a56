import Huaweip2p.Base.Connector

/-!
# Reconnecting

A connector as `TcpClient` uses it: `start` and `stop` are called from outside, `restart` by
`removeConnection` when a connection that was handed over closes.

* `Reconnecting.step?`: the steps, `none` where an assertion of the connector fails;
* `Inv.restart_state`: `restart` is never called in the middle of an attempt;
* `assertions_iff_safe`: in which runs no assertion fails.
-/

namespace Huaweip2p

/-- A connector and the connections it handed over, which close one after the other. -/
structure Reconnecting where
  connector : Connector
  /-- An attempt succeeded, and there was no restart since. -/
  succeeded : Bool
  /-- How many of the connections closed. -/
  down : ℕ
  deriving DecidableEq, Repr

namespace Reconnecting

open Connector (InProgress Succeeds)

def init : Reconnecting := ⟨.init, false, 0⟩

variable (r : Reconnecting)

inductive Event
  | start (savedErrno : ℕ)
  | stop
  /-- A timer of `retry`. -/
  | retryTimer (savedErrno : ℕ)
  | handleEvent (revents : Int32) (err : ℕ) (isSelfConnect : Bool)
  | resetChannel
  /-- A connection that was handed over closes; where `TcpClient` has `retry_` and `connect_` set,
  it calls `restart`. -/
  | removeConnection (restart : Option ℕ)
  deriving DecidableEq, Repr

/-- One of the connections that were handed over is not closed. -/
abbrev IsOpen : Prop := r.down < r.connector.sockets.handed.length

/-- The steps that are not `removeConnection`, with what they do to `succeeded`. -/
def connectorStep (e : Connector.Event) (succeeded : Bool) : Option Reconnecting := do
  let connector ← r.connector.step? e
  return { r with connector := connector, succeeded := succeeded }

def step? : Event → Option Reconnecting
  | .start savedErrno => r.connectorStep (.start savedErrno) r.succeeded
  | .stop => r.connectorStep .stop r.succeeded
  | .retryTimer savedErrno => r.connectorStep (.retryTimer savedErrno) r.succeeded
  | .handleEvent revents err isSelfConnect =>
      r.connectorStep (.handleEvent revents err isSelfConnect)
        (r.succeeded || r.connector.registered && decide (Succeeds revents err isSelfConnect))
  | .resetChannel => r.connectorStep .resetChannel r.succeeded
  | .removeConnection restart => if r.IsOpen then
      let r := { r with down := r.down + 1 }
      match restart with
      | none => some r
      | some savedErrno => r.connectorStep (.restart savedErrno) false
    else some r

def step (e : Event) : Reconnecting := (r.step? e).getD r

/-- No attempt is in progress, and none succeeded since the last restart. -/
def Fresh : Prop := r.connector.registered = false ∧ r.succeeded = false

/-- `start` and the timers come when the client is fresh; and where they or `restart` make an
attempt that goes on, no `resetChannel` is queued. -/
def Safe : Event → Prop
  | .start savedErrno => r.Fresh ∧ (InProgress savedErrno → r.connector.resets = 0)
  | .retryTimer savedErrno => r.Fresh ∧
      (r.connector.connect_ = true → InProgress savedErrno → r.connector.resets = 0)
  | .removeConnection (some savedErrno) =>
      r.IsOpen → InProgress savedErrno → r.connector.resets = 0
  | _ => True

/-- The connector agrees with what succeeded, and at most one connection is open. -/
structure Inv : Prop where
  connector : r.connector.Inv
  state_iff : r.connector.state = .kConnected ↔ r.succeeded = true
  down_le : r.down ≤ r.connector.sockets.handed.length
  le_down : r.connector.sockets.handed.length ≤ r.down + 1
  open_succeeded : r.IsOpen → r.succeeded = true

section

variable {r}

theorem inv_init : init.Inv where
  connector := .inr Connector.idle_init
  state_iff := by decide
  down_le := le_refl 0
  le_down := Nat.zero_le _
  open_succeeded h := absurd h (Nat.lt_irrefl 0)

/-- `restart` finds the state `kConnected`. -/
theorem Inv.restart_state (h : r.Inv) (hopen : r.IsOpen) : r.connector.state = .kConnected :=
  h.state_iff.2 (h.open_succeeded hopen)

/-- A step of the connector that hands nothing over. -/
theorem Inv.with_connector (h : r.Inv) {c : Connector} (hinv : c.Inv)
    (hstate : c.state = .kConnected ↔ r.succeeded = true)
    (hhanded : c.sockets.handed = r.connector.sockets.handed) : { r with connector := c }.Inv where
  connector := hinv
  state_iff := hstate
  down_le := by rw [hhanded]; exact h.down_le
  le_down := by rw [hhanded]; exact h.le_down
  open_succeeded hopen := by
    rw [IsOpen, hhanded] at hopen
    exact h.open_succeeded hopen

theorem Inv.startInLoop_cases (h : r.Inv) (connect_ : Bool) (savedErrno : ℕ) :
    (Connector.startInLoop { r.connector with connect_ := connect_ } savedErrno = none ∧
        ¬ (r.Fresh ∧ (connect_ = true → InProgress savedErrno → r.connector.resets = 0))) ∨
      (∃ c, Connector.startInLoop { r.connector with connect_ := connect_ } savedErrno = some c ∧
        (r.Fresh ∧ (connect_ = true → InProgress savedErrno → r.connector.resets = 0)) ∧
        { r with connector := c }.Inv) := by
  rcases h.connector.with_connect connect_ with ⟨s, htrying⟩ | hidle
  · refine .inl ⟨htrying.startInLoop savedErrno, fun hsafe => ?_⟩
    have hregistered : r.connector.registered = true := htrying.registered
    exact Bool.false_ne_true (hsafe.1.1.symm.trans hregistered)
  · have hfresh : r.connector.state = .kDisconnected ↔ r.Fresh := by
      have hne : r.connector.state ≠ .kConnecting := hidle.state_ne
      have hiff := h.state_iff
      constructor
      · intro hstate
        refine ⟨hidle.registered_eq, ?_⟩
        simpa [hstate] using hiff
      · rintro ⟨-, hsucceeded⟩
        cases hstate : r.connector.state with
        | kDisconnected => rfl
        | kConnecting => exact absurd hstate hne
        | kConnected => simp [hstate, hsucceeded] at hiff
    rcases hidle.startInLoop_cases savedErrno with ⟨hnone, hnot⟩ |
      ⟨c, hc, ⟨hstate, hresets⟩, hinv, hne, hhanded⟩
    · exact .inl ⟨hnone, fun hsafe => hnot ⟨hfresh.2 hsafe.1, hsafe.2⟩⟩
    · refine .inr ⟨c, hc, ⟨hfresh.1 hstate, hresets⟩, h.with_connector hinv ?_ hhanded⟩
      rw [(hfresh.1 hstate).2]
      exact iff_of_false hne Bool.false_ne_true

theorem connectorStep_eq (r : Reconnecting) (e : Connector.Event) {c : Connector}
    (hc : r.connector.step? e = some c) (succeeded : Bool) :
    r.connectorStep e succeeded = some { r with connector := c, succeeded := succeeded } := by
  rw [connectorStep, hc]
  rfl

theorem connectorStep_none (r : Reconnecting) (e : Connector.Event)
    (hc : r.connector.step? e = none) (succeeded : Bool) : r.connectorStep e succeeded = none := by
  rw [connectorStep, hc]
  rfl

theorem Inv.stop (h : r.Inv) : ∃ r', r.step? .stop = some r' ∧ r'.Inv := by
  rcases h.connector with ⟨s, htrying⟩ | hidle
  · obtain ⟨c, hc, hidle, hstate, hhanded⟩ := htrying.stop
    refine ⟨_, r.connectorStep_eq .stop hc _, h.with_connector (.inr hidle) ?_ hhanded⟩
    rw [← h.state_iff, hstate, htrying.state_eq]
    exact iff_of_false (by simp) (by simp)
  · exact ⟨_, r.connectorStep_eq .stop hidle.stop _,
      h.with_connector (.inr (hidle.with_state hidle.state_ne false)) h.state_iff rfl⟩

theorem Inv.resetChannel (h : r.Inv) : ∃ r', r.step? .resetChannel = some r' ∧ r'.Inv := by
  rcases h.connector with ⟨s, htrying⟩ | hidle
  · exact ⟨_, r.connectorStep_eq .resetChannel htrying.resetChannel _, h⟩
  · obtain ⟨c, hc, hidle, hstate, hsockets⟩ := hidle.resetChannel
    refine ⟨_, r.connectorStep_eq .resetChannel hc _, h.with_connector (.inr hidle) ?_ ?_⟩
    · rw [hstate, h.state_iff]
    · rw [hsockets]

/-- An attempt that succeeds comes after every connection that was handed over has closed. -/
theorem Inv.handleEvent (h : r.Inv) (revents : Int32) (err : ℕ) (isSelfConnect : Bool) :
    ∃ r', r.step? (.handleEvent revents err isSelfConnect) = some r' ∧ r'.Inv := by
  unfold Reconnecting.step?
  dsimp only
  rcases h.connector with ⟨s, htrying⟩ | hidle
  · have hnot : r.succeeded = false := by
      have hiff := h.state_iff
      simpa [htrying.state_eq] using hiff
    have hclosed : ¬ r.IsOpen := fun hopen =>
      Bool.false_ne_true (hnot.symm.trans (h.open_succeeded hopen))
    have hdown : r.down = r.connector.sockets.handed.length :=
      Nat.le_antisymm h.down_le (not_lt.1 hclosed)
    obtain ⟨c, hc, hcases⟩ := htrying.handleEvent revents err isSelfConnect
    rw [htrying.registered, hnot, Bool.true_and, Bool.false_or]
    refine ⟨_, r.connectorStep_eq _ hc _, ?_⟩
    rcases hcases with ⟨rfl, hfails⟩ | ⟨hidle, hstate, hhanded⟩
    · rw [decide_eq_false hfails, ← hnot]
      exact h
    · by_cases hsucceeds : Succeeds revents err isSelfConnect
      · rw [if_pos hsucceeds] at hstate
        rw [decide_eq_true hsucceeds]
        have hlength : r.connector.sockets.handed.length ≤ c.sockets.handed.length ∧
            c.sockets.handed.length ≤ r.connector.sockets.handed.length + 1 := by
          rw [hhanded]
          split_ifs
          · simp
          · simp
        exact ⟨.inr hidle, iff_of_true hstate rfl, hdown.trans_le hlength.1,
          hlength.2.trans_eq (congrArg (· + 1) hdown.symm), fun _ => rfl⟩
      · rw [if_neg hsucceeds] at hstate
        rw [if_neg fun hhand => hsucceeds hhand.1] at hhanded
        rw [decide_eq_false hsucceeds, ← hnot]
        refine h.with_connector (.inr hidle) ?_ hhanded
        rw [hstate, hnot]
        exact iff_of_false (by simp) Bool.false_ne_true
  · rw [hidle.registered_eq, Bool.false_and, Bool.or_false]
    exact ⟨_, r.connectorStep_eq _ (hidle.handleEvent revents err isSelfConnect) _, h⟩

theorem Inv.removeConnection_cases (h : r.Inv) (restart : Option ℕ) :
    (∃ r', r.step? (.removeConnection restart) = some r' ∧ r'.Inv ∧
        r.Safe (.removeConnection restart)) ∨
      (r.step? (.removeConnection restart) = none ∧ ¬ r.Safe (.removeConnection restart)) := by
  unfold Reconnecting.step?
  dsimp only
  by_cases hopen : r.IsOpen
  swap
  · rw [if_neg hopen]
    refine .inl ⟨r, rfl, h, ?_⟩
    cases restart with
    | none => trivial
    | some savedErrno => exact fun hopen' => absurd hopen' hopen
  have hclosed : ¬ r.down + 1 < r.connector.sockets.handed.length := not_lt.2 h.le_down
  have hdown : { r with down := r.down + 1 }.Inv := ⟨h.connector, h.state_iff,
    hopen, h.le_down.trans (Nat.le_succ _), fun hopen' => absurd hopen' hclosed⟩
  rw [if_pos hopen]
  cases restart with
  | none => exact .inl ⟨_, rfl, hdown, trivial⟩
  | some savedErrno =>
    dsimp only
    -- No attempt is in progress, and `restart` sets the state to `kDisconnected`.
    have hidle : r.connector.Idle := by
      rcases h.connector with ⟨s, htrying⟩ | hidle
      · exact absurd ((h.restart_state hopen).symm.trans htrying.state_eq) (by simp)
      · exact hidle
    have hdisconnected : ConnectorState.kDisconnected ≠ .kConnecting := by simp
    have hidle' := hidle.with_state hdisconnected true
    rcases hidle'.startInLoop_cases savedErrno with ⟨hnone, hnot⟩ |
      ⟨c, hc, ⟨-, hresets⟩, hinv, hne, hhanded⟩
    · exact .inr ⟨connectorStep_none { r with down := r.down + 1 } (.restart savedErrno) hnone _,
        fun hsafe => hnot ⟨rfl, fun _ hprogress => hsafe hopen hprogress⟩⟩
    · refine .inl ⟨_, connectorStep_eq { r with down := r.down + 1 } (.restart savedErrno) hc _, ?_,
        fun _ hprogress => hresets rfl hprogress⟩
      exact ⟨hinv, iff_of_false hne Bool.false_ne_true, hhanded ▸ hdown.down_le,
        hhanded ▸ hdown.le_down, fun hopen' => absurd (hhanded ▸ hopen') hclosed⟩

/-- Every step is carried out if it is safe, and fails if not. -/
theorem Inv.step?_cases (h : r.Inv) (e : Event) :
    (∃ r', r.step? e = some r' ∧ r'.Inv ∧ r.Safe e) ∨ (r.step? e = none ∧ ¬ r.Safe e) := by
  cases e with
  | start savedErrno =>
    rcases h.startInLoop_cases true savedErrno with ⟨hnone, hnot⟩ | ⟨c, hc, hsafe, hinv⟩
    · exact .inr ⟨r.connectorStep_none (.start savedErrno) hnone _,
        fun hsafe => hnot ⟨hsafe.1, fun _ => hsafe.2⟩⟩
    · exact .inl ⟨_, r.connectorStep_eq (.start savedErrno) hc _, hinv, hsafe.1, hsafe.2 rfl⟩
  | stop =>
    obtain ⟨r', hr', hinv⟩ := h.stop
    exact .inl ⟨r', hr', hinv, trivial⟩
  | retryTimer savedErrno =>
    rcases h.startInLoop_cases r.connector.connect_ savedErrno with ⟨hnone, hnot⟩ |
      ⟨c, hc, hsafe, hinv⟩
    · exact .inr ⟨r.connectorStep_none (.retryTimer savedErrno) hnone _, hnot⟩
    · exact .inl ⟨_, r.connectorStep_eq (.retryTimer savedErrno) hc _, hinv, hsafe⟩
  | handleEvent revents err isSelfConnect =>
    obtain ⟨r', hr', hinv⟩ := h.handleEvent revents err isSelfConnect
    exact .inl ⟨r', hr', hinv, trivial⟩
  | resetChannel =>
    obtain ⟨r', hr', hinv⟩ := h.resetChannel
    exact .inl ⟨r', hr', hinv, trivial⟩
  | removeConnection restart => exact h.removeConnection_cases restart

end

/-- In a run of a connector and its connections no assertion fails, exactly when every step is
safe. -/
theorem assertions_iff_safe (es : List Event) :
    Runs.EveryStep step (fun r e _ => (r.step? e).isSome) init es ↔
      Runs.EveryStep step (fun r e _ => r.Safe e) init es := by
  apply Runs.everyStep_getD_iff (I := fun r : Reconnecting => r.Inv)
  · intro r e h
    rcases h.step?_cases e with ⟨r', hr', hinv, hsafe⟩ | ⟨hr', hnot⟩
    · exact .inl ⟨r', hr', hinv, by simp [hr'], hsafe⟩
    · exact .inr ⟨hr', by simp [hr'], hnot⟩
  · exact inv_init

/-- Two runs that fail: `start` after `stop` while the channel of the first attempt is still there,
and `start` twice. -/
theorem assertions_fail :
    (¬ Runs.EveryStep step (fun r e _ => (r.step? e).isSome) init
        [.start EINPROGRESS, .stop, .start EINPROGRESS]) ∧
      ¬ Runs.EveryStep step (fun r e _ => (r.step? e).isSome) init
        [.start EINPROGRESS, .start EINPROGRESS] := by
  constructor
  · intro h
    have hsome := h [.start EINPROGRESS, .stop] (.start EINPROGRESS) [] rfl
    exact absurd hsome (by decide)
  · intro h
    have hsome := h [.start EINPROGRESS] (.start EINPROGRESS) [] rfl
    exact absurd hsome (by decide)

end Reconnecting

end Huaweip2p
