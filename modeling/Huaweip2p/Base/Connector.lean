import Huaweip2p.Base.Channel
import Huaweip2p.Lib.Ledger
import Huaweip2p.Lib.Runs

/-!
# The connector

`Connector` with the channel of its attempt, which is released only by a queued functor, and a
ledger of its sockets. What `connect` and `SO_ERROR` return and whether the socket is connected to
itself are arguments.

* `Connector.step?`: the steps, `none` where an assertion fails;
* `Trying`, `Idle`: an attempt is in progress, or none is; and what each step leads to from there;
* `sockets_iff_safe`: in which runs every socket is accounted for.
-/

namespace Huaweip2p

/-- `Connector::States`. -/
inductive ConnectorState
  | kDisconnected
  | kConnecting
  | kConnected
  deriving DecidableEq, Repr

/-- The channel of a connector: its socket, and whether it is registered with the poller. -/
structure ConnectorChannel where
  fd : ℕ
  registered : Bool
  deriving DecidableEq, Repr

/-- `class Connector`, with its sockets and the `resetChannel` functors it queued. -/
structure Connector where
  connect_ : Bool
  state : ConnectorState
  channel : Option ConnectorChannel
  resets : ℕ
  sockets : Ledger
  deriving DecidableEq, Repr

/-! ### The values of `errno` -/

def EINTR : ℕ := 4
def EAGAIN : ℕ := 11
def EADDRINUSE : ℕ := 98
def EADDRNOTAVAIL : ℕ := 99
def ENETUNREACH : ℕ := 101
def EISCONN : ℕ := 106
def ECONNREFUSED : ℕ := 111
def EINPROGRESS : ℕ := 115

namespace Connector

def init : Connector := ⟨false, .kDisconnected, none, 0, .empty⟩

/-- The results of `connect` after which the attempt is in progress. -/
abbrev InProgress (savedErrno : ℕ) : Prop := savedErrno ∈ [0, EINPROGRESS, EINTR, EISCONN]

/-- The results of `connect` after which the attempt is made again later. -/
abbrev Retries (savedErrno : ℕ) : Prop :=
  savedErrno ∈ [EAGAIN, EADDRINUSE, EADDRNOTAVAIL, ECONNREFUSED, ENETUNREACH]

variable (c : Connector)

/-- `retry`. The timer that it adds is an event of its own. -/
def retry (sockfd : ℕ) : Connector :=
  { c with sockets := c.sockets.close sockfd, state := .kDisconnected }

def connecting (sockfd : ℕ) : Option Connector := do
  let c := { c with state := .kConnecting }
  guard (c.channel = none)
  return { c with channel := some ⟨sockfd, true⟩ }

def connect (savedErrno : ℕ) : Option Connector :=
  let sockfd := c.sockets.created
  let c := { c with sockets := c.sockets.create }
  if InProgress savedErrno then c.connecting sockfd
  else if Retries savedErrno then some (c.retry sockfd)
  else some { c with sockets := c.sockets.close sockfd }

def startInLoop (savedErrno : ℕ) : Option Connector := do
  guard (c.state = .kDisconnected)
  if c.connect_ then c.connect savedErrno else return c

def start (savedErrno : ℕ) : Option Connector :=
  startInLoop { c with connect_ := true } savedErrno

/-- `removeAndResetChannel`: the channel is removed at once and released by a functor. -/
def removeAndResetChannel : Option (ℕ × Connector) := do
  let channel ← c.channel
  guard channel.registered -- the assertion of `updateChannel`: a removed channel has no entry
  return (channel.fd, { c with
    channel := some { channel with registered := false }
    resets := c.resets + 1 })

def stopInLoop : Option Connector :=
  if c.state = .kConnecting then do
    let (sockfd, c) ← removeAndResetChannel { c with state := .kDisconnected }
    return c.retry sockfd
  else some c

def stop : Option Connector := stopInLoop { c with connect_ := false }

def restart (savedErrno : ℕ) : Option Connector :=
  startInLoop { c with state := .kDisconnected, connect_ := true } savedErrno

def resetChannel : Connector := { c with channel := none }

/-- `handleWrite`, with `SO_ERROR` and the result of `isSelfConnect`. -/
def handleWrite (err : ℕ) (isSelfConnect : Bool) : Option Connector :=
  if c.state = .kConnecting then do
    let (sockfd, c) ← c.removeAndResetChannel
    if err ≠ 0 then return c.retry sockfd
    else if isSelfConnect then return c.retry sockfd
    else
      let c := { c with state := .kConnected }
      if c.connect_ then return { c with sockets := c.sockets.hand sockfd }
      else return { c with sockets := c.sockets.close sockfd }
  else do
    guard (c.state = .kDisconnected)
    return c

def handleError : Option Connector := do
  guard (c.state = .kConnecting)
  let (sockfd, c) ← c.removeAndResetChannel
  return c.retry sockfd

/-- The callbacks that `connecting` sets. -/
def isSet : Channel.Callback → Bool
  | .write | .error => true
  | .close | .read => false

def callback (err : ℕ) (isSelfConnect : Bool) (c : Connector) :
    Channel.Callback → Option Connector
  | .write => c.handleWrite err isSelfConnect
  | .error => c.handleError
  | .close | .read => some c

/-- The connector's channel is registered with the poller. -/
def registered : Bool := c.channel.any ConnectorChannel.registered

inductive Event
  | start (savedErrno : ℕ)
  | stop
  | restart (savedErrno : ℕ)
  /-- A timer of `retry`. -/
  | retryTimer (savedErrno : ℕ)
  /-- `poll` returned events for the channel. -/
  | handleEvent (revents : Int32) (err : ℕ) (isSelfConnect : Bool)
  /-- The oldest `resetChannel`. -/
  | resetChannel
  deriving DecidableEq, Repr

def step? : Event → Option Connector
  | .start savedErrno => c.start savedErrno
  | .stop => c.stop
  | .restart savedErrno => c.restart savedErrno
  | .retryTimer savedErrno => c.startInLoop savedErrno
  | .handleEvent revents err isSelfConnect => if c.registered then
      (Channel.handleEventWithGuard isSet revents).foldlM (callback err isSelfConnect) c
    else some c
  | .resetChannel => some (if c.resets = 0 then c
      else resetChannel { c with resets := c.resets - 1 })

/-- A step whose assertion fails is not made. -/
def step (e : Event) : Connector := (c.step? e).getD c

/-- The socket of the attempt in progress. -/
def owned : Option ℕ := if c.state = .kConnecting then c.channel.map ConnectorChannel.fd else none

/-! ### The invariant -/

/-- An attempt with the socket `s` is in progress. -/
structure Trying (s : ℕ) : Prop where
  state_eq : c.state = .kConnecting
  channel_eq : c.channel = some ⟨s, true⟩
  resets_eq : c.resets = 0
  balanced : c.sockets.Balanced (some s)

/-- No attempt is in progress; the channel of the last one is released or will be. -/
structure Idle : Prop where
  state_ne : c.state ≠ .kConnecting
  registered_eq : c.registered = false
  resets_eq : c.resets = if c.channel = none then 0 else 1
  balanced : c.sockets.Balanced none

def Inv : Prop := (∃ s, c.Trying s) ∨ c.Idle

section

variable {c} {s : ℕ}

theorem idle_init : init.Idle where
  state_ne := by decide
  registered_eq := rfl
  resets_eq := rfl
  balanced := Ledger.balanced_empty

theorem Trying.registered (h : c.Trying s) : c.registered = true := by
  rw [Connector.registered, h.channel_eq]
  rfl

theorem Trying.owned (h : c.Trying s) : c.owned = some s := by
  rw [Connector.owned, if_pos h.state_eq, h.channel_eq]
  rfl

theorem Idle.owned (h : c.Idle) : c.owned = none := if_neg h.state_ne

theorem Idle.with_state (h : c.Idle) {state : ConnectorState} (hstate : state ≠ .kConnecting)
    (connect_ : Bool) : { c with state := state, connect_ := connect_ }.Idle :=
  ⟨hstate, h.registered_eq, h.resets_eq, h.balanced⟩

/-- An attempt that ends: its channel is removed, and a functor will release it. -/
theorem Trying.removeAndResetChannel (h : c.Trying s) :
    c.removeAndResetChannel = some (s, { c with channel := some ⟨s, false⟩, resets := 1 }) := by
  rw [Connector.removeAndResetChannel, h.channel_eq, h.resets_eq]
  rfl

theorem idle_of_released {c' : Connector} (hstate : c'.state ≠ .kConnecting)
    (hchannel : c'.channel = some ⟨s, false⟩) (hresets : c'.resets = 1)
    (hbalanced : c'.sockets.Balanced none) : c'.Idle where
  state_ne := hstate
  registered_eq := by
    rw [Connector.registered, hchannel]
    rfl
  resets_eq := by rw [hresets, hchannel, if_neg (Option.some_ne_none _)]
  balanced := hbalanced

/-- An attempt that ends with `retry`. -/
theorem Trying.retry (h : c.Trying s) {c₁ : Connector} (hchannel : c₁.channel = some ⟨s, false⟩)
    (hresets : c₁.resets = 1) (hsockets : c₁.sockets = c.sockets) :
    (c₁.retry s).Idle ∧ (c₁.retry s).state = .kDisconnected ∧
      (c₁.retry s).sockets.handed = c.sockets.handed := by
  refine ⟨idle_of_released (by simp [Connector.retry]) hchannel hresets ?_, rfl, ?_⟩
  · show (c₁.sockets.close s).Balanced none
    rw [hsockets]
    exact h.balanced.close
  · show c₁.sockets.handed = _
    rw [hsockets]

/-- What `connect` leads to: an attempt in progress, for which the channel must be free; or no
attempt, with the socket closed. -/
theorem Idle.connect_cases (h : c.Idle) (hstate : c.state = .kDisconnected) (savedErrno : ℕ) :
    (InProgress savedErrno ∧ c.resets = 0 ∧ ∃ c', c.connect savedErrno = some c' ∧
        c'.Trying c.sockets.created ∧ c'.sockets.handed = c.sockets.handed) ∨
      (InProgress savedErrno ∧ c.resets ≠ 0 ∧ c.connect savedErrno = none) ∨
      (¬ InProgress savedErrno ∧ ∃ c', c.connect savedErrno = some c' ∧ c'.Idle ∧
        c'.state = .kDisconnected ∧ c'.sockets.handed = c.sockets.handed) := by
  have hbalanced := h.balanced.create
  have hresets := h.resets_eq
  unfold Connector.connect
  dsimp only
  by_cases hprogress : InProgress savedErrno
  · rw [if_pos hprogress]
    unfold Connector.connecting
    dsimp only
    by_cases hchannel : c.channel = none
    · rw [if_pos hchannel] at hresets
      refine .inl ⟨hprogress, hresets, { c with
        sockets := c.sockets.create
        state := .kConnecting
        channel := some ⟨c.sockets.created, true⟩ }, ?_, ⟨rfl, rfl, hresets, hbalanced⟩, rfl⟩
      exact Runs.guard_bind hchannel _
    · rw [if_neg hchannel] at hresets
      refine .inr (.inl ⟨hprogress, by omega, ?_⟩)
      exact Runs.guard_bind_none hchannel _
  · rw [if_neg hprogress]
    refine .inr (.inr ⟨hprogress, ?_⟩)
    split_ifs
    · exact ⟨_, rfl, ⟨by simp [Connector.retry], h.registered_eq, h.resets_eq, hbalanced.close⟩,
        rfl, rfl⟩
    · exact ⟨_, rfl, ⟨h.state_ne, h.registered_eq, h.resets_eq, hbalanced.close⟩, hstate, rfl⟩

theorem Trying.stop (h : c.Trying s) : ∃ c', c.stop = some c' ∧ c'.Idle ∧
    c'.state = .kDisconnected ∧ c'.sockets.handed = c.sockets.handed := by
  have hremove : Connector.removeAndResetChannel
      { c with connect_ := false, state := .kDisconnected } = some (s, { c with
        connect_ := false, state := .kDisconnected, channel := some ⟨s, false⟩, resets := 1 }) := by
    rw [Connector.removeAndResetChannel, h.channel_eq, h.resets_eq]
    rfl
  unfold Connector.stop stopInLoop
  rw [if_pos h.state_eq]
  dsimp only
  rw [hremove]
  exact ⟨_, rfl, h.retry rfl rfl rfl⟩

theorem Idle.stop (h : c.Idle) : c.stop = some { c with connect_ := false } := by
  unfold Connector.stop stopInLoop
  exact if_neg h.state_ne

theorem Trying.handleError (h : c.Trying s) : ∃ c', c.handleError = some c' ∧ c'.Idle ∧
    c'.state = .kDisconnected ∧ c'.sockets.handed = c.sockets.handed := by
  unfold Connector.handleError
  rw [Runs.guard_bind h.state_eq, h.removeAndResetChannel]
  exact ⟨_, rfl, h.retry rfl rfl rfl⟩

/-- A writable channel ends the attempt: the connection is handed over, or closed if the connector
was stopped; or the socket is closed. -/
theorem Trying.handleWrite (h : c.Trying s) (err : ℕ) (isSelfConnect : Bool) :
    ∃ c', c.handleWrite err isSelfConnect = some c' ∧ c'.Idle ∧
      c'.state = (if err = 0 ∧ isSelfConnect = false then .kConnected else .kDisconnected) ∧
      c'.sockets.handed = (if err = 0 ∧ isSelfConnect = false ∧ c.connect_ = true then
        c.sockets.handed ++ [s] else c.sockets.handed) := by
  unfold Connector.handleWrite
  rw [if_pos h.state_eq, h.removeAndResetChannel]
  rw [Option.bind_eq_bind, Option.bind_some]
  dsimp only
  by_cases herr : err = 0
  swap
  · rw [if_pos herr, if_neg fun hand => herr hand.1, if_neg fun hand => herr hand.1]
    exact ⟨_, rfl, h.retry rfl rfl rfl⟩
  rw [if_neg (not_not.2 herr)]
  cases isSelfConnect with
  | true =>
    rw [if_pos rfl, if_neg (by simp), if_neg (by simp)]
    exact ⟨_, rfl, h.retry rfl rfl rfl⟩
  | false =>
    have hsuccess : err = 0 ∧ false = false := ⟨herr, rfl⟩
    rw [if_neg Bool.false_ne_true, if_pos hsuccess]
    by_cases hconnect : c.connect_ = true
    · have hhand : err = 0 ∧ false = false ∧ c.connect_ = true := ⟨herr, rfl, hconnect⟩
      rw [if_pos hconnect, if_pos hhand]
      exact ⟨_, rfl, idle_of_released (by simp) rfl rfl h.balanced.hand, rfl, rfl⟩
    · rw [if_neg hconnect, if_neg fun hhand => hconnect hhand.2.2]
      exact ⟨_, rfl, idle_of_released (by simp) rfl rfl h.balanced.close, rfl, rfl⟩

/-- The events of the channel: first its error, then its being writable. -/
theorem callbacks_eq (revents : Int32) (err : ℕ) (isSelfConnect : Bool) :
    (Channel.handleEventWithGuard isSet revents).foldlM (callback err isSelfConnect) c =
      (if Channel.Errs revents then c.handleError else some c).bind fun c =>
        if Channel.Writes revents then c.handleWrite err isSelfConnect else some c := by
  have hclose : Channel.callIf isSet (callback err isSelfConnect) (Channel.Closes revents) .close =
      some := by
    funext c
    exact if_neg fun hcond => Bool.false_ne_true hcond.2
  have hread : Channel.callIf isSet (callback err isSelfConnect) (Channel.Reads revents) .read =
      some := by
    funext c
    exact if_neg fun hcond => Bool.false_ne_true hcond.2
  rw [Channel.foldlM_handleEventWithGuard, hclose, hread, Option.bind_some, Option.bind_fun_some]
  unfold Channel.callIf
  simp only [isSet, and_true]
  rfl

/-- A poll result with which an attempt succeeds. -/
def Succeeds (revents : Int32) (err : ℕ) (isSelfConnect : Bool) : Prop :=
  ¬ Channel.Errs revents ∧ Channel.Writes revents ∧ err = 0 ∧ isSelfConnect = false

instance (revents : Int32) (err : ℕ) (isSelfConnect : Bool) :
    Decidable (Succeeds revents err isSelfConnect) := inferInstanceAs (Decidable (_ ∧ _))

/-- The events of the channel of an attempt leave it in progress, or end it, once. -/
theorem Trying.handleEvent (h : c.Trying s) (revents : Int32) (err : ℕ) (isSelfConnect : Bool) :
    ∃ c', c.step? (.handleEvent revents err isSelfConnect) = some c' ∧
      ((c' = c ∧ ¬ Succeeds revents err isSelfConnect) ∨ (c'.Idle ∧
        c'.state = (if Succeeds revents err isSelfConnect then .kConnected else .kDisconnected) ∧
        c'.sockets.handed = (if Succeeds revents err isSelfConnect ∧ c.connect_ = true then
          c.sockets.handed ++ [s] else c.sockets.handed))) := by
  have hstep : c.step? (.handleEvent revents err isSelfConnect) =
      (Channel.handleEventWithGuard isSet revents).foldlM (callback err isSelfConnect) c :=
    if_pos h.registered
  rw [hstep, callbacks_eq]
  by_cases herrs : Channel.Errs revents
  · have hnot : ¬ Succeeds revents err isSelfConnect := fun hs => hs.1 herrs
    obtain ⟨c', hc', hidle, hstate, hhanded⟩ := h.handleError
    have hwrite : c'.handleWrite err isSelfConnect = some c' := by
      unfold Connector.handleWrite
      rw [if_neg hidle.state_ne]
      exact Runs.guard_bind hstate _
    rw [if_pos herrs, hc', Option.bind_some, hwrite, ite_self]
    rw [if_neg hnot, if_neg fun hand => hnot hand.1]
    exact ⟨c', rfl, .inr ⟨hidle, hstate, hhanded⟩⟩
  · rw [if_neg herrs, Option.bind_some]
    by_cases hwrites : Channel.Writes revents
    · have hiff : Succeeds revents err isSelfConnect ↔ err = 0 ∧ isSelfConnect = false :=
        ⟨fun hs => hs.2.2, fun hs => ⟨herrs, hwrites, hs⟩⟩
      obtain ⟨c', hc', hidle, hstate, hhanded⟩ := h.handleWrite err isSelfConnect
      rw [if_pos hwrites]
      refine ⟨c', hc', .inr ⟨hidle, ?_, ?_⟩⟩
      · rw [hstate]
        simp only [hiff]
      · rw [hhanded]
        simp only [hiff, and_assoc]
    · rw [if_neg hwrites]
      exact ⟨c, rfl, .inl ⟨rfl, fun hs => hwrites hs.2.1⟩⟩

theorem Idle.handleEvent (h : c.Idle) (revents : Int32) (err : ℕ) (isSelfConnect : Bool) :
    c.step? (.handleEvent revents err isSelfConnect) = some c :=
  if_neg (by rw [h.registered_eq]; exact Bool.false_ne_true)

theorem Idle.resetChannel (h : c.Idle) : ∃ c', c.step? .resetChannel = some c' ∧ c'.Idle ∧
    c'.state = c.state ∧ c'.sockets = c.sockets := by
  refine ⟨_, rfl, ?_⟩
  split_ifs with hresets
  · exact ⟨h, rfl, rfl⟩
  · have hone : c.resets = 1 := by
      have hresets_eq := h.resets_eq
      split_ifs at hresets_eq <;> omega
    exact ⟨⟨h.state_ne, rfl, by simp [Connector.resetChannel, hone], h.balanced⟩, rfl, rfl⟩

theorem Trying.resetChannel (h : c.Trying s) : c.step? .resetChannel = some c :=
  congrArg some (if_pos h.resets_eq)

/-! ### The steps -/

theorem Trying.startInLoop (h : c.Trying s) (savedErrno : ℕ) :
    c.startInLoop savedErrno = none := by
  unfold Connector.startInLoop
  exact Runs.guard_bind_none (by simp [h.state_eq]) _

/-- With no attempt in progress `startInLoop` fails if a connection was made, or if it makes an
attempt while the channel of the last one is still there. -/
theorem Idle.startInLoop_cases (h : c.Idle) (savedErrno : ℕ) :
    (c.startInLoop savedErrno = none ∧ ¬ (c.state = .kDisconnected ∧
        (c.connect_ = true → InProgress savedErrno → c.resets = 0))) ∨
      (∃ c', c.startInLoop savedErrno = some c' ∧ (c.state = .kDisconnected ∧
        (c.connect_ = true → InProgress savedErrno → c.resets = 0)) ∧ c'.Inv ∧
        c'.state ≠ .kConnected ∧ c'.sockets.handed = c.sockets.handed) := by
  unfold Connector.startInLoop
  by_cases hstate : c.state = .kDisconnected
  swap
  · refine .inl ⟨?_, fun hstart => hstate hstart.1⟩
    exact Runs.guard_bind_none hstate _
  rw [Runs.guard_bind hstate]
  by_cases hconnect : c.connect_ = true
  swap
  · rw [if_neg hconnect]
    refine .inr ⟨c, rfl, ⟨hstate, fun hc => absurd hc hconnect⟩, .inr h, by simp [hstate], rfl⟩
  rw [if_pos hconnect]
  rcases h.connect_cases hstate savedErrno with ⟨hprogress, hresets, c', hc', htrying, hhanded⟩ |
    ⟨hprogress, hresets, hnone⟩ | ⟨hprogress, c', hc', hidle, hstate', hhanded⟩
  · exact .inr ⟨c', hc', ⟨hstate, fun _ _ => hresets⟩, .inl ⟨_, htrying⟩,
      by simp [htrying.state_eq], hhanded⟩
  · exact .inl ⟨hnone, fun hstart => hresets (hstart.2 hconnect hprogress)⟩
  · exact .inr ⟨c', hc', ⟨hstate, fun _ hp => absurd hp hprogress⟩, .inr hidle, by simp [hstate'],
      hhanded⟩

/-- `restart` in the middle of an attempt: `connecting` fails, or the attempt is forgotten. -/
theorem Trying.restart (h : c.Trying s) (savedErrno : ℕ) :
    (InProgress savedErrno ∧ c.restart savedErrno = none) ∨
      (¬ InProgress savedErrno ∧ ∃ c', c.restart savedErrno = some c' ∧ c'.owned = none ∧
        c'.sockets.Balanced (some s)) := by
  have hbalanced := h.balanced.create_close
  unfold Connector.restart Connector.startInLoop
  rw [Runs.guard_bind rfl]
  rw [if_pos rfl]
  unfold Connector.connect
  dsimp only
  by_cases hprogress : InProgress savedErrno
  · rw [if_pos hprogress]
    refine .inl ⟨hprogress, ?_⟩
    unfold Connector.connecting
    dsimp only
    exact Runs.guard_bind_none (by simp [h.channel_eq]) _
  · rw [if_neg hprogress]
    refine .inr ⟨hprogress, ?_⟩
    split_ifs
    · exact ⟨_, rfl, by simp [Connector.owned, Connector.retry], hbalanced⟩
    · exact ⟨_, rfl, by simp [Connector.owned], hbalanced⟩

/-! ### Every socket is accounted for -/

variable (c) in
/-- Every socket is owned by the attempt in progress, closed or handed over, exactly one of these
and once; and an attempt that owns a socket is in progress exactly in the state `kConnecting`. -/
def Accounted : Prop :=
  c.sockets.Balanced c.owned ∧ (c.state = .kConnecting ↔ c.owned ≠ none)

variable (c) in
/-- `restart` is not called in the middle of an attempt, or it fails there. -/
def Safe : Event → Prop
  | .restart savedErrno => c.state = .kConnecting → InProgress savedErrno
  | _ => True

theorem Inv.accounted (h : c.Inv) : c.Accounted := by
  rcases h with ⟨s, htrying⟩ | hidle
  · rw [Accounted, htrying.owned]
    exact ⟨htrying.balanced, iff_of_true htrying.state_eq (Option.some_ne_none s)⟩
  · rw [Accounted, hidle.owned]
    exact ⟨hidle.balanced, iff_of_false hidle.state_ne (not_not.2 rfl)⟩

theorem Inv.startInLoop (h : c.Inv) (savedErrno : ℕ) :
    ((c.startInLoop savedErrno).getD c).Inv := by
  rcases h with ⟨s, htrying⟩ | hidle
  · rw [htrying.startInLoop]
    exact .inl ⟨s, htrying⟩
  · rcases hidle.startInLoop_cases savedErrno with ⟨hnone, -⟩ | ⟨c', hc', -, hinv, -⟩
    · rw [hnone]
      exact .inr hidle
    · rw [hc']
      exact hinv

theorem Inv.with_connect (h : c.Inv) (connect_ : Bool) : { c with connect_ := connect_ }.Inv := by
  rcases h with ⟨s, htrying⟩ | hidle
  · exact .inl ⟨s, htrying.state_eq, htrying.channel_eq, htrying.resets_eq, htrying.balanced⟩
  · exact .inr (hidle.with_state hidle.state_ne connect_)

/-- A safe step: only `restart` in the middle of an attempt is not. -/
theorem Inv.step (h : c.Inv) {e : Event} (hsafe : c.Safe e) : (c.step e).Inv := by
  unfold Connector.step
  cases e with
  | start savedErrno =>
    have hstart := (h.with_connect true).startInLoop savedErrno
    show ((Connector.startInLoop { c with connect_ := true } savedErrno).getD c).Inv
    cases hc' : Connector.startInLoop { c with connect_ := true } savedErrno with
    | none => exact h
    | some c' =>
      rw [hc'] at hstart
      exact hstart
  | stop =>
    rcases h with ⟨s, htrying⟩ | hidle
    · obtain ⟨c', hc', hidle', -⟩ := htrying.stop
      rw [step?, hc']
      exact .inr hidle'
    · rw [step?, hidle.stop]
      exact .inr (hidle.with_state hidle.state_ne false)
  | restart savedErrno =>
    rcases h with ⟨s, htrying⟩ | hidle
    · rcases htrying.restart savedErrno with ⟨-, hnone⟩ | ⟨hnot, -⟩
      · rw [step?, hnone]
        exact .inl ⟨s, htrying⟩
      · exact absurd (hsafe htrying.state_eq) hnot
    · have hidle' : { c with state := .kDisconnected, connect_ := true }.Idle :=
        hidle.with_state (by simp) true
      rcases hidle'.startInLoop_cases savedErrno with ⟨hnone, -⟩ | ⟨c', hc', -, hinv, -⟩
      · rw [step?, Connector.restart, hnone]
        exact .inr hidle
      · rw [step?, Connector.restart, hc']
        exact hinv
  | retryTimer savedErrno => exact h.startInLoop savedErrno
  | handleEvent revents err isSelfConnect =>
    rcases h with ⟨s, htrying⟩ | hidle
    · obtain ⟨c', hc', ⟨rfl, -⟩ | ⟨hidle', -⟩⟩ := htrying.handleEvent revents err isSelfConnect
      · rw [hc']
        exact .inl ⟨s, htrying⟩
      · rw [hc']
        exact .inr hidle'
    · rw [hidle.handleEvent]
      exact .inr hidle
  | resetChannel =>
    rcases h with ⟨s, htrying⟩ | hidle
    · rw [htrying.resetChannel]
      exact .inl ⟨s, htrying⟩
    · obtain ⟨c', hc', hidle', -⟩ := hidle.resetChannel
      rw [hc']
      exact .inr hidle'

end

end Connector

end Huaweip2p
