import Huaweip2p.Base.Channel
import Huaweip2p.Lib.Runs
import Huaweip2p.Lib.WorkQueues

/-!
# The connections of a server

`TcpServer` with its base loop, loop 0, and its I/O loops, each with the functors queued in it: a
connection is accepted in the base loop, established in an I/O loop, closed there by the events of
its channel, erased in the base loop and destroyed in the I/O loop again. What `poll` returned, what
`readFd` returned and which loop runs next are arguments.

* `TcpServer.step?`: the steps, `none` where an assertion fails;
* `Orderly`: what a server owes to each of its connections;
* `Safe`: the steps that lead to nothing else.
-/

namespace Huaweip2p

namespace TcpServer

/-- A `TcpConnection` as far as its server sees it: whether `poll` looks at its channel, what
`connected()` was at the calls of the connection callback, and how often it ran its close callback,
was erased and was destroyed. -/
structure Connection where
  name : Str
  loop : ℕ
  state : StateE
  polled : Bool
  log : List Bool
  closeCallbacks : ℕ
  removals : ℕ
  destroys : ℕ
  deriving DecidableEq, Repr

inductive Functor
  | connectEstablished (c : ℕ)
  | removeConnectionInLoop (c : ℕ)
  | connectDestroyed (c : ℕ)
  deriving DecidableEq, Repr

/-- What `readFd` returns, and whether the message callback shuts the connection down. -/
inductive ReadResult
  | data (shutdown : Bool)
  | closed
  | error
  deriving DecidableEq, Repr

end TcpServer

open TcpServer in
/-- `class TcpServer`, with its threads, and the connections by their numbers. -/
structure TcpServer where
  name : Str
  hostport : Str
  numThreads : ℕ
  connections : Std.ExtTreeMap Str ℕ
  nextConnId : ℕ
  next : ℕ
  conn : ℕ → Connection
  pending : ℕ → List Functor

namespace TcpServer

def init (name hostport : Str) (numThreads : ℕ) : TcpServer where
  name := name
  hostport := hostport
  numThreads := numThreads
  connections := ∅
  nextConnId := 1
  next := 0
  conn := fun _ => ⟨[], 0, .kConnecting, false, [], 0, 0, 0⟩
  pending := fun _ => []

namespace Connection

/-- A connection after its construction. -/
def new (name : Str) (loop : ℕ) : Connection := ⟨name, loop, .kConnecting, false, [], 0, 0, 0⟩

/-- `connectionCallback_`. -/
def connectionCallback (x : Connection) : Connection :=
  { x with log := x.log ++ [decide (x.state = .kConnected)] }

def shutdown (x : Connection) : Connection :=
  if x.state = .kConnected then { x with state := .kDisconnecting } else x

/-- `connectEstablished`. The channel is new, and `poll` looks at it from now on. -/
def connectEstablished (x : Connection) : Option Connection := do
  guard (x.state = .kConnecting)
  return { x with state := .kConnected, polled := true }.connectionCallback

/-- `connectDestroyed`. -/
def connectDestroyed (x : Connection) : Connection :=
  let x := if x.state = .kConnected then
    { x with state := .kDisconnected, polled := false }.connectionCallback else x
  { x with polled := false, destroys := x.destroys + 1 }

/-- `handleClose` up to `closeCallback_`. After `disableAll` the slot has a negative descriptor, and
no later update makes it positive. -/
def handleClose (x : Connection) : Connection :=
  let x := { x with state := .kDisconnected, polled := false }.connectionCallback
  { x with closeCallbacks := x.closeCallbacks + 1 }

/-- One more time erased from `connections_`. -/
def erased (x : Connection) : Connection := { x with removals := x.removals + 1 }

end Connection

variable (s : TcpServer)

def modify (c : ℕ) (f : Connection → Connection) : TcpServer :=
  { s with conn := Function.update s.conn c (f (s.conn c)) }

def queueInLoop (l : ℕ) (f : Functor) : TcpServer :=
  { s with pending := WorkQueues.enqueue s.pending l f }

/-- Without the entry of a connection. -/
def erase (c : ℕ) : TcpServer :=
  modify { s with connections := s.connections.erase (s.conn c).name } c Connection.erased

def removeConnectionInLoop (c : ℕ) : Option TcpServer := do
  guard ((s.conn c).name ∈ s.connections)
  return (s.erase c).queueInLoop (s.conn c).loop (.connectDestroyed c)

def functor : Functor → Option TcpServer
  | .connectEstablished c => do
    let x ← (s.conn c).connectEstablished
    return s.modify c fun _ => x
  | .removeConnectionInLoop c => s.removeConnectionInLoop c
  | .connectDestroyed c => some (s.modify c Connection.connectDestroyed)

/-- `runInLoop` of the loop `l`, called in the loop `here`. -/
def runInLoop (here l : ℕ) (f : Functor) : Option TcpServer :=
  if here = l then s.functor f else some (s.queueInLoop l f)

/-- `EventLoopThreadPool::getNextLoop`: the I/O loops are 1 to `numThreads`. -/
def getNextLoop : ℕ × TcpServer :=
  if s.numThreads = 0 then (0, s)
  else (s.next + 1, { s with next := if s.next + 1 ≥ s.numThreads then 0 else s.next + 1 })

/-- `connName`: `snprintf` writes at most 31 characters. -/
def connName : Str :=
  s.name ++ (lit ":" ++ s.hostport ++ lit "#" ++ lit (toString s.nextConnId)).take 31

/-- With a new connection in the loop `ioLoop`, and its entry. -/
def accept (ioLoop : ℕ) : TcpServer :=
  { s with
    nextConnId := s.nextConnId + 1
    conn := Function.update s.conn s.nextConnId (.new s.connName ioLoop)
    connections := s.connections.insert s.connName s.nextConnId }

def newConnection : Option TcpServer :=
  let (ioLoop, s) := s.getNextLoop
  (s.accept ioLoop).runInLoop 0 ioLoop (.connectEstablished s.nextConnId)

/-- `TcpConnection::handleClose`, with `TcpServer::removeConnection` as its close callback. -/
def handleClose (c : ℕ) : Option TcpServer :=
  let s := s.modify c Connection.handleClose
  s.runInLoop (s.conn c).loop 0 (.removeConnectionInLoop c)

def handleRead (c : ℕ) : ReadResult → Option TcpServer
  | .data shutdown => some (if shutdown then s.modify c Connection.shutdown else s)
  | .closed => s.handleClose c
  | .error => some s

/-- The callbacks of a connection's channel; `handleError` and `handleWrite` change nothing that the
server sees. -/
def callback (c : ℕ) (read : ReadResult) (s : TcpServer) : Channel.Callback → Option TcpServer
  | .close => s.handleClose c
  | .error => some s
  | .read => s.handleRead c read
  | .write => some s

inductive Event
  /-- The acceptor has a new connection. -/
  | newConnection
  /-- A loop runs its oldest functor. -/
  | runFunctor (l : ℕ)
  /-- `poll` returned events for the channel of a connection. -/
  | handleEvent (c : ℕ) (revents : Int32) (read : ReadResult)
  /-- The user shuts a connection down. -/
  | shutdown (c : ℕ)

def Accepted (c : ℕ) : Prop := 1 ≤ c ∧ c < s.nextConnId

instance (c : ℕ) : Decidable (s.Accepted c) := inferInstanceAs (Decidable (_ ∧ _))

def step? : Event → Option TcpServer
  | .newConnection => s.newConnection
  | .runFunctor l => match s.pending l with
    | [] => some s
    | f :: fs => functor { s with pending := Function.update s.pending l fs } f
  | .handleEvent c revents read => if s.Accepted c ∧ (s.conn c).polled then
      (Channel.handleEventWithGuard (fun _ => true) revents).foldlM (callback c read) s
    else some s
  | .shutdown c => some (if s.Accepted c then s.modify c Connection.shutdown else s)

/-- A step whose assertion fails ends the program; the run goes on as if it was not made. -/
def step (e : Event) : TcpServer := (s.step? e).getD s

/-- What a connection does in order: it is reported up once, when its functor ran, and then down at
most once, with its close callback; its entry is there until it is erased, at most once and after
that callback; then it is destroyed, at most once. What is still to come waits in its loop. -/
structure Orderly : Prop where
  log_prefix : ∀ c, s.Accepted c → (s.conn c).log <+: [true, false]
  up : ∀ c, s.Accepted c → (s.conn c).log = [] → .connectEstablished c ∈ s.pending (s.conn c).loop
  closeCallbacks_eq : ∀ c, s.Accepted c → (s.conn c).closeCallbacks = (s.conn c).log.count false
  entry : ∀ c, s.Accepted c →
    (s.connections[(s.conn c).name]? = some c ↔ (s.conn c).removals = 0)
  removals_le : ∀ c, s.Accepted c → (s.conn c).removals ≤ (s.conn c).closeCallbacks
  removing : ∀ c, s.Accepted c → (s.conn c).removals < (s.conn c).closeCallbacks →
    .removeConnectionInLoop c ∈ s.pending 0
  destroys_le : ∀ c, s.Accepted c → (s.conn c).destroys ≤ (s.conn c).removals
  destroying : ∀ c, s.Accepted c → (s.conn c).destroys < (s.conn c).removals →
    .connectDestroyed c ∈ s.pending (s.conn c).loop

/-- The name of a new connection is not taken; and a poll does not report a hangup together with
urgent data, but without data, when the read then finds the end. -/
def Safe : Event → Prop
  | .newConnection => s.connName ∉ s.connections
  | .handleEvent c revents read => s.Accepted c → (s.conn c).polled = true →
      ¬ (Channel.Closes revents ∧ Channel.Reads revents ∧ read = .closed)
  | _ => True

end TcpServer

end Huaweip2p
