import Huaweip2p.Base.TcpConnection
import Huaweip2p.Client.P2PClient
import Huaweip2p.Lib.Runs

/-!
# The connections of a client

A `P2PClient` in its event loop: the `TcpClient` it replaces whenever it changes the server, the
connections these make, and who holds a pointer to them. A connection registers its channel with
the poller when it is established and is taken off by a queued `connectDestroyed`, after its close
event.

* `changeServer`, `onConnection`, `onStringMessage`, `handleClose`: the handlers of the source;
* `Owned`: the holders of a pointer to a connection;
* `Inv`: the connection that is open is the one in `connection_`, and every closed one that is
  still registered waits in a queued functor;
* `allOwned_iff`: in which runs no registered connection loses its last owner.
-/

namespace Huaweip2p

/-- A connection object, in the order of creation. -/
abbrev ConnId := ℕ

/-- `P2PClient::ConnState`. -/
inductive ConnState
  | kConnecting
  | kConnected
  | kDisconnected
  | kDisconnecting
  deriving DecidableEq, Repr

/-- `closeCallback_`: `TcpClient::removeConnection` of the `TcpClient` with the given number, or
`detail::removeConnection`, which its destructor puts there. -/
inductive CloseCallback
  | client (id : ℕ)
  | detached
  deriving DecidableEq, Repr

/-- What the client's loop has to do with a `TcpConnection`; `enabled` is whether its channel asks
for any event. -/
structure Conn where
  state : StateE
  enabled : Bool
  closeCallback : CloseCallback
  deriving DecidableEq, Repr

/-- `class TcpClient`; `connecting` is whether its connector has an attempt in progress. It has
been told to retry. -/
structure TcpClient where
  id : ℕ
  serverAddr : Str
  connection : Option ConnId
  connect : Bool
  connecting : Bool
  deriving DecidableEq, Repr

/-- The outcomes of the probes that one handler makes: of its n-th probe, to an address; a failover
loop is watched for at most `fuel` rounds. -/
structure Probes where
  works : ℕ → Str → Bool
  fuel : ℕ

/-- A `P2PClient` in its loop: its members, the connection objects, the channels registered with
the poller, the queued `connectDestroyed` functors, the guard of the event being dispatched, and
what was sent. `openProbes` counts the probe sockets left open, and `stuck` is whether a handler
has not returned. -/
structure P2PClient where
  statics : P2PCServer
  state : ConnState
  isFirst : Bool
  IP : Str
  connection : Option ConnId
  client : TcpClient
  conns : ConnId → Conn
  nextConn : ConnId
  poller : List ConnId
  functors : List ConnId
  guard : Option ConnId
  sent : List (ConnId × Str)
  openProbes : ℕ
  stuck : Bool

namespace P2PClient

/-- A client after the constructor and `connect`; `state_` is not initialised. -/
def start (statics : P2PCServer) (state : ConnState) (serverAddr : Str) : P2PClient where
  statics := statics
  state := state
  isFirst := true
  IP := []
  connection := none
  client := ⟨0, serverAddr, none, true, true⟩
  conns _ := ⟨.kDisconnected, false, .detached⟩
  nextConn := 0
  poller := []
  functors := []
  guard := none
  sent := []
  openProbes := 0
  stuck := false

/-- Change a connection object. -/
def modify (p : P2PClient) (c : ConnId) (f : Conn → Conn) : P2PClient :=
  { p with conns := Function.update p.conns c (f (p.conns c)) }

/-- `TcpConnection::shutdown`. -/
def shutdown (p : P2PClient) (c : ConnId) : P2PClient :=
  p.modify c fun conn => if conn.state = .kConnected then { conn with state := .kDisconnecting }
    else conn

/-- `client_->disconnect()`. -/
def disconnect (p : P2PClient) : P2PClient :=
  let p := { p with client := { p.client with connect := false } }
  match p.client.connection with
  | some c => p.shutdown c
  | none => p

/-- `client_->stop()`. -/
def stop (p : P2PClient) : P2PClient :=
  { p with client := { p.client with connect := false, connecting := false } }

/-- `delete client_`. The pointer that the `TcpClient` holds goes with it. -/
def deleteClient (p : P2PClient) : P2PClient :=
  match p.client.connection with
  | some c => p.modify c fun conn => { conn with closeCallback := .detached }
  | none => p.stop

/-- `client_ = new TcpClient(..)` and `connect()`. -/
def newClient (p : P2PClient) (serverAddr : Str) : P2PClient :=
  { p with client := ⟨p.client.id + 1, serverAddr, none, true, true⟩ }

/-- `changeServer`. The socket of a probe that fails is not closed. -/
def changeServer (p : P2PClient) (dest : Str) (works : Bool) : P2PClient × Bool :=
  let p := if p.connection.isSome then p.disconnect else p
  let p := { p.stop with state := .kConnecting }
  if works then (p.deleteClient.newClient dest, true)
  else ({ p with openProbes := p.openProbes + 1 }, false)

/-- `write`. The connection sends only while it is connected. -/
def write (p : P2PClient) (message : Str) : P2PClient :=
  match p.connection with
  | some c =>
    if (p.conns c).state = .kConnected then { p with sent := p.sent ++ [(c, message)] } else p
  | none => p

/-- The failover loop from its `i`-th probe on: `changeServer` to `IP`, and when that fails, remove
`IP` from the table and take the next. -/
def failover (works : ℕ → Str → Bool) (level : ℤ) : ℕ → ℕ → P2PClient → P2PClient
  | 0, _, p => { p with stuck := true }
  | fuel + 1, i, p =>
    match p.changeServer p.IP (works i p.IP) with
    | (p, true) => p
    | (p, false) =>
      let s := p.statics.removeNeiIP p.IP
      failover works level fuel (i + 1) { p with statics := s, IP := s.findNeiIP level }

/-- `onStringMessage`. -/
def onStringMessage (p : P2PClient) (message : Str) (probes : Probes) : P2PClient :=
  match (processMessage p.statics message).val with
  -- the exception of `substr` leaves the handler, and the loop
  | none => { p with stuck := true }
  | some (s, res) =>
    let p := { p with statics := s }
    let upfile := s.getFile
    if upfile < 100 then
      if res ≠ 0 then p.write (fileRequest s upfile)
      else failover probes.works upfile probes.fuel 0 { p with IP := s.findNeiIP upfile }
    else p

/-- `onConnection`. The `do` loop of the branch for a connection that went down begins with the
removal that the other failover loop ends with. -/
def onConnection (p : P2PClient) (c : ConnId) (probes : Probes) : P2PClient :=
  if (p.conns c).state = .kConnected then
    let p := { p with state := .kConnected, connection := some c }
    if p.isFirst then { p with isFirst := false }.write (registration p.statics)
    else p.write (fileRequest p.statics p.statics.getFile)
  else
    let p := { p with connection := none }
    if p.state = .kConnected then
      let s := p.statics.removeNeiIP p.IP
      failover probes.works s.getFile probes.fuel 0
        { p with statics := s, IP := s.findNeiIP s.getFile }
    else p

/-- `TcpClient::newConnection` and `TcpConnection::connectEstablished`, up to the connection
callback. -/
def establish (p : P2PClient) : P2PClient :=
  { p with
    conns := Function.update p.conns p.nextConn ⟨.kConnected, true, .client p.client.id⟩
    nextConn := p.nextConn + 1
    client := { p.client with connection := some p.nextConn, connecting := false }
    poller := p.nextConn :: p.poller }

/-- `TcpClient::newConnection`. -/
def newConnection (p : P2PClient) (probes : Probes) : P2PClient :=
  p.establish.onConnection p.nextConn probes

/-- `closeCallback_`: `TcpClient::removeConnection` of the current client, or
`detail::removeConnection`. -/
def runCloseCallback (p : P2PClient) (c : ConnId) : P2PClient :=
  match (p.conns c).closeCallback with
  | .detached => { p with functors := p.functors ++ [c] }
  | .client id =>
    if id = p.client.id then
      { p with
        functors := p.functors ++ [c]
        client := { p.client with
          connection := none
          connecting := p.client.connecting || p.client.connect } }
    -- a call through a deleted `TcpClient`
    else p

/-- The channel of a connection stops asking for events, and the connection is down. -/
def close (p : P2PClient) (c : ConnId) : P2PClient :=
  p.modify c fun conn => { conn with state := .kDisconnected, enabled := false }

/-- `TcpConnection::handleClose`. -/
def handleClose (p : P2PClient) (c : ConnId) (probes : Probes) : P2PClient :=
  let p := (p.close c).onConnection c probes
  if p.stuck then p else p.runCloseCallback c

/-- `TcpConnection::connectDestroyed`. -/
def connectDestroyed (p : P2PClient) (c : ConnId) (probes : Probes) : P2PClient :=
  let p := if (p.conns c).state = .kConnected then (p.close c).onConnection c probes else p
  if p.stuck then p else { p with poller := p.poller.filter (· ≠ c) }

/-! ### Runs -/

/-- Somebody holds a pointer to the connection: `P2PClient::connection_`, the `connection_` of the
current `TcpClient`, the guard of the event being dispatched, or a queued functor. -/
def Owned (p : P2PClient) (c : ConnId) : Prop :=
  p.connection = some c ∨ p.client.connection = some c ∨ p.guard = some c ∨ c ∈ p.functors

instance (p : P2PClient) (c : ConnId) : Decidable (p.Owned c) :=
  inferInstanceAs (Decidable (_ ∨ _ ∨ _ ∨ _))

/-- Every connection whose channel is registered with the poller is owned. -/
def AllOwned (p : P2PClient) : Prop := ∀ c ∈ p.poller, p.Owned c

instance (p : P2PClient) : Decidable p.AllOwned :=
  inferInstanceAs (Decidable (∀ c ∈ p.poller, p.Owned c))

/-- The poller reports events of the connection, and its channel finds it alive. -/
def Dispatches (p : P2PClient) (c : ConnId) : Prop :=
  c ∈ p.poller ∧ (p.conns c).enabled = true ∧ p.Owned c

instance (p : P2PClient) (c : ConnId) : Decidable (p.Dispatches c) :=
  inferInstanceAs (Decidable (_ ∧ _ ∧ _))

/-- What the loop does next. -/
inductive Event
  /-- The attempt of the current connector succeeds, and the connection goes up. -/
  | up (probes : Probes)
  /-- The codec takes messages out of what a connection has read, and may then meet an invalid
  length and shut the connection down. -/
  | messages (c : ConnId) (ms : List (Str × Probes)) (invalid : Bool)
  /-- A connection goes down. -/
  | down (c : ConnId) (probes : Probes)
  /-- The first queued functor runs. -/
  | runFunctor (probes : Probes)
  /-- A call of `changeServer` from outside the handlers. -/
  | changeServer (dest : Str) (works : Bool)
  /-- The listening half of the program handles a request. -/
  | request (message : Str)

/-- Dispatch an event of a connection: the guard holds it until the handler returns. -/
def dispatch (p : P2PClient) (c : ConnId) (handle : P2PClient → P2PClient) : P2PClient :=
  if p.Dispatches c then
    let p := handle { p with guard := some c }
    if p.stuck then p else { p with guard := none }
  else p

/-- The message callback: `onStringMessage` for one message after the other. -/
def onMessages (p : P2PClient) (ms : List (Str × Probes)) : P2PClient :=
  ms.foldl (fun p m => if p.stuck then p else p.onStringMessage m.1 m.2) p

/-- The codec takes the messages out of the buffer of a connection. -/
def readMessages (c : ConnId) (ms : List (Str × Probes)) (invalid : Bool) (p : P2PClient) :
    P2PClient :=
  let p := p.onMessages ms
  if invalid then p.shutdown c else p

/-- The loop runs the first queued functor. -/
def runFunctor (p : P2PClient) (probes : Probes) : P2PClient :=
  match p.functors with
  | [] => p
  | c :: _ =>
    let p := p.connectDestroyed c probes
    { p with functors := p.functors.tail }

/-- The listening half of the program handles a request. -/
def onRequest (p : P2PClient) (message : Str) : P2PClient :=
  match (p.statics.onStringMessage message).val with
  | none => { p with stuck := true }
  | some (s, _) => { p with statics := s }

/-- What the loop does with an event. -/
def handle (p : P2PClient) : Event → P2PClient
  | .up probes => if p.client.connecting then p.newConnection probes else p
  | .messages c ms invalid => p.dispatch c (readMessages c ms invalid)
  | .down c probes => p.dispatch c fun p => p.handleClose c probes
  | .runFunctor probes => p.runFunctor probes
  | .changeServer dest works => (p.changeServer dest works).1
  | .request message => p.onRequest message

/-- One step of a run. Nothing follows a handler that has not returned. -/
def step (p : P2PClient) (e : Event) : P2PClient := if p.stuck then p else p.handle e

/-! ### What handlers keep -/

/-- If the close callback goes to a `TcpClient`, that is the current one and holds the
connection. -/
def Attached (p : P2PClient) (c : ConnId) : Prop :=
  ∀ id, (p.conns c).closeCallback = .client id → id = p.client.id ∧ p.client.connection = some c

/-- Messages and changes of the server leave alone who is up, down, registered and queued. -/
structure Kept (p p' : P2PClient) : Prop where
  connection : p'.connection = p.connection
  nextConn : p'.nextConn = p.nextConn
  poller : p'.poller = p.poller
  functors : p'.functors = p.functors
  guard : p'.guard = p.guard
  enabled : ∀ c, (p'.conns c).enabled = (p.conns c).enabled
  disconnected : ∀ c, (p.conns c).state = .kDisconnected → (p'.conns c).state = .kDisconnected
  attached : ∀ c, p.Attached c → p'.Attached c

theorem Kept.refl (p : P2PClient) : Kept p p :=
  ⟨rfl, rfl, rfl, rfl, rfl, fun _ => rfl, fun _ h => h, fun _ h => h⟩

theorem Kept.trans {p p' p'' : P2PClient} (h : Kept p p') (h' : Kept p' p'') : Kept p p'' where
  connection := h'.connection.trans h.connection
  nextConn := h'.nextConn.trans h.nextConn
  poller := h'.poller.trans h.poller
  functors := h'.functors.trans h.functors
  guard := h'.guard.trans h.guard
  enabled c := (h'.enabled c).trans (h.enabled c)
  disconnected c hc := h'.disconnected c (h.disconnected c hc)
  attached c hc := h'.attached c (h.attached c hc)

/-- A handler that changes neither a connection nor the client keeps all this. -/
theorem Kept.of_eq {p p' : P2PClient}
    (h : (p'.connection, p'.client, p'.conns, p'.nextConn, p'.poller, p'.functors, p'.guard) =
      (p.connection, p.client, p.conns, p.nextConn, p.poller, p.functors, p.guard)) :
    Kept p p' := by
  simp only [Prod.mk.injEq] at h
  obtain ⟨hconnection, hclient, hconns, hnext, hpoller, hfunctors, hguard⟩ := h
  exact
    { connection := hconnection
      nextConn := hnext
      poller := hpoller
      functors := hfunctors
      guard := hguard
      enabled := fun c => by rw [hconns]
      disconnected := fun c hc => by rwa [hconns]
      attached := fun c hc => by rwa [Attached, hconns, hclient] }

@[simp] theorem conns_modify_self (p : P2PClient) (c : ConnId) (f : Conn → Conn) :
    (p.modify c f).conns c = f (p.conns c) := by simp [modify]

theorem conns_modify_of_ne (p : P2PClient) {c c' : ConnId} (f : Conn → Conn) (h : c' ≠ c) :
    (p.modify c f).conns c' = p.conns c' := by simp [modify, h]

theorem kept_shutdown (p : P2PClient) (c : ConnId) : Kept p (p.shutdown c) := by
  have hconns : ∀ c', ((p.shutdown c).conns c').enabled = (p.conns c').enabled ∧
      ((p.shutdown c).conns c').closeCallback = (p.conns c').closeCallback ∧
      ((p.conns c').state = .kDisconnected → ((p.shutdown c).conns c').state = .kDisconnected) := by
    intro c'
    by_cases hc : c' = c
    · subst hc
      simp only [shutdown, conns_modify_self]
      split_ifs with hstate
      · exact ⟨rfl, rfl, fun h => by simp [hstate] at h⟩
      · exact ⟨rfl, rfl, id⟩
    · rw [shutdown, conns_modify_of_ne _ _ hc]
      exact ⟨rfl, rfl, id⟩
  exact
    { Kept.refl p with
      enabled := fun c' => (hconns c').1
      disconnected := fun c' => (hconns c').2.2
      attached := fun c' hc' id hid => hc' id ((hconns c').2.1.symm.trans hid) }

/-- A step of the `TcpClient` that leaves its number and its connection alone. -/
theorem kept_client (p : P2PClient) {client : TcpClient} (hid : client.id = p.client.id)
    (hconnection : client.connection = p.client.connection) : Kept p { p with client := client } :=
  { Kept.refl p with
    attached := fun c hc id h => by
      show id = client.id ∧ client.connection = some c
      rw [hid, hconnection]
      exact hc id h }

theorem kept_disconnect (p : P2PClient) : Kept p p.disconnect := by
  have h : Kept p { p with client := { p.client with connect := false } } :=
    kept_client p rfl rfl
  unfold disconnect
  dsimp only
  split
  · exact h.trans (kept_shutdown _ _)
  · exact h

theorem kept_stop (p : P2PClient) : Kept p p.stop := kept_client p rfl rfl

/-- The connection of a deleted `TcpClient` loses its callback to it, and no other has one. -/
theorem kept_deleteClient (p : P2PClient) (dest : Str) :
    Kept p (p.deleteClient.newClient dest) := by
  rw [deleteClient]
  cases hclient : p.client.connection with
  | none =>
    refine { Kept.refl p with attached := fun c' hc' id hid => ?_ }
    have := (hc' id hid).2
    rw [hclient] at this
    cases this
  | some c =>
    have hconns : ∀ c', ((p.modify c fun conn => { conn with closeCallback := .detached }).conns
        c').enabled = (p.conns c').enabled ∧ ((p.modify c fun conn =>
        { conn with closeCallback := .detached }).conns c').state = (p.conns c').state := by
      intro c'
      by_cases hc : c' = c
      · subst hc
        rw [conns_modify_self]
        exact ⟨rfl, rfl⟩
      · rw [conns_modify_of_ne _ _ hc]
        exact ⟨rfl, rfl⟩
    refine { Kept.refl p with
      enabled := fun c' => (hconns c').1
      disconnected := fun c' hc' => (hconns c').2.trans hc'
      attached := fun c' hc' id hid => ?_ }
    by_cases hc : c' = c
    · subst hc
      rw [newClient, conns_modify_self] at hid
      cases hid
    · rw [newClient, conns_modify_of_ne _ _ hc] at hid
      exact absurd ((hc' id hid).2.symm.trans hclient) (by simpa using hc)

theorem kept_changeServer (p : P2PClient) (dest : Str) (works : Bool) :
    Kept p (p.changeServer dest works).1 := by
  have hstop : ∀ q : P2PClient, Kept q { q.stop with state := .kConnecting } := fun q =>
    (kept_stop q).trans (Kept.of_eq rfl)
  have hdisconnect : Kept p (if p.connection.isSome then p.disconnect else p) := by
    split_ifs
    · exact kept_disconnect p
    · exact Kept.refl p
  unfold changeServer
  dsimp only
  split_ifs
  · exact ((kept_disconnect p).trans (hstop _)).trans (kept_deleteClient _ _)
  · exact (hstop p).trans (kept_deleteClient _ _)
  · exact ((kept_disconnect p).trans (hstop _)).trans (Kept.of_eq rfl)
  · exact (hstop p).trans (Kept.of_eq rfl)

theorem kept_write (p : P2PClient) (message : Str) : Kept p (p.write message) := by
  unfold write
  split
  · split_ifs
    · exact Kept.of_eq rfl
    · exact Kept.refl p
  · exact Kept.refl p

/-- What every part of a failover does, it does as a whole, if it composes. -/
theorem rel_failover {R : P2PClient → P2PClient → Prop}
    (htrans : ∀ {p p' p''}, R p p' → R p' p'' → R p p'')
    (hstuck : ∀ p, R p { p with stuck := true })
    (hchange : ∀ p works, R p (p.changeServer p.IP works).1)
    (hnext : ∀ (p : P2PClient) level, R p { p with
      statics := p.statics.removeNeiIP p.IP
      IP := (p.statics.removeNeiIP p.IP).findNeiIP level })
    (works : ℕ → Str → Bool) (level : ℤ) (fuel i : ℕ) (p : P2PClient) :
    R p (failover works level fuel i p) := by
  induction fuel generalizing i p with
  | zero => exact hstuck p
  | succ fuel ih =>
    have hchanged := hchange p (works i p.IP)
    rw [failover]
    rcases hp' : p.changeServer p.IP (works i p.IP) with ⟨p', changed⟩
    rw [hp'] at hchanged
    cases changed with
    | true => exact hchanged
    | false => exact htrans hchanged (htrans (hnext p' level) (ih _ _))

theorem kept_failover (works : ℕ → Str → Bool) (level : ℤ) (fuel i : ℕ) (p : P2PClient) :
    Kept p (failover works level fuel i p) := by
  apply rel_failover (R := Kept) Kept.trans
  · exact fun _ => Kept.of_eq rfl
  · exact fun p => kept_changeServer p p.IP
  · exact fun _ _ => Kept.of_eq rfl

theorem kept_onStringMessage (p : P2PClient) (message : Str) (probes : Probes) :
    Kept p (p.onStringMessage message probes) := by
  rw [onStringMessage]
  rcases (processMessage p.statics message).val with _ | ⟨s, res⟩
  · exact Kept.of_eq rfl
  · have hs : Kept p { p with statics := s } := Kept.of_eq rfl
    dsimp only
    split_ifs
    · exact hs.trans (kept_write _ _)
    · refine hs.trans (Kept.trans ?_ (kept_failover _ _ _ _ _))
      exact Kept.of_eq rfl
    · exact hs

theorem kept_onMessages (p : P2PClient) (ms : List (Str × Probes)) : Kept p (p.onMessages ms) := by
  unfold onMessages
  induction ms generalizing p with
  | nil => exact Kept.refl p
  | cons m ms ih =>
    rw [List.foldl_cons]
    refine Kept.trans ?_ (ih _)
    split_ifs
    · exact Kept.refl p
    · exact kept_onStringMessage p m.1 m.2

theorem kept_readMessages (c : ConnId) (ms : List (Str × Probes)) (invalid : Bool)
    (p : P2PClient) : Kept p (readMessages c ms invalid p) := by
  unfold readMessages
  dsimp only
  split_ifs
  · exact (kept_onMessages p ms).trans (kept_shutdown _ c)
  · exact kept_onMessages p ms

theorem kept_onRequest (p : P2PClient) (message : Str) : Kept p (p.onRequest message) := by
  rw [onRequest]
  rcases (p.statics.onStringMessage message).val with _ | ⟨s, effects⟩
  · exact Kept.of_eq rfl
  · exact Kept.of_eq rfl

/-- The callback for a connection that is not connected gives up `connection_`, and keeps the rest
alone. -/
theorem kept_onConnection_down (p : P2PClient) (c : ConnId) (probes : Probes)
    (h : (p.conns c).state ≠ .kConnected) :
    Kept { p with connection := none } (p.onConnection c probes) := by
  rw [onConnection, if_neg h]
  dsimp only
  split_ifs
  · refine Kept.trans ?_ (kept_failover _ _ _ _ _)
    exact Kept.of_eq rfl
  · exact Kept.refl _

/-- The callback for a connection that is connected takes it as `connection_`. -/
theorem kept_onConnection_up (p : P2PClient) (c : ConnId) (probes : Probes)
    (h : (p.conns c).state = .kConnected) :
    Kept { p with connection := some c } (p.onConnection c probes) := by
  rw [onConnection, if_pos h]
  dsimp only
  split_ifs
  all_goals
    refine Kept.trans ?_ (kept_write _ _)
    exact Kept.of_eq rfl

/-! ### The invariant -/

/-- The registered connection that is open is the one in `connection_`; a registered one that is
closed waits in a queued functor or is just being dispatched; and a registered one that waits in no
functor is attached. -/
structure Inv (p : P2PClient) : Prop where
  opened : ∀ c ∈ p.poller, (p.conns c).enabled = true → p.connection = some c
  closed : ∀ c ∈ p.poller, (p.conns c).enabled = false → c ∈ p.functors ∨ p.guard = some c
  current : ∀ c, p.connection = some c →
    c ∈ p.poller ∧ c ∉ p.functors ∧ (p.conns c).enabled = true
  queued : ∀ c ∈ p.functors, (p.conns c).state = .kDisconnected ∧ (p.conns c).enabled = false
  attached : ∀ c ∈ p.poller, c ∉ p.functors → p.Attached c
  fresh : ∀ c, c ∈ p.poller ∨ c ∈ p.functors → c < p.nextConn

theorem inv_start (statics : P2PCServer) (state : ConnState) (serverAddr : Str) :
    (start statics state serverAddr).Inv where
  opened := by simp [start]
  closed := by simp [start]
  current := by simp [start]
  queued := by simp [start]
  attached := by simp [start]
  fresh := by simp [start]

/-- Under the invariant no registered connection is without an owner. -/
theorem Inv.allOwned {p : P2PClient} (h : p.Inv) : p.AllOwned := by
  intro c hc
  cases henabled : (p.conns c).enabled with
  | true => exact .inl (h.opened c hc henabled)
  | false =>
    rcases h.closed c hc henabled with hqueued | hguard
    · exact .inr (.inr (.inr hqueued))
    · exact .inr (.inr (.inl hguard))

theorem Inv.of_kept {p p' : P2PClient} (h : p.Inv) (hk : Kept p p') : p'.Inv where
  opened c hc henabled := by
    rw [hk.connection]
    exact h.opened c (hk.poller ▸ hc) ((hk.enabled c).symm.trans henabled)
  closed c hc henabled := by
    rw [hk.functors, hk.guard]
    exact h.closed c (hk.poller ▸ hc) ((hk.enabled c).symm.trans henabled)
  current c hc := by
    rw [hk.poller, hk.functors, hk.enabled]
    exact h.current c (hk.connection ▸ hc)
  queued c hc := by
    obtain ⟨hstate, henabled⟩ := h.queued c (hk.functors ▸ hc)
    exact ⟨hk.disconnected c hstate, (hk.enabled c).trans henabled⟩
  attached c hc hqueued := hk.attached c (h.attached c (hk.poller ▸ hc) (hk.functors ▸ hqueued))
  fresh c hc := by
    rw [hk.nextConn]
    exact h.fresh c (by rwa [hk.poller, hk.functors] at hc)

/-- The guard of an event may come, and it may go when its connection is open or queued. -/
theorem Inv.guarded {p : P2PClient} (h : p.Inv) (hguard : p.guard = none) (c : ConnId) :
    Inv { p with guard := some c } :=
  { h with closed := fun c' hc' henabled => .inl ((h.closed c' hc' henabled).resolve_right
      (by simp [hguard])) }

theorem Inv.released {p : P2PClient} (h : p.Inv)
    (hguard : ∀ c, p.guard = some c → (p.conns c).enabled = true ∨ c ∈ p.functors) :
    Inv { p with guard := none } := by
  have hclosed : ∀ c ∈ p.poller, (p.conns c).enabled = false → c ∈ p.functors := by
    intro c hc henabled
    refine (h.closed c hc henabled).elim id fun hc' => (hguard c hc').resolve_left ?_
    simp [henabled]
  exact { h with closed := fun c hc henabled => .inl (hclosed c hc henabled) }

/-! ### One lemma for each event -/

/-- The invariant between two events: no event holds a connection, unless its handler has not
returned. -/
structure Idle (p : P2PClient) : Prop extends p.Inv where
  unguarded : p.stuck = false → p.guard = none

theorem idle_start (statics : P2PCServer) (state : ConnState) (serverAddr : Str) :
    (start statics state serverAddr).Idle :=
  { inv_start statics state serverAddr with unguarded := fun _ => rfl }

/-- A step that keeps everything and returns. -/
theorem Idle.of_kept {p p' : P2PClient} (h : p.Idle) (hstuck : p.stuck = false)
    (hk : Kept p p') : p'.Idle :=
  { h.toInv.of_kept hk with unguarded := fun _ => hk.guard.trans (h.unguarded hstuck) }

/-- Where the handler of an event of `c` ends: if it returns, the connection is open or queued. -/
structure Handled (c : ConnId) (q : P2PClient) : Prop extends q.Inv where
  guarded : q.guard = some c
  returned : q.stuck = false → (q.conns c).enabled = true ∨ c ∈ q.functors

theorem Idle.dispatch {p : P2PClient} (h : p.Idle) (hstuck : p.stuck = false) (c : ConnId)
    {handle : P2PClient → P2PClient}
    (hhandle : p.Dispatches c → Inv { p with guard := some c } →
      Handled c (handle { p with guard := some c })) :
    (p.dispatch c handle).Idle := by
  unfold P2PClient.dispatch
  split_ifs with hd
  · have hq := hhandle hd (h.toInv.guarded (h.unguarded hstuck) c)
    dsimp only
    split_ifs with hs
    · exact { hq.toInv with unguarded := fun hs' => absurd (hs.symm.trans hs') (by decide) }
    · have hreleased := hq.toInv.released fun c' hc' => by
        obtain rfl := Option.some.inj (hq.guarded.symm.trans hc')
        exact hq.returned (by simpa using hs)
      exact { hreleased with unguarded := fun _ => rfl }
  · exact h

theorem Idle.messages {p : P2PClient} (h : p.Idle) (hstuck : p.stuck = false) (c : ConnId)
    (ms : List (Str × Probes)) (invalid : Bool) :
    (p.dispatch c (readMessages c ms invalid)).Idle := by
  refine h.dispatch hstuck c fun hd hinv => ?_
  have hk := kept_readMessages c ms invalid { p with guard := some c }
  exact
    { hinv.of_kept hk with
      guarded := hk.guard
      returned := fun _ => .inl ((hk.enabled c).trans hd.2.1) }

theorem conns_close (p : P2PClient) (c c' : ConnId) :
    ((p.close c).conns c').closeCallback = (p.conns c').closeCallback ∧
      (c' = c ∧ ((p.close c).conns c').state = .kDisconnected ∧
          ((p.close c).conns c').enabled = false ∨
        c' ≠ c ∧ (p.close c).conns c' = p.conns c') := by
  by_cases hc : c' = c
  · subst hc
    rw [close, conns_modify_self]
    exact ⟨rfl, .inl ⟨rfl, rfl, rfl⟩⟩
  · rw [close, conns_modify_of_ne _ _ hc]
    exact ⟨rfl, .inr ⟨hc, rfl⟩⟩

/-- The open connection is closed, and `connection_` reset, while the event holds it. -/
theorem Inv.close {p : P2PClient} (h : p.Inv) {c : ConnId} (hc : p.connection = some c)
    (hguard : p.guard = some c) : Inv { p.close c with connection := none } where
  opened c' hc' henabled := by
    obtain ⟨-, ⟨-, -, hfalse⟩ | ⟨hne, heq⟩⟩ := conns_close p c c'
    · exact absurd (hfalse.symm.trans henabled) (by decide)
    · have hc'' := h.opened c' hc' ((congrArg Conn.enabled heq).symm.trans henabled)
      exact absurd (Option.some.inj (hc''.symm.trans hc)) hne
  closed c' hc' henabled := by
    obtain ⟨-, ⟨rfl, -⟩ | ⟨-, heq⟩⟩ := conns_close p c c'
    · exact .inr hguard
    · exact h.closed c' hc' ((congrArg Conn.enabled heq).symm.trans henabled)
  current c' hc' := by cases hc'
  queued c' hc' := by
    obtain ⟨-, ⟨-, hstate, hfalse⟩ | ⟨-, heq⟩⟩ := conns_close p c c'
    · exact ⟨hstate, hfalse⟩
    · obtain ⟨hstate, hfalse⟩ := h.queued c' hc'
      exact ⟨(congrArg Conn.state heq).trans hstate, (congrArg Conn.enabled heq).trans hfalse⟩
  attached c' hc' hqueued id hid :=
    h.attached c' hc' hqueued id ((conns_close p c c').1.symm.trans hid)
  fresh := h.fresh

/-- The close callback of an attached connection queues its `connectDestroyed`. -/
theorem Inv.runCloseCallback {p : P2PClient} (h : p.Inv) {c : ConnId} (hc : c ∈ p.poller)
    (hdown : (p.conns c).state = .kDisconnected ∧ (p.conns c).enabled = false)
    (hconnection : p.connection = none) (hattached : p.Attached c) :
    (p.runCloseCallback c).Inv ∧ (p.runCloseCallback c).guard = p.guard ∧
      c ∈ (p.runCloseCallback c).functors := by
  have hqueue : Inv { p with functors := p.functors ++ [c] } :=
    { h with
      closed := fun c' hc' henabled =>
        (h.closed c' hc' henabled).imp (fun hq => List.mem_append_left _ hq) id
      current := fun c' hc' => by simp [hconnection] at hc'
      queued := fun c' hc' => by
        rcases List.mem_append.1 hc' with hq | hq
        · exact h.queued c' hq
        · rwa [List.mem_singleton.1 hq]
      attached := fun c' hc' hq => h.attached c' hc' fun hq' => hq (List.mem_append_left _ hq')
      fresh := fun c' hc' => by
        rcases hc' with hc' | hc'
        · exact h.fresh c' (.inl hc')
        · rcases List.mem_append.1 hc' with hq | hq
          · exact h.fresh c' (.inr hq)
          · exact h.fresh c' (.inl (List.mem_singleton.1 hq ▸ hc)) }
  rw [P2PClient.runCloseCallback]
  cases hid : (p.conns c).closeCallback with
  | detached => exact ⟨hqueue, rfl, by simp⟩
  | client id =>
    obtain ⟨rfl, hclient⟩ := hattached id hid
    dsimp only
    rw [if_pos rfl]
    refine ⟨{ hqueue with attached := fun c' hc' hq id' hid' => ?_ }, rfl, by simp⟩
    -- the connection of the client is `c`, and no other is attached to it
    have hc'' := (hqueue.attached c' hc' hq id' hid').2
    obtain rfl := Option.some.inj (hclient.symm.trans hc'')
    exact absurd (List.mem_append_right _ (List.mem_singleton.2 rfl)) hq

theorem Idle.down {p : P2PClient} (h : p.Idle) (hstuck : p.stuck = false) (c : ConnId)
    (probes : Probes) : (p.dispatch c fun p => p.handleClose c probes).Idle := by
  refine h.dispatch hstuck c fun ⟨hc, henabled, _⟩ hinv => ?_
  have hconnection : p.connection = some c := h.opened c hc henabled
  set q : P2PClient := { p with guard := some c } with hq
  obtain ⟨-, ⟨-, hdown⟩ | ⟨hne, -⟩⟩ := conns_close q c c
  swap
  · exact absurd rfl hne
  have hk := kept_onConnection_down (q.close c) c probes (by rw [hdown.1]; decide)
  have hclosed : (((q.close c).onConnection c probes)).Inv :=
    (hinv.close hconnection rfl).of_kept hk
  unfold handleClose
  dsimp only
  split_ifs with hs
  · exact
      { hclosed with
        guarded := hk.guard
        returned := fun hs' => absurd (hs.symm.trans hs') (by decide) }
  · have hattached : ((q.close c).onConnection c probes).Attached c :=
      hk.attached c ((hinv.close hconnection rfl).attached c hc (h.current c hconnection).2.1)
    obtain ⟨hinv', hguard, hqueued⟩ := hclosed.runCloseCallback (hk.poller ▸ hc)
      ⟨hk.disconnected c hdown.1, (hk.enabled c).trans hdown.2⟩ hk.connection hattached
    exact
      { hinv' with
        guarded := hguard.trans hk.guard
        returned := fun _ => .inr hqueued }

/-- A queued functor finds its connection down, and takes it off the poller. -/
theorem Idle.runFunctor {p : P2PClient} (h : p.Idle) (hstuck : p.stuck = false)
    (probes : Probes) : (p.runFunctor probes).Idle := by
  unfold P2PClient.runFunctor
  split
  · exact h
  rename_i c cs hcs
  have hdown := (h.queued c (by simp [hcs])).1
  have hdestroyed : p.connectDestroyed c probes = { p with poller := p.poller.filter (· ≠ c) } := by
    simp [connectDestroyed, hdown, hstuck]
  have htail : ∀ c' ≠ c, c' ∈ p.functors ↔ c' ∈ p.functors.tail := fun c' hne => by
    simp [hcs, hne]
  have hpoller : ∀ c', c' ∈ p.poller.filter (· ≠ c) ↔ c' ∈ p.poller ∧ c' ≠ c := fun c' => by simp
  rw [hdestroyed]
  exact
    { opened := fun c' hc' => h.opened c' ((hpoller c').1 hc').1
      closed := fun c' hc' henabled => by
        obtain ⟨hc', hne⟩ := (hpoller c').1 hc'
        exact (h.closed c' hc' henabled).imp (htail c' hne).1 id
      current := fun c' hc' => by
        obtain ⟨hmem, hqueued, henabled⟩ := h.current c' hc'
        refine ⟨(hpoller c').2 ⟨hmem, ?_⟩, fun hq => hqueued (List.mem_of_mem_tail hq), henabled⟩
        rintro rfl
        exact hqueued (by simp [hcs])
      queued := fun c' hc' => h.queued c' (List.mem_of_mem_tail hc')
      attached := fun c' hc' hq => by
        obtain ⟨hc', hne⟩ := (hpoller c').1 hc'
        exact h.attached c' hc' fun hq' => hq ((htail c' hne).1 hq')
      fresh := fun c' hc' => h.fresh c' (hc'.imp (fun hc' => ((hpoller c').1 hc').1)
        List.mem_of_mem_tail)
      unguarded := fun _ => h.unguarded hstuck }

theorem kept_newConnection (p : P2PClient) (probes : Probes) :
    Kept { p.establish with connection := some p.nextConn } (p.newConnection probes) :=
  kept_onConnection_up p.establish p.nextConn probes (by simp [establish])

theorem conns_establish_of_lt (p : P2PClient) {c : ConnId} (hc : c < p.nextConn) :
    p.establish.conns c = p.conns c := by
  simp [establish, hc.ne]

/-- A connection that goes up while none is open. -/
theorem Idle.newConnection {p : P2PClient} (h : p.Idle) (hstuck : p.stuck = false)
    (hconnection : p.connection = none) (probes : Probes) : (p.newConnection probes).Idle := by
  have hguard := h.unguarded hstuck
  have hnew : p.establish.conns p.nextConn = ⟨.kConnected, true, .client p.client.id⟩ := by
    simp [establish]
  have hlt : ∀ c, c ∈ p.poller ∨ c ∈ p.functors → p.establish.conns c = p.conns c := fun c hc =>
    conns_establish_of_lt p (h.fresh c hc)
  have hfresh : p.nextConn ∉ p.functors := fun hc => (h.fresh _ (.inr hc)).false
  have hqueued : ∀ c ∈ p.poller, c ∈ p.functors := fun c hc => by
    cases henabled : (p.conns c).enabled with
    | true => exact absurd ((h.opened c hc henabled).symm.trans hconnection) (by simp)
    | false => exact (h.closed c hc henabled).resolve_right (by simp [hguard])
  have hinv : Inv { p.establish with connection := some p.nextConn } :=
    { opened := fun c hc henabled => by
        rcases List.mem_cons.1 hc with rfl | hc
        · rfl
        · have := (h.queued c (hqueued c hc)).2
          rw [hlt c (.inl hc), this] at henabled
          cases henabled
      closed := fun c hc henabled => by
        rcases List.mem_cons.1 hc with rfl | hc
        · rw [hnew] at henabled
          cases henabled
        · exact .inl (hqueued c hc)
      current := fun c hc => by
        obtain rfl := Option.some.inj hc
        exact ⟨List.mem_cons_self, hfresh, by rw [hnew]⟩
      queued := fun c hc => by
        rw [hlt c (.inr hc)]
        exact h.queued c hc
      attached := fun c hc hq id hid => by
        rcases List.mem_cons.1 hc with rfl | hc
        · rw [hnew] at hid
          cases hid
          exact ⟨rfl, rfl⟩
        · exact absurd (hqueued c hc) hq
      fresh := fun c hc => by
        rcases hc with hc | hc
        · rcases List.mem_cons.1 hc with rfl | hc
          · exact Nat.lt_succ_self _
          · exact Nat.lt_succ_of_lt (h.fresh c (.inl hc))
        · exact Nat.lt_succ_of_lt (h.fresh c (.inr hc)) }
  have hk := kept_newConnection p probes
  exact { hinv.of_kept hk with unguarded := fun _ => hk.guard.trans hguard }

theorem client_write (p : P2PClient) (message : Str) : (p.write message).client = p.client := by
  unfold write
  split
  · split_ifs
    · rfl
    · rfl
  · rfl

theorem client_newConnection (p : P2PClient) (probes : Probes) :
    (p.newConnection probes).client.connection = some p.nextConn := by
  rw [newConnection, onConnection, if_pos (by simp [establish])]
  dsimp only
  split_ifs
  · rw [client_write]
    rfl
  · rw [client_write]
    rfl

/-- A connection that goes up while another is open takes the last pointer to that one. -/
theorem Idle.not_allOwned_newConnection {p : P2PClient} (h : p.Idle) (hstuck : p.stuck = false)
    {c : ConnId} (hc : p.connection = some c) (probes : Probes) :
    ¬ (p.newConnection probes).AllOwned := by
  obtain ⟨hpoller, hqueued, -⟩ := h.current c hc
  have hk := kept_newConnection p probes
  have hne : p.nextConn ≠ c := (h.fresh c (.inl hpoller)).ne'
  intro howned
  have hmem : c ∈ (p.newConnection probes).poller := by
    rw [hk.poller]
    exact List.mem_cons_of_mem _ hpoller
  rcases howned c hmem with hconnection | hclient | hguard | hq
  · exact hne (Option.some.inj (hk.connection.symm.trans hconnection))
  · exact hne (Option.some.inj ((client_newConnection p probes).symm.trans hclient))
  · have := h.unguarded hstuck
    rw [hk.guard] at hguard
    exact Option.some_ne_none c (hguard.symm.trans this)
  · rw [hk.functors] at hq
    exact hqueued hq

/-! ### Whole runs -/

/-- The condition on an event: a new connection goes up only after the one before went down. -/
def UpAfterDown (p : P2PClient) : Event → Prop
  | .up _ => p.stuck = false → p.client.connecting = true → p.connection = none
  | _ => True

theorem step_of_stuck {p : P2PClient} (h : p.stuck = true) (e : Event) : p.step e = p :=
  if_pos h

theorem step_of_not_stuck {p : P2PClient} (h : p.stuck = false) (e : Event) :
    p.step e = p.handle e :=
  if_neg (by simp [h])

/-- The step lemma: every event that the condition allows keeps the invariant. -/
theorem Idle.step {p : P2PClient} (h : p.Idle) (e : Event) (he : p.UpAfterDown e) :
    (p.step e).Idle := by
  cases hs : p.stuck with
  | true => rwa [step_of_stuck hs]
  | false =>
    rw [step_of_not_stuck hs]
    cases e with
    | up probes =>
      rw [handle]
      split_ifs with hconnecting
      · exact h.newConnection hs (he hs hconnecting) probes
      · exact h
    | messages c ms invalid => exact h.messages hs c ms invalid
    | down c probes => exact h.down hs c probes
    | runFunctor probes => exact h.runFunctor hs probes
    | changeServer dest works => exact h.of_kept hs (kept_changeServer p dest works)
    | request message => exact h.of_kept hs (kept_onRequest p message)

theorem Idle.allOwned_step_iff {p : P2PClient} (h : p.Idle) (e : Event) :
    (p.step e).AllOwned ↔ p.UpAfterDown e := by
  refine ⟨fun howned => ?_, fun he => (h.step e he).allOwned⟩
  cases e with
  | up probes =>
    intro hs hconnecting
    rw [step_of_not_stuck hs, handle, if_pos hconnecting] at howned
    cases hconnection : p.connection with
    | none => rfl
    | some c => exact absurd howned (h.not_allOwned_newConnection hs hconnection probes)
  | _ => trivial

/-- In a run of a client every registered connection stays owned exactly when no new connection
goes up before the one in `connection_` went down. -/
theorem allOwned_iff (statics : P2PCServer) (state : ConnState) (serverAddr : Str)
    (es : List Event) :
    Runs.EveryStep step (fun _ _ p' => p'.AllOwned) (start statics state serverAddr) es ↔
      Runs.EveryStep step (fun p e _ => p.UpAfterDown e) (start statics state serverAddr) es :=
  Runs.everyStep_iff (I := fun p : P2PClient => p.Idle)
    (fun _ e h => h.allOwned_step_iff e)
    (fun _ e h howned => h.step e ((h.allOwned_step_iff e).1 howned))
    (idle_start statics state serverAddr) es

/-- The reply of the server sends a client to its first neighbour, and the new connection goes up
before the close event of the old one. -/
theorem not_allOwned :
    ¬ Runs.EveryStep step (fun _ _ p' => p'.AllOwned)
      (start { P2PCServer.start with IP := lit "9001" } .kDisconnected (lit "1111"))
      [.up ⟨fun _ _ => true, 1⟩,
        .messages 0 [(lit "b0" ++ [1] ++ lit "2222" ++ [5], ⟨fun _ _ => true, 1⟩)] false,
        .up ⟨fun _ _ => true, 1⟩] := by
  simp only [Runs.everyStep_cons]
  rintro ⟨-, -, howned, -⟩
  revert howned
  decide +kernel

end P2PClient

end Huaweip2p
