import Huaweip2p.Client.Handlers
import Huaweip2p.Protocol.Reply

/-!
# The network

One `P2PServer` and any number of clients. A client's requests wait, in order, for the program that
the connection goes to, and the replies wait for the client; each handler runs at once.

* `Addresses`: the clients by their IPs;
* `Network`: the server, the clients and what is on its way;
* `step`: a connection goes up or down, a program handles a request, or a client reads a reply;
* `dials`: the addresses that a client probes in a step.
-/

namespace Huaweip2p

namespace P2PServer

variable {σ : Type} [UserSet σ]

/-- `onStringMessage` after the lookup whose result is only printed. -/
def answer (c : UserCatalogue σ) (isClientWorking : Str → Bool) (r : Request) :
    Traced Access (UserCatalogue σ × List Effect) :=
  if r.type = chr 'a' then do
    let c' := (c.insertUser isClientWorking r.ip r.reqfile).1
    let reply ← processMessage c' r.ip
    return (c', [.send (lit "b0" ++ reply), .shutdown])
  else if r.type = chr 'c' then
    return (c, [.send (lit "d01111" ++ [intToChar 100])])
  else
    return (c, [])

theorem onStringMessage_eq (c : UserCatalogue σ) (w : Str → Bool) (m : Str) :
    onStringMessage c w m =
      readRequest m >>= fun r => c.hasNeighbor r.ip >>= fun _ => answer c w r := rfl

/-- `onStringMessage`, on a server that `survives` the dereference of `end()` in that lookup or
not. -/
def respond (c : UserCatalogue σ) (isClientWorking : Str → Bool) (survives : Bool) (m : Str) :
    Option (UserCatalogue σ × List Effect) :=
  if survives then (readRequest m >>= answer c isClientWorking).val
  else (onStringMessage c isClientWorking m).val

end P2PServer

/-- The clients of a network: different IPs of four characters, none of them the server's. -/
structure Addresses (ι : Type) where
  ip : ι → Str
  injective : Function.Injective ip
  length_eq (k : ι) : (ip k).length = 4
  ne_server (k : ι) : ip k ≠ lit "1111"

/-- A connection of a client, as the program it goes to has it: how many requests it took, whether
it shut the connection down, and the replies on their way; and how many the client received. -/
structure Link where
  peer : Str
  taken : ℕ
  isShutdown : Bool
  replies : List Str
  received : ℕ
  deriving DecidableEq, Repr

/-- What a handler does to the connection; nothing is sent on one that was shut down. -/
def Link.effect (l : Link) : Effect → Link
  | .send m => if l.isShutdown then l else { l with replies := l.replies ++ [m] }
  | .shutdown => { l with isShutdown := true }

/-- A request is taken, and its handler has the effects. -/
def Link.handled (l : Link) (effects : List Effect) : Link :=
  effects.foldl Link.effect { l with taken := l.taken + 1 }

/-- The client receives the oldest reply. -/
def Link.receive (l : Link) : Link :=
  { l with replies := l.replies.tail, received := l.received + 1 }

/-- The requests that a client sent on a connection, in order. -/
def P2PClient.requests (p : P2PClient) (c : ConnId) : List Str :=
  (p.sent.filter fun e => e.1 = c).map Prod.snd

structure Network (ι : Type) where
  catalogue : UserCatalogue.Catalogue
  serverIsDown : Bool
  client : ι → P2PClient
  link : ι → ConnId → Link

namespace Network

variable {ι : Type} (a : Addresses ι)

/-- Every program is started, and every client is told to connect to the server; the `state_` of a
client is not initialised. -/
def init (state : ι → ConnState) : Network ι where
  catalogue := UserCatalogue.init (lit "1111") 100
  serverIsDown := false
  client k := P2PClient.start (P2PCServer.start.setIP (a.ip k)) (state k) (lit "1111")
  link _ _ := ⟨[], 0, false, [], 0⟩

/-- What happens next, at client `k` or on its connection `c`. -/
inductive Event (ι : Type)
  | up (k : ι) (probes : Probes)
  /-- The client reads the oldest reply; there is never another (`length_replies_le`). -/
  | message (k : ι) (c : ConnId) (probes : Probes)
  /-- The codec of the client meets a reply that is too long. -/
  | invalid (k : ι) (c : ConnId)
  | down (k : ι) (c : ConnId) (probes : Probes)
  | runFunctor (k : ι) (probes : Probes)
  /-- The server handles the oldest request. -/
  | serve (k : ι) (c : ConnId) (isClientWorking : Str → Bool) (survives : Bool)
  /-- The listening half of client `j` handles the oldest request. -/
  | request (j k : ι) (c : ConnId)

variable [DecidableEq ι] (n : Network ι)

def setClient (k : ι) (p : P2PClient) : Network ι :=
  { n with client := Function.update n.client k p }

def setLink (k : ι) (c : ConnId) (l : Link) : Network ι :=
  { n with link := Function.update n.link k (Function.update (n.link k) c l) }

/-- The oldest request on a connection that was not taken. -/
def nextRequest (k : ι) (c : ConnId) : Option Str :=
  ((n.client k).requests c)[(n.link k c).taken]?

/-- The reply that a client would read next on a connection. -/
def reading (k : ι) (c : ConnId) : Option Str :=
  if (n.client k).stuck = false ∧ (n.client k).Dispatches c then (n.link k c).replies.head?
  else none

def step : Event ι → Network ι
  | .up k probes =>
    let p := n.client k
    if p.stuck = false ∧ p.client.connecting = true then
      (n.setLink k p.nextConn ⟨p.client.serverAddr, 0, false, [], 0⟩).setClient k
        (p.step (.up probes))
    else n
  | .message k c probes =>
    match n.reading k c with
    | none => n
    | some m =>
      (n.setLink k c (n.link k c).receive).setClient k
        ((n.client k).step (.messages c [(m, probes)] false))
  | .invalid k c => n.setClient k ((n.client k).step (.messages c [] true))
  | .down k c probes => n.setClient k ((n.client k).step (.down c probes))
  | .runFunctor k probes => n.setClient k ((n.client k).step (.runFunctor probes))
  | .serve k c isClientWorking survives =>
    match n.nextRequest k c with
    | none => n
    | some m =>
      if (n.link k c).peer = lit "1111" ∧ n.serverIsDown = false then
        match P2PServer.respond n.catalogue isClientWorking survives m with
        | none => { n with serverIsDown := true }
        | some (catalogue, effects) =>
          { n with catalogue := catalogue }.setLink k c ((n.link k c).handled effects)
      else n
  | .request j k c =>
    match n.nextRequest k c with
    | none => n
    | some m =>
      if (n.link k c).peer = a.ip j then
        let effects := ((n.client j).statics.onStringMessage m).val.elim [] Prod.snd
        (n.setClient j ((n.client j).onRequest m)).setLink k c ((n.link k c).handled effects)
      else n

end Network

end Huaweip2p
