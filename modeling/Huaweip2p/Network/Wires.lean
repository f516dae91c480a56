import Huaweip2p.Network.Registrations

/-!
# The network in bytes

The network of `Network/Model`, with what that leaves out between the programs: a connection is a
`TcpConnection` with its codec at either end, and what one end has written arrives at the other in
pieces, whenever it is read.

* `Session.handleRead`, `Session.follow`: what happens to one end of a connection;
* `Wire`: both ends, and how far each has read what the other wrote;
* `ByteNetwork`, `step`: the programs with their connections;
* `Wire.Refines`: what a connection has to do with the messages of the network.
-/

namespace Huaweip2p

open UserCatalogue LengthHeaderCodec

/-! ### One end of a connection -/

namespace Session

/-- `TcpConnection::handleRead` with data, at the end of a program with the state `state`. -/
def handleRead {σ α : Type} (handle : Handler σ α) (state : σ) (s : Session) (data : Str)
    (answers : ℕ → α) (writes : ℕ → ℕ → Option ℕ) : Option (σ × Session) := do
  let buf ← s.inputBuffer.readFd data
  let (t, buf) ← onMessageWith (Sessions.messageCallback handle () answers writes)
    Sessions.Turn.shutdown (buf.readableBytes + 1) 0 ⟨state, s.output, []⟩ buf
  return (t.state, ⟨t.output, buf⟩)

/-- `TcpConnection::handleWrite`. -/
def handleWrite (s : Session) (w : Option ℕ) : Option Session := do
  let output ← s.output.step (.handleWrite w)
  return { s with output := output }

/-- What a handler did to a connection, done to its end: it sent and shut down, or closed it. -/
def follow (s : Session) (effects : List Effect) (closes : Bool) (writes : ℕ → Option ℕ) :
    Option Session := do
  let output ← s.output.perform writes effects
  let s := { s with output := output }
  return if closes then s.handleClose else s

end Session

namespace P2PClient

/-- What a step of a client from `p` to `p'` did to connection `c`. A connection that was shut down
sends nothing any more. -/
def effects (p p' : P2PClient) (c : ConnId) : List Effect :=
  ((p'.sent.drop p.sent.length).filter fun e => e.1 = c).map (fun e => .send e.2) ++
    if (p.conns c).state = .kConnected ∧ (p'.conns c).state = .kDisconnecting then [.shutdown]
    else []

/-- The step closed the connection. -/
def closes (p p' : P2PClient) (c : ConnId) : Bool :=
  (p.conns c).state ≠ .kDisconnected ∧ (p'.conns c).state = .kDisconnected

/-- The listening half of the client as a handler. -/
def listener : Handler P2PClient Unit := fun _ p m =>
  some (p.onRequest m, (p.statics.onStringMessage m).val.elim [] Prod.snd)

end P2PClient

/-- `onStringMessage` of a server that may go down, and then does nothing any more. -/
def P2PServer.handlerUntilDown : Handler (Catalogue × Bool) ((Str → Bool) × Bool) := fun a s m =>
  if s.2 then some (s, [])
  else match respond s.1 a.1 a.2 m with
    | none => some ((s.1, true), [])
    | some (c, effects) => some ((c, false), effects)

/-! ### Connections -/

/-- A connection of a client: the client's end, the end of the program it goes to, and how many
bytes each has read of what the other wrote. -/
structure Wire where
  client : Session
  peer : Session
  readByClient : ℕ
  readByPeer : ℕ

namespace Wire

/-- No connection yet. -/
def init : Wire := ⟨.init, .init, 0, 0⟩

/-- The client has established the connection, and the other program has not. -/
def opened : Wire := { init with client := Session.init.connectEstablished }

/-- The bytes that the client has read. -/
def atClient (w : Wire) : Str := w.peer.output.conn.written.take w.readByClient

/-- The bytes that the other program has read. -/
def atPeer (w : Wire) : Str := w.client.output.conn.written.take w.readByPeer

/-- The next bytes for the client: what `readv` takes of the first `n`. -/
def toClient (w : Wire) (n : ℕ) : Str :=
  (w.peer.output.conn.written.drop w.readByClient).take (min n w.client.inputBuffer.capacity)

/-- The next bytes for the other program. -/
def toPeer (w : Wire) (n : ℕ) : Str :=
  (w.client.output.conn.written.drop w.readByPeer).take (min n w.peer.inputBuffer.capacity)

end Wire

/-- The network with its connections. -/
structure ByteNetwork (ι : Type) where
  catalogue : Catalogue
  serverIsDown : Bool
  client : ι → P2PClient
  peer : ι → ConnId → Str
  wire : ι → ConnId → Wire

namespace ByteNetwork

variable {ι : Type} (a : Addresses ι)

def init (state : ι → ConnState) : ByteNetwork ι where
  catalogue := UserCatalogue.init (lit "1111") 100
  serverIsDown := false
  client k := P2PClient.start (P2PCServer.start.setIP (a.ip k)) (state k) (lit "1111")
  peer _ _ := []
  wire _ _ := .init

/-- What happens next, at client `k` or on its connection `c`; the last argument of an event in
which something may be sent has the results of the writes. -/
inductive Event (ι : Type)
  | up (k : ι) (probes : Probes) (writes : ConnId → ℕ → Option ℕ)
  /-- The other program establishes the connection. -/
  | accept (k : ι) (c : ConnId)
  /-- The client reads at most `n` bytes; the `i`-th message in them is handled with the `i`-th
  probes. -/
  | clientRead (k : ι) (c : ConnId) (n : ℕ) (probes : ℕ → Probes) (writes : ConnId → ℕ → Option ℕ)
  | clientWrite (k : ι) (c : ConnId) (w : Option ℕ)
  | down (k : ι) (c : ConnId) (probes : Probes) (writes : ConnId → ℕ → Option ℕ)
  | runFunctor (k : ι) (probes : Probes) (writes : ConnId → ℕ → Option ℕ)
  /-- The server reads at most `n` bytes. -/
  | serverRead (k : ι) (c : ConnId) (n : ℕ) (answers : ℕ → (Str → Bool) × Bool)
    (writes : ℕ → ℕ → Option ℕ)
  /-- The listening half of client `j` reads at most `n` bytes. -/
  | listenerRead (j k : ι) (c : ConnId) (n : ℕ) (writes : ℕ → ℕ → Option ℕ)
  | peerWrite (k : ι) (c : ConnId) (w : Option ℕ)
  | peerClose (k : ι) (c : ConnId)

variable [DecidableEq ι] (w : ByteNetwork ι)

def setClient (k : ι) (p : P2PClient) : ByteNetwork ι :=
  { w with client := Function.update w.client k p }

def setWire (k : ι) (c : ConnId) (wire : Wire) : ByteNetwork ι :=
  { w with wire := Function.update w.wire k (Function.update (w.wire k) c wire) }

def setPeer (k : ι) (c : ConnId) (peer : Str) : ByteNetwork ι :=
  { w with peer := Function.update w.peer k (Function.update (w.peer k) c peer) }

/-- The connection goes to the server, which is down. -/
def PeerIsDown (k : ι) (c : ConnId) : Prop := w.peer k c = lit "1111" ∧ w.serverIsDown = true

instance (k : ι) (c : ConnId) : Decidable (w.PeerIsDown k c) :=
  inferInstanceAs (Decidable (_ ∧ _))

/-- The connection was made, and the program that it goes to is running. -/
def IsServed (k : ι) (c : ConnId) : Prop := c < (w.client k).nextConn ∧ ¬ w.PeerIsDown k c

instance (k : ι) (c : ConnId) : Decidable (w.IsServed k c) :=
  inferInstanceAs (Decidable (_ ∧ _))

/-- The client handles events of the connection. -/
def IsPolled (k : ι) (c : ConnId) : Prop :=
  (w.client k).stuck = false ∧ (w.client k).Dispatches c

instance (k : ι) (c : ConnId) : Decidable (w.IsPolled k c) :=
  inferInstanceAs (Decidable (_ ∧ _))

/-- Client `k` becomes `p`, and what it did to its connections is done to its ends of them. -/
def follow (k : ι) (p : P2PClient) (writes : ConnId → ℕ → Option ℕ) :
    Option (ByteNetwork ι) := do
  let wires ← (List.range p.nextConn).foldlM (fun wires c =>
    (((wires c).client.follow ((w.client k).effects p c) ((w.client k).closes p c)
      (writes c)).map fun client => { wires c with client := client }).map
        (Function.update wires c)) (w.wire k)
  return { w.setClient k p with wire := Function.update w.wire k wires }

/-- `handleRead` of a client: the codec takes the messages out of what it read. -/
def clientRead (k : ι) (c : ConnId) (data : Str) (probes : ℕ → Probes)
    (writes : ConnId → ℕ → Option ℕ) : Option (ByteNetwork ι) := do
  let wire := w.wire k c
  let buf ← wire.client.inputBuffer.readFd data
  let (messages, invalid, buf) ← onMessage buf
  (w.setWire k c { wire with
      client := { wire.client with inputBuffer := buf }
      readByClient := wire.readByClient + data.length }).follow k
    ((w.client k).step (.messages c (messages.zipIdx.map fun m => (m.1, probes m.2)) invalid))
    writes

/-- `handleRead` of the program that the connection goes to, whose state is `state`. -/
def peerRead {σ α : Type} (handle : Handler σ α) (state : σ) (k : ι) (c : ConnId) (data : Str)
    (answers : ℕ → α) (writes : ℕ → ℕ → Option ℕ) : Option (σ × ByteNetwork ι) := do
  let wire := w.wire k c
  let (state, peer) ← wire.peer.handleRead handle state data answers writes
  return (state, w.setWire k c { wire with
    peer := peer
    readByPeer := wire.readByPeer + data.length })

/-- One event; without data, and at an end that is not polled, nothing is read. -/
def step : Event ι → Option (ByteNetwork ι)
  | .up k probes writes =>
    let p := w.client k
    if p.stuck = false ∧ p.client.connecting = true then
      ((w.setWire k p.nextConn .opened).setPeer k p.nextConn p.client.serverAddr).follow k
        (p.step (.up probes)) writes
    else some w
  | .accept k c =>
    let wire := w.wire k c
    if w.IsServed k c ∧ wire.peer.output.conn.state = .kConnecting then
      some (w.setWire k c { wire with peer := wire.peer.connectEstablished })
    else some w
  | .clientRead k c n probes writes =>
    let data := (w.wire k c).toClient n
    if w.IsPolled k c ∧ data ≠ [] then w.clientRead k c data probes writes else some w
  | .clientWrite k c result =>
    if w.IsPolled k c then do
      let client ← (w.wire k c).client.handleWrite result
      return w.setWire k c { w.wire k c with client := client }
    else some w
  | .down k c probes writes => w.follow k ((w.client k).step (.down c probes)) writes
  | .runFunctor k probes writes => w.follow k ((w.client k).step (.runFunctor probes)) writes
  | .serverRead k c n answers writes =>
    let wire := w.wire k c
    let data := wire.toPeer n
    if w.IsServed k c ∧ w.peer k c = lit "1111" ∧ wire.peer.Reads ∧ data ≠ [] then do
      let (s, w) ← w.peerRead P2PServer.handlerUntilDown (w.catalogue, w.serverIsDown) k c data
        answers writes
      return { w with catalogue := s.1, serverIsDown := s.2 }
    else some w
  | .listenerRead j k c n writes =>
    let wire := w.wire k c
    let data := wire.toPeer n
    if w.IsServed k c ∧ w.peer k c = a.ip j ∧ wire.peer.Reads ∧ data ≠ [] then do
      let (p, w) ← w.peerRead P2PClient.listener (w.client j) k c data (fun _ => ()) writes
      return w.setClient j p
    else some w
  | .peerWrite k c result =>
    if w.IsServed k c then do
      let peer ← (w.wire k c).peer.handleWrite result
      return w.setWire k c { w.wire k c with peer := peer }
    else some w
  | .peerClose k c =>
    let wire := w.wire k c
    if w.IsServed k c ∧ wire.peer.Reads then
      some (w.setWire k c { wire with peer := wire.peer.handleClose })
    else some w

end ByteNetwork

/-! ### What one end does -/

/-- The messages that the codec delivers are not long. -/
theorem LengthHeaderCodec.length_le_of_mem_parse {s m : Str} (h : m ∈ (decoder.parse s).1) :
    m.length ≤ 65536 := by
  induction s using StreamDecoder.parse.induct decoder with
  | case1 s m' rest hfront ih =>
    rw [StreamDecoder.parse_of_frame hfront, List.mem_cons] at h
    rcases h with rfl | h
    · obtain ⟨-, hvalid, -, rfl, -⟩ := front_eq_frame_iff.1 hfront
      have hlen := hvalid.2
      rw [List.length_take]
      omega
    · exact ih h
  | case2 s hfront =>
    rw [StreamDecoder.parse_of_incomplete hfront] at h
    cases h
  | case3 s hfront =>
    rw [StreamDecoder.parse_of_invalid hfront] at h
    cases h

theorem Effect.sends_map_append (ms : List Str) (es : List Effect) :
    Effect.sends (ms.map .send ++ es) = ms ++ Effect.sends es := by
  induction ms with
  | nil => rfl
  | cons m ms ih => rw [List.map_cons, List.cons_append, Effect.sends, ih, List.cons_append]

namespace Session

variable {s : Session} {arrived : Str} {es : List Effect}

theorem Inv.written_prefix (h : s.Inv arrived es) :
    s.output.conn.written <+: encoder.encodeAll (Effect.sends es) := by
  rw [← h.encoded]
  exact List.prefix_append _ _

/-- What a handler did to a connection that is up, or nothing, and the close. -/
theorem Inv.follow (h : s.Inv arrived es)
    (hvalid : decoder.front (decoder.parse arrived).2 ≠ .invalid) {effects : List Effect}
    (hopen : effects ≠ [] → s.Reads ∧ .shutdown ∉ es) (closes : Bool) (writes : ℕ → Option ℕ) :
    ∃ s', s.follow effects closes writes = some s' ∧ s'.Inv arrived (es ++ effects) ∧
      s.output.conn.written <+: s'.output.conn.written ∧
      (closes = false → s.Reads → s'.Reads) := by
  -- up to the close
  have hperform : ∃ output, s.output.perform writes effects = some output ∧
      ({ s with output := output } : Session).Inv arrived (es ++ effects) ∧
      s.output.conn.written <+: output.conn.written ∧
      output.conn.channel.reading = s.output.conn.channel.reading := by
    by_cases hne : effects = []
    · subst hne
      exact ⟨s.output, rfl, by rwa [List.append_nil], List.prefix_refl _, rfl⟩
    obtain ⟨hreads, hnot⟩ := hopen hne
    obtain ⟨output, houtput, hperforms⟩ := (h.output hreads).perform writes effects
    have hcalled : ¬ s.output.shutdownCalled = true := fun hcalled =>
      (h.shutdownCalled_iff.1 hcalled).elim hnot hvalid
    refine ⟨output, houtput, inv_of_output (hperforms.reading_eq.trans hreads) hperforms.inv
      h.wellFormed h.content_eq ?_ ?_, hperforms.written_prefix, hperforms.reading_eq⟩
    · rw [hperforms.accepted_eq, if_neg hcalled, h.accepted_eq, Effect.sends_append, if_neg hnot,
        List.map_append]
    · rw [hperforms.shutdownCalled_iff, List.mem_append]
      simp [hcalled, hnot, hvalid]
  obtain ⟨output, houtput, hinv, hgrows, hreading⟩ := hperform
  rw [Session.follow, houtput, Option.bind_eq_bind, Option.bind_some]
  cases closes with
  | true => exact ⟨_, rfl, hinv.handleClose, hgrows, fun hfalse => by cases hfalse⟩
  | false => exact ⟨_, rfl, hinv, hgrows, fun _ hreads => hreading.trans hreads⟩

/-- Data arrives that leads to nothing invalid: the codec takes the messages out. -/
theorem Inv.receive (h : s.Inv arrived es) (hreads : s.Reads) {data : Str}
    (hvalid : decoder.front (decoder.parse (arrived ++ data)).2 ≠ .invalid) :
    ∃ b ms buf, s.inputBuffer.readFd data = some b ∧ onMessage b = some (ms, false, buf) ∧
      (decoder.parse (arrived ++ data)).1 = (decoder.parse arrived).1 ++ ms ∧
      ({ s with inputBuffer := buf } : Session).Inv (arrived ++ data) es := by
  obtain ⟨b, hb, hwfb, hcontentb⟩ := h.wellFormed.readFd data
  obtain ⟨invalid, buf, hloop, hwf, hcontent, hinvalid⟩ := onMessage_eq hwfb
  have hparse : decoder.parse (arrived ++ data) = ((decoder.parse arrived).1 ++
      (decoder.parse b.content).1, (decoder.parse b.content).2) := by
    rw [decoder.parse_append, hcontentb, h.content_eq]
  have hcontent' : buf.content = (decoder.parse (arrived ++ data)).2 := by rw [hcontent, hparse]
  have hfalse : invalid = false := by
    rw [← Bool.not_eq_true, hinvalid, hcontent']
    exact hvalid
  subst hfalse
  refine ⟨b, _, buf, hb, hloop, by rw [hparse], ?_⟩
  have hread := h.handleRead hreads (fun _ => rfl) (h.output hreads).performs_nil hwf hcontent'
    (.inr ⟨by rwa [hcontent'], rfl⟩)
  rwa [List.append_nil] at hread

end Session

/-! ### A connection and its messages -/

theorem take_of_prefix {l l' : Str} (h : l <+: l') {n : ℕ} (hn : n ≤ l.length) :
    l'.take n = l.take n := by
  obtain ⟨t, rfl⟩ := h
  exact List.take_append_of_le_length hn

/-- What was read, and the next piece. -/
theorem take_append_drop_take (l : Str) (r n : ℕ) :
    l.take r ++ (l.drop r).take n = l.take (r + ((l.drop r).take n).length) := by
  rw [List.take_add, ← List.prefix_iff_eq_take.1 (List.take_prefix n (l.drop r))]

namespace Wire

/-- The connection carries the messages of a link: the client's end what the client sent; the other
end what was received and the replies on their way; and each has taken out of what it read the
messages that are taken. -/
structure Refines (requests : List Str) (l : Link) (state : StateE) (isDown : Prop) (w : Wire) :
    Prop where
  client : ∃ es, w.client.Inv w.atClient es ∧ Effect.sends es = requests ∧
    (state = .kConnected → .shutdown ∉ es)
  reads : state ≠ .kDisconnected → w.client.Reads
  peer : ∃ es, w.peer.Inv w.atPeer es ∧
    Effect.sends es = (decoder.parse w.atClient).1 ++ l.replies ∧
    (.shutdown ∈ es ↔ l.isShutdown = true)
  received_eq : (decoder.parse w.atClient).1.length = l.received
  taken_eq : isDown ∨ (decoder.parse w.atPeer).1 = requests.take l.taken
  readByClient_le : w.readByClient ≤ w.peer.output.conn.written.length
  readByPeer_le : w.readByPeer ≤ w.client.output.conn.written.length

theorem Refines.imp {w : Wire} {requests : List Str} {l : Link} {state : StateE}
    {isDown isDown' : Prop} (h : w.Refines requests l state isDown) (himp : isDown → isDown') :
    w.Refines requests l state isDown' :=
  { h with taken_eq := h.taken_eq.imp_left himp }

/-- Of a program that is down nothing is said about what it took. -/
theorem Refines.of_handled {w : Wire} {requests : List Str} {l : Link} {state : StateE}
    {isDown isDown' : Prop} (h : w.Refines requests (l.handled []) state isDown)
    (hdown : isDown') : w.Refines requests l state isDown' := by
  obtain ⟨es, hinv, hsends, hshut⟩ := h.peer
  rw [Link.handled_eq] at hsends hshut
  refine { h with peer := ⟨es, hinv, ?_, ?_⟩, received_eq := ?_, taken_eq := .inl hdown }
  · rw [hsends]
    simp [Effect.sends]
  · rw [hshut]
    simp
  · rw [h.received_eq, Link.handled_eq]

theorem refines_opened (peer : Str) (isDown : Prop) :
    opened.Refines [] ⟨peer, 0, false, [], 0⟩ .kConnected isDown := by
  have hnil : decoder.parse [] = ([], []) := StreamDecoder.parse_of_incomplete rfl
  exact
    { client := ⟨[], Session.inv_init.connectEstablished rfl, rfl, by simp⟩
      reads := fun _ => rfl
      peer := ⟨[], Session.inv_init, by
        rw [List.append_nil]
        exact (congrArg Prod.fst hnil).symm, by simp⟩
      received_eq := congrArg (fun r => r.1.length) hnil
      taken_eq := .inr (congrArg Prod.fst hnil)
      readByClient_le := le_refl 0
      readByPeer_le := le_refl 0 }

variable {w : Wire} {requests : List Str} {l : Link} {state : StateE} {isDown : Prop}

/-- What the client has written is made of its requests. -/
theorem Refines.of_requests (h : w.Refines requests l state isDown)
    (hrequests : ∀ m ∈ requests, m.length ≤ 65536) {s : Str}
    (hs : s <+: w.client.output.conn.written) :
    decoder.front (decoder.parse s).2 ≠ .invalid ∧ (decoder.parse s).1 <+: requests := by
  obtain ⟨es, hinv, rfl, -⟩ := h.client
  have hencoded := hs.trans hinv.written_prefix
  exact ⟨encoder.front_parse_prefix hrequests hencoded, encoder.parse_prefix hrequests hencoded⟩

/-- What the other program has written is made of the replies received and those on their way. -/
theorem Refines.of_replies (h : w.Refines requests l state isDown)
    (hreplies : ∀ m ∈ l.replies, m.length ≤ 65536) {s : Str}
    (hs : s <+: w.peer.output.conn.written) :
    decoder.front (decoder.parse s).2 ≠ .invalid ∧
      (decoder.parse s).1 <+: (decoder.parse w.atClient).1 ++ l.replies := by
  obtain ⟨es, hinv, hsends, -⟩ := h.peer
  have hencoded := hs.trans hinv.written_prefix
  rw [hsends] at hencoded
  have hshort : ∀ m ∈ (decoder.parse w.atClient).1 ++ l.replies, m.length ≤ 65536 := fun m hm =>
    (List.mem_append.1 hm).elim length_le_of_mem_parse (hreplies m)
  exact ⟨encoder.front_parse_prefix hshort hencoded, encoder.parse_prefix hshort hencoded⟩

/-- The client's end changes, and has read what it had read before. -/
theorem Refines.with_client (h : w.Refines requests l state isDown) {client : Session}
    {requests' : List Str} {state' : StateE}
    (hclient : ∃ es, client.Inv w.atClient es ∧ Effect.sends es = requests' ∧
      (state' = .kConnected → .shutdown ∉ es))
    (hreads : state' ≠ .kDisconnected → client.Reads)
    (hgrows : w.client.output.conn.written <+: client.output.conn.written)
    (htaken : requests'.take l.taken = requests.take l.taken) :
    ({ w with client := client } : Wire).Refines requests' l state' isDown := by
  have hpeer : ({ w with client := client } : Wire).atPeer = w.atPeer :=
    take_of_prefix hgrows h.readByPeer_le
  exact
    { client := hclient
      reads := hreads
      peer := by
        rw [hpeer]
        exact h.peer
      received_eq := h.received_eq
      taken_eq := by
        rw [hpeer, htaken]
        exact h.taken_eq
      readByClient_le := h.readByClient_le
      readByPeer_le := h.readByPeer_le.trans hgrows.length_le }

/-- The end of the other program changes, and has read the first `r` bytes. -/
theorem Refines.with_peer (h : w.Refines requests l state isDown) {peer : Session} {r : ℕ}
    {l' : Link} {isDown' : Prop}
    (hpeer : ∃ es, peer.Inv (w.client.output.conn.written.take r) es ∧
      Effect.sends es = (decoder.parse w.atClient).1 ++ l'.replies ∧
      (.shutdown ∈ es ↔ l'.isShutdown = true))
    (hgrows : w.peer.output.conn.written <+: peer.output.conn.written)
    (hr : r ≤ w.client.output.conn.written.length) (hreceived : l'.received = l.received)
    (htaken : isDown' ∨
      (decoder.parse (w.client.output.conn.written.take r)).1 = requests.take l'.taken) :
    ({ w with peer := peer, readByPeer := r } : Wire).Refines requests l' state isDown' := by
  have hclient : ({ w with peer := peer, readByPeer := r } : Wire).atClient = w.atClient :=
    take_of_prefix hgrows h.readByClient_le
  exact
    { client := by
        rw [hclient]
        exact h.client
      reads := h.reads
      peer := by
        rw [hclient]
        exact hpeer
      received_eq := by rw [hclient, h.received_eq, hreceived]
      taken_eq := htaken
      readByClient_le := h.readByClient_le.trans hgrows.length_le
      readByPeer_le := hr }

/-- What a step of the client did to the connection. -/
theorem Refines.follow (h : w.Refines requests l state isDown)
    (hreplies : ∀ m ∈ l.replies, m.length ≤ 65536) (htaken : l.taken ≤ requests.length)
    (ms : List Str) {tail : List Effect} (htail : tail = [] ∨ tail = [.shutdown]) {closes : Bool}
    {state' : StateE} (hsend : ms.map .send ++ tail ≠ [] → state = .kConnected)
    (hstate : state' = .kConnected → state = .kConnected ∧ tail = [])
    (hdown : state' ≠ .kDisconnected → state ≠ .kDisconnected ∧ closes = false)
    (writes : ℕ → Option ℕ) :
    ∃ client, w.client.follow (ms.map .send ++ tail) closes writes = some client ∧
      ({ w with client := client } : Wire).Refines (requests ++ ms) l state' isDown := by
  obtain ⟨es, hinv, hsends, hopen⟩ := h.client
  have hvalid := (h.of_replies hreplies (s := w.atClient) (List.take_prefix _ _)).1
  have hup : ms.map .send ++ tail ≠ [] → w.client.Reads ∧ .shutdown ∉ es := fun hne =>
    ⟨h.reads (by rw [hsend hne]; decide), hopen (hsend hne)⟩
  obtain ⟨client, hfollow, hinv', hgrows, hreads⟩ := hinv.follow hvalid hup closes writes
  refine ⟨client, hfollow, h.with_client ⟨_, hinv', ?_, fun hstate' => ?_⟩ (fun hne => ?_) hgrows
    (List.take_append_of_le_length htaken)⟩
  · rw [Effect.sends_append]
    split_ifs with hmem
    · -- nothing was sent on a connection that was shut down
      have hnil : ms.map Effect.send ++ tail = [] := by
        by_contra hne
        exact (hup hne).2 hmem
      rw [List.map_eq_nil_iff.1 (List.append_eq_nil_iff.1 hnil).1, List.append_nil, hsends]
    · rw [Effect.sends_map_append, hsends]
      rcases htail with rfl | rfl
      · rw [Effect.sends, List.append_nil]
      · rw [Effect.sends, List.append_nil]
  · obtain ⟨hconnected, rfl⟩ := hstate hstate'
    rw [List.append_nil, List.mem_append]
    rintro (hmem | hmem)
    · exact hopen hconnected hmem
    · simp at hmem
  · obtain ⟨hne', hcloses⟩ := hdown hne
    exact hreads hcloses (h.reads hne')

/-- The first request is sent on a new connection. -/
theorem refines_opened_send (peer : Str) (isDown : Prop) (m : Str) (writes : ℕ → Option ℕ) :
    ∃ client, opened.client.follow [.send m] false writes = some client ∧
      ({ opened with client := client } : Wire).Refines [m] ⟨peer, 0, false, [], 0⟩ .kConnected
        isDown :=
  (refines_opened peer isDown).follow (by simp) (by simp) [m] (.inl rfl) (fun _ => rfl)
    (fun _ => ⟨rfl, rfl⟩) (fun _ => ⟨by decide, rfl⟩) writes

/-- The client reads: at most one reply comes out. -/
theorem Refines.receive (h : w.Refines requests l state isDown)
    (hreplies : ∀ m ∈ l.replies, m.length ≤ 65536) (hone : l.replies.length ≤ 1)
    (hstate : state ≠ .kDisconnected) (n : ℕ) :
    ∃ b ms buf, w.client.inputBuffer.readFd (w.toClient n) = some b ∧
      onMessage b = some (ms, false, buf) ∧
      let w' : Wire := { w with
        client := { w.client with inputBuffer := buf }
        readByClient := w.readByClient + (w.toClient n).length }
      (ms = [] ∧ w'.Refines requests l state isDown ∨
        ∃ m, ms = [m] ∧ l.replies = [m] ∧ w'.Refines requests l.receive state isDown) := by
  obtain ⟨es, hinv, hsends, hopen⟩ := h.client
  obtain ⟨es', hinv', hsends', hshut⟩ := h.peer
  have hread : w.atClient ++ w.toClient n =
      w.peer.output.conn.written.take (w.readByClient + (w.toClient n).length) :=
    take_append_drop_take _ _ _
  have hle : w.readByClient + (w.toClient n).length ≤ w.peer.output.conn.written.length := by
    have hle := h.readByClient_le
    rw [toClient, List.length_take, List.length_drop]
    omega
  have hnew := h.of_replies hreplies (s := w.atClient ++ w.toClient n)
    (hread ▸ List.take_prefix _ _)
  obtain ⟨b, ms, buf, hb, hloop, hparse, hclient⟩ := hinv.receive (h.reads hstate) hnew.1
  have hms : ms <+: l.replies := by
    have hpre := hnew.2
    rw [hparse] at hpre
    exact (List.prefix_append_right_inj _).1 hpre
  rw [hread] at hclient
  -- what is left to show for a link
  have hrefines : ∀ l' : Link, l'.isShutdown = l.isShutdown → l'.taken = l.taken →
      l'.received = l.received + ms.length → l.replies = ms ++ l'.replies →
      ({ w with
        client := { w.client with inputBuffer := buf }
        readByClient := w.readByClient + (w.toClient n).length } : Wire).Refines requests l' state
          isDown := by
    intro l' hisShutdown htaken hreceived hreplies'
    rw [hread] at hparse
    exact
      { client := ⟨es, hclient, hsends, hopen⟩
        reads := h.reads
        peer := ⟨es', hinv', by rw [hsends', hreplies', ← List.append_assoc, ← hparse]; rfl,
          by rw [hshut, hisShutdown]⟩
        received_eq := by
          rw [atClient, hparse, List.length_append, h.received_eq, hreceived]
        taken_eq := by
          rw [htaken]
          exact h.taken_eq
        readByClient_le := hle
        readByPeer_le := h.readByPeer_le }
  refine ⟨b, ms, buf, hb, hloop, ?_⟩
  match ms, hms, hrefines with
  | [], _, hrefines => exact .inl ⟨rfl, hrefines l rfl rfl rfl rfl⟩
  | [m], hms, hrefines =>
    obtain ⟨t, ht⟩ := hms
    have hnil : t = [] := by
      rw [← ht, List.length_append, List.length_singleton] at hone
      exact List.eq_nil_of_length_eq_zero (by omega)
    subst hnil
    refine .inr ⟨m, rfl, ht.symm, hrefines l.receive rfl rfl rfl ?_⟩
    rw [Link.receive, ← ht]
    rfl
  | _ :: _ :: _, hms, _ =>
    have hlength := hms.length_le.trans hone
    simp at hlength

/-- The other program reads: at most one request comes out. -/
theorem Refines.handleRead (h : w.Refines requests l state False)
    (hrequests : ∀ m ∈ requests, m.length ≤ 65536) (hone : requests.length ≤ l.taken + 1)
    {σ α : Type} {handle : Handler σ α} (htotal : ∀ a s m, handle a s m ≠ none)
    (hreads : w.peer.Reads) (n : ℕ) (answers : ℕ → α) (writes : ℕ → ℕ → Option ℕ) (s : σ) :
    ∃ s' peer, w.peer.handleRead handle s (w.toPeer n) answers writes = some (s', peer) ∧
      let w' : Wire := { w with
        peer := peer
        readByPeer := w.readByPeer + (w.toPeer n).length }
      (s' = s ∧ w'.Refines requests l state False ∨
        ∃ m new, requests[l.taken]? = some m ∧ handle (answers 0) s m = some (s', new) ∧
          w'.Refines requests (l.handled new) state False) := by
  obtain ⟨es, hinv, hsends, hshut⟩ := h.peer
  have hread : w.atPeer ++ w.toPeer n =
      w.client.output.conn.written.take (w.readByPeer + (w.toPeer n).length) :=
    take_append_drop_take _ _ _
  have hle : w.readByPeer + (w.toPeer n).length ≤ w.client.output.conn.written.length := by
    have hle := h.readByPeer_le
    rw [toPeer, List.length_take, List.length_drop]
    omega
  obtain ⟨b, ms, hb, hparse, hturn⟩ :=
    Sessions.turn_spec handle hinv hreads () (w.toPeer n) answers writes s []
  have htaken := h.taken_eq.resolve_left id
  have hms : ms <+: requests.drop l.taken := by
    have hpre := (h.of_requests hrequests (s := w.atPeer ++ w.toPeer n)
      (hread ▸ List.take_prefix _ _)).2
    rw [hparse, htaken] at hpre
    refine (List.prefix_append_right_inj (requests.take l.taken)).1 ?_
    rwa [List.take_append_drop]
  have hcases : ms = [] ∨ ∃ m, ms = [m] ∧ requests[l.taken]? = some m := by
    match ms, hms with
    | [], _ => exact .inl rfl
    | [m], ⟨t, ht⟩ =>
      refine .inr ⟨m, rfl, ?_⟩
      rw [← List.head?_drop, ← ht]
      rfl
    | _ :: _ :: _, hms =>
      have hlength := hms.length_le
      simp only [List.length_cons, List.length_drop] at hlength
      omega
  -- what is left to show for a link
  have hrefines : ∀ {l' : Link} {new : List Effect} {output : Output} {buf : Buffer},
      (⟨output, buf⟩ : Session).Inv (w.atPeer ++ w.toPeer n) (es ++ new) →
      w.peer.output.conn.written <+: output.conn.written →
      Effect.sends (es ++ new) = (decoder.parse w.atClient).1 ++ l'.replies →
      (.shutdown ∈ es ++ new ↔ l'.isShutdown = true) → l'.received = l.received →
      requests.take l.taken ++ ms = requests.take l'.taken →
      ({ w with
        peer := ⟨output, buf⟩
        readByPeer := w.readByPeer + (w.toPeer n).length } : Wire).Refines requests l' state
          False := by
    intro l' new output buf hpeer hgrows hsends' hshut' hreceived htaken'
    rw [htaken, htaken', hread] at hparse
    rw [hread] at hpeer
    exact h.with_peer ⟨_, hpeer, hsends', hshut'⟩ hgrows hle hreceived (.inr hparse)
  rw [Session.handleRead, hb, Option.bind_eq_bind, Option.bind_some]
  rcases hcases with rfl | ⟨m, rfl, hm⟩
  · rcases hturn with ⟨hserial, -⟩ | ⟨s', new, output, buf, hserial, hturn, hpeer, hgrows⟩
    · cases hserial
    obtain ⟨rfl, hnew⟩ := Prod.mk.inj (Option.some.inj hserial)
    obtain rfl := List.map_eq_nil_iff.1 hnew.symm
    refine ⟨s, ⟨output, buf⟩, by rw [hturn]; rfl,
      .inl ⟨rfl, hrefines hpeer hgrows ?_ ?_ rfl ?_⟩⟩
    · rw [List.append_nil, hsends]
    · rw [List.append_nil, hshut]
    · rw [List.append_nil]
  · cases hhandle : handle (answers 0) s m with
    | none => exact absurd hhandle (htotal _ _ _)
    | some r =>
      obtain ⟨s₁, effects⟩ := r
      have hserial₁ : Sessions.serial handle s (Sessions.items () answers 0 [m]) =
          some (s₁, effects.map ((), ·)) := by
        simp [Sessions.items, Sessions.serial, hhandle]
      rw [hserial₁] at hturn
      rcases hturn with ⟨hserial, -⟩ | ⟨s', new, output, buf, hserial, hturn, hpeer, hgrows⟩
      · cases hserial
      obtain ⟨rfl, hnew⟩ := Prod.mk.inj (Option.some.inj hserial)
      obtain rfl := List.map_injective_iff.2 (Prod.mk_right_injective ()) hnew
      refine ⟨s₁, ⟨output, buf⟩, by rw [hturn]; rfl,
        .inr ⟨m, effects, hm, hhandle, hrefines hpeer hgrows ?_ ?_ ?_ ?_⟩⟩
      · rw [Effect.sends_append, Link.handled_eq, hsends]
        by_cases hmem : Effect.shutdown ∈ es
        · rw [if_pos hmem, if_pos (hshut.1 hmem)]
        · rw [if_neg hmem, if_neg (mt hshut.2 hmem), List.append_assoc]
      · rw [Link.handled_eq, List.mem_append, hshut]
        simp
      · rw [Link.handled_eq]
      · rw [Link.handled_eq, List.take_add_one, hm]
        rfl

end Wire

end Huaweip2p
