import Huaweip2p.Network.Wires

/-!
# Runs of the network in bytes

However the bytes of the connections are written, arrive and are read, the network in bytes does
what the network of messages does: each event does what one event of that does, or none.

* `ByteNetwork.network`, `Refines`: the network of messages that a network in bytes refines;
* `Matched`: a step that refines steps of the network of messages;
* `Refines.step`: every event is matched;
* `wires_run`: whole runs.
-/

namespace Huaweip2p

open UserCatalogue LengthHeaderCodec
open P2PClient (Proceeds)

/-! ### Steps of a client -/

namespace P2PClient

variable {p p' : P2PClient} {c : ConnId}

theorem effects_eq {new : List (ConnId × Str)} (h : p'.sent = p.sent ++ new) (c : ConnId) :
    p.effects p' c = ((new.filter fun e => e.1 = c).map Prod.snd).map .send ++
      if (p.conns c).state = .kConnected ∧ (p'.conns c).state = .kDisconnecting then [.shutdown]
      else [] := by
  rw [effects, h, List.drop_left, List.map_map]
  rfl

/-- A connection was made, and a request sent on it. -/
structure Opens (p p' : P2PClient) : Prop where
  nextConn : p'.nextConn = p.nextConn + 1
  sent : p'.sent = p.sent ++ [(p.nextConn, p.firstRequest)]
  conns_of_ne : ∀ c, c ≠ p.nextConn → p'.conns c = p.conns c
  state : (p'.conns p.nextConn).state = .kConnected
  sound : p.Sound → p'.Sound

theorem Ready.opens (h : p.Ready) (hstuck : p.stuck = false)
    (hconnecting : p.client.connecting = true) (probes : Probes) :
    Opens p (p.step (.up probes)) := by
  rw [(h.up hstuck hconnecting probes).1]
  have hself : p.establish.conns p.nextConn = ⟨.kConnected, true, .client p.client.id⟩ :=
    Function.update_self ..
  have hne : ∀ c, c ≠ p.nextConn → p.establish.conns c = p.conns c := fun c hc =>
    Function.update_of_ne hc ..
  refine ⟨rfl, rfl, hne, congrArg Conn.state hself, fun hsound c => ?_⟩
  show (p.establish.conns c).enabled = true ↔ (p.establish.conns c).state ≠ .kDisconnected
  by_cases hc : c = p.nextConn
  · rw [hc, hself]
    simp
  · rw [hne c hc]
    exact hsound c

/-- The first request is sent on the new connection. -/
theorem Opens.new (h : Opens p p') (hnone : p.requests p.nextConn = []) :
    p.effects p' p.nextConn = [.send p.firstRequest] ∧ p.closes p' p.nextConn = false ∧
      p'.requests p.nextConn = [p.firstRequest] := by
  have hfilter : [(p.nextConn, p.firstRequest)].filter (fun e => e.1 = p.nextConn) =
      [(p.nextConn, p.firstRequest)] := by simp
  rw [effects_eq h.sent, requests_append h.sent, hfilter, hnone, closes, h.state]
  simp

/-- Nothing happens to the others. -/
theorem Opens.old (h : Opens p p') (hc : c ≠ p.nextConn) :
    p.effects p' c = [] ∧ p.closes p' c = false ∧ p'.requests c = p.requests c := by
  have hfilter : [(p.nextConn, p.firstRequest)].filter (fun e => e.1 = c) = [] := by
    simpa using hc.symm
  rw [effects_eq h.sent, requests_append h.sent, hfilter, closes, h.conns_of_ne c hc]
  have hstate : ¬ ((p.conns c).state = .kConnected ∧ (p.conns c).state = .kDisconnecting) := by
    rintro ⟨hconnected, hdisconnecting⟩
    rw [hconnected] at hdisconnecting
    cases hdisconnecting
  rw [if_neg hstate]
  simp

/-- Reading no message does nothing. -/
theorem Ready.step_messages_nil (h : p.Ready) (hstuck : p.stuck = false)
    (hd : p.Dispatches c) : p.step (.messages c [] false) = p := by
  have hguard := h.unguarded hstuck
  rw [step_of_not_stuck hstuck, handle, dispatch_of_dispatches hd]
  have hread : readMessages c [] false { p with guard := some c } =
      { p with guard := some c } := rfl
  rw [hread, if_neg (by simp [hstuck])]
  show { p with guard := none } = p
  rw [← hguard]

end P2PClient

/-- A request concerns no connection of the client itself. -/
theorem P2PClient.onRequest_same (p : P2PClient) (m : Str) :
    (p.onRequest m).nextConn = p.nextConn ∧ (p.onRequest m).sent = p.sent ∧
      (p.onRequest m).conns = p.conns := by
  rw [onRequest]
  cases (p.statics.onStringMessage m).val with
  | none => exact ⟨rfl, rfl, rfl⟩
  | some r => exact ⟨rfl, rfl, rfl⟩

/-- The server may go down, but its handler does not fail. -/
theorem P2PServer.handlerUntilDown_ne_none (a : (Str → Bool) × Bool) (s : Catalogue × Bool)
    (m : Str) : P2PServer.handlerUntilDown a s m ≠ none := by
  rw [handlerUntilDown]
  split_ifs
  · simp
  · cases P2PServer.respond s.1 a.1 a.2 m <;> simp

/-! ### Requests that are taken -/

namespace Network

variable {ι : Type} [DecidableEq ι] {a : Addresses ι} {n : Network ι} {k : ι} {c : ConnId}
  {m : Str}

theorem step_serve_of_none (hm : n.nextRequest k c = some m)
    (hpeer : (n.link k c).peer = lit "1111") (hup : n.serverIsDown = false) {w : Str → Bool}
    {survives : Bool} (hrespond : P2PServer.respond n.catalogue w survives m = none) :
    n.step a (.serve k c w survives) = { n with serverIsDown := true } := by
  rw [Network.step, hm]
  dsimp only
  rw [if_pos ⟨hpeer, hup⟩, hrespond]

theorem step_serve_of_some (hm : n.nextRequest k c = some m)
    (hpeer : (n.link k c).peer = lit "1111") (hup : n.serverIsDown = false) {w : Str → Bool}
    {survives : Bool} {r : Catalogue × List Effect}
    (hrespond : P2PServer.respond n.catalogue w survives m = some r) :
    n.step a (.serve k c w survives) =
      { n with catalogue := r.1 }.setLink k c ((n.link k c).handled r.2) := by
  rw [Network.step, hm]
  dsimp only
  rw [if_pos ⟨hpeer, hup⟩, hrespond]

theorem step_request_of_some {j : ι} (hm : n.nextRequest k c = some m)
    (hpeer : (n.link k c).peer = a.ip j) :
    n.step a (.request j k c) =
      (n.setClient j ((n.client j).onRequest m)).setLink k c ((n.link k c).handled
        (((n.client j).statics.onStringMessage m).val.elim [] Prod.snd)) := by
  rw [Network.step, hm]
  dsimp only
  rw [if_pos hpeer]

end Network

/-- What a step of the client that makes no connection did to a connection. -/
theorem Wire.Refines.proceeds {w : Wire} {l : Link} {isDown : Prop} {p p' : P2PClient} {c : ConnId}
    (h : w.Refines (p.requests c) l (p.conns c).state isDown)
    (hreplies : ∀ m ∈ l.replies, m.length ≤ 65536) (htaken : l.taken ≤ (p.requests c).length)
    (hp : Proceeds p p') (writes : ℕ → Option ℕ) :
    ∃ client, w.client.follow (p.effects p' c) (p.closes p' c) writes = some client ∧
      ({ w with client := client } : Wire).Refines (p'.requests c) l (p'.conns c).state
        isDown := by
  obtain ⟨new, hsent, hconnected⟩ := hp.sent
  rw [P2PClient.effects_eq hsent, P2PClient.requests_append hsent]
  refine h.follow hreplies htaken _ ?_ (fun hne => ?_) (fun hstate => ?_) (fun hne => ?_) writes
  · split_ifs
    · exact .inr rfl
    · exact .inl rfl
  · by_contra hstate
    have hnone : new.filter (fun e => e.1 = c) = [] := by
      rw [List.filter_eq_nil_iff]
      intro e he hc
      rw [decide_eq_true_eq] at hc
      exact hstate (hc ▸ hconnected e he)
    rw [hnone, if_neg fun hcond => hstate hcond.1] at hne
    exact hne rfl
  · refine ⟨hp.state c hstate, if_neg fun hcond => ?_⟩
    rw [hstate] at hcond
    exact absurd hcond.2 (by decide)
  · refine ⟨fun hdown => hne (hp.down c hdown), ?_⟩
    simp [P2PClient.closes, hne]

namespace ByteNetwork

variable {ι : Type} (a : Addresses ι)

/-- The network of messages with the links `link`. -/
def network (w : ByteNetwork ι) (link : ι → ConnId → Link) : Network ι :=
  ⟨w.catalogue, w.serverIsDown, w.client, link⟩

/-- The connections of client `k` carry the messages of the links. -/
structure RefinesAt (link : ι → ConnId → Link) (w : ByteNetwork ι) (k : ι) : Prop where
  sound : (w.client k).Sound
  peer_eq : ∀ c < (w.client k).nextConn, w.peer k c = (link k c).peer
  wire : ∀ c < (w.client k).nextConn, (w.wire k c).Refines ((w.client k).requests c) (link k c)
    ((w.client k).conns c).state (w.PeerIsDown k c)

/-- The network in bytes does what the network of messages does. -/
structure Refines (link : ι → ConnId → Link) (w : ByteNetwork ι) : Prop where
  inv : (w.network link).Inv a
  once : (w.network link).Once a
  clients : ∀ k, w.RefinesAt link k

variable {a}

theorem refines_init (state : ι → ConnState) :
    (init a state).Refines a (Network.init a state).link where
  inv := Network.inv_init state
  once := Network.once_init state
  clients _ := ⟨P2PClient.sound_start _ _ _, fun _ hc => absurd hc (Nat.not_lt_zero _),
    fun _ hc => absurd hc (Nat.not_lt_zero _)⟩

variable {w w' : ByteNetwork ι} {link link' : ι → ConnId → Link} {k : ι}

/-- A client that nothing happens to. -/
theorem RefinesAt.of_eq (h : w.RefinesAt link k) (hclient : w'.client k = w.client k)
    (hpeer : w'.peer k = w.peer k) (hwire : w'.wire k = w.wire k) (hlink : link' k = link k)
    (hdown : w.serverIsDown = true → w'.serverIsDown = true) : w'.RefinesAt link' k where
  sound := hclient ▸ h.sound
  peer_eq c hc := by
    rw [hpeer, hlink]
    exact h.peer_eq c (hclient ▸ hc)
  wire c hc := by
    rw [hclient] at hc ⊢
    rw [hwire, hlink]
    refine (h.wire c hc).imp fun hpeerDown => ?_
    rw [PeerIsDown, hpeer]
    exact ⟨hpeerDown.1, hdown hpeerDown.2⟩

/-- Replies are short, and no more requests are taken than were sent. -/
theorem Refines.link_bounds (h : w.Refines a link) (k : ι) (c : ConnId) :
    (∀ m ∈ (link k c).replies, m.length ≤ 65536) ∧
      (link k c).taken ≤ ((w.client k).requests c).length ∧ (link k c).replies.length ≤ 1 ∧
      ((w.client k).requests c).length ≤ (link k c).taken + 1 := by
  have hlink := h.inv.link k c
  have htaken : (link k c).taken ≤ ((w.client k).requests c).length := hlink.taken_le
  have hreplies : (link k c).replies.length + (link k c).received ≤ (link k c).taken :=
    hlink.replies_le
  have hrequests : ((w.client k).requests c).length ≤ (link k c).received + 1 := hlink.requests_le
  exact ⟨fun m hm => (h.once.short k c m hm).trans (by omega), htaken, by omega, by omega⟩

/-- The requests are short. -/
theorem Refines.length_request_le (h : w.Refines a link) (k : ι) (c : ConnId) :
    ∀ m ∈ (w.client k).requests c, m.length ≤ 65536 := by
  intro m hm
  obtain ⟨e, he, rfl⟩ := P2PClient.exists_mem_sent hm
  obtain ⟨s, hs, hrequest⟩ := (h.inv.client k).sent e he
  have hlength : s.IP.length = 4 := by
    rw [hs.IP_eq]
    exact a.length_eq k
  rcases hrequest with heq | heq
  · simp [heq, P2PClient.registration, P2PCServer.getIP, lit, hlength]
  · simp [heq, P2PClient.fileRequest, P2PCServer.getIP, lit, hlength]

variable [DecidableEq ι]

theorem client_setClient_self (w : ByteNetwork ι) (k : ι) (p : P2PClient) :
    (w.setClient k p).client k = p := Function.update_self ..

theorem client_setClient_of_ne (w : ByteNetwork ι) {k k' : ι} (hk : k' ≠ k) (p : P2PClient) :
    (w.setClient k p).client k' = w.client k' := Function.update_of_ne hk ..

theorem wire_setWire_self (w : ByteNetwork ι) (k : ι) (c : ConnId) (wire : Wire) :
    (w.setWire k c wire).wire k c = wire := by simp [ByteNetwork.setWire]

theorem wire_setWire_of_ne (w : ByteNetwork ι) {k k' : ι} {c c' : ConnId}
    (h : ¬ (k' = k ∧ c' = c)) (wire : Wire) :
    (w.setWire k c wire).wire k' c' = w.wire k' c' := by
  by_cases hk : k' = k
  · have hc : c' ≠ c := fun hc => h ⟨hk, hc⟩
    simp [ByteNetwork.setWire, hk, hc]
  · simp [ByteNetwork.setWire, hk]

/-! ### A client and its ends of the connections -/

/-- Client `k` becomes `p`, and its ends of the connections can follow. -/
theorem exists_follow (hother : ∀ k', k' ≠ k → w.RefinesAt link k') {p : P2PClient}
    (hinv : ((w.network link).setClient k p).Inv a)
    (honce : ((w.network link).setClient k p).Once a) (hsound : p.Sound)
    (hpeer : ∀ c < p.nextConn, w.peer k c = (link k c).peer) (writes : ConnId → ℕ → Option ℕ)
    (hwire : ∀ c < p.nextConn, ∃ client, (w.wire k c).client.follow ((w.client k).effects p c)
      ((w.client k).closes p c) (writes c) = some client ∧
      ({ w.wire k c with client := client } : Wire).Refines (p.requests c) (link k c)
        (p.conns c).state (w.PeerIsDown k c)) :
    ∃ w', w.follow k p writes = some w' ∧ w'.Refines a link ∧
      w'.network link = (w.network link).setClient k p := by
  choose client hfollow hrefines using hwire
  obtain ⟨wires, hmade, hrest⟩ : ∃ wires : ConnId → Wire,
      (∀ c (hc : c < p.nextConn), wires c = { w.wire k c with client := client c hc }) ∧
      ∀ c, ¬ c < p.nextConn → wires c = w.wire k c :=
    ⟨fun c => if hc : c < p.nextConn then { w.wire k c with client := client c hc }
      else w.wire k c, fun c hc => dif_pos hc, fun c hc => dif_neg hc⟩
  have hfold := Runs.foldlM_update (s := w.wire k)
    (f := fun c wire => (wire.client.follow ((w.client k).effects p c) ((w.client k).closes p c)
      (writes c)).map fun client => { wire with client := client })
    (List.nodup_range (n := p.nextConn))
    (fun c hc => by
      rw [List.mem_range] at hc
      rw [hfollow c hc, hmade c hc]
      rfl)
    fun c hc => hrest c (by rwa [List.mem_range] at hc)
  refine ⟨{ w.setClient k p with wire := Function.update w.wire k wires }, ?_,
    ⟨hinv, honce, fun k' => ?_⟩, rfl⟩
  · rw [ByteNetwork.follow, hfold]
    rfl
  by_cases hk : k' = k
  swap
  · exact (hother k' hk).of_eq (Function.update_of_ne hk ..) rfl (Function.update_of_ne hk ..) rfl
      id
  subst hk
  have hself := w.client_setClient_self k' p
  refine ⟨hself.symm ▸ hsound, fun c hc => ?_, fun c hc => ?_⟩
  · exact hpeer c (hself ▸ hc)
  · dsimp only at hc ⊢
    rw [hself] at hc ⊢
    rw [Function.update_self, hmade c hc]
    exact hrefines c hc

/-- A step of a client that makes no connection. -/
theorem Refines.follow (h : w.Refines a link) {p : P2PClient} (hp : Proceeds (w.client k) p)
    (hinv : ((w.network link).setClient k p).Inv a)
    (honce : ((w.network link).setClient k p).Once a) (writes : ConnId → ℕ → Option ℕ) :
    ∃ w', w.follow k p writes = some w' ∧ w'.Refines a link ∧
      w'.network link = (w.network link).setClient k p := by
  refine exists_follow (fun k' _ => h.clients k') hinv honce (hp.sound (h.clients k).sound)
    (fun c hc => (h.clients k).peer_eq c (hp.nextConn ▸ hc)) writes fun c hc => ?_
  obtain ⟨hreplies, htaken, -⟩ := h.link_bounds k c
  exact ((h.clients k).wire c (hp.nextConn ▸ hc)).proceeds hreplies htaken hp (writes c)

/-- A step of a client that makes a connection. -/
theorem Refines.opens (h : w.Refines a link) {p : P2PClient} {c₀ : ConnId}
    (hc₀ : (w.client k).nextConn = c₀) (hp : P2PClient.Opens (w.client k) p)
    (hnone : (w.client k).requests c₀ = []) (peer : Str)
    (hinv : (((w.network link).setLink k c₀ ⟨peer, 0, false, [], 0⟩).setClient k p).Inv a)
    (honce : (((w.network link).setLink k c₀ ⟨peer, 0, false, [], 0⟩).setClient k p).Once a)
    (writes : ConnId → ℕ → Option ℕ) :
    ∃ w' link', ((w.setWire k c₀ .opened).setPeer k c₀ peer).follow k p writes = some w' ∧
      w'.Refines a link' ∧ w'.network link' =
        ((w.network link).setLink k c₀ ⟨peer, 0, false, [], 0⟩).setClient k p := by
  subst hc₀
  have hnext := hp.nextConn
  have hother : ∀ k', k' ≠ k → ((w.setWire k (w.client k).nextConn .opened).setPeer k
      (w.client k).nextConn peer).RefinesAt
        ((w.network link).setLink k (w.client k).nextConn ⟨peer, 0, false, [], 0⟩).link k' :=
    fun k' hk => (h.clients k').of_eq rfl (Function.update_of_ne hk ..)
      (Function.update_of_ne hk ..) (Function.update_of_ne hk ..) id
  have hfollow := exists_follow hother hinv honce (hp.sound (h.clients k).sound)
    (fun c hc => ?_) writes fun c hc => ?_
  · obtain ⟨w', hfollow, hrefines, hnetwork⟩ := hfollow
    exact ⟨w', _, hfollow, hrefines, hnetwork⟩
  · by_cases hcc : c = (w.client k).nextConn
    · simp [hcc, setPeer, Network.setLink]
    · have hlt : c < (w.client k).nextConn := by
        rw [hnext] at hc
        exact Nat.lt_of_le_of_ne (Nat.le_of_lt_succ hc) hcc
      have hpeer := (h.clients k).peer_eq c hlt
      simpa [hcc, setPeer, setWire, Network.setLink, network] using hpeer
  · have hclient : ((w.setWire k (w.client k).nextConn .opened).setPeer k (w.client k).nextConn
        peer).client k = w.client k := rfl
    rw [hclient]
    by_cases hcc : c = (w.client k).nextConn
    · subst hcc
      obtain ⟨heffects, hcloses, hrequests⟩ := hp.new hnone
      have hopened := Wire.refines_opened_send peer
        (((w.setWire k (w.client k).nextConn .opened).setPeer k (w.client k).nextConn
          peer).PeerIsDown k (w.client k).nextConn)
        (w.client k).firstRequest (writes (w.client k).nextConn)
      rw [heffects, hcloses, hrequests, hp.state]
      simpa [setPeer, setWire, Network.setLink] using hopened
    · obtain ⟨heffects, hcloses, hrequests⟩ := hp.old hcc
      have hlt : c < (w.client k).nextConn := by
        rw [hnext] at hc
        exact Nat.lt_of_le_of_ne (Nat.le_of_lt_succ hc) hcc
      have hwire := (h.clients k).wire c hlt
      rw [heffects, hcloses, hrequests, hp.conns_of_ne c hcc]
      refine ⟨_, rfl, ?_⟩
      simpa [hcc, PeerIsDown, setPeer, setWire, Network.setLink, network] using hwire

/-- At most one connection changes, and of the clients only what does not concern theirs. -/
theorem Refines.of_wire (h : w.Refines a link) (k : ι) (c : ConnId)
    (hinv : (w'.network link').Inv a) (honce : (w'.network link').Once a)
    (hclient : ∀ k', (w'.client k').nextConn = (w.client k').nextConn ∧
      (w'.client k').sent = (w.client k').sent ∧ (w'.client k').conns = (w.client k').conns)
    (hpeer : w'.peer = w.peer) (hdown : w.serverIsDown = true → w'.serverIsDown = true)
    (hrest : ∀ k' c', ¬ (k' = k ∧ c' = c) →
      w'.wire k' c' = w.wire k' c' ∧ link' k' c' = link k' c')
    (hlink : (link' k c).peer = (link k c).peer)
    (hwire : (w'.wire k c).Refines ((w.client k).requests c) (link' k c)
      ((w.client k).conns c).state (w'.PeerIsDown k c)) : w'.Refines a link' := by
  refine ⟨hinv, honce, fun k' => ?_⟩
  obtain ⟨hnext, hsent, hconns⟩ := hclient k'
  obtain ⟨hsound, hpeers, hwires⟩ := h.clients k'
  refine ⟨fun c' => hconns ▸ hsound c', fun c' hc' => ?_, fun c' hc' => ?_⟩
  · rw [hpeer, hpeers c' (hnext ▸ hc')]
    by_cases hkc : k' = k ∧ c' = c
    · rw [hkc.1, hkc.2, hlink]
    · rw [(hrest k' c' hkc).2]
  · rw [P2PClient.requests_of_sent hsent, hconns]
    by_cases hkc : k' = k ∧ c' = c
    · obtain ⟨rfl, rfl⟩ := hkc
      exact hwire
    · rw [(hrest k' c' hkc).1, (hrest k' c' hkc).2]
      refine (hwires c' (hnext ▸ hc')).imp fun hpeerDown => ?_
      rw [PeerIsDown, hpeer]
      exact ⟨hpeerDown.1, hdown hpeerDown.2⟩

/-- One connection changes with its link, and of the clients only what does not concern theirs. -/
theorem Refines.of_link (h : w.Refines a link) {c : ConnId} {wire : Wire} {l : Link}
    (hinv : (w'.network ((w.network link).setLink k c l).link).Inv a)
    (honce : (w'.network ((w.network link).setLink k c l).link).Once a)
    (hclient : ∀ k', (w'.client k').nextConn = (w.client k').nextConn ∧
      (w'.client k').sent = (w.client k').sent ∧ (w'.client k').conns = (w.client k').conns)
    (hpeer : w'.peer = w.peer) (hdown : w.serverIsDown = true → w'.serverIsDown = true)
    (hwires : w'.wire = (w.setWire k c wire).wire) (hl : l.peer = (link k c).peer)
    (hwire : wire.Refines ((w.client k).requests c) l ((w.client k).conns c).state
      (w'.PeerIsDown k c)) : w'.Refines a ((w.network link).setLink k c l).link := by
  refine h.of_wire k c hinv honce hclient hpeer hdown (fun k' c' hkc => ⟨?_, ?_⟩) ?_ ?_
  · rw [hwires, wire_setWire_of_ne w hkc]
  · rw [Network.link_setLink, if_neg hkc]
    rfl
  · rw [Network.link_setLink_self, hl]
  · rwa [hwires, wire_setWire_self, Network.link_setLink_self]

/-- One connection changes, and nothing else. -/
theorem Refines.setWire (h : w.Refines a link) {c : ConnId} {wire : Wire}
    (hwire : wire.Refines ((w.client k).requests c) (link k c) ((w.client k).conns c).state
      (w.PeerIsDown k c)) : (w.setWire k c wire).Refines a link :=
  h.of_wire k c h.inv h.once (fun _ => ⟨rfl, rfl, rfl⟩) rfl id
    (fun _ _ hkc => ⟨w.wire_setWire_of_ne hkc wire, rfl⟩) rfl (by rwa [wire_setWire_self])

/-! ### One lemma for each event -/

/-- A step that does what some steps of the network of messages do. -/
def Matched (a : Addresses ι) (link : ι → ConnId → Link) (w : ByteNetwork ι)
    (result : Option (ByteNetwork ι)) : Prop :=
  ∃ w' link' es, result = some w' ∧ w'.Refines a link' ∧
    w'.network link' = Runs.run (fun n e => n.step a e) (w.network link) es

variable {result : Option (ByteNetwork ι)}

/-- Nothing happens. -/
theorem Refines.matched (h : w.Refines a link) : Matched a link w (some w) :=
  ⟨w, link, [], rfl, h, rfl⟩

/-- One event of the network of messages. -/
theorem Matched.of_event (e : Network.Event ι) (hresult : result = some w')
    (h : w'.Refines a link') (hstep : w'.network link' = (w.network link).step a e) :
    Matched a link w result :=
  ⟨w', link', [e], hresult, h, hstep⟩

/-- No event of the network of messages. -/
theorem Matched.of_eq (hresult : result = some w') (h : w'.Refines a link)
    (hstep : w'.network link = w.network link) : Matched a link w result :=
  ⟨w', link, [], hresult, h, hstep⟩

/-- A connection goes up. -/
theorem Refines.up (h : w.Refines a link) (k : ι) (probes : Probes)
    (writes : ConnId → ℕ → Option ℕ) : Matched a link w (w.step a (.up k probes writes)) := by
  rw [ByteNetwork.step]
  split_ifs with hup
  swap
  · exact h.matched
  have hinv := (h.inv.step (.up k probes)).1
  have honce := h.once.step h.inv (.up k probes)
  have hevent : (w.network link).step a (.up k probes) =
      ((w.network link).setLink k (w.client k).nextConn
        ⟨(w.client k).client.serverAddr, 0, false, [], 0⟩).setClient k
          ((w.client k).step (.up probes)) := if_pos hup
  rw [hevent] at hinv honce
  obtain ⟨w', link', hfollow, hrefines, hnetwork⟩ := h.opens rfl
    ((h.inv.ready k).opens hup.1 hup.2 probes) (h.inv.ready k).toTidy.requests_nextConn
    (w.client k).client.serverAddr hinv honce writes
  exact .of_event (.up k probes) hfollow hrefines (hnetwork.trans hevent.symm)

/-- A connection goes down, or a functor runs. -/
theorem Refines.client_step (h : w.Refines a link) (k : ι) {e : P2PClient.Event}
    (he : ∀ probes, e ≠ .up probes) (e' : Network.Event ι)
    (hevent : (w.network link).step a e' =
      (w.network link).setClient k ((w.client k).step e))
    (writes : ConnId → ℕ → Option ℕ) :
    Matched a link w (w.follow k ((w.client k).step e) writes) := by
  have hinv := (h.inv.step e').1
  have honce := h.once.step h.inv e'
  rw [hevent] at hinv honce
  obtain ⟨w', hfollow, hrefines, hnetwork⟩ :=
    h.follow ((w.client k).proceeds_step he) hinv honce writes
  exact .of_event e' hfollow hrefines (hnetwork.trans hevent.symm)

/-- The client reads. -/
theorem Refines.clientRead (h : w.Refines a link) (k : ι) (c : ConnId) (n : ℕ)
    (probes : ℕ → Probes) (writes : ConnId → ℕ → Option ℕ) :
    Matched a link w (w.step a (.clientRead k c n probes writes)) := by
  rw [ByteNetwork.step]
  split_ifs with hread
  swap
  · exact h.matched
  obtain ⟨⟨hstuck, hd⟩, -⟩ := hread
  have hready := h.inv.ready k
  have hconnection := hready.connection_of_dispatches hstuck hd
  have hlt : c < (w.client k).nextConn := hready.fresh c (.inr (.inl hconnection))
  obtain ⟨hreplies, -, hone, -⟩ := h.link_bounds k c
  have hstate := ((h.clients k).sound c).1 hd.2.1
  obtain ⟨b, ms, buf, hb, hloop, hcases⟩ :=
    ((h.clients k).wire c hlt).receive hreplies hone hstate n
  have hresult : ∀ {wire : Wire}, wire = { w.wire k c with
        client := { (w.wire k c).client with inputBuffer := buf }
        readByClient := (w.wire k c).readByClient + ((w.wire k c).toClient n).length } →
      w.clientRead k c ((w.wire k c).toClient n) probes writes =
        (w.setWire k c wire).follow k ((w.client k).step (.messages c
          (ms.zipIdx.map fun m => (m.1, probes m.2)) false)) writes := by
    rintro _ rfl
    simp only [ByteNetwork.clientRead, hb, hloop, Option.bind_eq_bind, Option.bind_some]
  rw [hresult rfl]
  rcases hcases with ⟨rfl, hwire⟩ | ⟨m, rfl, hm, hwire⟩
  · -- no message is complete
    have hstep : (w.client k).step (.messages c [] false) = w.client k :=
      hready.step_messages_nil hstuck hd
    have hself : (w.network link).setClient k (w.client k) = w.network link := by
      rw [Network.setClient, network, Function.update_eq_self]
    obtain ⟨w', hfollow, hrefines, hnetwork⟩ := (h.setWire hwire).follow (k := k)
      (p := w.client k) (.refl _) (hself.symm ▸ h.inv) (hself.symm ▸ h.once) writes
    refine .of_eq ?_ hrefines (hnetwork.trans hself)
    rw [List.zipIdx_nil, List.map_nil, hstep]
    exact hfollow
  · have hreading : (w.network link).reading k c = some m :=
      Network.reading_eq_some_iff.2 ⟨⟨hstuck, hd⟩, [], hm⟩
    have hevent : (w.network link).step a (.message k c (probes 0)) =
        ((w.network link).setLink k c (link k c).receive).setClient k
          ((w.client k).step (.messages c [(m, probes 0)] false)) := by
      rw [Network.step, hreading]
      rfl
    have hlinkInv := h.inv.setLink (k := k) (c := c) ((h.inv.link k c).receive hm).1
    have hlinkOnce := h.once.setLink (k := k) (c := c) (l := (link k c).receive)
      (fun hc hpos => by rwa [hc])
      fun m' hm' => h.once.short k c m' (List.mem_of_mem_tail hm')
    have hinv := (h.inv.step (.message k c (probes 0))).1
    have honce := h.once.step h.inv (.message k c (probes 0))
    rw [hevent] at hinv honce
    have hw : (w.setWire k c { w.wire k c with
        client := { (w.wire k c).client with inputBuffer := buf }
        readByClient := (w.wire k c).readByClient + ((w.wire k c).toClient n).length }).Refines a
          ((w.network link).setLink k c (link k c).receive).link :=
      h.of_link hlinkInv hlinkOnce (fun _ => ⟨rfl, rfl, rfl⟩) rfl id rfl rfl hwire
    obtain ⟨w', hfollow, hrefines, hnetwork⟩ := hw.follow (k := k)
      ((w.client k).proceeds_step (e := .messages c [(m, probes 0)] false) fun _ he => by cases he)
      hinv honce writes
    exact .of_event (.message k c (probes 0)) hfollow hrefines (hnetwork.trans hevent.symm)

/-- The client's end writes. -/
theorem Refines.clientWrite (h : w.Refines a link) (k : ι) (c : ConnId) (r : Option ℕ) :
    Matched a link w (w.step a (.clientWrite k c r)) := by
  rw [ByteNetwork.step]
  split_ifs with hpolled
  swap
  · exact h.matched
  have hready := h.inv.ready k
  have hlt : c < (w.client k).nextConn :=
    hready.fresh c (.inr (.inl (hready.connection_of_dispatches hpolled.1 hpolled.2)))
  have hwire := (h.clients k).wire c hlt
  obtain ⟨es, hinv, hsends, hopen⟩ := hwire.client
  obtain ⟨output, houtput, hinv', hgrows, hreading⟩ := hinv.handleWrite r
  have hresult : (w.wire k c).client.handleWrite r =
      some { (w.wire k c).client with output := output } := by
    rw [Session.handleWrite, houtput]
    rfl
  rw [hresult]
  refine .of_eq rfl (h.setWire (hwire.with_client ⟨es, hinv', hsends, hopen⟩ (fun hne => ?_)
    hgrows rfl)) rfl
  exact hreading.trans (hwire.reads hne)

/-- The other program's end writes. -/
theorem Refines.peerWrite (h : w.Refines a link) (k : ι) (c : ConnId) (r : Option ℕ) :
    Matched a link w (w.step a (.peerWrite k c r)) := by
  rw [ByteNetwork.step]
  split_ifs with hserved
  swap
  · exact h.matched
  have hwire := (h.clients k).wire c hserved.1
  obtain ⟨es, hinv, hsends, hshut⟩ := hwire.peer
  obtain ⟨output, houtput, hinv', hgrows, -⟩ := hinv.handleWrite r
  have hresult : (w.wire k c).peer.handleWrite r =
      some { (w.wire k c).peer with output := output } := by
    rw [Session.handleWrite, houtput]
    rfl
  rw [hresult]
  exact .of_eq rfl (h.setWire (hwire.with_peer ⟨es, hinv', hsends, hshut⟩ hgrows
    hwire.readByPeer_le rfl hwire.taken_eq)) rfl

/-- The end of the other program changes, and what it sent and took does not. -/
theorem Refines.peer_step (h : w.Refines a link) {k : ι} {c : ConnId}
    (hserved : w.IsServed k c) {peer : Session}
    (hpeer : ∀ {arrived : Str} {es : List Effect}, (w.wire k c).peer.Inv arrived es →
      peer.Inv arrived es)
    (hgrows : (w.wire k c).peer.output.conn.written <+: peer.output.conn.written) :
    Matched a link w (some (w.setWire k c { w.wire k c with peer := peer })) := by
  have hwire := (h.clients k).wire c hserved.1
  obtain ⟨es, hinv, hsends, hshut⟩ := hwire.peer
  exact .of_eq rfl (h.setWire (hwire.with_peer ⟨es, hpeer hinv, hsends, hshut⟩ hgrows
    hwire.readByPeer_le rfl hwire.taken_eq)) rfl

/-- What a program does with what it reads, when it is running. -/
theorem Refines.peerRead (h : w.Refines a link) {k : ι} {c : ConnId} (hserved : w.IsServed k c)
    {σ α : Type} {handle : Handler σ α} (htotal : ∀ a s m, handle a s m ≠ none)
    (hreads : (w.wire k c).peer.Reads) (n : ℕ) (answers : ℕ → α) (writes : ℕ → ℕ → Option ℕ)
    (s : σ) :
    ∃ s' wire, w.peerRead handle s k c ((w.wire k c).toPeer n) answers writes =
        some (s', w.setWire k c wire) ∧
      (s' = s ∧ (∀ isDown, wire.Refines ((w.client k).requests c) (link k c)
          ((w.client k).conns c).state isDown) ∨
        ∃ m new, (w.network link).nextRequest k c = some m ∧
          handle (answers 0) s m = some (s', new) ∧
          ∀ isDown, wire.Refines ((w.client k).requests c) ((link k c).handled new)
            ((w.client k).conns c).state isDown) := by
  have hwire := ((h.clients k).wire c hserved.1).imp hserved.2
  obtain ⟨-, -, -, hone⟩ := h.link_bounds k c
  obtain ⟨s', peer, hread, hcases⟩ := hwire.handleRead (h.length_request_le k c) hone htotal hreads
    n answers writes s
  refine ⟨s', { w.wire k c with
    peer := peer
    readByPeer := (w.wire k c).readByPeer + ((w.wire k c).toPeer n).length }, ?_, ?_⟩
  · rw [ByteNetwork.peerRead, hread]
    rfl
  · rcases hcases with ⟨hs, hwire'⟩ | ⟨m, new, hm, hhandle, hwire'⟩
    · exact .inl ⟨hs, fun _ => hwire'.imp False.elim⟩
    · exact .inr ⟨m, new, hm, hhandle, fun _ => hwire'.imp False.elim⟩

/-- The server goes down at a request. -/
theorem Refines.serverFails (h : w.Refines a link) {k : ι} {c : ConnId}
    (hpeer : w.peer k c = lit "1111") {e : Network.Event ι}
    (hevent : (w.network link).step a e = { w.network link with serverIsDown := true })
    {wire : Wire}
    (hwire : wire.Refines ((w.client k).requests c) ((link k c).handled [])
      ((w.client k).conns c).state True) :
    ({ w.setWire k c wire with serverIsDown := true } : ByteNetwork ι).Refines a link := by
  have hinv := (h.inv.step e).1
  have honce := h.once.step h.inv e
  rw [hevent] at hinv honce
  refine h.of_wire k c hinv honce (fun _ => ⟨rfl, rfl, rfl⟩) rfl (fun _ => rfl)
    (fun k' c' hkc => ⟨w.wire_setWire_of_ne hkc wire, rfl⟩) rfl ?_
  show Wire.Refines _ _ _ _ ((w.setWire k c wire).wire k c)
  rw [wire_setWire_self]
  exact hwire.of_handled ⟨hpeer, rfl⟩

/-- The server answers a request, or registers a client. -/
theorem Refines.serverAnswers (h : w.Refines a link) {k : ι} {c : ConnId}
    (hup : w.serverIsDown = false) {e : Network.Event ι} {r : Catalogue × List Effect}
    (hevent : (w.network link).step a e =
      { w.network link with catalogue := r.1 }.setLink k c ((link k c).handled r.2)) {wire : Wire}
    (hwire : ∀ isDown, wire.Refines ((w.client k).requests c) ((link k c).handled r.2)
      ((w.client k).conns c).state isDown) :
    let w' := { w.setWire k c wire with catalogue := r.1, serverIsDown := false }
    let link' := ((w.network link).setLink k c ((link k c).handled r.2)).link
    w'.Refines a link' ∧ w'.network link' = (w.network link).step a e := by
  have hinv := (h.inv.step e).1
  have honce := h.once.step h.inv e
  have hnetwork : ({ w.setWire k c wire with catalogue := r.1, serverIsDown := false } :
      ByteNetwork ι).network ((w.network link).setLink k c ((link k c).handled r.2)).link =
      (w.network link).step a e := by
    rw [hevent, ← hup]
    rfl
  refine ⟨h.of_link (hnetwork ▸ hinv) (hnetwork ▸ honce) (fun _ => ⟨rfl, rfl, rfl⟩) rfl
    (fun hdown => absurd (hdown.symm.trans hup) (by decide)) rfl ?_ (hwire _), hnetwork⟩
  rw [Link.handled_eq]

/-- The server reads. -/
theorem Refines.serverRead (h : w.Refines a link) (k : ι) (c : ConnId) (n : ℕ)
    (answers : ℕ → (Str → Bool) × Bool) (writes : ℕ → ℕ → Option ℕ) :
    Matched a link w (w.step a (.serverRead k c n answers writes)) := by
  rw [ByteNetwork.step]
  split_ifs with hread
  swap
  · exact h.matched
  obtain ⟨hserved, hpeer, hreads, -⟩ := hread
  have hup : w.serverIsDown = false := by
    rw [← Bool.not_eq_true]
    exact fun hdown => hserved.2 ⟨hpeer, hdown⟩
  have hlink : ((w.network link).link k c).peer = lit "1111" :=
    ((h.clients k).peer_eq c hserved.1).symm.trans hpeer
  obtain ⟨s', wire, hresult, hcases⟩ := h.peerRead hserved P2PServer.handlerUntilDown_ne_none
    hreads n answers writes (w.catalogue, w.serverIsDown)
  rw [hresult]
  rcases hcases with ⟨rfl, hwire⟩ | ⟨m, new, hm, hhandle, hwire⟩
  · -- no request is complete
    exact .of_eq rfl (h.setWire (hwire _)) rfl
  rw [P2PServer.handlerUntilDown, if_neg (by simp [hup])] at hhandle
  cases hrespond : P2PServer.respond w.catalogue (answers 0).1 (answers 0).2 m with
  | none =>
    rw [hrespond] at hhandle
    obtain ⟨rfl, rfl⟩ := Prod.mk.inj (Option.some.inj hhandle)
    have hevent := Network.step_serve_of_none (a := a) hm hlink hup hrespond
    exact .of_event (.serve k c (answers 0).1 (answers 0).2) rfl
      (h.serverFails hpeer hevent (hwire _)) hevent.symm
  | some r =>
    rw [hrespond] at hhandle
    obtain ⟨rfl, rfl⟩ := Prod.mk.inj (Option.some.inj hhandle)
    have hevent := Network.step_serve_of_some (a := a) hm hlink hup hrespond
    obtain ⟨hrefines, hnetwork⟩ := h.serverAnswers hup hevent hwire
    exact .of_event (.serve k c (answers 0).1 (answers 0).2) rfl hrefines hnetwork

/-- The listening half of another client reads. -/
theorem Refines.listenerRead (h : w.Refines a link) (j k : ι) (c : ConnId) (n : ℕ)
    (writes : ℕ → ℕ → Option ℕ) :
    Matched a link w (w.step a (.listenerRead j k c n writes)) := by
  rw [ByteNetwork.step]
  split_ifs with hread
  swap
  · exact h.matched
  obtain ⟨hserved, hpeer, hreads, -⟩ := hread
  have htotal : ∀ a s m, P2PClient.listener a s m ≠ none := fun _ _ _ => by
    simp [P2PClient.listener]
  obtain ⟨p, wire, hresult, hcases⟩ := h.peerRead hserved htotal hreads n (fun _ => ()) writes
    (w.client j)
  rw [hresult]
  rcases hcases with ⟨rfl, hwire⟩ | ⟨m, new, hm, hhandle, hwire⟩
  · have hself : (w.setWire k c wire).setClient j (w.client j) = w.setWire k c wire := by
      rw [setClient]
      show { w.setWire k c wire with client := Function.update w.client j (w.client j) } = _
      rw [Function.update_eq_self]
      rfl
    exact .of_eq (congrArg some hself) (h.setWire (hwire _)) rfl
  obtain ⟨rfl, rfl⟩ := Prod.mk.inj (Option.some.inj hhandle)
  have hlink : ((w.network link).link k c).peer = a.ip j :=
    ((h.clients k).peer_eq c hserved.1).symm.trans hpeer
  have hinv := (h.inv.step (.request j k c)).1
  have honce := h.once.step h.inv (.request j k c)
  have hevent := Network.step_request_of_some hm hlink
  rw [hevent] at hinv honce
  have hrefines : ((w.setWire k c wire).setClient j ((w.client j).onRequest m)).Refines a
      ((w.network link).setLink k c ((link k c).handled
        (((w.client j).statics.onStringMessage m).val.elim [] Prod.snd))).link := by
    refine h.of_link hinv honce (fun k' => ?_) rfl id rfl ?_ (hwire _)
    · -- the listening half does not send, and its connections stay
      by_cases hk : k' = j
      · subst hk
        rw [client_setClient_self]
        exact (w.client k').onRequest_same m
      · rw [client_setClient_of_ne _ hk]
        exact ⟨rfl, rfl, rfl⟩
    · rw [Link.handled_eq]
  exact .of_event (.request j k c) rfl hrefines hevent.symm

/-- The step lemma: every event does what some events of the network of messages do. -/
theorem Refines.step (h : w.Refines a link) (e : Event ι) : Matched a link w (w.step a e) := by
  cases e with
  | up k probes writes => exact h.up k probes writes
  | accept k c =>
    rw [ByteNetwork.step]
    split_ifs with haccept
    · exact h.peer_step haccept.1 (fun hinv => hinv.connectEstablished haccept.2)
        (List.prefix_refl _)
    · exact h.matched
  | clientRead k c n probes writes => exact h.clientRead k c n probes writes
  | clientWrite k c r => exact h.clientWrite k c r
  | down k c probes writes =>
    exact h.client_step k (fun _ he => by cases he) (.down k c probes) rfl writes
  | runFunctor k probes writes =>
    exact h.client_step k (fun _ he => by cases he) (.runFunctor k probes) rfl writes
  | serverRead k c n answers writes => exact h.serverRead k c n answers writes
  | listenerRead j k c n writes => exact h.listenerRead j k c n writes
  | peerWrite k c r => exact h.peerWrite k c r
  | peerClose k c =>
    rw [ByteNetwork.step]
    split_ifs with hclose
    · exact h.peer_step hclose.1 (fun hinv => hinv.handleClose) (List.prefix_refl _)
    · exact h.matched

/-! ### Whole runs -/

/-- **Bytes.** However what the programs write is written, arrives and is read, in every run of the
network in bytes no step fails, and the programs are where they are after some run of the network of
messages. On each connection a client has written, or has waiting, the frames of its requests, and
the codec of a program that is not down has taken those out that are taken; the other program has
written, or has waiting, the frames of the replies received and of those on their way; and neither
codec ever meets an invalid length. -/
theorem wires_run (a : Addresses ι) (state : ι → ConnState) (es : List (Event ι)) :
    ∃ w es', es.foldlM (ByteNetwork.step a) (init a state) = some w ∧
      let n := Network.after a state es'
      w.catalogue = n.catalogue ∧ w.serverIsDown = n.serverIsDown ∧ w.client = n.client ∧
        ∀ k, ∀ c < (n.client k).nextConn, w.peer k c = (n.link k c).peer ∧
          let wire := w.wire k c
          wire.client.output.conn.written ++ wire.client.output.conn.outputBuffer.content =
              encoder.encodeAll ((n.client k).requests c) ∧
            (¬ w.PeerIsDown k c → (decoder.parse wire.atPeer).1 =
              ((n.client k).requests c).take (n.link k c).taken) ∧
            wire.peer.output.conn.written ++ wire.peer.output.conn.outputBuffer.content =
              encoder.encodeAll ((decoder.parse wire.atClient).1 ++ (n.link k c).replies) ∧
            (decoder.parse wire.atClient).1.length = (n.link k c).received ∧
            decoder.front (decoder.parse wire.atClient).2 ≠ .invalid ∧
            decoder.front (decoder.parse wire.atPeer).2 ≠ .invalid := by
  have hstep : ∀ (w : ByteNetwork ι) (n : Network ι) e, (∃ link, w.Refines a link ∧
      w.network link = n) → ∃ w' es', w.step a e = some w' ∧ ∃ link', w'.Refines a link' ∧
        w'.network link' = Runs.run (fun n e => n.step a e) n es' := by
    rintro w _ e ⟨link, h, rfl⟩
    obtain ⟨w', link', es', hresult, h', hnetwork⟩ := h.step e
    exact ⟨w', es', hresult, link', h', hnetwork⟩
  obtain ⟨w, es', hrun, link, h, hnetwork⟩ :=
    Runs.foldlM_refines hstep ⟨_, refines_init state, rfl⟩ es
  have hafter : Network.after a state es' = w.network link := hnetwork.symm
  refine ⟨w, es', hrun, ?_⟩
  rw [hafter]
  refine ⟨rfl, rfl, rfl, fun k c hc => ⟨(h.clients k).peer_eq c hc, ?_⟩⟩
  have hwire := (h.clients k).wire c hc
  obtain ⟨es₁, hclient, hrequests, -⟩ := hwire.client
  obtain ⟨es₂, hpeer, hreplies, -⟩ := hwire.peer
  refine ⟨hclient.encoded.trans (congrArg _ hrequests), fun hup => hwire.taken_eq.resolve_left hup,
    hpeer.encoded.trans (congrArg _ hreplies), hwire.received_eq, ?_, ?_⟩
  · exact (hwire.of_replies (h.link_bounds k c).1 (List.take_prefix _ _)).1
  · exact (hwire.of_requests (h.length_request_le k c) (List.take_prefix _ _)).1

end ByteNetwork

end Huaweip2p
