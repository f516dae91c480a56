import Huaweip2p.Client.Connections

/-!
# Where a client goes

The addresses that a handler of the client dials, and what handlers do to the requests sent, to the
table and to the current `TcpClient`.

* `failoverDials`, `dials`: the probes, in order;
* `Apart`: the client holds no address that would lead it to itself;
* `Steered`: what a failover may do to a client;
* `Tidy`: in every run, an event that is dispatched belongs to the connection in `connection_`;
* `Tidy.message`, `Tidy.newConnection`, `Tidy.down`: what an event sends.
-/

namespace Huaweip2p

/-- Only a neighbour of the table, or the server, is selected. -/
theorem P2PCServer.findNeiIP_ne {s : P2PCServer} {own : Str} (hown : own ≠ lit "1111")
    (h : s.neiIP[own]? = none) (level : ℤ) : s.findNeiIP level ≠ own := by
  intro hfind
  obtain ⟨⟨file, hget, -⟩, -⟩ := (findNeiIP_eq_iff hown).1 hfind
  rw [h] at hget
  cases hget

namespace P2PClient

/-! ### Dials -/

/-- Neither the table nor the selected neighbour nor the current server is the client itself. -/
structure Apart (own : Str) (p : P2PClient) : Prop where
  own_ne : own ≠ lit "1111"
  table : p.statics.neiIP[own]? = none
  IP_ne : p.IP ≠ own
  serverAddr_ne : p.client.serverAddr ≠ own

/-- The connection of the current `TcpClient` has its close callback there. -/
def Linked (p : P2PClient) : Prop :=
  ∀ c, p.client.connection = some c → (p.conns c).closeCallback = .client p.client.id

/-- The client sends nothing, learns nothing and gets no connection; what it forgets and where it
turns to follows from its table. -/
structure Steered (p p' : P2PClient) : Prop where
  sent : p'.sent = p.sent
  updateFile : p'.statics.updateFile = p.statics.updateFile
  IP : p'.statics.IP = p.statics.IP
  table : ∀ (key : Str) (level : ℤ), p'.statics.neiIP[key]? = some level →
    p.statics.neiIP[key]? = some level
  client_connection : ∀ c, p'.client.connection = some c → p.client.connection = some c
  linked : p.Linked → p'.Linked
  apart : ∀ own, p.Apart own → p'.Apart own

theorem Steered.refl (p : P2PClient) : Steered p p :=
  ⟨rfl, rfl, rfl, fun _ _ h => h, fun _ h => h, fun h => h, fun _ h => h⟩

theorem Steered.trans {p p' p'' : P2PClient} (h : Steered p p') (h' : Steered p' p'') :
    Steered p p'' where
  sent := h'.sent.trans h.sent
  updateFile := h'.updateFile.trans h.updateFile
  IP := h'.IP.trans h.IP
  table key level hlevel := h.table key level (h'.table key level hlevel)
  client_connection c hc := h.client_connection c (h'.client_connection c hc)
  linked hlinked := h'.linked (h.linked hlinked)
  apart own hown := h'.apart own (h.apart own hown)

/-- A change of other members. -/
theorem Steered.of_eq {p p' : P2PClient} (hsent : p'.sent = p.sent)
    (hstatics : p'.statics = p.statics) (hIP : p'.IP = p.IP)
    (hclient : p'.client = p.client)
    (hconns : ∀ c, (p'.conns c).closeCallback = (p.conns c).closeCallback) :
    Steered p p' where
  sent := hsent
  updateFile := by rw [hstatics]
  IP := by rw [hstatics]
  table key level h := by rwa [hstatics] at h
  client_connection c hc := by rwa [hclient] at hc
  linked h c hc := by
    rw [hconns, hclient]
    exact h c (hclient ▸ hc)
  apart own h := ⟨h.own_ne, hstatics ▸ h.table, hIP ▸ h.IP_ne, hclient ▸ h.serverAddr_ne⟩

theorem steered_shutdown (p : P2PClient) (c : ConnId) : Steered p (p.shutdown c) := by
  refine Steered.of_eq rfl rfl rfl rfl fun c' => ?_
  by_cases hc : c' = c
  · subst hc
    rw [shutdown, conns_modify_self]
    split_ifs
    · rfl
    · rfl
  · rw [shutdown, conns_modify_of_ne _ _ hc]

theorem steered_close (p : P2PClient) (c : ConnId) : Steered p (p.close c) :=
  Steered.of_eq rfl rfl rfl rfl fun c' => (conns_close p c c').1

/-- A change of the `TcpClient` that leaves its number, its connection and its server alone. -/
theorem steered_client (p : P2PClient) {client : TcpClient} (hid : client.id = p.client.id)
    (hconnection : client.connection = p.client.connection)
    (hserver : client.serverAddr = p.client.serverAddr) : Steered p { p with client := client } :=
  { Steered.refl p with
    client_connection := fun c hc => hconnection ▸ hc
    linked := fun h c hc => by
      show (p.conns c).closeCallback = .client client.id
      rw [hid]
      exact h c (hconnection ▸ hc)
    apart := fun own h => ⟨h.own_ne, h.table, h.IP_ne, hserver ▸ h.serverAddr_ne⟩ }

theorem steered_disconnect (p : P2PClient) : Steered p p.disconnect ∧ p.disconnect.IP = p.IP := by
  have h : Steered p { p with client := { p.client with connect := false } } :=
    steered_client p rfl rfl rfl
  unfold disconnect
  dsimp only
  split
  · exact ⟨h.trans (steered_shutdown _ _), rfl⟩
  · exact ⟨h, rfl⟩

theorem steered_stop (p : P2PClient) (state : ConnState) :
    Steered p { p.stop with state := state } := by
  have h : Steered p p.stop := steered_client p rfl rfl rfl
  exact h.trans (Steered.of_eq rfl rfl rfl rfl fun _ => rfl)

/-- A new `TcpClient` has no connection, and goes to the selected neighbour. -/
theorem steered_newClient (p : P2PClient) {dest : Str} (hdest : dest = p.IP) :
    Steered p (p.deleteClient.newClient dest) := by
  subst hdest
  unfold deleteClient
  split
  all_goals
    exact
      { Steered.refl p with
        client_connection := fun c hc => by cases hc
        linked := fun _ c hc => by cases hc
        apart := fun _ h => ⟨h.own_ne, h.table, h.IP_ne, h.IP_ne⟩ }

theorem steered_changeServer (p : P2PClient) (works : Bool) :
    Steered p (p.changeServer p.IP works).1 := by
  obtain ⟨hdisconnect, hIP⟩ := steered_disconnect p
  unfold changeServer
  dsimp only
  split_ifs
  · exact (hdisconnect.trans (steered_stop _ .kConnecting)).trans (steered_newClient _ hIP.symm)
  · exact (steered_stop p .kConnecting).trans (steered_newClient _ rfl)
  · exact (hdisconnect.trans (steered_stop _ .kConnecting)).trans
      (.of_eq rfl rfl rfl rfl fun _ => rfl)
  · exact (steered_stop p .kConnecting).trans (.of_eq rfl rfl rfl rfl fun _ => rfl)

theorem steered_select (p : P2PClient) (level : ℤ) :
    Steered p { p with IP := p.statics.findNeiIP level } :=
  { Steered.refl p with
    apart := fun _ h =>
      ⟨h.own_ne, h.table, P2PCServer.findNeiIP_ne h.own_ne h.table level, h.serverAddr_ne⟩ }

theorem steered_removeNeiIP (p : P2PClient) (ip : Str) :
    Steered p { p with statics := p.statics.removeNeiIP ip } := by
  have htable : ∀ (key : Str) (level : ℤ), (p.statics.removeNeiIP ip).neiIP[key]? = some level →
      p.statics.neiIP[key]? = some level := by
    intro key level h
    rw [P2PCServer.removeNeiIP, Std.ExtTreeMap.getElem?_erase] at h
    split_ifs at h
    exact h
  refine { Steered.refl p with
    table := htable
    apart := fun own h => ⟨h.own_ne, ?_, h.IP_ne, h.serverAddr_ne⟩ }
  cases hget : (p.statics.removeNeiIP ip).neiIP[own]? with
  | none => rfl
  | some level =>
    have hnone := h.table
    rw [htable own level hget] at hnone
    cases hnone

/-- A neighbour is removed and the next one selected. -/
theorem steered_reselect (p : P2PClient) (ip : Str) (level : ℤ) :
    Steered p { p with
      statics := p.statics.removeNeiIP ip
      IP := (p.statics.removeNeiIP ip).findNeiIP level } :=
  (steered_removeNeiIP p ip).trans (steered_select _ level)

theorem steered_failover (works : ℕ → Str → Bool) (level : ℤ) (fuel i : ℕ) (p : P2PClient) :
    Steered p (failover works level fuel i p) := by
  apply rel_failover (R := Steered) Steered.trans
  · exact fun _ => Steered.of_eq rfl rfl rfl rfl fun _ => rfl
  · exact steered_changeServer
  · exact fun p => steered_reselect p p.IP

/-- The connection of the current `TcpClient` is the one in `connection_`, and a connection that
waits in a functor is down. -/
structure Tidy (p : P2PClient) : Prop where
  held : p.stuck = false → ∀ c, p.client.connection = some c → p.connection = some c
  linked : p.Linked
  queued : ∀ c ∈ p.functors, (p.conns c).state = .kDisconnected ∧ (p.conns c).enabled = false
  fresh : ∀ c, c ∈ p.functors ∨ p.connection = some c ∨ c ∈ p.sent.map Prod.fst → c < p.nextConn

/-- Between two events no event holds a connection. -/
structure Ready (p : P2PClient) : Prop extends p.Tidy where
  unguarded : p.stuck = false → p.guard = none

theorem ready_start (statics : P2PCServer) (state : ConnState) (serverAddr : Str) :
    (start statics state serverAddr).Ready where
  held := by simp [start]
  linked := by simp [start, Linked]
  queued := by simp [start]
  fresh := by simp [start]
  unguarded _ := rfl

/-- An event that reaches the client is one of the connection in `connection_`. -/
theorem Ready.connection_of_dispatches {p : P2PClient} (h : p.Ready) (hstuck : p.stuck = false)
    {c : ConnId} (hd : p.Dispatches c) : p.connection = some c := by
  obtain ⟨-, henabled, hconnection | hclient | hguard | hqueued⟩ := hd
  · exact hconnection
  · exact h.held hstuck c hclient
  · rw [h.unguarded hstuck] at hguard
    cases hguard
  · rw [(h.queued c hqueued).2] at henabled
    cases henabled

theorem Tidy.of_kept {p p' : P2PClient} (h : p.Tidy) (hstuck : p.stuck = false) (hk : Kept p p')
    (hs : Steered p p') : p'.Tidy where
  held _ c hc := hk.connection.trans (h.held hstuck c (hs.client_connection c hc))
  linked := hs.linked h.linked
  queued c hc := by
    obtain ⟨hstate, henabled⟩ := h.queued c (hk.functors ▸ hc)
    exact ⟨hk.disconnected c hstate, (hk.enabled c).trans henabled⟩
  fresh c hc := by
    rw [hk.nextConn]
    exact h.fresh c (by rwa [hk.functors, hk.connection, hs.sent] at hc)

/-- The end of an event: the guard goes, unless the handler has not returned. -/
theorem Tidy.release {p : P2PClient} (h : p.Tidy) :
    (if p.stuck then p else { p with guard := none }).Ready ∧
      Steered p (if p.stuck then p else { p with guard := none }) := by
  split_ifs with hs
  · exact ⟨{ h with unguarded := fun hs' => absurd (hs.symm.trans hs') (by decide) }, .refl p⟩
  · exact ⟨{ h with unguarded := fun _ => rfl }, .of_eq rfl rfl rfl rfl fun _ => rfl⟩

theorem dispatch_of_dispatches {p : P2PClient} {c : ConnId} (hd : p.Dispatches c)
    (handle : P2PClient → P2PClient) : p.dispatch c handle =
      if (handle { p with guard := some c }).stuck then handle { p with guard := some c }
      else { handle { p with guard := some c } with guard := none } :=
  if_pos hd

/-- An event is dispatched to a handler that sends nothing, or finds no connection. -/
theorem Ready.dispatch {p : P2PClient} (h : p.Ready) (c : ConnId) {handle : P2PClient → P2PClient}
    (hhandle : p.Dispatches c → Tidy { p with guard := some c } →
      (handle { p with guard := some c }).Tidy ∧
        Steered { p with guard := some c } (handle { p with guard := some c })) :
    (p.dispatch c handle).Ready ∧ Steered p (p.dispatch c handle) := by
  by_cases hd : p.Dispatches c
  · rw [dispatch_of_dispatches hd]
    obtain ⟨htidy, hs⟩ := hhandle hd { h with }
    obtain ⟨hready, hrelease⟩ := htidy.release
    refine ⟨hready, Steered.trans ?_ (hs.trans hrelease)⟩
    exact Steered.of_eq rfl rfl rfl rfl fun _ => rfl
  · rw [P2PClient.dispatch, if_neg hd]
    exact ⟨h, .refl p⟩

/-- Nothing follows a handler that has not returned. -/
theorem Ready.of_handle {p : P2PClient} (h : p.Ready) {e : Event}
    (hhandle : p.stuck = false → (p.handle e).Ready ∧ Steered p (p.handle e)) :
    (p.step e).Ready ∧ Steered p (p.step e) := by
  cases hstuck : p.stuck with
  | true =>
    rw [step_of_stuck hstuck]
    exact ⟨h, .refl p⟩
  | false =>
    rw [step_of_not_stuck hstuck]
    exact hhandle hstuck

/-! ### One lemma for each event -/

/-- A request is sent on the connection in `connection_`, or not at all. -/
theorem write_cases {p : P2PClient} {c : ConnId} (hc : p.connection = some c) (message : Str) :
    p.write message = p ∨ p.write message = { p with sent := p.sent ++ [(c, message)] } := by
  unfold write
  rw [hc]
  dsimp only
  split_ifs
  · exact .inr rfl
  · exact .inl rfl

/-- A reply that is read: what the client learns is what `processMessage` says; it sends at most one
request, on the connection in `connection_`; and then it may turn to another server. -/
theorem Tidy.onStringMessage {p : P2PClient} (h : p.Tidy) (hstuck : p.stuck = false) {c : ConnId}
    (hc : p.connection = some c) {message : Str} (probes : Probes) {s : P2PCServer} {res : ℤ}
    (hs : (processMessage p.statics message).val = some (s, res)) :
    (p.onStringMessage message probes).Tidy ∧
      ∃ new, (new = [] ∨ new = [(c, fileRequest s s.getFile)]) ∧
        Steered { p with statics := s, sent := p.sent ++ new }
          (p.onStringMessage message probes) := by
  have hk : Kept { p with statics := s } (p.onStringMessage message probes) := by
    have hk := kept_onStringMessage p message probes
    exact { hk with }
  have hlearned : Tidy { p with statics := s } := { h with }
  have hquiet : Steered { p with statics := s } (p.onStringMessage message probes) →
      (p.onStringMessage message probes).Tidy ∧
        ∃ new, (new = [] ∨ new = [(c, fileRequest s s.getFile)]) ∧
          Steered { p with statics := s, sent := p.sent ++ new }
            (p.onStringMessage message probes) := by
    intro hsteered
    refine ⟨hlearned.of_kept hstuck hk hsteered, [], .inl rfl, ?_⟩
    rwa [List.append_nil]
  have hvalue : p.onStringMessage message probes =
      if s.getFile < 100 then
        if res ≠ 0 then P2PClient.write { p with statics := s } (fileRequest s s.getFile)
        else failover probes.works s.getFile probes.fuel 0
          { p with statics := s, IP := s.findNeiIP s.getFile }
      else { p with statics := s } := by
    rw [P2PClient.onStringMessage, hs]
  by_cases hfile : s.getFile < 100
  · rw [if_pos hfile] at hvalue
    by_cases hres : res ≠ 0
    · rw [if_pos hres] at hvalue
      rcases write_cases (p := { p with statics := s }) hc (fileRequest s s.getFile) with
        hwrite | hwrite
      · rw [hwrite] at hvalue
        apply hquiet
        rw [hvalue]
        exact .refl _
      · rw [hwrite] at hvalue
        rw [hvalue]
        refine ⟨{ hlearned with fresh := fun c' hc' => ?_ }, _, .inr rfl, .refl _⟩
        rcases hc' with hqueued | hconnection | hsent
        · exact h.fresh c' (.inl hqueued)
        · exact h.fresh c' (.inr (.inl hconnection))
        · rw [List.map_append, List.mem_append] at hsent
          rcases hsent with hsent | hsent
          · exact h.fresh c' (.inr (.inr hsent))
          · rw [List.mem_singleton.1 hsent]
            exact h.fresh c (.inr (.inl hc))
    · rw [if_neg hres] at hvalue
      apply hquiet
      rw [hvalue]
      exact (steered_select { p with statics := s } s.getFile).trans (steered_failover _ _ _ _ _)
  · rw [if_neg hfile] at hvalue
    apply hquiet
    rw [hvalue]
    exact .refl _

/-- A reply that a connection gets. -/
theorem Ready.message {p : P2PClient} (h : p.Ready) (hstuck : p.stuck = false) {c : ConnId}
    (hd : p.Dispatches c) {message : Str} (probes : Probes) {s : P2PCServer} {res : ℤ}
    (hs : (processMessage p.statics message).val = some (s, res)) :
    (p.step (.messages c [(message, probes)] false)).Ready ∧
      ∃ new, (new = [] ∨ new = [(c, fileRequest s s.getFile)]) ∧
        Steered { p with statics := s, sent := p.sent ++ new }
          (p.step (.messages c [(message, probes)] false)) := by
  have hc : p.connection = some c := h.connection_of_dispatches hstuck hd
  have hread : readMessages c [(message, probes)] false { p with guard := some c } =
      P2PClient.onStringMessage { p with guard := some c } message probes := by
    simp [readMessages, onMessages, hstuck]
  rw [step_of_not_stuck hstuck, handle, dispatch_of_dispatches hd, hread]
  have hguarded : Tidy { p with guard := some c } := { h with }
  obtain ⟨htidy, new, hnew, hsteered⟩ := hguarded.onStringMessage hstuck hc probes hs
  obtain ⟨hready, hrelease⟩ := htidy.release
  refine ⟨hready, new, hnew, Steered.trans ?_ (hsteered.trans hrelease)⟩
  exact Steered.of_eq rfl rfl rfl rfl fun _ => rfl

/-- An invalid length only shuts the connection down. -/
theorem Ready.invalid {p : P2PClient} (h : p.Ready) (c : ConnId) :
    (p.step (.messages c [] true)).Ready ∧ Steered p (p.step (.messages c [] true)) := by
  refine h.of_handle fun hstuck => h.dispatch c fun _ htidy => ?_
  have hs := steered_shutdown { p with guard := some c } c
  exact ⟨htidy.of_kept hstuck (kept_shutdown _ c) hs, hs⟩

theorem steered_onConnection_down (p : P2PClient) (c : ConnId) (probes : Probes)
    (h : (p.conns c).state ≠ .kConnected) : Steered p (p.onConnection c probes) := by
  have hnone : Steered p { p with connection := none } :=
    Steered.of_eq rfl rfl rfl rfl fun _ => rfl
  rw [onConnection, if_neg h]
  dsimp only
  split_ifs
  · exact (hnone.trans (steered_reselect _ _ _)).trans (steered_failover _ _ _ _ _)
  · exact hnone

/-- The close callback of the only connection that the current `TcpClient` can have leaves it none,
and queues at most that connection. -/
theorem runCloseCallback_spec {p : P2PClient} (h : p.Linked) {c : ConnId}
    (honly : ∀ c', p.client.connection = some c' → c' = c) :
    (p.runCloseCallback c).client.connection = none ∧ Steered p (p.runCloseCallback c) ∧
      (p.runCloseCallback c).conns = p.conns ∧
      (p.runCloseCallback c).connection = p.connection ∧
      (p.runCloseCallback c).nextConn = p.nextConn ∧
      ∀ c' ∈ (p.runCloseCallback c).functors, c' ∈ p.functors ++ [c] := by
  have hnone : (p.conns c).closeCallback ≠ .client p.client.id → p.client.connection = none := by
    intro hne
    cases hclient : p.client.connection with
    | none => rfl
    | some c' =>
      obtain rfl := honly c' hclient
      exact absurd (h c' hclient) hne
  rw [runCloseCallback]
  cases hid : (p.conns c).closeCallback with
  | detached =>
    rw [hid] at hnone
    exact ⟨hnone (by simp), .of_eq rfl rfl rfl rfl fun _ => rfl, rfl, rfl, rfl, fun _ hc' => hc'⟩
  | client id =>
    rw [hid] at hnone
    dsimp only
    by_cases hcurrent : id = p.client.id
    · rw [if_pos hcurrent]
      refine ⟨rfl, ?_, rfl, rfl, rfl, fun _ hc' => hc'⟩
      exact
        { Steered.refl p with
          client_connection := fun c' hc' => by cases hc'
          linked := fun _ c' hc' => by cases hc'
          apart := fun _ ha => ⟨ha.own_ne, ha.table, ha.IP_ne, ha.serverAddr_ne⟩ }
    · rw [if_neg hcurrent]
      exact ⟨hnone fun heq => hcurrent (CloseCallback.client.inj heq), .refl p, rfl, rfl, rfl,
        fun _ hc' => List.mem_append_left _ hc'⟩

/-- The first part of `handleClose`: the connection is down like those that wait in functors, and
`connection_` is empty. -/
theorem Tidy.closed {p : P2PClient} (h : p.Tidy) (c : ConnId) (probes : Probes) :
    Steered p ((p.close c).onConnection c probes) ∧
      Kept { p.close c with connection := none } ((p.close c).onConnection c probes) ∧
      ∀ c' ∈ p.functors ++ [c],
        (((p.close c).onConnection c probes).conns c').state = .kDisconnected ∧
          (((p.close c).onConnection c probes).conns c').enabled = false := by
  have hclosed : ∀ c' ∈ p.functors ++ [c], ((p.close c).conns c').state = .kDisconnected ∧
      ((p.close c).conns c').enabled = false := by
    intro c' hc'
    obtain ⟨-, ⟨-, hdown⟩ | ⟨hne, heq⟩⟩ := conns_close p c c'
    · exact hdown
    · rw [heq]
      refine h.queued c' ((List.mem_append.1 hc').resolve_right fun hmem => ?_)
      exact hne (List.mem_singleton.1 hmem)
  have hstate : ((p.close c).conns c).state ≠ .kConnected := by
    rw [(hclosed c (by simp)).1]
    decide
  have hk := kept_onConnection_down (p.close c) c probes hstate
  refine ⟨?_, hk, fun c' hc' => ?_⟩
  · exact (steered_close p c).trans (steered_onConnection_down (p.close c) c probes hstate)
  · obtain ⟨hstate', henabled⟩ := hclosed c' hc'
    exact ⟨hk.disconnected c' hstate', (hk.enabled c').trans henabled⟩

/-- The connection in `connection_` closes. -/
theorem Tidy.handleClose {p : P2PClient} (h : p.Tidy) {c : ConnId} (hstuck : p.stuck = false)
    (hc : p.connection = some c) (probes : Probes) :
    (p.handleClose c probes).Tidy ∧ Steered p (p.handleClose c probes) := by
  obtain ⟨hs, hk, hdown⟩ := h.closed c probes
  have hfresh : ∀ c', c' ∈ p.functors ++ [c] ∨ c' ∈ p.sent.map Prod.fst → c' < p.nextConn := by
    intro c' hc'
    rw [List.mem_append, List.mem_singleton] at hc'
    rcases hc' with (hmem | rfl) | hsent
    · exact h.fresh c' (.inl hmem)
    · exact h.fresh c' (.inr (.inl hc))
    · exact h.fresh c' (.inr (.inr hsent))
  unfold P2PClient.handleClose
  dsimp only
  by_cases hstuck' : ((p.close c).onConnection c probes).stuck = true
  · rw [if_pos hstuck']
    refine ⟨?_, hs⟩
    exact
      { held := fun hs' => absurd (hstuck'.symm.trans hs') (by decide)
        linked := hs.linked h.linked
        queued := fun c' hc' => hdown c' (List.mem_append_left _ (hk.functors ▸ hc'))
        fresh := fun c' hc' => by
          rw [hk.functors, hk.connection, hs.sent] at hc'
          rw [hk.nextConn]
          rcases hc' with hmem | hconnection | hsent
          · exact hfresh c' (.inl (List.mem_append_left _ hmem))
          · cases hconnection
          · exact hfresh c' (.inr hsent) }
  · rw [if_neg hstuck']
    have honly : ∀ c', ((p.close c).onConnection c probes).client.connection = some c' → c' = c :=
      fun c' hc' => Option.some.inj
        ((h.held hstuck c' (hs.client_connection c' hc')).symm.trans hc)
    obtain ⟨hnone, hs', hconns, hconnection, hnextConn, hfunctors⟩ :=
      runCloseCallback_spec (hs.linked h.linked) honly
    have hmem : ∀ c' ∈ (((p.close c).onConnection c probes).runCloseCallback c).functors,
        c' ∈ p.functors ++ [c] := fun c' hc' => hk.functors ▸ hfunctors c' hc'
    refine ⟨?_, hs.trans hs'⟩
    exact
      { held := fun _ c' hc' => by simp [hnone] at hc'
        linked := fun c' hc' => by simp [hnone] at hc'
        queued := fun c' hc' => by
          rw [hconns]
          exact hdown c' (hmem c' hc')
        fresh := fun c' hc' => by
          rw [hconnection, hk.connection, hs'.sent, hs.sent] at hc'
          rw [hnextConn, hk.nextConn]
          rcases hc' with hqueued | hconnection' | hsent
          · exact hfresh c' (.inl (hmem c' hqueued))
          · cases hconnection'
          · exact hfresh c' (.inr hsent) }

/-- A connection that goes down: nothing is sent. -/
theorem Ready.down {p : P2PClient} (h : p.Ready) (c : ConnId) (probes : Probes) :
    (p.step (.down c probes)).Ready ∧ Steered p (p.step (.down c probes)) := by
  refine h.of_handle fun hstuck => ?_
  rw [handle]
  refine h.dispatch c fun hd htidy => ?_
  exact htidy.handleClose hstuck (h.connection_of_dispatches hstuck hd) probes

/-- A queued functor finds its connection down. -/
theorem Ready.runFunctor {p : P2PClient} (h : p.Ready) (probes : Probes) :
    (p.step (.runFunctor probes)).Ready ∧ Steered p (p.step (.runFunctor probes)) := by
  refine h.of_handle fun hstuck => ?_
  rw [handle, P2PClient.runFunctor]
  cases hcs : p.functors with
  | nil => exact ⟨h, .refl p⟩
  | cons c cs =>
    have hdown := (h.queued c (by simp [hcs])).1
    have hdestroyed : p.connectDestroyed c probes =
        { p with poller := p.poller.filter (· ≠ c) } := by
      simp [connectDestroyed, hdown, hstuck]
    dsimp only
    rw [hdestroyed]
    refine ⟨?_, Steered.of_eq rfl rfl rfl rfl fun _ => rfl⟩
    exact
      { h with
        queued := fun c' hc' => h.queued c' (List.mem_of_mem_tail hc')
        fresh := fun c' hc' => h.fresh c' (hc'.imp_left List.mem_of_mem_tail) }

/-- The first request of a connection. -/
def firstRequest (p : P2PClient) : Str :=
  if p.isFirst then registration p.statics else fileRequest p.statics p.statics.getFile

theorem newConnection_eq (p : P2PClient) (probes : Probes) :
    p.newConnection probes = { p.establish with
      state := .kConnected
      connection := some p.nextConn
      isFirst := false
      sent := p.sent ++ [(p.nextConn, p.firstRequest)] } := by
  rw [P2PClient.newConnection, onConnection, if_pos (by simp [establish])]
  dsimp only
  cases hfirst : p.isFirst with
  | true => simp [establish, write, firstRequest, hfirst]
  | false => simp [establish, write, firstRequest, hfirst]

/-- A connection that goes up: one request is sent on it. -/
theorem Ready.up {p : P2PClient} (h : p.Ready) (hstuck : p.stuck = false)
    (hconnecting : p.client.connecting = true) (probes : Probes) :
    p.step (.up probes) = { p.establish with
      state := .kConnected
      connection := some p.nextConn
      isFirst := false
      sent := p.sent ++ [(p.nextConn, p.firstRequest)] } ∧ (p.step (.up probes)).Ready := by
  have hstep : p.step (.up probes) = p.newConnection probes := by
    rw [step_of_not_stuck hstuck, handle, if_pos hconnecting]
  rw [hstep, newConnection_eq]
  refine ⟨rfl, ?_⟩
  have hqueued : ∀ c ∈ p.functors, p.establish.conns c = p.conns c := fun c hc =>
    conns_establish_of_lt p (h.fresh c (.inl hc))
  exact
    { held := fun _ c hc => hc
      linked := fun c hc => by
        obtain rfl := Option.some.inj hc
        simp [establish]
      queued := fun c hc => by
        rw [hqueued c hc]
        exact h.queued c hc
      fresh := fun c hc => by
        rcases hc with hc | hc | hc
        · exact Nat.lt_succ_of_lt (h.fresh c (.inl hc))
        · rw [← Option.some.inj hc]
          exact Nat.lt_succ_self _
        · rw [List.map_append, List.mem_append] at hc
          rcases hc with hc | hc
          · exact Nat.lt_succ_of_lt (h.fresh c (.inr (.inr hc)))
          · rw [List.mem_singleton.1 hc]
            exact Nat.lt_succ_self _
      unguarded := fun _ => h.unguarded hstuck }

/-- A request that the listening half reads only enters the table. -/
theorem Ready.request {p : P2PClient} (h : p.Ready) {message : Str} {r : Request}
    (hr : (readRequest message).val = some r) :
    (p.statics.onStringMessage message).val =
        some (p.statics.insertNeiIP r.ip r.reqfile, [.send p.statics.fileReply]) ∧
      p.onRequest message = { p with statics := p.statics.insertNeiIP r.ip r.reqfile } ∧
      (p.onRequest message).Ready := by
  have hval : (p.statics.onStringMessage message).val =
      some (p.statics.insertNeiIP r.ip r.reqfile, [.send p.statics.fileReply]) := by
    rw [P2PCServer.onStringMessage, Traced.val_bind, hr]
    rfl
  have heq : p.onRequest message =
      { p with statics := p.statics.insertNeiIP r.ip r.reqfile } := by
    rw [onRequest, hval]
  refine ⟨hval, heq, ?_⟩
  rw [heq]
  exact { h with }

end P2PClient

end Huaweip2p
