import Huaweip2p.Client.Handlers

/-!
# What a client does to its connections

An event other than a connection that goes up makes no new connection. It sends only on
connections that are connected, and none becomes connected by it.

* `Sound`: the channel of a connection asks for events until the connection is down;
* `Proceeds`: what any handler keeps to, and what follows when one handler calls another;
* `proceeds_step`: every event but a connection that goes up.
-/

namespace Huaweip2p

namespace P2PClient

/-- The channel of a connection asks for events until the connection is down. -/
def Sound (p : P2PClient) : Prop :=
  ∀ c, (p.conns c).enabled = true ↔ (p.conns c).state ≠ .kDisconnected

theorem sound_start (statics : P2PCServer) (state : ConnState) (serverAddr : Str) :
    (start statics state serverAddr).Sound := fun _ => by simp [start]

/-- No connection is made, the first request is not to come again, requests are sent on connected
connections only, and no other connection becomes connected, nor one that is down anything else. -/
structure Proceeds (p p' : P2PClient) : Prop where
  nextConn : p'.nextConn = p.nextConn
  isFirst : p'.isFirst = true → p.isFirst = true
  sent : ∃ new, p'.sent = p.sent ++ new ∧ ∀ e ∈ new, (p.conns e.1).state = .kConnected
  state : ∀ c, (p'.conns c).state = .kConnected → (p.conns c).state = .kConnected
  down : ∀ c, (p.conns c).state = .kDisconnected → (p'.conns c).state = .kDisconnected
  sound : p.Sound → p'.Sound

theorem Proceeds.refl (p : P2PClient) : Proceeds p p :=
  ⟨rfl, fun h => h, ⟨[], (List.append_nil _).symm, fun _ he => by cases he⟩, fun _ h => h,
    fun _ h => h, fun h => h⟩

theorem Proceeds.trans {p p' p'' : P2PClient} (h : Proceeds p p') (h' : Proceeds p' p'') :
    Proceeds p p'' where
  nextConn := h'.nextConn.trans h.nextConn
  isFirst hfirst := h.isFirst (h'.isFirst hfirst)
  sent := by
    obtain ⟨new, hnew, hconnected⟩ := h.sent
    obtain ⟨new', hnew', hconnected'⟩ := h'.sent
    refine ⟨new ++ new', by rw [hnew', hnew, List.append_assoc], fun e he => ?_⟩
    rcases List.mem_append.1 he with he | he
    · exact hconnected e he
    · exact h.state e.1 (hconnected' e he)
  state c hc := h.state c (h'.state c hc)
  down c hc := h'.down c (h.down c hc)
  sound hsound := h'.sound (h.sound hsound)

/-- A handler that leaves the states of all connections alone, and sends nothing. -/
theorem Proceeds.of_conns {p p' : P2PClient}
    (hconns : ∀ c, (p'.conns c).state = (p.conns c).state ∧
      (p'.conns c).enabled = (p.conns c).enabled)
    (hsent : p'.sent = p.sent) (hnext : p'.nextConn = p.nextConn)
    (hfirst : p'.isFirst = true → p.isFirst = true) : Proceeds p p' where
  nextConn := hnext
  isFirst := hfirst
  sent := ⟨[], by rw [hsent, List.append_nil], fun _ he => by cases he⟩
  state c hc := (hconns c).1 ▸ hc
  down c hc := (hconns c).1.trans hc
  sound hsound c := by
    rw [(hconns c).1, (hconns c).2]
    exact hsound c

/-- A connection changes, and does not become connected. -/
theorem proceeds_modify (p : P2PClient) (c : ConnId) {f : Conn → Conn}
    (hstate : ∀ conn, (f conn).state = .kConnected → conn.state = .kConnected)
    (hdown : ∀ conn, conn.state = .kDisconnected → (f conn).state = .kDisconnected)
    (hsound : ∀ conn, (conn.enabled = true ↔ conn.state ≠ .kDisconnected) →
      ((f conn).enabled = true ↔ (f conn).state ≠ .kDisconnected)) :
    Proceeds p (p.modify c f) where
  nextConn := rfl
  isFirst hfirst := hfirst
  sent := ⟨[], (List.append_nil _).symm, fun _ he => by cases he⟩
  state c' hc' := by
    by_cases hc : c' = c
    · subst hc
      rw [conns_modify_self] at hc'
      exact hstate _ hc'
    · rwa [conns_modify_of_ne _ _ hc] at hc'
  down c' hc' := by
    by_cases hc : c' = c
    · subst hc
      rw [conns_modify_self]
      exact hdown _ hc'
    · rwa [conns_modify_of_ne _ _ hc]
  sound h c' := by
    by_cases hc : c' = c
    · subst hc
      rw [conns_modify_self]
      exact hsound _ (h c')
    · rw [conns_modify_of_ne _ _ hc]
      exact h c'

theorem proceeds_shutdown (p : P2PClient) (c : ConnId) : Proceeds p (p.shutdown c) := by
  refine p.proceeds_modify c (fun conn h => ?_) (fun conn h => ?_) fun conn h => ?_
  · split_ifs at h with hconnected
    exact h
  · simp [h]
  · split_ifs with hconnected
    · simpa [hconnected] using h
    · exact h

theorem proceeds_close (p : P2PClient) (c : ConnId) : Proceeds p (p.close c) := by
  refine p.proceeds_modify c (fun conn h => ?_) (fun _ _ => rfl) fun conn _ => ?_
  · cases h
  · simp

theorem proceeds_disconnect (p : P2PClient) : Proceeds p p.disconnect := by
  have h : Proceeds p { p with client := { p.client with connect := false } } :=
    Proceeds.of_conns (fun _ => ⟨rfl, rfl⟩) rfl rfl id
  unfold disconnect
  dsimp only
  split
  · exact h.trans (proceeds_shutdown _ _)
  · exact h

theorem proceeds_deleteClient (p : P2PClient) (dest : Str) :
    Proceeds p (p.deleteClient.newClient dest) := by
  rw [deleteClient]
  cases p.client.connection with
  | none => exact Proceeds.of_conns (fun _ => ⟨rfl, rfl⟩) rfl rfl id
  | some c =>
    have hdetached : Proceeds p
        (p.modify c fun conn => { conn with closeCallback := .detached }) :=
      p.proceeds_modify c (fun _ h => h) (fun _ h => h) fun _ h => h
    exact hdetached.trans (.of_conns (fun _ => ⟨rfl, rfl⟩) rfl rfl id)

theorem proceeds_changeServer (p : P2PClient) (dest : Str) (works : Bool) :
    Proceeds p (p.changeServer dest works).1 := by
  have hstop : ∀ q : P2PClient, Proceeds q { q.stop with state := .kConnecting } := fun _ =>
    Proceeds.of_conns (fun _ => ⟨rfl, rfl⟩) rfl rfl id
  have hdisconnect : Proceeds p (if p.connection.isSome then p.disconnect else p) := by
    split_ifs
    · exact proceeds_disconnect p
    · exact .refl p
  unfold changeServer
  dsimp only
  cases works with
  | true => exact (hdisconnect.trans (hstop _)).trans (proceeds_deleteClient _ dest)
  | false => exact (hdisconnect.trans (hstop _)).trans (.of_conns (fun _ => ⟨rfl, rfl⟩) rfl rfl id)

theorem proceeds_write (p : P2PClient) (message : Str) : Proceeds p (p.write message) := by
  unfold write
  split
  · split_ifs with hconnected
    · refine { Proceeds.refl p with sent := ⟨_, rfl, fun e he => ?_⟩ }
      rw [List.mem_singleton.1 he]
      exact hconnected
    · exact .refl p
  · exact .refl p

theorem proceeds_failover (works : ℕ → Str → Bool) (level : ℤ) (fuel i : ℕ) (p : P2PClient) :
    Proceeds p (failover works level fuel i p) := by
  apply rel_failover (R := Proceeds) Proceeds.trans
  · exact fun _ => Proceeds.of_conns (fun _ => ⟨rfl, rfl⟩) rfl rfl id
  · exact fun p => proceeds_changeServer p p.IP
  · exact fun _ _ => Proceeds.of_conns (fun _ => ⟨rfl, rfl⟩) rfl rfl id

theorem proceeds_onStringMessage (p : P2PClient) (message : Str) (probes : Probes) :
    Proceeds p (p.onStringMessage message probes) := by
  rw [onStringMessage]
  rcases (processMessage p.statics message).val with _ | ⟨s, res⟩
  · exact Proceeds.of_conns (fun _ => ⟨rfl, rfl⟩) rfl rfl id
  · have hs : Proceeds p { p with statics := s } :=
      Proceeds.of_conns (fun _ => ⟨rfl, rfl⟩) rfl rfl id
    dsimp only
    split_ifs
    · exact hs.trans (proceeds_write _ _)
    · refine hs.trans (Proceeds.trans ?_ (proceeds_failover _ _ _ _ _))
      exact Proceeds.of_conns (fun _ => ⟨rfl, rfl⟩) rfl rfl id
    · exact hs

theorem proceeds_readMessages (c : ConnId) (ms : List (Str × Probes)) (invalid : Bool)
    (p : P2PClient) : Proceeds p (readMessages c ms invalid p) := by
  have hmessages : Proceeds p (p.onMessages ms) := by
    unfold onMessages
    induction ms generalizing p with
    | nil => exact .refl p
    | cons m ms ih =>
      rw [List.foldl_cons]
      refine Proceeds.trans ?_ (ih _)
      split_ifs
      · exact .refl p
      · exact proceeds_onStringMessage p m.1 m.2
  unfold readMessages
  dsimp only
  split_ifs
  · exact hmessages.trans (proceeds_shutdown _ c)
  · exact hmessages

theorem proceeds_onConnection (p : P2PClient) (c : ConnId) (probes : Probes) :
    Proceeds p (p.onConnection c probes) := by
  rw [onConnection]
  dsimp only
  split_ifs
  · refine Proceeds.trans ?_ (proceeds_write _ _)
    exact Proceeds.of_conns (fun _ => ⟨rfl, rfl⟩) rfl rfl fun h => by cases h
  · refine Proceeds.trans ?_ (proceeds_write _ _)
    exact Proceeds.of_conns (fun _ => ⟨rfl, rfl⟩) rfl rfl id
  · refine Proceeds.trans ?_ (proceeds_failover _ _ _ _ _)
    exact Proceeds.of_conns (fun _ => ⟨rfl, rfl⟩) rfl rfl id
  · exact Proceeds.of_conns (fun _ => ⟨rfl, rfl⟩) rfl rfl id

theorem proceeds_handleClose (p : P2PClient) (c : ConnId) (probes : Probes) :
    Proceeds p (p.handleClose c probes) := by
  have hclosed := (proceeds_close p c).trans (proceeds_onConnection (p.close c) c probes)
  unfold handleClose
  dsimp only
  split_ifs
  · exact hclosed
  · refine hclosed.trans ?_
    unfold runCloseCallback
    split
    · exact Proceeds.of_conns (fun _ => ⟨rfl, rfl⟩) rfl rfl id
    · split_ifs
      · exact Proceeds.of_conns (fun _ => ⟨rfl, rfl⟩) rfl rfl id
      · exact .refl _

theorem proceeds_runFunctor (p : P2PClient) (probes : Probes) :
    Proceeds p (p.runFunctor probes) := by
  unfold runFunctor
  split
  · exact .refl p
  rename_i c _ _
  have hdown : Proceeds p (if (p.conns c).state = .kConnected then
      (p.close c).onConnection c probes else p) := by
    split_ifs
    · exact (proceeds_close p c).trans (proceeds_onConnection _ c probes)
    · exact .refl p
  have hdestroyed : Proceeds p (p.connectDestroyed c probes) := by
    unfold connectDestroyed
    dsimp only
    split_ifs at hdown ⊢
    all_goals exact hdown.trans (.of_conns (fun _ => ⟨rfl, rfl⟩) rfl rfl id)
  exact hdestroyed.trans (.of_conns (fun _ => ⟨rfl, rfl⟩) rfl rfl id)

theorem proceeds_onRequest (p : P2PClient) (message : Str) :
    Proceeds p (p.onRequest message) := by
  rw [onRequest]
  rcases (p.statics.onStringMessage message).val with _ | ⟨s, effects⟩
  · exact Proceeds.of_conns (fun _ => ⟨rfl, rfl⟩) rfl rfl id
  · exact Proceeds.of_conns (fun _ => ⟨rfl, rfl⟩) rfl rfl id

theorem Proceeds.dispatch (p : P2PClient) (c : ConnId) {handle : P2PClient → P2PClient}
    (h : Proceeds { p with guard := some c } (handle { p with guard := some c })) :
    Proceeds p (p.dispatch c handle) := by
  have hhandle : Proceeds p (handle { p with guard := some c }) := by
    refine Proceeds.trans ?_ h
    exact Proceeds.of_conns (fun _ => ⟨rfl, rfl⟩) rfl rfl id
  unfold P2PClient.dispatch
  split_ifs
  · dsimp only
    split_ifs
    · exact hhandle
    · exact hhandle.trans (.of_conns (fun _ => ⟨rfl, rfl⟩) rfl rfl id)
  · exact .refl p

/-- Every event but a connection that goes up. -/
theorem proceeds_step (p : P2PClient) {e : Event} (he : ∀ probes, e ≠ .up probes) :
    Proceeds p (p.step e) := by
  cases hstuck : p.stuck with
  | true =>
    rw [step_of_stuck hstuck]
    exact .refl p
  | false =>
    rw [step_of_not_stuck hstuck]
    cases e with
    | up probes => exact absurd rfl (he probes)
    | messages c ms invalid => exact .dispatch p c (proceeds_readMessages c ms invalid _)
    | down c probes =>
      rw [handle]
      exact .dispatch p c (proceeds_handleClose { p with guard := some c } c probes)
    | runFunctor probes => exact proceeds_runFunctor p probes
    | changeServer dest works => exact proceeds_changeServer p dest works
    | request message => exact proceeds_onRequest p message

end P2PClient

end Huaweip2p
