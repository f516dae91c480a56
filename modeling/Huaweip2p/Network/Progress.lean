import Huaweip2p.Network.Runs

/-!
# The network makes progress

A client that asks a program ahead of it gets there: while its connection stays up, each exchange of
a request and an answer raises its level by one, whatever the other clients do in between.

* `Stays`, `Frame`: what a step leaves alone that does not concern the connection;
* `Fetches`: the connection of a client that is ahead of it, with a request or an answer on its way;
* `Fetches.step`: the step lemma, with the exchanges left as a rank;
* `download_run`: the level that a client reaches after so many exchanges.
-/

namespace Huaweip2p

namespace P2PClient

/-- The connection `c` is open and sends, and the client has no other; its level and what it sent
stay. -/
structure Stays (c : ConnId) (p p' : P2PClient) : Prop where
  stuck : p'.stuck = p.stuck
  connecting : p'.client.connecting = p.client.connecting
  dispatches : p.Dispatches c → p'.Dispatches c
  state : (p'.conns c).state = (p.conns c).state
  sent : p'.sent = p.sent
  updateFile : p'.statics.updateFile = p.statics.updateFile

theorem Stays.refl (c : ConnId) (p : P2PClient) : Stays c p p :=
  ⟨rfl, rfl, id, rfl, rfl, rfl⟩

variable {p p' : P2PClient} {c : ConnId}

/-- The last request. -/
theorem requests_snoc {m : Str} (h : p'.sent = p.sent ++ [(c, m)]) :
    p'.requests c = p.requests c ++ [m] := by
  simp [requests, h]

/-- What reaches a client reaches it on the one connection that it has. -/
theorem Ready.eq_of_dispatches (h : p.Ready) (hstuck : p.stuck = false) {c' : ConnId}
    (hd : p.Dispatches c) (hd' : p.Dispatches c') : c' = c :=
  Option.some.inj ((h.connection_of_dispatches hstuck hd').symm.trans
    (h.connection_of_dispatches hstuck hd))

/-- An event of a connection that the poller does not report. -/
theorem dispatch_of_not (hd : ¬ p.Dispatches c) (handle : P2PClient → P2PClient) :
    p.dispatch c handle = p := if_neg hd

/-- A queued functor is about another connection. -/
theorem Ready.stays_runFunctor (h : p.Ready) (hstuck : p.stuck = false)
    (hstate : (p.conns c).state = .kConnected) (hd : p.Dispatches c) (probes : Probes) :
    Stays c p (p.step (.runFunctor probes)) := by
  rw [step_of_not_stuck hstuck, handle, P2PClient.runFunctor]
  cases hcs : p.functors with
  | nil => exact Stays.refl c p
  | cons c' cs =>
    have hdown := (h.queued c' (by simp [hcs])).1
    have hdestroyed : p.connectDestroyed c' probes =
        { p with poller := p.poller.filter (· ≠ c') } := by
      simp [connectDestroyed, hdown, hstuck]
    have hne : c ≠ c' := by
      rintro rfl
      rw [hstate] at hdown
      cases hdown
    dsimp only
    rw [hdestroyed]
    refine ⟨rfl, rfl, fun _ => ⟨?_, hd.2.1, .inl (h.connection_of_dispatches hstuck hd)⟩, rfl, rfl,
      rfl⟩
    exact List.mem_filter.2 ⟨hd.1, by simpa using hne⟩

/-- The listening half reads a request. -/
theorem Ready.stays_onRequest (h : p.Ready) (c : ConnId) {message : Str} {r : Request}
    (hr : (readRequest message).val = some r) : Stays c p (p.onRequest message) := by
  rw [(h.request hr).2.1]
  exact ⟨rfl, rfl, id, rfl, rfl, rfl⟩

/-- The client reads an answer that is ahead: its level rises by one, and unless it is done it asks
again. -/
theorem Ready.answer (h : p.Ready) (hstuck : p.stuck = false)
    (hstate : (p.conns c).state = .kConnected) (hd : p.Dispatches c) {s : P2PCServer}
    (hdecodes : DecodesExactly s) (hahead : p.statics.updateFile < s.updateFile)
    (probes : Probes) :
    ∃ t : P2PCServer, t.updateFile = p.statics.updateFile + 1 ∧
      p.step (.messages c [(s.fileReply, probes)] false) = { p with
        statics := t
        guard := none
        sent := if t.updateFile < 100 then p.sent ++ [(c, fileRequest t t.getFile)] else p.sent }
    := by
  have hc : p.connection = some c := h.connection_of_dispatches hstuck hd
  have hprocess := hdecodes.processMessage p.statics
  rw [if_pos hahead] at hprocess
  set t := ((p.statics.insertNeiIP s.IP s.updateFile).processUpdateFile s.updateFile).1 with ht
  have hfile : t.updateFile = p.statics.updateFile + 1 := by
    rw [ht, P2PCServer.processUpdateFile, P2PCServer.updateFile_insertNeiIP, if_pos hahead]
  refine ⟨t, hfile, ?_⟩
  have hread : readMessages c [(s.fileReply, probes)] false { p with guard := some c } =
      P2PClient.onStringMessage { p with guard := some c } s.fileReply probes := by
    simp [readMessages, onMessages, hstuck]
  rw [step_of_not_stuck hstuck, handle, dispatch_of_dispatches hd, hread]
  have hmessage : P2PClient.onStringMessage { p with guard := some c } s.fileReply probes =
      { p with
        statics := t
        guard := some c
        sent := if t.updateFile < 100 then p.sent ++ [(c, fileRequest t t.getFile)]
          else p.sent } := by
    rw [P2PClient.onStringMessage]
    dsimp only
    rw [hprocess]
    dsimp only
    rw [P2PCServer.getFile]
    by_cases hdone : t.updateFile < 100
    · rw [if_pos hdone, if_pos one_ne_zero, if_pos hdone, write]
      dsimp only
      rw [hc]
      dsimp only
      rw [if_pos hstate]
    · rw [if_neg hdone, if_neg hdone]
  rw [hmessage, hstuck]
  rfl

end P2PClient

namespace Network

open P2PClient (Stays fileRequest)

variable {ι : Type} (a : Addresses ι) (k : ι) (c : ConnId) (level : ℤ) (n : Network ι)

/-- The program at `peer` is running, and has reached the level. -/
def Ahead (peer : Str) : Prop :=
  (peer = lit "1111" ∧ n.serverIsDown = false ∧ level ≤ 100) ∨
    ∃ j, peer = a.ip j ∧ level ≤ n.file j

/-- Client `k` is connected to a program that has reached the level, and has a request or an answer
on its way there. -/
structure Fetches : Prop where
  stuck_eq : (n.client k).stuck = false
  connecting_eq : (n.client k).client.connecting = false
  dispatches : (n.client k).Dispatches c
  state_eq : ((n.client k).conns c).state = .kConnected
  isShutdown_eq : (n.link k c).isShutdown = false
  ahead : n.Ahead a level (n.link k c).peer
  exchange : (∃ s, DecodesExactly s ∧ n.nextRequest k c = some (fileRequest s s.getFile)) ∨
    ∃ s, DecodesExactly s ∧ level ≤ s.updateFile ∧ (n.link k c).replies = [s.fileReply]

/-- Twice the levels to go, less one while an answer is on its way. -/
def toGo : ℕ := 2 * (level - n.file k).toNat - (n.link k c).replies.length

section

variable {a k c level n} {n' : Network ι}

theorem Ahead.mono {peer : Str} (h : n.Ahead a level peer)
    (hfile : n.file ≤ n'.file)
    (hserver : peer = lit "1111" → n.serverIsDown = false → n'.serverIsDown = false) :
    n'.Ahead a level peer := by
  rcases h with ⟨hpeer, hup, hlevel⟩ | ⟨j, hpeer, hlevel⟩
  · exact .inl ⟨hpeer, hserver hpeer hup, hlevel⟩
  · exact .inr ⟨j, hpeer, hlevel.trans (hfile j)⟩

theorem Ahead.le_hundred {peer : Str} (hahead : n.Ahead a level peer) (h : n.Inv a) :
    level ≤ 100 := by
  rcases hahead with ⟨-, -, hlevel⟩ | ⟨j, -, hlevel⟩
  · exact hlevel
  · exact hlevel.trans (h.client j).now.le_hundred

/-! ### What is on its way -/

/-- What is on its way on a connection of one request without an answer that was read. -/
theorem Inv.of_nextRequest (h : n.Inv a) {m : Str} (hm : n.nextRequest k c = some m) :
    (n.link k c).replies = [] ∧
      ((n.client k).requests c).length = (n.link k c).taken + 1 ∧
      (n.link k c).taken = (n.link k c).received := by
  have hlink := h.link k c
  have htaken := (h.nextRequest hm).2
  have hreplies := hlink.replies_le
  have hrequests := hlink.requests_le
  refine ⟨List.eq_nil_of_length_eq_zero ?_, ?_, ?_⟩
  all_goals omega

theorem Inv.of_reply (h : n.Inv a) {m : Str} (hm : (n.link k c).replies = [m]) :
    ((n.client k).requests c).length = (n.link k c).taken := by
  have hlink := h.link k c
  have htaken := hlink.taken_le
  have hreplies := hlink.replies_le
  have hrequests := hlink.requests_le
  rw [hm, List.length_singleton] at hreplies
  omega

theorem Inv.decodes (h : n.Inv a) (k : ι) : DecodesExactly (n.client k).statics := by
  have hnow := (h.client k).now
  have hone := hnow.one_le
  have hle := hnow.le_hundred
  have hlength : (n.client k).statics.IP.length = 4 := by
    rw [hnow.IP_eq]
    exact a.length_eq k
  exact decodesExactly_of_length hlength (charToInt_intToChar (by omega) (by omega))

/-- A request of the file that waits. -/
theorem Fetches.asked (hf : n.Fetches a k c level) (h : n.Inv a) {m : Str}
    (hm : n.nextRequest k c = some m) :
    ∃ s : P2PCServer, DecodesExactly s ∧ m = fileRequest s s.getFile := by
  rcases hf.exchange with ⟨s, hs, hask⟩ | ⟨s, -, -, hreplies⟩
  · exact ⟨s, hs, Option.some.inj (hm.symm.trans hask)⟩
  · rw [(h.of_nextRequest hm).1] at hreplies
    cases hreplies

/-- An answer that waits. -/
theorem Fetches.answered (hf : n.Fetches a k c level) (h : n.Inv a) {m : Str} {replies : List Str}
    (hm : (n.link k c).replies = m :: replies) :
    ∃ s : P2PCServer, DecodesExactly s ∧ level ≤ s.updateFile ∧ m = s.fileReply ∧
      replies = [] := by
  rcases hf.exchange with ⟨s, -, hask⟩ | ⟨s, hs, hlevel, hreplies⟩
  · rw [(h.of_nextRequest hask).1] at hm
    cases hm
  · rw [hreplies] at hm
    obtain ⟨rfl, rfl⟩ := List.cons.inj hm
    exact ⟨s, hs, hlevel, rfl, rfl⟩

/-- The server answers a request of the file with its own level. -/
theorem respond_fileRequest {s : P2PCServer} (hs : DecodesExactly s) (c : UserCatalogue.Catalogue)
    (w : Str → Bool) (survives : Bool) :
    P2PServer.respond c w survives (fileRequest s s.getFile) = none ∨
      P2PServer.respond c w survives (fileRequest s s.getFile) =
        some (c, [.send serverStatics.fileReply]) := by
  have hanswer : (P2PServer.answer c w ⟨chr 'c', charToInt (chr '0'), s.IP, s.updateFile⟩).val =
      some (c, [.send serverStatics.fileReply]) := rfl
  rw [P2PServer.respond]
  split_ifs
  · rw [Traced.val_bind, hs.fileRequest]
    exact .inr hanswer
  · rw [P2PServer.onStringMessage_eq, Traced.val_bind, hs.fileRequest, Option.bind_some,
      Traced.val_bind]
    cases (c.hasNeighbor s.IP).val with
    | none => exact .inl rfl
    | some _ => exact .inr hanswer

theorem Fetches.toGo_pos (hf : n.Fetches a k c level) (h : n.Inv a) (hlevel : n.file k < level) :
    0 < n.toGo k c level := by
  have hreplies : (n.link k c).replies.length ≤ 1 := by
    rcases hf.exchange with ⟨s, -, hask⟩ | ⟨s, -, -, hreplies⟩
    · rw [(h.of_nextRequest hask).1]
      exact Nat.zero_le 1
    · rw [hreplies]
      exact le_refl 1
  rw [toGo]
  omega

end

variable [DecidableEq ι]

/-- The connection outlasts the step, and so does the server if it goes there. -/
def Lasts : Event ι → Prop
  | .invalid k' c' | .down k' c' _ => ¬ (k' = k ∧ c' = c)
  | .serve k' c' isClientWorking survives => (n.link k c).peer = lit "1111" →
    (n.step a (.serve k' c' isClientWorking survives)).serverIsDown = false
  | _ => True

/-- The request of the connection is taken, or its answer is read. -/
def exchanges : Event ι → Bool
  | .message k' c' _ => k' = k ∧ c' = c ∧ (n.reading k c).isSome
  | .serve k' c' _ _ => k' = k ∧ c' = c ∧ (n.nextRequest k c).isSome ∧
    (n.link k c).peer = lit "1111" ∧ n.serverIsDown = false
  | .request j k' c' => k' = k ∧ c' = c ∧ (n.nextRequest k c).isSome ∧ (n.link k c).peer = a.ip j
  | _ => false

/-! ### Steps that do not concern the connection -/

/-- The client keeps its connection, on which nothing happens. -/
structure Frame (n n' : Network ι) : Prop where
  client : Stays c (n.client k) (n'.client k)
  link : n'.link k c = n.link k c

section

variable {a k c level n} {n' : Network ι}

omit [DecidableEq ι] in
theorem Frame.file_eq (h : Frame k c n n') : n'.file k = n.file k :=
  h.client.updateFile

omit [DecidableEq ι] in
theorem Frame.nextRequest_eq (h : Frame k c n n') :
    n'.nextRequest k c = n.nextRequest k c := by
  rw [nextRequest, nextRequest, P2PClient.requests_of_sent h.client.sent, h.link]

theorem frame_setClient {k' : ι} {p : P2PClient} (h : k' = k → Stays c (n.client k) p) :
    Frame k c n (n.setClient k' p) := by
  refine ⟨?_, rfl⟩
  by_cases hk : k = k'
  · subst hk
    rw [client_setClient_self]
    exact h rfl
  · rw [client_setClient_of_ne n hk]
    exact Stays.refl c _

theorem frame_setLink {k' : ι} {c' : ConnId} (h : ¬ (k' = k ∧ c' = c)) (l : Link) :
    Frame k c n (n.setLink k' c' l) := by
  refine ⟨Stays.refl c _, ?_⟩
  by_cases hk : k = k'
  · subst hk
    exact link_setLink_of_ne n k (fun hc => h ⟨rfl, hc.symm⟩) l
  · rw [Network.setLink]
    dsimp only
    rw [Function.update_of_ne hk]

theorem Frame.setClient (h : Frame k c n n') {k' : ι} {p : P2PClient}
    (hk : k' ≠ k) : Frame k c n (n'.setClient k' p) := by
  refine ⟨?_, h.link⟩
  rw [client_setClient_of_ne n' hk.symm]
  exact h.client

/-- An event that neither ends the connection nor is an exchange on it. -/
theorem Fetches.frame (h : n.Inv a) (hf : n.Fetches a k c level) {e : Event ι}
    (hlasts : n.Lasts a k c e) (hnot : n.exchanges a k c e = false) :
    Frame k c n (n.step a e) := by
  have hrefl : Frame k c n n := ⟨Stays.refl c _, rfl⟩
  have hother : ∀ c', ¬ (k = k ∧ c' = c) → ¬ (n.client k).Dispatches c' := fun c' hne hd =>
    hne ⟨rfl, (h.ready k).eq_of_dispatches hf.stuck_eq hf.dispatches hd⟩
  cases e with
  | up k' probes =>
    rw [Network.step]
    split_ifs with hup
    · have hk : k' ≠ k := by
        rintro rfl
        rw [hf.connecting_eq] at hup
        exact Bool.false_ne_true hup.2
      exact (frame_setLink (fun heq => hk heq.1) _).setClient hk
    · exact hrefl
  | message k' c' probes =>
    rw [Network.step]
    cases hm : n.reading k' c' with
    | none => exact hrefl
    | some m =>
      have hk : k' ≠ k := by
        rintro rfl
        obtain ⟨⟨-, hd⟩, -⟩ := reading_eq_some_iff.1 hm
        obtain rfl := (h.ready k').eq_of_dispatches hf.stuck_eq hf.dispatches hd
        simp [exchanges, hm] at hnot
      exact (frame_setLink (fun heq => hk heq.1) _).setClient hk
  | invalid k' c' =>
    refine frame_setClient ?_
    rintro rfl
    rw [P2PClient.step_of_not_stuck hf.stuck_eq, P2PClient.handle,
      P2PClient.dispatch_of_not (hother c' hlasts)]
    exact Stays.refl c _
  | down k' c' probes =>
    refine frame_setClient ?_
    rintro rfl
    rw [P2PClient.step_of_not_stuck hf.stuck_eq, P2PClient.handle,
      P2PClient.dispatch_of_not (hother c' hlasts)]
    exact Stays.refl c _
  | runFunctor k' probes =>
    refine frame_setClient ?_
    rintro rfl
    exact (h.ready k').stays_runFunctor hf.stuck_eq hf.state_eq hf.dispatches probes
  | serve k' c' isClientWorking survives =>
    rw [Network.step]
    cases hm : n.nextRequest k' c' with
    | none => exact hrefl
    | some m =>
      dsimp only
      split_ifs with hserves
      swap
      · exact hrefl
      have hne : ¬ (k' = k ∧ c' = c) := by
        rintro ⟨rfl, rfl⟩
        simp [exchanges, hm, hserves] at hnot
      cases P2PServer.respond n.catalogue isClientWorking survives m with
      | none => exact ⟨hrefl.client, hrefl.link⟩
      | some r =>
        have hlink := frame_setLink (n := { n with catalogue := r.1 }) hne
          ((n.link k' c').handled r.2)
        exact ⟨hlink.client, hlink.link⟩
  | request j k' c' =>
    rw [Network.step]
    cases hm : n.nextRequest k' c' with
    | none => exact hrefl
    | some m =>
      dsimp only
      split_ifs with hpeer
      swap
      · exact hrefl
      have hne : ¬ (k' = k ∧ c' = c) := by
        rintro ⟨rfl, rfl⟩
        simp [exchanges, hm, hpeer] at hnot
      obtain ⟨r, hr, -⟩ := (h.nextRequest hm).1.read
      have hclient : Frame k c n (n.setClient j ((n.client j).onRequest m)) := by
        refine frame_setClient ?_
        rintro rfl
        exact (h.ready j).stays_onRequest c hr
      refine ⟨hclient.client, ?_⟩
      rw [(frame_setLink hne _).link]
      exact hclient.link

theorem Inv.file_le_step (h : n.Inv a) (e : Event ι) : n.file ≤ (n.step a e).file := by
  intro k
  rcases (h.step e).2 k with hfile | ⟨hfile, -⟩
  · exact hfile.ge
  · exact (Int.le_add_one (le_refl _)).trans_eq hfile.symm

/-- Only the server itself can bring it down. -/
theorem Lasts.serverIsDown {e : Event ι} (hlasts : n.Lasts a k c e)
    (hpeer : (n.link k c).peer = lit "1111") (hup : n.serverIsDown = false) :
    (n.step a e).serverIsDown = false := by
  cases e with
  | serve k' c' isClientWorking survives => exact hlasts hpeer
  | up k' probes =>
    rw [Network.step]
    split_ifs
    · exact hup
    · exact hup
  | message k' c' probes =>
    rw [Network.step]
    cases n.reading k' c' with
    | none => exact hup
    | some m => exact hup
  | request j k' c' =>
    rw [Network.step]
    cases n.nextRequest k' c' with
    | none => exact hup
    | some m =>
      dsimp only
      split_ifs
      · exact hup
      · exact hup
  | _ => exact hup

omit [DecidableEq ι] in
theorem Fetches.of_frame (hf : n.Fetches a k c level) (h : Frame k c n n')
    (hahead : n'.Ahead a level (n.link k c).peer) :
    n'.Fetches a k c level ∧ n'.toGo k c level = n.toGo k c level := by
  constructor
  · exact
      { stuck_eq := h.client.stuck.trans hf.stuck_eq
        connecting_eq := h.client.connecting.trans hf.connecting_eq
        dispatches := h.client.dispatches hf.dispatches
        state_eq := h.client.state.trans hf.state_eq
        isShutdown_eq := by rw [h.link]; exact hf.isShutdown_eq
        ahead := by rw [h.link]; exact hahead
        exchange := by rw [h.nextRequest_eq, h.link]; exact hf.exchange }
  · rw [toGo, toGo, h.file_eq, h.link]

/-! ### Exchanges -/

omit [DecidableEq ι] in
/-- The program at the other end takes the request and answers with its level. -/
theorem Fetches.handled (h : n.Inv a) (hf : n.Fetches a k c level)
    {m : Str} (hm : n.nextRequest k c = some m) {s : P2PCServer} (hs : DecodesExactly s)
    (hlevel : level ≤ s.updateFile) (hclient : Stays c (n.client k) (n'.client k))
    (hlink : n'.link k c = (n.link k c).handled [.send s.fileReply])
    (hahead : n'.Ahead a level (n.link k c).peer) :
    n'.Fetches a k c level ∧ n'.file k = n.file k ∧ (n'.link k c).replies.length = 1 := by
  have hreplies : (n'.link k c).replies = [s.fileReply] := by
    rw [hlink]
    simp [Link.handled, Link.effect, hf.isShutdown_eq, (h.of_nextRequest hm).1]
  have hsame : (n'.link k c).isShutdown = (n.link k c).isShutdown ∧
      (n'.link k c).peer = (n.link k c).peer := by
    rw [hlink]
    simp [Link.handled, Link.effect, hf.isShutdown_eq]
  refine ⟨?_, hclient.updateFile, by rw [hreplies]; rfl⟩
  exact
    { stuck_eq := hclient.stuck.trans hf.stuck_eq
      connecting_eq := hclient.connecting.trans hf.connecting_eq
      dispatches := hclient.dispatches hf.dispatches
      state_eq := hclient.state.trans hf.state_eq
      isShutdown_eq := hsame.1.trans hf.isShutdown_eq
      ahead := hsame.2 ▸ hahead
      exchange := .inr ⟨s, hs, hlevel, hreplies⟩ }

theorem Fetches.serve (h : n.Inv a) (hf : n.Fetches a k c level) {w : Str → Bool} {survives : Bool}
    (hlasts : n.Lasts a k c (.serve k c w survives)) {m : Str} (hm : n.nextRequest k c = some m)
    (hpeer : (n.link k c).peer = lit "1111") (hup : n.serverIsDown = false) :
    (n.step a (.serve k c w survives)).Fetches a k c level ∧
      (n.step a (.serve k c w survives)).file k = n.file k ∧
      ((n.step a (.serve k c w survives)).link k c).replies.length = 1 := by
  have hstays := hlasts hpeer
  have hlevel : level ≤ 100 := by
    rcases hf.ahead with ⟨-, -, hlevel⟩ | ⟨j, hip, -⟩
    · exact hlevel
    · exact absurd (hip.symm.trans hpeer) (a.ne_server j)
  obtain ⟨s, hs, rfl⟩ := hf.asked h hm
  have hdecodes : DecodesExactly serverStatics := decodesExactly_of_length rfl (by decide)
  rw [Network.step, hm] at hstays ⊢
  dsimp only at hstays ⊢
  rw [if_pos ⟨hpeer, hup⟩] at hstays ⊢
  rcases respond_fileRequest hs n.catalogue w survives with hnone | hsome
  · rw [hnone] at hstays
    cases hstays
  · rw [hsome]
    refine hf.handled h hm hdecodes hlevel (Stays.refl c _) ?_ (.inl ⟨hpeer, hup, hlevel⟩)
    exact link_setLink_self _ _ _ _

theorem Fetches.request (h : n.Inv a) (hf : n.Fetches a k c level) {j : ι} {m : Str}
    (hm : n.nextRequest k c = some m) (hpeer : (n.link k c).peer = a.ip j) :
    (n.step a (.request j k c)).Fetches a k c level ∧
      (n.step a (.request j k c)).file k = n.file k ∧
      ((n.step a (.request j k c)).link k c).replies.length = 1 := by
  have hlevel : level ≤ n.file j := by
    rcases hf.ahead with ⟨hserver, -, -⟩ | ⟨j', hip, hlevel⟩
    · exact absurd (hpeer.symm.trans hserver) (a.ne_server j)
    · rwa [a.injective (hpeer.symm.trans hip)]
  have hne : k ≠ j := by
    rintro rfl
    exact (h.link k c).peer_ne hpeer
  obtain ⟨r, hr, -⟩ := (h.nextRequest hm).1.read
  obtain ⟨hval, heq, -⟩ := (h.ready j).request hr
  have hstep : n.step a (.request j k c) = (n.setClient j ((n.client j).onRequest m)).setLink k c
      ((n.link k c).handled [.send (n.client j).statics.fileReply]) := by
    rw [Network.step, hm]
    dsimp only
    rw [if_pos hpeer, hval]
    rfl
  rw [hstep]
  refine hf.handled h hm (h.decodes j) hlevel ?_ (link_setLink_self _ _ _ _) ?_
  · exact (frame_setClient fun hk => absurd hk.symm hne).client
  · refine hf.ahead.mono ?_ fun _ hup => hup
    have hfile : (n.setClient j ((n.client j).onRequest m)).file = n.file := by
      refine file_setClient_of_eq ?_
      rw [heq]
      rfl
    exact hfile.ge

theorem Fetches.message (h : n.Inv a) (hf : n.Fetches a k c level) (hlevel : n.file k < level)
    {m : Str} (hm : n.reading k c = some m) (probes : Probes) :
    (n.step a (.message k c probes)).file k = n.file k + 1 ∧
      ((n.step a (.message k c probes)).link k c).replies = [] ∧
      (level ≤ (n.step a (.message k c probes)).file k ∨
        (n.step a (.message k c probes)).Fetches a k c level) := by
  obtain ⟨-, replies, hreplies⟩ := reading_eq_some_iff.1 hm
  obtain ⟨s, hs, hle, rfl, rfl⟩ := hf.answered h hreplies
  obtain ⟨t, ht, hclient⟩ := (h.ready k).answer hf.stuck_eq hf.state_eq hf.dispatches hs
    (hlevel.trans_le hle) probes
  have hinv := (h.message hm probes).1
  have hstep : n.step a (.message k c probes) = (n.setLink k c (n.link k c).receive).setClient k
      ((n.client k).step (.messages c [(s.fileReply, probes)] false)) := by
    rw [Network.step, hm]
  have hself : (n.step a (.message k c probes)).client k =
      (n.client k).step (.messages c [(s.fileReply, probes)] false) := by
    rw [hstep, client_setClient_self]
  have hlink : (n.step a (.message k c probes)).link k c = (n.link k c).receive := by
    rw [hstep]
    exact link_setLink_self n k c _
  have hfile : (n.step a (.message k c probes)).file k = n.file k + 1 := by
    rw [file, hself, hclient]
    exact ht
  refine ⟨hfile, by rw [hlink, Link.receive, hreplies]; rfl, ?_⟩
  by_cases hdone : t.updateFile < 100
  swap
  · have hmax := hf.ahead.le_hundred h
    have hfile' : t.updateFile = n.file k + 1 := ht
    rw [hfile]
    exact .inl (by omega)
  rw [if_pos hdone] at hclient
  have hrequests : ((n.step a (.message k c probes)).client k).requests c =
      (n.client k).requests c ++ [fileRequest t t.getFile] :=
    P2PClient.requests_snoc (by rw [hself, hclient])
  have hask : (n.step a (.message k c probes)).nextRequest k c =
      some (fileRequest t t.getFile) := by
    rw [nextRequest, hrequests, hlink, Link.receive, ← h.of_reply hreplies,
      List.getElem?_concat_length]
  have hdecodes := hinv.decodes k
  rw [hself, hclient] at hdecodes
  refine .inr ?_
  exact
    { stuck_eq := by rw [hself, hclient]; exact hf.stuck_eq
      connecting_eq := by rw [hself, hclient]; exact hf.connecting_eq
      dispatches := by
        rw [hself, hclient]
        exact ⟨hf.dispatches.1, hf.dispatches.2.1,
          .inl ((h.ready k).connection_of_dispatches hf.stuck_eq hf.dispatches)⟩
      state_eq := by rw [hself, hclient]; exact hf.state_eq
      isShutdown_eq := by rw [hlink]; exact hf.isShutdown_eq
      ahead := by
        rw [hlink]
        refine hf.ahead.mono (h.file_le_step _) fun _ hup => ?_
        rw [hstep]
        exact hup
      exchange := .inl ⟨t, hdecodes, hask⟩ }

/-! ### Whole runs -/

/-- The step lemma: until the level is reached, an exchange brings the client nearer, and nothing
else takes it away. -/
theorem Fetches.step (h : n.Inv a) (hf : n.Fetches a k c level) (hlevel : n.file k < level)
    {e : Event ι} (hlasts : n.Lasts a k c e) :
    level ≤ (n.step a e).file k ∨ ((n.step a e).Fetches a k c level ∧
      (n.step a e).toGo k c level + (if n.exchanges a k c e then 1 else 0) ≤
        n.toGo k c level) := by
  cases hexchanges : n.exchanges a k c e with
  | false =>
    have hahead : (n.step a e).Ahead a level (n.link k c).peer :=
      hf.ahead.mono (h.file_le_step e) fun hpeer hup => hlasts.serverIsDown hpeer hup
    obtain ⟨hf', htoGo⟩ := hf.of_frame (hf.frame h hlasts hexchanges) hahead
    exact .inr ⟨hf', htoGo.le⟩
  | true =>
    rw [if_pos rfl]
    -- a request that is taken: an answer is on its way
    have htaken : (n.step a e).Fetches a k c level ∧ (n.step a e).file k = n.file k ∧
        ((n.step a e).link k c).replies.length = 1 → ∀ m, n.nextRequest k c = some m →
        level ≤ (n.step a e).file k ∨ ((n.step a e).Fetches a k c level ∧
          (n.step a e).toGo k c level + 1 ≤ n.toGo k c level) := by
      rintro ⟨hf', hfile, hreplies⟩ m hm
      refine .inr ⟨hf', ?_⟩
      rw [toGo, toGo, hfile, hreplies, (h.of_nextRequest hm).1, List.length_nil]
      omega
    cases e with
    | message k' c' probes =>
      obtain ⟨rfl, rfl, hsome⟩ := of_decide_eq_true hexchanges
      obtain ⟨m, hm⟩ := Option.isSome_iff_exists.1 hsome
      obtain ⟨hfile, hreplies, hdone⟩ := hf.message h hlevel hm probes
      refine hdone.imp_right fun hf' => ⟨hf', ?_⟩
      obtain ⟨-, replies, hwaits⟩ := reading_eq_some_iff.1 hm
      obtain ⟨-, -, -, -, rfl⟩ := hf.answered h hwaits
      rw [toGo, toGo, hfile, hreplies, hwaits, List.length_nil, List.length_singleton]
      omega
    | serve k' c' w survives =>
      obtain ⟨rfl, rfl, hsome, hpeer, hup⟩ := of_decide_eq_true hexchanges
      obtain ⟨m, hm⟩ := Option.isSome_iff_exists.1 hsome
      exact htaken (hf.serve h hlasts hm hpeer hup) m hm
    | request j k' c' =>
      obtain ⟨rfl, rfl, hsome, hpeer⟩ := of_decide_eq_true hexchanges
      obtain ⟨m, hm⟩ := Option.isSome_iff_exists.1 hsome
      exact htaken (hf.request h hm hpeer) m hm
    | _ => exact absurd hexchanges Bool.false_ne_true

/-- A connection that goes up, of a client that is registered. -/
theorem fetches_up (h : n.Inv a) (hfirst : (n.client k).isFirst = false)
    (hstuck : (n.client k).stuck = false) (hconnecting : (n.client k).client.connecting = true)
    (hahead : n.Ahead a level (n.client k).client.serverAddr) (probes : Probes) :
    (n.step a (.up k probes)).Fetches a k (n.client k).nextConn level ∧
      (n.step a (.up k probes)).file k = n.file k := by
  have hstep : n.step a (.up k probes) =
      (n.setLink k (n.client k).nextConn
        ⟨(n.client k).client.serverAddr, 0, false, [], 0⟩).setClient k
          ((n.client k).step (.up probes)) := if_pos ⟨hstuck, hconnecting⟩
  have hclient := ((h.ready k).up hstuck hconnecting probes).1
  rw [P2PClient.firstRequest, hfirst, if_neg Bool.false_ne_true] at hclient
  have hself : (n.step a (.up k probes)).client k = (n.client k).step (.up probes) := by
    rw [hstep, client_setClient_self]
  have hlink : (n.step a (.up k probes)).link k (n.client k).nextConn =
      ⟨(n.client k).client.serverAddr, 0, false, [], 0⟩ := by
    rw [hstep]
    exact link_setLink_self n k _ _
  have hrequests : ((n.step a (.up k probes)).client k).requests (n.client k).nextConn =
      [fileRequest (n.client k).statics (n.client k).statics.getFile] := by
    rw [P2PClient.requests_snoc (by rw [hself, hclient]), (h.ready k).toTidy.requests_nextConn]
    rfl
  have hask : (n.step a (.up k probes)).nextRequest k (n.client k).nextConn =
      some (fileRequest (n.client k).statics (n.client k).statics.getFile) := by
    rw [nextRequest, hrequests, hlink]
    rfl
  refine ⟨?_, by rw [file, hself, hclient]; rfl⟩
  exact
    { stuck_eq := by rw [hself, hclient]; exact hstuck
      connecting_eq := by rw [hself, hclient]; rfl
      dispatches := by
        rw [hself, hclient]
        exact ⟨List.mem_cons_self, by simp [P2PClient.establish], .inl rfl⟩
      state_eq := by rw [hself, hclient]; simp [P2PClient.establish]
      isShutdown_eq := by rw [hlink]
      ahead := by
        rw [hlink]
        refine hahead.mono (h.file_le_step _) fun _ hup => ?_
        rw [hstep]
        exact hup
      exchange := .inl ⟨_, h.decodes k, hask⟩ }

end

/-- **Progress.** In every run, when the connection of a registered client goes up to a program that
has reached a level, the client reaches it after twice as many exchanges as there are levels to go,
whatever happens in between, as long as the connection stays up. -/
theorem download_run (state : ι → ConnState) (es : List (Event ι)) (probes : Probes)
    (es' : List (Event ι)) (hfirst : ((after a state es).client k).isFirst = false)
    (hstuck : ((after a state es).client k).stuck = false)
    (hconnecting : ((after a state es).client k).client.connecting = true)
    (hahead : (after a state es).Ahead a level ((after a state es).client k).client.serverAddr)
    (hlasts : Runs.EveryStep (fun n e => n.step a e)
      (fun n e _ => n.Lasts a k ((after a state es).client k).nextConn e)
      (after a state (es ++ [.up k probes])) es')
    (hcount : 2 * (level - (after a state es).file k).toNat ≤ Runs.count (fun n e => n.step a e)
      (fun n e => n.exchanges a k ((after a state es).client k).nextConn e)
      (after a state (es ++ [.up k probes])) es') :
    level ≤ (after a state (es ++ [.up k probes] ++ es')).file k := by
  have hinv := inv_after (a := a) state es
  obtain ⟨hfetches, hfile⟩ := fetches_up hinv hfirst hstuck hconnecting hahead probes
  have hup : after a state (es ++ [.up k probes]) = (after a state es).step a (.up k probes) := by
    rw [after, Runs.run_append]
    rfl
  have hinv' := inv_after (a := a) state (es ++ [.up k probes])
  rw [after, Runs.run_append]
  show level ≤ (Runs.run _ (after a state (es ++ [.up k probes])) es').file k
  generalize ((after a state es).client k).nextConn = c at *
  rw [← hup] at hfetches hfile
  rw [← hfile] at hcount
  generalize after a state (es ++ [.up k probes]) = n at *
  have htoGo : n.toGo k c level ≤ 2 * (level - n.file k).toNat := Nat.sub_le _ _
  refine Runs.goal_of_rank (G := fun n => level ≤ n.file k) (r := fun n => n.toGo k c level)
    (I := fun n => n.Inv a ∧ (level ≤ n.file k ∨ n.Fetches a k c level))
    (M := fun n e => n.exchanges a k c e) ?_ ?_ ?_ ?_ ⟨hinv', .inr hfetches⟩ hlasts
    (htoGo.trans hcount)
  · rintro n e ⟨h, hlevel | hf⟩ hlasts
    · exact ⟨(h.step e).1, .inl (hlevel.trans (h.file_le_step e k))⟩
    · refine ⟨(h.step e).1, ?_⟩
      by_cases hlevel : level ≤ n.file k
      · exact .inl (hlevel.trans (h.file_le_step e k))
      · exact (hf.step h (not_le.1 hlevel) hlasts).imp_right And.left
  · exact fun n e h _ hlevel => hlevel.trans (h.1.file_le_step e k)
  · rintro n ⟨h, hlevel | hf⟩ hnot
    · exact absurd hlevel hnot
    · exact hf.toGo_pos h (not_le.1 hnot)
  · rintro n e ⟨h, hlevel | hf⟩ hlasts hnot
    · exact absurd hlevel hnot
    · exact (hf.step h (not_le.1 hnot) hlasts).imp_right And.right

/-- The addresses of a single client. -/
def oneClient : Addresses Unit where
  ip _ := lit "2221"
  injective _ _ _ := rfl
  length_eq _ := rfl
  ne_server _ := by decide

/-- The first exchange with the server after the registration. -/
theorem download_of_one :
    2 ≤ (after oneClient (fun _ => .kDisconnected) ([.up () ⟨fun _ _ => true, 1⟩,
      .serve () 0 (fun _ => true) true, .message () 0 ⟨fun _ _ => true, 1⟩] ++
        [.up () ⟨fun _ _ => true, 1⟩] ++ [.serve () 1 (fun _ => true) true,
          .message () 1 ⟨fun _ _ => true, 1⟩])).file () := by
  refine download_run oneClient () 2 (fun _ => .kDisconnected) _ _ _ (by decide +kernel)
    (by decide +kernel) (by decide +kernel) (.inl ⟨by decide +kernel, by decide +kernel,
      by decide⟩) ?_ (by decide +kernel)
  refine (Runs.everyStep_cons ..).2 ⟨fun _ => by decide +kernel, ?_⟩
  exact (Runs.everyStep_cons ..).2 ⟨trivial, Runs.everyStep_nil _ _ _⟩

end Network

end Huaweip2p
