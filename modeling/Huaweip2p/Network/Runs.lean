import Huaweip2p.Network.Messages

/-!
# Runs of the network

The invariant that joins the clients, the connections and the catalogue: what waits on a connection
and what the tables say is, at any time, about levels that the clients have reached. From it the
properties of every run.

* `Knows`, `Carries`, `Inv`: the invariant, for a client, for a connection and for the network;
* `Inv.step`: every step keeps it, and raises at most one level;
* `levels_run`, `requests_run`, `dials_run`: whole runs.
-/

namespace Huaweip2p

namespace P2PClient

variable {p p' : P2PClient}

theorem requests_of_sent (h : p'.sent = p.sent) (c : ConnId) : p'.requests c = p.requests c := by
  rw [requests, h, requests]

theorem length_requests_snoc {c : ConnId} {m : Str} (h : p'.sent = p.sent ++ [(c, m)])
    (c' : ConnId) :
    (p'.requests c').length = (p.requests c').length + if c = c' then 1 else 0 := by
  rw [requests, h, requests, List.filter_append, List.map_append, List.length_append]
  by_cases hc : c = c'
  · simp [hc]
  · simp [hc]

theorem exists_mem_sent {c : ConnId} {m : Str} (h : m ∈ p.requests c) : ∃ e ∈ p.sent, e.2 = m := by
  obtain ⟨e, he, hm⟩ := List.mem_map.1 h
  exact ⟨e, (List.mem_filter.1 he).1, hm⟩

/-- Nothing was sent on a connection to come. -/
theorem Tidy.requests_nextConn (h : p.Tidy) : p.requests p.nextConn = [] := by
  rw [requests, List.map_eq_nil_iff, List.filter_eq_nil_iff]
  intro e he
  have hlt := h.fresh e.1 (.inr (.inr (List.mem_map_of_mem he)))
  simpa using hlt.ne

end P2PClient

open P2PClient (Steered)

namespace Addresses

variable {ι : Type} (a : Addresses ι) (file : ι → ℤ)

/-- What client `k` has and what it sent. -/
structure Knows (k : ι) (p : P2PClient) : Prop where
  now : a.Was file k p.statics
  records : a.Records file k p.statics
  apart : p.Apart (a.ip k)
  sent : ∀ e ∈ p.sent, a.IsRequest file k e.2

/-- A connection of client `k` on which so many requests were sent: they are taken one by one, with
at most one reply for each, and at most one request has no reply that was received. -/
structure Carries (k : ι) (requests : ℕ) (l : Link) : Prop where
  peer_ne : l.peer ≠ a.ip k
  replies : ∀ m ∈ l.replies, a.IsReply file k l.peer m
  taken_le : l.taken ≤ requests
  replies_le : l.replies.length + l.received ≤ l.taken
  requests_le : requests ≤ l.received + 1

variable {a file} {k : ι} {p p' : P2PClient}

theorem Knows.mono {file' : ι → ℤ} (hle : file ≤ file') (h : a.Knows file k p) :
    a.Knows file' k p :=
  ⟨h.now.mono hle, h.records.mono hle, h.apart, fun e he => (h.sent e he).mono hle⟩

theorem Knows.of_steered (h : a.Knows file k p) (hs : Steered p p') : a.Knows file k p' where
  now := ⟨hs.IP.trans h.now.IP_eq, hs.updateFile ▸ h.now.one_le, hs.updateFile ▸ h.now.le_hundred,
    hs.updateFile ▸ h.now.le_file⟩
  records key level hget := h.records key level (hs.table key level hget)
  apart := hs.apart _ h.apart
  sent e he := h.sent e (hs.sent ▸ he)

/-- A client with another table. -/
theorem Knows.with_statics (h : a.Knows file k p) {s : P2PCServer} (hnow : a.Was file k s)
    (hrecords : a.Records file k s) : a.Knows file k { p with statics := s } where
  now := hnow
  records := hrecords
  apart := { h.apart with table := hrecords.own }
  sent := h.sent

/-- A client that sends what it may send. -/
theorem Knows.send (h : a.Knows file k p) {new : List (ConnId × Str)}
    (hnew : ∀ e ∈ new, a.IsRequest file k e.2) :
    a.Knows file k { p with sent := p.sent ++ new } where
  now := h.now
  records := h.records
  apart := { h.apart with }
  sent e he := (List.mem_append.1 he).elim (h.sent e) (hnew e)

/-- A client that reads a reply. -/
theorem Knows.read [DecidableEq ι] (h : a.Knows file k p) (hfile : p.statics.updateFile = file k)
    {peer m : Str} (hm : a.IsReply file k peer m) :
    ∃ s res, (P2PClient.processMessage p.statics m).val = some (s, res) ∧
      file k ≤ s.updateFile ∧
      a.Knows (Function.update file k s.updateFile) k { p with statics := s } ∧
      (s.updateFile = file k ∨ s.updateFile = file k + 1 ∧ m.head? = some (chr 'd')) := by
  obtain ⟨s, res, hval, hIP, hrecords, hlevel⟩ := hm.read h.records
  have hle : file k ≤ s.updateFile := by
    rcases hlevel with hlevel | ⟨hlevel, -⟩
    · exact (hlevel.trans hfile).ge
    · rw [hlevel, hfile]
      exact Int.le_add_one (le_refl _)
  have hmono : file ≤ Function.update file k s.updateFile := le_update_self_iff.2 hle
  have hnow : a.Was (Function.update file k s.updateFile) k s := by
    refine ⟨hIP.trans h.now.IP_eq, ?_, ?_, by rw [Function.update_self]⟩
    · exact (h.now.one_le.trans_eq hfile).trans hle
    · rcases hlevel with hlevel | ⟨-, hmax, -⟩
      · exact hlevel ▸ h.now.le_hundred
      · exact hmax
  refine ⟨s, res, hval, hle, (h.mono hmono).with_statics hnow (hrecords.mono hmono), ?_⟩
  rcases hlevel with hlevel | ⟨hlevel, -, hanswer⟩
  · exact .inl (hlevel.trans hfile)
  · exact .inr ⟨hlevel.trans (congrArg (· + 1) hfile), hanswer⟩

theorem Carries.mono {file' : ι → ℤ} (hle : file ≤ file') {requests : ℕ} {l : Link}
    (h : a.Carries file k requests l) : a.Carries file' k requests l :=
  { h with replies := fun m hm => (h.replies m hm).mono hle }

/-- A reply that is received: then no request is without one. -/
theorem Carries.receive {requests : ℕ} {l : Link} (h : a.Carries file k requests l) {m : Str}
    {replies : List Str} (hreplies : l.replies = m :: replies) :
    a.Carries file k requests l.receive ∧ requests ≤ l.receive.received := by
  have hle := h.replies_le
  rw [hreplies, List.length_cons] at hle
  refine ⟨{ h with
    replies := fun m' hm' => h.replies m' (List.mem_of_mem_tail hm')
    replies_le := ?_
    requests_le := h.requests_le.trans (Nat.le_succ _) }, h.requests_le⟩
  show l.replies.tail.length + (l.received + 1) ≤ l.taken
  rw [hreplies, List.tail_cons]
  omega

/-- One more request, when every one has its reply. -/
theorem Carries.send {requests : ℕ} {l : Link} (h : a.Carries file k requests l)
    (hanswered : requests ≤ l.received) : a.Carries file k (requests + 1) l :=
  { h with
    taken_le := h.taken_le.trans (Nat.le_succ _)
    requests_le := Nat.succ_le_succ hanswered }

/-- A request that is taken, with at most one reply. -/
theorem Carries.handled {requests : ℕ} {l : Link} (h : a.Carries file k requests l)
    (htaken : l.taken < requests) {effects : List Effect} (heffects : effects = [] ∨
      ∃ m, a.IsReply file k l.peer m ∧ (effects = [.send m] ∨ effects = [.send m, .shutdown])) :
    a.Carries file k requests (l.handled effects) := by
  have hreplies := h.replies_le
  have htake : a.Carries file k requests { l with taken := l.taken + 1 } :=
    { h with taken_le := htaken, replies_le := hreplies.trans (Nat.le_succ _) }
  have hsend : ∀ m, a.IsReply file k l.peer m →
      a.Carries file k requests (Link.effect { l with taken := l.taken + 1 } (.send m)) := by
    intro m hm
    rw [Link.effect]
    split_ifs
    · exact htake
    · refine { htake with replies := fun m' hm' => ?_, replies_le := ?_ }
      · rcases List.mem_append.1 hm' with hm' | hm'
        · exact h.replies m' hm'
        · rw [List.mem_singleton.1 hm']
          exact hm
      · simp only [List.length_append, List.length_singleton]
        omega
  rcases heffects with rfl | ⟨m, hm, rfl | rfl⟩
  · exact htake
  · exact hsend m hm
  · exact { hsend m hm with }

end Addresses

namespace Network

variable {ι : Type} (a : Addresses ι)

/-- The level of each client. -/
def file (n : Network ι) (k : ι) : ℤ := (n.client k).statics.updateFile

structure Inv (n : Network ι) : Prop where
  ready : ∀ k, (n.client k).Ready
  client : ∀ k, a.Knows n.file k (n.client k)
  link : ∀ k c, a.Carries n.file k ((n.client k).requests c).length (n.link k c)
  catalogue : n.catalogue.EveryRecord (a.Registered n.file)

variable {a}

theorem inv_init (state : ι → ConnState) : (init a state).Inv a where
  ready k := P2PClient.ready_start _ _ _
  client k :=
    { now := ⟨rfl, le_refl 1, show (1 : ℤ) ≤ 100 by decide, le_refl _⟩
      records := fun key level hget => by
        simp [init, P2PClient.start, P2PCServer.setIP, P2PCServer.start] at hget
      apart :=
        { own_ne := a.ne_server k
          table := by simp [init, P2PClient.start, P2PCServer.setIP, P2PCServer.start]
          IP_ne := fun heq => by
            have hlength := a.length_eq k
            rw [← heq] at hlength
            cases hlength
          serverAddr_ne := (a.ne_server k).symm }
      sent := by simp [init, P2PClient.start] }
  link k c :=
    { peer_ne := fun heq => by
        have hlength := a.length_eq k
        rw [← heq] at hlength
        cases hlength
      replies := by simp [init]
      taken_le := Nat.zero_le _
      replies_le := le_refl 0
      requests_le := Nat.zero_le _ }
  catalogue := UserCatalogue.everyRecord_init ⟨⟨rfl, by decide, by decide⟩, .inl rfl⟩

variable [DecidableEq ι] {n : Network ι} {k : ι}

/-! ### Changing a part of the network -/

theorem client_setClient_self (n : Network ι) (k : ι) (p : P2PClient) :
    (n.setClient k p).client k = p := Function.update_self ..

theorem client_setClient_of_ne (n : Network ι) {k k' : ι} (hk : k' ≠ k) (p : P2PClient) :
    (n.setClient k p).client k' = n.client k' := Function.update_of_ne hk ..

theorem link_setLink_self (n : Network ι) (k : ι) (c : ConnId) (l : Link) :
    (n.setLink k c l).link k c = l := by
  rw [Network.setLink]
  dsimp only
  rw [Function.update_self, Function.update_self]

theorem link_setLink_of_ne (n : Network ι) (k : ι) {c c' : ConnId} (hc : c' ≠ c) (l : Link) :
    (n.setLink k c l).link k c' = n.link k c' := by
  rw [Network.setLink]
  dsimp only
  rw [Function.update_self, Function.update_of_ne hc]

/-- The level of a client that changes. -/
theorem file_setClient (n : Network ι) (k : ι) (p : P2PClient) :
    (n.setClient k p).file = Function.update n.file k p.statics.updateFile := by
  funext k'
  by_cases hk : k' = k
  · subst hk
    rw [file, client_setClient_self, Function.update_self]
  · rw [file, client_setClient_of_ne n hk, Function.update_of_ne hk, file]

theorem file_setClient_of_eq {p : P2PClient} (h : p.statics.updateFile = n.file k) :
    (n.setClient k p).file = n.file := by
  rw [file_setClient, h, Function.update_eq_self]

theorem Inv.setLink (h : n.Inv a) {c : ConnId} {l : Link}
    (hl : a.Carries n.file k ((n.client k).requests c).length l) : (n.setLink k c l).Inv a :=
  { h with
    link := fun k' c' => by
      by_cases hk : k' = k
      · subst hk
        by_cases hc : c' = c
        · subst hc
          rwa [link_setLink_self]
        · rw [link_setLink_of_ne n k' hc]
          exact h.link k' c'
      · rw [Network.setLink]
        dsimp only
        rw [Function.update_of_ne hk]
        exact h.link k' c' }

/-- A client changes, and its level does not fall. -/
theorem Inv.setClient (h : n.Inv a) {p : P2PClient} (hle : n.file k ≤ p.statics.updateFile)
    (hready : p.Ready) (hknows : a.Knows (n.setClient k p).file k p)
    (hlink : ∀ c, a.Carries n.file k (p.requests c).length (n.link k c)) :
    (n.setClient k p).Inv a := by
  have hmono : n.file ≤ (n.setClient k p).file := by
    rw [file_setClient]
    intro k'
    by_cases hk : k' = k
    · subst hk
      rwa [Function.update_self]
    · rw [Function.update_of_ne hk]
  refine ⟨fun k' => ?_, fun k' => ?_, fun k' c => ?_, ?_⟩
  · by_cases hk : k' = k
    · subst hk
      rwa [client_setClient_self]
    · rw [client_setClient_of_ne n hk]
      exact h.ready k'
  · by_cases hk : k' = k
    · subst hk
      rwa [client_setClient_self]
    · rw [client_setClient_of_ne n hk]
      exact (h.client k').mono hmono
  · by_cases hk : k' = k
    · subst hk
      rw [client_setClient_self]
      exact (hlink c).mono hmono
    · rw [client_setClient_of_ne n hk]
      exact (h.link k' c).mono hmono
  · exact fun g u hu => (h.catalogue g u hu).mono hmono

/-! ### One lemma for each event -/

/-- A step of one client that sends nothing and learns nothing. -/
theorem Inv.steered (h : n.Inv a) {p : P2PClient} (hready : p.Ready)
    (hs : Steered (n.client k) p) :
    (n.setClient k p).Inv a ∧ (n.setClient k p).file = n.file := by
  have hfile : (n.setClient k p).file = n.file := file_setClient_of_eq hs.updateFile
  refine ⟨h.setClient hs.updateFile.ge hready ?_ fun c => ?_, hfile⟩
  · rw [hfile]
    exact (h.client k).of_steered hs
  · rw [P2PClient.requests_of_sent hs.sent]
    exact h.link k c

/-- A connection goes up, to the server or to another client, and carries one request. -/
theorem Inv.up (h : n.Inv a) (k : ι) (probes : Probes) :
    (n.step a (.up k probes)).Inv a ∧ (n.step a (.up k probes)).file = n.file := by
  rw [Network.step]
  split_ifs with hup
  swap
  · exact ⟨h, rfl⟩
  have hclient := h.client k
  have hnone := (h.ready k).toTidy.requests_nextConn
  obtain ⟨heq, hready⟩ := (h.ready k).up hup.1 hup.2 probes
  have hsent : ((n.client k).step (.up probes)).sent =
      (n.client k).sent ++ [((n.client k).nextConn, (n.client k).firstRequest)] := by rw [heq]
  have hstatics : ((n.client k).step (.up probes)).statics = (n.client k).statics := by
    rw [heq]
    rfl
  have hlink := h.setLink (k := k) (c := (n.client k).nextConn)
    (l := ⟨(n.client k).client.serverAddr, 0, false, [], 0⟩)
    ⟨hclient.apart.serverAddr_ne, by simp, Nat.zero_le _, le_refl 0, by simp [hnone]⟩
  set n₁ := n.setLink k (n.client k).nextConn ⟨(n.client k).client.serverAddr, 0, false, [], 0⟩
  have hfile : (n₁.setClient k ((n.client k).step (.up probes))).file = n₁.file := by
    refine file_setClient_of_eq ?_
    rw [hstatics]
    rfl
  refine ⟨hlink.setClient ?_ hready ?_ fun c => ?_, hfile⟩
  · rw [hstatics]
    exact le_refl _
  · rw [hfile]
    refine ⟨hstatics ▸ hclient.now, hstatics ▸ hclient.records, ?_, fun e he => ?_⟩
    · rw [heq]
      exact { hclient.apart with }
    · rw [hsent, List.mem_append, List.mem_singleton] at he
      rcases he with he | rfl
      · exact hclient.sent e he
      · refine ⟨_, hclient.now, ?_⟩
        rw [P2PClient.firstRequest]
        split_ifs
        · exact .inl rfl
        · exact .inr rfl
  · have hold := hlink.link k c
    rw [P2PClient.length_requests_snoc hsent]
    split_ifs with hc
    · subst hc
      have hzero : ((n.client k).requests (n.client k).nextConn).length = 0 :=
        congrArg List.length hnone
      exact hold.send (hzero.le.trans (Nat.zero_le _))
    · exact hold

omit [DecidableEq ι] in
theorem reading_eq_some_iff {c : ConnId} {m : Str} : n.reading k c = some m ↔
    ((n.client k).stuck = false ∧ (n.client k).Dispatches c) ∧
      ∃ replies, (n.link k c).replies = m :: replies := by
  rw [reading]
  split_ifs with hreads
  · rw [List.head?_eq_some_iff]
    simp [hreads]
  · simp [hreads]

/-- A client that reads a reply: it learns what it may learn, sends at most one request, on the
connection of the reply, and its level rises by one at most, on an answer. -/
theorem Inv.message (h : n.Inv a) {c : ConnId} {m : Str} (hm : n.reading k c = some m)
    (probes : Probes) :
    (n.step a (.message k c probes)).Inv a ∧
      ((n.step a (.message k c probes)).file = n.file ∨
        (n.step a (.message k c probes)).file = Function.update n.file k (n.file k + 1) ∧
          m.head? = some (chr 'd')) ∧
      (((n.step a (.message k c probes)).client k).sent = (n.client k).sent ∨
        ∃ m', m'.head? = some (chr 'c') ∧ ((n.step a (.message k c probes)).client k).sent =
          (n.client k).sent ++ [(c, m')]) := by
  have hlink := h.link k c
  obtain ⟨⟨hstuck, hd⟩, replies, hreplies⟩ := reading_eq_some_iff.1 hm
  obtain ⟨hreceive, hanswered⟩ := hlink.receive hreplies
  obtain ⟨s, res, hval, hle, hlearned, hfile⟩ :=
    (h.client k).read rfl (hlink.replies m (by simp [hreplies]))
  obtain ⟨hready, new, hnew, hs⟩ := (h.ready k).message hstuck hd probes hval
  set p := (n.client k).step (.messages c [(m, probes)] false)
  have hstep : n.step a (.message k c probes) =
      (n.setLink k c (n.link k c).receive).setClient k p := by
    rw [Network.step, hm]
  have hfile' : ((n.setLink k c (n.link k c).receive).setClient k p).file =
      Function.update n.file k s.updateFile := by
    rw [file_setClient, hs.updateFile]
    rfl
  have hknows : a.Knows (Function.update n.file k s.updateFile) k p := by
    refine (hlearned.send fun e he => ?_).of_steered hs
    rcases hnew with rfl | rfl
    · cases he
    · rw [List.mem_singleton.1 he]
      exact ⟨s, hlearned.now, .inr rfl⟩
  rw [hstep]
  refine ⟨?_, ?_, ?_⟩
  · refine (h.setLink hreceive).setClient (hle.trans_eq hs.updateFile.symm) hready
      (hfile' ▸ hknows) fun c' => ?_
    have hold := (h.setLink hreceive).link k c'
    rcases hnew with rfl | rfl
    · rwa [P2PClient.requests_of_sent (hs.sent.trans (List.append_nil _))]
    · rw [P2PClient.length_requests_snoc hs.sent]
      split_ifs with hc
      · subst hc
        refine hold.send ?_
        rwa [link_setLink_self]
      · exact hold
  · rw [hfile']
    rcases hfile with hfile | ⟨hfile, hanswer⟩
    · rw [hfile]
      exact .inl (Function.update_eq_self k n.file)
    · rw [hfile]
      exact .inr ⟨rfl, hanswer⟩
  · rw [client_setClient_self, hs.sent]
    rcases hnew with rfl | rfl
    · exact .inl (List.append_nil _)
    · exact .inr ⟨_, rfl, rfl⟩

omit [DecidableEq ι] in
/-- A request that waits is one that its client sent, and was not taken. -/
theorem Inv.nextRequest (h : n.Inv a) {c : ConnId} {m : Str} (hm : n.nextRequest k c = some m) :
    a.IsRequest n.file k m ∧ (n.link k c).taken < ((n.client k).requests c).length := by
  rw [Network.nextRequest] at hm
  obtain ⟨e, he, rfl⟩ := P2PClient.exists_mem_sent (List.mem_of_getElem? hm)
  exact ⟨(h.client k).sent e he, (List.getElem?_eq_some_iff.1 hm).1⟩

/-- The server handles a request. -/
theorem Inv.serve (h : n.Inv a) (k : ι) (c : ConnId) (isClientWorking : Str → Bool)
    (survives : Bool) :
    (n.step a (.serve k c isClientWorking survives)).Inv a ∧
      (n.step a (.serve k c isClientWorking survives)).file = n.file := by
  rw [Network.step]
  cases hm : n.nextRequest k c with
  | none => exact ⟨h, rfl⟩
  | some m =>
    dsimp only
    split_ifs with hserves
    swap
    · exact ⟨h, rfl⟩
    obtain ⟨hrequest, htaken⟩ := h.nextRequest hm
    cases hanswer : P2PServer.respond n.catalogue isClientWorking survives m with
    | none => exact ⟨{ h with }, rfl⟩
    | some r =>
      obtain ⟨catalogue, effects⟩ := r
      obtain ⟨hcatalogue, heffects⟩ :=
        hrequest.respond h.catalogue isClientWorking survives hanswer
      have hn : Inv a { n with catalogue := catalogue } := { h with catalogue := hcatalogue }
      refine ⟨hn.setLink ((h.link k c).handled htaken ?_), rfl⟩
      rwa [hserves.1]

/-- Another client handles a request. -/
theorem Inv.request (h : n.Inv a) (j k : ι) (c : ConnId) :
    (n.step a (.request j k c)).Inv a ∧ (n.step a (.request j k c)).file = n.file := by
  rw [Network.step]
  cases hm : n.nextRequest k c with
  | none => exact ⟨h, rfl⟩
  | some m =>
    dsimp only
    split_ifs with hpeer
    swap
    · exact ⟨h, rfl⟩
    obtain ⟨hrequest, htaken⟩ := h.nextRequest hm
    obtain ⟨r, hr, hip, hlevel, -⟩ := hrequest.read
    obtain ⟨hval, heq, hready⟩ := (h.ready j).request hr
    have hj := h.client j
    have hne : k ≠ j := by
      rintro rfl
      exact (h.link k c).peer_ne hpeer
    have hfile : (n.setClient j ((n.client j).onRequest m)).file = n.file := by
      refine file_setClient_of_eq ?_
      rw [heq]
      rfl
    have hrecords : a.Records n.file j ((n.client j).statics.insertNeiIP r.ip r.reqfile) := by
      refine hj.records.insertNeiIP ?_
      rw [hip]
      exact Addresses.record_stored hne hlevel
    have hn : (n.setClient j ((n.client j).onRequest m)).Inv a := by
      refine h.setClient ?_ hready ?_ fun c' => ?_
      · rw [heq]
        exact le_refl _
      · rw [hfile, heq]
        exact hj.with_statics { hj.now with } hrecords
      · rw [heq]
        exact h.link j c'
    have hlink := hn.link k c
    rw [client_setClient_of_ne n hne, hfile] at hlink
    refine ⟨hn.setLink ?_, hfile⟩
    rw [client_setClient_of_ne n hne, hfile, hval]
    refine hlink.handled htaken (.inr ⟨_, ?_, .inl rfl⟩)
    exact .answer _ (.inr ⟨j, hne.symm, hpeer, hj.now⟩)

/-! ### Whole runs -/

/-- A step in which no client reads a reply. -/
theorem Inv.of_no_message (h : n.Inv a) {e : Event ι} (he : ∀ k c probes, e ≠ .message k c probes) :
    (n.step a e).Inv a ∧ (n.step a e).file = n.file := by
  cases e with
  | up k probes => exact h.up k probes
  | message k c probes => exact absurd rfl (he k c probes)
  | invalid k c =>
    obtain ⟨hready, hs⟩ := (h.ready k).invalid c
    exact h.steered hready hs
  | down k c probes =>
    obtain ⟨hready, hs⟩ := (h.ready k).down c probes
    exact h.steered hready hs
  | runFunctor k probes =>
    obtain ⟨hready, hs⟩ := (h.ready k).runFunctor probes
    exact h.steered hready hs
  | serve k c isClientWorking survives => exact h.serve k c isClientWorking survives
  | request j k c => exact h.request j k c

/-- The step lemma: every event keeps the invariant, and raises the level of at most one client, by
one, which reads an answer. -/
theorem Inv.step (h : n.Inv a) (e : Event ι) :
    (n.step a e).Inv a ∧ ∀ k, (n.step a e).file k = n.file k ∨
      (n.step a e).file k = n.file k + 1 ∧ ∃ c probes m, e = .message k c probes ∧
        n.reading k c = some m ∧ m.head? = some (chr 'd') := by
  by_cases hmessage : ∃ k c probes, e = .message k c probes
  swap
  · obtain ⟨hn, hfile⟩ := h.of_no_message fun k c probes he => hmessage ⟨k, c, probes, he⟩
    exact ⟨hn, fun k => .inl (congrFun hfile k)⟩
  obtain ⟨k', c, probes, rfl⟩ := hmessage
  cases hm : n.reading k' c with
  | none =>
    rw [Network.step, hm]
    exact ⟨h, fun k => .inl rfl⟩
  | some m =>
    obtain ⟨hn, hfile, -⟩ := h.message hm probes
    refine ⟨hn, fun k => ?_⟩
    rcases hfile with hfile | ⟨hfile, hanswer⟩
    · exact .inl (congrFun hfile k)
    · rw [hfile]
      by_cases hk : k = k'
      · subst hk
        rw [Function.update_self]
        exact .inr ⟨rfl, c, probes, m, rfl, hm, hanswer⟩
      · rw [Function.update_of_ne hk]
        exact .inl rfl

/-- The network after a run. -/
abbrev after (a : Addresses ι) (state : ι → ConnState) (es : List (Event ι)) : Network ι :=
  Runs.run (fun n e => n.step a e) (init a state) es

theorem inv_after (state : ι → ConnState) (es : List (Event ι)) : (after a state es).Inv a :=
  Runs.run_invariant (fun _ e _ h => (h.step e).1) (inv_init state)

/-- **Levels.** In every run, the level of a client never falls, rises by at most one in a step, in
which the client reads an answer, and stays at most 100; an answer on its way carries at most the
level of its sender, 100 for the server; and what a client has recorded for another is 101 or at
most that one's level. -/
theorem levels_run (a : Addresses ι) (state : ι → ConnState) (es : List (Event ι)) :
    (∀ k, (after a state es).file k ≤ 100) ∧
      (∀ e k, ((after a state es).step a e).file k = (after a state es).file k ∨
        ((after a state es).step a e).file k = (after a state es).file k + 1 ∧
          ∃ c probes m, e = .message k c probes ∧ (after a state es).reading k c = some m ∧
            m.head? = some (chr 'd')) ∧
      (∀ k c, ∀ m ∈ ((after a state es).link k c).replies, m.head? = some (chr 'd') →
        (((after a state es).link k c).peer = lit "1111" ∧ charToInt (m.getD 6 0) ≤ 100) ∨
          ∃ j, ((after a state es).link k c).peer = a.ip j ∧
            charToInt (m.getD 6 0) ≤ (after a state es).file j) ∧
      ∀ k j (level : ℤ), ((after a state es).client k).statics.neiIP[a.ip j]? = some level →
        level = 101 ∨ level ≤ (after a state es).file j := by
  have h := inv_after (a := a) state es
  refine ⟨fun k => (h.client k).now.le_hundred, fun e k => (h.step e).2 k,
    fun k c m hm => ((h.link k c).replies m hm).level, fun k j level hget => ?_⟩
  rcases (h.client k).records _ _ hget with hserver | ⟨j', -, hip, hlevel⟩
  · exact absurd hserver (a.ne_server j)
  · obtain rfl := a.injective hip
    exact hlevel

/-- A client that registers with the server, and then gets one answer. -/
example : (after ⟨fun _ : Unit => lit "2221", fun _ _ _ => rfl, fun _ => rfl, fun _ => by decide⟩
    (fun _ => .kDisconnected) [.up () ⟨fun _ _ => true, 1⟩, .serve () 0 (fun _ => true) true,
      .message () 0 ⟨fun _ _ => true, 1⟩, .up () ⟨fun _ _ => true, 1⟩,
      .serve () 1 (fun _ => true) true, .message () 1 ⟨fun _ _ => true, 1⟩]).file () = 2 := by
  decide +kernel

/-- A client never has two replies on their way on one connection, so that its codec takes them out
one by one. -/
theorem length_replies_le (a : Addresses ι) (state : ι → ConnState) (es : List (Event ι)) (k : ι)
    (c : ConnId) : ((after a state es).link k c).replies.length ≤ 1 := by
  have hlink := (inv_after (a := a) state es).link k c
  have htaken := hlink.taken_le
  have hreplies := hlink.replies_le
  have hrequests := hlink.requests_le
  omega

/-- **Requests.** In every run, the requests that a client sent on a connection are as many as the
replies it received there, or one more; and what it sends when it reads a reply goes out on the
connection of that reply. -/
theorem requests_run (a : Addresses ι) (state : ι → ConnState) (es : List (Event ι)) :
    (∀ k c, (((after a state es).client k).requests c).length =
          ((after a state es).link k c).received ∨
        (((after a state es).client k).requests c).length =
          ((after a state es).link k c).received + 1) ∧
      ∀ k c probes m, (after a state es).reading k c = some m →
        (((after a state es).step a (.message k c probes)).client k).sent =
            ((after a state es).client k).sent ∨
          ∃ m', m'.head? = some (chr 'c') ∧
            (((after a state es).step a (.message k c probes)).client k).sent =
              ((after a state es).client k).sent ++ [(c, m')] := by
  have h := inv_after (a := a) state es
  refine ⟨fun k c => ?_, fun k c probes m hm => (h.message hm probes).2.2⟩
  have hlink := h.link k c
  have htaken := hlink.taken_le
  have hreplies := hlink.replies_le
  have hrequests := hlink.requests_le
  omega

end Network

end Huaweip2p
