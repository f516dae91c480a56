import Huaweip2p.Client.Proceeds
import Huaweip2p.Network.Runs
import Huaweip2p.Network.Served

/-!
# Registrations in the network

A client registers with the first request that it ever sends, and never again. So the server is not
asked to register an IP that it has, which its set, whose `operator<` is no order, would not find
again; the group of a client has a record for each of its IPs at most; and the list of neighbours
that the server sends fits a frame.

* `Different`: no IP of the catalogue has two records;
* `Link.handled_eq`: what a handler does to the replies of a connection;
* `Once`: the registrations of the clients and the records they made;
* `registrations_run`: whole runs.
-/

namespace Huaweip2p

open UserCatalogue LengthHeaderCodec
open P2PServer (IsType)

/-! ### Different records -/

namespace UserCatalogue

/-- The records of each group are of its IPs, which are different. -/
def Different (c : Catalogue) : Prop :=
  ∀ g, (∀ u ∈ c.records g, processIP u.userIP = g) ∧
    ((c.records g).map UserInfo.userIP).Nodup

theorem different_init (ip : Str) (file : ℤ) : (init ip file : Catalogue).Different := by
  intro g
  rw [records_init]
  split_ifs with hg
  · subst hg
    simp
  · simp

variable {c : Catalogue}

/-- A call for an IP that is not recorded. -/
theorem Different.insertUser (hc : c.Different) (w : Str → Bool) {ip : Str} (file : ℤ)
    (hip : ∀ u ∈ c.records (processIP ip), u.userIP ≠ ip) :
    (c.insertUser w ip file).1.Different := by
  intro g
  by_cases hg : processIP ip = g
  swap
  · rw [(insertUser_of_ne c w ip file hg).1]
    exact hc g
  subst hg
  rcases c.insertUser_cases w ip file with ⟨uset, q, heq, huset⟩ | ⟨old, q, hold, heq⟩
  swap
  · rw [heq]
    exact hc _
  -- what is left of the set before the insertion
  have hsub : List.Sublist uset.toList (c.records (processIP ip)) := by
    rcases huset with rfl | ⟨old, hold, huset⟩
    · exact List.nil_sublist _
    · rw [records_of_some hold]
      rcases huset with rfl | ⟨firstIP, rfl⟩
      · exact RbTree.eraseKey_sublist UserInfo.lt _ old
      · exact (RbTree.eraseKey_sublist UserInfo.lt _ _).trans
          (RbTree.eraseKey_sublist UserInfo.lt _ old)
  have hnot : ip ∉ ips uset := by
    intro hmem
    obtain ⟨u, hu, hip'⟩ := List.mem_map.1 hmem
    exact hip u (hsub.subset hu) hip'
  have hlist : (c.insertUser w ip file).1.records (processIP ip) = ⟨ip, file⟩ :: uset.toList := by
    rw [heq, records_store_self]
    exact toList_insert_of_not_mem hnot
  obtain ⟨hgroup, hnodup⟩ := hc (processIP ip)
  rw [hlist, List.map_cons]
  refine ⟨fun u hu => ?_, List.nodup_cons.2 ⟨hnot, (hsub.map _).nodup hnodup⟩⟩
  rcases List.mem_cons.1 hu with rfl | hu
  · rfl
  · exact hgroup u (hsub.subset hu)

/-- The IPs of a group differ in their last character only. -/
theorem Different.length_records_le (hc : c.Different) (hfit : c.RecordsFit) (g : Str) :
    (c.records g).length ≤ 256 := by
  obtain ⟨hgroup, hnodup⟩ := hc g
  have hip : ∀ ip ∈ (c.records g).map UserInfo.userIP, ip = g ++ [ip.getD 3 0] := by
    intro ip hmem
    obtain ⟨u, hu, rfl⟩ := List.mem_map.1 hmem
    rw [← hgroup u hu, processIP]
    obtain ⟨x, y, z, t, heq⟩ := List.length_eq_four.1 (hfit g u hu).1
    rw [heq]
    rfl
  have hlast : (((c.records g).map UserInfo.userIP).map fun ip => (ip.getD 3 0).toFin).Nodup := by
    refine List.Nodup.map_on (fun ip hmem ip' hmem' heq => ?_) hnodup
    rw [hip ip hmem, hip ip' hmem', UInt8.toFin_inj.1 heq]
  have hle := hlast.length_le_card
  rwa [List.length_map, List.length_map, Fintype.card_fin] at hle

end UserCatalogue

/-! ### The replies of a handler -/

/-- What the effects of a handler make of a connection. -/
theorem Link.handled_eq (l : Link) (effects : List Effect) :
    l.handled effects = { l with
      taken := l.taken + 1
      isShutdown := l.isShutdown || decide (.shutdown ∈ effects)
      replies := if l.isShutdown then l.replies else l.replies ++ Effect.sends effects } := by
  have hfold : ∀ l : Link, effects.foldl Link.effect l = { l with
      isShutdown := l.isShutdown || decide (.shutdown ∈ effects)
      replies := if l.isShutdown then l.replies else l.replies ++ Effect.sends effects } := by
    induction effects with
    | nil =>
      intro l
      simp [Effect.sends]
    | cons e effects ih =>
      intro l
      rw [List.foldl_cons, ih]
      cases e with
      | send m =>
        rw [Link.effect, Effect.sends]
        cases hl : l.isShutdown with
        | true => simp [hl]
        | false => simp
      | shutdown =>
        rw [Link.effect, Effect.sends]
        cases hl : l.isShutdown with
        | true => simp
        | false => simp
  exact hfold _

theorem Link.mem_replies_handled {l : Link} {effects : List Effect} {m : Str}
    (h : m ∈ (l.handled effects).replies) : m ∈ l.replies ∨ m ∈ Effect.sends effects := by
  rw [Link.handled_eq] at h
  dsimp only at h
  split_ifs at h
  · exact .inl h
  · exact List.mem_append.1 h

/-- The answers of the programs and the lists of neighbours are short. -/
theorem P2PServer.length_processMessage_le {c : Catalogue} (hc : c.Different)
    (hfit : c.RecordsFit) {ip reply : Str} (h : (P2PServer.processMessage c ip).val = some reply) :
    (lit "b0" ++ reply).length ≤ 3 + 5 * 256 := by
  have hg : P2PServer.HasGroup c ip := by
    simp only [P2PServer.processMessage, hasNeighbor, UserCatalogue.lookup, Traced.val_bind,
      Traced.val_emit, Option.bind_eq_some_iff] at h
    obtain ⟨-, ⟨t, ht, -⟩, -⟩ := h
    rw [P2PServer.HasGroup, ht]
    rfl
  rw [P2PServer.val_processMessage hg, Option.some.injEq] at h
  subst h
  split_ifs
  · show (lit "b0" ++ P2PServer.processMyself []).length ≤ _
    decide
  · have hneighbours : ∀ u ∈ P2PServer.neighbours c ip, u.Fits := fun u hu =>
      hfit _ u (List.mem_filter.1 hu).1
    have hlength : (P2PServer.neighbours c ip).length ≤ (c.records (processIP ip)).length :=
      List.length_filter_le _ _
    have hrecords := hc.length_records_le hfit (processIP ip)
    show (P2PServer.reply (P2PServer.neighbours c ip)).length ≤ _
    rw [P2PServer.length_reply hneighbours]
    omega

/-! ### The registrations of a client -/

namespace P2PClient

variable {p p' : P2PClient}

theorem requests_append {new : List (ConnId × Str)} (h : p'.sent = p.sent ++ new) (c : ConnId) :
    p'.requests c = p.requests c ++ (new.filter fun e => e.1 = c).map Prod.snd := by
  rw [requests, h, requests, List.filter_append, List.map_append]

/-- Only the first request of the first connection may be a registration. -/
def RegistersFirst (p : P2PClient) : Prop :=
  ∀ (c : ConnId) (i : ℕ) (m : Str), (p.requests c)[i]? = some m → IsType (chr 'a') m →
    c = 0 ∧ i = 0

/-- Requests that are no registrations. -/
theorem RegistersFirst.append (h : p.RegistersFirst) {new : List (ConnId × Str)}
    (hsent : p'.sent = p.sent ++ new) (hnew : ∀ e ∈ new, ¬ IsType (chr 'a') e.2) :
    p'.RegistersFirst := by
  intro c i m hm ha
  rw [requests_append hsent, List.getElem?_append] at hm
  split_ifs at hm with hi
  · exact h c i m hm ha
  · obtain ⟨e, he, rfl⟩ := List.mem_map.1 (List.mem_of_getElem? hm)
    exact absurd ha (hnew e (List.mem_filter.1 he).1)

theorem RegistersFirst.of_sent (h : p.RegistersFirst) (hsent : p'.sent = p.sent) :
    p'.RegistersFirst := by
  intro c i m hm
  rw [requests_of_sent hsent] at hm
  exact h c i m hm

theorem not_isType_fileRequest (s : P2PCServer) (file : ℤ) :
    ¬ IsType (chr 'a') (fileRequest s file) := fun ha =>
  absurd (Option.some.inj ha) (by decide)

/-- The first request of a new connection is a registration at the first connection only. -/
theorem RegistersFirst.up (h : p.RegistersFirst) (hnone : p.requests p.nextConn = [])
    (hfirst : p.isFirst = true → p.nextConn = 0)
    (hsent : p'.sent = p.sent ++ [(p.nextConn, p.firstRequest)]) : p'.RegistersFirst := by
  by_cases hregisters : p.isFirst = true
  swap
  · refine h.append hsent fun e he => ?_
    rw [List.mem_singleton.1 he, firstRequest, if_neg hregisters]
    exact not_isType_fileRequest _ _
  intro c i m hm ha
  rw [requests_append hsent] at hm
  by_cases hc : c = p.nextConn
  · subst hc
    rw [hnone, List.nil_append] at hm
    have hi := (List.getElem?_eq_some_iff.1 hm).1
    simp only [List.length_map] at hi
    have hle := List.length_filter_le (fun e : ConnId × Str => e.1 = p.nextConn)
      [(p.nextConn, p.firstRequest)]
    rw [List.length_singleton] at hle
    exact ⟨hfirst hregisters, by omega⟩
  · have hnot : [(p.nextConn, p.firstRequest)].filter (fun e => e.1 = c) = [] := by
      simpa using Ne.symm hc
    rw [hnot, List.map_nil, List.append_nil] at hm
    exact h c i m hm ha

end P2PClient

/-! ### The invariant -/

namespace Network

variable {ι : Type} (a : Addresses ι)

/-- No client registers twice, and a client is recorded only when its registration was taken. -/
structure Once (n : Network ι) : Prop where
  first : ∀ k, (n.client k).isFirst = true → (n.client k).nextConn = 0
  registers : ∀ k, (n.client k).RegistersFirst
  different : n.catalogue.Different
  recorded : ∀ k, n.catalogue.EveryRecord fun u =>
    u.userIP = a.ip k → 0 < (n.link k 0).taken
  short : ∀ k c, ∀ m ∈ (n.link k c).replies, m.length ≤ 3 + 5 * 256

variable {a}

theorem once_init (state : ι → ConnState) : (init a state).Once a where
  first _ _ := rfl
  registers k c i m hm := by simp [init, P2PClient.start, P2PClient.requests] at hm
  different := UserCatalogue.different_init _ _
  recorded k := everyRecord_init fun heq => absurd heq.symm (a.ne_server k)
  short := by simp [init]

variable [DecidableEq ι] {n : Network ι} {k : ι}

theorem Once.setClient (h : n.Once a) {p : P2PClient}
    (hfirst : p.isFirst = true → p.nextConn = 0) (hregisters : p.RegistersFirst) :
    (n.setClient k p).Once a :=
  { h with
    first := fun k' => by
      by_cases hk : k' = k
      · subst hk
        rwa [client_setClient_self]
      · rw [client_setClient_of_ne n hk]
        exact h.first k'
    registers := fun k' => by
      by_cases hk : k' = k
      · subst hk
        rwa [client_setClient_self]
      · rw [client_setClient_of_ne n hk]
        exact h.registers k' }

theorem link_setLink (n : Network ι) (k : ι) (c : ConnId) (l : Link) (k' : ι) (c' : ConnId) :
    (n.setLink k c l).link k' c' = if k' = k ∧ c' = c then l else n.link k' c' := by
  rw [Network.setLink]
  dsimp only
  by_cases hk : k' = k
  · subst hk
    by_cases hc : c' = c
    · subst hc
      simp
    · simp [hc]
  · simp [hk]

theorem Once.setLink (h : n.Once a) {c : ConnId} {l : Link}
    (htaken : c = 0 → 0 < (n.link k 0).taken → 0 < l.taken)
    (hshort : ∀ m ∈ l.replies, m.length ≤ 3 + 5 * 256) : (n.setLink k c l).Once a := by
  refine { h with recorded := fun k' g u hu hip => ?_, short := fun k' c' => ?_ }
  · have hbefore := h.recorded k' g u hu hip
    rw [link_setLink]
    split_ifs with hkc
    · obtain ⟨rfl, rfl⟩ := hkc
      exact htaken rfl hbefore
    · exact hbefore
  · rw [link_setLink]
    split_ifs
    · exact hshort
    · exact h.short k' c'

/-- A step of one client that sends nothing. -/
theorem Once.steered (h : n.Once a) {p : P2PClient} (hproceeds : P2PClient.Proceeds (n.client k) p)
    (hs : P2PClient.Steered (n.client k) p) : (n.setClient k p).Once a :=
  h.setClient (fun hfirst => hproceeds.nextConn.trans (h.first k (hproceeds.isFirst hfirst)))
    ((h.registers k).of_sent hs.sent)

theorem Once.up (h : n.Inv a) (ho : n.Once a) (k : ι) (probes : Probes) :
    (n.step a (.up k probes)).Once a := by
  rw [Network.step]
  split_ifs with hup
  swap
  · exact ho
  have hnone := (h.ready k).toTidy.requests_nextConn
  obtain ⟨heq, -⟩ := (h.ready k).up hup.1 hup.2 probes
  have htaken : (n.client k).nextConn = 0 → ¬ 0 < (n.link k 0).taken := by
    intro hzero
    have hle := (h.link k (n.client k).nextConn).taken_le
    rw [hnone, hzero] at hle
    exact Nat.not_lt.2 hle
  refine (ho.setLink (fun hzero hpos => absurd hpos (htaken hzero)) (by simp)).setClient ?_ ?_
  · rw [heq]
    exact fun hfirst => by cases hfirst
  · exact (ho.registers k).up hnone (ho.first k) (by rw [heq])

theorem Once.message (h : n.Inv a) (ho : n.Once a) (k : ι) (c : ConnId) (probes : Probes) :
    (n.step a (.message k c probes)).Once a := by
  cases hm : n.reading k c with
  | none =>
    rw [Network.step, hm]
    exact ho
  | some m =>
    obtain ⟨-, -, hsent⟩ := h.message hm probes
    have hproceeds := (n.client k).proceeds_step (e := .messages c [(m, probes)] false)
      fun _ he => by cases he
    have hstep : n.step a (.message k c probes) = (n.setLink k c (n.link k c).receive).setClient k
        ((n.client k).step (.messages c [(m, probes)] false)) := by
      rw [Network.step, hm]
    rw [hstep, client_setClient_self] at hsent
    rw [hstep]
    refine (ho.setLink (fun hc hpos => ?_) fun m' hm' => ?_).setClient
      (fun hfirst => hproceeds.nextConn.trans (ho.first k (hproceeds.isFirst hfirst))) ?_
    · subst hc
      exact hpos
    · exact ho.short k c m' (List.mem_of_mem_tail hm')
    · rcases hsent with hsent | ⟨m', hm', hsent⟩
      · exact (ho.registers k).of_sent hsent
      · refine (ho.registers k).append hsent fun e he => ?_
        rw [List.mem_singleton.1 he, IsType, hm']
        decide

/-- The server takes a request: a registration that it takes is the only one of its client. -/
theorem Once.serve (h : n.Inv a) (ho : n.Once a) (k : ι) (c : ConnId) (w : Str → Bool)
    (survives : Bool) : (n.step a (.serve k c w survives)).Once a := by
  rw [Network.step]
  cases hm : n.nextRequest k c with
  | none => exact ho
  | some m =>
    dsimp only
    split_ifs with hserves
    swap
    · exact ho
    cases hanswer : P2PServer.respond n.catalogue w survives m with
    | none => exact { ho with }
    | some r =>
      obtain ⟨catalogue, effects⟩ := r
      obtain ⟨hrequest, -⟩ := h.nextRequest hm
      obtain ⟨hcatalogue, -⟩ := hrequest.respond h.catalogue w survives hanswer
      obtain ⟨r, hr, hip, -⟩ := hrequest.read
      have hfield : ipField m = a.ip k := by rw [← (P2PServer.fields_of_readRequest hr).2.1, hip]
      have hpos : 0 < ((n.link k c).handled effects).taken := by
        rw [Link.handled_eq]
        exact Nat.succ_pos _
      have hlink : (∀ m' ∈ Effect.sends effects, m'.length ≤ 3 + 5 * 256) →
          (n.setLink k c ((n.link k c).handled effects)).Once a := fun hshort =>
        ho.setLink (fun _ _ => hpos) fun m' hm' =>
          (Link.mem_replies_handled hm').elim (ho.short k c m') (hshort m')
      dsimp only
      rcases P2PServer.respond_cases hanswer with ⟨ha, rfl, reply, hreply, rfl⟩ | ⟨-, rfl, rfl⟩
      swap
      · refine hlink fun m' hm' => ?_
        split_ifs at hm'
        · rw [List.mem_singleton.1 hm']
          decide
        · cases hm'
      obtain ⟨rfl, htaken⟩ := ho.registers k c _ m hm ha
      have hnew : ∀ u ∈ n.catalogue.records (processIP (ipField m)), u.userIP ≠ ipField m := by
        intro u hu heq
        have hbefore := ho.recorded k _ u hu (heq.trans hfield)
        exact hbefore.ne' htaken
      have hdifferent := ho.different.insertUser w (charToInt (m.getD 6 0)) hnew
      have hn := hlink fun m' hm' => by
        rw [List.mem_singleton.1 hm']
        exact P2PServer.length_processMessage_le hdifferent (fun g u hu => (hcatalogue g u hu).1)
          hreply
      refine { hn with
        different := hdifferent
        recorded := fun k' => EveryRecord.insertUser (hn.recorded k') w fun hip' => ?_ }
      obtain rfl := a.injective (hfield.symm.trans hip')
      rw [link_setLink_self]
      exact hpos

/-- Another client takes a request. -/
theorem Once.request (h : n.Inv a) (ho : n.Once a) (j k : ι) (c : ConnId) :
    (n.step a (.request j k c)).Once a := by
  rw [Network.step]
  cases hm : n.nextRequest k c with
  | none => exact ho
  | some m =>
    dsimp only
    split_ifs
    swap
    · exact ho
    obtain ⟨hrequest, -⟩ := h.nextRequest hm
    obtain ⟨r, hr, -⟩ := hrequest.read
    obtain ⟨hval, heq, -⟩ := (h.ready j).request hr
    rw [hval, heq]
    have hj : (n.setClient j { n.client j with
        statics := (n.client j).statics.insertNeiIP r.ip r.reqfile }).Once a :=
      ho.setClient (ho.first j) (ho.registers j)
    refine hj.setLink (fun hc _ => ?_) fun m' hm' => ?_
    · rw [Link.handled_eq]
      exact Nat.succ_pos _
    · rcases Link.mem_replies_handled hm' with hm' | hm'
      · exact ho.short k c m' hm'
      · rw [List.mem_singleton.1 hm']
        have hlength : (n.client j).statics.fileReply.length = 7 := by
          simp [P2PCServer.fileReply, P2PCServer.getIP, lit, (h.client j).now.IP_eq, a.length_eq]
        rw [hlength]
        decide

/-- The step lemma. -/
theorem Once.step (h : n.Inv a) (ho : n.Once a) (e : Event ι) : (n.step a e).Once a := by
  cases e with
  | up k probes => exact ho.up h k probes
  | message k c probes => exact ho.message h k c probes
  | invalid k c =>
    have hproceeds := (n.client k).proceeds_step (e := .messages c [] true) fun _ he => by cases he
    exact ho.steered hproceeds ((h.ready k).invalid c).2
  | down k c probes =>
    have hproceeds := (n.client k).proceeds_step (e := .down c probes) fun _ he => by cases he
    exact ho.steered hproceeds ((h.ready k).down c probes).2
  | runFunctor k probes =>
    have hproceeds := (n.client k).proceeds_step (e := .runFunctor probes) fun _ he => by cases he
    exact ho.steered hproceeds ((h.ready k).runFunctor probes).2
  | serve k c w survives => exact ho.serve h k c w survives
  | request j k c => exact ho.request h j k c

/-- The run lemma. -/
theorem once_after (state : ι → ConnState) (es : List (Event ι)) : (after a state es).Once a :=
  (Runs.run_invariant (I := fun n : Network ι => n.Inv a ∧ n.Once a)
    (fun _ e _ h => ⟨(h.1.step e).1, h.2.step h.1 e⟩)
    ⟨inv_init state, once_init state⟩).2

/-- **Registrations.** In every run, a client sends at most one registration, as the first request
of its first connection. The server has records of itself and of clients whose first request was
taken, at most one for each IP and 256 for each group, although its set does not find all of them
again; and the replies on their way have at most 1283 bytes, so that no receiver takes their frames
for invalid ones. -/
theorem registrations_run (a : Addresses ι) (state : ι → ConnState) (es : List (Event ι)) :
    (∀ k c i m, (((after a state es).client k).requests c)[i]? = some m → IsType (chr 'a') m →
        c = 0 ∧ i = 0) ∧
      (∀ g, ∀ u ∈ (after a state es).catalogue.records g, u.userIP = lit "1111" ∨
        ∃ k, u.userIP = a.ip k ∧ 0 < ((after a state es).link k 0).taken) ∧
      (∀ g, (((after a state es).catalogue.records g).map UserInfo.userIP).Nodup ∧
        ((after a state es).catalogue.records g).length ≤ 256) ∧
      ∀ k c, ∀ m ∈ ((after a state es).link k c).replies, m.length ≤ 3 + 5 * 256 ∧
        ∀ later, decoder.front (frame m ++ later) = .frame m later := by
  have h := inv_after (a := a) state es
  have ho := once_after (a := a) state es
  refine ⟨ho.registers, fun g u hu => ?_, fun g => ⟨(ho.different g).2,
    ho.different.length_records_le (fun g u hu => (h.catalogue g u hu).1) g⟩, fun k c m hm => ?_⟩
  · obtain ⟨-, hserver | ⟨k, hip, -⟩⟩ := h.catalogue g u hu
    · exact .inl hserver
    · exact .inr ⟨k, hip, ho.recorded k g u hu hip⟩
  · have hlength := ho.short k c m hm
    exact ⟨hlength, encoder.front_encode (by omega)⟩

end Network

end Huaweip2p
