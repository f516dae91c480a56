import Huaweip2p.Client.P2PClient
import Huaweip2p.Server.Registration
import Huaweip2p.Server.P2PServer

/-!
# The list of neighbours

The server answers a registration with a count and an entry of five bytes for each neighbour, and
the client reads it back entry by entry. `replyAgrees_iff` says for which groups of a reachable
catalogue the two sides agree: the reply to a client without neighbours lacks its last byte.

* `Reachable`: the catalogues that calls of `insertUser` lead to;
* `neighbours`, `encode`: the entries of a reply and their bytes;
* `ReplyAgrees`: what server and client owe each other.
-/

namespace Huaweip2p

open UserCatalogue

/-! ### Reachable catalogues -/

/-- A record fits a message: four characters of IP and a level that a `char` holds. -/
def UserInfo.Fits (u : UserInfo) : Prop :=
  u.userIP.length = 4 ∧ -128 ≤ u.userFile ∧ u.userFile < 128

instance : DecidablePred UserInfo.Fits := fun u =>
  inferInstanceAs (Decidable (u.userIP.length = 4 ∧ -128 ≤ u.userFile ∧ u.userFile < 128))

namespace UserCatalogue

/-- The catalogues that registrations from messages lead to. -/
def Reachable (c : Catalogue) : Prop :=
  ∃ calls : List InsertCall, (∀ call ∈ calls, UserInfo.Fits ⟨call.ip, call.file⟩) ∧
    c = Runs.run insertStep (init (lit "1111") 100) calls

/-- Every record of the catalogue satisfies `P`. -/
def EveryRecord (P : UserInfo → Prop) (c : Catalogue) : Prop := ∀ g, ∀ u ∈ c.records g, P u

section EveryRecord

variable {P : UserInfo → Prop} {c : Catalogue}

theorem EveryRecord.store (hc : c.EveryRecord P) {g : Str} {t : RbTree UserInfo}
    (ht : ∀ u ∈ t.toList, P u) (q : List Str) : (c.store g t q).EveryRecord P := by
  intro g' u hu
  by_cases hg : g = g'
  · subst hg
    rw [records_store_self] at hu
    exact ht u hu
  · rw [records_store_of_ne _ _ _ hg] at hu
    exact hc g' u hu

theorem forall_mem_insert {u : UserInfo} (hu : P u) {t : RbTree UserInfo}
    (ht : ∀ v ∈ t.toList, P v) : ∀ v ∈ (UserSet.insert u t).toList, P v := by
  intro v hv
  rcases RbTree.mem_insertUnique UserInfo.lt hv with rfl | hv
  · exact hu
  · exact ht v hv

theorem forall_mem_erase (k : UserInfo) {t : RbTree UserInfo} (ht : ∀ v ∈ t.toList, P v) :
    ∀ v ∈ (UserSet.erase k t).1.toList, P v := fun v hv =>
  ht v ((RbTree.eraseKey_sublist UserInfo.lt k t).subset hv)

/-- A call adds no other record than its own. -/
theorem EveryRecord.insertUser (hc : c.EveryRecord P) (w : Str → Bool) {ip : Str} {file : ℤ}
    (hu : P ⟨ip, file⟩) : (c.insertUser w ip file).1.EveryRecord P := by
  rcases c.insertUser_cases w ip file with ⟨uset, q, heq, huset⟩ | ⟨old, q, -, heq⟩
  · rw [heq]
    refine hc.store (forall_mem_insert hu ?_) q
    rcases huset with rfl | ⟨old, hg, huset⟩
    · simp [UserSet.empty]
    · have hold : ∀ v ∈ old.toList, P v := by
        rw [← records_of_some hg]
        exact hc _
      rcases huset with rfl | ⟨firstIP, rfl⟩
      · exact forall_mem_erase _ hold
      · exact forall_mem_erase _ (forall_mem_erase _ hold)
  · rw [heq]
    exact hc

theorem everyRecord_init {ip : Str} {file : ℤ} (hu : P ⟨ip, file⟩) :
    (init ip file : Catalogue).EveryRecord P := by
  intro g u hu'
  rw [records_init] at hu'
  split_ifs at hu'
  · rw [List.mem_singleton] at hu'
    subst hu'
    exact hu
  · cases hu'

end EveryRecord

/-- Every record fits a message. -/
def RecordsFit (c : Catalogue) : Prop := ∀ g, ∀ u ∈ c.records g, u.Fits

/-- A call with a record that fits keeps the records fitting. -/
theorem recordsFit_insertUser {c : Catalogue} (hc : c.RecordsFit) (w : Str → Bool) {ip : Str}
    {file : ℤ} (hu : UserInfo.Fits ⟨ip, file⟩) : (c.insertUser w ip file).1.RecordsFit :=
  EveryRecord.insertUser hc w hu

theorem recordsFit_init : (init (lit "1111") 100 : Catalogue).RecordsFit :=
  everyRecord_init ⟨rfl, by decide, by decide⟩

theorem Reachable.recordsFit {c : Catalogue} (h : c.Reachable) : c.RecordsFit := by
  obtain ⟨calls, hcalls, rfl⟩ := h
  exact Runs.run_invariant (I := RecordsFit)
    (fun c call hmem hc => recordsFit_insertUser hc call.isClientWorking (hcalls call hmem))
    recordsFit_init

theorem Reachable.insertUser {c : Catalogue} (h : c.Reachable) (w : Str → Bool) {ip : Str}
    {file : ℤ} (hu : UserInfo.Fits ⟨ip, file⟩) : (c.insertUser w ip file).1.Reachable := by
  obtain ⟨calls, hcalls, rfl⟩ := h
  refine ⟨calls ++ [⟨w, ip, file⟩], fun call hcall => ?_, ?_⟩
  · rcases List.mem_append.1 hcall with hcall | hcall
    · exact hcalls call hcall
    · rw [List.mem_singleton.1 hcall]
      exact hu
  · rw [Runs.run_append]
    rfl

end UserCatalogue

namespace P2PServer

/-- A message of at least seven bytes leaves a reachable catalogue. -/
theorem reachable_onStringMessage {c : Catalogue} (hc : c.Reachable) (w : Str → Bool) {m : Str}
    (hm : 7 ≤ m.length) {r : Catalogue × List Effect}
    (h : (onStringMessage c w m).val = some r) : r.1.Reachable := by
  have hu : UserInfo.Fits ⟨ipField m, charToInt m[6]⟩ :=
    ⟨by simp only [ipField, List.length_take, List.length_drop]; omega, charToInt_bounds _⟩
  simp only [onStringMessage, Traced.val_bind, val_readRequest hm, Option.bind_some,
    Option.bind_eq_some_iff] at h
  obtain ⟨-, -, h⟩ := h
  split_ifs at h
  · simp only [Traced.val_bind, Option.bind_eq_some_iff, Traced.val_pure, Option.some.injEq] at h
    obtain ⟨_, -, rfl⟩ := h
    exact hc.insertUser w hu
  · simp only [Traced.val_pure, Option.some.injEq] at h
    exact h ▸ hc
  · simp only [Traced.val_pure, Option.some.injEq] at h
    exact h ▸ hc

/-- The catalogues of a server that handles messages of at least seven bytes are reachable. -/
theorem reachable_serve {c : Catalogue} (hc : c.Reachable) {as : List Arrival}
    (has : ∀ a ∈ as, 7 ≤ a.message.length) {c' : Catalogue} (h : (serve c as).val = some c') :
    c'.Reachable := by
  induction as generalizing c with
  | nil =>
    rw [serve, Traced.val_pure, Option.some.injEq] at h
    exact h ▸ hc
  | cons a as ih =>
    rw [serve, Traced.val_bind, Option.bind_eq_some_iff] at h
    obtain ⟨r, hr, h⟩ := h
    exact ih (reachable_onStringMessage hc _ (has a List.mem_cons_self) hr)
      (fun b hb => has b (List.mem_cons_of_mem _ hb)) h

end P2PServer

/-! ### The bytes of a reply -/

namespace P2PServer

/-- The records of the group of an IP that belong to other IPs. -/
def neighbours (c : Catalogue) (ip : Str) : List UserInfo :=
  (c.records (processIP ip)).filter fun u => u.userIP ≠ ip

/-- The five bytes of an entry. -/
def encode (u : UserInfo) : Str := u.userIP ++ [intToChar u.userFile]

theorem foldl_appendNeighbor (ip : Str) (us : List UserInfo) (acc : Str) (n : ℤ) :
    us.foldl (appendNeighbor ip) (acc, n) =
      (acc ++ (us.filter fun u => u.userIP ≠ ip).flatMap encode,
        n + (us.filter fun u => u.userIP ≠ ip).length) := by
  induction us generalizing acc n with
  | nil => simp
  | cons u us ih =>
    rw [List.foldl_cons, appendNeighbor]
    by_cases hu : u.userIP ≠ ip
    · rw [if_pos hu, ih]
      simp [hu, encode, add_assoc, add_comm]
    · rw [if_neg hu, ih]
      simp [hu]

/-- The body of the reply: count and entries, or what a client without neighbours gets. -/
theorem val_processMessage {c : Catalogue} {ip : Str} (h : HasGroup c ip) :
    (processMessage c ip).val = some
      (if (c.records (processIP ip)).length = 1 then processMyself ip
        else intToChar (neighbours c ip).length :: (neighbours c ip).flatMap encode) := by
  obtain ⟨t, ht, hv⟩ := val_lookup_isSome h
  simp only [processMessage, hasNeighbor, Traced.val_bind, hv, Option.bind_some, Traced.val_pure,
    neighbours, records_of_some ht]
  have helems : (UserSet.elems t).length = t.toList.length := rfl
  by_cases hlen : t.toList.length = 1
  · simp [helems, hlen]
  · have hne : ((UserSet.elems t).length : ℤ) - 1 ≠ 0 := by
      rw [helems]
      omega
    simp only [if_pos hne, if_neg hlen, retNeighborIP, getNeighborUsers, Traced.val_bind, hv,
      Option.bind_some, foldl_appendNeighbor, Traced.val_pure, zero_add]
    rfl

theorem length_flatMap_encode {us : List UserInfo} (h : ∀ u ∈ us, u.Fits) :
    (us.flatMap encode).length = 5 * us.length := by
  induction us with
  | nil => rfl
  | cons u us ih =>
    rw [List.flatMap_cons, List.length_append, ih fun v hv => h v (List.mem_cons_of_mem _ hv),
      encode, List.length_append, (h u List.mem_cons_self).1, List.length_singleton,
      List.length_cons]
    omega

/-- The reply to a client with neighbours. -/
def reply (us : List UserInfo) : Str :=
  chr 'b' :: chr '0' :: intToChar us.length :: us.flatMap encode

theorem length_reply {us : List UserInfo} (h : ∀ u ∈ us, u.Fits) :
    (reply us).length = 3 + 5 * us.length := by
  simp only [reply, List.length_cons, length_flatMap_encode h]
  omega

end P2PServer

/-! ### Reading a reply -/

/-- The client after a list of entries. -/
def P2PCServer.insertAll (s : P2PCServer) (es : List (Str × ℤ)) : P2PCServer :=
  es.foldl (fun s e => s.insertNeiIP e.1 e.2) s

/-- The entry that the client makes of a record. -/
def UserInfo.entry (u : UserInfo) : Str × ℤ := (u.userIP, u.userFile)

namespace P2PClient

open P2PServer

/-- The loop reads back the entries that start where its rounds start. -/
theorem val_storeNeighbours {us : List UserInfo} (h : ∀ u ∈ us, u.Fits) (pre post : Str) {i : ℕ}
    (hpre : pre.length = 3 + i * 5) (s : P2PCServer) :
    (storeNeighbours (pre ++ us.flatMap encode ++ post) us.length i s).val =
      some (s.insertAll (us.map UserInfo.entry)) := by
  induction us generalizing pre i s with
  | nil => rfl
  | cons u us ih =>
    obtain ⟨hip, h₁, h₂⟩ := h u List.mem_cons_self
    have hmessage : pre ++ (u :: us).flatMap encode ++ post =
        pre ++ (u.userIP ++ intToChar u.userFile :: (us.flatMap encode ++ post)) := by
      simp [encode]
    have hlen : 8 + i * 5 ≤ (pre ++ (u :: us).flatMap encode ++ post).length := by
      simp only [hmessage, List.length_append, List.length_cons, hpre, hip]
      omega
    have hsub : ((pre ++ (u :: us).flatMap encode ++ post).drop (3 + i * 5)).take 4 =
        u.userIP := by
      rw [hmessage, List.drop_left' hpre, List.take_left' hip]
    have hget : (pre ++ (u :: us).flatMap encode ++ post)[7 + i * 5] = intToChar u.userFile :=
      List.getElem_of_append (show pre ++ (u :: us).flatMap encode ++ post =
        (pre ++ u.userIP) ++ intToChar u.userFile :: (us.flatMap encode ++ post) by simp [encode])
        (by rw [List.length_append, hpre, hip]; omega)
    rw [List.length_cons, storeNeighbours, val_substr_bind (by omega), hsub,
      val_charAt_bind (by omega), hget, charToInt_intToChar h₁ h₂]
    have hih := ih (fun v hv => h v (List.mem_cons_of_mem _ hv)) (pre ++ encode u) (i := i + 1)
      (by simp only [List.length_append, hpre, encode, hip, List.length_singleton]; omega)
      (s.insertNeiIP u.userIP u.userFile)
    rw [List.append_assoc pre, ← List.flatMap_cons] at hih
    exact hih

/-- A reply with at most 127 entries is read back. -/
theorem processMessage_reply {us : List UserInfo} (h : ∀ u ∈ us, u.Fits) (hus : us.length ≤ 127)
    (s : P2PCServer) :
    (processMessage s (reply us)).All Access.InBounds ∧
      (processMessage s (reply us)).val = some (s.insertAll (us.map UserInfo.entry), 0) := by
  have hnum : charToInt (intToChar us.length) = us.length :=
    charToInt_intToChar (by omega) (by omega)
  have hlen : 3 ≤ (reply us).length := by simp [reply]
  constructor
  · have hread : readLength (reply us) = 3 + 5 * us.length := by
      rw [readLength, if_pos (by rfl), reply, List.getD_cons_succ, List.getD_cons_succ,
        List.getD_cons_zero, hnum, Int.toNat_natCast]
    rw [inBounds_processMessage_iff, hread, length_reply h]
  · have hread := val_storeNeighbours h [chr 'b', chr '0', intToChar us.length] [] (i := 0) rfl s
    rw [List.append_nil] at hread
    have hget : (reply us)[2] = intToChar us.length := rfl
    rw [val_processMessage_list s hlen rfl, hget, hnum, Int.toNat_natCast]
    exact congrArg (Option.map fun s' => (s', (0 : ℤ))) hread

end P2PClient

/-! ### Agreement -/

/-- The entries a client should get: those of its neighbours, or one for the server. -/
def IsReplyTo (c : Catalogue) (ip : Str) (es : List (Str × ℤ)) : Prop :=
  if P2PServer.neighbours c ip = [] then ∃ level, es = [(lit "1111", level)]
  else es = (P2PServer.neighbours c ip).map UserInfo.entry

/-- The reply has the length its count byte gives, and any client reads it without leaving it and
enters exactly what it should get. -/
def ReplyAgrees (c : Catalogue) (ip : Str) : Prop :=
  ∃ body es, (P2PServer.processMessage c ip).val = some body ∧ IsReplyTo c ip es ∧
    ((lit "b0" ++ body).length : ℤ) = 3 + 5 * charToInt ((lit "b0" ++ body).getD 2 0) ∧
    ∀ s, (P2PClient.processMessage s (lit "b0" ++ body)).All Access.InBounds ∧
      (P2PClient.processMessage s (lit "b0" ++ body)).val = some (s.insertAll es, 0)

/-- The body without neighbours is one byte short. -/
theorem not_replyAgrees_of_one {c : Catalogue} {ip : Str} (hg : P2PServer.HasGroup c ip)
    (hone : (c.records (processIP ip)).length = 1) : ¬ ReplyAgrees c ip := by
  rintro ⟨body, es, hbody, -, hlen, -⟩
  rw [P2PServer.val_processMessage hg, if_pos hone, Option.some.injEq] at hbody
  subst hbody
  rw [P2PServer.processMyself] at hlen
  exact absurd hlen (by decide)

/-- A reply built from the neighbours counts them, so there are some, and not more than a `char`
counts. -/
theorem length_neighbours_of_replyAgrees {c : Catalogue} (hc : c.RecordsFit) {ip : Str}
    (hg : P2PServer.HasGroup c ip) (hone : (c.records (processIP ip)).length ≠ 1)
    (h : ReplyAgrees c ip) :
    1 ≤ (P2PServer.neighbours c ip).length ∧ (P2PServer.neighbours c ip).length ≤ 127 := by
  obtain ⟨body, es, hbody, hes, hlen, hread⟩ := h
  have hfit : ∀ u ∈ P2PServer.neighbours c ip, u.Fits := fun u hu =>
    hc _ u (List.mem_filter.1 hu).1
  rw [P2PServer.val_processMessage hg, if_neg hone, Option.some.injEq] at hbody
  subst hbody
  change ((P2PServer.reply (P2PServer.neighbours c ip)).length : ℤ) =
    3 + 5 * charToInt (intToChar (P2PServer.neighbours c ip).length) at hlen
  rw [P2PServer.length_reply hfit] at hlen
  have hbound := (charToInt_bounds (intToChar (P2PServer.neighbours c ip).length)).2
  refine ⟨Nat.one_le_iff_ne_zero.2 fun hzero => ?_, by omega⟩
  -- without neighbours the client enters nothing, not even the server
  have hnil := List.length_eq_zero_iff.1 hzero
  rw [IsReplyTo, if_pos hnil] at hes
  obtain ⟨level, rfl⟩ := hes
  have hstart := (hread P2PCServer.start).2
  rw [hnil] at hstart
  have hread' : (P2PClient.processMessage P2PCServer.start (P2PServer.reply [])).val =
      some (P2PCServer.start.insertAll [], 0) :=
    (P2PClient.processMessage_reply (by simp) (by simp) P2PCServer.start).2
  have heq := Option.some.inj (hread'.symm.trans hstart)
  have htable := congrArg (fun r => r.1.neiIP[lit "1111"]?) heq
  simp [P2PCServer.insertAll, P2PCServer.insertNeiIP, P2PCServer.start] at htable

/-- **The list of neighbours.** In a reachable catalogue, server and client agree on the reply to
an IP exactly when its group holds at least two records, and of other IPs at least one and at most
127. -/
theorem replyAgrees_iff {c : Catalogue} (hc : c.Reachable) {ip : Str}
    (hg : P2PServer.HasGroup c ip) :
    ReplyAgrees c ip ↔ 2 ≤ (c.records (processIP ip)).length ∧
      1 ≤ (P2PServer.neighbours c ip).length ∧ (P2PServer.neighbours c ip).length ≤ 127 := by
  have hle : (P2PServer.neighbours c ip).length ≤ (c.records (processIP ip)).length :=
    List.length_filter_le _ _
  constructor
  · intro h
    have hone : (c.records (processIP ip)).length ≠ 1 := fun hone =>
      not_replyAgrees_of_one hg hone h
    have hlen := length_neighbours_of_replyAgrees hc.recordsFit hg hone h
    omega
  · rintro ⟨htwo, hpos, hmax⟩
    have hfit : ∀ u ∈ P2PServer.neighbours c ip, u.Fits := fun u hu =>
      hc.recordsFit _ u (List.mem_filter.1 hu).1
    refine ⟨_, (P2PServer.neighbours c ip).map UserInfo.entry,
      (P2PServer.val_processMessage hg).trans (by rw [if_neg (by omega)]), ?_, ?_,
      P2PClient.processMessage_reply hfit hmax⟩
    · rw [IsReplyTo, if_neg (List.ne_nil_of_length_pos hpos)]
    · change ((P2PServer.reply (P2PServer.neighbours c ip)).length : ℤ) =
        3 + 5 * charToInt (intToChar (P2PServer.neighbours c ip).length)
      rw [P2PServer.length_reply hfit, charToInt_intToChar (by omega) (by omega)]
      omega

/-- The catalogue after the registration of a client of the server's own group. -/
theorem replyAgrees_of_one_neighbour :
    ReplyAgrees (Runs.run insertStep (init (lit "1111") 100) [⟨fun _ => true, lit "1112", 5⟩])
      (lit "1112") :=
  (replyAgrees_iff ⟨[⟨fun _ => true, lit "1112", 5⟩], by decide, rfl⟩ (by decide +kernel)).2
    (by decide +kernel)

/-- A lone client gets seven bytes for the one entry counted, and reads beyond them. -/
theorem not_replyAgrees :
    (Runs.run insertStep (init (lit "1111") 100) [⟨fun _ => true, lit "9001", 1⟩]).Reachable ∧
      P2PServer.HasGroup
        (Runs.run insertStep (init (lit "1111") 100) [⟨fun _ => true, lit "9001", 1⟩])
        (lit "9001") ∧
      ¬ ReplyAgrees
        (Runs.run insertStep (init (lit "1111") 100) [⟨fun _ => true, lit "9001", 1⟩])
        (lit "9001") ∧
      ¬ ReplyAgrees (init (lit "1111") 100) (lit "1111") := by
  refine ⟨⟨_, by decide, rfl⟩, by decide +kernel, ?_, ?_⟩
  · exact not_replyAgrees_of_one (by decide +kernel) (by decide +kernel)
  · exact not_replyAgrees_of_one (by decide +kernel) (by decide +kernel)

end Huaweip2p
