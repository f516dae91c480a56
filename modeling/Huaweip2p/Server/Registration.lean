import Huaweip2p.Server.UserCatalogue

/-!
# Registration with the set the program has

`UserInfo::operator<` answers `true` for any two different IPs, so the tree of `set<UserInfo>` is
searched by a comparator that only tells keys apart: `erase` finds an IP exactly when its record
lies on the right spine of the tree. `InsertOk` lists the calls of `insertUser` that this does not
disturb, and `insertUser_consistent_iff` says that a run keeps the catalogue consistent exactly
when all its calls are of this kind.
-/

namespace Huaweip2p.UserCatalogue

/-- The catalogue of the program. -/
abbrev Catalogue := UserCatalogue (RbTree UserInfo)

/-- The IPs of the records in iteration order. -/
def ips (t : RbTree UserInfo) : List Str := t.toList.map UserInfo.userIP

/-- The IPs at which `erase` looks. -/
def rightIPs (t : RbTree UserInfo) : List Str := t.rightSpine.map UserInfo.userIP

/-! ### The set operations -/

section Tree

variable {t : RbTree UserInfo} {u : UserInfo}

theorem mem_ips_of_mem_rightIPs {ip : Str} (h : ip ∈ rightIPs t) : ip ∈ ips t := by
  obtain ⟨v, hv, rfl⟩ := List.mem_map.1 h
  exact List.mem_map_of_mem (RbTree.mem_toList_of_mem_rightSpine hv)

theorem erase_of_mem_rightIPs (h : u.userIP ∈ rightIPs t) (hnd : (ips t).Nodup) :
    ∃ xs v ys, t.toList = xs ++ v :: ys ∧ v.userIP = u.userIP ∧
      (UserSet.erase u t).1.toList = xs ++ ys ∧ (UserSet.erase u t).2 = 1 := by
  obtain ⟨v, hv, hk⟩ := List.mem_map.1 h
  obtain ⟨xs, ys, ht, he, hn⟩ := RbTree.eraseKey_of_rightSpine UserInfo.userIP hv hk hnd
  rw [← UserInfo.lt_eq_unequal] at he hn
  exact ⟨xs, v, ys, ht, hk, he, hn⟩

theorem erase_of_not_mem_rightIPs (h : u.userIP ∉ rightIPs t) : UserSet.erase u t = (t, 0) := by
  have he : RbTree.eraseKey (RbTree.unequal UserInfo.userIP) u t = (t, 0) :=
    RbTree.eraseKey_of_not_rightSpine UserInfo.userIP fun v hv hk =>
      h (List.mem_map.2 ⟨v, hv, hk⟩)
  rw [← UserInfo.lt_eq_unequal] at he
  exact he

theorem insert_of_mem_leftSpine {v : UserInfo} (hv : v ∈ t.leftSpine) (hk : v.userIP = u.userIP) :
    UserSet.insert u t = t := by
  have hi := RbTree.insertUnique_of_leftSpine UserInfo.userIP hv hk
  rw [← UserInfo.lt_eq_unequal] at hi
  exact hi

theorem toList_insert_of_not_mem_leftSpine (h : ∀ v ∈ t.leftSpine, v.userIP ≠ u.userIP) :
    (UserSet.insert u t).toList = u :: t.toList := by
  have hi := RbTree.insertUnique_of_not_leftSpine UserInfo.userIP h
  rw [← UserInfo.lt_eq_unequal] at hi
  exact hi

theorem toList_insert_of_not_mem (h : u.userIP ∉ ips t) :
    (UserSet.insert u t).toList = u :: t.toList :=
  toList_insert_of_not_mem_leftSpine fun v hv hk =>
    h (List.mem_map.2 ⟨v, RbTree.mem_toList_of_mem_leftSpine hv, hk⟩)

end Tree

theorem records_of_some {c : Catalogue} {g : Str} {t : RbTree UserInfo} (h : c.users[g]? = some t) :
    c.records g = t.toList := by
  simp only [records, h]
  rfl

theorem records_of_none {c : Catalogue} {g : Str} (h : c.users[g]? = none) :
    c.records g = [] := by
  simp [records, h]

/-! ### One call -/

/-- One call of `insertUser`, with the answers of its probe. -/
structure InsertCall where
  isClientWorking : Str → Bool
  ip : Str
  file : ℤ

/-- The catalogue after a call. -/
def insertStep (c : Catalogue) (call : InsertCall) : Catalogue :=
  (c.insertUser call.isClientWorking call.ip call.file).1

/-- What a call owes: a consistent catalogue and, unless the call was rejected, a record of the IP
with the file value given. -/
def Registers (c : Catalogue) (call : InsertCall) (c' : Catalogue) : Prop :=
  c'.Consistent ∧
    ((c.insertUser call.isClientWorking call.ip call.file).2 = .stored →
      ⟨call.ip, call.file⟩ ∈ c'.records (processIP call.ip))

/-- The calls that the comparator does not disturb: the group is new; or the old record of the IP
lies where `erase` looks; or the full group rejects the call; or the IP is new and there is a
place, or the IP that has to go lies where `erase` looks; or the IP itself is the first of a full
group, and its record lies where `insert` looks and already carries the file value. -/
def InsertOk (c : Catalogue) (call : InsertCall) : Prop :=
  match c.users[processIP call.ip]? with
  | none => True
  | some t =>
    let q := c.queue (processIP call.ip)
    call.ip ∈ rightIPs t ∨
    (kMaxCacheUsers ≤ q.length ∧ call.isClientWorking (q.headD []) = true) ∨
    (call.ip ∉ ips t ∧ (q.length < kMaxCacheUsers ∨ q.headD [] ∈ rightIPs t)) ∨
    (kMaxCacheUsers ≤ q.length ∧ q.headD [] = call.ip ∧ ⟨call.ip, call.file⟩ ∈ t.leftSpine)

/-- The constructor makes one record. -/
theorem records_init (ip : Str) (file : ℤ) (g : Str) :
    (init ip file : Catalogue).records g = if processIP ip = g then [⟨ip, file⟩] else [] := by
  split_ifs with hg
  · subst hg
    rw [records_of_some (t := UserSet.insert ⟨ip, file⟩ UserSet.empty) (by simp [init])]
    rfl
  · exact records_of_none (by simp [init, hg])

theorem consistent_init (ip : Str) (file : ℤ) : (init ip file : Catalogue).Consistent := by
  intro g
  rw [records_init]
  split_ifs with hg
  · subst hg
    have hq : (init ip file : Catalogue).queue (processIP ip) = [ip] := by simp [queue, init]
    rw [hq]
    exact ⟨by simp, by simp, by simp, by simp [kMaxCacheUsers]⟩
  · have hq : (init ip file : Catalogue).queue g = [] := by
      simp [queue, init, hg]
    rw [hq]
    exact groupOk_nil

section Call

variable {c : Catalogue} {call : InsertCall} {t : RbTree UserInfo}

/-- A call that stored the tree `t'` and the queue `q'` did what it owes when they agree and the
record is there. -/
theorem registers_store_iff (hc : c.Consistent) {t' : RbTree UserInfo} {q' : List Str}
    (h : c.insertUser call.isClientWorking call.ip call.file =
      (c.store (processIP call.ip) t' q', .stored)) :
    Registers c call (insertStep c call) ↔
      GroupOk t'.toList q' ∧ (⟨call.ip, call.file⟩ : UserInfo) ∈ t'.toList := by
  have hiff := consistent_insertUser_iff hc call.isClientWorking call.ip call.file
  simp only [Registers, insertStep]
  rw [hiff, h]
  simp only [records_store_self, queue_store_self, true_implies]
  rfl

/-- A call that only rotated the queue did what it owes. -/
theorem registers_of_rejected (hc : c.Consistent) {f : Str} {q : List Str}
    (hq : c.queue (processIP call.ip) = f :: q)
    (h : c.insertUser call.isClientWorking call.ip call.file =
      ({ c with userQue := c.userQue.insert (processIP call.ip) (q ++ [f]) }, .rejected)) :
    Registers c call (insertStep c call) := by
  have hiff := consistent_insertUser_iff hc call.isClientWorking call.ip call.file
  simp only [Registers, insertStep]
  rw [hiff, h]
  refine ⟨?_, by simp⟩
  have hg := hc (processIP call.ip)
  rw [hq] at hg
  simpa [records, queue] using hg.rotate

/-- A call whose old record is found. -/
theorem registers_of_mem_rightIPs (hc : c.Consistent)
    (hg : c.users[processIP call.ip]? = some t) (h : call.ip ∈ rightIPs t) :
    Registers c call (insertStep c call) := by
  have hok := hc (processIP call.ip)
  rw [records_of_some hg] at hok
  obtain ⟨xs, v, ys, ht, hv, he, hn⟩ :=
    erase_of_mem_rightIPs (u := ⟨call.ip, call.file⟩) h hok.nodup_records
  rw [ht] at hok
  have hnew : GroupOk (⟨call.ip, call.file⟩ :: (xs ++ ys)) (c.queue (processIP call.ip)) :=
    hok.replace hv
  have hins : call.ip ∉ ips (UserSet.erase (⟨call.ip, call.file⟩ : UserInfo) t).1 := by
    rw [ips, he]
    exact (List.nodup_cons.1 hnew.nodup_records).1
  rw [registers_store_iff hc (insertUser_of_erased hg (by rw [hn]; exact one_ne_zero)),
    toList_insert_of_not_mem hins, he]
  exact ⟨hnew, List.mem_cons_self⟩

/-- A call whose old record, if there is one, is not found, in a group with a place left: right for
a new IP only. -/
theorem registers_iff_of_room (hc : c.Consistent)
    (hg : c.users[processIP call.ip]? = some t) (h : call.ip ∉ rightIPs t)
    (hlen : (c.queue (processIP call.ip)).length < kMaxCacheUsers) :
    Registers c call (insertStep c call) ↔ call.ip ∉ ips t := by
  have hok := hc (processIP call.ip)
  rw [records_of_some hg] at hok
  have he := erase_of_not_mem_rightIPs (u := ⟨call.ip, call.file⟩) h
  rw [registers_store_iff hc (insertUser_of_room hg (by rw [he]) hlen), he]
  constructor
  · rintro ⟨hnew, -⟩ hip
    -- a known IP is queued a second time
    have hq : call.ip ∈ c.queue (processIP call.ip) := (hok.mem_iff _).1 hip
    exact (List.nodup_append.1 hnew.nodup_queue).2.2 _ hq _ (List.mem_singleton_self _) rfl
  · intro hip
    rw [toList_insert_of_not_mem (u := ⟨call.ip, call.file⟩) hip]
    exact ⟨hok.push (u := ⟨call.ip, call.file⟩) (fun hm => hip ((hok.mem_iff _).2 hm)) hlen,
      List.mem_cons_self⟩

/-- A new IP takes the place of a first IP that is not working: right when that one's record is
found. -/
theorem registers_iff_of_evict (hc : c.Consistent)
    (hg : c.users[processIP call.ip]? = some t) (h : call.ip ∉ ips t) {f : Str} {q : List Str}
    (hq : c.queue (processIP call.ip) = f :: q) (hlen : kMaxCacheUsers ≤ (f :: q).length)
    (hw : call.isClientWorking f = false) :
    Registers c call (insertStep c call) ↔ f ∈ rightIPs t := by
  have hok := hc (processIP call.ip)
  rw [records_of_some hg, hq] at hok
  have he := erase_of_not_mem_rightIPs (u := ⟨call.ip, call.file⟩)
    fun hm => h (mem_ips_of_mem_rightIPs hm)
  rw [registers_store_iff hc (insertUser_of_not_working hg (by rw [he]) hq hlen hw), he]
  have hipq : call.ip ∉ f :: q := fun hm => h ((hok.mem_iff _).2 hm)
  by_cases hf : f ∈ rightIPs t
  · obtain ⟨xs, v, ys, ht, hv, hef, -⟩ := erase_of_mem_rightIPs (u := ⟨f, 0⟩) hf hok.nodup_records
    have hv' : v.userIP = f := hv
    rw [ht, ← hv'] at hok
    have hpop : GroupOk (xs ++ ys) q := hok.pop
    have hins : call.ip ∉ ips (UserSet.erase (⟨f, 0⟩ : UserInfo) t).1 := by
      rw [ips, hef]
      exact fun hm => hipq (List.mem_cons_of_mem _ ((hpop.mem_iff _).1 hm))
    rw [toList_insert_of_not_mem (u := ⟨call.ip, call.file⟩) hins, hef]
    refine iff_of_true ⟨hpop.push (u := ⟨call.ip, call.file⟩) (fun hm => ?_) ?_, ?_⟩ hf
    · exact hipq (List.mem_cons_of_mem _ hm)
    · have := hok.length_le
      simp only [List.length_cons] at this
      omega
    · exact List.mem_cons_self
  · -- the record of `f` stays although `f` has left the queue
    rw [erase_of_not_mem_rightIPs (u := ⟨f, 0⟩) hf,
      toList_insert_of_not_mem (u := ⟨call.ip, call.file⟩) h]
    refine iff_of_false ?_ hf
    rintro ⟨hnew, -⟩
    have hft : f ∈ ips t := (hok.mem_iff f).2 List.mem_cons_self
    have hfq : f ∈ q ++ [call.ip] := (hnew.mem_iff f).1 (List.mem_cons_of_mem _ hft)
    rcases List.mem_append.1 hfq with hm | hm
    · exact (List.nodup_cons.1 hok.nodup_queue).1 hm
    · exact hipq (List.mem_singleton.1 hm ▸ List.mem_cons_self)

/-- A known IP that is not found, in a full group whose first IP is not working: right only when
that first IP is the IP itself, and its record is seen by `insert` and already carries the file
value. -/
theorem registers_iff_of_missed (hc : c.Consistent)
    (hg : c.users[processIP call.ip]? = some t) (hip : call.ip ∈ ips t) (h : call.ip ∉ rightIPs t)
    {f : Str} {q : List Str} (hq : c.queue (processIP call.ip) = f :: q)
    (hlen : kMaxCacheUsers ≤ (f :: q).length) (hw : call.isClientWorking f = false) :
    Registers c call (insertStep c call) ↔
      f = call.ip ∧ (⟨call.ip, call.file⟩ : UserInfo) ∈ t.leftSpine := by
  have hok := hc (processIP call.ip)
  rw [records_of_some hg, hq] at hok
  have he := erase_of_not_mem_rightIPs (u := ⟨call.ip, call.file⟩) h
  rw [registers_store_iff hc (insertUser_of_not_working hg (by rw [he]) hq hlen hw), he]
  by_cases hf : f = call.ip
  · subst hf
    rw [erase_of_not_mem_rightIPs (u := ⟨call.ip, 0⟩) h]
    by_cases hl : ∃ v ∈ t.leftSpine, v.userIP = call.ip
    · obtain ⟨v, hv, hk⟩ := hl
      rw [insert_of_mem_leftSpine (u := ⟨call.ip, call.file⟩) hv hk]
      refine ⟨fun hnew => ⟨rfl, ?_⟩, fun hnew => ⟨hok.rotate, ?_⟩⟩
      · -- the only record of the IP is the one on the left spine
        have hvm := RbTree.mem_toList_of_mem_leftSpine hv
        rwa [List.inj_on_of_nodup_map hok.nodup_records hnew.2 hvm hk.symm]
      · exact RbTree.mem_toList_of_mem_leftSpine hnew.2
    · have hl' : ∀ v ∈ t.leftSpine, v.userIP ≠ call.ip := fun v hv hk => hl ⟨v, hv, hk⟩
      rw [toList_insert_of_not_mem_leftSpine (u := ⟨call.ip, call.file⟩) hl']
      refine iff_of_false (fun hnew => ?_) fun hnew => hl' _ hnew.2 rfl
      exact (List.nodup_cons.1 hnew.1.nodup_records).1 hip
  · refine iff_of_false (fun hnew => ?_) fun hnew => hf hnew.1
    -- a known IP is queued a second time
    have hipq : call.ip ∈ q := by
      rcases List.mem_cons.1 ((hok.mem_iff _).1 hip) with e | hm
      · exact absurd e.symm hf
      · exact hm
    exact (List.nodup_append.1 hnew.1.nodup_queue).2.2 _ hipq _ (List.mem_singleton_self _) rfl

/-- On a consistent catalogue a call does what it owes exactly when it is one of `InsertOk`. -/
theorem registers_iff_insertOk (hc : c.Consistent) :
    Registers c call (insertStep c call) ↔ InsertOk c call := by
  unfold InsertOk
  cases hg : c.users[processIP call.ip]? with
  | none =>
    have hok := hc (processIP call.ip)
    rw [records_of_none hg] at hok
    rw [registers_store_iff hc (insertUser_of_none hg), hok.queue_eq_nil,
      toList_insert_of_not_mem (u := ⟨call.ip, call.file⟩) (t := UserSet.empty) (by simp [ips,
        UserSet.empty])]
    exact iff_of_true ⟨groupOk_nil.push (u := ⟨call.ip, call.file⟩) (by simp) (by decide),
      List.mem_cons_self⟩ trivial
  | some t =>
    dsimp only
    by_cases hr : call.ip ∈ rightIPs t
    · exact iff_of_true (registers_of_mem_rightIPs hc hg hr) (Or.inl hr)
    have he := erase_of_not_mem_rightIPs (u := ⟨call.ip, call.file⟩) hr
    rcases Nat.lt_or_ge (c.queue (processIP call.ip)).length kMaxCacheUsers with hlen | hlen
    · rw [registers_iff_of_room hc hg hr hlen]
      have := Nat.not_le.2 hlen
      tauto
    · obtain ⟨f, q, hq⟩ := List.exists_cons_of_length_pos (Nat.lt_of_lt_of_le (by decide) hlen)
      rw [hq] at hlen ⊢
      have hnlt := Nat.not_lt.2 hlen
      rw [List.headD_cons]
      cases hw : call.isClientWorking f with
      | true =>
        refine iff_of_true ?_ (Or.inr (Or.inl ⟨hlen, rfl⟩))
        exact registers_of_rejected hc hq
          (insertUser_of_working hg (by rw [he]) hq hlen hw)
      | false =>
        by_cases hip : call.ip ∈ ips t
        · rw [registers_iff_of_missed hc hg hip hr hq hlen hw]
          tauto
        · rw [registers_iff_of_evict hc hg hip hq hlen hw]
          have hself : f ≠ call.ip := fun e => by
            have hok := hc (processIP call.ip)
            rw [records_of_some hg, hq, e] at hok
            exact hip ((hok.mem_iff _).2 List.mem_cons_self)
          tauto

end Call

/-- **Registration.** A fresh catalogue is consistent, and every call of a run from it leaves a
consistent catalogue, with the record stored unless the call was rejected, exactly when every call
of the run is one that the comparator does not disturb. -/
theorem insertUser_consistent_iff (ip : Str) (file : ℤ) (calls : List InsertCall) :
    (init ip file : Catalogue).Consistent ∧
      (Runs.EveryStep insertStep Registers (init ip file) calls ↔
        Runs.EveryStep insertStep (fun c call _ => InsertOk c call) (init ip file) calls) :=
  ⟨consistent_init ip file,
    Runs.everyStep_iff (I := Consistent) (fun _ _ hc => registers_iff_insertOk hc)
      (fun _ _ _ h => h.1) (consistent_init ip file) calls⟩

/-- A client that registers twice before the group has three members: its first record, left of
the root, is not found again, so the client stands in the queue twice. -/
theorem insertUser_not_consistent :
    ¬ Runs.EveryStep insertStep Registers (init (lit "1111") 100)
      [⟨fun _ => true, lit "9001", 1⟩, ⟨fun _ => true, lit "9002", 1⟩,
        ⟨fun _ => true, lit "9002", 2⟩] := by
  intro h
  obtain ⟨hc, -⟩ : Registers _ _ _ :=
    h [⟨fun _ => true, lit "9001", 1⟩, ⟨fun _ => true, lit "9002", 1⟩]
      ⟨fun _ => true, lit "9002", 2⟩ [] rfl
  have hnd := (hc (lit "900")).nodup_queue
  have hq : (insertStep (Runs.run insertStep (init (lit "1111") 100)
      [⟨fun _ => true, lit "9001", 1⟩, ⟨fun _ => true, lit "9002", 1⟩])
      ⟨fun _ => true, lit "9002", 2⟩).queue (lit "900") =
        [lit "9001", lit "9002", lit "9002"] := by decide +kernel
  rw [hq] at hnd
  simp at hnd

end Huaweip2p.UserCatalogue
