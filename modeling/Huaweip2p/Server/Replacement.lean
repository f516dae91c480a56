import Huaweip2p.Lib.SecondChance
import Huaweip2p.Server.Registration

/-!
# Who has to leave a group

The catalogue over any set of records that finds, inserts and erases by the IP. Each group of a
catalogue that is reached is then a queue with second chances, and its set has the same IPs.

* `LawfulUserSet`: what the set does; `UserList` is one;
* `probed`: the IP that a call of `insertUser` asks whether it is working;
* `insertUser_refines`: a call is `SecondChance.insert` on the queue of its group;
* `consistent_run`: in every run the two containers of a group agree;
* `secondChance_run`: who is admitted in the end, and who has to leave.
-/

namespace Huaweip2p

/-- A set of records that finds, inserts and erases by equality of `userIP`. -/
class LawfulUserSet (σ : Type) [UserSet σ] : Prop where
  elems_empty : UserSet.elems (UserSet.empty : σ) = []
  nodup (s : σ) : ((UserSet.elems s).map UserInfo.userIP).Nodup
  mem_insert {u : UserInfo} {s : σ} (h : u.userIP ∉ (UserSet.elems s).map UserInfo.userIP)
    (v : UserInfo) : v ∈ UserSet.elems (UserSet.insert u s) ↔ v = u ∨ v ∈ UserSet.elems s
  insert_of_mem {u : UserInfo} {s : σ} (h : u.userIP ∈ (UserSet.elems s).map UserInfo.userIP) :
    UserSet.insert u s = s
  mem_erase (u : UserInfo) (s : σ) (v : UserInfo) :
    v ∈ UserSet.elems (UserSet.erase u s).1 ↔ v ∈ UserSet.elems s ∧ v.userIP ≠ u.userIP
  erase_snd (u : UserInfo) (s : σ) :
    (UserSet.erase u s).2 = if u.userIP ∈ (UserSet.elems s).map UserInfo.userIP then 1 else 0

/-- A list of records with different IPs. -/
structure UserList where
  list : List UserInfo
  nodup : (list.map UserInfo.userIP).Nodup

namespace UserList

def insert (s : UserList) (u : UserInfo) : UserList :=
  if h : u.userIP ∈ s.list.map UserInfo.userIP then s
  else ⟨u :: s.list, List.nodup_cons.2 ⟨h, s.nodup⟩⟩

def erase (s : UserList) (u : UserInfo) : UserList :=
  ⟨s.list.filter (·.userIP ≠ u.userIP), s.nodup.sublist (List.filter_sublist.map _)⟩

instance : UserSet UserList where
  empty := ⟨[], List.nodup_nil⟩
  insert u s := s.insert u
  erase u s := (s.erase u, if u.userIP ∈ s.list.map UserInfo.userIP then 1 else 0)
  elems := list

instance : LawfulUserSet UserList where
  elems_empty := rfl
  nodup := nodup
  mem_insert {u s} h v := by
    have hinsert : s.insert u = ⟨u :: s.list, List.nodup_cons.2 ⟨h, s.nodup⟩⟩ := dif_neg h
    show v ∈ (s.insert u).list ↔ v = u ∨ v ∈ s.list
    rw [hinsert, List.mem_cons]
  insert_of_mem h := dif_pos h
  mem_erase u s v := by
    simp [UserSet.erase, UserSet.elems, erase, List.mem_filter]
  erase_snd _ _ := rfl

end UserList

namespace UserCatalogue

section Lawful

variable {σ : Type} [UserSet σ] [LawfulUserSet σ]

/-- The IPs of a set of records. -/
def setIPs (s : σ) : List Str := (UserSet.elems s).map UserInfo.userIP

theorem mem_setIPs_insert {u : UserInfo} {s : σ} {ip : Str} :
    ip ∈ setIPs (UserSet.insert u s) ↔ ip = u.userIP ∨ ip ∈ setIPs s := by
  by_cases h : u.userIP ∈ setIPs s
  · rw [LawfulUserSet.insert_of_mem h]
    constructor
    · exact .inr
    · rintro (rfl | hip)
      · exact h
      · exact hip
  · simp only [setIPs, List.mem_map, LawfulUserSet.mem_insert h]
    constructor
    · rintro ⟨v, rfl | hv, rfl⟩
      · exact .inl rfl
      · exact .inr ⟨v, hv, rfl⟩
    · rintro (rfl | ⟨v, hv, rfl⟩)
      · exact ⟨u, .inl rfl, rfl⟩
      · exact ⟨v, .inr hv, rfl⟩

theorem mem_setIPs_erase {u : UserInfo} {s : σ} {ip : Str} :
    ip ∈ setIPs (UserSet.erase u s).1 ↔ ip ∈ setIPs s ∧ ip ≠ u.userIP := by
  simp only [setIPs, List.mem_map, LawfulUserSet.mem_erase]
  constructor
  · rintro ⟨v, ⟨hv, hne⟩, rfl⟩
    exact ⟨⟨v, hv, rfl⟩, hne⟩
  · rintro ⟨⟨v, hv, rfl⟩, hne⟩
    exact ⟨v, ⟨hv, hne⟩, rfl⟩

/-- A record is replaced by another of the same IP. -/
theorem mem_setIPs_insert_erase {u : UserInfo} {s : σ} {ip : Str} :
    ip ∈ setIPs (UserSet.insert u (UserSet.erase u s).1) ↔ ip = u.userIP ∨ ip ∈ setIPs s := by
  rw [mem_setIPs_insert, mem_setIPs_erase]
  constructor
  · rintro (h | ⟨h, -⟩)
    · exact .inl h
    · exact .inr h
  · rintro (h | h)
    · exact .inl h
    · exact (eq_or_ne ip u.userIP).imp_right fun hne => ⟨h, hne⟩

theorem erase_snd_eq_zero {u : UserInfo} {s : σ} :
    (UserSet.erase u s).2 = 0 ↔ u.userIP ∉ setIPs s := by
  rw [LawfulUserSet.erase_snd]
  split_ifs with h
  · exact iff_of_false (by decide) fun hnot => hnot h
  · exact iff_of_true rfl h

theorem nil_of_empty : setIPs (UserSet.empty : σ) = [] := by
  rw [setIPs, LawfulUserSet.elems_empty, List.map_nil]

end Lawful

variable {σ : Type} [UserSet σ]

/-- The set of the group has a record of the IP. -/
def Recorded (c : UserCatalogue σ) (g ip : Str) : Prop := ip ∈ (c.records g).map UserInfo.userIP

instance (c : UserCatalogue σ) (g ip : Str) : Decidable (c.Recorded g ip) :=
  inferInstanceAs (Decidable (_ ∈ _))

/-- The IP that `insertUser` asks whether it is working. -/
def probed (c : UserCatalogue σ) (ip : Str) (file : ℤ) : Option Str :=
  match c.users[processIP ip]? with
  | none => none
  | some uset =>
    if (UserSet.erase ⟨ip, file⟩ uset).2 = 0 then
      if (c.queue (processIP ip)).length < kMaxCacheUsers then none
      else some ((c.queue (processIP ip)).headD [])
    else none

section Probed

variable {c : UserCatalogue σ} {ip : Str} {file : ℤ} {uset : σ}

theorem probed_of_none (hg : c.users[processIP ip]? = none) : c.probed ip file = none := by
  simp only [probed, hg]

theorem probed_of_erased (hg : c.users[processIP ip]? = some uset)
    (he : (UserSet.erase ⟨ip, file⟩ uset).2 ≠ 0) : c.probed ip file = none := by
  simp only [probed, hg, if_neg he]

theorem probed_of_room (hg : c.users[processIP ip]? = some uset)
    (hq : (c.queue (processIP ip)).length < kMaxCacheUsers) : c.probed ip file = none := by
  simp only [probed, hg, if_pos hq, ite_self]

theorem probed_of_full (hg : c.users[processIP ip]? = some uset)
    (he : (UserSet.erase ⟨ip, file⟩ uset).2 = 0) {f : Str} {q : List Str}
    (hq : c.queue (processIP ip) = f :: q) (hlen : kMaxCacheUsers ≤ (f :: q).length) :
    c.probed ip file = some f := by
  simp only [probed, hg, hq, if_pos he, if_neg (Nat.not_lt.2 hlen), List.headD_cons]

/-- No other answer matters. -/
theorem insertUser_congr {w w' : Str → Bool}
    (h : ∀ firstIP, c.probed ip file = some firstIP → w firstIP = w' firstIP) :
    c.insertUser w ip file = c.insertUser w' ip file := by
  cases hg : c.users[processIP ip]? with
  | none => rw [insertUser_of_none hg, insertUser_of_none hg]
  | some uset =>
    by_cases he : (UserSet.erase ⟨ip, file⟩ uset).2 = 0
    · rcases Nat.lt_or_ge (c.queue (processIP ip)).length kMaxCacheUsers with hlen | hlen
      · rw [insertUser_of_room hg he hlen, insertUser_of_room hg he hlen]
      · obtain ⟨f, q, hq⟩ := List.exists_cons_of_length_pos (Nat.lt_of_lt_of_le (by decide) hlen)
        rw [hq] at hlen
        have hf := h f (probed_of_full hg he hq hlen)
        cases hw : w f with
        | true =>
          rw [insertUser_of_working hg he hq hlen hw,
            insertUser_of_working hg he hq hlen (hf.symm.trans hw)]
        | false =>
          rw [insertUser_of_not_working hg he hq hlen hw,
            insertUser_of_not_working hg he hq hlen (hf.symm.trans hw)]
    · rw [insertUser_of_erased hg he, insertUser_of_erased hg he]

end Probed

/-- The catalogue after a call. -/
def afterCall (c : UserCatalogue σ) (call : InsertCall) : UserCatalogue σ :=
  (c.insertUser call.isClientWorking call.ip call.file).1

variable [LawfulUserSet σ]

/-- A call is `SecondChance.insert` on the queue of its group, and leaves the group in order. -/
structure Refined (c : UserCatalogue σ) (w : Str → Bool) (ip : Str) (file : ℤ) : Prop where
  queue : (c.insertUser w ip file).1.queue (processIP ip) =
    SecondChance.insert kMaxCacheUsers w (c.queue (processIP ip)) ip
  probed : c.probed ip file = SecondChance.asked kMaxCacheUsers (c.queue (processIP ip)) ip
  outcome : (c.insertUser w ip file).2 = .rejected ↔ ∃ f, c.probed ip file = some f ∧ w f = true
  group : GroupOk ((c.insertUser w ip file).1.records (processIP ip))
    ((c.insertUser w ip file).1.queue (processIP ip))

section Refines

variable {c : UserCatalogue σ} {w : Str → Bool} {ip : Str} {file : ℤ}

/-- A call that writes back a set with the IPs of the queue. -/
theorem refined_of_store (hgroup : GroupOk (c.records (processIP ip)) (c.queue (processIP ip)))
    {uset : σ} {q : List Str} (hr : c.insertUser w ip file =
      (c.store (processIP ip) uset q, .stored))
    (hmem : ∀ ip', ip' ∈ setIPs uset ↔ ip' ∈ q)
    (h : SecondChance.insert kMaxCacheUsers w (c.queue (processIP ip)) ip = q ∧
      SecondChance.asked kMaxCacheUsers (c.queue (processIP ip)) ip = c.probed ip file)
    (hprobed : ∀ f, c.probed ip file = some f → w f = false) : Refined c w ip file where
  queue := by rw [hr, queue_store_self, h.1]
  probed := h.2.symm
  outcome := by
    rw [hr]
    refine iff_of_false (fun heq => by cases heq) ?_
    rintro ⟨f, hf, hw⟩
    exact absurd (hw.symm.trans (hprobed f hf)) (by decide)
  group := by
    rw [hr, records_store_self, queue_store_self]
    refine ⟨LawfulUserSet.nodup uset, hmem, ?_, ?_⟩
    · rw [← h.1]
      exact SecondChance.nodup_insert hgroup.nodup_queue
    · rw [← h.1]
      exact SecondChance.length_insert_le hgroup.length_le

/-- A call of a group that is full asks its first IP. -/
theorem refined_of_full {uset : σ}
    (hgroup : GroupOk (c.records (processIP ip)) (c.queue (processIP ip)))
    (hips : ∀ ip', ip' ∈ setIPs uset ↔ ip' ∈ c.queue (processIP ip))
    (hg : c.users[processIP ip]? = some uset) (he : (UserSet.erase ⟨ip, file⟩ uset).2 = 0)
    {f : Str} {q : List Str} (hq : c.queue (processIP ip) = f :: q)
    (hlen : kMaxCacheUsers ≤ (f :: q).length) (hnot : ip ∉ f :: q) : Refined c w ip file := by
  obtain ⟨hinsert, hasked⟩ := SecondChance.insert_of_full w hnot hlen
  have hprobed := probed_of_full hg he hq hlen
  rw [← hprobed] at hasked
  cases hw : w f with
  | true =>
    have hr := insertUser_of_working hg he hq hlen hw
    rw [hw, if_pos rfl] at hinsert
    have hqueue : (c.insertUser w ip file).1.queue (processIP ip) = q ++ [f] := by
      rw [hr]
      simp [queue]
    refine ⟨by rw [hqueue, hq, hinsert], by rw [hq, hasked], ?_, ?_⟩
    · rw [hr]
      exact iff_of_true rfl ⟨f, hprobed, hw⟩
    · rw [hqueue, hr]
      rw [hq] at hgroup
      exact hgroup.rotate
  | false =>
    rw [hw, if_neg (by decide)] at hinsert
    have hfq : f ∉ q := (List.nodup_cons.1 (hq ▸ hgroup.nodup_queue)).1
    refine refined_of_store hgroup (insertUser_of_not_working hg he hq hlen hw)
      (fun ip' => ?_) ⟨by rw [hq, hinsert], by rw [hq, hasked]⟩
      (by rw [hprobed]; rintro f' ⟨⟩; exact hw)
    rw [mem_setIPs_insert, mem_setIPs_erase, mem_setIPs_erase, hips, hq, List.mem_append,
      List.mem_singleton, List.mem_cons]
    constructor
    · rintro (h | ⟨⟨h | h, -⟩, hne⟩)
      · exact .inr h
      · exact absurd h hne
      · exact .inl h
    · rintro (h | h)
      · exact .inr ⟨⟨.inr h, ne_of_mem_of_not_mem (List.mem_cons_of_mem f h) hnot⟩,
          ne_of_mem_of_not_mem h hfq⟩
      · exact .inl h

/-- The five ways through `insertUser` are those through `SecondChance.insert`. -/
theorem insertUser_refines (hc : c.Consistent) (w : Str → Bool) (ip : Str) (file : ℤ) :
    Refined c w ip file := by
  have hgroup := hc (processIP ip)
  cases hg : c.users[processIP ip]? with
  | none =>
    have hrecords : c.records (processIP ip) = [] := by simp [records, hg]
    have hq : c.queue (processIP ip) = [] := (hrecords ▸ hgroup).queue_eq_nil
    refine refined_of_store hgroup (insertUser_of_none hg) (fun ip' => ?_) ?_
      (by simp [probed_of_none hg])
    · rw [mem_setIPs_insert, nil_of_empty, hq]
      simp
    · rw [probed_of_none hg, hq]
      exact SecondChance.insert_of_room (by simp) (by decide)
  | some uset =>
    -- the set and the queue have the same IPs
    have hips : ∀ ip', ip' ∈ setIPs uset ↔ ip' ∈ c.queue (processIP ip) := by
      intro ip'
      rw [← hgroup.mem_iff, records, hg]
      rfl
    by_cases he : (UserSet.erase ⟨ip, file⟩ uset).2 = 0
    · have hnot : ip ∉ c.queue (processIP ip) := by
        rw [← hips]
        exact erase_snd_eq_zero.1 he
      rcases Nat.lt_or_ge (c.queue (processIP ip)).length kMaxCacheUsers with hlen | hlen
      · refine refined_of_store hgroup (insertUser_of_room hg he hlen) (fun ip' => ?_) ?_
          (by simp [probed_of_room hg hlen])
        · rw [mem_setIPs_insert_erase, hips, List.mem_append, List.mem_singleton, or_comm]
        · rw [probed_of_room hg hlen]
          exact SecondChance.insert_of_room hnot hlen
      · obtain ⟨f, q, hq⟩ := List.exists_cons_of_length_pos (Nat.lt_of_lt_of_le (by decide) hlen)
        rw [hq] at hlen hnot
        exact refined_of_full hgroup hips hg he hq hlen hnot
    · have hin : ip ∈ c.queue (processIP ip) := by
        rw [← hips]
        by_contra hnot
        exact he (erase_snd_eq_zero.2 hnot)
      refine refined_of_store hgroup (insertUser_of_erased hg he) (fun ip' => ?_) ?_
        (by simp [probed_of_erased hg he])
      · rw [mem_setIPs_insert_erase, hips]
        exact or_iff_right_of_imp fun heq => heq ▸ hin
      · rw [probed_of_erased hg he]
        exact SecondChance.insert_of_mem hin

end Refines

/-! ### Runs -/

theorem consistent_afterCall {c : UserCatalogue σ} (hc : c.Consistent) (call : InsertCall) :
    (c.afterCall call).Consistent :=
  (consistent_insertUser_iff hc _ _ _).2 (insertUser_refines hc _ _ _).group

theorem lawful_init (ip : Str) (file : ℤ) : (init ip file : UserCatalogue σ).Consistent := by
  intro g
  by_cases hg : processIP ip = g
  · subst hg
    have hrecords : (init ip file : UserCatalogue σ).records (processIP ip) =
        UserSet.elems (UserSet.insert ⟨ip, file⟩ (UserSet.empty : σ)) := by simp [records, init]
    have hq : (init ip file : UserCatalogue σ).queue (processIP ip) = [ip] := by simp [queue, init]
    rw [hrecords, hq]
    refine ⟨LawfulUserSet.nodup _, fun ip' => ?_, List.nodup_singleton ip, by simp [kMaxCacheUsers]⟩
    exact mem_setIPs_insert.trans (by simp [nil_of_empty])
  · have hrecords : (init ip file : UserCatalogue σ).records g = [] := by simp [records, init, hg]
    have hq : (init ip file : UserCatalogue σ).queue g = [] := by simp [queue, init, hg]
    rw [hrecords, hq]
    exact groupOk_nil

/-- In every run the set and the queue of a group agree. -/
theorem consistent_run {c : UserCatalogue σ} (hc : c.Consistent) (calls : List InsertCall) :
    (Runs.run afterCall c calls).Consistent :=
  Runs.run_invariant (I := Consistent)
    (fun _ call _ hc => consistent_afterCall hc call) hc

omit [LawfulUserSet σ] in
theorem Consistent.recorded_iff {c : UserCatalogue σ} (hc : c.Consistent) {g ip : Str} :
    c.Recorded g ip ↔ ip ∈ c.queue g := (hc g).mem_iff ip

/-- What a call asks of a group. -/
def request (g : Str) (call : InsertCall) : Option Str :=
  if processIP call.ip = g then some call.ip else none

theorem length_requests (g : Str) (calls : List InsertCall) :
    ((calls.map (request g)).filterMap id).length =
      (calls.filter fun call => processIP call.ip = g).length := by
  rw [List.filterMap_map]
  induction calls with
  | nil => rfl
  | cons call calls ih =>
    by_cases hg : processIP call.ip = g
    · simp [request, hg, ← ih]
    · simp [request, hg, ← ih]

theorem queue_afterCall {c : UserCatalogue σ} (hc : c.Consistent) (call : InsertCall) (g : Str) :
    (c.afterCall call).queue g =
      SecondChance.step kMaxCacheUsers call.isClientWorking (c.queue g) (request g call) := by
  by_cases hg : processIP call.ip = g
  · subst hg
    rw [request, if_pos rfl, SecondChance.step, ← (insertUser_refines hc _ _ call.file).queue]
    rfl
  · rw [request, if_neg hg, SecondChance.step]
    exact (insertUser_of_ne c _ _ _ hg).2

/-- Each group is a queue with second chances while the same IPs work. -/
theorem queue_run {c : UserCatalogue σ} (hc : c.Consistent) {w : Str → Bool}
    {calls : List InsertCall} (hw : ∀ call ∈ calls, call.isClientWorking = w) (g : Str) :
    (Runs.run afterCall c calls).queue g =
      Runs.run (SecondChance.step kMaxCacheUsers w) (c.queue g) (calls.map (request g)) := by
  induction calls generalizing c with
  | nil => rfl
  | cons call calls ih =>
    obtain ⟨hcall, hcalls⟩ := List.forall_mem_cons.1 hw
    rw [Runs.run_cons, ih (consistent_afterCall hc call) hcalls, queue_afterCall hc, hcall]
    rfl

/-- The call is admitted, in the place of an IP of its group that is not working. -/
def Replaces (c : UserCatalogue σ) (call : InsertCall) : Prop :=
  let g := processIP call.ip
  (c.insertUser call.isClientWorking call.ip call.file).2 = .stored ∧
    ∃ f q, c.queue g = f :: q ∧ call.isClientWorking f = false ∧
      (c.afterCall call).queue g = q ++ [call.ip] ∧
      ∀ ip, (c.afterCall call).Recorded g ip ↔ ip ∈ q ∨ ip = call.ip

theorem replaces_of_replaced {c : UserCatalogue σ} (hc : c.Consistent) {call : InsertCall}
    (h : SecondChance.Replaced kMaxCacheUsers call.isClientWorking
      (c.queue (processIP call.ip)) call.ip) : Replaces c call := by
  obtain ⟨hnot, hlen, f, q, hq, hw, hinsert⟩ := h
  have href := insertUser_refines hc call.isClientWorking call.ip call.file
  have hqueue : (c.afterCall call).queue (processIP call.ip) = q ++ [call.ip] :=
    href.queue.trans hinsert
  refine ⟨?_, f, q, hq, hw, hqueue, fun ip => ?_⟩
  · have hprobed : c.probed call.ip call.file = some f := by
      rw [hq] at hnot hlen
      rw [href.probed, hq]
      exact (SecondChance.insert_of_full call.isClientWorking hnot hlen).2
    cases hout : (c.insertUser call.isClientWorking call.ip call.file).2 with
    | stored => rfl
    | rejected =>
      obtain ⟨f', hf', hw'⟩ := href.outcome.1 hout
      obtain rfl := Option.some.inj (hprobed.symm.trans hf')
      exact absurd (hw.symm.trans hw') (by decide)
  · rw [(consistent_afterCall hc call).recorded_iff, hqueue, List.mem_append, List.mem_singleton]

/-- A group that is full, with a member that is not working, admits one of three newcomers. -/
theorem exists_replaces {c : UserCatalogue σ} (hc : c.Consistent) {g : Str} {w : Str → Bool}
    {calls : List InsertCall} (hfull : (c.queue g).length = kMaxCacheUsers)
    (hdead : ∃ d ∈ c.queue g, w d = false) (hw : ∀ call ∈ calls, call.isClientWorking = w)
    (hcount : 3 ≤ (calls.filter fun call => processIP call.ip = g).length)
    (hnew : (∀ call ∈ calls, processIP call.ip = g → ¬ c.Recorded g call.ip) ∨
      Runs.EveryStep afterCall (fun c call _ => processIP call.ip = g → ¬ c.Recorded g call.ip) c
        calls) :
    ∃ pre call post, calls = pre ++ call :: post ∧ processIP call.ip = g ∧
      Replaces (Runs.run afterCall c pre) call := by
  -- the calls of the group among all the calls
  have hsplit : ∀ pre a post, calls.map (request g) = pre ++ some a :: post →
      ∃ pre' call post', calls = pre' ++ call :: post' ∧ pre'.map (request g) = pre ∧
        processIP call.ip = g ∧ call.ip = a := by
    intro pre a post h
    obtain ⟨pre', rest, rfl, rfl, hrest⟩ := List.map_eq_append_iff.1 h
    obtain ⟨call, post', rfl, hcall, -⟩ := List.map_eq_cons_iff.1 hrest
    rw [request] at hcall
    split_ifs at hcall with hg
    exact ⟨pre', call, post', rfl, rfl, hg, Option.some.inj hcall⟩
  obtain ⟨pre, a, post, h, hreplaced⟩ := SecondChance.exists_replaced
    (calls.map (request g)) hdead hfull.ge
    (by rw [hfull, length_requests]; exact hcount) (by
      intro pre a post h hperm
      obtain ⟨pre, call, post, rfl, rfl, hg, rfl⟩ := hsplit pre a post h
      have hpre : ∀ call ∈ pre, call.isClientWorking = w :=
        fun call hcall => hw call (List.mem_append_left _ hcall)
      rw [← queue_run hc hpre] at hperm
      rcases hnew with hnew | hnew
      · rw [← hc.recorded_iff]
        exact hnew call (List.mem_append_right _ List.mem_cons_self) hg
      · rw [← hperm.mem_iff, ← (consistent_run hc pre).recorded_iff]
        exact hnew pre call post rfl hg)
  obtain ⟨pre, call, post, rfl, rfl, hg, rfl⟩ := hsplit pre a post h
  refine ⟨pre, call, post, rfl, hg, replaces_of_replaced (consistent_run hc pre) ?_⟩
  have hpre : ∀ call ∈ pre, call.isClientWorking = w :=
    fun call hcall => hw call (List.mem_append_left _ hcall)
  rw [hg, queue_run hc hpre, hw call (List.mem_append_right _ List.mem_cons_self)]
  exact hreplaced

/-- An IP that leaves the queue or the set of its group was asked, and did not answer. -/
theorem probed_of_gone {c : UserCatalogue σ} (hc : c.Consistent) (call : InsertCall) {g ip : Str}
    (hin : ip ∈ c.queue g ∨ c.Recorded g ip)
    (hgone : ip ∉ (c.afterCall call).queue g ∨ ¬ (c.afterCall call).Recorded g ip) :
    processIP call.ip = g ∧ c.probed call.ip call.file = some ip ∧
      call.isClientWorking ip = false ∧ ip ∉ (c.afterCall call).queue g ∧
      ¬ (c.afterCall call).Recorded g ip := by
  rw [hc.recorded_iff, or_self] at hin
  rw [(consistent_afterCall hc call).recorded_iff, or_self] at hgone
  rw [(consistent_afterCall hc call).recorded_iff]
  have hg : processIP call.ip = g := by
    by_contra hne
    rw [queue_afterCall hc, request, if_neg hne] at hgone
    exact hgone hin
  subst hg
  have href := insertUser_refines hc call.isClientWorking call.ip call.file
  have hgone' := hgone
  rw [afterCall, href.queue] at hgone'
  obtain ⟨hasked, hnot⟩ := SecondChance.asked_of_gone hin hgone'
  exact ⟨rfl, href.probed.trans hasked, hnot, hgone, hgone⟩

/-- **Second-chance replacement.** In every catalogue that is reached: when a group is full and a
member of it is not working, then among three calls with IPs that are not recorded in it, at the
start or when they are made, one is admitted in the place of an IP that is not working, as long as
the same IPs work; and an IP leaves the queue or the set of its group only in a call in which its
own probe answers that it is not working, and then both, while all other groups stay. -/
theorem secondChance_run (ip₀ : Str) (file₀ : ℤ) (calls₀ : List InsertCall) :
    let c : UserCatalogue σ := Runs.run afterCall (init ip₀ file₀) calls₀
    (∀ (g : Str) (w : Str → Bool) (calls : List InsertCall),
      (c.queue g).length = kMaxCacheUsers → (∃ d ∈ c.queue g, w d = false) →
      (∀ call ∈ calls, call.isClientWorking = w) →
      3 ≤ (calls.filter fun call => processIP call.ip = g).length →
      ((∀ call ∈ calls, processIP call.ip = g → ¬ c.Recorded g call.ip) ∨
        Runs.EveryStep afterCall (fun c call _ => processIP call.ip = g → ¬ c.Recorded g call.ip)
          c calls) →
      ∃ pre call post, calls = pre ++ call :: post ∧ processIP call.ip = g ∧
        Replaces (Runs.run afterCall c pre) call) ∧
    ∀ (call : InsertCall) (g ip : Str), ip ∈ c.queue g ∨ c.Recorded g ip →
      ip ∉ (c.afterCall call).queue g ∨ ¬ (c.afterCall call).Recorded g ip →
      (processIP call.ip = g ∧ c.probed call.ip call.file = some ip ∧
        call.isClientWorking ip = false ∧ ip ∉ (c.afterCall call).queue g ∧
        ¬ (c.afterCall call).Recorded g ip) ∧
      ∀ g', g' ≠ g → (c.afterCall call).records g' = c.records g' ∧
        (c.afterCall call).queue g' = c.queue g' := by
  intro c
  have hc : c.Consistent := consistent_run (lawful_init ip₀ file₀) calls₀
  refine ⟨fun g w calls hfull hdead hw hcount hnew =>
    exists_replaces hc hfull hdead hw hcount hnew, fun call g ip hin hgone => ?_⟩
  have hprobed := probed_of_gone hc call hin hgone
  exact ⟨hprobed, fun g' hg' => insertUser_of_ne c _ _ _ fun heq =>
    hg' (heq.symm.trans hprobed.1)⟩

/-- The second of three members is not working, and three others ask for a place. -/
theorem secondChance_run_full :
    let asks := fun ip => (⟨fun k => k ≠ lit "2222", lit ip, 1⟩ : InsertCall)
    let c : UserCatalogue UserList :=
      Runs.run afterCall (init (lit "2221") 1) [asks "2222", asks "2223"]
    ∃ pre call post, [asks "2224", asks "2225", asks "2226"] = pre ++ call :: post ∧
      processIP call.ip = lit "222" ∧ Replaces (Runs.run afterCall c pre) call := by
  intro asks c
  exact (secondChance_run (lit "2221") 1 [asks "2222", asks "2223"]).1 (lit "222")
    (fun k => k ≠ lit "2222") [asks "2224", asks "2225", asks "2226"] (by decide +kernel)
    ⟨lit "2222", by decide +kernel⟩ (by simp [asks]) (by decide +kernel)
    (.inl (by decide +kernel))

end UserCatalogue

end Huaweip2p
