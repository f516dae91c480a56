import Huaweip2p.Base.Access
import Huaweip2p.Lib.Runs
import Huaweip2p.Lib.UnequalKeys

/-!
# The server's catalogue of users

`UserCatalogue` groups the registered users by the first three characters of their IP. Each group
has a `set<UserInfo>` of records and a queue of the same IPs, of at most `kMaxCacheUsers` entries,
that decides who is asked to make room for a newcomer.

The catalogue is written over any `UserSet`; `RbTree UserInfo` searched with `UserInfo.lt` is the
one the program has. `Consistent` is what the two containers of a group owe each other.
-/

namespace Huaweip2p

/-- `struct UserInfo`. -/
structure UserInfo where
  userIP : Str
  userFile : ℤ
  deriving DecidableEq, Repr

/-- `UserInfo::operator<`: the `int` that `compare` returns, converted to `bool`. -/
def UserInfo.lt (u t : UserInfo) : Bool := decide (strCompare u.userIP t.userIP ≠ 0)

/-- The operator is true of any two records with different IPs. -/
theorem UserInfo.lt_eq_unequal : UserInfo.lt = RbTree.unequal UserInfo.userIP := by
  funext u t
  simp only [UserInfo.lt, RbTree.unequal, ne_eq, strCompare_eq_zero]

/-- What the catalogue asks of `set<UserInfo>`: `insert`, `erase` by key with the number of
records erased, and the records from `begin()` to `end()`. -/
class UserSet (σ : Type) where
  empty : σ
  insert : UserInfo → σ → σ
  erase : UserInfo → σ → σ × ℕ
  elems : σ → List UserInfo

/-- `std::set<UserInfo>` as libstdc++ has it. -/
instance : UserSet (RbTree UserInfo) where
  empty := .nil
  insert := RbTree.insertUnique UserInfo.lt
  erase := RbTree.eraseKey UserInfo.lt
  elems := RbTree.toList

/-- `class UserCatalogue`. -/
structure UserCatalogue (σ : Type) where
  users : Std.ExtTreeMap Str σ
  userQue : Std.ExtTreeMap Str (List Str)

/-- How a call of `insertUser` ends: at its end, or at the early `return`. -/
inductive InsertOutcome
  | stored
  | rejected
  deriving DecidableEq, Repr

namespace UserCatalogue

/-- `MAXQUE`, the value of `kMaxCacheUsers`. -/
def kMaxCacheUsers : ℕ := 3

/-- `processIP`: the group of an IP. -/
def processIP (ip : Str) : Str := ip.take 3

variable {σ : Type} [UserSet σ]

/-- `userQue[g]`; `operator[]` makes an absent queue an empty one. -/
def queue (c : UserCatalogue σ) (g : Str) : List Str := c.userQue[g]?.getD []

/-- The records of `users[g]`. -/
def records (c : UserCatalogue σ) (g : Str) : List UserInfo :=
  (c.users[g]?.map UserSet.elems).getD []

/-- The constructor. -/
def init (ip : Str) (file : ℤ) : UserCatalogue σ where
  users := (∅ : Std.ExtTreeMap Str σ).insert (processIP ip) (UserSet.insert ⟨ip, file⟩ UserSet.empty)
  userQue := (∅ : Std.ExtTreeMap Str (List Str)).insert (processIP ip) [ip]

/-- Write back `users[g]` and `userQue[g]`. -/
def store (c : UserCatalogue σ) (g : Str) (uset : σ) (q : List Str) : UserCatalogue σ where
  users := c.users.insert g uset
  userQue := c.userQue.insert g q

/-- `insertUser`; `isClientWorking` is the answer of each probe. -/
def insertUser (c : UserCatalogue σ) (isClientWorking : Str → Bool) (ip : Str) (file : ℤ) :
    UserCatalogue σ × InsertOutcome :=
  let g := processIP ip
  let usr : UserInfo := ⟨ip, file⟩
  match c.users[g]? with
  | none => (c.store g (UserSet.insert usr UserSet.empty) (c.queue g ++ [ip]), .stored)
  | some uset =>
    let (uset, erased) := UserSet.erase usr uset
    if erased = 0 then
      let q := c.queue g
      if q.length < kMaxCacheUsers then
        (c.store g (UserSet.insert usr uset) (q ++ [ip]), .stored)
      else
        let firstIP := q.headD []
        if isClientWorking firstIP then
          -- `users` is not written back on this path
          ({ c with userQue := c.userQue.insert g (q.tail ++ [firstIP]) }, .rejected)
        else
          -- `userFile` of the record to erase is uninitialised in the source; no comparison reads it
          let uset := (UserSet.erase ⟨firstIP, 0⟩ uset).1
          (c.store g (UserSet.insert usr uset) (q.tail ++ [ip]), .stored)
    else
      (c.store g (UserSet.insert usr uset) (c.queue g), .stored)

/-- `users.find(processIP(ip))`, dereferenced. -/
def lookup (c : UserCatalogue σ) (ip : Str) : Traced Access σ :=
  .emit (.find (c.users[processIP ip]?).isSome) c.users[processIP ip]?

/-- `hasNeighbor`: the number of users except the IP itself. -/
def hasNeighbor (c : UserCatalogue σ) (ip : Str) : Traced Access ℤ := do
  let uset ← c.lookup ip
  return ((UserSet.elems uset).length : ℤ) - 1

/-- `getNeighborUsers`. -/
def getNeighborUsers (c : UserCatalogue σ) (ip : Str) : Traced Access σ := c.lookup ip

section Store

variable (c : UserCatalogue σ) (uset : σ) (q : List Str)

omit [UserSet σ] in
@[simp] theorem queue_store_self (g : Str) : (c.store g uset q).queue g = q := by
  simp [store, queue]

@[simp] theorem records_store_self (g : Str) :
    (c.store g uset q).records g = UserSet.elems uset := by simp [store, records]

omit [UserSet σ] in
theorem queue_store_of_ne {g g' : Str} (h : g ≠ g') :
    (c.store g uset q).queue g' = c.queue g' := by
  simp [store, queue, Std.ExtTreeMap.getElem?_insert, h]

theorem records_store_of_ne {g g' : Str} (h : g ≠ g') :
    (c.store g uset q).records g' = c.records g' := by
  simp [store, records, Std.ExtTreeMap.getElem?_insert, h]

end Store

/-! ### The five ways through `insertUser` -/

section Insert

variable {c : UserCatalogue σ} {w : Str → Bool} {ip : Str} {file : ℤ} {uset : σ}

/-- The first registration of a group. -/
theorem insertUser_of_none (hg : c.users[processIP ip]? = none) :
    c.insertUser w ip file =
      (c.store (processIP ip) (UserSet.insert ⟨ip, file⟩ UserSet.empty)
        (c.queue (processIP ip) ++ [ip]), .stored) := by
  simp only [insertUser, hg]

/-- A registration whose old record was erased. -/
theorem insertUser_of_erased (hg : c.users[processIP ip]? = some uset)
    (he : (UserSet.erase ⟨ip, file⟩ uset).2 ≠ 0) :
    c.insertUser w ip file =
      (c.store (processIP ip) (UserSet.insert ⟨ip, file⟩ (UserSet.erase ⟨ip, file⟩ uset).1)
        (c.queue (processIP ip)), .stored) := by
  simp only [insertUser, hg, if_neg he]

/-- Admission to a group with a place left. -/
theorem insertUser_of_room (hg : c.users[processIP ip]? = some uset)
    (he : (UserSet.erase ⟨ip, file⟩ uset).2 = 0)
    (hq : (c.queue (processIP ip)).length < kMaxCacheUsers) :
    c.insertUser w ip file =
      (c.store (processIP ip) (UserSet.insert ⟨ip, file⟩ (UserSet.erase ⟨ip, file⟩ uset).1)
        (c.queue (processIP ip) ++ [ip]), .stored) := by
  simp only [insertUser, hg, if_pos he, if_pos hq]

/-- Rejection by a full group whose first IP is working. -/
theorem insertUser_of_working (hg : c.users[processIP ip]? = some uset)
    (he : (UserSet.erase ⟨ip, file⟩ uset).2 = 0) {f : Str} {q : List Str}
    (hq : c.queue (processIP ip) = f :: q) (hlen : kMaxCacheUsers ≤ (f :: q).length)
    (hw : w f = true) :
    c.insertUser w ip file =
      ({ c with userQue := c.userQue.insert (processIP ip) (q ++ [f]) }, .rejected) := by
  simp only [insertUser, hg, hq, if_pos he, if_neg (Nat.not_lt.2 hlen), List.headD_cons,
    List.tail_cons, if_pos hw]

/-- Admission in the place of a first IP that is not working. -/
theorem insertUser_of_not_working (hg : c.users[processIP ip]? = some uset)
    (he : (UserSet.erase ⟨ip, file⟩ uset).2 = 0) {f : Str} {q : List Str}
    (hq : c.queue (processIP ip) = f :: q) (hlen : kMaxCacheUsers ≤ (f :: q).length)
    (hw : w f = false) :
    c.insertUser w ip file =
      (c.store (processIP ip)
        (UserSet.insert ⟨ip, file⟩ (UserSet.erase ⟨f, 0⟩ (UserSet.erase ⟨ip, file⟩ uset).1).1)
        (q ++ [ip]), .stored) := by
  simp only [insertUser, hg, hq, if_pos he, if_neg (Nat.not_lt.2 hlen), List.headD_cons,
    List.tail_cons, hw, Bool.false_eq_true, if_false]

end Insert

/-- What a call can do: write back a set made of the group's records, after some erasures, and the
new one; or leave the sets and change the queue of a group there is. -/
theorem insertUser_cases (c : UserCatalogue σ) (w : Str → Bool) (ip : Str) (file : ℤ) :
    (∃ uset q, c.insertUser w ip file =
        (c.store (processIP ip) (UserSet.insert ⟨ip, file⟩ uset) q, .stored) ∧
      (uset = UserSet.empty ∨ ∃ old, c.users[processIP ip]? = some old ∧
        (uset = (UserSet.erase ⟨ip, file⟩ old).1 ∨
          ∃ firstIP, uset =
            (UserSet.erase ⟨firstIP, 0⟩ (UserSet.erase ⟨ip, file⟩ old).1).1))) ∨
      ∃ old q, c.users[processIP ip]? = some old ∧
        c.insertUser w ip file =
          ({ c with userQue := c.userQue.insert (processIP ip) q }, .rejected) := by
  cases hg : c.users[processIP ip]? with
  | none => exact .inl ⟨_, _, insertUser_of_none hg, .inl rfl⟩
  | some old =>
    by_cases he : (UserSet.erase ⟨ip, file⟩ old).2 = 0
    · rcases Nat.lt_or_ge (c.queue (processIP ip)).length kMaxCacheUsers with hlen | hlen
      · exact .inl ⟨_, _, insertUser_of_room hg he hlen, .inr ⟨old, rfl, .inl rfl⟩⟩
      · obtain ⟨f, q, hq⟩ := List.exists_cons_of_length_pos (Nat.lt_of_lt_of_le (by decide) hlen)
        rw [hq] at hlen
        cases hw : w f with
        | true => exact .inr ⟨old, _, rfl, insertUser_of_working hg he hq hlen hw⟩
        | false =>
          exact .inl ⟨_, _, insertUser_of_not_working hg he hq hlen hw,
            .inr ⟨old, rfl, .inr ⟨f, rfl⟩⟩⟩
    · exact .inl ⟨_, _, insertUser_of_erased hg he, .inr ⟨old, rfl, .inl rfl⟩⟩

/-! ### Consistency -/

/-- The records and the queue of a group agree: one record and one queue entry for each IP, and at
most `kMaxCacheUsers` of them. -/
structure GroupOk (records : List UserInfo) (queue : List Str) : Prop where
  nodup_records : (records.map UserInfo.userIP).Nodup
  mem_iff : ∀ ip, ip ∈ records.map UserInfo.userIP ↔ ip ∈ queue
  nodup_queue : queue.Nodup
  length_le : queue.length ≤ kMaxCacheUsers

/-- Every group of the catalogue is in order. -/
def Consistent (c : UserCatalogue σ) : Prop := ∀ g, GroupOk (c.records g) (c.queue g)

theorem groupOk_nil : GroupOk [] [] :=
  ⟨List.nodup_nil, fun _ => Iff.rfl, List.nodup_nil, Nat.zero_le _⟩

theorem GroupOk.queue_eq_nil {q : List Str} (h : GroupOk [] q) : q = [] :=
  List.eq_nil_iff_forall_not_mem.2 fun ip hip => by simpa using (h.mem_iff ip).2 hip

/-- A registered IP gets a new record. -/
theorem GroupOk.replace {xs ys : List UserInfo} {u v : UserInfo} {q : List Str}
    (h : GroupOk (xs ++ v :: ys) q) (hv : v.userIP = u.userIP) : GroupOk (u :: (xs ++ ys)) q := by
  have hperm : ((u :: (xs ++ ys)).map UserInfo.userIP).Perm
      ((xs ++ v :: ys).map UserInfo.userIP) := by
    simp only [List.map_cons, List.map_append, ← hv]
    exact List.perm_middle.symm
  exact
    { nodup_records := hperm.nodup_iff.2 h.nodup_records
      mem_iff := fun ip => (hperm.mem_iff).trans (h.mem_iff ip)
      nodup_queue := h.nodup_queue
      length_le := h.length_le }

/-- A new IP gets a record and a place at the end of the queue. -/
theorem GroupOk.push {rs : List UserInfo} {u : UserInfo} {q : List Str} (h : GroupOk rs q)
    (hu : u.userIP ∉ q) (hq : q.length < kMaxCacheUsers) : GroupOk (u :: rs) (q ++ [u.userIP]) where
  nodup_records := List.nodup_cons.2 ⟨fun hm => hu ((h.mem_iff _).1 hm), h.nodup_records⟩
  mem_iff ip := by
    have := h.mem_iff ip
    simp only [List.map_cons, List.mem_cons, List.mem_append, List.not_mem_nil, or_false]
    tauto
  nodup_queue := List.nodup_append.2 ⟨h.nodup_queue, by simp, by
    intro a ha b hb e
    rw [List.mem_singleton] at hb
    exact hu (hb ▸ e ▸ ha)⟩
  length_le := by
    rw [List.length_append, List.length_singleton]
    omega

/-- The first entry of the queue goes to its end. -/
theorem GroupOk.rotate {rs : List UserInfo} {f : Str} {q : List Str} (h : GroupOk rs (f :: q)) :
    GroupOk rs (q ++ [f]) := by
  have hperm : (q ++ [f]).Perm (f :: q) := List.perm_append_singleton f q
  exact
    { nodup_records := h.nodup_records
      mem_iff := fun ip => (h.mem_iff ip).trans hperm.mem_iff.symm
      nodup_queue := hperm.nodup_iff.2 h.nodup_queue
      length_le := hperm.length_eq ▸ h.length_le }

/-- The first entry of the queue loses its record and its place. -/
theorem GroupOk.pop {xs ys : List UserInfo} {v : UserInfo} {q : List Str}
    (h : GroupOk (xs ++ v :: ys) (v.userIP :: q)) : GroupOk (xs ++ ys) q := by
  have hperm : ((xs ++ v :: ys).map UserInfo.userIP).Perm
      (v.userIP :: (xs ++ ys).map UserInfo.userIP) := by
    simp only [List.map_append, List.map_cons]
    exact List.perm_middle
  obtain ⟨hv, hrs⟩ := List.nodup_cons.1 (hperm.nodup_iff.1 h.nodup_records)
  obtain ⟨hvq, hq⟩ := List.nodup_cons.1 h.nodup_queue
  refine ⟨hrs, fun ip => ?_, hq, Nat.le_of_succ_le h.length_le⟩
  have hmem := (hperm.mem_iff (a := ip)).symm.trans (h.mem_iff ip)
  simp only [List.mem_cons] at hmem
  by_cases hip : ip = v.userIP
  · subst hip
    exact iff_of_false hv hvq
  · simpa [hip] using hmem

/-- A call changes one group only. -/
theorem insertUser_of_ne (c : UserCatalogue σ) (w : Str → Bool) (ip : Str) (file : ℤ) {g : Str}
    (h : processIP ip ≠ g) :
    (c.insertUser w ip file).1.records g = c.records g ∧
      (c.insertUser w ip file).1.queue g = c.queue g := by
  rcases c.insertUser_cases w ip file with ⟨uset, q, heq, -⟩ | ⟨old, q, -, heq⟩
  · rw [heq]
    exact ⟨records_store_of_ne c _ _ h, queue_store_of_ne c _ _ h⟩
  · rw [heq]
    exact ⟨rfl, by simp [queue, Std.ExtTreeMap.getElem?_insert, h]⟩

/-- After a call the catalogue is consistent when the group of the IP is. -/
theorem consistent_insertUser_iff {c : UserCatalogue σ} (hc : c.Consistent) (w : Str → Bool)
    (ip : Str) (file : ℤ) :
    (c.insertUser w ip file).1.Consistent ↔
      GroupOk ((c.insertUser w ip file).1.records (processIP ip))
        ((c.insertUser w ip file).1.queue (processIP ip)) := by
  refine ⟨fun h => h _, fun h g => ?_⟩
  by_cases hg : processIP ip = g
  · exact hg ▸ h
  · obtain ⟨h₁, h₂⟩ := insertUser_of_ne c w ip file hg
    rw [h₁, h₂]
    exact hc g

end UserCatalogue

end Huaweip2p
