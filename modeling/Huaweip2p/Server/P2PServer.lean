import Huaweip2p.Base.Message
import Huaweip2p.Server.UserCatalogue

/-!
# The server

`P2PServer::onStringMessage` and the functions that build its reply, over any set of users, and
the lookups that a run of it makes. `hasNeighbor` is called on every message, before anything is
registered, and dereferences what `find` returns: `serve_found_iff` says which runs that suits.
-/

namespace Huaweip2p.P2PServer

open UserCatalogue

variable {σ : Type} [UserSet σ]

/-- `processMyself`. -/
def processMyself (_ip : Str) : Str := (lit "11111").set 0 (intToChar 1)

/-- The body of the loop of `retNeighborIP`: the string and the number of users so far. -/
def appendNeighbor (ip : Str) (acc : Str × ℤ) (u : UserInfo) : Str × ℤ :=
  if u.userIP ≠ ip then (acc.1 ++ u.userIP ++ [intToChar u.userFile], acc.2 + 1) else acc

/-- `retNeighborIP`. -/
def retNeighborIP (c : UserCatalogue σ) (ip : Str) : Traced Access Str := do
  let neiset ← c.getNeighborUsers ip
  let (ret, num) := (UserSet.elems neiset).foldl (appendNeighbor ip) (lit "0", 0)
  return ret.set 0 (intToChar num)

/-- `P2PServer::processMessage`. -/
def processMessage (c : UserCatalogue σ) (ip : Str) : Traced Access Str := do
  if (← c.hasNeighbor ip) ≠ 0 then
    retNeighborIP c ip
  else
    return processMyself ip

/-- `P2PServer::onStringMessage`: the catalogue afterwards and what is done to the connection. The
answer of `hasNeighbor` to the unregistered IP is only printed. -/
def onStringMessage (c : UserCatalogue σ) (isClientWorking : Str → Bool) (message : Str) :
    Traced Access (UserCatalogue σ × List Effect) := do
  let r ← readRequest message
  let _ ← c.hasNeighbor r.ip
  if r.type = chr 'a' then
    let c' := (c.insertUser isClientWorking r.ip r.reqfile).1
    let reply ← processMessage c' r.ip
    return (c', [.send (lit "b0" ++ reply), .shutdown])
  else if r.type = chr 'c' then
    return (c, [.send (lit "d01111" ++ [intToChar 100])])
  else
    return (c, [])

/-- A message that arrives at the server, with the answers of the probes made while it is
handled. -/
structure Arrival where
  isClientWorking : Str → Bool
  message : Str

/-- The server handling messages one after the other. -/
def serve : UserCatalogue σ → List Arrival → Traced Access (UserCatalogue σ)
  | c, [] => pure c
  | c, a :: as => do
    let (c', _) ← onStringMessage c a.isClientWorking a.message
    serve c' as

/-! ### Lookups -/

/-- The group of the IP has records. -/
def HasGroup (c : UserCatalogue σ) (ip : Str) : Prop := (c.users[processIP ip]?).isSome = true

omit [UserSet σ] in
instance (c : UserCatalogue σ) (ip : Str) : Decidable (HasGroup c ip) :=
  inferInstanceAs (Decidable ((c.users[processIP ip]?).isSome = true))

/-- A call of `insertUser` leaves the groups there were and the group of its IP. -/
theorem isSome_users_insertUser (c : UserCatalogue σ) (w : Str → Bool) (ip : Str) (file : ℤ)
    (g : Str) :
    ((c.insertUser w ip file).1.users[g]?).isSome = true ↔
      (c.users[g]?).isSome = true ∨ g = processIP ip := by
  rcases c.insertUser_cases w ip file with ⟨uset, q, heq, -⟩ | ⟨old, q, hold, heq⟩
  · rw [heq]
    by_cases h : processIP ip = g
    · simp [store, h]
    · simp [store, Std.ExtTreeMap.getElem?_insert, h, Ne.symm h]
  · rw [heq]
    refine ⟨Or.inl, fun h => h.elim id ?_⟩
    rintro rfl
    simp [hold]

omit [UserSet σ] in
theorem found_lookup_iff (c : UserCatalogue σ) (ip : Str) :
    (c.lookup ip).All Access.Found ↔ HasGroup c ip := by
  simp [lookup, Access.Found, HasGroup]

theorem found_hasNeighbor_iff (c : UserCatalogue σ) (ip : Str) :
    (c.hasNeighbor ip).All Access.Found ↔ HasGroup c ip := by
  simp [hasNeighbor, Traced.all_bind, found_lookup_iff]

omit [UserSet σ] in
theorem val_lookup_isSome {c : UserCatalogue σ} {ip : Str} (h : HasGroup c ip) :
    ∃ t, c.users[processIP ip]? = some t ∧ (c.lookup ip).val = some t := by
  obtain ⟨t, ht⟩ := Option.isSome_iff_exists.1 h
  exact ⟨t, ht, ht⟩

/-- The reply is built without a failing lookup when the group is there. -/
theorem found_processMessage {c : UserCatalogue σ} {ip : Str} (h : HasGroup c ip) :
    (processMessage c ip).All Access.Found ∧ ∃ reply, (processMessage c ip).val = some reply := by
  obtain ⟨t, ht, hv⟩ := val_lookup_isSome h
  constructor
  · rw [processMessage, Traced.all_bind]
    refine ⟨(found_hasNeighbor_iff c ip).2 h, fun n _ => ?_⟩
    split_ifs
    · simp [retNeighborIP, getNeighborUsers, Traced.all_bind, (found_lookup_iff c ip).2 h]
    · simp
  · simp only [processMessage, hasNeighbor, Traced.val_bind, hv, Option.bind_some,
      Traced.val_pure]
    split_ifs
    · simp [retNeighborIP, getNeighborUsers, hv]
    · exact ⟨_, rfl⟩

/-- The lookups made for one message all succeed exactly when the group of its IP is there before
the message. -/
theorem found_onStringMessage_iff (c : UserCatalogue σ) (w : Str → Bool) {m : Str}
    (hm : 7 ≤ m.length) :
    (onStringMessage c w m).All Access.Found ↔ HasGroup c (ipField m) := by
  rw [onStringMessage, Traced.all_bind, val_readRequest hm]
  simp only [found_readRequest, true_and, Option.some.injEq, forall_eq', Traced.all_bind,
    found_hasNeighbor_iff]
  refine ⟨fun h => h.1, fun h => ⟨h, fun n _ => ?_⟩⟩
  split_ifs
  · have hg : HasGroup (c.insertUser w (ipField m) (charToInt m[6])).1 (ipField m) :=
      (isSome_users_insertUser c w _ _ _).2 (Or.inr rfl)
    simp [Traced.all_bind, (found_processMessage hg).1]
  · simp
  · simp

/-- A message whose lookups succeed is handled to the end, and leaves the groups there were. -/
theorem val_onStringMessage (c : UserCatalogue σ) (w : Str → Bool) {m : Str}
    (hm : 7 ≤ m.length) (hg : HasGroup c (ipField m)) :
    ∃ r : UserCatalogue σ × List Effect, (onStringMessage c w m).val = some r ∧
      ∀ g : Str, (r.1.users[g]?).isSome = true ↔ (c.users[g]?).isSome = true := by
  obtain ⟨t, ht, hv⟩ := val_lookup_isSome hg
  simp only [onStringMessage, Traced.val_bind, val_readRequest hm, Option.bind_some, hasNeighbor,
    hv, Traced.val_pure]
  split_ifs
  · have hg' : HasGroup (c.insertUser w (ipField m) (charToInt m[6])).1 (ipField m) :=
      (isSome_users_insertUser c w _ _ _).2 (Or.inr rfl)
    obtain ⟨reply, hr⟩ := (found_processMessage hg').2
    refine ⟨((c.insertUser w (ipField m) (charToInt m[6])).1,
      [.send (lit "b0" ++ reply), .shutdown]), by simp [hr], fun g => ?_⟩
    rw [isSome_users_insertUser]
    refine ⟨fun h => h.elim id ?_, Or.inl⟩
    rintro rfl
    exact hg
  · exact ⟨_, rfl, fun g => Iff.rfl⟩
  · exact ⟨_, rfl, fun g => Iff.rfl⟩

/-- From a catalogue whose only group is `g`, the lookups of a run all succeed exactly when every
message comes from that group. -/
theorem serve_found_iff_of_group {c : UserCatalogue σ} {g : Str}
    (hc : ∀ g' : Str, (c.users[g']?).isSome = true ↔ g' = g) {as : List Arrival}
    (has : ∀ a ∈ as, 7 ≤ a.message.length) :
    (serve c as).All Access.Found ↔ ∀ a ∈ as, processIP (ipField a.message) = g := by
  induction as generalizing c with
  | nil => simp [serve]
  | cons a as ih =>
    have ha : 7 ≤ a.message.length := has a List.mem_cons_self
    rw [serve, Traced.all_bind, found_onStringMessage_iff c _ ha, List.forall_mem_cons,
      HasGroup, hc]
    refine and_congr_right fun hg => ?_
    obtain ⟨r, hr, hgroups⟩ := val_onStringMessage c a.isClientWorking ha ((hc _).2 hg)
    rw [hr]
    simp only [Option.some.injEq, forall_eq']
    exact ih (fun g' => (hgroups g').trans (hc g')) fun b hb => has b (List.mem_cons_of_mem _ hb)

/-- **Lookups.** From the initial state of the server, on messages of at least seven bytes, no
lookup dereferences `end()` exactly when every message carries an IP of the group `"111"`, the one
the constructor makes for the server itself. -/
theorem serve_found_iff (as : List Arrival) (has : ∀ a ∈ as, 7 ≤ a.message.length) :
    (serve (init (lit "1111") 100 : UserCatalogue σ) as).All Access.Found ↔
      ∀ a ∈ as, processIP (ipField a.message) = lit "111" := by
  refine serve_found_iff_of_group (fun g => ?_) has
  by_cases h : lit "111" = g
  · subst h
    simp [init, show processIP (lit "1111") = lit "111" from rfl]
  · simp [init, show processIP (lit "1111") = lit "111" from rfl, h, Ne.symm h]

/-- A run in which the server itself comes back as a client. -/
theorem serve_found_of_own_group :
    (serve (init (lit "1111") 100 : UserCatalogue (RbTree UserInfo))
      [⟨fun _ => true, lit "a01112" ++ [1]⟩, ⟨fun _ => true, lit "c01112" ++ [3]⟩]).All
        Access.Found :=
  (serve_found_iff _ (by decide)).2 (by decide)

/-- The first registration of a client from another group. -/
theorem serve_not_found :
    7 ≤ (lit "a09001" ++ [1]).length ∧
      ¬ (serve (init (lit "1111") 100 : UserCatalogue (RbTree UserInfo))
        [⟨fun _ => true, lit "a09001" ++ [1]⟩]).All Access.Found := by
  decide +kernel

end Huaweip2p.P2PServer
