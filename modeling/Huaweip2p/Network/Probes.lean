import Huaweip2p.Client.Failover
import Huaweip2p.Lib.Ledger
import Huaweip2p.Server.Replacement

/-!
# The sockets of the probes

Both programs find out whether a peer works by connecting a socket of their own to it. Here
`insertUser` and the failover loops run beside a ledger of these sockets.

* `probe`: the socket is closed only when it got a connection;
* `insertUserM`: `insertUser` over any monad that answers its probe; `insertUserM_eq` says which probe
  that is;
* `failoverL`, `onStringMessageL`, `onConnectionL`: the client's handlers with the ledger;
* `probes_closed_iff`: in which runs every socket has been closed when the call returns.
-/

namespace Huaweip2p

/-- What `isClientWorking` and `changeServer` do to find out whether a peer works. -/
def probe (connects : Bool) (l : Ledger) : Bool × Ledger :=
  let sockfd := l.created
  let l := l.create
  if connects then (true, l.close sockfd)
  -- both return without closing the socket
  else (false, l)

theorem fst_probe (connects : Bool) (l : Ledger) : (probe connects l).1 = connects := by
  cases connects <;> rfl

theorem allClosed_probe_iff {l : Ledger} (h : l.AllClosed) (connects : Bool) :
    (probe connects l).2.AllClosed ↔ connects = true := by
  cases connects with
  | true => exact iff_of_true h.create_close rfl
  | false => exact iff_of_false h.leaked_create.not_allClosed (by decide)

theorem leaked_probe {l : Ledger} (h : l.Leaked) (connects : Bool) :
    (probe connects l).2.Leaked := by
  cases connects with
  | true => exact h.create_close
  | false => exact h.create

/-! ### The server -/

namespace UserCatalogue

variable {σ : Type} [UserSet σ]

/-- `isClientWorking`. -/
def isClientWorking (connects : Str → Bool) (ip : Str) : StateM Ledger Bool := probe (connects ip)

/-- `insertUser`, where `isClientWorking` may do something besides answering. -/
def insertUserM {m : Type → Type} [Monad m] (c : UserCatalogue σ) (isClientWorking : Str → m Bool)
    (ip : Str) (file : ℤ) : m (UserCatalogue σ × InsertOutcome) :=
  let g := processIP ip
  let usr : UserInfo := ⟨ip, file⟩
  match c.users[g]? with
  | none => pure (c.store g (UserSet.insert usr UserSet.empty) (c.queue g ++ [ip]), .stored)
  | some uset =>
    let (uset, erased) := UserSet.erase usr uset
    if erased = 0 then
      let q := c.queue g
      if q.length < kMaxCacheUsers then
        pure (c.store g (UserSet.insert usr uset) (q ++ [ip]), .stored)
      else do
        let firstIP := q.headD []
        if ← isClientWorking firstIP then
          return ({ c with userQue := c.userQue.insert g (q.tail ++ [firstIP]) }, .rejected)
        else
          let uset := (UserSet.erase ⟨firstIP, 0⟩ uset).1
          return (c.store g (UserSet.insert usr uset) (q.tail ++ [ip]), .stored)
    else
      pure (c.store g (UserSet.insert usr uset) (c.queue g), .stored)

/-- `insertUser` makes at most one probe, and goes by its answer. -/
theorem insertUserM_eq {m : Type → Type} [Monad m] [LawfulMonad m] (c : UserCatalogue σ)
    (isClientWorking : Str → m Bool) (ip : Str) (file : ℤ) :
    c.insertUserM isClientWorking ip file =
      match c.probed ip file with
      | none => pure (c.insertUser (fun _ => false) ip file)
      | some firstIP => do
        let working ← isClientWorking firstIP
        return c.insertUser (fun _ => working) ip file := by
  cases hg : c.users[processIP ip]? with
  | none =>
    rw [probed_of_none hg, insertUser_of_none hg]
    simp only [insertUserM, hg]
  | some uset =>
    by_cases he : (UserSet.erase ⟨ip, file⟩ uset).2 = 0
    · rcases Nat.lt_or_ge (c.queue (processIP ip)).length kMaxCacheUsers with hlen | hlen
      · rw [probed_of_room hg hlen, insertUser_of_room hg he hlen]
        simp only [insertUserM, hg, if_pos he, if_pos hlen]
      · obtain ⟨f, q, hq⟩ := List.exists_cons_of_length_pos (Nat.lt_of_lt_of_le (by decide) hlen)
        rw [hq] at hlen
        rw [probed_of_full hg he hq hlen]
        simp only [insertUserM, hg, hq, if_pos he, if_neg (Nat.not_lt.2 hlen), List.headD_cons,
          List.tail_cons]
        congr 1
        funext working
        cases working with
        | true =>
          rw [insertUser_of_working hg he hq hlen rfl]
          rfl
        | false =>
          rw [insertUser_of_not_working hg he hq hlen rfl]
          rfl
    · rw [probed_of_erased hg he, insertUser_of_erased hg he]
      simp only [insertUserM, hg, if_neg he]

/-- A registration, with the sockets of its probe. -/
def insertUserL (s : UserCatalogue σ × Ledger) (call : InsertCall) : UserCatalogue σ × Ledger :=
  let (r, l) := (s.1.insertUserM (isClientWorking call.isClientWorking) call.ip call.file).run s.2
  (r.1, l)

/-- The IP that the call asks, if it asks one, accepts connections. -/
def ProbeWorks (c : UserCatalogue σ) (call : InsertCall) : Prop :=
  ∀ firstIP, c.probed call.ip call.file = some firstIP → call.isClientWorking firstIP = true

/-- The ledger does not change what a call does to the catalogue. -/
theorem insertUserL_eq (s : UserCatalogue σ × Ledger) (call : InsertCall) :
    insertUserL s call = (s.1.afterCall call,
      match s.1.probed call.ip call.file with
      | none => s.2
      | some firstIP => (probe (call.isClientWorking firstIP) s.2).2) := by
  rw [insertUserL, insertUserM_eq]
  cases hprobed : s.1.probed call.ip call.file with
  | none =>
    have hcongr : s.1.insertUser (fun _ => false) call.ip call.file =
        s.1.insertUser call.isClientWorking call.ip call.file :=
      insertUser_congr fun firstIP h => by rw [hprobed] at h; cases h
    simp only [afterCall, ← hcongr]
    rfl
  | some f =>
    have hcongr : s.1.insertUser (fun _ => (probe (call.isClientWorking f) s.2).1) call.ip
        call.file = s.1.insertUser call.isClientWorking call.ip call.file :=
      insertUser_congr fun firstIP h => by
        obtain rfl := Option.some.inj (hprobed.symm.trans h)
        exact fst_probe _ _
    simp only [afterCall, ← hcongr]
    rfl

theorem allClosed_insertUserL_iff {s : UserCatalogue σ × Ledger} (h : s.2.AllClosed)
    (call : InsertCall) : (insertUserL s call).2.AllClosed ↔ s.1.ProbeWorks call := by
  rw [insertUserL_eq, ProbeWorks]
  cases s.1.probed call.ip call.file with
  | none => exact iff_of_true h fun _ hnone => by cases hnone
  | some f => simp only [allClosed_probe_iff h, Option.some.injEq, forall_eq']

end UserCatalogue

/-! ### The client -/

namespace P2PClient

/-- `changeServer`, with its socket. -/
def changeServerL (p : P2PClient) (dest : Str) (works : Bool) (l : Ledger) :
    (P2PClient × Bool) × Ledger :=
  let (works, l) := probe works l
  (p.changeServer dest works, l)

/-- `failover`, with the sockets of its probes. -/
def failoverL (works : ℕ → Str → Bool) (level : ℤ) : ℕ → ℕ → P2PClient → Ledger →
    P2PClient × Ledger
  | 0, _, p, l => ({ p with stuck := true }, l)
  | fuel + 1, i, p, l =>
    match p.changeServerL p.IP (works i p.IP) l with
    | ((p, true), l) => (p, l)
    | ((p, false), l) =>
      let s := p.statics.removeNeiIP p.IP
      failoverL works level fuel (i + 1) { p with statics := s, IP := s.findNeiIP level } l

/-- `onStringMessage`, with the sockets of its probes. -/
def onStringMessageL (p : P2PClient) (message : Str) (probes : Probes) (l : Ledger) :
    P2PClient × Ledger :=
  match (processMessage p.statics message).val with
  | none => ({ p with stuck := true }, l)
  | some (s, res) =>
    let p := { p with statics := s }
    let upfile := s.getFile
    if upfile < 100 then
      if res ≠ 0 then (p.write (fileRequest s upfile), l)
      else failoverL probes.works upfile probes.fuel 0 { p with IP := s.findNeiIP upfile } l
    else (p, l)

/-- `onConnection`, with the sockets of its probes. -/
def onConnectionL (p : P2PClient) (c : ConnId) (probes : Probes) (l : Ledger) :
    P2PClient × Ledger :=
  if (p.conns c).state = .kConnected then
    let p := { p with state := .kConnected, connection := some c }
    if p.isFirst then ({ p with isFirst := false }.write (registration p.statics), l)
    else (p.write (fileRequest p.statics p.statics.getFile), l)
  else
    let p := { p with connection := none }
    if p.state = .kConnected then
      let s := p.statics.removeNeiIP p.IP
      failoverL probes.works s.getFile probes.fuel 0
        { p with statics := s, IP := s.findNeiIP s.getFile } l
    else (p, l)

/-- What happens to a client, as far as its probes are concerned. -/
inductive ProbeEvent
  /-- The codec hands a message to `onStringMessage`. -/
  | message (message : Str) (probes : Probes)
  /-- The state of a connection changed, and `onConnection` is called. -/
  | connection (c : ConnId) (probes : Probes)
  /-- A call of `changeServer` from outside the handlers. -/
  | changeServer (dest : Str) (works : Bool)
  /-- Anything else, which makes no probe. -/
  | other (p : P2PClient)

/-- One step of a run of the client, with the ledger. -/
def handleL (s : P2PClient × Ledger) : ProbeEvent → P2PClient × Ledger
  | .message message probes => s.1.onStringMessageL message probes s.2
  | .connection c probes => s.1.onConnectionL c probes s.2
  | .changeServer dest works =>
    let (r, l) := s.1.changeServerL dest works s.2
    (r.1, l)
  | .other p => (p, s.2)

/-- The first address that a loop dials accepts connections. -/
def FirstWorks (probes : Probes) (dest : Str) : Prop := 0 < probes.fuel → probes.works 0 dest = true

/-- Every probe of the event finds its peer working: the first address that a failover selects
accepts connections. -/
def ProbesWork (p : P2PClient) : ProbeEvent → Prop
  | .message message probes => ∀ s, (processMessage p.statics message).val = some (s, 0) →
      s.getFile < 100 → FirstWorks probes (s.findNeiIP s.getFile)
  | .connection c probes => (p.conns c).state ≠ .kConnected → p.state = .kConnected →
      let s := p.statics.removeNeiIP p.IP
      FirstWorks probes (s.findNeiIP s.getFile)
  | .changeServer _ works => works = true
  | .other _ => True

theorem changeServerL_eq (p : P2PClient) (dest : Str) (works : Bool) (l : Ledger) :
    p.changeServerL dest works l = (p.changeServer dest works, (probe works l).2) := by
  rw [changeServerL, ← fst_probe works l]
  simp only [fst_probe]

/-- The ledger does not change what a failover does to the client. -/
theorem fst_failoverL (works : ℕ → Str → Bool) (level : ℤ) (fuel i : ℕ) (p : P2PClient)
    (l : Ledger) : (failoverL works level fuel i p l).1 = failover works level fuel i p := by
  induction fuel generalizing i p l with
  | zero => rfl
  | succ fuel ih =>
    rw [failoverL, failover, changeServerL_eq]
    rcases p.changeServer p.IP (works i p.IP) with ⟨p', _ | _⟩
    · exact ih _ _ _
    · rfl

theorem fst_onStringMessageL (p : P2PClient) (message : Str) (probes : Probes) (l : Ledger) :
    (p.onStringMessageL message probes l).1 = p.onStringMessage message probes := by
  rw [onStringMessageL, onStringMessage]
  cases (processMessage p.statics message).val with
  | none => rfl
  | some r =>
    dsimp only
    split_ifs
    · rfl
    · exact fst_failoverL _ _ _ _ _ _
    · rfl

theorem fst_onConnectionL (p : P2PClient) (c : ConnId) (probes : Probes) (l : Ledger) :
    (p.onConnectionL c probes l).1 = p.onConnection c probes := by
  rw [onConnectionL, onConnection]
  dsimp only
  split_ifs
  · rfl
  · rfl
  · exact fst_failoverL _ _ _ _ _ _
  · rfl

theorem leaked_failoverL (works : ℕ → Str → Bool) (level : ℤ) (fuel i : ℕ) (p : P2PClient)
    {l : Ledger} (h : l.Leaked) : (failoverL works level fuel i p l).2.Leaked := by
  induction fuel generalizing i p l with
  | zero => exact h
  | succ fuel ih =>
    rw [failoverL, changeServerL_eq]
    rcases p.changeServer p.IP (works i p.IP) with ⟨p', _ | _⟩
    · exact ih _ _ (leaked_probe h _)
    · exact leaked_probe h _

/-- A failover closes its sockets exactly when its first probe finds the peer working. -/
theorem allClosed_failoverL_iff {l : Ledger} (h : l.AllClosed) (probes : Probes) (level : ℤ)
    (p : P2PClient) :
    (failoverL probes.works level probes.fuel 0 p l).2.AllClosed ↔ FirstWorks probes p.IP := by
  rw [FirstWorks]
  cases probes.fuel with
  | zero => exact iff_of_true h fun hlt => absurd hlt (Nat.lt_irrefl 0)
  | succ fuel =>
    cases hw : probes.works 0 p.IP with
    | true =>
      rw [failoverL, hw, changeServerL_eq]
      exact iff_of_true ((allClosed_probe_iff h true).2 rfl) fun _ => rfl
    | false =>
      rw [failoverL, hw, changeServerL_eq]
      refine iff_of_false (leaked_failoverL _ _ _ _ _ h.leaked_create).not_allClosed ?_
      exact fun hworks => Bool.false_ne_true (hworks (Nat.succ_pos fuel))

theorem allClosed_handleL_iff {s : P2PClient × Ledger} (h : s.2.AllClosed) (e : ProbeEvent) :
    (handleL s e).2.AllClosed ↔ s.1.ProbesWork e := by
  cases e with
  | message message probes =>
    rw [handleL, onStringMessageL, ProbesWork]
    cases hval : (processMessage s.1.statics message).val with
    | none => exact iff_of_true h fun _ hnone => by cases hnone
    | some r =>
      obtain ⟨s', res⟩ := r
      dsimp only
      split_ifs with hfile hres
      · exact iff_of_true h fun _ hsome _ => by
          cases hsome
          exact absurd rfl hres
      · rw [ne_eq, not_not] at hres
        subst hres
        rw [allClosed_failoverL_iff h]
        constructor
        · rintro hworks _ ⟨⟩ -
          exact hworks
        · exact fun hworks => hworks s' rfl hfile
      · exact iff_of_true h fun _ hsome hlt => by
          cases hsome
          exact absurd hlt hfile
  | connection c probes =>
    rw [handleL, onConnectionL, ProbesWork]
    dsimp only
    split_ifs with hup hfirst hstate
    · exact iff_of_true h fun hne => absurd hup hne
    · exact iff_of_true h fun hne => absurd hup hne
    · rw [allClosed_failoverL_iff h]
      exact ⟨fun hworks _ _ => hworks, fun hworks => hworks hup hstate⟩
    · exact iff_of_true h fun _ heq => absurd heq hstate
  | changeServer dest works =>
    rw [handleL, changeServerL_eq]
    exact allClosed_probe_iff h works
  | other p => exact iff_of_true h trivial

end P2PClient

/-- **Probe sockets.** In every run of registrations on the server, and in every run of the client,
every socket of a probe has been closed, once, at the end of each call, so that none is open, exactly
when every probe finds its peer working: each call of `insertUser` that asks an IP finds it working,
and the first address that each failover selects accepts connections. -/
theorem probes_closed_iff {σ : Type} [UserSet σ] (c : UserCatalogue σ)
    (calls : List UserCatalogue.InsertCall) (p : P2PClient) (events : List P2PClient.ProbeEvent) :
    (Runs.EveryStep UserCatalogue.insertUserL
        (fun _ _ s' => s'.2.AllClosed ∧ s'.2.closed.length = s'.2.created) (c, .empty) calls ↔
      Runs.EveryStep UserCatalogue.insertUserL (fun s call _ => s.1.ProbeWorks call) (c, .empty)
        calls) ∧
    (Runs.EveryStep P2PClient.handleL
        (fun _ _ s' => s'.2.AllClosed ∧ s'.2.closed.length = s'.2.created) (p, .empty) events ↔
      Runs.EveryStep P2PClient.handleL (fun s e _ => s.1.ProbesWork e) (p, .empty) events) := by
  simp only [and_iff_left_of_imp Ledger.AllClosed.length_closed]
  constructor
  · exact Runs.everyStep_iff (I := fun s : UserCatalogue σ × Ledger => s.2.AllClosed)
      (fun s call h => UserCatalogue.allClosed_insertUserL_iff h call) (fun _ _ _ h => h)
      Ledger.allClosed_empty calls
  · exact Runs.everyStep_iff (I := fun s : P2PClient × Ledger => s.2.AllClosed)
      (fun s e h => P2PClient.allClosed_handleL_iff h e) (fun _ _ _ h => h)
      Ledger.allClosed_empty events

/-- A full group asks an IP that is not working, and the connection to the server goes down while the
only neighbour is not working. -/
theorem probes_not_closed :
    (¬ Runs.EveryStep UserCatalogue.insertUserL (fun _ _ s' => s'.2.AllClosed)
      ((Runs.run UserCatalogue.afterCall (UserCatalogue.init (lit "2221") 1)
        [⟨fun _ => true, lit "2222", 1⟩, ⟨fun _ => true, lit "2223", 1⟩] :
          UserCatalogue (RbTree UserInfo)), .empty) [⟨fun _ => false, lit "2224", 1⟩]) ∧
    ¬ Runs.EveryStep P2PClient.handleL (fun _ _ s' => s'.2.AllClosed)
      (P2PClient.start (P2PCServer.start.insertNeiIP (lit "2222") 5) .kConnected (lit "1111"),
        .empty) [.connection 0 ⟨fun _ dest => dest = lit "1111", 2⟩] := by
  constructor
  · intro h
    have h0 := h [] _ [] rfl 0
    revert h0
    decide +kernel
  · intro h
    have h0 := h [] _ [] rfl 0
    revert h0
    decide +kernel

end Huaweip2p
