import Huaweip2p.Base.ServerConnections
import Mathlib.Data.Int.CardIntervalMod

/-!
# The loops of a server

`EventLoopThreadPool::getNextLoop` gives the connections to the I/O loops in turn, and a connection
stays with its loop. The server keeps a connection in `connections_`, and then in the functors that
are bound to it.

* `InTurn`, `loops_run`: the loop of each connection, and the loads of the loops;
* `Owned`, `owned_run`: a connection is owned until it is destroyed, and no longer.
-/

namespace Huaweip2p.TcpServer

variable {s s' : TcpServer} {c : ℕ}

/-! ### The loop of a connection -/

/-- Every connection has the loop that it had, and the next loop is the same. -/
structure SameLoops (s s' : TcpServer) : Prop where
  numThreads_eq : s'.numThreads = s.numThreads
  next_eq : s'.next = s.next
  nextConnId_eq : s'.nextConnId = s.nextConnId
  loop_eq : ∀ c, (s'.conn c).loop = (s.conn c).loop

theorem SameLoops.refl (s : TcpServer) : SameLoops s s := ⟨rfl, rfl, rfl, fun _ => rfl⟩

theorem SameLoops.trans {t : TcpServer} (h : SameLoops s t) (h' : SameLoops t s') :
    SameLoops s s' where
  numThreads_eq := h'.numThreads_eq.trans h.numThreads_eq
  next_eq := h'.next_eq.trans h.next_eq
  nextConnId_eq := h'.nextConnId_eq.trans h.nextConnId_eq
  loop_eq c := (h'.loop_eq c).trans (h.loop_eq c)

theorem sameLoops_modify (s : TcpServer) (c : ℕ) {f : Connection → Connection}
    (hf : (f (s.conn c)).loop = (s.conn c).loop) : SameLoops s (s.modify c f) where
  numThreads_eq := rfl
  next_eq := rfl
  nextConnId_eq := rfl
  loop_eq c' := by
    rcases eq_or_ne c' c with rfl | hne
    · rw [conn_modify_self, hf]
    · rw [conn_modify_of_ne hne]

theorem loop_connectDestroyed (x : Connection) : x.connectDestroyed.loop = x.loop := by
  rw [Connection.connectDestroyed]
  split_ifs <;> rfl

theorem loop_shutdown (x : Connection) : x.shutdown.loop = x.loop := by
  rw [Connection.shutdown]
  split_ifs <;> rfl

theorem loop_connectEstablished {x x' : Connection} (h : x.connectEstablished = some x') :
    x'.loop = x.loop := by
  obtain ⟨-, -, h⟩ := Option.bind_eq_some_iff.1 h
  obtain rfl := Option.some.inj h
  rfl

theorem sameLoops_functor {f : Functor} (h : s.functor f = some s') : SameLoops s s' := by
  cases f with
  | connectEstablished c =>
    simp only [functor, Option.bind_eq_bind, Option.bind_eq_some_iff] at h
    obtain ⟨x, hx, h⟩ := h
    obtain rfl := Option.some.inj h
    exact sameLoops_modify s c (loop_connectEstablished hx)
  | removeConnectionInLoop c =>
    simp only [functor, removeConnectionInLoop, Option.bind_eq_bind, Option.bind_eq_some_iff] at h
    obtain ⟨-, -, h⟩ := h
    obtain rfl := Option.some.inj h
    have herase := sameLoops_modify { s with connections := s.connections.erase (s.conn c).name } c
      (f := Connection.erased) rfl
    exact ⟨rfl, rfl, rfl, herase.loop_eq⟩
  | connectDestroyed c =>
    obtain rfl := Option.some.inj h
    exact sameLoops_modify s c (loop_connectDestroyed _)

theorem sameLoops_runInLoop {here l : ℕ} {f : Functor} (h : s.runInLoop here l f = some s') :
    SameLoops s s' := by
  rw [runInLoop] at h
  split_ifs at h
  · exact sameLoops_functor h
  · obtain rfl := Option.some.inj h
    exact ⟨rfl, rfl, rfl, fun _ => rfl⟩

theorem sameLoops_handleClose (h : s.handleClose c = some s') : SameLoops s s' :=
  (sameLoops_modify s c (f := Connection.handleClose) rfl).trans (sameLoops_runInLoop h)

theorem sameLoops_handleRead {read : ReadResult} (h : s.handleRead c read = some s') :
    SameLoops s s' := by
  cases read with
  | data shutdown =>
    obtain rfl := Option.some.inj h
    split_ifs
    · exact sameLoops_modify s c (loop_shutdown _)
    · exact SameLoops.refl s
  | closed => exact sameLoops_handleClose h
  | error =>
    obtain rfl := Option.some.inj h
    exact SameLoops.refl s

/-- Only a new connection takes a loop. -/
theorem sameLoops_step? {e : Event} (he : e ≠ .newConnection) (h : s.step? e = some s') :
    SameLoops s s' := by
  cases e with
  | newConnection => exact absurd rfl he
  | runFunctor l =>
    rw [step?] at h
    split at h
    · obtain rfl := Option.some.inj h
      exact SameLoops.refl s
    · have hsame := sameLoops_functor h
      exact ⟨hsame.numThreads_eq, hsame.next_eq, hsame.nextConnId_eq, hsame.loop_eq⟩
  | handleEvent c revents read =>
    rw [step?] at h
    split_ifs at h
    · rw [callbacks_eq] at h
      obtain ⟨t, ht, h⟩ := Option.bind_eq_some_iff.1 h
      have hclose : SameLoops s t := by
        split_ifs at ht
        · exact sameLoops_handleClose ht
        · obtain rfl := Option.some.inj ht
          exact SameLoops.refl s
      refine hclose.trans ?_
      split_ifs at h
      · exact sameLoops_handleRead h
      · obtain rfl := Option.some.inj h
        exact SameLoops.refl t
    · obtain rfl := Option.some.inj h
      exact SameLoops.refl s
  | shutdown c =>
    obtain rfl := Option.some.inj h
    split_ifs
    · exact sameLoops_modify s c (loop_shutdown _)
    · exact SameLoops.refl s

/-- The loop of the connection with the number `c`: the base loop if there are no others. -/
def loopOf (numThreads c : ℕ) : ℕ := if numThreads = 0 then 0 else (c - 1) % numThreads + 1

/-- The connections have got the loops in turn, and the next one will. -/
structure InTurn (numThreads : ℕ) (s : TcpServer) : Prop where
  numThreads_eq : s.numThreads = numThreads
  nextConnId_pos : 1 ≤ s.nextConnId
  next_eq : numThreads ≠ 0 → s.next = (s.nextConnId - 1) % numThreads
  loop_eq : ∀ c, s.Accepted c → (s.conn c).loop = loopOf numThreads c

theorem inTurn_init (name hostport : Str) (numThreads : ℕ) :
    (init name hostport numThreads).InTurn numThreads where
  numThreads_eq := rfl
  nextConnId_pos := le_refl 1
  next_eq _ := (Nat.zero_mod _).symm
  loop_eq _ hacc := absurd hacc.2 (Nat.not_lt.2 hacc.1)

theorem InTurn.of_sameLoops {numThreads : ℕ} (h : s.InTurn numThreads) (hs : SameLoops s s') :
    s'.InTurn numThreads where
  numThreads_eq := hs.numThreads_eq.trans h.numThreads_eq
  nextConnId_pos := hs.nextConnId_eq ▸ h.nextConnId_pos
  next_eq hne := by rw [hs.next_eq, hs.nextConnId_eq, h.next_eq hne]
  loop_eq c hacc := by
    rw [hs.loop_eq]
    exact h.loop_eq c ⟨hacc.1, hs.nextConnId_eq ▸ hacc.2⟩

/-- `getNextLoop` goes around. -/
theorem succ_mod_eq (k : ℕ) {n : ℕ} (hn : n ≠ 0) :
    (k + 1) % n = if k % n + 1 ≥ n then 0 else k % n + 1 := by
  have hlt : k % n < n := Nat.mod_lt k (Nat.pos_of_ne_zero hn)
  rw [← Nat.mod_add_mod]
  split_ifs with hend
  · rw [show k % n + 1 = n by omega, Nat.mod_self]
  · exact Nat.mod_eq_of_lt (by omega)

/-- A new connection takes the next loop. -/
theorem InTurn.newConnection {numThreads : ℕ} (h : s.InTurn numThreads)
    (hs' : s.newConnection = some s') : s'.InTurn numThreads := by
  have hpos := h.nextConnId_pos
  -- `next` and the loop, as `getNextLoop` leaves and chooses them
  obtain ⟨next, ioLoop, heq, hnext, hloop⟩ : ∃ next ioLoop,
      s.newConnection = (accept { s with next := next } ioLoop).runInLoop 0 ioLoop
        (.connectEstablished s.nextConnId) ∧
      (numThreads ≠ 0 → next = s.nextConnId % numThreads) ∧
      ioLoop = loopOf numThreads s.nextConnId := by
    have hthreads := h.numThreads_eq
    unfold TcpServer.newConnection getNextLoop
    by_cases hzero : numThreads = 0
    · rw [if_pos (hthreads.trans hzero)]
      exact ⟨s.next, 0, rfl, fun hne => absurd hzero hne, (if_pos hzero).symm⟩
    · rw [if_neg (hthreads.trans_ne hzero)]
      refine ⟨_, _, rfl, fun _ => ?_, ?_⟩
      · have hsucc := succ_mod_eq (s.nextConnId - 1) hzero
        rw [Nat.sub_add_cancel hpos, ← h.next_eq hzero] at hsucc
        rw [hsucc, hthreads]
      · rw [loopOf, if_neg hzero, h.next_eq hzero]
  rw [heq] at hs'
  have hsame := sameLoops_runInLoop hs'
  refine InTurn.of_sameLoops ?_ hsame
  exact
    { numThreads_eq := h.numThreads_eq
      nextConnId_pos := Nat.le_succ_of_le hpos
      next_eq := fun hne => by
        show next = (s.nextConnId + 1 - 1) % numThreads
        rw [hnext hne, Nat.add_sub_cancel]
      loop_eq := fun c hacc => by
        show (Function.update s.conn s.nextConnId (.new s.connName ioLoop) c).loop = _
        rcases eq_or_ne c s.nextConnId with rfl | hne
        · rw [Function.update_self]
          exact hloop
        · rw [Function.update_of_ne hne]
          have hlt : c < s.nextConnId + 1 := hacc.2
          exact h.loop_eq c ⟨hacc.1, by omega⟩ }

theorem InTurn.step {numThreads : ℕ} (h : s.InTurn numThreads) (e : Event) :
    (s.step e).InTurn numThreads := by
  unfold TcpServer.step
  cases hs' : s.step? e with
  | none => exact h
  | some s' =>
    by_cases he : e = .newConnection
    · subst he
      exact h.newConnection hs'
    · exact h.of_sameLoops (sameLoops_step? he hs')

/-- The number of connections that a loop was given. -/
def load (s : TcpServer) (l : ℕ) : ℕ :=
  Nat.count (fun i => (s.conn (i + 1)).loop = l) (s.nextConnId - 1)

/-- Each of the I/O loops has its share, rounded up for the first ones. -/
theorem InTurn.load_eq {n : ℕ} (h : s.InTurn n) {l : ℕ} (hl : 1 ≤ l ∧ l ≤ n) :
    s.load l = (s.nextConnId - 1) / n + if l - 1 < (s.nextConnId - 1) % n then 1 else 0 := by
  have hn : n ≠ 0 := by omega
  have hmod : (l - 1) % n = l - 1 := Nat.mod_eq_of_lt (by omega)
  have hiff : ∀ i < s.nextConnId - 1,
      (s.conn (i + 1)).loop = l ↔ i ≡ l - 1 [MOD n] := by
    intro i hi
    rw [h.loop_eq (i + 1) ⟨Nat.le_add_left 1 i, by omega⟩, loopOf, if_neg hn, Nat.add_sub_cancel,
      Nat.ModEq, hmod]
    omega
  have hshare := Nat.count_modEq_card (s.nextConnId - 1) (Nat.pos_of_ne_zero hn) (l - 1)
  rw [hmod] at hshare
  rw [load, ← hshare]
  exact le_antisymm (Nat.count_mono_left fun i hi => (hiff i hi).1)
    (Nat.count_mono_left fun i hi => (hiff i hi).2)

/-- **The loops.** In every run of a server with any number of I/O loops, the connections go to the
loops in turn, and none ever changes its loop; so the numbers of connections that the I/O loops were
given differ by one at most. -/
theorem loops_run (name hostport : Str) (numThreads : ℕ) (es : List Event) :
    let s := Runs.run step (init name hostport numThreads) es
    (∀ c, s.Accepted c → (s.conn c).loop = loopOf numThreads c) ∧
      ∀ l l', 1 ≤ l ∧ l ≤ numThreads → 1 ≤ l' ∧ l' ≤ numThreads → s.load l ≤ s.load l' + 1 := by
  intro s
  have h : s.InTurn numThreads :=
    Runs.run_invariant (I := InTurn numThreads) (fun _ e _ h => h.step e) (inTurn_init _ _ _)
  refine ⟨h.loop_eq, fun l l' hl hl' => ?_⟩
  rw [h.load_eq hl, h.load_eq hl']
  split_ifs <;> omega

/-! ### The owners of a connection -/

/-- Something holds the connection: an entry of `connections_`, or a functor that waits. -/
def Owned (s : TcpServer) (c : ℕ) : Prop :=
  (∃ x : Str, s.connections[x]? = some c) ∨ ∃ l, ∃ f ∈ s.pending l, f.conn = c

/-- A functor that waits is the duty of its connection. -/
theorem InvBut.duty_of_mem (h : s.Inv) {l : ℕ} {f : Functor} (hf : f ∈ s.pending l) :
    ∃ p, s.Accepted f.conn ∧ (s.conn f.conn).In p ∧
      p.duty f.conn (s.conn f.conn).loop = some (l, f) := by
  obtain ⟨c, p, -, hacc, hp, hduty⟩ := (h.queues.mem_iff l f).1 hf
  obtain rfl : f.conn = c := Phase.conn_of_duty hduty
  exact ⟨p, hacc, hp, hduty⟩

theorem InvBut.owned_iff (h : s.Inv) (hacc : s.Accepted c) :
    s.Owned c ↔ (s.conn c).destroys = 0 := by
  obtain ⟨p, hp⟩ := h.phase c hacc
  have hrecord := hp.record_eq
  simp only [Connection.record] at hrecord
  constructor
  · rintro (⟨x, hx⟩ | ⟨l, f, hf, rfl⟩)
    · have hremovals := ((h.entry x c).1 hx).2.2
      cases p <;> simp_all [Phase.record]
    · obtain ⟨q, -, hq, hduty⟩ := h.duty_of_mem hf
      obtain rfl := hp.unique hq
      cases p <;> simp_all [Phase.record, Phase.duty]
  · intro hdestroys
    cases p with
    | up =>
      have hremovals : (s.conn c).removals = 0 := by simp_all [Phase.record]
      exact .inl ⟨_, (h.entry _ c).2 ⟨hacc, rfl, hremovals⟩⟩
    | destroyed => simp_all [Phase.record]
    | accepted => exact .inr ⟨_, _, h.mem_pending hacc hp rfl, rfl⟩
    | closing => exact .inr ⟨_, _, h.mem_pending hacc hp rfl, rfl⟩
    | removed => exact .inr ⟨_, _, h.mem_pending hacc hp rfl, rfl⟩

/-- **The owners.** In every run of safe steps, a connection is held by `connections_` or by a
functor from its acceptance until it is destroyed, and by nothing afterwards; while its channel is
polled it is held by its entry; and no two functors that wait are bound to one connection. -/
theorem owned_run (name hostport : Str) (numThreads : ℕ) (es : List Event)
    (hsafe : Runs.EveryStep step (fun s e _ => s.Safe e) (init name hostport numThreads) es) :
    let s := Runs.run step (init name hostport numThreads) es
    ∀ c, s.Accepted c →
      (s.Owned c ↔ (s.conn c).destroys = 0) ∧
      ((s.conn c).polled = true → s.connections[(s.conn c).name]? = some c) ∧
      ∀ l f l' f', f ∈ s.pending l → f' ∈ s.pending l' → f.conn = c → f'.conn = c →
        l = l' ∧ f = f' := by
  intro s c hacc
  have h : s.Inv := by
    refine Runs.run_of_everyStep (I := fun s : TcpServer => s.Inv) (C := Safe)
      (fun t e ht hs => ?_) (inv_init name hostport numThreads) hsafe
    obtain ⟨t', ht', hinv⟩ := ht.step? hs
    rw [step, ht']
    exact hinv
  refine ⟨h.owned_iff hacc, fun hpolled => ?_, fun l f l' f' hf hf' hc hc' => ?_⟩
  · obtain ⟨p, hp⟩ := h.phase c hacc
    obtain rfl := hp.eq_up_of_polled hpolled
    have hrecord := hp.record_eq
    simp only [Connection.record, Phase.record, Prod.mk.injEq] at hrecord
    exact (h.entry _ c).2 ⟨hacc, rfl, hrecord.2.2.2.1⟩
  · subst hc
    obtain ⟨p, -, hp, hduty⟩ := h.duty_of_mem hf
    obtain ⟨q, -, hq, hduty'⟩ := h.duty_of_mem hf'
    rw [hc'] at hq hduty'
    obtain rfl := hp.unique hq
    exact Prod.mk.inj (Option.some.inj (hduty.symm.trans hduty'))

/-- A connection that is closed by its peer and destroyed. -/
theorem not_owned_of_closed :
    ¬ (Runs.run step (init (lit "s") (lit "1:1") 1) [.newConnection, .runFunctor 1,
      .handleEvent 1 1 .closed, .runFunctor 0, .runFunctor 1]).Owned 1 := by
  have hsafe : Runs.EveryStep step (fun s e _ => s.Safe e) (init (lit "s") (lit "1:1") 1)
      [.newConnection, .runFunctor 1, .handleEvent 1 1 .closed, .runFunctor 0, .runFunctor 1] := by
    refine (Runs.everyStep_cons ..).2 ⟨show _ ∉ _ by decide +kernel, ?_⟩
    refine (Runs.everyStep_cons ..).2 ⟨trivial, ?_⟩
    refine (Runs.everyStep_cons ..).2 ⟨fun _ _ h => absurd h.1 (by decide), ?_⟩
    refine (Runs.everyStep_cons ..).2 ⟨trivial, ?_⟩
    refine (Runs.everyStep_cons ..).2 ⟨trivial, ?_⟩
    exact Runs.everyStep_nil _ _ _
  rw [(owned_run _ _ _ _ hsafe 1 (by decide +kernel)).1]
  decide +kernel

end Huaweip2p.TcpServer
