import Huaweip2p.Base.TcpServer

/-!
# The life of a connection

A connection of a server is accepted, up, closing, removed and destroyed, in this order. In each
phase but two one functor waits that takes it to the next.

* `Connection.In`, `Phase.duty`: the phases, and the functor that waits in each;
* `InvBut`: the queues hold the duties of all connections, or of all but one, which is being served;
* `orderly_iff_safe`: in which runs every connection goes through its phases in order.
-/

namespace Huaweip2p

namespace TcpServer

variable (s : TcpServer)

/-! ### The phases of a connection -/

/-- The connection a functor is bound to. -/
def Functor.conn : Functor → ℕ
  | connectEstablished c | removeConnectionInLoop c | connectDestroyed c => c

inductive Phase
  | accepted
  | up
  | closing
  | removed
  | destroyed
  deriving DecidableEq, Repr

def Phase.states : Phase → List StateE
  | accepted => [.kConnecting]
  | up => [.kConnected, .kDisconnecting]
  | closing | removed | destroyed => [.kDisconnected]

/-- Whether `poll` looks at the channel, the log and the counts. -/
def Phase.record : Phase → Bool × List Bool × ℕ × ℕ × ℕ
  | accepted => (false, [], 0, 0, 0)
  | up => (true, [true], 0, 0, 0)
  | closing => (false, [true, false], 1, 0, 0)
  | removed => (false, [true, false], 1, 1, 0)
  | destroyed => (false, [true, false], 1, 1, 1)

/-- The functor that takes a connection to its next phase, and its loop. -/
def Phase.duty (c loop : ℕ) : Phase → Option (ℕ × Functor)
  | accepted => some (loop, .connectEstablished c)
  | up => none
  | closing => some (0, .removeConnectionInLoop c)
  | removed => some (loop, .connectDestroyed c)
  | destroyed => none

namespace Connection

def record (x : Connection) : Bool × List Bool × ℕ × ℕ × ℕ :=
  (x.polled, x.log, x.closeCallbacks, x.removals, x.destroys)

structure In (x : Connection) (p : Phase) : Prop where
  state_mem : x.state ∈ p.states
  record_eq : x.record = p.record

variable {x : Connection}

theorem new_in (name : Str) (loop : ℕ) : (new name loop).In .accepted :=
  ⟨List.mem_singleton.2 rfl, rfl⟩

theorem In.connectEstablished (h : x.In .accepted) :
    ∃ x', x.connectEstablished = some x' ∧ x'.In .up ∧ x'.name = x.name ∧ x'.loop = x.loop := by
  have hstate : x.state = .kConnecting := List.mem_singleton.1 h.state_mem
  have hrecord := h.record_eq
  simp only [record, Phase.record, Prod.mk.injEq] at hrecord
  obtain ⟨-, hlog, hcounts⟩ := hrecord
  refine ⟨{ x with state := .kConnected, polled := true }.connectionCallback, ?_, ?_, rfl, rfl⟩
  · rw [Connection.connectEstablished, guard, if_pos hstate]
    rfl
  · exact ⟨by simp [connectionCallback, Phase.states],
      by simp [connectionCallback, record, Phase.record, hlog, hcounts]⟩

theorem In.handleClose (h : x.In .up) : x.handleClose.In .closing := by
  have hrecord := h.record_eq
  simp only [record, Phase.record, Prod.mk.injEq] at hrecord
  obtain ⟨-, hlog, hcounts⟩ := hrecord
  exact ⟨by simp [Connection.handleClose, connectionCallback, Phase.states],
    by simp [Connection.handleClose, connectionCallback, record, Phase.record, hlog, hcounts]⟩

theorem In.removed (h : x.In .closing) : x.erased.In .removed := by
  have hrecord := h.record_eq
  simp only [record, Phase.record, Prod.mk.injEq] at hrecord
  exact ⟨h.state_mem, by simp [erased, record, Phase.record, hrecord]⟩

theorem In.connectDestroyed (h : x.In .removed) : x.connectDestroyed.In .destroyed := by
  have hstate : x.state = .kDisconnected := List.mem_singleton.1 h.state_mem
  have hrecord := h.record_eq
  simp only [record, Phase.record, Prod.mk.injEq] at hrecord
  rw [Connection.connectDestroyed, if_neg (by simp [hstate])]
  exact ⟨by simp [hstate, Phase.states], by simp [record, Phase.record, hrecord]⟩

theorem In.eq_up {p : Phase} (h : x.In p) (hstate : x.state = .kConnected) : p = .up := by
  have hmem := h.state_mem
  rw [hstate] at hmem
  cases p <;> simp [Phase.states] at hmem ⊢

theorem In.eq_up_of_polled {p : Phase} (h : x.In p) (hpolled : x.polled = true) : p = .up := by
  have hrecord := h.record_eq
  simp only [record, hpolled] at hrecord
  cases p <;> simp [Phase.record] at hrecord ⊢

end Connection

/-! ### The invariant -/

/-- The duties of the connections but `d`. -/
def owedBut (d : Option ℕ) : Set (ℕ × Functor) :=
  {w | ∃ c p, some c ≠ d ∧ s.Accepted c ∧ (s.conn c).In p ∧ p.duty c (s.conn c).loop = some w}

/-- Every connection is in a phase, `connections_` has those that were not removed, and the queues
hold the duties of all connections but `d`. -/
structure InvBut (d : Option ℕ) : Prop where
  nextConnId_pos : 1 ≤ s.nextConnId
  phase : ∀ c, s.Accepted c → ∃ p, (s.conn c).In p
  entry : ∀ x c, s.connections[x]? = some c ↔
    s.Accepted c ∧ (s.conn c).name = x ∧ (s.conn c).removals = 0
  queues : WorkQueues.Holds s.pending (s.owedBut d)

/-- The queues hold all duties. -/
abbrev Inv : Prop := s.InvBut none

section

variable {s} {c : ℕ} {p : Phase}

theorem Connection.In.unique {x : Connection} {q : Phase} (hp : x.In p) (hq : x.In q) : p = q := by
  have heq := hp.record_eq.symm.trans hq.record_eq
  cases p <;> cases q <;> simp [Phase.record] at heq ⊢

theorem Phase.conn_of_duty {l : ℕ} {w : ℕ × Functor} (h : p.duty c l = some w) : w.2.conn = c := by
  cases p <;> simp [Phase.duty] at h <;> subst h <;> rfl

theorem Phase.duty_inj {c' : ℕ} {q : Phase} {l l' : ℕ} {w : ℕ × Functor}
    (h : p.duty c l = some w) (h' : q.duty c' l' = some w) : c = c' :=
  (conn_of_duty h).symm.trans (conn_of_duty h')

theorem owedBut_of_duty_eq_none (hp : (s.conn c).In p) (hduty : p.duty c (s.conn c).loop = none) :
    s.owedBut none = s.owedBut (some c) := by
  ext w
  constructor
  · rintro ⟨c', q, -, hacc, hq, hw⟩
    refine ⟨c', q, ?_, hacc, hq, hw⟩
    rintro hcc
    obtain rfl := Option.some.inj hcc
    obtain rfl := hp.unique hq
    rw [hduty] at hw
    simp at hw
  · rintro ⟨c', q, -, hrest⟩
    exact ⟨c', q, by simp, hrest⟩

/-- A connection without a duty is served. -/
theorem InvBut.inv (h : s.InvBut (some c)) (hp : (s.conn c).In p)
    (hduty : p.duty c (s.conn c).loop = none) : s.Inv :=
  ⟨h.nextConnId_pos, h.phase, h.entry, by
    rw [owedBut_of_duty_eq_none hp hduty]
    exact h.queues⟩

theorem InvBut.but (h : s.Inv) (hp : (s.conn c).In p)
    (hduty : p.duty c (s.conn c).loop = none) : s.InvBut (some c) :=
  ⟨h.nextConnId_pos, h.phase, h.entry, by
    rw [← owedBut_of_duty_eq_none hp hduty]
    exact h.queues⟩

/-- A connection whose duty is queued is served. -/
theorem InvBut.queueInLoop (h : s.InvBut (some c)) (hacc : s.Accepted c) (hp : (s.conn c).In p)
    {l : ℕ} {f : Functor} (hduty : p.duty c (s.conn c).loop = some (l, f)) :
    (s.queueInLoop l f).Inv := by
  refine ⟨h.nextConnId_pos, h.phase, h.entry, ?_⟩
  have hnew : (l, f) ∉ s.owedBut (some c) := by
    rintro ⟨c', q, hne, -, -, hw⟩
    exact hne (congrArg some (Phase.duty_inj hw hduty))
  have howed : (s.queueInLoop l f).owedBut none = insert (l, f) (s.owedBut (some c)) := by
    ext w
    rw [Set.mem_insert_iff]
    constructor
    · rintro ⟨c', q, -, hacc', hq, hw⟩
      by_cases hcc : c' = c
      · subst hcc
        obtain rfl := hp.unique hq
        exact .inl (Option.some.inj (hw.symm.trans hduty))
      · exact .inr ⟨c', q, fun heq => hcc (Option.some.inj heq), hacc', hq, hw⟩
    · rintro (rfl | ⟨c', q, -, hrest⟩)
      · exact ⟨c, p, by simp, hacc, hp, hduty⟩
      · exact ⟨c', q, by simp, hrest⟩
  rw [howed]
  exact h.queues.enqueue hnew

/-- A functor at the front of a queue is the duty of a connection, which is not queued then. -/
theorem InvBut.dequeue (h : s.Inv) {l : ℕ} {f : Functor} {fs : List Functor}
    (hl : s.pending l = f :: fs) : ∃ c p, s.Accepted c ∧ (s.conn c).In p ∧
      p.duty c (s.conn c).loop = some (l, f) ∧
      InvBut { s with pending := Function.update s.pending l fs } (some c) := by
  obtain ⟨c, p, -, hacc, hp, hduty⟩ := h.queues.front_mem hl
  refine ⟨c, p, hacc, hp, hduty, h.nextConnId_pos, h.phase, h.entry, ?_⟩
  have howed : owedBut { s with pending := Function.update s.pending l fs } (some c) =
      s.owedBut none \ {(l, f)} := by
    ext w
    rw [Set.mem_sdiff, Set.mem_singleton_iff]
    constructor
    · rintro ⟨c', q, hne, hacc', hq, hw⟩
      refine ⟨⟨c', q, by simp, hacc', hq, hw⟩, ?_⟩
      rintro rfl
      exact hne (congrArg some (Phase.duty_inj hw hduty))
    · rintro ⟨⟨c', q, -, hacc', hq, hw⟩, hne⟩
      refine ⟨c', q, fun hcc => ?_, hacc', hq, hw⟩
      obtain rfl := Option.some.inj hcc
      obtain rfl := hp.unique hq
      exact hne (Option.some.inj (hw.symm.trans hduty))
  rw [howed]
  exact h.queues.dequeue hl

/-! ### What the steps do to the invariant -/

@[simp] theorem conn_modify_self (f : Connection → Connection) :
    (s.modify c f).conn c = f (s.conn c) := Function.update_self ..

theorem conn_modify_of_ne {c' : ℕ} (hne : c' ≠ c) (f : Connection → Connection) :
    (s.modify c f).conn c' = s.conn c' := Function.update_of_ne hne ..

theorem owedBut_modify (f : Connection → Connection) :
    (s.modify c f).owedBut (some c) = s.owedBut (some c) := by
  ext w
  constructor
  · rintro ⟨c', q, hne, hrest⟩
    rw [conn_modify_of_ne fun hcc => hne (congrArg some hcc)] at hrest
    exact ⟨c', q, hne, hrest⟩
  · rintro ⟨c', q, hne, hrest⟩
    refine ⟨c', q, hne, ?_⟩
    rwa [conn_modify_of_ne fun hcc => hne (congrArg some hcc)]

/-- A connection that is not queued may go to another phase, as long as its entry stays right. -/
theorem InvBut.modify (h : s.InvBut (some c)) {f : Connection → Connection}
    (hname : (f (s.conn c)).name = (s.conn c).name)
    (hremovals : (f (s.conn c)).removals = (s.conn c).removals) (hp : (f (s.conn c)).In p) :
    (s.modify c f).InvBut (some c) where
  nextConnId_pos := h.nextConnId_pos
  phase c' hacc := by
    rcases eq_or_ne c' c with rfl | hne
    · rw [conn_modify_self]
      exact ⟨p, hp⟩
    · rw [conn_modify_of_ne hne]
      exact h.phase c' hacc
  entry x c' := by
    show s.connections[x]? = some c' ↔ s.Accepted c' ∧ _
    rw [h.entry x c']
    rcases eq_or_ne c' c with rfl | hne
    · rw [conn_modify_self, hname, hremovals]
    · rw [conn_modify_of_ne hne]
  queues := by
    rw [owedBut_modify]
    exact h.queues

theorem InvBut.shutdown (h : s.Inv) (hacc : s.Accepted c) :
    (s.modify c Connection.shutdown).Inv := by
  obtain ⟨p, hp⟩ := h.phase c hacc
  by_cases hstate : (s.conn c).state = .kConnected
  · obtain rfl := hp.eq_up hstate
    have hshutdown : (s.conn c).shutdown = { s.conn c with state := .kDisconnecting } :=
      if_pos hstate
    have hup : (s.conn c).shutdown.In .up := by
      rw [hshutdown]
      exact ⟨by simp [Phase.states], hp.record_eq⟩
    refine ((h.but hp rfl).modify ?_ ?_ hup).inv (p := .up) ?_ rfl
    · rw [hshutdown]
    · rw [hshutdown]
    · rw [conn_modify_self]
      exact hup
  · -- nothing is shut down
    have hsame : s.modify c Connection.shutdown = s := by
      rw [TcpServer.modify, Connection.shutdown, if_neg hstate, Function.update_eq_self]
    rwa [hsame]

theorem InvBut.removeConnectionInLoop (h : s.InvBut (some c)) (hacc : s.Accepted c)
    (hp : (s.conn c).In .closing) :
    ∃ s', s.removeConnectionInLoop c = some s' ∧ s'.Inv := by
  have hremovals : (s.conn c).removals = 0 := by
    have hrecord := hp.record_eq
    simp only [Connection.record, Phase.record, Prod.mk.injEq] at hrecord
    exact hrecord.2.2.2.1
  have hentry := (h.entry (s.conn c).name c).2 ⟨hacc, rfl, hremovals⟩
  have hmem : (s.conn c).name ∈ s.connections := by
    rw [Std.ExtTreeMap.mem_iff_isSome_getElem?, hentry]
    rfl
  have hself : (s.erase c).conn c = (s.conn c).erased := conn_modify_self _
  have hother : ∀ {c'}, c' ≠ c → (s.erase c).conn c' = s.conn c' := fun hne =>
    conn_modify_of_ne hne _
  have hbut : (s.erase c).InvBut (some c) :=
    { nextConnId_pos := h.nextConnId_pos
      phase := fun c' hacc' => by
        rcases eq_or_ne c' c with rfl | hne
        · rw [hself]
          exact ⟨.removed, hp.removed⟩
        · rw [hother hne]
          exact h.phase c' hacc'
      entry := fun x c' => by
        show (s.connections.erase (s.conn c).name)[x]? = some c' ↔ s.Accepted c' ∧ _
        rw [Std.ExtTreeMap.getElem?_erase]
        simp only [Std.LawfulEqCmp.compare_eq_iff_eq]
        rcases eq_or_ne c' c with rfl | hne
        · rw [hself]
          refine iff_of_false ?_ (by simp [Connection.erased])
          split_ifs with hx
          · simp
          · intro hx'
            exact hx ((h.entry x c').1 hx').2.1
        · rw [hother hne, ← h.entry x c']
          split_ifs with hx
          · rw [← hx, hentry]
            simp [hne.symm]
          · exact Iff.rfl
      queues := by
        have howed : (s.erase c).owedBut (some c) = s.owedBut (some c) :=
          owedBut_modify (s := { s with connections := s.connections.erase (s.conn c).name }) _
        rw [howed]
        exact h.queues }
  have hremoved : ((s.erase c).conn c).In .removed := by
    rw [hself]
    exact hp.removed
  have hduty : Phase.duty c ((s.erase c).conn c).loop .removed =
      some ((s.conn c).loop, .connectDestroyed c) := by
    rw [hself]
    rfl
  refine ⟨_, ?_, hbut.queueInLoop hacc hremoved hduty⟩
  unfold TcpServer.removeConnectionInLoop
  rw [guard, if_pos hmem]
  rfl

/-- A functor that is the duty of a connection succeeds, and leaves the connection with its next
duty queued. -/
theorem InvBut.functor (h : s.InvBut (some c)) (hacc : s.Accepted c) (hp : (s.conn c).In p)
    {l : ℕ} {f : Functor} (hduty : p.duty c (s.conn c).loop = some (l, f)) :
    ∃ s', s.functor f = some s' ∧ s'.Inv := by
  cases p with
  | accepted =>
    obtain ⟨-, rfl⟩ := Prod.mk.inj (Option.some.inj hduty)
    obtain ⟨x, hx, hup, hname, -⟩ := hp.connectEstablished
    have hremovals : x.removals = (s.conn c).removals := by
      have hrecord := hup.record_eq
      have hrecord' := hp.record_eq
      simp only [Connection.record, Phase.record, Prod.mk.injEq] at hrecord hrecord'
      rw [hrecord.2.2.2.1, hrecord'.2.2.2.1]
    refine ⟨s.modify c fun _ => x, ?_, (h.modify hname hremovals hup).inv (p := .up) ?_ rfl⟩
    · rw [TcpServer.functor, hx]
      rfl
    · rw [conn_modify_self]
      exact hup
  | up => simp [Phase.duty] at hduty
  | closing =>
    obtain ⟨-, rfl⟩ := Prod.mk.inj (Option.some.inj hduty)
    exact h.removeConnectionInLoop hacc hp
  | removed =>
    obtain ⟨-, rfl⟩ := Prod.mk.inj (Option.some.inj hduty)
    have hdestroyed := hp.connectDestroyed
    have hname : (s.conn c).connectDestroyed.name = (s.conn c).name ∧
        (s.conn c).connectDestroyed.removals = (s.conn c).removals := by
      rw [Connection.connectDestroyed]
      split_ifs <;> exact ⟨rfl, rfl⟩
    refine ⟨_, rfl, (h.modify hname.1 hname.2 hdestroyed).inv (p := .destroyed) ?_ rfl⟩
    rw [conn_modify_self]
    exact hdestroyed
  | destroyed => simp [Phase.duty] at hduty

theorem InvBut.runInLoop (h : s.InvBut (some c)) (hacc : s.Accepted c) (hp : (s.conn c).In p)
    {l : ℕ} {f : Functor} (hduty : p.duty c (s.conn c).loop = some (l, f)) (here : ℕ) :
    ∃ s', s.runInLoop here l f = some s' ∧ s'.Inv := by
  unfold TcpServer.runInLoop
  split_ifs
  · exact h.functor hacc hp hduty
  · exact ⟨_, rfl, h.queueInLoop hacc hp hduty⟩

theorem InvBut.handleClose (h : s.Inv) (hacc : s.Accepted c) (hp : (s.conn c).In .up) :
    ∃ s', s.handleClose c = some s' ∧ s'.Inv := by
  have hbut := (h.but hp rfl).modify (f := Connection.handleClose) rfl rfl hp.handleClose
  refine hbut.runInLoop hacc (p := .closing) ?_ rfl _
  rw [conn_modify_self]
  exact hp.handleClose

theorem newConnection_eq : ∃ next ioLoop, s.newConnection =
    (accept { s with next := next } ioLoop).runInLoop 0 ioLoop
      (.connectEstablished s.nextConnId) := by
  unfold newConnection getNextLoop
  by_cases hzero : s.numThreads = 0
  · rw [if_pos hzero]
    exact ⟨s.next, 0, rfl⟩
  · rw [if_neg hzero]
    exact ⟨_, s.next + 1, rfl⟩

theorem InvBut.accept (h : s.Inv) (hnew : s.connName ∉ s.connections) (ioLoop : ℕ) :
    (s.accept ioLoop).InvBut (some s.nextConnId) := by
  have hself : (s.accept ioLoop).conn s.nextConnId = .new s.connName ioLoop :=
    Function.update_self ..
  have hother : ∀ {c'}, c' ≠ s.nextConnId → (s.accept ioLoop).conn c' = s.conn c' := fun hne =>
    Function.update_of_ne hne ..
  have haccepted : ∀ {c'}, (s.accept ioLoop).Accepted c' ↔ s.Accepted c' ∨ c' = s.nextConnId := by
    intro c'
    have hpos := h.nextConnId_pos
    simp only [Accepted, TcpServer.accept]
    omega
  have hne : ∀ {c'}, s.Accepted c' → c' ≠ s.nextConnId := fun hacc => Nat.ne_of_lt hacc.2
  exact
    { nextConnId_pos := Nat.le_succ_of_le h.nextConnId_pos
      phase := fun c' hacc => by
        rcases eq_or_ne c' s.nextConnId with rfl | hne'
        · rw [hself]
          exact ⟨.accepted, Connection.new_in _ _⟩
        · rw [hother hne']
          exact h.phase c' ((haccepted.1 hacc).resolve_right hne')
      entry := fun x c' => by
        show (s.connections.insert s.connName s.nextConnId)[x]? = some c' ↔ _
        rw [Std.ExtTreeMap.getElem?_insert, haccepted]
        simp only [Std.LawfulEqCmp.compare_eq_iff_eq]
        rcases eq_or_ne c' s.nextConnId with rfl | hne'
        · rw [hself]
          have hold : s.connections[x]? ≠ some s.nextConnId := fun hx =>
            hne ((h.entry _ _).1 hx).1 rfl
          split_ifs with hx
          · simp [Connection.new, hx]
          · simp only [hold, Connection.new, hx, false_and, and_false]
        · rw [hother hne']
          simp only [hne', or_false]
          rw [← h.entry x c']
          split_ifs with hx
          · subst hx
            rw [Std.ExtTreeMap.getElem?_eq_none hnew]
            simp [hne'.symm]
          · exact Iff.rfl
      queues := by
        have howed : (s.accept ioLoop).owedBut (some s.nextConnId) = s.owedBut none := by
          ext w
          constructor
          · rintro ⟨c', q, hne', hacc, hrest⟩
            have hcc : c' ≠ s.nextConnId := fun hcc => hne' (congrArg some hcc)
            rw [hother hcc] at hrest
            exact ⟨c', q, by simp, (haccepted.1 hacc).resolve_right hcc, hrest⟩
          · rintro ⟨c', q, -, hacc, hrest⟩
            refine ⟨c', q, fun hcc => hne hacc (Option.some.inj hcc), haccepted.2 (.inl hacc), ?_⟩
            rwa [hother (hne hacc)]
        rw [howed]
        exact h.queues }

theorem InvBut.newConnection (h : s.Inv) (hnew : s.connName ∉ s.connections) :
    ∃ s', s.newConnection = some s' ∧ s'.Inv := by
  obtain ⟨next, ioLoop, heq⟩ := newConnection_eq (s := s)
  have hnext : Inv { s with next := next } := ⟨h.nextConnId_pos, h.phase, h.entry, h.queues⟩
  rw [heq]
  have hself : (TcpServer.accept { s with next := next } ioLoop).conn s.nextConnId =
      .new s.connName ioLoop := Function.update_self ..
  refine (hnext.accept hnew ioLoop).runInLoop ?_ (p := .accepted) ?_ ?_ 0
  · exact ⟨h.nextConnId_pos, Nat.lt_succ_self _⟩
  · rw [hself]
    exact Connection.new_in _ _
  · rw [hself]
    rfl

/-- A message callback, or a read that fails. -/
theorem InvBut.handleRead (h : s.Inv) (hacc : s.Accepted c) {read : ReadResult}
    (hread : read ≠ .closed) : ∃ s', s.handleRead c read = some s' ∧ s'.Inv := by
  cases read with
  | data shutdown =>
    cases shutdown with
    | false => exact ⟨s, rfl, h⟩
    | true => exact ⟨_, rfl, h.shutdown hacc⟩
  | closed => exact absurd rfl hread
  | error => exact ⟨s, rfl, h⟩

/-- The callbacks that a poll result leads to: those that close the connection, and the read. -/
theorem callbacks_eq (read : ReadResult) (revents : Int32) :
    (Channel.handleEventWithGuard (fun _ => true) revents).foldlM (callback c read) s =
      (if Channel.Closes revents then s.handleClose c else some s).bind fun s =>
        if Channel.Reads revents then s.handleRead c read else some s := by
  have hone : ∀ (P : Prop) [Decidable P] (d : Channel.Callback) (t : TcpServer),
      Channel.callIf (fun _ => true) (callback c read) P d t =
        if P then callback c read t d else some t := by
    intro P _ d t
    simp only [Channel.callIf, and_true]
  have herror : Channel.callIf (fun _ => true) (callback c read) (Channel.Errs revents) .error =
      some := by
    funext t
    rw [hone]
    split_ifs <;> rfl
  have hwrite : Channel.callIf (fun _ => true) (callback c read) (Channel.Writes revents) .write =
      some := by
    funext t
    rw [hone]
    split_ifs <;> rfl
  rw [Channel.foldlM_handleEventWithGuard, herror, hwrite, Option.bind_fun_some,
    Option.bind_fun_some, hone]
  congr 1
  funext t
  exact hone _ _ t

/-- A close reports the connection down. -/
theorem of_handleClose {s' : TcpServer} (h : s.handleClose c = some s') :
    s'.nextConnId = s.nextConnId ∧ (s'.conn c).log = (s.conn c).log ++ [false] := by
  unfold handleClose at h
  dsimp only at h
  have hlog : ((s.modify c Connection.handleClose).conn c).log = (s.conn c).log ++ [false] := by
    rw [conn_modify_self]
    rfl
  unfold runInLoop at h
  split_ifs at h
  · simp only [functor, removeConnectionInLoop, Option.bind_eq_bind, Option.bind_eq_some_iff] at h
    obtain ⟨_, -, h⟩ := h
    obtain rfl := Option.some.inj h
    refine ⟨rfl, ?_⟩
    show (Function.update (s.modify c Connection.handleClose).conn c _ c).log = _
    rw [Function.update_self]
    exact hlog
  · obtain rfl := Option.some.inj h
    exact ⟨rfl, hlog⟩

/-- The events of a channel that is polled close the connection at most once, unless they are a
hangup with urgent data. -/
theorem InvBut.handleEvent (h : s.Inv) (hacc : s.Accepted c) (hpolled : (s.conn c).polled = true)
    {revents : Int32} {read : ReadResult}
    (hsafe : ¬ (Channel.Closes revents ∧ Channel.Reads revents ∧ read = .closed)) :
    ∃ s', (Channel.handleEventWithGuard (fun _ => true) revents).foldlM (callback c read) s =
      some s' ∧ s'.Inv := by
  obtain ⟨p, hp⟩ := h.phase c hacc
  obtain rfl := hp.eq_up_of_polled hpolled
  rw [callbacks_eq]
  by_cases hcloses : Channel.Closes revents
  · obtain ⟨t, ht, hinv⟩ := h.handleClose hacc hp
    rw [if_pos hcloses, ht, Option.bind_some]
    by_cases hreads : Channel.Reads revents
    · rw [if_pos hreads]
      have hacc' : t.Accepted c := ⟨hacc.1, (of_handleClose ht).1 ▸ hacc.2⟩
      exact hinv.handleRead hacc' fun hread => hsafe ⟨hcloses, hreads, hread⟩
    · rw [if_neg hreads]
      exact ⟨t, rfl, hinv⟩
  · rw [if_neg hcloses, Option.bind_some]
    by_cases hreads : Channel.Reads revents
    · rw [if_pos hreads]
      by_cases hread : read = .closed
      · subst hread
        exact h.handleClose hacc hp
      · exact h.handleRead hacc hread
    · rw [if_neg hreads]
      exact ⟨s, rfl, h⟩

/-- A connection's duty waits in its loop. -/
theorem InvBut.mem_pending (h : s.Inv) (hacc : s.Accepted c) (hp : (s.conn c).In p) {l : ℕ}
    {f : Functor} (hduty : p.duty c (s.conn c).loop = some (l, f)) : f ∈ s.pending l :=
  (h.queues.mem_iff l f).2 ⟨c, p, by simp, hacc, hp, hduty⟩

theorem InvBut.orderly (h : s.Inv) : s.Orderly := by
  have hphase : ∀ c, s.Accepted c → ∃ p, (s.conn c).In p ∧ (s.conn c).log = p.record.2.1 ∧
      (s.conn c).closeCallbacks = p.record.2.2.1 ∧ (s.conn c).removals = p.record.2.2.2.1 ∧
      (s.conn c).destroys = p.record.2.2.2.2 := by
    intro c hacc
    obtain ⟨p, hp⟩ := h.phase c hacc
    refine ⟨p, hp, ?_⟩
    rw [← hp.record_eq]
    exact ⟨rfl, rfl, rfl, rfl⟩
  exact
    { log_prefix := fun c hacc => by
        obtain ⟨p, -, hlog, -⟩ := hphase c hacc
        rw [hlog]
        cases p <;> decide
      up := fun c hacc hnil => by
        obtain ⟨p, hp, hlog, -⟩ := hphase c hacc
        rw [hlog] at hnil
        cases p with
        | accepted => exact h.mem_pending hacc hp rfl
        | _ => simp [Phase.record] at hnil
      closeCallbacks_eq := fun c hacc => by
        obtain ⟨p, -, hlog, hcloses, -⟩ := hphase c hacc
        rw [hlog, hcloses]
        cases p <;> rfl
      entry := fun c hacc => by
        rw [h.entry]
        exact ⟨fun hentry => hentry.2.2, fun hremovals => ⟨hacc, rfl, hremovals⟩⟩
      removals_le := fun c hacc => by
        obtain ⟨p, -, -, hcloses, hremovals, -⟩ := hphase c hacc
        rw [hcloses, hremovals]
        cases p <;> decide
      removing := fun c hacc hlt => by
        obtain ⟨p, hp, -, hcloses, hremovals, -⟩ := hphase c hacc
        rw [hcloses, hremovals] at hlt
        cases p with
        | closing => exact h.mem_pending hacc hp rfl
        | _ => simp [Phase.record] at hlt
      destroys_le := fun c hacc => by
        obtain ⟨p, -, -, -, hremovals, hdestroys⟩ := hphase c hacc
        rw [hremovals, hdestroys]
        cases p <;> decide
      destroying := fun c hacc hlt => by
        obtain ⟨p, hp, -, -, hremovals, hdestroys⟩ := hphase c hacc
        rw [hremovals, hdestroys] at hlt
        cases p with
        | removed => exact h.mem_pending hacc hp rfl
        | _ => simp [Phase.record] at hlt }

theorem of_connectEstablished {t s' : TcpServer} {here l : ℕ}
    (h : t.runInLoop here l (.connectEstablished c) = some s') :
    s'.connections = t.connections ∧ s'.nextConnId = t.nextConnId ∧
      ∀ c', c' ≠ c → s'.conn c' = t.conn c' := by
  unfold runInLoop at h
  split_ifs at h
  · simp only [functor, Option.bind_eq_bind, Option.bind_eq_some_iff] at h
    obtain ⟨x, -, h⟩ := h
    obtain rfl := Option.some.inj h
    exact ⟨rfl, rfl, fun c' hne => conn_modify_of_ne hne _⟩
  · obtain rfl := Option.some.inj h
    exact ⟨rfl, rfl, fun _ _ => rfl⟩

/-- A new connection with a name that is taken takes the entry of the older one. -/
theorem InvBut.not_orderly_of_mem (h : s.Inv) (hmem : s.connName ∈ s.connections) {s' : TcpServer}
    (hs' : s.newConnection = some s') : ¬ s'.Orderly := by
  intro horderly
  obtain ⟨c, hc⟩ := Option.isSome_iff_exists.1 (Std.ExtTreeMap.mem_iff_isSome_getElem?.1 hmem)
  obtain ⟨hacc, hname, hremovals⟩ := (h.entry _ _).1 hc
  have hne : c ≠ s.nextConnId := Nat.ne_of_lt hacc.2
  obtain ⟨next, ioLoop, heq⟩ := newConnection_eq (s := s)
  obtain ⟨hconnections, hnext, hconn⟩ := of_connectEstablished (heq.symm.trans hs')
  have hold : s'.conn c = s.conn c := (hconn c hne).trans (Function.update_of_ne hne ..)
  have hacc' : s'.Accepted c := ⟨hacc.1, by rw [hnext]; exact Nat.lt_succ_of_lt hacc.2⟩
  have hentry := (horderly.entry c hacc').2 (by rw [hold, hremovals])
  rw [hold, hname, hconnections] at hentry
  have hlost : (s.connections.insert s.connName s.nextConnId)[s.connName]? = some c := hentry
  rw [Std.ExtTreeMap.getElem?_insert_self] at hlost
  exact hne (Option.some.inj hlost).symm

/-- A connection that is closed twice is reported down twice. -/
theorem InvBut.not_orderly_of_closes (h : s.Inv) (hacc : s.Accepted c)
    (hpolled : (s.conn c).polled = true) {t s' : TcpServer} (ht : s.handleClose c = some t)
    (hs' : t.handleClose c = some s') : ¬ s'.Orderly := by
  intro horderly
  obtain ⟨p, hp⟩ := h.phase c hacc
  obtain rfl := hp.eq_up_of_polled hpolled
  have hlog : (s.conn c).log = [true] := congrArg (fun r => r.2.1) hp.record_eq
  obtain ⟨hnext, hlogt⟩ := of_handleClose ht
  obtain ⟨hnext', hlogs'⟩ := of_handleClose hs'
  have hprefix := horderly.log_prefix c ⟨hacc.1, by rw [hnext', hnext]; exact hacc.2⟩
  rw [hlogs', hlogt, hlog] at hprefix
  exact absurd hprefix (by decide)

theorem InvBut.not_orderly_of_not_safe (h : s.Inv) {e : Event} (hnotSafe : ¬ s.Safe e) :
    ¬ ((s.step? e).isSome ∧ (s.step e).Orderly) := by
  rintro ⟨hsome, horderly⟩
  obtain ⟨s', hs'⟩ := Option.isSome_iff_exists.1 hsome
  rw [step, hs', Option.getD_some] at horderly
  cases e with
  | newConnection => exact h.not_orderly_of_mem (not_not.1 hnotSafe) hs' horderly
  | handleEvent c revents read =>
    have hcond : s.Accepted c ∧ (s.conn c).polled = true ∧ Channel.Closes revents ∧
        Channel.Reads revents ∧ read = .closed := by
      by_contra hnot
      exact hnotSafe fun hacc hpolled hclosed => hnot ⟨hacc, hpolled, hclosed⟩
    obtain ⟨hacc, hpolled, hcloses, hreads, rfl⟩ := hcond
    unfold TcpServer.step? at hs'
    dsimp only at hs'
    rw [if_pos ⟨hacc, hpolled⟩, callbacks_eq, if_pos hcloses] at hs'
    obtain ⟨t, ht, ht'⟩ := Option.bind_eq_some_iff.1 hs'
    rw [if_pos hreads] at ht'
    exact h.not_orderly_of_closes hacc hpolled ht ht' horderly
  | runFunctor l => exact hnotSafe trivial
  | shutdown c => exact hnotSafe trivial

theorem InvBut.step? {e : Event} (h : s.Inv) (hsafe : s.Safe e) :
    ∃ s', s.step? e = some s' ∧ s'.Inv := by
  cases e with
  | newConnection => exact h.newConnection hsafe
  | runFunctor l =>
    unfold TcpServer.step?
    dsimp only
    cases hl : s.pending l with
    | nil => exact ⟨s, rfl, h⟩
    | cons f fs =>
      obtain ⟨c, p, hacc, hp, hduty, hbut⟩ := h.dequeue hl
      exact hbut.functor hacc hp hduty
  | handleEvent c revents read =>
    unfold TcpServer.step?
    dsimp only
    split_ifs with hcond
    · exact h.handleEvent hcond.1 hcond.2 (hsafe hcond.1 hcond.2)
    · exact ⟨s, rfl, h⟩
  | shutdown c =>
    refine ⟨_, rfl, ?_⟩
    split_ifs with hacc
    · exact h.shutdown hacc
    · exact h

end

theorem inv_init (name hostport : Str) (numThreads : ℕ) : (init name hostport numThreads).Inv where
  nextConnId_pos := le_refl 1
  phase c hacc := absurd hacc.2 (Nat.not_lt.2 hacc.1)
  entry x c := by
    refine iff_of_false (by simp [init]) fun h => ?_
    exact absurd h.1.2 (Nat.not_lt.2 h.1.1)
  queues := by
    have howed : (init name hostport numThreads).owedBut none = ∅ := by
      ext w
      refine iff_of_false ?_ (Set.notMem_empty w)
      rintro ⟨c, p, -, hacc, -⟩
      exact absurd hacc.2 (Nat.not_lt.2 hacc.1)
    rw [howed]
    exact WorkQueues.holds_empty

/-- In a run of a server with any number of I/O loops every step is carried out and leaves the
connections in order, exactly when every step is safe. -/
theorem orderly_iff_safe (name hostport : Str) (numThreads : ℕ) (es : List Event) :
    Runs.EveryStep step (fun s e s' => (s.step? e).isSome ∧ s'.Orderly)
        (init name hostport numThreads) es ↔
      Runs.EveryStep step (fun s e _ => s.Safe e) (init name hostport numThreads) es := by
  have hstep : ∀ (s : TcpServer) (e : Event), s.Inv → s.Safe e → (s.step? e).isSome ∧
      (s.step e).Inv := by
    intro s e h hsafe
    obtain ⟨s', hs', hinv⟩ := h.step? hsafe
    rw [step, hs']
    exact ⟨rfl, hinv⟩
  apply Runs.everyStep_iff (I := fun s : TcpServer => s.Inv)
  · intro s e h
    constructor
    · intro hq
      by_contra hnotSafe
      exact h.not_orderly_of_not_safe hnotSafe hq
    · intro hsafe
      obtain ⟨hsome, hinv⟩ := hstep s e h hsafe
      exact ⟨hsome, hinv.orderly⟩
  · intro s e h hq
    have hsafe : s.Safe e := by
      by_contra hnotSafe
      exact h.not_orderly_of_not_safe hnotSafe hq
    exact (hstep s e h hsafe).2
  · exact inv_init name hostport numThreads

/-- A hangup with urgent data and without data, where the read finds the end: the connection is
closed twice. With no I/O loop the second close finds no entry; with one it reports down again. -/
theorem orderly_fails :
    (¬ Runs.EveryStep step (fun s e s' => (s.step? e).isSome ∧ s'.Orderly)
        (init (lit "s") (lit "1:1") 0) [.newConnection, .handleEvent 1 0x12 .closed]) ∧
    ¬ Runs.EveryStep step (fun s e s' => (s.step? e).isSome ∧ s'.Orderly)
        (init (lit "s") (lit "1:1") 1)
        [.newConnection, .runFunctor 1, .handleEvent 1 0x12 .closed] := by
  constructor
  · intro h
    obtain ⟨hsome, -⟩ := h [.newConnection] (.handleEvent 1 0x12 .closed) [] rfl
    exact absurd hsome (by decide +kernel)
  · intro h
    obtain ⟨-, horderly⟩ := h [.newConnection, .runFunctor 1] (.handleEvent 1 0x12 .closed) [] rfl
    exact absurd (horderly.log_prefix 1 (by decide +kernel)) (by decide +kernel)

end TcpServer

end Huaweip2p
