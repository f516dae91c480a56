import Huaweip2p.Base.ServerConnections
import Huaweip2p.Lib.Decimal

/-!
# The names of the connections

The name of a connection is made of the address its server listens at and of the number of the
connection, and `snprintf` cuts it to fit a buffer of 32 bytes. `connections_` finds the connections
by these names.

* `InetAddress.toIpPort`: the address, of at most 21 characters;
* `nameOf_inj`: two connections have the same name exactly when the decimal digits of their numbers
  that fit are the same;
* `Named`: the entries of `connections_` are those of the live connections;
* `keepsEntries_run_iff`: in which runs every accepted connection gets a name of its own;
* `names_iff`: the same for the addresses there are.
-/

namespace Huaweip2p

/-- The characters of a number. -/
theorem lit_toString (n : ℕ) : lit (toString n) = (Nat.toDigits 10 n).map chr := by
  rw [lit, Nat.toString_eq_repr, Nat.toList_repr]

theorem length_lit_toString_le {n k : ℕ} (hk : 0 < k) (h : n < 10 ^ k) :
    (lit (toString n)).length ≤ k := by
  rw [lit_toString, List.length_map]
  exact (Nat.length_toDigits_le_iff (by decide) hk).2 h

theorem ofNat_chr {c : Char} (h : c.isDigit = true) : Char.ofNat (chr c).toNat = c := by
  have hlt : c.toNat < 256 := by
    simp only [Char.isDigit, Bool.and_eq_true, decide_eq_true_eq] at h
    have hle : c.val.toNat ≤ 57 := h.2
    show c.val.toNat < 256
    omega
  rw [chr, UInt8.toNat_ofNat', Nat.mod_eq_of_lt hlt, Char.ofNat_toNat]

theorem map_chr_inj {xs ys : List Char} (hxs : ∀ c ∈ xs, c.isDigit = true)
    (hys : ∀ c ∈ ys, c.isDigit = true) : xs.map chr = ys.map chr ↔ xs = ys := by
  have hread : ∀ {zs : List Char}, (∀ c ∈ zs, c.isDigit = true) →
      (zs.map chr).map (fun b => Char.ofNat b.toNat) = zs := by
    intro zs hzs
    rw [List.map_map]
    exact (List.map_congr_left fun c hc => ofNat_chr (hzs c hc)).trans (List.map_id zs)
  constructor
  · intro h
    rw [← hread hxs, h, hread hys]
  · exact congrArg _

/-- The address a server listens at: the bytes of `sin_addr`, and the port. -/
structure InetAddress where
  a : UInt8
  b : UInt8
  c : UInt8
  d : UInt8
  port : UInt16
  deriving DecidableEq, Repr

namespace InetAddress

variable (x : InetAddress)

/-- `toIp`, as `inet_ntop` writes it. -/
def toIp : Str :=
  lit (toString x.a.toNat) ++ lit "." ++ lit (toString x.b.toNat) ++ lit "." ++
    lit (toString x.c.toNat) ++ lit "." ++ lit (toString x.d.toNat)

/-- `toIpPort`; `snprintf` writes at most 31 characters. -/
def toIpPort : Str := (x.toIp ++ lit ":" ++ lit (toString x.port.toNat)).take 31

theorem length_toIpPort_le : x.toIpPort.length ≤ 21 := by
  have hbyte : ∀ y : UInt8, (lit (toString y.toNat)).length ≤ 3 := fun y =>
    length_lit_toString_le (by decide) (y.toNat_lt.trans (by decide))
  have hport : (lit (toString x.port.toNat)).length ≤ 5 :=
    length_lit_toString_le (by decide) (x.port.toNat_lt.trans (by decide))
  have ha := hbyte x.a
  have hb := hbyte x.b
  have hc := hbyte x.c
  have hd := hbyte x.d
  have hdot : (lit ".").length = 1 := rfl
  have hcolon : (lit ":").length = 1 := rfl
  refine (List.length_take_le' _ _).trans ?_
  simp only [toIp, List.length_append]
  omega

end InetAddress

namespace TcpServer

/-- The name of the connection with a number. -/
def nameOf (name hostport : Str) (id : ℕ) : Str :=
  name ++ (lit ":" ++ hostport ++ lit "#" ++ lit (toString id)).take 31

/-- How many digits of the number fit. -/
def room (hostport : Str) : ℕ := 29 - hostport.length

/-- Two numbers give the same name exactly when their digits that fit are the same. -/
theorem nameOf_inj (name : Str) {hostport : Str} (h : hostport.length ≤ 28) (m n : ℕ) :
    nameOf name hostport m = nameOf name hostport n ↔
      Decimal.leading (room hostport) m = Decimal.leading (room hostport) n := by
  have hlen : (lit ":" ++ hostport ++ lit "#").length = hostport.length + 2 := by
    simp [lit]
  have htake : ∀ k : ℕ, (lit ":" ++ hostport ++ lit "#" ++ lit (toString k)).take 31 =
      (lit ":" ++ hostport ++ lit "#") ++ ((Nat.toDigits 10 k).take (room hostport)).map chr := by
    intro k
    rw [List.take_append, List.take_of_length_le (by rw [hlen]; omega), hlen, lit_toString,
      List.map_take, room]
    congr 2
    omega
  have hdigit : ∀ k : ℕ, ∀ c ∈ (Nat.toDigits 10 k).take (room hostport), c.isDigit = true :=
    fun k c hc => Nat.isDigit_of_mem_toDigits (by decide) (by decide) (List.mem_of_mem_take hc)
  rw [nameOf, nameOf, htake, htake, List.append_cancel_left_eq, List.append_cancel_left_eq,
    map_chr_inj (hdigit m) (hdigit n), Decimal.take_toDigits_inj]
  rw [room]
  omega

variable (s : TcpServer)

/-- The connection was accepted and not removed. -/
def Live (c : ℕ) : Prop := s.Accepted c ∧ (s.conn c).removals = 0

instance (c : ℕ) : Decidable (s.Live c) := inferInstanceAs (Decidable (_ ∧ _))

/-- What the base loop does with `connections_`. -/
inductive BaseEvent
  /-- The acceptor has a new connection. -/
  | newConnection
  /-- A connection closed, and the functor that its close callback queued runs. -/
  | removeConnectionInLoop (c : ℕ)
  deriving DecidableEq, Repr

def baseStep? : BaseEvent → Option TcpServer
  | .newConnection => s.newConnection
  | .removeConnectionInLoop c => if s.Live c then s.removeConnectionInLoop c else some s

/-- A step whose assertion fails ends the program; the run goes on as if it was not made. -/
def baseStep (e : BaseEvent) : TcpServer := (s.baseStep? e).getD s

/-- A new connection overwrites no entry, a connection that closed finds its own, and every live
connection keeps its entry. -/
def KeepsEntries (s : TcpServer) (e : BaseEvent) (s' : TcpServer) : Prop :=
  (match e with
    | .newConnection => s.connName ∉ s.connections
    | .removeConnectionInLoop c => s.Live c → s.connections[(s.conn c).name]? = some c) ∧
  ∀ c, s'.Live c → s'.connections[(s'.conn c).name]? = some c

/-- The digits that fit of the number of a new connection are not those of a live one. -/
def NewDigits : BaseEvent → Prop
  | .newConnection => ∀ c, s.Live c →
      Decimal.leading (room s.hostport) c ≠ Decimal.leading (room s.hostport) s.nextConnId
  | .removeConnectionInLoop _ => True

/-- The connections have the names of their numbers, and the entries are those of the live ones. -/
structure Named : Prop where
  hostport_le : s.hostport.length ≤ 28
  pos : 1 ≤ s.nextConnId
  names : ∀ c, s.Accepted c → (s.conn c).name = nameOf s.name s.hostport c
  entry : ∀ x c, s.connections[x]? = some c ↔ s.Live c ∧ (s.conn c).name = x

/-! ### The steps -/

section Steps

variable {s} {s' : TcpServer} {c : ℕ}

/-- What a server is after it accepted a connection. -/
structure Accepts (s s' : TcpServer) : Prop where
  name : s'.name = s.name
  hostport : s'.hostport = s.hostport
  nextConnId : s'.nextConnId = s.nextConnId + 1
  connections : s'.connections = s.connections.insert s.connName s.nextConnId
  conn_name : (s'.conn s.nextConnId).name = s.connName
  conn_removals : (s'.conn s.nextConnId).removals = 0
  conn_other : ∀ c, c ≠ s.nextConnId → s'.conn c = s.conn c

theorem accepts_newConnection : ∃ s', s.newConnection = some s' ∧ Accepts s s' := by
  obtain ⟨next, ioLoop, heq⟩ := newConnection_eq (s := s)
  have hself : (TcpServer.accept { s with next := next } ioLoop).conn s.nextConnId =
      .new s.connName ioLoop := Function.update_self ..
  have hother : ∀ c, c ≠ s.nextConnId →
      (TcpServer.accept { s with next := next } ioLoop).conn c = s.conn c :=
    fun c hne => Function.update_of_ne hne ..
  rw [heq, runInLoop]
  split_ifs with hloop
  · have hestablished : ((TcpServer.accept { s with next := next } ioLoop).conn
        s.nextConnId).connectEstablished =
          some ({ Connection.new s.connName ioLoop with
            state := .kConnected, polled := true }.connectionCallback) := by
      rw [hself]
      rfl
    rw [functor, hestablished]
    refine ⟨_, rfl, rfl, rfl, rfl, rfl, ?_, ?_, fun c hne => ?_⟩
    · simp [modify, Connection.connectionCallback, Connection.new]
    · simp [modify, Connection.connectionCallback, Connection.new]
    · exact (Function.update_of_ne hne ..).trans (hother c hne)
  · refine ⟨_, rfl, rfl, rfl, rfl, rfl, ?_, ?_, hother⟩
    · exact congrArg Connection.name hself
    · exact congrArg Connection.removals hself

theorem accepts_baseStep (s : TcpServer) : Accepts s (s.baseStep .newConnection) := by
  obtain ⟨s', hs', h⟩ := accepts_newConnection (s := s)
  rw [baseStep, baseStep?, hs']
  exact h

theorem Accepts.live_iff (h : Accepts s s') (hpos : 1 ≤ s.nextConnId) :
    s'.Live c ↔ s.Live c ∨ c = s.nextConnId := by
  rw [Live, Live, Accepted, Accepted, h.nextConnId]
  rcases eq_or_ne c s.nextConnId with rfl | hne
  · rw [h.conn_removals]
    exact iff_of_true ⟨⟨hpos, Nat.lt_succ_self _⟩, rfl⟩ (.inr rfl)
  · rw [h.conn_other c hne]
    constructor
    · rintro ⟨⟨h₁, h₂⟩, hr⟩
      exact .inl ⟨⟨h₁, by omega⟩, hr⟩
    · rintro (⟨⟨h₁, h₂⟩, hr⟩ | heq)
      · exact ⟨⟨h₁, by omega⟩, hr⟩
      · exact absurd heq hne

/-- A connection with an entry is removed. -/
theorem baseStep_remove (hlive : s.Live c) (hmem : (s.conn c).name ∈ s.connections) :
    s.baseStep (.removeConnectionInLoop c) =
      (s.erase c).queueInLoop (s.conn c).loop (.connectDestroyed c) := by
  rw [baseStep, baseStep?, if_pos hlive, removeConnectionInLoop, Runs.guard_bind hmem]
  rfl

theorem baseStep_of_not_live (hlive : ¬ s.Live c) : s.baseStep (.removeConnectionInLoop c) = s := by
  rw [baseStep, baseStep?, if_neg hlive, Option.getD_some]

theorem Named.mem (h : s.Named) (hlive : s.Live c) : (s.conn c).name ∈ s.connections :=
  Std.ExtTreeMap.mem_iff_isSome_getElem?.2 (by rw [(h.entry _ c).2 ⟨hlive, rfl⟩]; rfl)

/-- A new connection whose name is not taken. -/
theorem Named.accepts (h : s.Named) (hs' : Accepts s s') (hnew : s.connName ∉ s.connections) :
    s'.Named := by
  refine ⟨hs'.hostport ▸ h.hostport_le, ?_, fun c hacc => ?_, fun x c => ?_⟩
  · rw [hs'.nextConnId]
    exact Nat.le_add_left 1 _
  · rw [hs'.name, hs'.hostport]
    rcases eq_or_ne c s.nextConnId with rfl | hne
    · exact hs'.conn_name
    · rw [hs'.conn_other c hne]
      refine h.names c ⟨hacc.1, ?_⟩
      have hlt := hacc.2
      rw [hs'.nextConnId] at hlt
      omega
  · rw [hs'.connections, Std.ExtTreeMap.getElem?_insert, hs'.live_iff h.pos]
    simp only [Std.LawfulEqCmp.compare_eq_iff_eq]
    have hnext : ¬ s.Live s.nextConnId := fun hlive => Nat.lt_irrefl _ hlive.1.2
    rcases eq_or_ne c s.nextConnId with rfl | hne
    · rw [hs'.conn_name]
      have hold : s.connections[x]? ≠ some s.nextConnId := fun hx => hnext ((h.entry _ _).1 hx).1
      split_ifs with hx
      · simp [hx]
      · simp [hold, hx]
    · rw [hs'.conn_other c hne]
      simp only [hne, or_false]
      rw [← h.entry x c]
      split_ifs with hx
      · subst hx
        rw [Std.ExtTreeMap.getElem?_eq_none hnew]
        simp [hne.symm]
      · exact Iff.rfl

theorem Named.remove (h : s.Named) (hlive : s.Live c) :
    (s.baseStep (.removeConnectionInLoop c)).Named := by
  rw [baseStep_remove hlive (h.mem hlive)]
  have hself : ((s.erase c).queueInLoop (s.conn c).loop (.connectDestroyed c)).conn c =
      (s.conn c).erased := Function.update_self ..
  have hother : ∀ c', c' ≠ c →
      ((s.erase c).queueInLoop (s.conn c).loop (.connectDestroyed c)).conn c' = s.conn c' :=
    fun c' hne => Function.update_of_ne hne ..
  refine ⟨h.hostport_le, h.pos, fun c' hacc => ?_, fun x c' => ?_⟩
  · rcases eq_or_ne c' c with rfl | hne
    · rw [hself]
      exact h.names c' hacc
    · rw [hother c' hne]
      exact h.names c' hacc
  · show (s.connections.erase (s.conn c).name)[x]? = some c' ↔ _
    rw [Std.ExtTreeMap.getElem?_erase, Live]
    simp only [Std.LawfulEqCmp.compare_eq_iff_eq]
    rcases eq_or_ne c' c with rfl | hne
    · rw [hself]
      refine iff_of_false (fun hx => ?_) fun hx => absurd hx.1.2 (Nat.succ_ne_zero _)
      split_ifs at hx with heq
      exact heq ((h.entry _ _).1 hx).2
    · rw [hother c' hne]
      have hentry := h.entry x c'
      rw [Live] at hentry
      split_ifs with hx
      · subst hx
        refine iff_of_false (by simp) fun hx => hne ?_
        have hc' := hentry.2 hx
        exact Option.some.inj (hc'.symm.trans ((h.entry _ _).2 ⟨hlive, rfl⟩))
      · exact hentry

theorem Named.connName_notMem_iff (h : s.Named) :
    s.connName ∉ s.connections ↔ s.NewDigits .newConnection := by
  rw [NewDigits, not_iff_comm]
  push Not
  constructor
  · rintro ⟨c, hlive, heq⟩
    have hname : (s.conn c).name = s.connName :=
      (h.names c hlive.1).trans ((nameOf_inj s.name h.hostport_le _ _).2 heq)
    rw [← hname]
    exact h.mem hlive
  · intro hmem
    obtain ⟨c, hc⟩ := Option.isSome_iff_exists.1 (Std.ExtTreeMap.mem_iff_isSome_getElem?.1 hmem)
    obtain ⟨hlive, hname⟩ := (h.entry _ c).1 hc
    exact ⟨c, hlive, (nameOf_inj s.name h.hostport_le _ _).1 ((h.names c hlive.1).symm.trans hname)⟩

/-- What the step of a named server keeps. -/
theorem Named.baseStep (h : s.Named) {e : BaseEvent} (he : s.NewDigits e) : (s.baseStep e).Named := by
  cases e with
  | newConnection => exact h.accepts (accepts_baseStep s) (h.connName_notMem_iff.2 he)
  | removeConnectionInLoop c =>
    by_cases hlive : s.Live c
    · exact h.remove hlive
    · rwa [baseStep_of_not_live hlive]

theorem Named.keepsEntries_iff (h : s.Named) (e : BaseEvent) :
    KeepsEntries s e (s.baseStep e) ↔ s.NewDigits e := by
  constructor
  · rintro ⟨hstep, -⟩
    cases e with
    | newConnection => exact h.connName_notMem_iff.1 hstep
    | removeConnectionInLoop c => trivial
  · intro he
    refine ⟨?_, fun c hlive => ((h.baseStep he).entry _ c).2 ⟨hlive, rfl⟩⟩
    cases e with
    | newConnection => exact h.connName_notMem_iff.2 he
    | removeConnectionInLoop c => exact fun hlive => (h.entry _ c).2 ⟨hlive, rfl⟩

end Steps

theorem named_init (name : Str) {hostport : Str} (h : hostport.length ≤ 28) (numThreads : ℕ) :
    (init name hostport numThreads).Named := by
  have hlive : ∀ c, ¬ (init name hostport numThreads).Live c := fun c hlive => by
    have hle := hlive.1.1
    have hlt : c < 1 := hlive.1.2
    omega
  exact ⟨h, le_refl 1, fun c hacc => absurd ⟨hacc, rfl⟩ (hlive c),
    fun x c => iff_of_false (by simp [init]) fun hx => hlive c hx.1⟩

/-- Every step keeps the entries exactly when every new number has digits of its own. -/
theorem keepsEntries_run_iff (name : Str) {hostport : Str} (h : hostport.length ≤ 28)
    (numThreads : ℕ) (events : List BaseEvent) :
    Runs.EveryStep baseStep KeepsEntries (init name hostport numThreads) events ↔
      Runs.EveryStep baseStep (fun s e _ => s.NewDigits e) (init name hostport numThreads) events :=
  Runs.everyStep_iff (I := Named) (fun _ e hs => hs.keepsEntries_iff e)
    (fun _ e hs he => hs.baseStep ((hs.keepsEntries_iff e).1 he)) (named_init name h numThreads)
    events

/-! ### How many connections it takes -/

theorem baseStep_counts (s : TcpServer) (e : BaseEvent) :
    (s.baseStep e).hostport = s.hostport ∧
      (s.baseStep e).nextConnId = s.nextConnId + [e].count .newConnection := by
  cases e with
  | newConnection =>
    have h := accepts_baseStep s
    exact ⟨h.hostport, h.nextConnId⟩
  | removeConnectionInLoop c =>
    by_cases hlive : s.Live c
    · by_cases hmem : (s.conn c).name ∈ s.connections
      · rw [baseStep_remove hlive hmem]
        exact ⟨rfl, rfl⟩
      · rw [baseStep, baseStep?, if_pos hlive, removeConnectionInLoop, Runs.guard_bind_none hmem]
        exact ⟨rfl, rfl⟩
    · rw [baseStep_of_not_live hlive]
      exact ⟨rfl, rfl⟩

theorem run_counts (s : TcpServer) (events : List BaseEvent) :
    (Runs.run baseStep s events).hostport = s.hostport ∧
      (Runs.run baseStep s events).nextConnId = s.nextConnId + events.count .newConnection := by
  induction events generalizing s with
  | nil => exact ⟨rfl, rfl⟩
  | cons e events ih =>
    obtain ⟨hhostport, hnext⟩ := baseStep_counts s e
    obtain ⟨hhostport', hnext'⟩ := ih (s.baseStep e)
    rw [Runs.run_cons]
    refine ⟨hhostport'.trans hhostport, ?_⟩
    rw [hnext', hnext, Nat.add_assoc, ← List.count_append, List.singleton_append]

/-- No number has digits that are cut off. -/
theorem newDigits_of_count_lt {name hostport : Str} {numThreads : ℕ} (h : hostport.length ≤ 28)
    {events : List BaseEvent} (hcount : events.count .newConnection < 10 ^ room hostport) :
    Runs.EveryStep baseStep (fun s e _ => s.NewDigits e) (init name hostport numThreads) events := by
  intro pre e post hevents
  cases e with
  | removeConnectionInLoop c => trivial
  | newConnection =>
    obtain ⟨hhostport, hnext⟩ := run_counts (init name hostport numThreads) pre
    intro c hlive heq
    rw [hhostport] at heq
    have hroom : 0 < room hostport := by
      rw [room]
      omega
    have hlong := Decimal.le_of_leading_eq hroom hlive.1.2 heq
    rw [hevents, List.count_append, List.count_cons_self] at hcount
    rw [hnext] at hlong
    have hone : (init name hostport numThreads).nextConnId = 1 := rfl
    omega

/-- **The names.** In every run of fewer than 2^31 accepted connections, closed in any order, at
every address: a new connection overwrites no live one, and each connection that closes finds its
own entry, exactly when the decimal digits that fit of the number of each new connection are not
those of a live one. This is so at every address of at most 19 characters, and at every address for
fewer than 10^8 connections. -/
theorem names_iff (name : Str) (listenAddr : InetAddress) (numThreads : ℕ)
    (events : List BaseEvent) (hcount : events.count .newConnection < 2 ^ 31) :
    (Runs.EveryStep baseStep KeepsEntries (init name listenAddr.toIpPort numThreads) events ↔
      Runs.EveryStep baseStep (fun s e _ => s.NewDigits e)
        (init name listenAddr.toIpPort numThreads) events) ∧
    (listenAddr.toIpPort.length ≤ 19 ∨ events.count .newConnection < 10 ^ 8 →
      Runs.EveryStep baseStep KeepsEntries (init name listenAddr.toIpPort numThreads) events) := by
  have hlen := listenAddr.length_toIpPort_le
  have hlen' : listenAddr.toIpPort.length ≤ 28 := hlen.trans (by decide)
  have hiff := keepsEntries_run_iff name hlen' numThreads events
  refine ⟨hiff, fun hshort => hiff.2 (newDigits_of_count_lt hlen' ?_)⟩
  rcases hshort with hshort | hshort
  · have hroom : 10 ^ 10 ≤ 10 ^ room listenAddr.toIpPort :=
      Nat.pow_le_pow_right (by decide) (by rw [room]; omega)
    omega
  · have hroom : 10 ^ 8 ≤ 10 ^ room listenAddr.toIpPort :=
      Nat.pow_le_pow_right (by decide) (by rw [room]; omega)
    omega

/-- A connection is accepted, another one, and the first closes. -/
theorem names_iff_three :
    Runs.EveryStep baseStep KeepsEntries (init (lit "s") (InetAddress.toIpPort ⟨127, 0, 0, 1, 1111⟩) 0)
      [.newConnection, .newConnection, .removeConnectionInLoop 1] :=
  (names_iff (lit "s") ⟨127, 0, 0, 1, 1111⟩ 0
    [.newConnection, .newConnection, .removeConnectionInLoop 1] (by decide)).2 (.inr (by decide))

/-- `n` connections from the number `k` on, each closed before the next is accepted. -/
def churn : ℕ → ℕ → List BaseEvent
  | _, 0 => []
  | k, n + 1 => .newConnection :: .removeConnectionInLoop k :: churn (k + 1) n

theorem count_churn (k n : ℕ) : (churn k n).count .newConnection = n := by
  induction n generalizing k with
  | zero => rfl
  | succ n ih =>
    rw [churn, List.count_cons_self, List.count_cons_of_ne (by simp), ih]

/-- The connections before are left alone. -/
theorem run_churn {s : TcpServer} {k : ℕ} (hpos : 1 ≤ k) (hk : s.nextConnId = k) (n : ℕ) :
    ∀ c < k, (Runs.run baseStep s (churn k n)).conn c = s.conn c := by
  induction n generalizing s k with
  | zero => exact fun _ _ => rfl
  | succ n ih =>
    intro c hc
    have haccepts := accepts_baseStep s
    have hlive : (s.baseStep .newConnection).Live k :=
      (haccepts.live_iff (hk.symm ▸ hpos)).2 (.inr hk.symm)
    have hmem : ((s.baseStep .newConnection).conn k).name ∈
        (s.baseStep .newConnection).connections := by
      rw [haccepts.connections, ← hk, haccepts.conn_name]
      exact Std.ExtTreeMap.mem_insert_self
    have hnext : ((s.baseStep .newConnection).baseStep (.removeConnectionInLoop k)).nextConnId =
        k + 1 := by
      rw [(baseStep_counts _ _).2, haccepts.nextConnId, hk]
      rfl
    rw [churn, Runs.run_cons, Runs.run_cons, ih (Nat.le_add_left 1 k) hnext c (by omega),
      baseStep_remove hlive hmem]
    exact (Function.update_of_ne hc.ne _ _).trans (haccepts.conn_other c (by omega))

/-- Connection `a` stays, and every other one before connection `b` is closed at once. -/
def collision (a b : ℕ) : List BaseEvent :=
  churn 1 (a - 1) ++ .newConnection :: (churn (a + 1) (b - a - 1) ++ [.newConnection])

theorem not_keepsEntries_collision (name : Str) {hostport : Str} (h : hostport.length ≤ 28)
    (numThreads : ℕ) {a b : ℕ} (ha : 1 ≤ a) (hab : a < b)
    (heq : Decimal.leading (room hostport) a = Decimal.leading (room hostport) b) :
    ¬ Runs.EveryStep baseStep KeepsEntries (init name hostport numThreads) (collision a b) := by
  rw [keepsEntries_run_iff name h]
  intro hrun
  have hnew := hrun (churn 1 (a - 1) ++ .newConnection :: churn (a + 1) (b - a - 1)) .newConnection
    [] (by simp [collision])
  obtain ⟨hhostport, hnext⟩ := run_counts (init name hostport numThreads)
    (churn 1 (a - 1) ++ .newConnection :: churn (a + 1) (b - a - 1))
  obtain ⟨-, hnext₁⟩ := run_counts (init name hostport numThreads) (churn 1 (a - 1))
  have hone : (init name hostport numThreads).nextConnId = 1 := rfl
  rw [count_churn, hone, Nat.add_sub_cancel' ha] at hnext₁
  rw [List.count_append, List.count_cons_self, count_churn, count_churn, hone] at hnext
  refine hnew a ?_ ?_
  · -- connection `a` is live when it is accepted, and left alone after that
    have haccepts := accepts_baseStep (Runs.run baseStep (init name hostport numThreads)
      (churn 1 (a - 1)))
    have hconn := run_churn (n := b - a - 1) (Nat.le_add_left 1 a)
      (haccepts.nextConnId.trans (by rw [hnext₁])) a (Nat.lt_succ_self a)
    rw [Runs.run_append, Runs.run_cons] at hnext ⊢
    refine ⟨⟨ha, by rw [hnext]; omega⟩, ?_⟩
    rw [hconn]
    have hremovals := haccepts.conn_removals
    rwa [hnext₁] at hremovals
  · rw [hhostport, hnext, show 1 + (a - 1 + (b - a - 1 + 1)) = b by omega]
    exact heq

/-- At an address of 21 characters, connection 100000000 has the name of connection 10000000. -/
theorem names_not_distinct :
    (collision 10000000 100000000).count .newConnection < 2 ^ 31 ∧
      ¬ Runs.EveryStep baseStep KeepsEntries
        (init (lit "s") (InetAddress.toIpPort ⟨255, 255, 255, 255, 65535⟩) 0)
        (collision 10000000 100000000) := by
  constructor
  · rw [collision, List.count_append, List.count_cons_self, List.count_append, count_churn,
      count_churn, List.count_singleton_self]
    norm_num
  · exact not_keepsEntries_collision _
      ((InetAddress.length_toIpPort_le _).trans (by decide)) 0 (by decide) (by decide)
      (by decide +kernel)

end TcpServer

end Huaweip2p
