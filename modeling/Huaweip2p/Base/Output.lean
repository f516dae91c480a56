import Huaweip2p.Base.TcpConnection
import Huaweip2p.Lib.Runs

/-!
# The output of a connection

An established connection to which `send` and `shutdown` are called in the loop thread, and whose
socket becomes writable again and again, until it is closed. The bytes written and those that wait
are what was accepted; the channel asks for writing exactly while bytes wait; the half-close comes
once, after `shutdown`, when nothing waits any more.

* `sendInLoop_writing`, `sendInLoop_channel_iff`, `handleWrite_cases`: what the two writers do to
  the channel;
* `Output`: a connection with the data its sends were accepted with;
* `Output.Inv.run`: the invariant of all runs;
* `Output.drained_run`: after `shutdown` every byte is written and the half-close is made, as long
  as the socket takes bytes.
-/

namespace Huaweip2p

namespace TcpConnection

/-- `send(const void*, size_t)` and `send(const string&)` in the loop thread. -/
def sendData (c : TcpConnection) (data : Str) (w : Option ℕ) : Option TcpConnection :=
  if c.state = .kConnected then c.sendInLoop data w else some c

/-- `send(Buffer*)` sends the readable bytes. -/
theorem map_fst_send (c : TcpConnection) (buf : Buffer) (w : Option ℕ) :
    (c.send buf w).map Prod.fst = c.sendData buf.content w := by
  rw [send, sendData]
  split_ifs
  · cases c.sendInLoop buf.content w <;> rfl
  · rfl

/-- The channel asks for writing exactly when bytes wait. -/
def WritesPending (c : TcpConnection) : Prop :=
  c.channel.isWriting = true ↔ c.outputBuffer.content ≠ []

theorem sendInLoop_writing {c c' : TcpConnection} (hwf : c.outputBuffer.WellFormed)
    (h : c.WritesPending) {data : Str} {w : Option ℕ} (hc : c.sendInLoop data w = some c') :
    c'.WritesPending ∧ c'.shutdownWrites = c.shutdownWrites := by
  rw [sendInLoop] at hc
  dsimp only at hc
  generalize (if ¬ c.channel.isWriting ∧ c.outputBuffer.readableBytes = 0 then
    (socketWrite data w).getD 0 else 0) = n at hc
  by_cases hremaining : data.length - n > 0
  · obtain ⟨b, hb, -, hcontent⟩ := hwf.append (data.drop n)
    rw [if_pos hremaining, hb] at hc
    obtain rfl := Option.some.inj hc
    have hne : b.content ≠ [] := by
      rw [hcontent]
      intro hnil
      have := congrArg List.length (List.append_eq_nil_iff.1 hnil).2
      rw [List.length_drop, List.length_nil] at this
      omega
    refine ⟨iff_of_true ?_ hne, rfl⟩
    show Channel.isWriting (if c.channel.isWriting then c.channel else c.channel.enableWriting) =
      true
    split_ifs with hwriting
    · exact hwriting
    · rfl
  · rw [if_neg hremaining] at hc
    obtain rfl := Option.some.inj hc
    exact ⟨h, rfl⟩

/-- A message sent while the channel does not ask for writing leaves it so exactly when it is empty
or written at once. -/
theorem sendInLoop_channel_iff {c c' : TcpConnection} (hwf : c.outputBuffer.WellFormed)
    (hnot : c.channel.isWriting = false) {data : Str} {w : Option ℕ}
    (hc : c.sendInLoop data w = some c') : c'.channel = c.channel ↔
      data = [] ∨ (c.outputBuffer.content = [] ∧ ∃ n, w = some n ∧ data.length ≤ n) := by
  rw [sendInLoop] at hc
  dsimp only at hc
  generalize hn : (if ¬ c.channel.isWriting ∧ c.outputBuffer.readableBytes = 0 then
    (socketWrite data w).getD 0 else 0) = n at hc
  have hall : data.length ≤ n ↔
      data = [] ∨ (c.outputBuffer.content = [] ∧ ∃ n, w = some n ∧ data.length ≤ n) := by
    rw [← List.length_eq_zero_iff, ← List.length_eq_zero_iff, hwf.length_content, ← hn]
    by_cases hempty : c.outputBuffer.readableBytes = 0
    · rw [if_pos ⟨by simp [hnot], hempty⟩]
      cases w with
      | none => simp [socketWrite]
      | some n =>
        simp only [socketWrite, Option.map_some, Option.getD_some, hempty, true_and,
          Option.some.injEq, exists_eq_left']
        omega
    · rw [if_neg fun hcond => hempty hcond.2]
      simp only [hempty, false_and, or_false]
      omega
  by_cases hremaining : data.length - n > 0
  · obtain ⟨b, hb, -, -⟩ := hwf.append (data.drop n)
    rw [if_pos hremaining, hb] at hc
    obtain rfl := Option.some.inj hc
    refine iff_of_false ?_ fun h => ?_
    · simp only [hnot, Bool.false_eq_true, if_false]
      intro heq
      have hwriting : c.channel.enableWriting.isWriting = true := rfl
      rw [heq, hnot] at hwriting
      exact Bool.false_ne_true hwriting
    · have := hall.2 h
      omega
  · rw [if_neg hremaining] at hc
    obtain rfl := Option.some.inj hc
    exact iff_of_true rfl (hall.1 (by omega))

/-- A writable socket: nothing happens; or some of the bytes that wait are written, but not all; or
all are, the channel stops asking for writing, and a connection that is shutting down is
half-closed. -/
theorem handleWrite_cases {c c' : TcpConnection} (hwf : c.outputBuffer.WellFormed) {w : Option ℕ}
    (hc : c.handleWrite w = some c') :
    c' = c ∨
      (c.channel.isWriting = true ∧ c'.channel = c.channel ∧ c'.outputBuffer.content ≠ [] ∧
        c'.shutdownWrites = c.shutdownWrites) ∨
      (c.channel.isWriting = true ∧ c'.channel = c.channel.disableWriting ∧
        c'.outputBuffer.content = [] ∧ c'.shutdownWrites =
          if c.state = .kDisconnecting then c.shutdownWrites + 1 else c.shutdownWrites) := by
  rw [handleWrite] at hc
  by_cases hwriting : c.channel.isWriting = true
  swap
  · rw [if_neg hwriting] at hc
    exact .inl (Option.some.inj hc).symm
  rw [if_pos hwriting] at hc
  cases hw : socketWrite c.outputBuffer.content w with
  | none =>
    rw [hw] at hc
    exact .inl (Option.some.inj hc).symm
  | some n =>
    rw [hw] at hc
    by_cases hn : n > 0
    swap
    · simp only [hn, if_false] at hc
      exact .inl (Option.some.inj hc).symm
    have hle : n ≤ c.outputBuffer.readableBytes := by
      obtain ⟨k, -, rfl⟩ := Option.map_eq_some_iff.1 hw
      exact (min_le_right _ _).trans_eq hwf.length_content
    obtain ⟨b, hb, hwfb, -⟩ := hwf.retrieve hle
    simp only [hn, if_true, hb, Option.bind_eq_bind, Option.bind_some] at hc
    refine .inr ?_
    by_cases hempty : b.readableBytes = 0
    · have hcontent : b.content = [] :=
        List.eq_nil_of_length_eq_zero (hwfb.length_content.trans hempty)
      rw [if_pos hempty] at hc
      refine .inr ⟨hwriting, ?_⟩
      by_cases hstate : c.state = .kDisconnecting
      · rw [if_pos hstate, shutdownInLoop, if_neg (by simp [Channel.isWriting,
          Channel.disableWriting])] at hc
        obtain rfl := Option.some.inj hc
        exact ⟨rfl, hcontent, by rw [if_pos hstate]⟩
      · rw [if_neg hstate] at hc
        obtain rfl := Option.some.inj hc
        exact ⟨rfl, hcontent, by rw [if_neg hstate]⟩
    · rw [if_neg hempty] at hc
      obtain rfl := Option.some.inj hc
      refine .inl ⟨hwriting, rfl, fun hnil => hempty ?_, rfl⟩
      rw [← hwfb.length_content]
      exact congrArg List.length hnil

/-- A socket that takes bytes: fewer wait. -/
theorem handleWrite_length_lt {c c' : TcpConnection} (hwf : c.outputBuffer.WellFormed)
    (hwriting : c.channel.isWriting = true) (hne : c.outputBuffer.content ≠ []) {n : ℕ}
    (hn : 0 < n) (hc : c.handleWrite (some n) = some c') :
    c'.outputBuffer.content.length < c.outputBuffer.content.length := by
  have hlength := List.length_pos_of_ne_nil hne
  obtain ⟨b, hb, -, hcontent⟩ := hwf.retrieve
    ((min_le_right n _).trans_eq hwf.length_content)
  have hpos : min n c.outputBuffer.content.length > 0 := by omega
  have hbuffer : c'.outputBuffer = b := by
    rw [handleWrite, if_pos hwriting] at hc
    simp only [socketWrite, Option.map_some, hpos, if_true, hb, Option.bind_eq_bind,
      Option.bind_some] at hc
    split_ifs at hc
    all_goals
      obtain rfl := Option.some.inj hc
      simp
  rw [hbuffer, hcontent, List.length_drop]
  omega

end TcpConnection

/-- A connection with what its sends were accepted with, and whether `shutdown` was called. -/
structure Output where
  conn : TcpConnection
  accepted : List Str
  shutdownCalled : Bool

namespace Output

def init : Output := ⟨.established, [], false⟩

/-- What happens to a connection before it is closed. -/
inductive Event
  /-- `send` in the loop thread, with the result of the write it may make. -/
  | send (data : Str) (w : Option ℕ)
  /-- `shutdown` in the loop thread. -/
  | shutdown
  /-- The socket is writable; the result of the write. -/
  | handleWrite (w : Option ℕ)
  deriving DecidableEq, Repr

def step (s : Output) : Event → Option Output
  | .send data w => do
    let conn ← s.conn.sendData data w
    return { s with
      conn := conn
      accepted := if s.conn.state = .kConnected then s.accepted ++ [data] else s.accepted }
  | .shutdown => some { s with conn := s.conn.shutdown, shutdownCalled := true }
  | .handleWrite w => do
    let conn ← s.conn.handleWrite w
    return { s with conn := conn }

/-- The bytes accepted are written or wait; the channel asks for writing exactly while bytes wait;
the half-close was made exactly when `shutdown` was called and nothing waits. -/
structure Inv (s : Output) : Prop where
  wellFormed : s.conn.outputBuffer.WellFormed
  accepted_eq : s.conn.accepted = s.accepted.flatten
  writes : s.conn.WritesPending
  state_eq : s.conn.state = if s.shutdownCalled then .kDisconnecting else .kConnected
  shutdownWrites_eq : s.conn.shutdownWrites =
    if s.shutdownCalled ∧ ¬ s.conn.channel.isWriting then 1 else 0

theorem inv_init : init.Inv where
  wellFormed := Buffer.wellFormed_init
  accepted_eq := rfl
  writes := by simp [init, TcpConnection.established, TcpConnection.WritesPending,
    Channel.isWriting]
  state_eq := rfl
  shutdownWrites_eq := rfl

theorem Inv.send {s : Output} (h : s.Inv) (data : Str) (w : Option ℕ) :
    ∃ s', s.step (.send data w) = some s' ∧ s'.Inv ∧
      (s.shutdownCalled = true → s'.accepted = s.accepted) := by
  cases hs : s.shutdownCalled with
  | true =>
    have hstate : s.conn.state ≠ .kConnected := by simp [h.state_eq, hs]
    refine ⟨s, ?_, h, fun _ => rfl⟩
    simp [step, TcpConnection.sendData, hstate]
  | false =>
    have hstate : s.conn.state = .kConnected := by simp [h.state_eq, hs]
    obtain ⟨conn, hconn, haccepts⟩ := s.conn.sendInLoop_spec h.wellFormed data w
    obtain ⟨hwrites, hshutdown⟩ := TcpConnection.sendInLoop_writing h.wellFormed h.writes hconn
    refine ⟨{ s with conn := conn, accepted := s.accepted ++ [data] }, ?_, ?_, by simp⟩
    · simp [step, TcpConnection.sendData, hstate, hconn]
    · exact
        { wellFormed := haccepts.wellFormed
          accepted_eq := by
            show conn.accepted = (s.accepted ++ [data]).flatten
            rw [haccepts.accepted_eq, h.accepted_eq, List.flatten_append, List.flatten_singleton]
          writes := hwrites
          state_eq := haccepts.state_eq.trans h.state_eq
          shutdownWrites_eq := by
            show conn.shutdownWrites = _
            rw [hshutdown, h.shutdownWrites_eq]
            simp [hs] }

theorem Inv.shutdown {s : Output} (h : s.Inv) :
    ∃ s', s.step .shutdown = some s' ∧ s'.Inv ∧
      (s.shutdownCalled = true → s'.accepted = s.accepted) := by
  refine ⟨_, rfl, ?_, fun _ => rfl⟩
  cases hs : s.shutdownCalled with
  | true =>
    have hstate : s.conn.state ≠ .kConnected := by simp [h.state_eq, hs]
    have hsame : s.conn.shutdown = s.conn := by rw [TcpConnection.shutdown, if_neg hstate]
    rw [hsame]
    have hs' : { s with shutdownCalled := true } = s := by rw [← hs]
    rwa [hs']
  | false =>
    have hstate : s.conn.state = .kConnected := by simp [h.state_eq, hs]
    have hzero : s.conn.shutdownWrites = 0 := by simp [h.shutdownWrites_eq, hs]
    have hcalled : s.conn.shutdown =
        { s.conn with state := .kDisconnecting }.shutdownInLoop := by
      rw [TcpConnection.shutdown, if_pos hstate]
    have hchannel : s.conn.shutdown.channel = s.conn.channel := by
      rw [hcalled, TcpConnection.channel_shutdownInLoop]
    exact
      { wellFormed := by rw [hcalled]; simpa using h.wellFormed
        accepted_eq := by
          show s.conn.shutdown.accepted = _
          rw [hcalled, TcpConnection.accepted]
          simpa [TcpConnection.accepted] using h.accepted_eq
        writes := by
          show s.conn.shutdown.channel.isWriting = true ↔ _
          rw [hchannel, hcalled]
          simpa [TcpConnection.WritesPending] using h.writes
        state_eq := by rw [hcalled]; simp
        shutdownWrites_eq := by
          show s.conn.shutdown.shutdownWrites =
            if true ∧ ¬ s.conn.shutdown.channel.isWriting then 1 else 0
          rw [hchannel, hcalled, TcpConnection.shutdownInLoop]
          split_ifs <;> simp_all }

theorem Inv.handleWrite {s : Output} (h : s.Inv) (w : Option ℕ) :
    ∃ s', s.step (.handleWrite w) = some s' ∧ s'.Inv ∧
      (s.shutdownCalled = true → s'.accepted = s.accepted) := by
  obtain ⟨conn, hconn, haccepts⟩ := s.conn.handleWrite_spec h.wellFormed w
  have haccepted : conn.accepted = s.accepted.flatten := by
    rw [haccepts.accepted_eq, List.append_nil, h.accepted_eq]
  refine ⟨{ s with conn := conn }, by simp [step, hconn], ?_, fun _ => rfl⟩
  rcases TcpConnection.handleWrite_cases h.wellFormed hconn with
    rfl | ⟨hwriting, hchannel, hcontent, hshutdown⟩ | ⟨hwriting, hchannel, hcontent, hshutdown⟩
  · exact h
  · exact
      { wellFormed := haccepts.wellFormed
        accepted_eq := haccepted
        writes := by
          show conn.channel.isWriting = true ↔ conn.outputBuffer.content ≠ []
          rw [hchannel]
          exact iff_of_true hwriting hcontent
        state_eq := haccepts.state_eq.trans h.state_eq
        shutdownWrites_eq := by
          show conn.shutdownWrites = if s.shutdownCalled ∧ ¬ conn.channel.isWriting then 1 else 0
          rw [hshutdown, hchannel]
          exact h.shutdownWrites_eq }
  · exact
      { wellFormed := haccepts.wellFormed
        accepted_eq := haccepted
        writes := by
          show conn.channel.isWriting = true ↔ conn.outputBuffer.content ≠ []
          simp [hchannel, hcontent, Channel.isWriting, Channel.disableWriting]
        state_eq := haccepts.state_eq.trans h.state_eq
        shutdownWrites_eq := by
          show conn.shutdownWrites = if s.shutdownCalled ∧ ¬ conn.channel.isWriting then 1 else 0
          have hzero : s.conn.shutdownWrites = 0 := by simp [h.shutdownWrites_eq, hwriting]
          rw [hshutdown, hchannel, h.state_eq, hzero]
          cases s.shutdownCalled <;> simp [Channel.isWriting, Channel.disableWriting] }

/-- A call of `shutdown` is not taken back. -/
theorem shutdownCalled_step {s s' : Output} {e : Event} (h : s.step e = some s')
    (hcalled : s.shutdownCalled = true) : s'.shutdownCalled = true := by
  cases e with
  | shutdown =>
    obtain rfl := Option.some.inj h
    rfl
  | _ =>
    simp only [step, Option.bind_eq_bind, Option.bind_eq_some_iff] at h
    obtain ⟨conn, -, h⟩ := h
    obtain rfl := Option.some.inj h
    exact hcalled

/-- The step lemma: no assertion fails, the invariant is kept, and after `shutdown` nothing more is
accepted. -/
theorem Inv.step {s : Output} (h : s.Inv) (e : Event) :
    ∃ s', s.step e = some s' ∧ s'.Inv ∧
      (s.shutdownCalled = true → s'.accepted = s.accepted ∧ s'.shutdownCalled = true) := by
  have hstep : ∃ s', s.step e = some s' ∧ s'.Inv ∧
      (s.shutdownCalled = true → s'.accepted = s.accepted) := by
    cases e with
    | send data w => exact h.send data w
    | shutdown => exact h.shutdown
    | handleWrite w => exact h.handleWrite w
  obtain ⟨s', hs', hinv, haccepted⟩ := hstep
  exact ⟨s', hs', hinv, fun hcalled => ⟨haccepted hcalled, shutdownCalled_step hs' hcalled⟩⟩

/-- The run lemma. -/
theorem Inv.run {s : Output} (h : s.Inv) (es : List Event) :
    ∃ s', es.foldlM Output.step s = some s' ∧ s'.Inv ∧
      (s.shutdownCalled = true → s'.accepted = s.accepted) := by
  induction es generalizing s with
  | nil => exact ⟨s, rfl, h, fun _ => rfl⟩
  | cons e es ih =>
    obtain ⟨s₁, hs₁, h₁, haccepted₁⟩ := h.step e
    obtain ⟨s', hs', h', haccepted'⟩ := ih h₁
    refine ⟨s', by rw [List.foldlM_cons, hs₁]; exact hs', h', fun hcalled => ?_⟩
    obtain ⟨heq, hcalled₁⟩ := haccepted₁ hcalled
    exact (haccepted' hcalled₁).trans heq

/-- Once the half-close was made, everything accepted is written. -/
theorem Inv.written_eq {s : Output} (h : s.Inv) (hshutdown : 0 < s.conn.shutdownWrites) :
    s.shutdownCalled = true ∧ s.conn.written = s.accepted.flatten := by
  rw [h.shutdownWrites_eq] at hshutdown
  split_ifs at hshutdown with hcond
  · obtain ⟨hcalled, hwriting⟩ := hcond
    have hempty : s.conn.outputBuffer.content = [] := by
      by_contra hne
      exact hwriting (h.writes.2 hne)
    refine ⟨hcalled, ?_⟩
    rw [← h.accepted_eq, TcpConnection.accepted, hempty, List.append_nil]
  · exact absurd hshutdown (Nat.lt_irrefl 0)

/-! ### Every byte is written -/

/-- A step; none fails in a run (`Inv.step`). -/
def next (s : Output) (e : Event) : Output := (s.step e).getD s

/-- The socket takes bytes. -/
def Event.takes : Event → Bool
  | .handleWrite (some n) => 0 < n
  | _ => false

theorem Inv.next {s : Output} (h : s.Inv) (e : Event) : (s.next e).Inv ∧
    (s.shutdownCalled = true →
      (s.next e).accepted = s.accepted ∧ (s.next e).shutdownCalled = true) := by
  obtain ⟨s', hs', h', hcalled⟩ := h.step e
  rw [Output.next, hs']
  exact ⟨h', hcalled⟩

/-- After `shutdown` nothing is added to what waits. -/
theorem Inv.next_length_le {s : Output} (h : s.Inv) (hcalled : s.shutdownCalled = true)
    (e : Event) :
    (s.next e).conn.outputBuffer.content.length ≤ s.conn.outputBuffer.content.length := by
  have hstate : s.conn.state ≠ .kConnected := by simp [h.state_eq, hcalled]
  cases e with
  | send data w =>
    have hsend : s.step (.send data w) = some s := by
      simp [Output.step, TcpConnection.sendData, hstate]
    rw [Output.next, hsend]
    exact le_refl _
  | shutdown =>
    have hsame : s.conn.shutdown = s.conn := by rw [TcpConnection.shutdown, if_neg hstate]
    show s.conn.shutdown.outputBuffer.content.length ≤ _
    rw [hsame]
  | handleWrite w =>
    obtain ⟨conn, hconn, haccepts⟩ := s.conn.handleWrite_spec h.wellFormed w
    have hstep : s.step (.handleWrite w) = some { s with conn := conn } := by
      simp [Output.step, hconn]
    have hwritten := haccepts.written_prefix.length_le
    have haccepted := congrArg List.length haccepts.accepted_eq
    simp only [TcpConnection.accepted, List.append_nil, List.length_append] at haccepted
    rw [Output.next, hstep]
    show conn.outputBuffer.content.length ≤ _
    omega

/-- A socket that takes bytes takes some of those that wait. -/
theorem Inv.next_length_lt {s : Output} (h : s.Inv) (hne : s.conn.outputBuffer.content ≠ [])
    {e : Event} (htakes : e.takes = true) :
    (s.next e).conn.outputBuffer.content.length < s.conn.outputBuffer.content.length := by
  cases e with
  | send _ _ | shutdown => exact absurd htakes Bool.false_ne_true
  | handleWrite w =>
    cases w with
    | none => exact absurd htakes Bool.false_ne_true
    | some n =>
      obtain ⟨conn, hconn, -⟩ := s.conn.handleWrite_spec h.wellFormed (some n)
      have hstep : s.step (.handleWrite (some n)) = some { s with conn := conn } := by
        simp [Output.step, hconn]
      rw [Output.next, hstep]
      exact TcpConnection.handleWrite_length_lt h.wellFormed (h.writes.2 hne) hne
        (of_decide_eq_true htakes) hconn

/-- **Output.** From every state in which `shutdown` was called, when the socket took bytes as
often as bytes waited, whatever else happened in between, everything accepted is written and the
half-close is made, once. -/
theorem drained_run (es es' : List Event) (hcalled : (Runs.run next init es).shutdownCalled = true)
    (hcount : (Runs.run next init es).conn.outputBuffer.readableBytes ≤ es'.countP Event.takes) :
    (Runs.run next init (es ++ es')).conn.written = (Runs.run next init es).accepted.flatten ∧
      (Runs.run next init (es ++ es')).conn.shutdownWrites = 1 := by
  have hinv : (Runs.run next init es).Inv :=
    Runs.run_invariant (I := Inv) (fun s e _ h => (Inv.next h e).1) inv_init
  rw [Runs.run_append]
  generalize Runs.run next init es = s at *
  -- what holds after `s`: the invariant, and nothing more is accepted
  let I (t : Output) : Prop := t.Inv ∧ t.shutdownCalled = true ∧ t.accepted = s.accepted
  have hI : ∀ t e, I t → True → I (t.next e) := fun t e ht _ => by
    obtain ⟨hinv', hafter⟩ := Inv.next ht.1 e
    obtain ⟨haccepted, hcalled'⟩ := hafter ht.2.1
    exact ⟨hinv', hcalled', haccepted.trans ht.2.2⟩
  have htrue : Runs.EveryStep next (fun _ _ _ => True) s es' := fun _ _ _ _ => trivial
  have hdone : (Runs.run next s es').conn.outputBuffer.content = [] := by
    refine Runs.goal_of_rank (I := I) (r := fun t => t.conn.outputBuffer.content.length)
      (G := fun t => t.conn.outputBuffer.content = []) (M := fun _ e => e.takes) hI ?_ ?_ ?_
      ⟨hinv, hcalled, rfl⟩ htrue ?_
    · intro t e ht _ hnil
      have hle := Inv.next_length_le ht.1 ht.2.1 e
      rw [hnil] at hle
      exact List.eq_nil_of_length_eq_zero (Nat.le_zero.1 hle)
    · exact fun t _ hne => List.length_pos_of_ne_nil hne
    · intro t e ht _ hne
      refine .inr ?_
      split_ifs with htakes
      · exact Inv.next_length_lt ht.1 hne htakes
      · exact Inv.next_length_le ht.1 ht.2.1 e
    · rw [Runs.count_eq_countP]
      exact hinv.wellFormed.length_content.trans_le hcount
  obtain ⟨hinv', hcalled', haccepted⟩ := Runs.run_of_everyStep hI ⟨hinv, hcalled, rfl⟩ htrue
  have hhalf : (Runs.run next s es').conn.shutdownWrites = 1 := by
    rw [hinv'.shutdownWrites_eq, if_pos ⟨hcalled', fun hwriting => hinv'.writes.1 hwriting hdone⟩]
  refine ⟨?_, hhalf⟩
  rw [← haccepted]
  exact (hinv'.written_eq (by omega)).2

/-- Of three bytes one is written by `send`; then the socket takes one and one. -/
theorem drained_of_three :
    (Runs.run next init ([.send (lit "abc") (some 1), .shutdown] ++
      [.handleWrite (some 1), .send (lit "d") none, .handleWrite (some 1)])).conn.written =
        lit "abc" := by
  have hwritten := (drained_run [.send (lit "abc") (some 1), .shutdown]
    [.handleWrite (some 1), .send (lit "d") none, .handleWrite (some 1)] (by decide +kernel)
    (by decide +kernel)).1
  have haccepted : (Runs.run next init [.send (lit "abc") (some 1), .shutdown]).accepted.flatten =
      lit "abc" := by decide +kernel
  exact hwritten.trans haccepted

end Output

end Huaweip2p
