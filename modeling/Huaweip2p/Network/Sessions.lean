import Huaweip2p.Server.HalfClose

/-!
# Sessions

A program that serves any number of connections from one loop: bytes arrive on a connection in
pieces, the codec takes the messages out of them and passes each to the handler of the program, and
what the handler sends is written to the socket in pieces of its own.

* `LengthHeaderCodec.onMessageWith`: the loop of the codec with its callback, and
  `onMessageWith_eq`, that it is the loop without it and the callbacks after it;
* `Session`, `Sessions`: one connection, and the program with all of them;
* `serial`: the program as the handler alone, called for one message after the other;
* `Inv.run`: the bytes of a run say what the handler does in the order in which the messages were
  taken.
-/

namespace Huaweip2p

namespace LengthHeaderCodec

variable {S : Type}

/-- The loop of `onMessage` with the message callback and the call of `shutdown`, for at most
`fuel` rounds. The first argument of the callback counts the messages. -/
def onMessageWith (messageCallback : ℕ → S → Str → Option S) (shutdown : S → S) :
    ℕ → ℕ → S → Buffer → Option (S × Buffer)
  | 0, _, _, _ => none
  | fuel + 1, i, s, buf =>
    if kHeaderLen ≤ buf.readableBytes then
      let len := be32toh (buf.peek kHeaderLen)
      if len > 65536 ∨ len < 0 then some (shutdown s, buf)
      else if len.toNat + kHeaderLen ≤ buf.readableBytes then do
        let buf ← buf.retrieve kHeaderLen
        let message := buf.peek len.toNat
        let s ← messageCallback i s message
        let buf ← buf.retrieve len.toNat
        onMessageWith messageCallback shutdown fuel (i + 1) s buf
      else some (s, buf)
    else some (s, buf)

/-- The callback on one message after the other. -/
def callbacks (messageCallback : ℕ → S → Str → Option S) : ℕ → S → List Str → Option S
  | _, s, [] => some s
  | i, s, m :: ms => do
    let s ← messageCallback i s m
    callbacks messageCallback (i + 1) s ms

/-- The callback does not touch the buffer, so the messages might as well be taken out first. -/
theorem onMessageWith_eq (messageCallback : ℕ → S → Str → Option S) (shutdown : S → S)
    (fuel i : ℕ) (s : S) (buf : Buffer) :
    onMessageWith messageCallback shutdown fuel i s buf =
      (onMessageLoop fuel buf).bind fun r => (callbacks messageCallback i s r.1).map fun s =>
        (if r.2.1 then shutdown s else s, r.2.2) := by
  induction fuel generalizing i s buf with
  | zero => rfl
  | succ fuel ih =>
    rw [onMessageWith, onMessageLoop]
    dsimp only
    split_ifs with hheader hinvalid hframe
    · rfl
    · cases hretrieve : buf.retrieve kHeaderLen with
      | none => rfl
      | some b₁ =>
        simp only [Option.bind_eq_bind, Option.bind_some]
        generalize be32toh (buf.peek kHeaderLen) = len
        cases hcallback : messageCallback i s (b₁.peek len.toNat) with
        | none =>
          -- the callback does not return, and neither does the fold behind the loop
          cases b₁.retrieve len.toNat with
          | none => rfl
          | some b₂ =>
            cases hloop : onMessageLoop fuel b₂ with
            | none => simp [hloop]
            | some r => simp [hloop, callbacks, hcallback]
        | some s₁ =>
          cases b₁.retrieve len.toNat with
          | none => rfl
          | some b₂ =>
            simp only [Option.bind_some, ih]
            cases hloop : onMessageLoop fuel b₂ with
            | none => simp
            | some r => simp [callbacks, hcallback]
    · rfl
    · rfl

end LengthHeaderCodec

open LengthHeaderCodec

/-! ### The output of a handler -/

namespace TcpConnection

theorem reading_sendInLoop {c c' : TcpConnection} {data : Str} {w : Option ℕ}
    (h : c.sendInLoop data w = some c') : c'.channel.reading = c.channel.reading := by
  rw [sendInLoop] at h
  dsimp only at h
  generalize (if ¬ c.channel.isWriting ∧ c.outputBuffer.readableBytes = 0 then
    (socketWrite data w).getD 0 else 0) = n at h
  by_cases hremaining : data.length - n > 0
  · rw [if_pos hremaining] at h
    obtain ⟨b, -, h⟩ := Option.bind_eq_some_iff.1 h
    obtain rfl := Option.some.inj h
    dsimp only
    split_ifs <;> rfl
  · rw [if_neg hremaining] at h
    obtain rfl := Option.some.inj h
    rfl

theorem reading_handleWrite {c c' : TcpConnection} (hwf : c.outputBuffer.WellFormed)
    {w : Option ℕ} (h : c.handleWrite w = some c') :
    c'.channel.reading = c.channel.reading := by
  rcases handleWrite_cases hwf h with rfl | ⟨-, hchannel, -⟩ | ⟨-, hchannel, -⟩
  · rfl
  · rw [hchannel]
  · rw [hchannel, Channel.disableWriting]

theorem reading_shutdown (c : TcpConnection) :
    c.shutdown.channel.reading = c.channel.reading := by
  rw [shutdown]
  split_ifs
  · rw [channel_shutdownInLoop]
  · rfl

theorem written_shutdown (c : TcpConnection) : c.shutdown.written = c.written := by
  rw [shutdown]
  split_ifs
  · rw [written_shutdownInLoop]
  · rfl

end TcpConnection

/-- What is sent on a connection before it is shut down. -/
def Effect.sends : List Effect → List Str
  | [] => []
  | .send m :: es => m :: sends es
  | .shutdown :: _ => []

theorem Effect.sends_append (es es' : List Effect) :
    sends (es ++ es') = if .shutdown ∈ es then sends es else sends es ++ sends es' := by
  induction es with
  | nil => simp [sends]
  | cons e es ih =>
    cases e with
    | send m =>
      rw [List.cons_append, sends, sends, ih]
      split_ifs with h h' h' <;> simp_all
    | shutdown => simp [sends]

namespace Output

/-- The effects of a handler, with the results of the writes that its sends may make. -/
def perform (o : Output) (w : ℕ → Option ℕ) : List Effect → Option Output
  | [] => some o
  | e :: es => do
    let o ← o.step (e.event (w 0))
    o.perform (fun j => w (j + 1)) es

/-- What the effects `es` make of an output. -/
structure Performs (o : Output) (es : List Effect) (o' : Output) : Prop where
  inv : o'.Inv
  accepted_eq : o'.accepted =
    if o.shutdownCalled then o.accepted else o.accepted ++ (Effect.sends es).map frame
  shutdownCalled_iff : o'.shutdownCalled = true ↔ o.shutdownCalled = true ∨ .shutdown ∈ es
  reading_eq : o'.conn.channel.reading = o.conn.channel.reading
  written_prefix : o.conn.written <+: o'.conn.written

variable {o : Output}

theorem Inv.effect (h : o.Inv) (e : Effect) (w : Option ℕ) :
    ∃ o', o.step (e.event w) = some o' ∧ o.Performs [e] o' := by
  obtain ⟨o', ho', hinv, hcalled⟩ := h.step (e.event w)
  refine ⟨o', ho', ?_⟩
  cases e with
  | send m =>
    simp only [Effect.event, Output.step, Option.bind_eq_bind, Option.bind_eq_some_iff] at ho'
    obtain ⟨conn, hconn, ho'⟩ := ho'
    obtain rfl := Option.some.inj ho'
    have hsame : conn.channel.reading = o.conn.channel.reading ∧
        o.conn.written <+: conn.written := by
      rw [TcpConnection.sendData] at hconn
      split_ifs at hconn
      · obtain ⟨conn', hconn', haccepts⟩ := TcpConnection.sendInLoop_spec h.wellFormed (frame m) w
        obtain rfl := Option.some.inj (hconn.symm.trans hconn')
        exact ⟨TcpConnection.reading_sendInLoop hconn, haccepts.written_prefix⟩
      · rw [Option.some.inj hconn]
        exact ⟨rfl, List.prefix_refl _⟩
    refine ⟨hinv, ?_, by simp, hsame.1, hsame.2⟩
    simp only [h.state_eq]
    cases o.shutdownCalled <;> simp [Effect.sends]
  | shutdown =>
    obtain rfl := Option.some.inj ho'
    refine ⟨hinv, ?_, by simp, TcpConnection.reading_shutdown o.conn, ?_⟩
    · cases o.shutdownCalled <;> simp [Effect.sends]
    · dsimp only
      rw [TcpConnection.written_shutdown]

theorem Performs.trans {o₁ o₂ : Output} {es es' : List Effect} (h : o.Performs es o₁)
    (h' : o₁.Performs es' o₂) : o.Performs (es ++ es') o₂ where
  inv := h'.inv
  accepted_eq := by
    rw [h'.accepted_eq, h.accepted_eq, Effect.sends_append]
    have hcalled := h.shutdownCalled_iff
    by_cases ho : o.shutdownCalled = true
    · simp [ho, hcalled.2 (.inl ho)]
    · by_cases hmem : Effect.shutdown ∈ es
      · simp [ho, hmem, hcalled.2 (.inr hmem)]
      · have ho₁ : ¬ o₁.shutdownCalled = true := fun h₁ => (hcalled.1 h₁).elim ho hmem
        simp [ho, hmem, ho₁]
  shutdownCalled_iff := by
    rw [h'.shutdownCalled_iff, h.shutdownCalled_iff, List.mem_append, or_assoc]
  reading_eq := h'.reading_eq.trans h.reading_eq
  written_prefix := h.written_prefix.trans h'.written_prefix

theorem Inv.performs_nil (h : o.Inv) : o.Performs [] o :=
  ⟨h, by simp [Effect.sends], by simp, rfl, List.prefix_refl _⟩

/-- The call of `shutdown` in the codec. -/
theorem Inv.performs_shutdown (h : o.Inv) :
    o.Performs [.shutdown] { o with conn := o.conn.shutdown, shutdownCalled := true } := by
  obtain ⟨o', ho', hperforms⟩ := h.effect .shutdown none
  obtain rfl := Option.some.inj ho'
  exact hperforms

theorem Inv.perform (h : o.Inv) (w : ℕ → Option ℕ) (es : List Effect) :
    ∃ o', o.perform w es = some o' ∧ o.Performs es o' := by
  induction es generalizing o w with
  | nil => exact ⟨o, rfl, h.performs_nil⟩
  | cons e es ih =>
    obtain ⟨o₁, ho₁, h₁⟩ := h.effect e (w 0)
    obtain ⟨o', ho', h'⟩ := ih h₁.inv fun j => w (j + 1)
    exact ⟨o', by simp [Output.perform, ho₁, ho'], h₁.trans h'⟩

end Output

/-! ### One connection -/

/-- A connection with its input. -/
structure Session where
  output : Output
  inputBuffer : Buffer

namespace Session

/-- A connection that was made. -/
def init : Session where
  output := ⟨{ TcpConnection.established with
    state := .kConnecting
    channel := { reading := false, writing := false } }, [], false⟩
  inputBuffer := Buffer.init

/-- `connectEstablished`. -/
def connectEstablished (s : Session) : Session :=
  { s with output.conn.state := .kConnected, output.conn.channel.reading := true }

/-- `handleClose`. -/
def handleClose (s : Session) : Session :=
  { s with
    output.conn.state := .kDisconnected
    output.conn.channel := { reading := false, writing := false } }

/-- The poller reports events of the connection. -/
def Reads (s : Session) : Prop := s.output.conn.channel.reading = true

instance (s : Session) : Decidable s.Reads :=
  inferInstanceAs (Decidable (s.output.conn.channel.reading = true))

/-- A connection on which the bytes `arrived` came in, and to which the effects `es` were done. -/
structure Inv (arrived : Str) (es : List Effect) (s : Session) : Prop where
  wellFormed : s.inputBuffer.WellFormed
  content_eq : s.inputBuffer.content = (decoder.parse arrived).2
  accepted_eq : s.output.accepted = (Effect.sends es).map frame
  bytes_eq : s.output.conn.accepted = s.output.accepted.flatten
  shutdownCalled_iff : s.output.shutdownCalled = true ↔
    .shutdown ∈ es ∨ decoder.front (decoder.parse arrived).2 = .invalid
  shutdownWrites_le : s.output.conn.shutdownWrites ≤ 1
  written_eq : 0 < s.output.conn.shutdownWrites →
    s.output.shutdownCalled = true ∧ s.output.conn.written = s.output.accepted.flatten
  /-- The connection was not established yet, or can be used, or is closed. -/
  phase : s = init ∨ s.Reads ∧ s.output.Inv ∨
    ¬ s.Reads ∧ s.output.conn.channel.isWriting = false ∧ s.output.conn.state = .kDisconnected

theorem inv_init : Inv [] [] init where
  wellFormed := Buffer.wellFormed_init
  content_eq := (congrArg Prod.snd (decoder.parse_of_incomplete (s := []) rfl)).symm
  accepted_eq := rfl
  bytes_eq := rfl
  shutdownCalled_iff := by
    rw [decoder.parse_of_incomplete (s := []) rfl, decoder_front, front_eq_invalid_iff]
    simp [init, kHeaderLen]
  shutdownWrites_le := Nat.zero_le 1
  written_eq h := absurd h (Nat.lt_irrefl 0)
  phase := .inl rfl

variable {s : Session} {arrived : Str} {es : List Effect}

/-- A connection whose output can be used is as its output says. -/
theorem inv_of_output (hreads : s.Reads) (houtput : s.output.Inv)
    (hwf : s.inputBuffer.WellFormed) (hcontent : s.inputBuffer.content = (decoder.parse arrived).2)
    (haccepted : s.output.accepted = (Effect.sends es).map frame)
    (hcalled : s.output.shutdownCalled = true ↔
      .shutdown ∈ es ∨ decoder.front (decoder.parse arrived).2 = .invalid) :
    s.Inv arrived es where
  wellFormed := hwf
  content_eq := hcontent
  accepted_eq := haccepted
  bytes_eq := houtput.accepted_eq
  shutdownCalled_iff := hcalled
  shutdownWrites_le := by
    rw [houtput.shutdownWrites_eq]
    split_ifs
    · exact le_refl 1
    · exact Nat.zero_le 1
  written_eq := houtput.written_eq
  phase := .inr (.inl ⟨hreads, houtput⟩)

/-- While the poller reports its events, the connection can be used. -/
theorem Inv.output (h : s.Inv arrived es) (hreads : s.Reads) : s.output.Inv := by
  rcases h.phase with rfl | ⟨-, houtput⟩ | ⟨hnot, -⟩
  · cases hreads
  · exact houtput
  · exact absurd hreads hnot

/-- The bytes written and those that wait are the frames of what was sent. -/
theorem Inv.encoded (h : s.Inv arrived es) :
    s.output.conn.written ++ s.output.conn.outputBuffer.content =
      encoder.encodeAll (Effect.sends es) := by
  have hbytes := h.bytes_eq
  rw [h.accepted_eq] at hbytes
  exact hbytes

theorem Inv.connectEstablished (h : s.Inv arrived es)
    (hstate : s.output.conn.state = .kConnecting) : s.connectEstablished.Inv arrived es := by
  rcases h.phase with rfl | ⟨-, houtput⟩ | ⟨-, -, hclosed⟩
  · exact inv_of_output rfl Output.inv_init h.wellFormed h.content_eq h.accepted_eq
      h.shutdownCalled_iff
  · rw [houtput.state_eq] at hstate
    split_ifs at hstate
  · rw [hclosed] at hstate
    cases hstate

theorem Inv.handleClose (h : s.Inv arrived es) : s.handleClose.Inv arrived es :=
  { h with phase := .inr (.inr ⟨Bool.false_ne_true, rfl, rfl⟩) }

theorem Inv.handleWrite (h : s.Inv arrived es) (w : Option ℕ) :
    ∃ output, s.output.step (.handleWrite w) = some output ∧
      { s with output := output }.Inv arrived es ∧
      s.output.conn.written <+: output.conn.written ∧
      output.conn.channel.reading = s.output.conn.channel.reading := by
  have hidle : s.output.conn.channel.isWriting = false →
      s.output.step (.handleWrite w) = some s.output := by
    intro hnot
    simp [Output.step, TcpConnection.handleWrite, hnot]
  rcases h.phase with rfl | ⟨hreads, houtput⟩ | ⟨-, hnot, -⟩
  · exact ⟨_, hidle rfl, h, List.prefix_refl _, rfl⟩
  · obtain ⟨output, hstep, hinv, -⟩ := houtput.step (.handleWrite w)
    refine ⟨output, hstep, ?_⟩
    simp only [Output.step, Option.bind_eq_bind, Option.bind_eq_some_iff] at hstep
    obtain ⟨conn, hconn, hstep⟩ := hstep
    obtain rfl := Option.some.inj hstep
    have hreading := TcpConnection.reading_handleWrite houtput.wellFormed hconn
    obtain ⟨conn', hconn', haccepts⟩ := s.output.conn.handleWrite_spec houtput.wellFormed w
    obtain rfl := Option.some.inj (hconn.symm.trans hconn')
    exact ⟨inv_of_output (hreading.trans hreads) hinv h.wellFormed h.content_eq h.accepted_eq
      h.shutdownCalled_iff, haccepts.written_prefix, hreading⟩
  · exact ⟨_, hidle hnot, h, List.prefix_refl _, rfl⟩

/-- Data that arrived and was parsed: the handler had the effects `new` on the connection, none if
there was no message, and the codec shut the connection down at an invalid length. -/
theorem Inv.handleRead (h : s.Inv arrived es) (hreads : s.Reads) {data : Str} {new : List Effect}
    {output output' : Output}
    (hnew : (decoder.parse (s.inputBuffer.content ++ data)).1 = [] → new = [])
    (hperforms : s.output.Performs new output) {buf : Buffer} (hwf : buf.WellFormed)
    (hcontent : buf.content = (decoder.parse (arrived ++ data)).2)
    (houtput' : decoder.front buf.content = .invalid ∧ output.Performs [.shutdown] output' ∨
      decoder.front buf.content ≠ .invalid ∧ output' = output) :
    (⟨output', buf⟩ : Session).Inv (arrived ++ data) (es ++ new) := by
  have hcalled := h.shutdownCalled_iff
  -- behind an invalid length there are no more messages
  have hinvalid : decoder.front (decoder.parse arrived).2 = .invalid →
      new = [] ∧ decoder.front buf.content = .invalid := by
    intro hfront
    constructor
    · apply hnew
      rw [h.content_eq, decoder.parse_of_invalid (decoder.invalid_append hfront data)]
    · rw [hcontent, decoder.parse_append_of_invalid hfront]
      exact decoder.invalid_append hfront data
  have haccepted : output.accepted = (Effect.sends (es ++ new)).map frame := by
    rw [hperforms.accepted_eq, Effect.sends_append, h.accepted_eq]
    by_cases hmem : Effect.shutdown ∈ es
    · rw [if_pos (hcalled.2 (.inl hmem)), if_pos hmem]
    · rw [if_neg hmem, List.map_append]
      by_cases hfront : decoder.front (decoder.parse arrived).2 = .invalid
      · rw [if_pos (hcalled.2 (.inr hfront)), (hinvalid hfront).1]
        simp [Effect.sends]
      · rw [if_neg fun hc => (hcalled.1 hc).elim hmem hfront]
  have hshut : output.shutdownCalled = true ↔ .shutdown ∈ es ++ new ∨
      decoder.front (decoder.parse arrived).2 = .invalid := by
    rw [hperforms.shutdownCalled_iff, hcalled, List.mem_append]
    tauto
  rw [hcontent] at houtput' hinvalid
  rcases houtput' with ⟨hfront, hshutdown⟩ | ⟨hfront, rfl⟩
  · refine inv_of_output ?_ hshutdown.inv hwf hcontent ?_ ?_
    · exact (hshutdown.reading_eq.trans hperforms.reading_eq).trans hreads
    · rw [hshutdown.accepted_eq, haccepted]
      simp [Effect.sends]
    · rw [hshutdown.shutdownCalled_iff]
      simp [hfront]
  · refine inv_of_output (hperforms.reading_eq.trans hreads) hperforms.inv hwf hcontent haccepted ?_
    rw [hshut, or_iff_left fun hbefore => hfront (hinvalid hbefore).2, or_iff_left hfront]

end Session

/-! ### The program -/

/-- What a program does with a message, with what it asks outside while it handles it: its state
afterwards and the effects on the connection, unless it does not return. -/
abbrev Handler (σ α : Type) := α → σ → Str → Option (σ × List Effect)

/-- A program with its connections, and the history: the bytes that arrived on each connection, and
the messages passed to the handler. -/
structure Sessions (σ α κ : Type) where
  state : σ
  session : κ → Session
  arrived : κ → Str
  taken : List (κ × α × Str)

namespace Sessions

variable {σ α κ : Type}

def init (state : σ) : Sessions σ α κ := ⟨state, fun _ => .init, fun _ => [], []⟩

inductive Event (α κ : Type)
  | connectEstablished (k : κ)
  /-- `handleRead` with the data that `readv` gets, what each call of the handler is told outside,
  and the results of the writes that its sends make. -/
  | handleRead (k : κ) (data : Str) (answers : ℕ → α) (writes : ℕ → ℕ → Option ℕ)
  | handleWrite (k : κ) (w : Option ℕ)
  | handleClose (k : κ)

/-- What the loop of the codec works on while it takes the messages of one connection. -/
structure Turn (σ α κ : Type) where
  state : σ
  output : Output
  taken : List (κ × α × Str)

/-- The message callback on connection `k`. -/
def messageCallback (handle : Handler σ α) (k : κ) (answers : ℕ → α) (writes : ℕ → ℕ → Option ℕ)
    (i : ℕ) (t : Turn σ α κ) (message : Str) : Option (Turn σ α κ) := do
  let (state, effects) ← handle (answers i) t.state message
  let output ← t.output.perform (writes i) effects
  return ⟨state, output, t.taken ++ [(k, answers i, message)]⟩

/-- The call of `shutdown` in the codec. -/
def Turn.shutdown (t : Turn σ α κ) : Turn σ α κ :=
  { t with output.conn := t.output.conn.shutdown, output.shutdownCalled := true }

variable [DecidableEq κ]

/-- `TcpConnection::handleRead` of connection `k`, with data. -/
def handleRead (handle : Handler σ α) (s : Sessions σ α κ) (k : κ) (data : Str) (answers : ℕ → α)
    (writes : ℕ → ℕ → Option ℕ) : Option (Sessions σ α κ) := do
  let buf ← (s.session k).inputBuffer.readFd data
  let (t, buf) ← onMessageWith (messageCallback handle k answers writes) Turn.shutdown
    (buf.readableBytes + 1) 0 ⟨s.state, (s.session k).output, s.taken⟩ buf
  return {
    state := t.state
    session := Function.update s.session k ⟨t.output, buf⟩
    arrived := Function.update s.arrived k (s.arrived k ++ data)
    taken := t.taken }

/-- One event. Without data `handleRead` closes the connection, which is an event of its own; an
event of a connection that does not ask for it is not reported. -/
def step (handle : Handler σ α) (s : Sessions σ α κ) : Event α κ → Option (Sessions σ α κ)
  | .connectEstablished k =>
    if (s.session k).output.conn.state = .kConnecting then
      some { s with session := Function.update s.session k (s.session k).connectEstablished }
    else some s
  | .handleRead k data answers writes =>
    if (s.session k).Reads ∧ data ≠ [] then s.handleRead handle k data answers writes else some s
  | .handleWrite k w => do
    let output ← (s.session k).output.step (.handleWrite w)
    return { s with session := Function.update s.session k { s.session k with output := output } }
  | .handleClose k =>
    if (s.session k).Reads then
      some { s with session := Function.update s.session k (s.session k).handleClose }
    else some s

/-! ### The handler alone -/

omit [DecidableEq κ] in
/-- The handler, called for one message after the other: the state and the effects on each
connection. -/
def serial (handle : Handler σ α) : σ → List (κ × α × Str) → Option (σ × List (κ × Effect))
  | state, [] => some (state, [])
  | state, (k, a, m) :: rest => do
    let (state, effects) ← handle a state m
    let (state, later) ← serial handle state rest
    return (state, effects.map (k, ·) ++ later)

/-- The messages taken from a connection. -/
def takenOn (k : κ) (taken : List (κ × α × Str)) : List Str :=
  (taken.filter (·.1 = k)).map (·.2.2)

/-- The effects on a connection. -/
def effectsOn (k : κ) (effects : List (κ × Effect)) : List Effect :=
  (effects.filter (·.1 = k)).map Prod.snd

section Serial

omit [DecidableEq κ]

variable (handle : Handler σ α)

theorem serial_append (state : σ) (xs ys : List (κ × α × Str)) :
    serial handle state (xs ++ ys) = (serial handle state xs).bind fun r =>
      (serial handle r.1 ys).map fun r' => (r'.1, r.2 ++ r'.2) := by
  induction xs generalizing state with
  | nil => simp [serial]
  | cons x xs ih =>
    obtain ⟨k, a, m⟩ := x
    rw [List.cons_append, serial, serial]
    cases handle a state m with
    | none => rfl
    | some r =>
      simp only [Option.bind_eq_bind, Option.bind_some, ih]
      cases serial handle r.1 xs with
      | none => rfl
      | some r₁ =>
        simp only [Option.bind_some, Option.pure_def]
        cases hys : serial handle r₁.1 ys with
        | none => simp
        | some r₂ => simp

/-- The messages that a read brings, with what the handler is told. -/
def items (k : κ) (answers : ℕ → α) : ℕ → List Str → List (κ × α × Str)
  | _, [] => []
  | i, m :: ms => (k, answers i, m) :: items k answers (i + 1) ms

variable {handle}

theorem serial_cons_eq_some {state state' : σ} {k : κ} {a : α} {m : Str}
    {rest : List (κ × α × Str)} {effects : List (κ × Effect)}
    (h : serial handle state ((k, a, m) :: rest) = some (state', effects)) :
    ∃ state₁ es later, handle a state m = some (state₁, es) ∧
      serial handle state₁ rest = some (state', later) ∧ effects = es.map (k, ·) ++ later := by
  simp only [serial, Option.bind_eq_bind, Option.bind_eq_some_iff] at h
  obtain ⟨⟨state₁, es⟩, hhandle, ⟨state₂, later⟩, hlater, h⟩ := h
  obtain ⟨rfl, rfl⟩ := Prod.mk.inj (Option.some.inj h)
  exact ⟨state₁, es, later, hhandle, hlater, rfl⟩

variable (handle) in
/-- The callbacks of a turn are the handler alone, with its effects on the output. -/
theorem callbacks_eq (k : κ) (answers : ℕ → α) (writes : ℕ → ℕ → Option ℕ) (i : ℕ)
    {t : Turn σ α κ} (h : t.output.Inv) (ms : List Str) :
    (serial handle t.state (items k answers i ms) = none ∧
      callbacks (messageCallback handle k answers writes) i t ms = none) ∨
    ∃ state effects output,
      serial handle t.state (items k answers i ms) = some (state, effects.map (k, ·)) ∧
      callbacks (messageCallback handle k answers writes) i t ms =
        some ⟨state, output, t.taken ++ items k answers i ms⟩ ∧
      t.output.Performs effects output ∧ (ms = [] → effects = []) := by
  induction ms generalizing i t with
  | nil =>
    exact .inr ⟨t.state, [], t.output, rfl, by simp [callbacks, items], h.performs_nil,
      fun _ => rfl⟩
  | cons m ms ih =>
    simp only [items, serial, callbacks, messageCallback]
    cases hhandle : handle (answers i) t.state m with
    | none => exact .inl ⟨rfl, rfl⟩
    | some r =>
      obtain ⟨state₁, effects₁⟩ := r
      obtain ⟨output₁, houtput₁, hperforms₁⟩ := h.perform (writes i) effects₁
      simp only [Option.bind_eq_bind, Option.bind_some, houtput₁, Option.pure_def]
      rcases ih (i + 1) (t := ⟨state₁, output₁, t.taken ++ [(k, answers i, m)]⟩) hperforms₁.inv with
        ⟨hserial, hcallbacks⟩ | ⟨state, effects, output, hserial, hcallbacks, hperforms, -⟩
      · exact .inl ⟨by rw [hserial]; rfl, hcallbacks⟩
      · refine .inr ⟨state, effects₁ ++ effects, output, ?_, ?_, hperforms₁.trans hperforms,
          fun hnil => absurd hnil (by simp)⟩
        · rw [hserial, List.map_append]
          rfl
        · rw [hcallbacks, List.append_assoc]
          rfl

end Serial

theorem takenOn_append (k : κ) (xs ys : List (κ × α × Str)) :
    takenOn k (xs ++ ys) = takenOn k xs ++ takenOn k ys := by
  simp [takenOn]

theorem takenOn_items (k k' : κ) (answers : ℕ → α) (i : ℕ) (ms : List Str) :
    takenOn k' (items k answers i ms) = if k = k' then ms else [] := by
  induction ms generalizing i with
  | nil => simp [takenOn, items]
  | cons m ms ih =>
    have hsplit : takenOn k' (items k answers i (m :: ms)) =
        takenOn k' [(k, answers i, m)] ++ takenOn k' (items k answers (i + 1) ms) :=
      takenOn_append k' [(k, answers i, m)] _
    rw [hsplit, ih]
    split_ifs with hk <;> simp [takenOn, hk]

theorem effectsOn_append (k : κ) (xs ys : List (κ × Effect)) :
    effectsOn k (xs ++ ys) = effectsOn k xs ++ effectsOn k ys := by
  simp [effectsOn]

theorem effectsOn_map (k k' : κ) (effects : List Effect) :
    effectsOn k' (effects.map (k, ·)) = if k = k' then effects else [] := by
  rw [effectsOn, List.filter_map, List.map_map]
  split_ifs with hk
  · subst hk
    simp [Function.comp_def]
  · simp [Function.comp_def, hk]

/-! ### Runs -/

/-- The messages taken are those of the bytes that arrived, connection by connection; the handler,
called for them in this order, does not fail and makes the state; and every connection is as its
effects say. -/
structure Inv (handle : Handler σ α) (s₀ : σ) (effects : List (κ × Effect)) (s : Sessions σ α κ) :
    Prop where
  serial_eq : serial handle s₀ s.taken = some (s.state, effects)
  taken_eq : ∀ k, takenOn k s.taken = (decoder.parse (s.arrived k)).1
  session : ∀ k, (s.session k).Inv (s.arrived k) (effectsOn k effects)

variable {handle : Handler σ α} {s₀ : σ} {effects : List (κ × Effect)} {s : Sessions σ α κ}

theorem inv_init : (init s₀ : Sessions σ α κ).Inv handle s₀ [] where
  serial_eq := rfl
  taken_eq _ := (congrArg Prod.fst (decoder.parse_of_incomplete (s := []) rfl)).symm
  session _ := Session.inv_init

/-- A step that changes one connection only. -/
theorem Inv.update (h : s.Inv handle s₀ effects) {k : κ} {session : Session}
    (hsession : session.Inv (s.arrived k) (effectsOn k effects)) :
    ({ s with session := Function.update s.session k session } : Sessions σ α κ).Inv handle s₀
      effects :=
  { h with
    session := fun k' => by
      dsimp only
      by_cases hk : k' = k
      · subst hk
        rwa [Function.update_self]
      · rw [Function.update_of_ne hk]
        exact h.session k' }

omit [DecidableEq κ] in
/-- Data arrives on a connection: unless the handler fails on one of its messages, the turn of the
codec does what the handler alone does. -/
theorem turn_spec (handle : Handler σ α) {session : Session} {arrived : Str} {es : List Effect}
    (h : session.Inv arrived es) (hreads : session.Reads) (k : κ) (data : Str) (answers : ℕ → α)
    (writes : ℕ → ℕ → Option ℕ) (state : σ) (taken : List (κ × α × Str)) :
    ∃ b ms, session.inputBuffer.readFd data = some b ∧
      (decoder.parse (arrived ++ data)).1 = (decoder.parse arrived).1 ++ ms ∧
      ((serial handle state (items k answers 0 ms) = none ∧
        onMessageWith (messageCallback handle k answers writes) Turn.shutdown
          (b.readableBytes + 1) 0 ⟨state, session.output, taken⟩ b = none) ∨
      ∃ state' new output buf,
        serial handle state (items k answers 0 ms) = some (state', new.map (k, ·)) ∧
        onMessageWith (messageCallback handle k answers writes) Turn.shutdown
          (b.readableBytes + 1) 0 ⟨state, session.output, taken⟩ b =
            some (⟨state', output, taken ++ items k answers 0 ms⟩, buf) ∧
        (⟨output, buf⟩ : Session).Inv (arrived ++ data) (es ++ new) ∧
        session.output.conn.written <+: output.conn.written) := by
  obtain ⟨b, hb, hwfb, hcontentb⟩ := h.wellFormed.readFd data
  obtain ⟨invalid, buf, hloop, hwf, hcontent, hinvalid⟩ := onMessage_eq hwfb
  have hparse : decoder.parse (arrived ++ data) = ((decoder.parse arrived).1 ++
      (decoder.parse b.content).1, (decoder.parse b.content).2) := by
    rw [decoder.parse_append, hcontentb, h.content_eq]
  refine ⟨b, (decoder.parse b.content).1, hb, by rw [hparse], ?_⟩
  rw [onMessage] at hloop
  rw [onMessageWith_eq, hloop, Option.bind_some]
  rcases callbacks_eq handle k answers writes 0 (t := ⟨state, session.output, taken⟩)
      (h.output hreads) (decoder.parse b.content).1 with
    ⟨hserial, hcallbacks⟩ | ⟨state', new, output, hserial, hcallbacks, hperforms, hnil⟩
  · exact .inl ⟨hserial, by rw [hcallbacks]; rfl⟩
  · -- the codec shuts the connection down at an invalid length
    have hshutdown := hperforms.inv.performs_shutdown
    have hfinal : ∃ output', ((if invalid then Turn.shutdown else id) (⟨state', output,
          taken ++ items k answers 0 (decoder.parse b.content).1⟩ : Turn σ α κ)) =
          ⟨state', output', taken ++ items k answers 0 (decoder.parse b.content).1⟩ ∧
        (decoder.front buf.content = .invalid ∧ output.Performs [.shutdown] output' ∨
          decoder.front buf.content ≠ .invalid ∧ output' = output) := by
      cases hi : invalid with
      | true => exact ⟨_, rfl, .inl ⟨hinvalid.1 hi, hshutdown⟩⟩
      | false => exact ⟨_, rfl, .inr ⟨fun hfront => by simp [hinvalid.2 hfront] at hi, rfl⟩⟩
    obtain ⟨output', hturn, houtput'⟩ := hfinal
    refine .inr ⟨state', new, output', buf, hserial, ?_, ?_, ?_⟩
    · rw [hcallbacks, Option.map_some, ← hturn]
      cases invalid <;> rfl
    · exact h.handleRead hreads (by rwa [← hcontentb]) hperforms hwf (by rw [hcontent, hparse])
        houtput'
    · rcases houtput' with ⟨-, hshutdown⟩ | ⟨-, rfl⟩
      · exact hperforms.written_prefix.trans hshutdown.written_prefix
      · exact hperforms.written_prefix

/-- Data arrives: unless the handler fails on one of its messages, the invariant is kept. -/
theorem Inv.handleRead (h : s.Inv handle s₀ effects) {k : κ} (hreads : (s.session k).Reads)
    (data : Str) (answers : ℕ → α) (writes : ℕ → ℕ → Option ℕ) :
    (∃ s' effects', s.handleRead handle k data answers writes = some s' ∧
      s'.Inv handle s₀ effects') ∨
    (s.handleRead handle k data answers writes = none ∧
      ∃ ms, (decoder.parse (s.arrived k ++ data)).1 = takenOn k s.taken ++ ms ∧
        serial handle s₀ (s.taken ++ items k answers 0 ms) = none) := by
  obtain ⟨b, ms, hb, hparse, hturn⟩ :=
    turn_spec handle (h.session k) hreads k data answers writes s.state s.taken
  rw [Sessions.handleRead, hb, Option.bind_eq_bind, Option.bind_some]
  rcases hturn with ⟨hserial, hturn⟩ | ⟨state, new, output, buf, hserial, hturn, hsession, -⟩
  · refine .inr ⟨by rw [hturn]; rfl, ms, by rw [hparse, h.taken_eq], ?_⟩
    rw [serial_append, h.serial_eq, Option.bind_some, hserial]
    rfl
  · refine .inl ⟨_, effects ++ new.map (k, ·), by rw [hturn]; rfl, ?_, fun k' => ?_, fun k' => ?_⟩
    · dsimp only
      rw [serial_append, h.serial_eq, Option.bind_some, hserial]
      rfl
    · dsimp only
      rw [takenOn_append, takenOn_items, h.taken_eq]
      by_cases hk : k' = k
      · subst hk
        rw [if_pos rfl, Function.update_self, hparse]
      · rw [if_neg (Ne.symm hk), Function.update_of_ne hk, List.append_nil]
    · dsimp only
      rw [effectsOn_append, effectsOn_map]
      by_cases hk : k' = k
      · subst hk
        rwa [Function.update_self, Function.update_self, if_pos rfl]
      · rw [Function.update_of_ne hk, Function.update_of_ne hk, if_neg (Ne.symm hk),
          List.append_nil]
        exact h.session k'

/-- The event is a read of messages of which the handler, called for them behind those taken
before, fails on one. -/
def Fails (handle : Handler σ α) (s₀ : σ) (s : Sessions σ α κ) : Event α κ → Prop
  | .handleRead k data answers _ => ∃ ms,
    (decoder.parse (s.arrived k ++ data)).1 = takenOn k s.taken ++ ms ∧
      serial handle s₀ (s.taken ++ items k answers 0 ms) = none
  | _ => False

/-- The step lemma: the invariant is kept, unless the handler fails. -/
theorem Inv.step (h : s.Inv handle s₀ effects) (e : Event α κ) :
    (∃ s' effects', s.step handle e = some s' ∧ s'.Inv handle s₀ effects') ∨
      (s.step handle e = none ∧ s.Fails handle s₀ e) := by
  cases e with
  | connectEstablished k =>
    rw [Sessions.step]
    split_ifs with hstate
    · exact .inl ⟨_, effects, rfl, h.update ((h.session k).connectEstablished hstate)⟩
    · exact .inl ⟨s, effects, rfl, h⟩
  | handleRead k data answers writes =>
    rw [Sessions.step]
    split_ifs with hreads
    · exact h.handleRead hreads.1 data answers writes
    · exact .inl ⟨s, effects, rfl, h⟩
  | handleWrite k w =>
    obtain ⟨output, houtput, hinv, -⟩ := (h.session k).handleWrite w
    refine .inl ⟨_, effects, ?_, h.update hinv⟩
    simp [Sessions.step, houtput]
  | handleClose k =>
    rw [Sessions.step]
    split_ifs with hreads
    · exact .inl ⟨_, effects, rfl, h.update (h.session k).handleClose⟩
    · exact .inl ⟨s, effects, rfl, h⟩

/-- The run ends at a read of messages of which the handler fails on one. -/
def RunFails (handle : Handler σ α) (s₀ : σ) (es : List (Event α κ)) : Prop :=
  ∃ pre e post s, es = pre ++ e :: post ∧ pre.foldlM (step handle) (init s₀) = some s ∧
    s.Fails handle s₀ e

/-- The run lemma. -/
theorem inv_run (handle : Handler σ α) (s₀ : σ) (es : List (Event α κ)) :
    (∃ s effects, es.foldlM (step handle) (init s₀) = some s ∧ s.Inv handle s₀ effects) ∨
      (es.foldlM (step handle) (init s₀) = none ∧ RunFails handle s₀ es) := by
  induction es using List.reverseRecOn with
  | nil => exact .inl ⟨_, [], rfl, inv_init⟩
  | append_singleton es e ih =>
    rw [List.foldlM_append]
    rcases ih with ⟨s, effects, hs, h⟩ | ⟨hnone, pre, e', post, s, rfl, hs, hfails⟩
    · rw [hs, Option.bind_eq_bind, Option.bind_some, List.foldlM_cons]
      rcases h.step e with ⟨s', effects', hs', h'⟩ | ⟨hnone, hfails⟩
      · exact .inl ⟨s', effects', by rw [hs']; rfl, h'⟩
      · exact .inr ⟨by rw [hnone]; rfl, es, e, [], s, rfl, hs, hfails⟩
    · exact .inr ⟨by rw [hnone]; rfl, pre, e', post ++ [e], s, by simp, hs, hfails⟩

end Sessions

/-- **Sessions.** In every run, however the bytes of the connections arrive, interleave and are
written, the program is its handler, called for one message after the other: on each connection for
the messages of the bytes that arrived there, in their order; where a peer sends frames, for the
first of what it framed. The bytes written and those that wait are the frames of what the handler
sent there before it shut the connection down; what a peer takes out of what it has read is a prefix
of that; and the half-close comes at most once, when all of it is written. Nothing fails but the
handler itself. -/
theorem sessions_run {σ α κ : Type} [DecidableEq κ] (handle : Handler σ α) (s₀ : σ)
    (es : List (Sessions.Event α κ)) :
    (∃ s effects, es.foldlM (Sessions.step handle) (Sessions.init s₀) = some s ∧
      Sessions.serial handle s₀ s.taken = some (s.state, effects) ∧
      ∀ k, Sessions.takenOn k s.taken = (decoder.parse (s.arrived k)).1 ∧
        (∀ requests : List Str, (∀ m ∈ requests, m.length ≤ 65536) →
          s.arrived k <+: encoder.encodeAll requests → Sessions.takenOn k s.taken <+: requests) ∧
        let replies := Effect.sends (Sessions.effectsOn k effects)
        let conn := (s.session k).output.conn
        conn.written ++ conn.outputBuffer.content = encoder.encodeAll replies ∧
        ((∀ m ∈ replies, m.length ≤ 65536) → ∀ read, read <+: conn.written →
          (decoder.parse read).1 <+: replies) ∧
        conn.shutdownWrites ≤ 1 ∧
        (0 < conn.shutdownWrites → conn.written = encoder.encodeAll replies ∧
          (.shutdown ∈ Sessions.effectsOn k effects ∨
            decoder.front (decoder.parse (s.arrived k)).2 = .invalid))) ∨
    (es.foldlM (Sessions.step handle) (Sessions.init s₀) = none ∧
      Sessions.RunFails handle s₀ es) := by
  rcases Sessions.inv_run handle s₀ es with ⟨s, effects, hs, h⟩ | hfails
  · refine .inl ⟨s, effects, hs, h.serial_eq, fun k => ⟨h.taken_eq k, ?_⟩⟩
    have hsession := h.session k
    refine ⟨fun requests hlength harrived => ?_, hsession.encoded, fun hlength read hread => ?_,
      hsession.shutdownWrites_le, fun hclosed => ?_⟩
    · rw [h.taken_eq k]
      exact encoder.parse_prefix hlength harrived
    · refine encoder.parse_prefix hlength (hread.trans ?_)
      rw [← hsession.encoded]
      exact List.prefix_append _ _
    · obtain ⟨hcalled, hwritten⟩ := hsession.written_eq hclosed
      rw [hwritten, hsession.accepted_eq]
      exact ⟨rfl, hsession.shutdownCalled_iff.1 hcalled⟩
  · exact .inr hfails

end Huaweip2p
