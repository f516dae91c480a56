import Huaweip2p.Base.Buffer

/-!
# The sending side of a connection

`TcpConnection` writes to its socket directly while nothing waits in `outputBuffer_`, and otherwise
through `handleWrite`. The state holds what the socket has taken so far; the result of each socket
write is an argument. `sendInLoop_spec` and `handleWrite_spec` say that the bytes taken, followed by
the bytes waiting, are the bytes sent.
-/

namespace Huaweip2p

/-- `TcpConnection::StateE`. -/
inductive StateE
  | kDisconnected
  | kConnecting
  | kConnected
  | kDisconnecting
  deriving DecidableEq, Repr

/-- The events a `Channel` asks for. -/
structure Channel where
  reading : Bool
  writing : Bool
  deriving DecidableEq, Repr

namespace Channel

def isWriting (c : Channel) : Bool := c.writing

def enableWriting (c : Channel) : Channel := { c with writing := true }

def disableWriting (c : Channel) : Channel := { c with writing := false }

end Channel

/-- `class TcpConnection`, as far as it sends: `written` are the bytes its socket has taken and
`shutdownWrites` counts the calls of `shutdownWrite`. -/
structure TcpConnection where
  state : StateE
  channel : Channel
  outputBuffer : Buffer
  written : Str
  shutdownWrites : ℕ
  deriving DecidableEq, Repr

/-- `sockets::write`: an error, or the number of bytes taken, at most all. -/
def socketWrite (data : Str) (w : Option ℕ) : Option ℕ := w.map fun n => min n data.length

namespace TcpConnection

/-- A connection after `connectEstablished`. -/
def established : TcpConnection where
  state := .kConnected
  channel := { reading := true, writing := false }
  outputBuffer := Buffer.init
  written := []
  shutdownWrites := 0

/-- `sendInLoop`. -/
def sendInLoop (c : TcpConnection) (data : Str) (w : Option ℕ) : Option TcpConnection :=
  let nwrote := if ¬ c.channel.isWriting ∧ c.outputBuffer.readableBytes = 0 then
    (socketWrite data w).getD 0 else 0
  let c := { c with written := c.written ++ data.take nwrote }
  let remaining := data.length - nwrote
  if remaining > 0 then do
    let outputBuffer ← c.outputBuffer.append (data.drop nwrote)
    return { c with
      outputBuffer := outputBuffer
      channel := if c.channel.isWriting then c.channel else c.channel.enableWriting }
  else return c

/-- `send(Buffer*)` in the loop thread, with the buffer afterwards. -/
def send (c : TcpConnection) (buf : Buffer) (w : Option ℕ) : Option (TcpConnection × Buffer) :=
  if c.state = .kConnected then do
    let c ← c.sendInLoop buf.content w
    return (c, buf.retrieveAll)
  else return (c, buf)

/-- `send(Buffer*)` in another thread: the argument of the functor that it queues, if any. -/
def sendFromOtherThread (c : TcpConnection) (buf : Buffer) : Option (Option Str × Buffer) :=
  if c.state = .kConnected then do
    let (message, buf) ← buf.retrieveAsString buf.readableBytes
    return (some message, buf)
  else return (none, buf)

/-- `shutdownInLoop`. -/
def shutdownInLoop (c : TcpConnection) : TcpConnection :=
  if c.channel.isWriting then c else { c with shutdownWrites := c.shutdownWrites + 1 }

/-- `shutdown` in the loop thread. -/
def shutdown (c : TcpConnection) : TcpConnection :=
  if c.state = .kConnected then { c with state := .kDisconnecting }.shutdownInLoop else c

/-- `handleWrite`. -/
def handleWrite (c : TcpConnection) (w : Option ℕ) : Option TcpConnection :=
  if c.channel.isWriting then
    match socketWrite c.outputBuffer.content w with
    | some n =>
      if n > 0 then do
        let outputBuffer ← c.outputBuffer.retrieve n
        let c := { c with
          outputBuffer := outputBuffer
          written := c.written ++ c.outputBuffer.content.take n }
        if c.outputBuffer.readableBytes = 0 then
          let c := { c with channel := c.channel.disableWriting }
          return if c.state = .kDisconnecting then c.shutdownInLoop else c
        else return c
      else return c
    | none => return c
  else return c

/-- The bytes accepted so far: those the socket has taken and those that wait. -/
def accepted (c : TcpConnection) : Str := c.written ++ c.outputBuffer.content

@[simp] theorem written_shutdownInLoop (c : TcpConnection) :
    c.shutdownInLoop.written = c.written := by
  rw [shutdownInLoop]
  split_ifs <;> rfl

@[simp] theorem outputBuffer_shutdownInLoop (c : TcpConnection) :
    c.shutdownInLoop.outputBuffer = c.outputBuffer := by
  rw [shutdownInLoop]
  split_ifs <;> rfl

@[simp] theorem state_shutdownInLoop (c : TcpConnection) :
    c.shutdownInLoop.state = c.state := by
  rw [shutdownInLoop]
  split_ifs <;> rfl

@[simp] theorem channel_shutdownInLoop (c : TcpConnection) :
    c.shutdownInLoop.channel = c.channel := by
  rw [shutdownInLoop]
  split_ifs <;> rfl

/-- What a step of a connection does to its bytes: the buffer stays well formed, the state stays,
the socket only takes more, and `data` is accepted behind what was accepted before. -/
structure Accepts (c : TcpConnection) (data : Str) (c' : TcpConnection) : Prop where
  wellFormed : c'.outputBuffer.WellFormed
  state_eq : c'.state = c.state
  written_prefix : c.written <+: c'.written
  accepted_eq : c'.accepted = c.accepted ++ data

theorem sendInLoop_spec {c : TcpConnection} (h : c.outputBuffer.WellFormed) (data : Str)
    (w : Option ℕ) : ∃ c', c.sendInLoop data w = some c' ∧ c.Accepts data c' := by
  -- what is written directly comes behind an empty buffer
  have hdirect : ∀ n, n = 0 ∨ c.outputBuffer.content = [] →
      c.written ++ data.take n ++ (c.outputBuffer.content ++ data.drop n) =
        c.accepted ++ data := by
    rintro n (rfl | hempty)
    · simp [accepted]
    · simp [accepted, hempty]
  rw [sendInLoop]
  dsimp only
  generalize hn : (if ¬ c.channel.isWriting ∧ c.outputBuffer.readableBytes = 0 then
    (socketWrite data w).getD 0 else 0) = n
  have hn' : n = 0 ∨ c.outputBuffer.content = [] := by
    split_ifs at hn with hcond
    · exact .inr (List.eq_nil_of_length_eq_zero (h.length_content.trans hcond.2))
    · exact .inl hn.symm
  by_cases hremaining : data.length - n > 0
  · obtain ⟨b, hb, hwf, hcontent⟩ := h.append (data.drop n)
    rw [if_pos hremaining, hb]
    refine ⟨_, rfl, hwf, rfl, List.prefix_append _ _, ?_⟩
    rw [← hdirect n hn', ← hcontent]
    rfl
  · have hall : data.drop n = [] := List.drop_of_length_le (by omega)
    rw [if_neg hremaining]
    refine ⟨_, rfl, h, rfl, List.prefix_append _ _, ?_⟩
    rw [← hdirect n hn', hall, List.append_nil]
    rfl

theorem handleWrite_spec {c : TcpConnection} (h : c.outputBuffer.WellFormed) (w : Option ℕ) :
    ∃ c', c.handleWrite w = some c' ∧ c.Accepts [] c' := by
  have hself : c.Accepts [] c := ⟨h, rfl, List.prefix_refl _, (List.append_nil _).symm⟩
  rw [handleWrite]
  by_cases hwriting : c.channel.isWriting = true
  · rw [if_pos hwriting]
    cases hw : socketWrite c.outputBuffer.content w with
    | none => exact ⟨c, rfl, hself⟩
    | some n =>
      by_cases hn : n > 0
      · have hle : n ≤ c.outputBuffer.readableBytes := by
          obtain ⟨k, -, rfl⟩ := Option.map_eq_some_iff.1 hw
          exact (min_le_right _ _).trans_eq h.length_content
        obtain ⟨b, hb, hwf, hcontent⟩ := h.retrieve hle
        have hbytes : c.written ++ c.outputBuffer.content.take n ++ b.content =
            c.accepted ++ [] := by
          rw [hcontent, List.append_assoc, List.take_append_drop, accepted, List.append_nil]
        simp only [hn, if_true, hb, Option.bind_eq_bind, Option.bind_some]
        split_ifs
        · exact ⟨_, rfl, by simpa using hwf, by simp, by simp, by simpa [accepted] using hbytes⟩
        · exact ⟨_, rfl, hwf, rfl, List.prefix_append _ _, hbytes⟩
        · exact ⟨_, rfl, hwf, rfl, List.prefix_append _ _, hbytes⟩
      · simp only [hn, if_false]
        exact ⟨c, rfl, hself⟩
  · rw [if_neg hwriting]
    exact ⟨c, rfl, hself⟩

end TcpConnection

end Huaweip2p
