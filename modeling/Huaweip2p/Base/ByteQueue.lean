import Huaweip2p.Base.Buffer
import Huaweip2p.Lib.Runs

/-!
# The buffer as a queue of bytes

* `ByteQueue`: what the operations do to a plain queue of bytes;
* `perform`: what they do to a `Buffer`;
* `Allowed`: the precondition that an operation asserts;
* `perform_refines`: an operation that is allowed does to the readable bytes what it does to the
  queue;
* `byteQueue_run`: so does every sequence of them.
-/

namespace Huaweip2p

/-- The operations on a buffer; the result of `readv` is an error, or what it has read. -/
inductive BufferOp
  | append (data : Str)
  | retrieve (len : ℕ)
  | retrieveAll
  | retrieveAsString (len : ℕ)
  | prepend (data : Str)
  | readFd (result : Option Str)
  deriving DecidableEq, Repr

/-- An operation on a queue of bytes: what it returns, and the queue after it. -/
def ByteQueue.perform (q : Str) : BufferOp → Str × Str
  | .append data => ([], q ++ data)
  | .retrieve len => ([], q.drop len)
  | .retrieveAll => ([], [])
  | .retrieveAsString len => (q.take len, q.drop len)
  | .prepend data => ([], data ++ q)
  | .readFd none => ([], q)
  | .readFd (some data) => ([], q ++ data)

namespace Buffer

/-- An operation on a buffer: what it returns, and the buffer after it. -/
def perform (b : Buffer) : BufferOp → Option (Str × Buffer)
  | .append data => (b.append data).map ([], ·)
  | .retrieve len => (b.retrieve len).map ([], ·)
  | .retrieveAll => some ([], b.retrieveAll)
  | .retrieveAsString len => b.retrieveAsString len
  | .prepend data => (b.prepend data).map ([], ·)
  -- a negative result leaves the buffer as it is
  | .readFd none => some ([], b)
  | .readFd (some data) => (b.readFd data).map ([], ·)

/-- What an operation asserts of its argument, and what `readv` can take in. -/
def Allowed (b : Buffer) : BufferOp → Prop
  | .retrieve len | .retrieveAsString len => len ≤ b.readableBytes
  | .prepend data => data.length ≤ b.prependableBytes
  | .readFd (some data) => data.length ≤ b.capacity
  | _ => True

instance (b : Buffer) (op : BufferOp) : Decidable (b.Allowed op) := by
  unfold Allowed
  split <;> infer_instance

/-- One step of a run; an operation that fails leaves the buffer as it is. -/
def step (b : Buffer) (op : BufferOp) : Buffer := ((b.perform op).map Prod.snd).getD b

variable {b : Buffer} {op : BufferOp}

/-- An operation that is allowed succeeds, and does what it does to a queue. -/
theorem perform_refines (h : b.WellFormed) (ha : b.Allowed op) :
    ∃ b', b.perform op = some ((ByteQueue.perform b.content op).1, b') ∧ b'.WellFormed ∧
      b'.content = (ByteQueue.perform b.content op).2 := by
  cases op with
  | append data =>
    obtain ⟨b', hb', hwf, hcontent⟩ := h.append data
    exact ⟨b', by rw [perform, hb']; rfl, hwf, hcontent⟩
  | retrieve len =>
    obtain ⟨b', hb', hwf, hcontent⟩ := h.retrieve ha
    exact ⟨b', by rw [perform, hb']; rfl, hwf, hcontent⟩
  | retrieveAll => exact ⟨b.retrieveAll, rfl, h.retrieveAll, content_retrieveAll b⟩
  | retrieveAsString len =>
    obtain ⟨b', hb', hwf, hcontent⟩ := h.retrieve ha
    refine ⟨b', ?_, hwf, hcontent⟩
    have hlen : len ≤ b.readableBytes := ha
    rw [perform, retrieveAsString, if_pos hlen, hb', Option.map_some, peek_eq hlen]
    rfl
  | prepend data =>
    obtain ⟨b', hb', hwf, hcontent⟩ := h.prepend ha
    exact ⟨b', by rw [perform, hb']; rfl, hwf, hcontent⟩
  | readFd result =>
    cases result with
    | none => exact ⟨b, rfl, h, rfl⟩
    | some data =>
      obtain ⟨b', hb', hwf, hcontent⟩ := h.readFd data
      exact ⟨b', by rw [perform, hb']; rfl, hwf, hcontent⟩

theorem step_refines (h : b.WellFormed) (ha : b.Allowed op) :
    b.perform op = some ((ByteQueue.perform b.content op).1, b.step op) ∧
      (b.step op).WellFormed ∧ (b.step op).content = (ByteQueue.perform b.content op).2 := by
  obtain ⟨b', hb', hwf, hcontent⟩ := perform_refines h ha
  have hstep : b.step op = b' := by rw [step, hb']; rfl
  rw [hstep]
  exact ⟨hb', hwf, hcontent⟩

/-- `makeSpace` leaves as many readable bytes as there were, as its last assertion says. -/
theorem readableBytes_makeSpace {b' : Buffer} {len : ℕ} (h : b.makeSpace len = some b') :
    b'.readableBytes = b.readableBytes := by
  rw [makeSpace] at h
  split_ifs at h
  · obtain rfl := Option.some.inj h
    rfl
  · obtain ⟨buffer, -, rfl⟩ := Option.map_eq_some_iff.1 h
    exact Nat.add_sub_cancel_left _ _

/-- **The queue of bytes.** In every sequence of operations whose preconditions hold, no operation
fails: no assertion does, those of `makeSpace` and of `ensureWritableBytes` included, and no copy
leaves the vector. The indices stay in order, and the readable bytes, and what is returned, are
those of a queue of bytes. -/
theorem byteQueue_run {ops : List BufferOp}
    (h : Runs.EveryStep step (fun b op _ => Allowed b op) init ops) :
    Runs.EveryStep step (fun b op b' =>
      b.perform op = some ((ByteQueue.perform b.content op).1, b') ∧
        b'.readerIndex ≤ b'.writerIndex ∧ b'.writerIndex ≤ b'.buffer.length) init ops ∧
    let b := Runs.run step init ops
    b.readerIndex ≤ b.writerIndex ∧ b.writerIndex ≤ b.buffer.length ∧
      b.content = Runs.run (fun q op => (ByteQueue.perform q op).2) [] ops ∧
      ∀ len, b.writableBytes < len → ∃ b', b.makeSpace len = some b' ∧
        b'.readableBytes = b.readableBytes ∧ len ≤ b'.writableBytes := by
  have hwf : (Runs.run step init ops).WellFormed :=
    Runs.run_of_everyStep (I := WellFormed) (fun _ _ hwf ha => (step_refines hwf ha).2.1)
      wellFormed_init h
  refine ⟨Runs.EveryStep.of_invariant (I := WellFormed) (fun b op hwf ha => ?_) wellFormed_init h,
    hwf.reader_le, hwf.writer_le, ?_, fun len hlen => ?_⟩
  · obtain ⟨hperform, hwf', -⟩ := step_refines hwf ha
    exact ⟨hwf', hperform, hwf'.reader_le, hwf'.writer_le⟩
  · exact Runs.run_simulates content (I := WellFormed)
      (fun b op hwf ha => (step_refines hwf ha).2) wellFormed_init h
  · obtain ⟨b', hb', -, -, hspace⟩ := hwf.makeSpace hlen
    exact ⟨b', hb', readableBytes_makeSpace hb', hspace⟩

/-- Five bytes come in; one is taken off, one put in front, and two are taken out as a string. -/
theorem byteQueue_run_five :
    (Runs.run step init [.append (lit "abc"), .retrieve 1, .prepend [7], .readFd none,
      .readFd (some (lit "de")), .retrieveAsString 2]).content = lit "cde" := by
  refine (byteQueue_run ?_).2.2.2.1
  simp only [Runs.everyStep_cons, Runs.everyStep_nil, and_true]
  exact ⟨trivial, by decide +kernel, by decide +kernel, trivial, by decide +kernel,
    by decide +kernel⟩

end Buffer

end Huaweip2p
