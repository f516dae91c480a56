import Huaweip2p.Base.Buffer
import Huaweip2p.Lib.StreamDecoder

/-!
# The length-header codec

`LengthHeaderCodec` sends a message behind its length, a big-endian `int32_t`, and takes such
frames out of a connection's input buffer as they become complete.

* `decoder`: the format as a decoder of streams, which says what a stream of bytes means;
* `onMessage`: the loop of the source over a `Buffer`, and `onMessage_eq`, that it parses the
  readable bytes;
* `Receiver`: a connection's input buffer with the messages passed to the callback, and
  `receive_eq_parse`, that they are those of the stream however it arrives.
-/

namespace Huaweip2p.LengthHeaderCodec

def kHeaderLen : ℕ := 4

/-- `htobe32`: the four bytes of a 32-bit number. -/
def htobe32 (n : ℕ) : Str :=
  [UInt8.ofNat (n / 2 ^ 24), UInt8.ofNat (n / 2 ^ 16), UInt8.ofNat (n / 2 ^ 8), UInt8.ofNat n]

/-- `be32toh`, as an `int32_t`. -/
def be32toh (bytes : Str) : ℤ :=
  let n : ℕ := bytes.foldl (fun n c => 256 * n + c.toNat) 0
  if n < 2 ^ 31 then n else n - 2 ^ 32

theorem be32toh_htobe32 {n : ℕ} (h : n < 2 ^ 31) : be32toh (htobe32 n) = n := by
  have hn : (htobe32 n).foldl (fun n c => 256 * n + c.toNat) 0 = n := by
    simp only [htobe32, List.foldl_cons, List.foldl_nil, UInt8.toNat_ofNat']
    omega
  rw [be32toh, hn, if_pos h]

/-! ### The format -/

/-- A length that the codec takes for a frame. -/
def ValidLength (len : ℤ) : Prop := 0 ≤ len ∧ len ≤ 65536

instance (len : ℤ) : Decidable (ValidLength len) :=
  inferInstanceAs (Decidable (0 ≤ len ∧ len ≤ 65536))

/-- The front of a stream: a signed length of four bytes and as many bytes of message. -/
def front (s : Str) : Front UInt8 Str :=
  if kHeaderLen ≤ s.length then
    let len := be32toh (s.take kHeaderLen)
    if ValidLength len then
      if len.toNat + kHeaderLen ≤ s.length then
        .frame ((s.drop kHeaderLen).take len.toNat) ((s.drop kHeaderLen).drop len.toNat)
      else .incomplete
    else .invalid
  else .incomplete

theorem front_eq_frame_iff {s m rest : Str} :
    front s = .frame m rest ↔ kHeaderLen ≤ s.length ∧ ValidLength (be32toh (s.take kHeaderLen)) ∧
      (be32toh (s.take kHeaderLen)).toNat + kHeaderLen ≤ s.length ∧
      m = (s.drop kHeaderLen).take (be32toh (s.take kHeaderLen)).toNat ∧
      rest = (s.drop kHeaderLen).drop (be32toh (s.take kHeaderLen)).toNat := by
  unfold front
  dsimp only
  split_ifs with h₁ h₂ h₃ <;> simp_all [eq_comm]

theorem front_eq_invalid_iff {s : Str} :
    front s = .invalid ↔
      kHeaderLen ≤ s.length ∧ ¬ ValidLength (be32toh (s.take kHeaderLen)) := by
  unfold front
  dsimp only
  split_ifs with h₁ h₂ h₃ <;> simp_all

/-- The wire format of the codec. -/
def decoder : StreamDecoder UInt8 Str where
  front := front
  length_lt := by
    intro s m rest h
    obtain ⟨h₁, -, -, -, rfl⟩ := front_eq_frame_iff.1 h
    rw [List.length_drop, List.length_drop]
    rw [kHeaderLen] at h₁ ⊢
    omega
  frame_append := by
    intro s m rest h t
    obtain ⟨h₁, h₂, h₃, rfl, rfl⟩ := front_eq_frame_iff.1 h
    have htake : (s ++ t).take kHeaderLen = s.take kHeaderLen :=
      List.take_append_of_le_length h₁
    have hdrop : (s ++ t).drop kHeaderLen = s.drop kHeaderLen ++ t :=
      List.drop_append_of_le_length h₁
    have hlen : (be32toh (s.take kHeaderLen)).toNat ≤ (s.drop kHeaderLen).length := by
      rw [List.length_drop]
      omega
    rw [front_eq_frame_iff, htake, hdrop, List.length_append,
      List.take_append_of_le_length hlen, List.drop_append_of_le_length hlen]
    exact ⟨by omega, h₂, by omega, rfl, rfl⟩
  invalid_append := by
    intro s h t
    obtain ⟨h₁, h₂⟩ := front_eq_invalid_iff.1 h
    rw [front_eq_invalid_iff, List.take_append_of_le_length h₁, List.length_append]
    exact ⟨by omega, h₂⟩

theorem decoder_front (s : Str) : decoder.front s = front s := rfl

/-- A frame: the length of a message and the message. -/
def frame (message : Str) : Str := htobe32 message.length ++ message

/-- The frames of the messages that a receiver accepts. -/
def encoder : decoder.Encoder fun m : Str => m.length ≤ 65536 where
  encode := frame
  front_encode := by
    intro m hm t
    have htake : (frame m ++ t).take kHeaderLen = htobe32 m.length := rfl
    have hdrop : (frame m ++ t).drop kHeaderLen = m ++ t := rfl
    have hlen : be32toh (htobe32 m.length) = m.length := be32toh_htobe32 (by omega)
    rw [decoder_front, front_eq_frame_iff, htake, hdrop, hlen, Int.toNat_natCast, List.take_left, List.drop_left]
    have hlength : (frame m ++ t).length = kHeaderLen + m.length + t.length := by
      simp only [frame, htobe32, kHeaderLen, List.length_append, List.length_cons, List.length_nil]
    rw [hlength]
    exact ⟨by omega, ⟨by omega, by omega⟩, by omega, rfl, rfl⟩
  front_nil := rfl

/-! ### The loop -/

/-- The loop of `onMessage`, for at most `fuel` rounds: the messages passed to the callback,
whether the connection was shut down, and the buffer. The callback does not touch the buffer. -/
def onMessageLoop : ℕ → Buffer → Option (List Str × Bool × Buffer)
  | 0, _ => none
  | fuel + 1, buf =>
    if kHeaderLen ≤ buf.readableBytes then
      let len := be32toh (buf.peek kHeaderLen)
      if len > 65536 ∨ len < 0 then some ([], true, buf)
      else if len.toNat + kHeaderLen ≤ buf.readableBytes then do
        let buf ← buf.retrieve kHeaderLen
        let message := buf.peek len.toNat
        let buf ← buf.retrieve len.toNat
        let (messages, shutdown, buf) ← onMessageLoop fuel buf
        return (message :: messages, shutdown, buf)
      else some ([], false, buf)
    else some ([], false, buf)

/-- `onMessage`. Every round but the last takes at least a header. -/
def onMessage (buf : Buffer) : Option (List Str × Bool × Buffer) :=
  onMessageLoop (buf.readableBytes + 1) buf

theorem validLength_iff {len : ℤ} : ¬ (len > 65536 ∨ len < 0) ↔ ValidLength len := by
  rw [ValidLength]
  omega

/-- The loop, with fuel for its rounds, parses the readable bytes. It shuts the connection down
when it stops at an invalid length. -/
theorem onMessageLoop_eq {fuel : ℕ} {b : Buffer} (hb : b.WellFormed)
    (hfuel : b.readableBytes < fuel) :
    ∃ shutdown b', onMessageLoop fuel b = some ((decoder.parse b.content).1, shutdown, b') ∧
      b'.WellFormed ∧ b'.content = (decoder.parse b.content).2 ∧
      (shutdown = true ↔ decoder.front b'.content = .invalid) := by
  induction fuel generalizing b with
  | zero => omega
  | succ fuel ih =>
    have hlength := hb.length_content
    have hstop : ∀ f : Front UInt8 Str, front b.content = f → (∀ m rest, f ≠ .frame m rest) →
        decoder.parse b.content = ([], b.content) := fun f hf hne =>
      StreamDecoder.parse_of_not_frame fun m rest h => hne m rest (hf.symm.trans h)
    rw [onMessageLoop]
    by_cases hheader : kHeaderLen ≤ b.readableBytes
    · rw [if_pos hheader, Buffer.peek_eq hheader]
      dsimp only
      by_cases hvalid : ValidLength (be32toh (b.content.take kHeaderLen))
      · rw [if_neg (validLength_iff.2 hvalid)]
        by_cases hframe : (be32toh (b.content.take kHeaderLen)).toNat + kHeaderLen ≤ b.readableBytes
        · rw [if_pos hframe]
          have hfront := front_eq_frame_iff.2
            ⟨hheader.trans_eq hlength.symm, hvalid, hframe.trans_eq hlength.symm, rfl, rfl⟩
          generalize be32toh (b.content.take kHeaderLen) = len at hframe hfront
          obtain ⟨b₁, hb₁, hwf₁, hcontent₁⟩ := hb.retrieve hheader
          have hread₁ : b₁.readableBytes = b.readableBytes - kHeaderLen := by
            rw [← hwf₁.length_content, hcontent₁, List.length_drop, hlength]
          have hlen : len.toNat ≤ b₁.readableBytes := by omega
          obtain ⟨b₂, hb₂, hwf₂, hcontent₂⟩ := hwf₁.retrieve hlen
          have hread₂ : b₂.readableBytes = b₁.readableBytes - len.toNat := by
            rw [← hwf₂.length_content, hcontent₂, List.length_drop, hwf₁.length_content]
          have hdec : b₂.readableBytes < fuel := by
            rw [kHeaderLen] at hread₁ hheader
            omega
          obtain ⟨shutdown, b', hloop, hwf', hcontent', hshutdown⟩ := ih hwf₂ hdec
          rw [hcontent₁] at hcontent₂
          rw [hcontent₂] at hloop hcontent'
          rw [StreamDecoder.parse_of_frame (d := decoder) hfront]
          refine ⟨shutdown, b', ?_, hwf', hcontent', hshutdown⟩
          simp [hb₁, hb₂, hloop, Buffer.peek_eq hlen, hcontent₁]
        · have hfront : front b.content = .incomplete := by
            rw [← hlength] at hheader hframe
            simp [front, hheader, hvalid, hframe]
          rw [if_neg hframe, hstop _ hfront (by simp)]
          refine ⟨false, b, rfl, hb, rfl, ?_⟩
          simp [decoder, hfront]
      · have hfront := front_eq_invalid_iff.2 ⟨hheader.trans_eq hlength.symm, hvalid⟩
        rw [if_pos (not_not.1 (mt validLength_iff.1 hvalid)), hstop _ hfront (by simp)]
        refine ⟨true, b, rfl, hb, rfl, ?_⟩
        simp [decoder, hfront]
    · have hfront : front b.content = .incomplete := by
        rw [← hlength] at hheader
        simp [front, hheader]
      rw [if_neg hheader, hstop _ hfront (by simp)]
      refine ⟨false, b, rfl, hb, rfl, ?_⟩
      simp [decoder, hfront]

/-- **The codec.** On a well-formed buffer `onMessage` returns; it passes the messages of the
readable bytes to the callback, leaves the unparsed suffix readable, and shuts the connection down
when an invalid length is at the front of it. -/
theorem onMessage_eq {b : Buffer} (hb : b.WellFormed) :
    ∃ shutdown b', onMessage b = some ((decoder.parse b.content).1, shutdown, b') ∧
      b'.WellFormed ∧ b'.content = (decoder.parse b.content).2 ∧
      (shutdown = true ↔ decoder.front b'.content = .invalid) :=
  onMessageLoop_eq hb (Nat.lt_succ_self _)

/-! ### Receiving -/

/-- A connection's input buffer and the messages passed to the callback so far. -/
structure Receiver where
  inputBuffer : Buffer
  messages : List Str

namespace Receiver

/-- A new connection. -/
def init : Receiver := ⟨Buffer.init, []⟩

/-- The message callback on the given input buffer. -/
def onMessage (r : Receiver) (buf : Buffer) : Option Receiver := do
  let (messages, _, buf) ← LengthHeaderCodec.onMessage buf
  return ⟨buf, r.messages ++ messages⟩

/-- Data appended to the input buffer. -/
def append (r : Receiver) (data : Str) : Option Receiver := do
  r.onMessage (← r.inputBuffer.append data)

/-- Data read by `readFd`. -/
def readFd (r : Receiver) (data : Str) : Option Receiver := do
  r.onMessage (← r.inputBuffer.readFd data)

/-- The receiver has parsed what arrived. -/
structure HasParsed (r : Receiver) (arrived : Str) : Prop where
  wellFormed : r.inputBuffer.WellFormed
  parse_eq : decoder.parse arrived = (r.messages, r.inputBuffer.content)

theorem hasParsed_init : init.HasParsed [] :=
  ⟨Buffer.wellFormed_init, StreamDecoder.parse_of_incomplete rfl⟩

theorem HasParsed.onMessage {r : Receiver} {arrived data : Str} (h : r.HasParsed arrived)
    {buf : Buffer} (hbuf : buf.WellFormed) (hcontent : buf.content = r.inputBuffer.content ++ data) :
    ∃ r', r.onMessage buf = some r' ∧ r'.HasParsed (arrived ++ data) := by
  obtain ⟨shutdown, b', hb', hwf', hcontent', -⟩ := onMessage_eq hbuf
  refine ⟨⟨b', r.messages ++ (decoder.parse buf.content).1⟩, by simp [Receiver.onMessage, hb'],
    hwf', ?_⟩
  rw [decoder.parse_append, h.parse_eq, ← hcontent, ← hcontent']

theorem HasParsed.append {r : Receiver} {arrived : Str} (h : r.HasParsed arrived) (data : Str) :
    ∃ r', r.append data = some r' ∧ r'.HasParsed (arrived ++ data) := by
  obtain ⟨buf, hbuf, hwf, hcontent⟩ := h.wellFormed.append data
  obtain ⟨r', hr', hparsed⟩ := h.onMessage hwf hcontent
  exact ⟨r', by simp [Receiver.append, hbuf, hr'], hparsed⟩

theorem HasParsed.readFd {r : Receiver} {arrived : Str} (h : r.HasParsed arrived) (data : Str) :
    ∃ r', r.readFd data = some r' ∧ r'.HasParsed (arrived ++ data) := by
  obtain ⟨buf, hbuf, hwf, hcontent⟩ := h.wellFormed.readFd data
  obtain ⟨r', hr', hparsed⟩ := h.onMessage hwf hcontent
  exact ⟨r', by simp [Receiver.readFd, hbuf, hr'], hparsed⟩

end Receiver

/-- How the next bytes of a stream arrive: appended, or read as far as `readv` can take them. -/
inductive Chunk
  | append (n : ℕ)
  | readFd (n : ℕ)
  deriving DecidableEq, Repr

/-- The arrival of a chunk: the receiver and the rest of the stream. -/
def receive : Receiver × Str → Chunk → Option (Receiver × Str)
  | (r, stream), .append n => do
    let r ← r.append (stream.take n)
    return (r, stream.drop n)
  | (r, stream), .readFd n => do
    let n := min n r.inputBuffer.capacity
    let r ← r.readFd (stream.take n)
    return (r, stream.drop n)

theorem receive_hasParsed {r : Receiver} {arrived : Str} (h : r.HasParsed arrived) (rest : Str)
    (c : Chunk) : ∃ r' n, receive (r, rest) c = some (r', rest.drop n) ∧
      r'.HasParsed (arrived ++ rest.take n) := by
  cases c with
  | append n =>
    obtain ⟨r', hr', hparsed⟩ := h.append (rest.take n)
    exact ⟨r', n, by simp [receive, hr'], hparsed⟩
  | readFd n =>
    obtain ⟨r', hr', hparsed⟩ := h.readFd (rest.take (min n r.inputBuffer.capacity))
    exact ⟨r', _, by simp [receive, hr'], hparsed⟩

theorem foldlM_receive_hasParsed {r : Receiver} {arrived : Str} (h : r.HasParsed arrived)
    (rest : Str) (cs : List Chunk) : ∃ r' data rest', cs.foldlM receive (r, rest) = some (r', rest') ∧
      rest = data ++ rest' ∧ r'.HasParsed (arrived ++ data) := by
  induction cs generalizing r arrived rest with
  | nil => exact ⟨r, [], rest, rfl, rfl, by rwa [List.append_nil]⟩
  | cons c cs ih =>
    obtain ⟨r₁, n, hr₁, h₁⟩ := receive_hasParsed h rest c
    obtain ⟨r', data, rest', hr', hrest, h'⟩ := ih h₁ (rest.drop n)
    refine ⟨r', rest.take n ++ data, rest', ?_, ?_, ?_⟩
    · rw [List.foldlM_cons, hr₁]
      exact hr'
    · rw [List.append_assoc, ← hrest, List.take_append_drop]
    · rwa [← List.append_assoc]

/-- **Receiving.** However a stream arrives, the messages passed to the callback and the bytes left
readable are the parse of what has arrived; no assertion fails and every call returns; when the
stream has arrived, they are the parse of the stream; and once an invalid length is at the front,
nothing that arrives later produces a message. -/
theorem receive_eq_parse (stream : Str) (cs : List Chunk) :
    ∃ r rest, cs.foldlM receive (Receiver.init, stream) = some (r, rest) ∧
      (∃ arrived, stream = arrived ++ rest ∧
        decoder.parse arrived = (r.messages, r.inputBuffer.content)) ∧
      (rest = [] → decoder.parse stream = (r.messages, r.inputBuffer.content)) ∧
      (decoder.front r.inputBuffer.content = .invalid →
        (decoder.parse stream).1 = r.messages ∧
        ∀ later, ∃ r' rest', (cs ++ later).foldlM receive (Receiver.init, stream) =
          some (r', rest') ∧ r'.messages = r.messages) := by
  obtain ⟨r, arrived, rest, hr, hstream, hparsed⟩ :=
    foldlM_receive_hasParsed Receiver.hasParsed_init stream cs
  rw [List.nil_append] at hparsed
  refine ⟨r, rest, hr, ⟨arrived, hstream, hparsed.parse_eq⟩, fun hrest => ?_, fun hinvalid => ?_⟩
  · rw [hstream, hrest, List.append_nil]
    exact hparsed.parse_eq
  · have hmore : ∀ t, (decoder.parse (arrived ++ t)).1 = r.messages := by
      intro t
      rw [decoder.parse_append_of_invalid (by rw [hparsed.parse_eq]; exact hinvalid),
        hparsed.parse_eq]
    refine ⟨hstream ▸ hmore rest, fun later => ?_⟩
    obtain ⟨r', data, rest', hr', -, hparsed'⟩ := foldlM_receive_hasParsed hparsed rest later
    refine ⟨r', rest', ?_, ?_⟩
    · rw [List.foldlM_append, hr]
      exact hr'
    · rw [← hmore data, hparsed'.parse_eq]

end Huaweip2p.LengthHeaderCodec
