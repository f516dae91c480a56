import Huaweip2p.Base.Bytes

/-!
# The buffer

`Buffer` keeps its readable bytes between two indices of a vector. The operations return `none`
where an assertion of the source fails or a copy would leave the vector. `WellFormed` is the
invariant of the indices; on a well-formed buffer each operation that is asked for no more than
there is succeeds, stays well formed and acts on the readable bytes as on a queue.
-/

namespace Huaweip2p

/-- `class Buffer`. -/
structure Buffer where
  buffer : List UInt8
  readerIndex : ℕ
  writerIndex : ℕ
  deriving DecidableEq, Repr

namespace Buffer

def kCheapPrepend : ℕ := 8

def kInitialSize : ℕ := 1024

/-- The size of the second part of the `readv` in `readFd`. -/
def extrabufSize : ℕ := 65536

/-- The constructor. -/
def init : Buffer where
  buffer := List.replicate (kCheapPrepend + kInitialSize) 0
  readerIndex := kCheapPrepend
  writerIndex := kCheapPrepend

def readableBytes (b : Buffer) : ℕ := b.writerIndex - b.readerIndex

def writableBytes (b : Buffer) : ℕ := b.buffer.length - b.writerIndex

def prependableBytes (b : Buffer) : ℕ := b.readerIndex

/-- The `len` bytes from `peek()` on. -/
def peek (b : Buffer) (len : ℕ) : Str := (b.buffer.drop b.readerIndex).take len

/-- The readable bytes. -/
def content (b : Buffer) : Str := b.peek b.readableBytes

/-- `std::copy` of some bytes to a position of the vector. -/
def copyTo (buffer : List UInt8) (pos : ℕ) (data : Str) : Option (List UInt8) :=
  if pos + data.length ≤ buffer.length then
    some (buffer.take pos ++ data ++ buffer.drop (pos + data.length))
  else none

def retrieveAll (b : Buffer) : Buffer :=
  { b with readerIndex := kCheapPrepend, writerIndex := kCheapPrepend }

def retrieve (b : Buffer) (len : ℕ) : Option Buffer :=
  if len ≤ b.readableBytes then
    if len < b.readableBytes then some { b with readerIndex := b.readerIndex + len }
    else some b.retrieveAll
  else none

def retrieveAsString (b : Buffer) (len : ℕ) : Option (Str × Buffer) :=
  if len ≤ b.readableBytes then (b.retrieve len).map fun b' => (b.peek len, b') else none

/-- `makeSpace`: the vector grows, or the readable bytes move to its front. -/
def makeSpace (b : Buffer) (len : ℕ) : Option Buffer :=
  if b.writableBytes + b.prependableBytes < len + kCheapPrepend then
    -- `resize`, which here never shrinks the vector
    some { b with
      buffer := b.buffer.take (b.writerIndex + len) ++
        List.replicate (b.writerIndex + len - b.buffer.length) 0 }
  else if kCheapPrepend < b.readerIndex then
    (copyTo b.buffer kCheapPrepend b.content).map fun buffer =>
      { buffer := buffer
        readerIndex := kCheapPrepend
        writerIndex := kCheapPrepend + b.readableBytes }
  else none

def ensureWritableBytes (b : Buffer) (len : ℕ) : Option Buffer :=
  (if b.writableBytes < len then b.makeSpace len else some b).bind fun b =>
    if len ≤ b.writableBytes then some b else none

def hasWritten (b : Buffer) (len : ℕ) : Buffer := { b with writerIndex := b.writerIndex + len }

def append (b : Buffer) (data : Str) : Option Buffer := do
  let b ← b.ensureWritableBytes data.length
  let buffer ← copyTo b.buffer b.writerIndex data
  return { b with buffer := buffer }.hasWritten data.length

def prepend (b : Buffer) (data : Str) : Option Buffer :=
  if data.length ≤ b.prependableBytes then
    (copyTo b.buffer (b.readerIndex - data.length) data).map fun buffer =>
      { b with buffer := buffer, readerIndex := b.readerIndex - data.length }
  else none

/-- `readFd`, where `readv` has filled the writable bytes and then `extrabuf` with `data`. -/
def readFd (b : Buffer) (data : Str) : Option Buffer :=
  if data.length ≤ b.writableBytes then
    (copyTo b.buffer b.writerIndex data).map fun buffer =>
      { b with buffer := buffer }.hasWritten data.length
  else do
    let buffer ← copyTo b.buffer b.writerIndex (data.take b.writableBytes)
    { b with buffer := buffer, writerIndex := b.buffer.length }.append
      (data.drop b.writableBytes)

/-- What `readv` can take in. -/
def capacity (b : Buffer) : ℕ := b.writableBytes + extrabufSize

/-- The indices are in order and the vector has its cheap prepend area. -/
structure WellFormed (b : Buffer) : Prop where
  reader_le : b.readerIndex ≤ b.writerIndex
  writer_le : b.writerIndex ≤ b.buffer.length
  prepend_le : kCheapPrepend ≤ b.buffer.length

/-! ### Copies -/

section Copy

variable {buffer : List UInt8} {pos : ℕ} {data : Str}

theorem copyTo_eq_some (h : pos + data.length ≤ buffer.length) :
    copyTo buffer pos data =
      some (buffer.take pos ++ data ++ buffer.drop (pos + data.length)) := if_pos h

theorem length_copy (h : pos + data.length ≤ buffer.length) :
    (buffer.take pos ++ data ++ buffer.drop (pos + data.length)).length = buffer.length := by
  simp only [List.length_append, List.length_take, List.length_drop]
  omega

/-- Up to its end, a copy leaves what was in front of it and the data. -/
theorem take_copy_end (hpos : pos ≤ buffer.length) :
    (buffer.take pos ++ data ++ buffer.drop (pos + data.length)).take (pos + data.length) =
      buffer.take pos ++ data :=
  List.take_left' (by rw [List.length_append, List.length_take, Nat.min_eq_left hpos])

/-- From its start on, a copy leaves the data and what was behind it. -/
theorem drop_copy (hpos : pos ≤ buffer.length) :
    (buffer.take pos ++ data ++ buffer.drop (pos + data.length)).drop pos =
      data ++ buffer.drop (pos + data.length) := by
  rw [List.append_assoc]
  exact List.drop_left' (by rw [List.length_take, Nat.min_eq_left hpos])

end Copy

/-! ### The operations on a well-formed buffer -/

section WellFormed

variable {b : Buffer}

theorem content_eq (b : Buffer) : b.content = (b.buffer.take b.writerIndex).drop b.readerIndex := by
  rw [content, peek, readableBytes, List.drop_take]

theorem WellFormed.length_content (h : b.WellFormed) : b.content.length = b.readableBytes := by
  have h₁ := h.reader_le
  have h₂ := h.writer_le
  rw [content_eq, List.length_drop, List.length_take, readableBytes]
  omega

theorem peek_eq {len : ℕ} (hlen : len ≤ b.readableBytes) : b.peek len = b.content.take len := by
  rw [content, peek, peek, List.take_take, Nat.min_eq_left hlen]

theorem wellFormed_init : init.WellFormed :=
  ⟨le_refl _, by simp [init], by simp [init]⟩

@[simp] theorem content_init : init.content = [] := rfl

theorem WellFormed.retrieveAll (h : b.WellFormed) : b.retrieveAll.WellFormed :=
  ⟨le_refl _, h.prepend_le, h.prepend_le⟩

@[simp] theorem content_retrieveAll (b : Buffer) : b.retrieveAll.content = [] := by
  simp [content, peek, readableBytes, Buffer.retrieveAll]

/-- `retrieve` takes bytes off the front. -/
theorem WellFormed.retrieve (h : b.WellFormed) {len : ℕ} (hlen : len ≤ b.readableBytes) :
    ∃ b', b.retrieve len = some b' ∧ b'.WellFormed ∧ b'.content = b.content.drop len := by
  have h₁ := h.reader_le
  rw [Buffer.retrieve, if_pos hlen]
  by_cases hlt : len < b.readableBytes
  · rw [if_pos hlt]
    refine ⟨_, rfl, ⟨?_, h.writer_le, h.prepend_le⟩, ?_⟩
    · show b.readerIndex + len ≤ b.writerIndex
      rw [readableBytes] at hlen
      omega
    · rw [content_eq, content_eq, List.drop_drop]
  · rw [if_neg hlt]
    refine ⟨_, rfl, h.retrieveAll, ?_⟩
    rw [content_retrieveAll, List.drop_of_length_le (by rw [h.length_content]; omega)]

/-- `makeSpace` makes the space asked for and keeps the readable bytes, and its assertion holds. -/
theorem WellFormed.makeSpace (h : b.WellFormed) {len : ℕ} (hlen : b.writableBytes < len) :
    ∃ b', b.makeSpace len = some b' ∧ b'.WellFormed ∧ b'.content = b.content ∧
      len ≤ b'.writableBytes := by
  have h₁ := h.reader_le
  have h₂ := h.writer_le
  have h₃ := h.prepend_le
  rw [writableBytes] at hlen
  rw [Buffer.makeSpace, writableBytes, prependableBytes]
  by_cases hgrow : b.buffer.length - b.writerIndex + b.readerIndex < len + kCheapPrepend
  · rw [if_pos hgrow, List.take_of_length_le (by omega)]
    refine ⟨_, rfl, ⟨h₁, ?_, ?_⟩, ?_, ?_⟩
    · simp only [List.length_append, List.length_replicate]
      omega
    · simp only [List.length_append, List.length_replicate]
      omega
    · rw [content_eq, content_eq, List.take_append_of_le_length h₂]
    · simp only [writableBytes, List.length_append, List.length_replicate]
      omega
  · have hcopy : kCheapPrepend + b.content.length ≤ b.buffer.length := by
      rw [h.length_content, readableBytes]
      omega
    rw [if_neg hgrow, if_pos (by omega), copyTo_eq_some hcopy]
    refine ⟨_, rfl, ⟨?_, ?_, ?_⟩, ?_, ?_⟩
    · exact Nat.le_add_right _ _
    · rw [length_copy hcopy, ← h.length_content]
      exact hcopy
    · rw [length_copy hcopy]
      exact h₃
    · rw [content_eq]
      show ((_ : List UInt8).take (kCheapPrepend + b.readableBytes)).drop kCheapPrepend = _
      rw [← h.length_content, take_copy_end h₃]
      exact List.drop_left' (by rw [List.length_take, Nat.min_eq_left h₃])
    · show len ≤ (_ : List UInt8).length - (kCheapPrepend + b.readableBytes)
      rw [length_copy hcopy, readableBytes]
      omega

theorem WellFormed.ensureWritableBytes (h : b.WellFormed) (len : ℕ) :
    ∃ b', b.ensureWritableBytes len = some b' ∧ b'.WellFormed ∧ b'.content = b.content ∧
      len ≤ b'.writableBytes := by
  rw [Buffer.ensureWritableBytes]
  by_cases hlen : b.writableBytes < len
  · obtain ⟨b', hb', hwf, hcontent, hspace⟩ := h.makeSpace hlen
    exact ⟨b', by simp [hlen, hb', hspace], hwf, hcontent, hspace⟩
  · exact ⟨b, by simp [hlen, Nat.not_lt.1 hlen], h, rfl, Nat.not_lt.1 hlen⟩

/-- Data written into the writable bytes become readable. -/
theorem WellFormed.hasWritten (h : b.WellFormed) {data : Str}
    (hdata : data.length ≤ b.writableBytes) :
    ∃ buffer, copyTo b.buffer b.writerIndex data = some buffer ∧
      buffer.length = b.buffer.length ∧
      ({ b with buffer := buffer }.hasWritten data.length).WellFormed ∧
      ({ b with buffer := buffer }.hasWritten data.length).content = b.content ++ data := by
  have h₁ := h.reader_le
  have h₂ := h.writer_le
  rw [writableBytes] at hdata
  have hcopy : b.writerIndex + data.length ≤ b.buffer.length := by omega
  refine ⟨_, copyTo_eq_some hcopy, length_copy hcopy, ⟨?_, ?_, ?_⟩, ?_⟩
  · exact Nat.le_add_right_of_le h₁
  · exact hcopy.trans_eq (length_copy hcopy).symm
  · exact h.prepend_le.trans_eq (length_copy hcopy).symm
  · rw [content_eq, content_eq]
    show (List.take (b.writerIndex + data.length)
      (b.buffer.take b.writerIndex ++ data ++
        b.buffer.drop (b.writerIndex + data.length))).drop b.readerIndex = _
    rw [take_copy_end h₂, List.drop_append_of_le_length (by rw [List.length_take]; omega)]

/-- `append` adds at the back. -/
theorem WellFormed.append (h : b.WellFormed) (data : Str) :
    ∃ b', b.append data = some b' ∧ b'.WellFormed ∧ b'.content = b.content ++ data := by
  obtain ⟨b₁, hb₁, hwf, hcontent, hspace⟩ := h.ensureWritableBytes data.length
  obtain ⟨buffer, hcopy, -, hwf', hcontent'⟩ := hwf.hasWritten hspace
  exact ⟨_, by simp [Buffer.append, hb₁, hcopy], hwf', hcontent'.trans (by rw [hcontent])⟩

/-- `append` leaves the cheap prepend area free. -/
theorem kCheapPrepend_le_of_append {b b' : Buffer} {data : Str} (h : b.append data = some b')
    (hr : kCheapPrepend ≤ b.readerIndex) : kCheapPrepend ≤ b'.readerIndex := by
  have hspace : ∀ {len : ℕ} {b₁ : Buffer}, b.makeSpace len = some b₁ →
      kCheapPrepend ≤ b₁.readerIndex := by
    intro len b₁ h₁
    rw [makeSpace] at h₁
    split_ifs at h₁
    · obtain rfl := Option.some.inj h₁
      exact hr
    · obtain ⟨_, -, rfl⟩ := Option.map_eq_some_iff.1 h₁
      exact le_refl _
  have hensure : ∀ {len : ℕ} {b₁ : Buffer}, b.ensureWritableBytes len = some b₁ →
      kCheapPrepend ≤ b₁.readerIndex := by
    intro len b₁ h₁
    obtain ⟨b₂, h₂, h₁⟩ := Option.bind_eq_some_iff.1 h₁
    obtain ⟨-, rfl⟩ : len ≤ b₂.writableBytes ∧ b₂ = b₁ := by simpa using h₁
    split_ifs at h₂
    · exact hspace h₂
    · exact Option.some.inj h₂ ▸ hr
  simp only [append, Option.bind_eq_bind, Option.bind_eq_some_iff, Option.pure_def,
    Option.some.injEq] at h
  obtain ⟨b₁, hb₁, buffer, -, rfl⟩ := h
  show kCheapPrepend ≤ b₁.readerIndex
  exact hensure hb₁

/-- `prepend` adds at the front. -/
theorem WellFormed.prepend (h : b.WellFormed) {data : Str}
    (hdata : data.length ≤ b.prependableBytes) :
    ∃ b', b.prepend data = some b' ∧ b'.WellFormed ∧ b'.content = data ++ b.content := by
  have h₁ := h.reader_le
  have h₂ := h.writer_le
  rw [prependableBytes] at hdata
  have hend : b.readerIndex - data.length + data.length = b.readerIndex := by omega
  have hcopy : b.readerIndex - data.length + data.length ≤ b.buffer.length := by omega
  have hpos : b.readerIndex - data.length ≤ b.buffer.length := by omega
  rw [Buffer.prepend, prependableBytes, if_pos hdata, copyTo_eq_some hcopy]
  refine ⟨_, rfl, ⟨?_, ?_, ?_⟩, ?_⟩
  · exact (Nat.sub_le _ _).trans h₁
  · exact h₂.trans_eq (length_copy hcopy).symm
  · exact h.prepend_le.trans_eq (length_copy hcopy).symm
  · rw [content, peek, readableBytes]
    show ((_ : List UInt8).drop (b.readerIndex - data.length)).take
      (b.writerIndex - (b.readerIndex - data.length)) = _
    rw [drop_copy hpos, hend, content, peek, readableBytes,
      show b.writerIndex - (b.readerIndex - data.length) =
        data.length + (b.writerIndex - b.readerIndex) by omega, List.take_length_add_append]

/-- `readFd` adds what was read at the back, in the vector and beyond it. -/
theorem WellFormed.readFd (h : b.WellFormed) (data : Str) :
    ∃ b', b.readFd data = some b' ∧ b'.WellFormed ∧ b'.content = b.content ++ data := by
  rw [Buffer.readFd]
  by_cases hdata : data.length ≤ b.writableBytes
  · obtain ⟨buffer, hcopy, -, hwf, hcontent⟩ := h.hasWritten hdata
    exact ⟨_, by simp [hdata, hcopy], hwf, hcontent⟩
  · have hlen : (data.take b.writableBytes).length = b.writableBytes := by
      rw [List.length_take]
      omega
    obtain ⟨buffer, hcopy, hlength, hwf, hcontent⟩ := h.hasWritten hlen.le
    -- the writable bytes are full, and the rest is appended from `extrabuf`
    have hfull : { b with buffer := buffer }.hasWritten (data.take b.writableBytes).length =
        { b with buffer := buffer, writerIndex := b.buffer.length } := by
      have h₂ := h.writer_le
      rw [hlen, Buffer.hasWritten, writableBytes]
      congr 1
      show b.writerIndex + (b.buffer.length - b.writerIndex) = _
      omega
    rw [hfull] at hwf hcontent
    obtain ⟨b', hb', hwf', hcontent'⟩ := hwf.append (data.drop b.writableBytes)
    refine ⟨b', by simp [hdata, hcopy, hb'], hwf', ?_⟩
    rw [hcontent', hcontent, List.append_assoc, List.take_append_drop]

end WellFormed

end Buffer

end Huaweip2p
