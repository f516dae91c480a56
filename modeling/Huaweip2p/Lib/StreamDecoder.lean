import Mathlib.Tactic

/-!
# Decoders of framed streams

A `StreamDecoder` looks at the front of a stream and finds a frame there, or finds that the front
is not complete yet, or that it is invalid. What it finds, other than incompleteness, does not
depend on what comes later, so the messages of a stream can be parsed as the stream arrives.

* `parse`: all frames from the front on, and the suffix at which the decoder stops;
* `parse_append`: parsing in two steps;
* `Encoder`: an encoding whose frames the decoder finds, with the round trip `parse_encodeAll` and
  its version for a stream that has not arrived to its end, `parse_prefix`.
-/

universe u v

/-- The front of a stream. -/
inductive Front (α : Type u) (μ : Type v)
  /-- A frame with its message, and the rest of the stream. -/
  | frame (m : μ) (rest : List α)
  /-- More of the stream is needed. -/
  | incomplete
  /-- There is no frame, whatever comes later. -/
  | invalid

/-- A decoder of the front of a stream. -/
structure StreamDecoder (α : Type u) (μ : Type v) where
  front : List α → Front α μ
  length_lt : ∀ {s m rest}, front s = .frame m rest → rest.length < s.length
  frame_append : ∀ {s m rest}, front s = .frame m rest →
    ∀ t, front (s ++ t) = .frame m (rest ++ t)
  invalid_append : ∀ {s}, front s = .invalid → ∀ t, front (s ++ t) = .invalid

namespace StreamDecoder

variable {α : Type u} {μ : Type v} (d : StreamDecoder α μ)

/-- The messages of a stream up to the first front that is not a frame, and the stream from there
on. -/
def parse (s : List α) : List μ × List α :=
  match _h : d.front s with
  | .frame m rest => (m :: (parse rest).1, (parse rest).2)
  | .incomplete => ([], s)
  | .invalid => ([], s)
termination_by s.length
decreasing_by exact d.length_lt ‹_›

variable {d}

theorem parse_of_frame {s rest : List α} {m : μ} (h : d.front s = .frame m rest) :
    d.parse s = (m :: (d.parse rest).1, (d.parse rest).2) := by
  rw [parse]
  split
  · rename_i m' rest' h'
    rw [h] at h'
    cases h'
    rfl
  · rename_i h'
    rw [h] at h'
    cases h'
  · rename_i h'
    rw [h] at h'
    cases h'

theorem parse_of_not_frame {s : List α} (h : ∀ m rest, d.front s ≠ .frame m rest) :
    d.parse s = ([], s) := by
  rw [parse]
  split
  · rename_i m rest h'
    exact absurd h' (h m rest)
  · rfl
  · rfl

theorem parse_of_incomplete {s : List α} (h : d.front s = .incomplete) : d.parse s = ([], s) :=
  parse_of_not_frame fun m rest => by simp [h]

theorem parse_of_invalid {s : List α} (h : d.front s = .invalid) : d.parse s = ([], s) :=
  parse_of_not_frame fun m rest => by simp [h]

variable (d)

/-- The suffix at which the decoder stops is where it goes on when more arrives. -/
theorem parse_append (s t : List α) :
    d.parse (s ++ t) =
      ((d.parse s).1 ++ (d.parse ((d.parse s).2 ++ t)).1, (d.parse ((d.parse s).2 ++ t)).2) := by
  induction s using parse.induct d with
  | case1 s m rest h ih =>
    rw [parse_of_frame h, parse_of_frame (d.frame_append h t), ih, List.cons_append]
  | case2 s h => simp [parse_of_incomplete h]
  | case3 s h => simp [parse_of_invalid h]

/-- Behind an invalid front nothing is delivered any more. -/
theorem parse_append_of_invalid {s : List α} (h : d.front (d.parse s).2 = .invalid)
    (t : List α) : d.parse (s ++ t) = ((d.parse s).1, (d.parse s).2 ++ t) := by
  rw [parse_append, parse_of_invalid (d.invalid_append h t), List.append_nil]

/-- An encoding of the messages that satisfy `P`: the decoder finds each of its frames. -/
structure Encoder (P : μ → Prop) where
  encode : μ → List α
  front_encode : ∀ {m}, P m → ∀ t, d.front (encode m ++ t) = .frame m t
  front_nil : d.front [] = .incomplete

namespace Encoder

variable {d} {P : μ → Prop} (e : d.Encoder P)

/-- The stream of a list of messages. -/
def encodeAll (ms : List μ) : List α := ms.flatMap e.encode

@[simp] theorem encodeAll_nil : e.encodeAll [] = [] := rfl

@[simp] theorem encodeAll_append (ms ms' : List μ) :
    e.encodeAll (ms ++ ms') = e.encodeAll ms ++ e.encodeAll ms' := List.flatMap_append

@[simp] theorem encodeAll_singleton (m : μ) : e.encodeAll [m] = e.encode m := by
  simp [encodeAll]

/-- The messages of an encoded stream are delivered, and nothing is left of it. -/
theorem parse_encodeAll {ms : List μ} (h : ∀ m ∈ ms, P m) : d.parse (e.encodeAll ms) = (ms, []) := by
  induction ms with
  | nil => exact parse_of_incomplete e.front_nil
  | cons m ms ih =>
    rw [encodeAll, List.flatMap_cons, parse_of_frame (e.front_encode (h m List.mem_cons_self) _),
      ← encodeAll, ih fun m' hm' => h m' (List.mem_cons_of_mem _ hm')]

/-- Of a prefix of an encoded stream, a prefix of its messages is delivered. -/
theorem parse_prefix {ms : List μ} (h : ∀ m ∈ ms, P m) {s : List α}
    (hs : s <+: e.encodeAll ms) : (d.parse s).1 <+: ms := by
  obtain ⟨t, ht⟩ := hs
  have hparse := e.parse_encodeAll h
  rw [← ht, parse_append] at hparse
  exact ⟨_, congrArg Prod.fst hparse⟩

/-- The decoder meets nothing invalid on the way. -/
theorem front_parse_prefix {ms : List μ} (h : ∀ m ∈ ms, P m) {s : List α}
    (hs : s <+: e.encodeAll ms) : d.front (d.parse s).2 ≠ .invalid := by
  intro hinvalid
  obtain ⟨t, ht⟩ := hs
  have hparse := e.parse_encodeAll h
  rw [← ht, d.parse_append_of_invalid hinvalid] at hparse
  have hnil := (List.append_eq_nil_iff.1 (congrArg Prod.snd hparse)).1
  rw [hnil, e.front_nil] at hinvalid
  cases hinvalid

end Encoder

end StreamDecoder
