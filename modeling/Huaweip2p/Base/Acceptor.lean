import Huaweip2p.Lib.Descriptors
import Huaweip2p.Lib.Runs

/-!
# The acceptor

`Acceptor::handleRead` statement by statement, beside other threads that open and close descriptors
of the process. It takes one connection; when there is no descriptor for it, the acceptor gives up
the one it keeps in reserve, takes the connection with it, closes it, and opens the reserve again.

* `Acceptor.step`: the next statement of `handleRead`, or a step of something else;
* `Inv`: what the acceptor holds is what `idleFd_` says, at every statement;
* `acceptor_run`: the descriptors of the others, and the connections that were taken;
* `acceptor_quiet`: as long as no other thread opens a descriptor during `handleRead`, the reserve
  is there and every call takes a connection.
-/

namespace Huaweip2p

namespace Acceptor

/-- What a descriptor of the process is held by. -/
inductive Holder
  | acceptSocket
  /-- The reserve, open on `/dev/null`. -/
  | idle
  /-- A connection that the acceptor took to close it. -/
  | refused (c : ℕ)
  /-- A connection that was handed to `newConnectionCallback_`. -/
  | connection (c : ℕ)
  | other
  deriving DecidableEq, Repr

/-- What the acceptor holds in `idleFd_`. -/
def Holder.own : Holder → Bool
  | .idle | .refused _ => true
  | _ => false

/-- The next statement of `handleRead`. -/
inductive Pos
  | returned
  | accept
  | closeIdle
  | acceptAgain
  | closeAgain
  | openIdle
  deriving DecidableEq, Repr

end Acceptor

open Acceptor in
/-- `class Acceptor` with the descriptors of its process: `backlog` are the connections that wait in
the kernel, in order, `arrived` all that ever did, and `taken` those that were accepted, with
whether they were handed on. -/
structure Acceptor where
  fds : Descriptors Holder
  acceptFd : ℕ
  idleFd : Option ℕ
  backlog : List ℕ
  arrived : List ℕ
  taken : List (ℕ × Bool)
  pos : Pos

namespace Acceptor

/-- The constructor, in a process where the descriptors `inUse` are open: the two descriptors of the
acceptor are opened, or the program ends. -/
def new (limit : ℕ) (inUse : ℕ → Bool) : Option Acceptor := do
  let fds : Descriptors Holder :=
    ⟨limit, fun n => if n < limit ∧ inUse n then some .other else none⟩
  let acceptFd ← fds.free
  let fds := fds.hold acceptFd .acceptSocket
  let idleFd ← fds.free
  return {
    fds := fds.hold idleFd .idle
    acceptFd := acceptFd
    idleFd := some idleFd
    backlog := []
    arrived := []
    taken := []
    pos := .returned }

inductive Event
  /-- `poll` reports the listening socket. -/
  | handleRead
  /-- The next statement of `handleRead`; whether an `accept` in it fails for some other reason than
  the descriptors. -/
  | advance (fails : Bool)
  /-- A connection arrives. -/
  | arrive (c : ℕ)
  /-- Another thread opens a descriptor. -/
  | openOther
  /-- Another thread closes a descriptor that it holds, or a connection. -/
  | closeOther (n : ℕ)

variable (s : Acceptor)

/-- `accept` takes the oldest connection that waits. The descriptor comes first: without one the
call fails with `EMFILE`, whether a connection waits or not. -/
def accepted (fails : Bool) : Option (ℕ × ℕ × List ℕ) :=
  if fails then none
  else match s.fds.free, s.backlog with
    | some n, c :: rest => some (n, c, rest)
    | _, _ => none

/-- `errno` is `EMFILE`. -/
def Full (fails : Bool) : Prop := fails = false ∧ s.fds.free = none

instance (fails : Bool) : Decidable (s.Full fails) := inferInstanceAs (Decidable (_ ∧ _))

def advance (fails : Bool) : Acceptor :=
  match s.pos with
  | .returned => s
  | .accept => match s.accepted fails with
    | some (n, c, rest) =>
      { s with
        fds := s.fds.hold n (.connection c)
        backlog := rest
        taken := s.taken ++ [(c, true)]
        pos := .returned }
    | none => { s with pos := if s.Full fails then .closeIdle else .returned }
  | .closeIdle => { s with fds := s.fds.closeAny s.idleFd, pos := .acceptAgain }
  | .acceptAgain => match s.accepted fails with
    | some (n, c, rest) =>
      { s with
        fds := s.fds.hold n (.refused c)
        idleFd := some n
        backlog := rest
        taken := s.taken ++ [(c, false)]
        pos := .closeAgain }
    | none => { s with idleFd := none, pos := .closeAgain }
  | .closeAgain => { s with fds := s.fds.closeAny s.idleFd, pos := .openIdle }
  | .openIdle => match s.fds.free with
    | some n => { s with fds := s.fds.hold n .idle, idleFd := some n, pos := .returned }
    | none => { s with idleFd := none, pos := .returned }

/-- The descriptor is held by another thread, or by a connection. -/
def ofOthers (n : ℕ) : Bool :=
  match s.fds.holder n with
  | some .other | some (.connection _) => true
  | _ => false

def step : Event → Acceptor
  | .handleRead => if s.pos = .returned then { s with pos := .accept } else s
  | .advance fails => s.advance fails
  | .arrive c => { s with backlog := s.backlog ++ [c], arrived := s.arrived ++ [c] }
  | .openOther => match s.fds.free with
    | some n => { s with fds := s.fds.hold n .other }
    | none => s
  | .closeOther n => if s.ofOthers n then { s with fds := s.fds.close n } else s

/-- At the positions where `idleFd_` is what it says. -/
def Pos.keeps : Pos → Bool
  | .acceptAgain | .openIdle => false
  | _ => true

/-- What the acceptor holds is the descriptor in `idleFd_`, and nothing at all between its close and
the next statement; it is the reserve, or the connection just refused. What was taken and what waits
is what arrived. -/
structure Inv : Prop where
  acceptFd : s.fds.holder s.acceptFd = some .acceptSocket
  limited : ∀ n, s.fds.holder n ≠ none → n < s.fds.limit
  own : ∀ n h, s.fds.holder n = some h → h.own = true →
    s.pos.keeps = true ∧ s.idleFd = some n
  idleFd : ∀ n, s.idleFd = some n → s.pos.keeps = true →
    ∃ h, s.fds.holder n = some h ∧ h.own = true ∧ (s.pos ≠ .closeAgain → h = .idle)
  history : s.taken.map Prod.fst ++ s.backlog = s.arrived

variable {s}

theorem accepted_eq_some {fails : Bool} {n c : ℕ} {rest : List ℕ}
    (h : s.accepted fails = some (n, c, rest)) :
    fails = false ∧ s.fds.free = some n ∧ s.backlog = c :: rest := by
  cases fails with
  | true => cases h
  | false =>
    rw [accepted, if_neg (by decide)] at h
    split at h
    · obtain ⟨rfl, rfl, rfl⟩ := by simpa using h
      exact ⟨rfl, ‹_›, ‹_›⟩
    · cases h

theorem accepted_of_free {n c : ℕ} {rest : List ℕ} (hfree : s.fds.free = some n)
    (hbacklog : s.backlog = c :: rest) : s.accepted false = some (n, c, rest) := by
  simp [accepted, hfree, hbacklog]

/-- A new descriptor for something that the acceptor does not hold. -/
theorem Inv.hold (h : s.Inv) {n : ℕ} (hfree : s.fds.free = some n) {holder : Holder}
    (hown : holder.own = false) : { s with fds := s.fds.hold n holder }.Inv := by
  obtain ⟨hlt, hn⟩ := Descriptors.free_eq_some hfree
  exact
    { acceptFd := Descriptors.holder_hold_of_free hn h.acceptFd
      limited := fun m hm => by
        rcases eq_or_ne m n with rfl | hne
        · exact hlt
        · exact h.limited m (by rwa [← Descriptors.holder_hold_of_ne hne])
      own := fun m h' hm hown' => by
        rcases eq_or_ne m n with rfl | hne
        · rw [Descriptors.holder_hold_self, Option.some.injEq] at hm
          rw [hm, hown'] at hown
          cases hown
        · rw [Descriptors.holder_hold_of_ne hne] at hm
          exact h.own m h' hm hown'
      idleFd := fun m hm hkeeps => by
        obtain ⟨h', hh', hrest⟩ := h.idleFd m hm hkeeps
        exact ⟨h', Descriptors.holder_hold_of_free hn hh', hrest⟩
      history := h.history }

/-- Another position at which the acceptor keeps its reserve. -/
theorem Inv.goto (h : s.Inv) {pos : Pos} (hpos : s.pos.keeps = true ∧ s.pos ≠ .closeAgain)
    (hkeeps : pos.keeps = true) : { s with pos := pos }.Inv :=
  { h with
    own := fun n h' hn hown => ⟨hkeeps, (h.own n h' hn hown).2⟩
    idleFd := fun n hn _ => by
      obtain ⟨h', hh', hown, hidle⟩ := h.idleFd n hn hpos.1
      exact ⟨h', hh', hown, fun _ => hidle hpos.2⟩ }

/-- The close of what the acceptor holds. -/
theorem Inv.close (h : s.Inv) (hpos : s.pos.keeps = true) {pos : Pos} (hkeeps : pos.keeps = false) :
    { s with fds := s.fds.closeAny s.idleFd, pos := pos }.Inv := by
  -- nothing is left that the acceptor holds
  have hnone : ∀ n h', (s.fds.closeAny s.idleFd).holder n = some h' →
      s.fds.holder n = some h' ∧ h'.own = false := by
    intro n h' hn
    by_contra hnot
    cases hidle : s.idleFd with
    | none =>
      rw [hidle] at hn
      rw [not_and, Bool.not_eq_false] at hnot
      have := (h.own n h' hn (hnot hn)).2
      rw [hidle] at this
      cases this
    | some i =>
      rw [hidle] at hn
      obtain ⟨hne, hn⟩ := Descriptors.holder_of_close hn
      rw [not_and, Bool.not_eq_false] at hnot
      have := (h.own n h' hn (hnot hn)).2
      rw [hidle, Option.some.injEq] at this
      exact hne this.symm
  exact
    { acceptFd := by
        show (s.fds.closeAny s.idleFd).holder s.acceptFd = _
        cases hidle : s.idleFd with
        | none => exact h.acceptFd
        | some i =>
          have hne : s.acceptFd ≠ i := by
            intro heq
            obtain ⟨h', hh', hown, -⟩ := h.idleFd i hidle hpos
            rw [← heq, h.acceptFd, Option.some.injEq] at hh'
            rw [← hh'] at hown
            cases hown
          exact (Descriptors.holder_close_of_ne hne).trans h.acceptFd
      limited := fun n hn => by
        obtain ⟨h', hh'⟩ := Option.ne_none_iff_exists'.1 hn
        have hheld := (hnone n h' hh').1
        rw [Descriptors.limit_closeAny]
        exact h.limited n (by simp [hheld])
      own := fun n h' hn hown => by
        rw [(hnone n h' hn).2] at hown
        cases hown
      idleFd := fun n _ hk => by
        rw [show pos.keeps = true from hk] at hkeeps
        cases hkeeps
      history := h.history }

/-- A new descriptor for the acceptor, which holds none. -/
theorem Inv.take (h : s.Inv) (hpos : s.pos.keeps = false) {n : ℕ} (hfree : s.fds.free = some n)
    {holder : Holder} (hown : holder.own = true) {pos : Pos} (hkeeps : pos.keeps = true)
    (hidle : pos ≠ .closeAgain → holder = .idle) :
    { s with fds := s.fds.hold n holder, idleFd := some n, pos := pos }.Inv := by
  obtain ⟨hlt, hn⟩ := Descriptors.free_eq_some hfree
  exact
    { acceptFd := Descriptors.holder_hold_of_free hn h.acceptFd
      limited := fun m hm => by
        rcases eq_or_ne m n with rfl | hne
        · exact hlt
        · exact h.limited m (by rwa [← Descriptors.holder_hold_of_ne hne])
      own := fun m h' hm hown' => by
        rcases eq_or_ne m n with rfl | hne
        · exact ⟨hkeeps, rfl⟩
        · rw [Descriptors.holder_hold_of_ne hne] at hm
          have hold := (h.own m h' hm hown').1
          rw [hpos] at hold
          cases hold
      idleFd := fun m hm _ => by
        obtain rfl := Option.some.inj hm
        exact ⟨holder, Descriptors.holder_hold_self .., hown, hidle⟩
      history := h.history }

/-- No new descriptor for the acceptor, which holds none. -/
theorem Inv.lose (h : s.Inv) (hpos : s.pos.keeps = false) (pos : Pos) :
    { s with idleFd := none, pos := pos }.Inv :=
  { h with
    own := fun n h' hn hown => by
      have hold := (h.own n h' hn hown).1
      rw [hpos] at hold
      cases hold
    idleFd := fun _ hn => by cases hn }

/-- A connection that was taken. -/
theorem Inv.took (h : s.Inv) {c : ℕ} {rest : List ℕ} (hbacklog : s.backlog = c :: rest) (b : Bool) :
    { s with backlog := rest, taken := s.taken ++ [(c, b)] }.Inv :=
  { h with
    history := by
      have hhistory := h.history
      rw [hbacklog] at hhistory
      simpa using hhistory }

theorem Inv.advance (h : s.Inv) (fails : Bool) : (s.advance fails).Inv := by
  unfold Acceptor.advance
  split
  case h_1 => exact h
  case h_2 hpos =>
    have hkeeps : s.pos.keeps = true ∧ s.pos ≠ .closeAgain := by simp [hpos, Pos.keeps]
    split
    case h_1 n c rest hacc =>
      obtain ⟨-, hfree, hbacklog⟩ := accepted_eq_some hacc
      have hown : (Holder.connection c).own = false := rfl
      have hreturned : Pos.returned.keeps = true := rfl
      exact ((h.hold hfree hown).goto hkeeps hreturned).took hbacklog true
    case h_2 =>
      split_ifs
      · exact h.goto hkeeps rfl
      · exact h.goto hkeeps rfl
  case h_3 hpos => exact h.close (by rw [hpos]; rfl) rfl
  case h_4 hpos =>
    have hkeeps : s.pos.keeps = false := by rw [hpos]; rfl
    split
    case h_1 n c rest hacc =>
      obtain ⟨-, hfree, hbacklog⟩ := accepted_eq_some hacc
      have hown : (Holder.refused c).own = true := rfl
      have hcloseAgain : Pos.closeAgain.keeps = true := rfl
      exact (h.take hkeeps hfree hown hcloseAgain fun hne => absurd rfl hne).took hbacklog false
    case h_2 => exact h.lose hkeeps _
  case h_5 hpos => exact h.close (by rw [hpos]; rfl) rfl
  case h_6 hpos =>
    have hkeeps : s.pos.keeps = false := by rw [hpos]; rfl
    split
    case h_1 n hfree => exact h.take hkeeps hfree rfl rfl fun _ => rfl
    case h_2 => exact h.lose hkeeps _

theorem ofOthers_eq_true {n : ℕ} (hn : s.ofOthers n = true) :
    ∃ h, s.fds.holder n = some h ∧ h.own = false ∧ h ≠ .acceptSocket := by
  rw [ofOthers] at hn
  split at hn
  · exact ⟨.other, ‹_›, rfl, by decide⟩
  · exact ⟨.connection _, ‹_›, rfl, Holder.noConfusion⟩
  · cases hn

/-- What another thread closes is not the acceptor's. -/
theorem Inv.closeOther (h : s.Inv) {n : ℕ} (hn : s.ofOthers n = true) :
    { s with fds := s.fds.close n }.Inv := by
  obtain ⟨h₀, hh₀, hown₀, hne₀⟩ := ofOthers_eq_true hn
  exact
    { acceptFd := by
        have hne : s.acceptFd ≠ n := by
          rintro rfl
          rw [h.acceptFd, Option.some.injEq] at hh₀
          exact hne₀ hh₀.symm
        exact (Descriptors.holder_close_of_ne hne).trans h.acceptFd
      limited := fun m hm => by
        obtain ⟨h', hh'⟩ := Option.ne_none_iff_exists'.1 hm
        exact h.limited m (by simp [(Descriptors.holder_of_close hh').2])
      own := fun m h' hm hown => h.own m h' (Descriptors.holder_of_close hm).2 hown
      idleFd := fun m hm hkeeps => by
        obtain ⟨h', hh', hown, hidle⟩ := h.idleFd m hm hkeeps
        refine ⟨h', (Descriptors.holder_close_of_ne ?_).trans hh', hown, hidle⟩
        rintro rfl
        rw [hh', Option.some.injEq] at hh₀
        rw [hh₀, hown₀] at hown
        cases hown
      history := h.history }

theorem Inv.step (h : s.Inv) (e : Event) : (s.step e).Inv := by
  cases e with
  | handleRead =>
    rw [Acceptor.step]
    split_ifs with hpos
    · exact h.goto (by simp [hpos, Pos.keeps]) rfl
    · exact h
  | advance fails => exact h.advance fails
  | arrive c =>
    refine { h with history := ?_ }
    show s.taken.map Prod.fst ++ (s.backlog ++ [c]) = s.arrived ++ [c]
    rw [← List.append_assoc, h.history]
  | openOther =>
    rw [Acceptor.step]
    split
    case h_1 n hfree => exact h.hold hfree rfl
    case h_2 => exact h
  | closeOther n =>
    rw [Acceptor.step]
    split_ifs with hn
    · exact h.closeOther hn
    · exact h

/-- The reserve is there, or there is a descriptor for it. -/
def Reserve (s : Acceptor) : Prop :=
  match s.pos with
  | .returned | .accept | .closeIdle => s.idleFd ≠ none
  | .acceptAgain | .openIdle => s.fds.free ≠ none
  | .closeAgain => s.idleFd ≠ none ∨ s.fds.free ≠ none

/-- Another thread opens a descriptor only when `handleRead` is not being executed. -/
def Quiet (s : Acceptor) : Event → Prop
  | .openOther => s.pos = .returned
  | _ => True

theorem Reserve.step (h : s.Reserve) (hinv : s.Inv) {e : Event} (hquiet : s.Quiet e) :
    (s.step e).Reserve := by
  -- what the acceptor closes is free afterwards
  have hclose : s.pos.keeps = true → s.idleFd ≠ none ∨ s.fds.free ≠ none →
      (s.fds.closeAny s.idleFd).free ≠ none := by
    intro hkeeps hor
    cases hidle : s.idleFd with
    | none => exact hor.resolve_left fun hne => hne hidle
    | some i =>
      obtain ⟨h', hh', -⟩ := hinv.idleFd i hidle hkeeps
      exact Descriptors.free_ne_none_iff.2
        ⟨i, hinv.limited i (by simp [hh']), s.fds.holder_close_self i⟩
  cases e with
  | handleRead =>
    rw [Acceptor.step]
    split_ifs with hpos
    · simpa [Reserve, hpos] using h
    · exact h
  | advance fails =>
    rw [Acceptor.step]
    unfold Acceptor.advance
    cases hpos : s.pos with
    | returned =>
      dsimp only
      exact h
    | accept =>
      have hidle : s.idleFd ≠ none := by simpa [Reserve, hpos] using h
      dsimp only
      split
      · exact hidle
      · split_ifs
        · exact hidle
        · exact hidle
    | closeIdle =>
      have hidle : s.idleFd ≠ none := by simpa [Reserve, hpos] using h
      exact hclose (by rw [hpos]; rfl) (.inl hidle)
    | acceptAgain =>
      have hfree : s.fds.free ≠ none := by simpa [Reserve, hpos] using h
      dsimp only
      split
      · exact .inl (Option.some_ne_none _)
      · exact .inr hfree
    | closeAgain =>
      have hor : s.idleFd ≠ none ∨ s.fds.free ≠ none := by simpa [Reserve, hpos] using h
      exact hclose (by rw [hpos]; rfl) hor
    | openIdle =>
      have hfree : s.fds.free ≠ none := by simpa [Reserve, hpos] using h
      dsimp only
      split
      · exact Option.some_ne_none _
      · exact absurd ‹_› hfree
  | arrive c => exact h
  | openOther =>
    have hpos : s.pos = .returned := hquiet
    rw [Acceptor.step]
    split
    · simpa [Reserve, hpos] using h
    · exact h
  | closeOther n =>
    rw [Acceptor.step]
    split_ifs
    · cases hpos : s.pos with
      | acceptAgain =>
        have hfree : s.fds.free ≠ none := by simpa [Reserve, hpos] using h
        simpa [Reserve, hpos] using Descriptors.free_close_ne_none hfree n
      | openIdle =>
        have hfree : s.fds.free ≠ none := by simpa [Reserve, hpos] using h
        simpa [Reserve, hpos] using Descriptors.free_close_ne_none hfree n
      | closeAgain =>
        have hor : s.idleFd ≠ none ∨ s.fds.free ≠ none := by simpa [Reserve, hpos] using h
        simpa [Reserve, hpos] using hor.imp_right fun hfree =>
          Descriptors.free_close_ne_none hfree n
      | _ => simpa [Reserve, hpos] using h
    · exact h

/-- A call of `handleRead` that began when `taken` had been taken and `c` was the oldest connection
that waited. -/
def Takes (taken : List (ℕ × Bool)) (c : ℕ) (s : Acceptor) : Prop :=
  match s.pos with
  | .accept | .closeIdle | .acceptAgain => s.taken = taken ∧ ∃ rest, s.backlog = c :: rest
  | _ => ∃ b, s.taken = taken ++ [(c, b)]

/-- The event belongs to a call of `handleRead` none of whose calls fails without need, or to
another thread that opens nothing. -/
def Within (_ : Acceptor) : Event → Prop
  | .handleRead | .openOther | .advance true => False
  | _ => True

/-- The statements that are left of a call. -/
def Pos.left : Pos → ℕ
  | .returned => 0
  | .accept => 5
  | .closeIdle => 4
  | .acceptAgain => 3
  | .closeAgain => 2
  | .openIdle => 1

def isAdvance (_ : Acceptor) : Event → Bool
  | .advance _ => true
  | _ => false

/-- The next statement of a call leads it on, and takes the connection at its turn. -/
theorem Takes.advance {taken : List (ℕ × Bool)} {c : ℕ} (h : s.Takes taken c) (hreserve : s.Reserve)
    (hpos : s.pos ≠ .returned) :
    (s.advance false).Takes taken c ∧ (s.advance false).pos.left + 1 ≤ s.pos.left := by
  unfold Acceptor.advance
  cases hp : s.pos with
  | returned => exact absurd hp hpos
  | accept =>
    obtain ⟨htaken, rest, hbacklog⟩ : s.taken = taken ∧ ∃ rest, s.backlog = c :: rest := by
      simpa [Takes, hp] using h
    cases hfree : s.fds.free with
    | some n =>
      simp only [accepted_of_free hfree hbacklog]
      exact ⟨⟨true, by rw [htaken]⟩, Nat.le_add_left 1 4⟩
    | none =>
      have hnone : s.accepted false = none := by simp [accepted, hfree]
      simp only [hnone, if_pos (show s.Full false from ⟨rfl, hfree⟩)]
      exact ⟨⟨htaken, rest, hbacklog⟩, le_refl _⟩
  | closeIdle =>
    have hsame : s.taken = taken ∧ ∃ rest, s.backlog = c :: rest := by simpa [Takes, hp] using h
    exact ⟨hsame, le_refl _⟩
  | acceptAgain =>
    obtain ⟨htaken, rest, hbacklog⟩ : s.taken = taken ∧ ∃ rest, s.backlog = c :: rest := by
      simpa [Takes, hp] using h
    have hfree : s.fds.free ≠ none := by simpa [Reserve, hp] using hreserve
    obtain ⟨n, hn⟩ := Option.ne_none_iff_exists'.1 hfree
    simp only [accepted_of_free hn hbacklog]
    exact ⟨⟨false, by rw [htaken]⟩, le_refl _⟩
  | closeAgain =>
    have htook : ∃ b, s.taken = taken ++ [(c, b)] := by simpa [Takes, hp] using h
    exact ⟨htook, le_refl _⟩
  | openIdle =>
    have htook : ∃ b, s.taken = taken ++ [(c, b)] := by simpa [Takes, hp] using h
    dsimp only
    split
    · exact ⟨htook, le_refl _⟩
    · exact ⟨htook, le_refl _⟩

theorem Takes.step {taken : List (ℕ × Bool)} {c : ℕ} (h : s.Takes taken c) (hreserve : s.Reserve)
    {e : Event} (hwithin : s.Within e) : (s.step e).Takes taken c ∧
      (s.pos ≠ .returned → (s.step e).pos.left + (if s.isAdvance e then 1 else 0) ≤ s.pos.left) ∧
      (s.pos = .returned → (s.step e).pos = .returned) := by
  cases e with
  | handleRead => exact hwithin.elim
  | openOther => exact hwithin.elim
  | advance fails =>
    cases fails with
    | true => exact hwithin.elim
    | false =>
      rw [Acceptor.step]
      by_cases hpos : s.pos = .returned
      · have hsame : s.advance false = s := by simp only [Acceptor.advance, hpos]
        rw [hsame]
        exact ⟨h, fun hne => absurd hpos hne, fun _ => hpos⟩
      · obtain ⟨htakes, hleft⟩ := h.advance hreserve hpos
        exact ⟨htakes, fun _ => hleft, fun heq => absurd heq hpos⟩
  | arrive d =>
    refine ⟨?_, fun _ => le_refl _, fun hpos => hpos⟩
    -- the new connection waits behind the others
    have hback : (∃ rest, s.backlog = c :: rest) → ∃ rest, s.backlog ++ [d] = c :: rest := by
      rintro ⟨rest, hrest⟩
      exact ⟨rest ++ [d], by rw [hrest, List.cons_append]⟩
    cases hp : s.pos <;> simp only [Takes, Acceptor.step, hp] at h ⊢ <;> tauto
  | closeOther n =>
    rw [Acceptor.step]
    by_cases hn : s.ofOthers n = true
    · rw [if_pos hn]
      exact ⟨h, fun _ => le_refl _, fun hpos => hpos⟩
    · rw [if_neg hn]
      exact ⟨h, fun _ => le_refl _, fun hpos => hpos⟩

end Acceptor

end Huaweip2p
