import Huaweip2p.Base.PollPoller

/-!
# Whether the slots mirror the interests

The calls of `Channel` that reach the poller, on any channels with descriptors of their own. A slot
mirrors the interest of its channel when it has its events, and its descriptor exactly when there
are some. `updateChannel` writes the descriptor of a registered channel only when nothing is asked
for, so a channel is not polled again once it asked for nothing; and a channel that asks for nothing
at its registration is polled.

* `Inv.mirrors_added_iff`, `Inv.mirrors_changed_iff`: when a call leaves the slot right;
* `mirrors_iff_safe`: in which runs all slots always are.
-/

namespace Huaweip2p

namespace PollPoller

variable {κ : Type} [DecidableEq κ] (fd : κ → ℕ)

/-- The calls of `Channel` that reach the poller. -/
inductive ChannelCall
  | enableReading
  | enableWriting
  | disableWriting
  | disableAll
  | remove
  deriving DecidableEq, Repr

namespace ChannelCall

def call (p : PollPoller κ) (k : κ) : ChannelCall → Call κ
  | enableReading => .update k (p.channel k).interest.enableReading
  | enableWriting => .update k (p.channel k).interest.enableWriting
  | disableWriting => .update k (p.channel k).interest.disableWriting
  | disableAll => .update k (p.channel k).interest.disableAll
  | remove => .remove k

/-- The calls a user of the channel may make: no call after `remove`, and `remove` of a registered
channel without interest. -/
def Legal (p : PollPoller κ) (k : κ) : ChannelCall → Prop
  | remove => p.channels[(fd k : ℤ)]? = some k ∧ (p.channel k).interest.isNoneEvent = true
  | _ => if (p.channel k).index < 0 then (fd k : ℤ) ∉ p.channels
    else p.channels[(fd k : ℤ)]? = some k

/-- An enabling call is the first of its channel or finds some interest; a disabling call is not the
first. -/
def Safe (p : PollPoller κ) (k : κ) : ChannelCall → Prop
  | enableReading | enableWriting =>
    (p.channel k).index < 0 ∨ (p.channel k).interest.isNoneEvent = false
  | disableWriting | disableAll => p.channels[(fd k : ℤ)]? = some k
  | remove => True

end ChannelCall

def channelStep (p : PollPoller κ) (e : κ × ChannelCall) : PollPoller κ :=
  p.step fd (e.2.call p e.1)

/-- A slot shows the interest of its channel: the events, and the descriptor, which is negated when
there are none. -/
def Mirrored (k : κ) (interest : Channel) (pfd : PollFd) : Prop :=
  pfd.events.toInt32 = interest.events ∧
    pfd.fd = if interest.isNoneEvent then -(fd k : ℤ) - 1 else fd k

/-- Each registered channel's slot mirrors its interest. -/
def Mirrors (p : PollPoller κ) : Prop :=
  ∀ k, p.channels[(fd k : ℤ)]? = some k →
    ∃ pfd, p.pollfds[(p.channel k).index.toNat]? = some pfd ∧
      Mirrored fd k (p.channel k).interest pfd

/-- A channel that was never registered has no interest. -/
def Fresh (p : PollPoller κ) : Prop :=
  ∀ k, (p.channel k).index < 0 → (p.channel k).interest = .init

section Mirrors

variable {fd} {p : PollPoller κ} {k : κ}

theorem Inv.mirrors_iff (h : p.Inv fd) : p.Mirrors fd ↔
    SlotTable (fun k => Mirrored fd k (p.channel k).interest) p.pollfds (p.slot fd) := by
  constructor
  · intro hm
    refine ⟨fun k i hi => ?_, h.table.onto, h.table.inj⟩
    obtain ⟨hk, rfl⟩ := slot_eq_some_iff.1 hi
    exact hm k hk
  · intro ht k hk
    exact ht.owned k _ (slot_eq_some_iff.2 ⟨hk, rfl⟩)

omit [DecidableEq κ] in
theorem Mirrors.slot_fd (hm : p.Mirrors fd) (hk : p.channels[(fd k : ℤ)]? = some k) :
    (p.pollfds[(p.channel k).index.toNat]?).map PollFd.fd =
      some (if (p.channel k).interest.isNoneEvent then -(fd k : ℤ) - 1 else fd k) := by
  obtain ⟨pfd, hpfd, -, hfd⟩ := hm k hk
  rw [hpfd, Option.map_some, hfd]

omit [DecidableEq κ] in
theorem mirrored_iff (interest : Channel) (x : ℤ) (revents : Int16) :
    Mirrored fd k interest ⟨x, interest.events.toInt16, revents⟩ ↔
      x = if interest.isNoneEvent then -(fd k : ℤ) - 1 else fd k := by
  unfold Mirrored
  rw [Channel.toInt32_toInt16_events]
  exact and_iff_right rfl

/-- A new channel is mirrored exactly when it comes with some interest. -/
theorem Inv.mirrors_added_iff (h : p.Inv fd) (hm : p.Mirrors fd) (hnew : (fd k : ℤ) ∉ p.channels)
    (interest : Channel) :
    (p.added fd k interest).Mirrors fd ↔ interest.isNoneEvent = false := by
  have hnone : p.slot fd k = none := slot_eq_none (by simp [Std.ExtTreeMap.getElem?_eq_none hnew])
  have hself : ((p.added fd k interest).channel k).interest = interest := by
    show (Function.update p.channel k _ k).interest = interest
    rw [Function.update_self]
  rw [(h.added hnew interest).mirrors_iff, slot_added hnew]
  constructor
  · intro ht
    obtain ⟨pfd, hpfd, hmirrored⟩ := ht.owned k p.pollfds.size (Function.update_self ..)
    obtain rfl : _ = pfd := Option.some.inj (Array.getElem?_push_size.symm.trans hpfd)
    rw [hself, mirrored_iff] at hmirrored
    by_contra hsome
    rw [Bool.not_eq_false] at hsome
    rw [if_pos hsome] at hmirrored
    omega
  · intro hsome
    refine SlotTable.push ((h.mirrors_iff.1 hm).imp ?_) hnone ?_
    · intro m i pfd hi hmirrored
      have hne : m ≠ k := by
        rintro rfl
        rw [hnone] at hi
        simp at hi
      show Mirrored fd m (Function.update p.channel k _ m).interest pfd
      rwa [Function.update_of_ne hne]
    · rw [hself, mirrored_iff, hsome]
      rfl

/-- After a change the slot mirrors the interest exactly when it has the right descriptor. -/
theorem Inv.mirrors_changed_iff (h : p.Inv fd) (hm : p.Mirrors fd)
    (hk : p.channels[(fd k : ℤ)]? = some k) (interest : Channel) {x : ℤ}
    (hx : x = fd k ∨ x = -fd k - 1) : (p.changed k interest x).Mirrors fd ↔
      x = if interest.isNoneEvent then -(fd k : ℤ) - 1 else fd k := by
  have hslot : p.slot fd k = some (p.channel k).index.toNat := slot_eq_some_iff.2 ⟨hk, rfl⟩
  have hself : ((p.changed k interest x).channel k).interest = interest := by
    show (Function.update p.channel k _ k).interest = interest
    rw [Function.update_self]
  rw [(h.changed hk interest hx).mirrors_iff, slot_changed]
  constructor
  · intro ht
    obtain ⟨pfd, hpfd, hmirrored⟩ := ht.owned k _ hslot
    obtain rfl : _ = pfd := Option.some.inj
      ((Array.getElem?_setIfInBounds_self_of_lt (h.table.lt_size hslot)).symm.trans hpfd)
    rwa [hself, mirrored_iff] at hmirrored
  · intro hfd
    apply (h.mirrors_iff.1 hm).set hslot
    · rw [hself, mirrored_iff]
      exact hfd
    · intro m pfd hne hmirrored
      show Mirrored fd m (Function.update p.channel k _ m).interest pfd
      rwa [Function.update_of_ne hne]

theorem Inv.mirrors_dropped (h : p.Inv fd) (hm : p.Mirrors fd)
    (hk : p.channels[(fd k : ℤ)]? = some k)
    (hlast : (p.channel k).index.toNat = p.pollfds.size - 1) : (p.dropped fd k).Mirrors fd := by
  rw [(h.dropped hk hlast).mirrors_iff, slot_dropped hk]
  exact (h.mirrors_iff.1 hm).pop (slot_eq_some_iff.2 ⟨hk, hlast⟩)

theorem Inv.mirrors_replaced (h : p.Inv fd) (hm : p.Mirrors fd)
    (hk : p.channels[(fd k : ℤ)]? = some k) {m : κ} (hne : m ≠ k)
    (hlast : p.slot fd m = some (p.pollfds.size - 1)) : (p.replaced fd k m).Mirrors fd := by
  have hinterest : ∀ l, ((p.replaced fd k m).channel l).interest = (p.channel l).interest := by
    intro l
    show (Function.update p.channel m _ l).interest = _
    rcases eq_or_ne l m with rfl | hlm
    · rw [Function.update_self]
    · rw [Function.update_of_ne hlm]
  rw [(h.replaced hk hne hlast).mirrors_iff, slot_replaced hk (slot_eq_some_iff.1 hlast).1]
  simp only [hinterest]
  exact (h.mirrors_iff.1 hm).swapPop hne.symm (slot_eq_some_iff.2 ⟨hk, rfl⟩) hlast

/-- What an update needs to leave the slots right: some interest at the registration; later no
change from none to some. -/
theorem Inv.mirrors_update_iff (h : p.Inv fd) (hm : p.Mirrors fd) {interest : Channel}
    (hc : p.Asserted fd (.update k interest)) :
    ((p.call fd (.update k interest)).isSome ∧ (p.step fd (.update k interest)).Mirrors fd) ↔
      if (p.channel k).index < 0 then interest.isNoneEvent = false
      else (p.channel k).interest.isNoneEvent = true → interest.isNoneEvent = true := by
  rw [asserted_update] at hc
  unfold PollPoller.step
  by_cases hindex : (p.channel k).index < 0
  · rw [if_pos hindex] at hc ⊢
    rw [call_update_new hindex hc, ← h.mirrors_added_iff hm hc interest]
    exact and_iff_right rfl
  · rw [if_neg hindex] at hc ⊢
    obtain ⟨pfd, hpfd, howns, hcall⟩ := h.call_update hc interest
    obtain ⟨pfd', hpfd', -, hfd⟩ := hm k hc
    obtain rfl := Option.some.inj (hpfd.symm.trans hpfd')
    rw [hcall]
    refine (and_iff_right rfl).trans
      ((h.mirrors_changed_iff hm hc interest (howns.update interest)).trans ?_)
    rw [hfd]
    by_cases hnew : interest.isNoneEvent = true
    · simp [hnew]
    · by_cases hold : (p.channel k).interest.isNoneEvent = true
      · simp only [hnew, hold, if_true, true_implies, Bool.false_eq_true, if_false, iff_false]
        omega
      · simp [hnew, hold]

/-- A legal removal is carried out when the slots are right, and leaves them right. -/
theorem Inv.mirrors_remove (h : p.Inv fd) (hm : p.Mirrors fd)
    (hlegal : ChannelCall.Legal fd p k .remove) :
    (p.call fd (.remove k)).isSome ∧ (p.step fd (.remove k)).Mirrors fd := by
  obtain ⟨hk, hnone⟩ := hlegal
  obtain ⟨pfd, hpfd, hevents, hfd⟩ := hm k hk
  rw [if_pos hnone] at hfd
  unfold PollPoller.step
  rcases h.call_remove ⟨hk, hnone, pfd, hpfd, hfd, hevents⟩ with
    ⟨hlast, hcall⟩ | ⟨m, hne, hslot, hcall⟩
  · rw [hcall]
    exact ⟨rfl, h.mirrors_dropped hm hk hlast⟩
  · rw [hcall]
    exact ⟨rfl, h.mirrors_replaced hm hk hne hslot⟩

theorem Inv.fresh_step (h : p.Inv fd) (hf : p.Fresh) (c : Call κ) : (p.step fd c).Fresh := by
  unfold PollPoller.step
  cases hc : p.call fd c with
  | none => exact hf
  | some p' =>
    have hasserted := asserted_of_call hc
    -- only a registered channel gets another interest
    have hother : ∀ (q : PollPoller κ) (m : κ) (s : ChannelState),
        q.channel = Function.update p.channel m s → 0 ≤ s.index → q.Fresh := by
      intro q m s hq hs l hl
      rw [hq] at hl ⊢
      rcases eq_or_ne l m with rfl | hlm
      · rw [Function.update_self] at hl
        exact absurd hl (not_lt.2 hs)
      · rw [Function.update_of_ne hlm] at hl ⊢
        exact hf l hl
    cases c with
    | update k interest =>
      rw [asserted_update] at hasserted
      by_cases hnew : (p.channel k).index < 0
      · rw [if_pos hnew] at hasserted
        rw [call_update_new hnew hasserted] at hc
        obtain rfl := Option.some.inj hc
        exact hother _ k _ rfl (Int.natCast_nonneg _)
      · rw [if_neg hnew] at hasserted
        obtain ⟨pfd, -, -, hcall⟩ := h.call_update hasserted interest
        obtain rfl := Option.some.inj (hc.symm.trans hcall)
        exact hother _ k _ rfl (not_lt.1 hnew)
    | remove k =>
      rcases h.call_remove hasserted with ⟨-, hcall⟩ | ⟨m, -, -, hcall⟩
      · obtain rfl := Option.some.inj (hc.symm.trans hcall)
        exact hf
      · obtain rfl := Option.some.inj (hc.symm.trans hcall)
        exact hother _ m _ rfl (h.index_nonneg k hasserted.1)

/-- The step lemma: a legal call is carried out and leaves the slots right exactly when it is
safe. -/
theorem Inv.channelStep_iff (h : p.Inv fd) (hf : p.Fresh) (hm : p.Mirrors fd)
    (e : κ × ChannelCall) :
    ((e.2.Legal fd p e.1 → (p.call fd (e.2.call p e.1)).isSome) ∧
        (p.channelStep fd e).Mirrors fd) ↔
      (e.2.Legal fd p e.1 → e.2.Safe fd p e.1) := by
  obtain ⟨k, c⟩ := e
  by_cases hlegal : c.Legal fd p k
  swap
  · have hnone : p.call fd (c.call p k) = none := by
      rw [← Option.not_isSome_iff_eq_none]
      intro hsome
      obtain ⟨p', hp'⟩ := Option.isSome_iff_exists.1 hsome
      have hasserted := asserted_of_call hp'
      cases c with
      | remove => exact hlegal ⟨hasserted.1, hasserted.2.1⟩
      | _ => exact hlegal hasserted
    have hsame : p.channelStep fd (k, c) = p := by
      show (p.call fd (c.call p k)).getD p = p
      rw [hnone]
      rfl
    simp only [hlegal, false_implies, true_and, hsame, hm]
  simp only [hlegal, true_implies]
  cases c with
  | enableReading =>
    refine (h.mirrors_update_iff hm hlegal).trans ?_
    simp only [Channel.isNoneEvent_enableReading, ChannelCall.Safe]
    split_ifs with hindex <;> simp [hindex]
  | enableWriting =>
    refine (h.mirrors_update_iff hm hlegal).trans ?_
    simp only [Channel.isNoneEvent_enableWriting, ChannelCall.Safe]
    split_ifs with hindex <;> simp [hindex]
  | disableWriting =>
    refine (h.mirrors_update_iff hm hlegal).trans ?_
    unfold ChannelCall.Legal at hlegal
    split_ifs at hlegal ⊢ with hindex
    · rw [hf k hindex]
      refine iff_of_false (by decide) fun hk => ?_
      exact absurd (h.index_nonneg k hk) (not_le.2 hindex)
    · exact iff_of_true Channel.isNoneEvent_disableWriting hlegal
  | disableAll =>
    refine (h.mirrors_update_iff hm hlegal).trans ?_
    unfold ChannelCall.Legal at hlegal
    split_ifs at hlegal ⊢ with hindex
    · refine iff_of_false (by simp) fun hk => ?_
      exact absurd (h.index_nonneg k hk) (not_le.2 hindex)
    · exact iff_of_true (fun _ => Channel.isNoneEvent_disableAll _) hlegal
  | remove => exact iff_of_true (h.mirrors_remove hm hlegal) trivial

end Mirrors

/-- After every step of a run the slots mirror the interests, and every legal call was carried out,
exactly when every legal call was safe. -/
theorem mirrors_iff_safe (es : List (κ × ChannelCall)) :
    Runs.EveryStep (channelStep fd) (fun p e p' =>
        (e.2.Legal fd p e.1 → (p.call fd (e.2.call p e.1)).isSome) ∧ p'.Mirrors fd) init es ↔
      Runs.EveryStep (channelStep fd) (fun p e _ => e.2.Legal fd p e.1 → e.2.Safe fd p e.1)
        init es := by
  apply Runs.everyStep_iff (I := fun p : PollPoller κ => p.Inv fd ∧ p.Fresh ∧ p.Mirrors fd)
  · rintro p e ⟨h, hf, hm⟩
    exact h.channelStep_iff hf hm e
  · rintro p e ⟨h, hf, -⟩ ⟨-, hm⟩
    exact ⟨h.step _, h.fresh_step hf _, hm⟩
  · exact ⟨inv_init, fun _ _ => rfl, fun k hk => by simp [init] at hk⟩

/-- Two runs that fail. An acceptor that is destroyed and never listened: its channel, registered by
`disableAll`, is polled without interest. And a channel that asks for reading, for nothing, and for
reading again: it is not polled any more. -/
theorem mirrors_fails :
    (¬ Runs.EveryStep (channelStep id) (fun p e p' =>
        (e.2.Legal id p e.1 → (p.call id (e.2.call p e.1)).isSome) ∧ p'.Mirrors id) init
      [((5 : ℕ), .disableAll), (5, .remove)]) ∧
    ¬ Runs.EveryStep (channelStep id) (fun p e p' =>
        (e.2.Legal id p e.1 → (p.call id (e.2.call p e.1)).isSome) ∧ p'.Mirrors id) init
      [((5 : ℕ), .enableReading), (5, .disableAll), (5, .enableReading)] := by
  constructor
  · intro h
    obtain ⟨-, hm⟩ := h [] (5, .disableAll) _ rfl
    exact absurd (hm.slot_fd (k := 5) (by decide +kernel)) (by decide +kernel)
  · intro h
    obtain ⟨-, hm⟩ := h [(5, .enableReading), (5, .disableAll)] (5, .enableReading) _ rfl
    exact absurd (hm.slot_fd (k := 5) (by decide +kernel)) (by decide +kernel)

end PollPoller

end Huaweip2p
