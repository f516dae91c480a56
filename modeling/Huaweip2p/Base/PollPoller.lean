import Huaweip2p.Base.Channel
import Huaweip2p.Lib.Runs
import Huaweip2p.Lib.SlotTable

/-!
# The poller

`PollPoller` keeps the slots that `poll` gets in an array, the slot's position in each channel, and
the channels by descriptor in a map. A slot without interest carries the descriptor `-fd-1`, which
`poll` ignores.

* `updateChannel`, `removeChannel`, `fillActiveChannels`: as in the source, `none` where an
  assertion fails;
* `added`, `changed`, `dropped`, `replaced`: what the calls make of a poller;
* `Inv`: the registered channels and the slots are a `SlotTable`; the invariant of all runs;
* `pollPoller_run`: the bijection, and what a poll reports.
-/

namespace Huaweip2p

/-- `struct pollfd`. -/
structure PollFd where
  fd : ℤ
  events : Int16
  revents : Int16
  deriving DecidableEq, Repr

/-- What changes in a `Channel`; its descriptor does not. -/
structure ChannelState where
  interest : Channel
  revents : Int32
  index : ℤ
  deriving DecidableEq, Repr

/-- A channel after its construction. -/
def ChannelState.init : ChannelState := ⟨.init, 0, -1⟩

/-- `class PollPoller`, with the channels it points to. -/
structure PollPoller (κ : Type) where
  channel : κ → ChannelState
  channels : Std.ExtTreeMap ℤ κ
  pollfds : Array PollFd

namespace PollPoller

variable {κ : Type} [DecidableEq κ] (fd : κ → ℕ)

def init : PollPoller κ where
  channel := fun _ => .init
  channels := ∅
  pollfds := #[]

def updateChannel (p : PollPoller κ) (k : κ) : Option (PollPoller κ) :=
  let channel := p.channel k
  if channel.index < 0 then do
    guard ((fd k : ℤ) ∉ p.channels)
    let pfd : PollFd := ⟨fd k, channel.interest.events.toInt16, 0⟩
    let pollfds := p.pollfds.push pfd
    let idx : ℤ := pollfds.size - 1
    return {
      channel := Function.update p.channel k { channel with index := idx }
      channels := p.channels.insert pfd.fd k
      pollfds := pollfds }
  else do
    guard (p.channels[(fd k : ℤ)]? = some k)
    let pfd ← p.pollfds[channel.index.toNat]?
    guard (pfd.fd = fd k ∨ pfd.fd = -fd k - 1)
    let pfd := { pfd with events := channel.interest.events.toInt16, revents := 0 }
    let pfd := if channel.interest.isNoneEvent then { pfd with fd := -fd k - 1 } else pfd
    return { p with pollfds := p.pollfds.setIfInBounds channel.index.toNat pfd }

def removeChannel (p : PollPoller κ) (k : κ) : Option (PollPoller κ) := do
  let channel := p.channel k
  guard (p.channels[(fd k : ℤ)]? = some k)
  guard channel.interest.isNoneEvent
  guard (0 ≤ channel.index)
  let pfd ← p.pollfds[channel.index.toNat]?
  guard (pfd.fd = -fd k - 1 ∧ pfd.events.toInt32 = channel.interest.events)
  let channels := p.channels.erase (fd k : ℤ)
  if channel.index.toNat = p.pollfds.size - 1 then
    return { p with channels := channels, pollfds := p.pollfds.pop }
  else do
    let back ← p.pollfds.back?
    let channelAtEnd := if back.fd < 0 then -back.fd - 1 else back.fd
    -- the entry that `operator[]` would make is a null pointer
    let moved ← channels[channelAtEnd]?
    return {
      channel := Function.update p.channel moved { p.channel moved with index := channel.index }
      channels := channels
      pollfds := (p.pollfds.swapIfInBounds channel.index.toNat (p.pollfds.size - 1)).pop }

def set_revents (p : PollPoller κ) (k : κ) (revents : Int32) : PollPoller κ :=
  { p with channel := Function.update p.channel k { p.channel k with revents := revents } }

/-- `fillActiveChannels`, over the slots that are left. -/
def fillActiveChannels (p : PollPoller κ) (numEvents : ℕ) (activeChannels : List κ) :
    List PollFd → Option (PollPoller κ × List κ)
  | [] => some (p, activeChannels)
  | pfd :: pfds =>
    if numEvents > 0 then
      if pfd.revents > 0 then do
        let channel ← p.channels[pfd.fd]?
        guard ((fd channel : ℤ) = pfd.fd)
        fillActiveChannels (p.set_revents channel pfd.revents.toInt32) (numEvents - 1)
          (activeChannels ++ [channel]) pfds
      else fillActiveChannels p numEvents activeChannels pfds
    else some (p, activeChannels)

/-- What `poll(2)` writes: it returns no events for a negative descriptor. -/
def polled (p : PollPoller κ) (revents : ℕ → Int16) : PollPoller κ :=
  { p with pollfds := p.pollfds.mapIdx fun i pfd =>
      { pfd with revents := if pfd.fd < 0 then 0 else revents i } }

/-- The slots for which `poll(2)` returned events. -/
def ready (p : PollPoller κ) : List PollFd := p.pollfds.toList.filter fun pfd => pfd.revents > 0

/-- A poll, as far as it fills `activeChannels`. -/
def poll (p : PollPoller κ) (revents : ℕ → Int16) : Option (PollPoller κ × List κ) :=
  fillActiveChannels fd (p.polled revents) (p.polled revents).ready.length []
    (p.polled revents).pollfds.toList

/-! ### Runs -/

/-- A call of the poller; an update comes with the interest the channel has then. -/
inductive Call (κ : Type)
  | update (k : κ) (interest : Channel)
  | remove (k : κ)

/-- The channel a call is for. -/
def Call.channel : Call κ → κ
  | .update k _ => k
  | .remove k => k

def call (p : PollPoller κ) : Call κ → Option (PollPoller κ)
  | .update k interest => updateChannel fd { p with
      channel := Function.update p.channel k { p.channel k with interest := interest } } k
  | .remove k => removeChannel fd p k

/-- What a call asserts of its caller: an update is of a channel that is registered, or was never
and has a descriptor of its own; a removal is of a registered channel without interest, whose slot
shows that. -/
def Asserted (p : PollPoller κ) : Call κ → Prop
  | .update k _ =>
    if (p.channel k).index < 0 then (fd k : ℤ) ∉ p.channels else p.channels[(fd k : ℤ)]? = some k
  | .remove k => p.channels[(fd k : ℤ)]? = some k ∧ (p.channel k).interest.isNoneEvent = true ∧
      ∃ pfd, p.pollfds[(p.channel k).index.toNat]? = some pfd ∧ pfd.fd = -fd k - 1 ∧
        pfd.events.toInt32 = (p.channel k).interest.events

/-- A call that fails an assertion is not made. -/
def step (p : PollPoller κ) (c : Call κ) : PollPoller κ := (p.call fd c).getD p

/-- The slot of a registered channel. -/
def slot (p : PollPoller κ) (k : κ) : Option ℕ :=
  if p.channels[(fd k : ℤ)]? = some k then some (p.channel k).index.toNat else none

/-- A slot is that of `k`. -/
def Owns (k : κ) (pfd : PollFd) : Prop := pfd.fd = fd k ∨ pfd.fd = -fd k - 1

/-- The channels are found by their descriptors, and they and the slots are in bijection. -/
structure Inv (p : PollPoller κ) : Prop where
  keyed : ∀ (x : ℤ) k, p.channels[x]? = some k → x = fd k
  index_nonneg : ∀ k, p.channels[(fd k : ℤ)]? = some k → 0 ≤ (p.channel k).index
  size_eq : p.channels.size = p.pollfds.size
  table : SlotTable (Owns fd) p.pollfds (p.slot fd)

section Calls

variable {fd} {p : PollPoller κ} {k : κ}

theorem slot_eq_some_iff {i : ℕ} :
    p.slot fd k = some i ↔ p.channels[(fd k : ℤ)]? = some k ∧ (p.channel k).index.toNat = i := by
  unfold slot
  split_ifs with h
  · simp [h]
  · simp [h]

theorem slot_eq_none (h : p.channels[(fd k : ℤ)]? ≠ some k) : p.slot fd k = none := if_neg h

omit [DecidableEq κ] in
/-- A map of channels by descriptor, of which one is entered. -/
theorem getElem?_insert_eq_some_iff (hnew : (fd k : ℤ) ∉ p.channels) {x : ℤ} {m : κ} :
    (p.channels.insert (fd k : ℤ) k)[x]? = some m ↔
      (x = fd k ∧ m = k) ∨ p.channels[x]? = some m := by
  rw [Std.ExtTreeMap.getElem?_insert]
  simp only [Std.LawfulEqCmp.compare_eq_iff_eq]
  split_ifs with heq
  · subst heq
    have hnone := Std.ExtTreeMap.getElem?_eq_none hnew
    simp [hnone, eq_comm]
  · simp [Ne.symm heq]

omit [DecidableEq κ] in
theorem getElem?_erase_eq_some_iff (hk : p.channels[(fd k : ℤ)]? = some k) {m : κ} :
    (p.channels.erase (fd k : ℤ))[(fd m : ℤ)]? = some m ↔
      m ≠ k ∧ p.channels[(fd m : ℤ)]? = some m := by
  rw [Std.ExtTreeMap.getElem?_erase]
  simp only [Std.LawfulEqCmp.compare_eq_iff_eq]
  split_ifs with heq
  · rw [← heq, hk]
    simp [eq_comm]
  · have hne : m ≠ k := by
      rintro rfl
      exact heq rfl
    simp [hne]

/-- With a new channel, whose slot comes last. -/
def added (p : PollPoller κ) (fd : κ → ℕ) (k : κ) (interest : Channel) : PollPoller κ where
  channel := Function.update p.channel k ⟨interest, (p.channel k).revents, p.pollfds.size⟩
  channels := p.channels.insert (fd k : ℤ) k
  pollfds := p.pollfds.push ⟨fd k, interest.events.toInt16, 0⟩

/-- With another interest of `k`, whose slot has the descriptor `x` then. -/
def changed (p : PollPoller κ) (k : κ) (interest : Channel) (x : ℤ) : PollPoller κ where
  channel := Function.update p.channel k { p.channel k with interest := interest }
  channels := p.channels
  pollfds := p.pollfds.setIfInBounds (p.channel k).index.toNat ⟨x, interest.events.toInt16, 0⟩

/-- Without `k`, which has the last slot. -/
def dropped (p : PollPoller κ) (fd : κ → ℕ) (k : κ) : PollPoller κ where
  channel := p.channel
  channels := p.channels.erase (fd k : ℤ)
  pollfds := p.pollfds.pop

/-- Without `k`, whose slot goes to `m`, which has the last one. -/
def replaced (p : PollPoller κ) (fd : κ → ℕ) (k m : κ) : PollPoller κ where
  channel := Function.update p.channel m { p.channel m with index := (p.channel k).index }
  channels := p.channels.erase (fd k : ℤ)
  pollfds := (p.pollfds.swapIfInBounds (p.channel k).index.toNat (p.pollfds.size - 1)).pop

theorem call_update_new (hindex : (p.channel k).index < 0) (hnew : (fd k : ℤ) ∉ p.channels)
    (interest : Channel) : p.call fd (.update k interest) = some (p.added fd k interest) := by
  simp [call, updateChannel, added, hindex, hnew]

omit [DecidableEq κ] in
/-- A slot stays that of `k` when `updateChannel` sets its descriptor. -/
theorem Owns.update {pfd : PollFd} (h : Owns fd k pfd) (interest : Channel) :
    (if interest.isNoneEvent then -(fd k : ℤ) - 1 else pfd.fd) = fd k ∨
      (if interest.isNoneEvent then -(fd k : ℤ) - 1 else pfd.fd) = -fd k - 1 := by
  split_ifs
  · exact .inr rfl
  · exact h

/-- The descriptor of a registered channel's slot changes only when nothing is asked for. -/
theorem Inv.call_update (h : p.Inv fd) (hk : p.channels[(fd k : ℤ)]? = some k)
    (interest : Channel) :
    ∃ pfd, p.pollfds[(p.channel k).index.toNat]? = some pfd ∧ Owns fd k pfd ∧
      p.call fd (.update k interest) =
        some (p.changed k interest (if interest.isNoneEvent then -fd k - 1 else pfd.fd)) := by
  obtain ⟨pfd, hpfd, howns⟩ := h.table.owned k _ (slot_eq_some_iff.2 ⟨hk, rfl⟩)
  refine ⟨pfd, hpfd, howns, ?_⟩
  have hindex := h.index_nonneg k hk
  have hfd : pfd.fd = fd k ∨ pfd.fd = -fd k - 1 := howns
  unfold call updateChannel
  dsimp only
  rw [Function.update_self, if_neg (not_lt.2 hindex), Runs.guard_bind hk]
  dsimp only
  rw [hpfd, Option.bind_eq_bind, Option.bind_some, Runs.guard_bind hfd]
  cases interest.isNoneEvent <;> rfl

theorem Inv.call_remove (h : p.Inv fd) (hremove : p.Asserted fd (.remove k)) :
    ((p.channel k).index.toNat = p.pollfds.size - 1 ∧
        p.call fd (.remove k) = some (p.dropped fd k)) ∨
      ∃ m, m ≠ k ∧ p.slot fd m = some (p.pollfds.size - 1) ∧
        p.call fd (.remove k) = some (p.replaced fd k m) := by
  obtain ⟨hk, hnone, pfd, hpfd, hfd, hevents⟩ := hremove
  have hslot : p.slot fd k = some (p.channel k).index.toNat := slot_eq_some_iff.2 ⟨hk, rfl⟩
  have hlt := h.table.lt_size hslot
  have hindex := h.index_nonneg k hk
  have hcall : p.call fd (.remove k) = removeChannel fd p k := rfl
  unfold removeChannel at hcall
  dsimp only at hcall
  rw [Runs.guard_bind hk, Runs.guard_bind hnone, Runs.guard_bind hindex, hpfd, Option.bind_eq_bind,
    Option.bind_some, Runs.guard_bind ⟨hfd, hevents⟩] at hcall
  by_cases hlast : (p.channel k).index.toNat = p.pollfds.size - 1
  · rw [if_pos hlast] at hcall
    exact .inl ⟨hlast, hcall⟩
  rw [if_neg hlast] at hcall
  -- the last slot names the channel to which it belongs
  obtain ⟨m, hm⟩ := h.table.onto (p.pollfds.size - 1) (by omega)
  obtain ⟨back, hback, howns⟩ := h.table.owned m _ hm
  have hne : m ≠ k := by
    rintro rfl
    exact hlast (Option.some.inj (hslot.symm.trans hm))
  have hend : (if back.fd < 0 then -back.fd - 1 else back.fd) = fd m := by
    rcases howns with hfd | hfd <;> rw [hfd] <;> split_ifs <;> omega
  have hmoved := (getElem?_erase_eq_some_iff hk).2 ⟨hne, (slot_eq_some_iff.1 hm).1⟩
  rw [Array.back?, hback, Option.bind_eq_bind, Option.bind_some, hend, hmoved] at hcall
  exact .inr ⟨m, hne, hm, hcall⟩

theorem slot_added (hnew : (fd k : ℤ) ∉ p.channels) (interest : Channel) :
    (p.added fd k interest).slot fd = Function.update (p.slot fd) k (some p.pollfds.size) := by
  funext m
  apply Option.ext
  intro i
  rw [slot_eq_some_iff]
  show (p.channels.insert (fd k : ℤ) k)[(fd m : ℤ)]? = some m ∧
    (Function.update p.channel k _ m).index.toNat = i ↔ _
  rw [getElem?_insert_eq_some_iff hnew]
  rcases eq_or_ne m k with rfl | hne
  · simp [Function.update_self]
  · rw [Function.update_of_ne hne, Function.update_of_ne hne, slot_eq_some_iff]
    simp [hne]

theorem slot_changed (interest : Channel) (x : ℤ) :
    (p.changed k interest x).slot fd = p.slot fd := by
  funext m
  unfold slot changed
  dsimp only
  rcases eq_or_ne m k with rfl | hne
  · rw [Function.update_self]
  · rw [Function.update_of_ne hne]

theorem slot_dropped (hk : p.channels[(fd k : ℤ)]? = some k) :
    (p.dropped fd k).slot fd = Function.update (p.slot fd) k none := by
  funext m
  apply Option.ext
  intro i
  rw [slot_eq_some_iff]
  show (p.channels.erase (fd k : ℤ))[(fd m : ℤ)]? = some m ∧ _ ↔ _
  rw [getElem?_erase_eq_some_iff hk]
  rcases eq_or_ne m k with rfl | hne
  · simp
  · rw [Function.update_of_ne hne, slot_eq_some_iff]
    simp [hne, dropped]

theorem slot_replaced (hk : p.channels[(fd k : ℤ)]? = some k) {m : κ}
    (hm : p.channels[(fd m : ℤ)]? = some m) :
    (p.replaced fd k m).slot fd = Function.update
      (Function.update (p.slot fd) m (some (p.channel k).index.toNat)) k none := by
  funext l
  apply Option.ext
  intro i
  rw [slot_eq_some_iff]
  show (p.channels.erase (fd k : ℤ))[(fd l : ℤ)]? = some l ∧
    (Function.update p.channel m _ l).index.toNat = i ↔ _
  rw [getElem?_erase_eq_some_iff hk]
  rcases eq_or_ne l k with rfl | hlk
  · simp
  · rw [Function.update_of_ne hlk]
    rcases eq_or_ne l m with rfl | hlm
    · simp [hlk, hm]
    · rw [Function.update_of_ne hlm, Function.update_of_ne hlm, slot_eq_some_iff]
      simp [hlk]

omit [DecidableEq κ] in
theorem asserted_update (interest : Channel) : p.Asserted fd (.update k interest) ↔
    if (p.channel k).index < 0 then (fd k : ℤ) ∉ p.channels else p.channels[(fd k : ℤ)]? = some k :=
  Iff.rfl

/-- A call succeeds only if what it asserts of its caller holds. -/
theorem asserted_of_call {c : Call κ} {p' : PollPoller κ} (h : p.call fd c = some p') :
    p.Asserted fd c := by
  cases c with
  | update k interest =>
    unfold call updateChannel at h
    rw [asserted_update]
    dsimp only at h
    rw [Function.update_self] at h
    by_cases hindex : (p.channel k).index < 0
    · rw [if_pos hindex] at h ⊢
      simp only [Option.bind_eq_bind, Option.bind_eq_some_iff, Option.guard_eq_some'] at h
      exact h.choose_spec.1
    · rw [if_neg hindex] at h ⊢
      simp only [Option.bind_eq_bind, Option.bind_eq_some_iff, Option.guard_eq_some'] at h
      exact h.choose_spec.1
  | remove k =>
    unfold call removeChannel at h
    simp only [Option.bind_eq_bind, Option.bind_eq_some_iff, Option.guard_eq_some'] at h
    obtain ⟨_, hk, _, hnone, _, -, pfd, hpfd, _, hslot, -⟩ := h
    exact ⟨hk, hnone, pfd, hpfd, hslot⟩

theorem Inv.added (h : p.Inv fd) (hnew : (fd k : ℤ) ∉ p.channels) (interest : Channel) :
    (p.added fd k interest).Inv fd where
  keyed x m hx := by
    rcases (getElem?_insert_eq_some_iff hnew).1 hx with ⟨rfl, rfl⟩ | hx
    · rfl
    · exact h.keyed x m hx
  index_nonneg m hm := by
    show 0 ≤ (Function.update p.channel k _ m).index
    rcases eq_or_ne m k with rfl | hne
    · simp
    · rw [Function.update_of_ne hne]
      rcases (getElem?_insert_eq_some_iff hnew).1 hm with ⟨-, rfl⟩ | hm
      · exact absurd rfl hne
      · exact h.index_nonneg m hm
  size_eq := by
    show (p.channels.insert (fd k : ℤ) k).size = (p.pollfds.push _).size
    rw [Std.ExtTreeMap.size_insert, if_neg (by simpa using hnew), Array.size_push, h.size_eq]
  table := by
    rw [slot_added hnew]
    refine h.table.push (slot_eq_none ?_) (.inl rfl)
    rw [Std.ExtTreeMap.getElem?_eq_none hnew]
    simp

theorem Inv.changed (h : p.Inv fd) (hk : p.channels[(fd k : ℤ)]? = some k) (interest : Channel)
    {x : ℤ} (hx : x = fd k ∨ x = -fd k - 1) : (p.changed k interest x).Inv fd where
  keyed := h.keyed
  index_nonneg m hm := by
    show 0 ≤ (Function.update p.channel k _ m).index
    rcases eq_or_ne m k with rfl | hne
    · rw [Function.update_self]
      exact h.index_nonneg m hk
    · rw [Function.update_of_ne hne]
      exact h.index_nonneg m hm
  size_eq := h.size_eq.trans Array.size_setIfInBounds.symm
  table := by
    rw [slot_changed]
    apply h.table.set (slot_eq_some_iff.2 ⟨hk, rfl⟩)
    · exact hx
    · exact fun _ _ _ howns => howns

theorem keyed_erase (h : p.Inv fd) (x : ℤ) (m : κ)
    (hx : (p.channels.erase (fd k : ℤ))[x]? = some m) : x = fd m := by
  rw [Std.ExtTreeMap.getElem?_erase] at hx
  split_ifs at hx
  exact h.keyed x m hx

section Removal

variable (h : p.Inv fd) (hk : p.channels[(fd k : ℤ)]? = some k)
include h hk

theorem size_erase_eq : (p.channels.erase (fd k : ℤ)).size = p.pollfds.size - 1 := by
  have hmem : (fd k : ℤ) ∈ p.channels := by
    rw [Std.ExtTreeMap.mem_iff_isSome_getElem?, hk]
    rfl
  rw [Std.ExtTreeMap.size_erase, if_pos (by simpa using hmem), h.size_eq]

theorem Inv.dropped (hlast : (p.channel k).index.toNat = p.pollfds.size - 1) :
    (p.dropped fd k).Inv fd where
  keyed := keyed_erase h
  index_nonneg m hm := h.index_nonneg m ((getElem?_erase_eq_some_iff hk).1 hm).2
  size_eq := (size_erase_eq h hk).trans Array.size_pop.symm
  table := by
    rw [slot_dropped hk]
    exact h.table.pop (slot_eq_some_iff.2 ⟨hk, hlast⟩)

theorem Inv.replaced {m : κ} (hne : m ≠ k) (hm : p.slot fd m = some (p.pollfds.size - 1)) :
    (p.replaced fd k m).Inv fd where
  keyed := keyed_erase h
  index_nonneg l hl := by
    show 0 ≤ (Function.update p.channel m _ l).index
    rcases eq_or_ne l m with rfl | hlm
    · rw [Function.update_self]
      exact h.index_nonneg k hk
    · rw [Function.update_of_ne hlm]
      exact h.index_nonneg l ((getElem?_erase_eq_some_iff hk).1 hl).2
  size_eq := by
    show (p.channels.erase (fd k : ℤ)).size = (p.pollfds.swapIfInBounds _ _).pop.size
    rw [size_erase_eq h hk, Array.size_pop, Array.size_swapIfInBounds]
  table := by
    rw [slot_replaced hk (slot_eq_some_iff.1 hm).1]
    exact h.table.swapPop hne.symm (slot_eq_some_iff.2 ⟨hk, rfl⟩) hm

end Removal

/-- A call whose caller keeps its part is carried out, and keeps the invariant. -/
theorem Inv.call (h : p.Inv fd) {c : Call κ} (hc : p.Asserted fd c) :
    ∃ p', p.call fd c = some p' ∧ p'.Inv fd := by
  cases c with
  | update k interest =>
    rw [asserted_update] at hc
    by_cases hindex : (p.channel k).index < 0
    · rw [if_pos hindex] at hc
      exact ⟨_, call_update_new hindex hc interest, h.added hc interest⟩
    · rw [if_neg hindex] at hc
      obtain ⟨pfd, -, howns, hcall⟩ := h.call_update hc interest
      exact ⟨_, hcall, h.changed hc interest (howns.update interest)⟩
  | remove k =>
    have hk := hc.1
    rcases h.call_remove hc with ⟨hlast, hcall⟩ | ⟨m, hne, hm, hcall⟩
    · exact ⟨_, hcall, h.dropped hk hlast⟩
    · exact ⟨_, hcall, h.replaced hk hne hm⟩

theorem Inv.step (h : p.Inv fd) (c : Call κ) : (p.step fd c).Inv fd := by
  unfold PollPoller.step
  cases hc : p.call fd c with
  | none => exact h
  | some p' =>
    obtain ⟨q, hq, hinv⟩ := h.call (asserted_of_call hc)
    obtain rfl := Option.some.inj (hc.symm.trans hq)
    exact hinv

theorem inv_init : (init : PollPoller κ).Inv fd where
  keyed x m hx := by simp [init] at hx
  index_nonneg m hm := by simp [init] at hm
  size_eq := rfl
  table := by
    have hslot : (init : PollPoller κ).slot fd = fun _ => none := by
      funext m
      apply slot_eq_none
      simp [init]
    rw [hslot]
    exact SlotTable.empty

theorem inv_run (cs : List (Call κ)) : (Runs.run (PollPoller.step fd) init cs).Inv fd :=
  Runs.run_invariant (fun _ c _ h => h.step c) inv_init

end Calls

/-! ### The calls for other channels -/

/-- `k` is registered, with a slot that satisfies `P`. -/
def Shows (p : PollPoller κ) (k : κ) (P : PollFd → Prop) : Prop :=
  p.channels[(fd k : ℤ)]? = some k ∧
    ∃ pfd, p.pollfds[(p.channel k).index.toNat]? = some pfd ∧ P pfd

/-- What a call for another channel leaves of `k`. -/
structure Untouched (k : κ) (p p' : PollPoller κ) : Prop where
  registered_iff : p'.channels[(fd k : ℤ)]? = some k ↔ p.channels[(fd k : ℤ)]? = some k
  shows : ∀ P, p.Shows fd k P → p'.Shows fd k P
  interest_eq : (p'.channel k).interest = (p.channel k).interest
  index_nonneg : 0 ≤ (p.channel k).index → 0 ≤ (p'.channel k).index

section Other

variable {fd} {p p' : PollPoller κ} {k : κ}

omit [DecidableEq κ] in
theorem untouched_refl : Untouched fd k p p := ⟨Iff.rfl, fun _ h => h, rfl, fun h => h⟩

theorem Inv.shows_iff (h : p.Inv fd) (P : PollFd → Prop) :
    p.Shows fd k P ↔ (p.slot fd k).isSome ∧
      SlotTable (fun m pfd => m = k → P pfd) p.pollfds (p.slot fd) := by
  constructor
  · rintro ⟨hk, pfd, hpfd, hP⟩
    refine ⟨by rw [slot_eq_some_iff.2 ⟨hk, rfl⟩]; rfl, ?_, h.table.onto, h.table.inj⟩
    intro m i hm
    obtain ⟨s, hs, -⟩ := h.table.owned m i hm
    refine ⟨s, hs, ?_⟩
    rintro rfl
    obtain ⟨-, rfl⟩ := slot_eq_some_iff.1 hm
    obtain rfl := Option.some.inj (hpfd.symm.trans hs)
    exact hP
  · rintro ⟨hsome, ht⟩
    obtain ⟨i, hi⟩ := Option.isSome_iff_exists.1 hsome
    obtain ⟨pfd, hpfd, hP⟩ := ht.owned k i hi
    obtain ⟨hk, rfl⟩ := slot_eq_some_iff.1 hi
    exact ⟨hk, pfd, hpfd, hP rfl⟩

/-- Enough for `Untouched`: the slots stay a table for every property of the slot of `k`. -/
theorem Inv.untouched (h : p.Inv fd) (h' : p'.Inv fd)
    (hsome : (p'.slot fd k).isSome ↔ (p.slot fd k).isSome)
    (htable : ∀ P : PollFd → Prop,
      SlotTable (fun m pfd => m = k → P pfd) p.pollfds (p.slot fd) →
        SlotTable (fun m pfd => m = k → P pfd) p'.pollfds (p'.slot fd))
    (hchannel : (p'.channel k).interest = (p.channel k).interest ∧
      (0 ≤ (p.channel k).index → 0 ≤ (p'.channel k).index)) : Untouched fd k p p' where
  registered_iff := by
    have hregistered : ∀ q : PollPoller κ,
        (q.slot fd k).isSome ↔ q.channels[(fd k : ℤ)]? = some k := by
      intro q
      unfold slot
      split_ifs with hk <;> simp [hk]
    rw [← hregistered, ← hregistered, hsome]
  shows P hP := by
    rw [h.shows_iff] at hP
    rw [h'.shows_iff, hsome]
    exact ⟨hP.1, htable P hP.2⟩
  interest_eq := hchannel.1
  index_nonneg := hchannel.2

theorem Inv.call_of_ne (h : p.Inv fd) {c : Call κ} (hc : p.call fd c = some p')
    (hne : c.channel ≠ k) : Untouched fd k p p' := by
  have hasserted := asserted_of_call hc
  obtain ⟨q, hq, h'⟩ := h.call hasserted
  obtain rfl := Option.some.inj (hc.symm.trans hq)
  cases c with
  | update m interest =>
    have hkm : k ≠ m := fun hkm => hne hkm.symm
    rw [asserted_update] at hasserted
    by_cases hnew : (p.channel m).index < 0
    · rw [if_pos hnew] at hasserted
      rw [call_update_new hnew hasserted] at hc
      obtain rfl := Option.some.inj hc
      have hnone : p.slot fd m = none :=
        slot_eq_none (by simp [Std.ExtTreeMap.getElem?_eq_none hasserted])
      refine h.untouched h' ?_ (fun P ht => ?_) ?_
      · rw [slot_added hasserted, Function.update_of_ne hkm]
      · rw [slot_added hasserted]
        exact ht.push hnone fun hmk => absurd hmk hkm.symm
      · show (Function.update p.channel m _ k).interest = _ ∧
          (_ → 0 ≤ (Function.update p.channel m _ k).index)
        rw [Function.update_of_ne hkm]
        exact ⟨rfl, id⟩
    · rw [if_neg hnew] at hasserted
      obtain ⟨pfd, -, -, hcall⟩ := h.call_update hasserted interest
      obtain rfl := Option.some.inj (hc.symm.trans hcall)
      refine h.untouched h' ?_ (fun P ht => ?_) ?_
      · rw [slot_changed]
      · rw [slot_changed]
        exact ht.set (slot_eq_some_iff.2 ⟨hasserted, rfl⟩) (fun hmk => absurd hmk hkm.symm)
          fun _ _ _ hP => hP
      · show (Function.update p.channel m _ k).interest = _ ∧
          (_ → 0 ≤ (Function.update p.channel m _ k).index)
        rw [Function.update_of_ne hkm]
        exact ⟨rfl, id⟩
  | remove m =>
    have hkm : k ≠ m := fun hkm => hne hkm.symm
    have hm := hasserted.1
    have hslot : p.slot fd m = some (p.channel m).index.toNat := slot_eq_some_iff.2 ⟨hm, rfl⟩
    rcases h.call_remove hasserted with ⟨hlast, hcall⟩ | ⟨l, hlm, hl, hcall⟩
    · obtain rfl := Option.some.inj (hc.symm.trans hcall)
      refine h.untouched h' ?_ (fun P ht => ?_) ⟨rfl, id⟩
      · rw [slot_dropped hm, Function.update_of_ne hkm]
      · rw [slot_dropped hm]
        exact ht.pop (hslot.trans (by rw [hlast]))
    · obtain rfl := Option.some.inj (hc.symm.trans hcall)
      have hlreg := (slot_eq_some_iff.1 hl).1
      refine h.untouched h' ?_ (fun P ht => ?_) ?_
      · rw [slot_replaced hm hlreg, Function.update_of_ne hkm]
        rcases eq_or_ne k l with rfl | hkl
        · simp [hl]
        · rw [Function.update_of_ne hkl]
      · rw [slot_replaced hm hlreg]
        exact ht.swapPop hlm.symm hslot hl
      · show (Function.update p.channel l _ k).interest = _ ∧
          (_ → 0 ≤ (Function.update p.channel l _ k).index)
        rcases eq_or_ne k l with rfl | hkl
        · rw [Function.update_self]
          exact ⟨rfl, fun _ => h.index_nonneg m hm⟩
        · rw [Function.update_of_ne hkl]
          exact ⟨rfl, id⟩

theorem Inv.step_of_ne (h : p.Inv fd) {c : Call κ} (hne : c.channel ≠ k) :
    Untouched fd k p (p.step fd c) := by
  unfold PollPoller.step
  cases hc : p.call fd c with
  | none => exact untouched_refl
  | some p' => exact h.call_of_ne hc hne

end Other

/-! ### What a poll reports -/

section Reports

variable {fd} {p p' : PollPoller κ}

@[simp] theorem channel_set_revents_self (k : κ) (revents : Int32) :
    (p.set_revents k revents).channel k = { p.channel k with revents := revents } :=
  Function.update_self ..

theorem channel_set_revents_of_ne {k m : κ} (h : m ≠ k) (revents : Int32) :
    (p.set_revents k revents).channel m = p.channel m := Function.update_of_ne h ..

/-- The channels reported are those of the slots in `pfds`, in order and each once; they carry the
events of their slots, and nothing else changed. -/
structure Reports (p : PollPoller κ) (pfds : List PollFd) (p' : PollPoller κ) (active : List κ) :
    Prop where
  reported : List.Forall₂ (fun pfd k => p.channels[pfd.fd]? = some k ∧
    (p'.channel k).revents = pfd.revents.toInt32) pfds active
  nodup : active.Nodup
  others : ∀ k, k ∉ active → p'.channel k = p.channel k
  interest_eq : ∀ k, (p'.channel k).interest = (p.channel k).interest
  index_eq : ∀ k, (p'.channel k).index = (p.channel k).index
  channels_eq : p'.channels = p.channels
  pollfds_eq : p'.pollfds = p.pollfds

omit [DecidableEq κ] in
theorem reports_nil : Reports p [] p [] where
  reported := .nil
  nodup := .nil
  others _ _ := rfl
  interest_eq _ := rfl
  index_eq _ := rfl
  channels_eq := rfl
  pollfds_eq := rfl

theorem Reports.cons {pfd : PollFd} {pfds : List PollFd} {k : κ} {active : List κ}
    (hk : p.channels[pfd.fd]? = some k)
    (h : Reports (p.set_revents k pfd.revents.toInt32) pfds p' active) (hnotMem : k ∉ active) :
    Reports p (pfd :: pfds) p' (k :: active) where
  reported := by
    refine .cons ⟨hk, ?_⟩ h.reported
    rw [h.others k hnotMem, channel_set_revents_self]
  nodup := List.nodup_cons.2 ⟨hnotMem, h.nodup⟩
  others m hm := by
    rw [List.mem_cons, not_or] at hm
    rw [h.others m hm.2, channel_set_revents_of_ne hm.1]
  interest_eq m := by
    rw [h.interest_eq]
    rcases eq_or_ne m k with rfl | hne
    · rw [channel_set_revents_self]
    · rw [channel_set_revents_of_ne hne]
  index_eq m := by
    rw [h.index_eq]
    rcases eq_or_ne m k with rfl | hne
    · rw [channel_set_revents_self]
    · rw [channel_set_revents_of_ne hne]
  channels_eq := h.channels_eq
  pollfds_eq := h.pollfds_eq

omit [DecidableEq κ] in
theorem Reports.exists_slot {pfds : List PollFd} {active : List κ}
    (h : Reports p pfds p' active) {k : κ} (hk : k ∈ active) :
    ∃ pfd ∈ pfds, p.channels[pfd.fd]? = some k := by
  obtain ⟨i, hi, rfl⟩ := List.getElem_of_mem hk
  obtain ⟨hlength, hget⟩ := List.forall₂_iff_get.1 h.reported
  have hi' : i < pfds.length := by omega
  exact ⟨pfds[i], List.getElem_mem hi', (hget i hi' hi).1⟩

/-- Where the slots with events have different channels, as many as `numEvents`, these are
reported. -/
theorem fillActiveChannels_spec (active : List κ) {pfds : List PollFd}
    (howned : ∀ pfd ∈ pfds, pfd.revents > 0 → ∃ k, p.channels[pfd.fd]? = some k ∧
      (fd k : ℤ) = pfd.fd)
    (hdistinct : (pfds.filter fun pfd => pfd.revents > 0).Pairwise fun a b => a.fd ≠ b.fd) :
    ∃ p' ks, fillActiveChannels fd p (pfds.filter fun pfd => pfd.revents > 0).length active pfds =
      some (p', active ++ ks) ∧ Reports p (pfds.filter fun pfd => pfd.revents > 0) p' ks := by
  induction pfds generalizing p active with
  | nil => exact ⟨p, [], by rw [List.append_nil]; rfl, reports_nil⟩
  | cons pfd pfds ih =>
    have hrest : ∀ q ∈ pfds, q.revents > 0 → ∃ k, p.channels[q.fd]? = some k ∧
        (fd k : ℤ) = q.fd := fun q hq => howned q (List.mem_cons_of_mem _ hq)
    unfold fillActiveChannels
    by_cases hpos : pfd.revents > 0
    · obtain ⟨k, hk, hfd⟩ := howned pfd List.mem_cons_self hpos
      rw [List.filter_cons_of_pos (by simpa using hpos)] at hdistinct ⊢
      obtain ⟨hne, hdistinct⟩ := List.pairwise_cons.1 hdistinct
      obtain ⟨p', ks, hfill, hreports⟩ :=
        ih (p := p.set_revents k pfd.revents.toInt32) (active ++ [k]) hrest hdistinct
      refine ⟨p', k :: ks, ?_, hreports.cons hk ?_⟩
      · rw [if_pos (by simp), if_pos hpos, hk, Option.bind_eq_bind, Option.bind_some,
          Runs.guard_bind hfd, List.length_cons, Nat.add_sub_cancel, hfill, List.append_assoc]
        rfl
      · -- a channel reported later is that of another descriptor
        intro hmem
        obtain ⟨q, hq, hqk⟩ := hreports.exists_slot hmem
        obtain ⟨hq', hqpos⟩ := List.mem_filter.1 hq
        obtain ⟨m, hm, hmfd⟩ := hrest q hq' (by simpa using hqpos)
        obtain rfl := Option.some.inj (hm.symm.trans hqk)
        exact hne q hq (hfd.symm.trans hmfd)
    · rw [List.filter_cons_of_neg (by simpa using hpos)] at hdistinct ⊢
      by_cases hnum : (pfds.filter fun pfd => pfd.revents > 0).length > 0
      · obtain ⟨p', ks, hfill, hreports⟩ := ih (p := p) active hrest hdistinct
        exact ⟨p', ks, by rw [if_pos hnum, if_neg hpos, hfill], hreports⟩
      · -- no events are left
        rw [List.eq_nil_of_length_eq_zero (Nat.eq_zero_of_not_pos hnum)]
        exact ⟨p, [], by simp, reports_nil⟩

/-- A slot for which `poll` returned events shows the descriptor of its channel. -/
theorem Inv.exists_ready_owner (h : p.Inv fd) {revents : ℕ → Int16} {i : ℕ} {pfd : PollFd}
    (hpfd : (p.polled revents).pollfds[i]? = some pfd) (hpos : pfd.revents > 0) :
    ∃ k, p.slot fd k = some i ∧ pfd.fd = fd k := by
  rw [polled, Array.getElem?_mapIdx] at hpfd
  obtain ⟨old, hold, rfl⟩ := Option.map_eq_some_iff.1 hpfd
  obtain ⟨k, hk, howns⟩ := h.table.exists_owner hold
  refine ⟨k, hk, ?_⟩
  dsimp only at hpos ⊢
  split_ifs at hpos with hneg
  · exact absurd hpos (by decide)
  · rcases howns with hfd | hfd <;> omega

theorem Inv.poll (h : p.Inv fd) (revents : ℕ → Int16) :
    ∃ p' active, p.poll fd revents = some (p', active) ∧
      Reports (p.polled revents) (p.polled revents).ready p' active := by
  have howned : ∀ pfd ∈ (p.polled revents).pollfds.toList, pfd.revents > 0 →
      ∃ k, (p.polled revents).channels[pfd.fd]? = some k ∧ (fd k : ℤ) = pfd.fd := by
    intro pfd hpfd hpos
    obtain ⟨i, hi⟩ := List.getElem?_of_mem hpfd
    rw [Array.getElem?_toList] at hi
    obtain ⟨k, hk, hfd⟩ := h.exists_ready_owner hi hpos
    exact ⟨k, by rw [hfd]; exact (slot_eq_some_iff.1 hk).1, hfd.symm⟩
  have hdistinct : (p.polled revents).ready.Pairwise fun a b => a.fd ≠ b.fd := by
    rw [ready, List.pairwise_filter, List.pairwise_iff_getElem]
    intro i j hi hj hlt hipos hjpos hfd
    have howner : ∀ l (hl : l < (p.polled revents).pollfds.toList.length),
        (p.polled revents).pollfds.toList[l].revents > 0 → ∃ k, p.slot fd k = some l ∧
          (p.polled revents).pollfds.toList[l].fd = fd k := fun l hl hpos =>
      h.exists_ready_owner (by rw [← Array.getElem?_toList, List.getElem?_eq_getElem hl]) hpos
    obtain ⟨k, hk, hkfd⟩ := howner i hi (by simpa using hipos)
    obtain ⟨m, hm, hmfd⟩ := howner j hj (by simpa using hjpos)
    -- one descriptor is that of one channel, which has one slot
    have hkm : k = m := by
      have hfdkm : (fd k : ℤ) = fd m := by rw [← hkfd, hfd, hmfd]
      have hmem := (slot_eq_some_iff.1 hk).1
      rw [hfdkm, (slot_eq_some_iff.1 hm).1] at hmem
      exact (Option.some.inj hmem).symm
    subst hkm
    have hij := Option.some.inj (hk.symm.trans hm)
    omega
  obtain ⟨p', ks, hfill, hreports⟩ := fillActiveChannels_spec [] howned hdistinct
  exact ⟨p', ks, hfill, hreports⟩

end Reports

/-- `channels_` and `pollfds_` are in bijection. -/
structure Bijection (p : PollPoller κ) : Prop where
  size_eq : p.channels.size = p.pollfds.size
  keyed : ∀ (x : ℤ) k, p.channels[x]? = some k → x = fd k
  index_lt : ∀ k, p.channels[(fd k : ℤ)]? = some k →
    0 ≤ (p.channel k).index ∧ (p.channel k).index < p.pollfds.size
  slot_fd : ∀ k, p.channels[(fd k : ℤ)]? = some k →
    ∃ pfd, p.pollfds[(p.channel k).index.toNat]? = some pfd ∧ (pfd.fd = fd k ∨ pfd.fd = -fd k - 1)
  inj : ∀ k m, p.channels[(fd k : ℤ)]? = some k → p.channels[(fd m : ℤ)]? = some m →
    (p.channel k).index = (p.channel m).index → k = m

variable {fd} in
theorem Inv.bijection {p : PollPoller κ} (h : p.Inv fd) : p.Bijection fd where
  size_eq := h.size_eq
  keyed := h.keyed
  index_lt k hk := by
    have hindex := h.index_nonneg k hk
    have hlt := h.table.lt_size (slot_eq_some_iff.2 ⟨hk, rfl⟩)
    omega
  slot_fd k hk := h.table.owned k _ (slot_eq_some_iff.2 ⟨hk, rfl⟩)
  inj k m hk hm hkm := h.table.inj k m _ (slot_eq_some_iff.2 ⟨hk, rfl⟩)
    (slot_eq_some_iff.2 ⟨hm, by rw [hkm]⟩)

/-- After any calls the channels and the slots are in bijection, a call that keeps to what the
poller asserts of it is carried out, and a poll reports the channels of the slots with events. -/
theorem pollPoller_run (cs : List (Call κ)) :
    let p := Runs.run (PollPoller.step fd) init cs
    p.Bijection fd ∧ (∀ c, p.Asserted fd c → (p.call fd c).isSome) ∧
      ∀ revents, ∃ p' active, p.poll fd revents = some (p', active) ∧
        Reports (p.polled revents) (p.polled revents).ready p' active := by
  intro p
  have h : p.Inv fd := inv_run cs
  refine ⟨h.bijection, fun c hc => ?_, h.poll⟩
  obtain ⟨p', hp', -⟩ := h.call hc
  rw [hp']
  rfl

end PollPoller

end Huaweip2p
