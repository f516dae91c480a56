import Huaweip2p.Base.PollPoller

/-!
# The active channels of a loop

The part of `EventLoop::loop` between a poll and the pending functors: the channels that the poll
reported are handled one after the other, and their handlers update and remove channels meanwhile.

* `Dispatcher`: the loop with its poller, and what the last poll returned;
* `Inv`: what was handled and what is left to handle are the report, and what is left is registered;
* `Inv.step`: the step lemma, with `revents_call` and `Inv.poll` for the poller;
* `dispatch_run`: what is handled in every run.
-/

namespace Huaweip2p

/-- `class EventLoop`, with the rest of `activeChannels_` from its iterator on, what was handled
since the last poll, and what that poll returned for the channels of the slots. -/
structure Dispatcher (κ : Type) where
  poller : PollPoller κ
  activeChannels : List κ
  currentActiveChannel : Option κ
  eventHandling : Bool
  rest : List κ
  handled : List (κ × Int32)
  report : List (κ × Int32)

namespace Dispatcher

variable {κ : Type} [DecidableEq κ] (fd : κ → ℕ)

def init : Dispatcher κ := ⟨.init, [], none, false, [], [], []⟩

/-- What `poll(2)` returned, by channel. -/
def reportOf (p : PollPoller κ) : List (κ × Int32) :=
  p.ready.filterMap fun pfd => p.channels[pfd.fd]?.map fun k => (k, pfd.revents.toInt32)

/-- `activeChannels_.clear()` and the poll. -/
def poll (d : Dispatcher κ) (revents : ℕ → Int16) : Option (Dispatcher κ) := do
  let (poller, activeChannels) ← d.poller.poll fd revents
  return {
    poller := poller
    activeChannels := activeChannels
    currentActiveChannel := d.currentActiveChannel
    eventHandling := true
    rest := activeChannels
    handled := []
    report := reportOf (d.poller.polled revents) }

/-- The next round of the loop over `activeChannels_`, or its end. -/
def advance (d : Dispatcher κ) : Dispatcher κ :=
  match d.rest with
  | k :: rest => { d with
    currentActiveChannel := some k
    rest := rest
    handled := d.handled ++ [(k, (d.poller.channel k).revents)] }
  | [] => { d with currentActiveChannel := none, eventHandling := false }

def updateChannel (d : Dispatcher κ) (k : κ) (interest : Channel) : Option (Dispatcher κ) := do
  let poller ← d.poller.call fd (.update k interest)
  return { d with poller := poller }

def removeChannel (d : Dispatcher κ) (k : κ) : Option (Dispatcher κ) := do
  if d.eventHandling then
    guard (d.currentActiveChannel = some k ∨ k ∉ d.activeChannels)
  let poller ← d.poller.call fd (.remove k)
  return { d with poller := poller }

/-- What the loop thread does next; a handler, or a functor, makes the calls. -/
inductive Event (κ : Type)
  /-- A poll, when no events are handled. -/
  | poll (revents : ℕ → Int16)
  | advance
  | updateChannel (k : κ) (interest : Channel)
  | removeChannel (k : κ)

def step? (d : Dispatcher κ) : Event κ → Option (Dispatcher κ)
  | .poll revents => if d.eventHandling then some d else d.poll fd revents
  | .advance => some (if d.eventHandling then d.advance else d)
  | .updateChannel k interest => d.updateChannel fd k interest
  | .removeChannel k => d.removeChannel fd k

/-- A call that fails an assertion is not made. -/
def step (d : Dispatcher κ) (e : Event κ) : Dispatcher κ := (d.step? fd e).getD d

/-- What is left of the report, as the channels show it now. -/
def left (d : Dispatcher κ) : List (κ × Int32) :=
  d.rest.map fun k => (k, (d.poller.channel k).revents)

/-- What was handled and what is left are the report; what is left is registered; and what is
handled now is not left. -/
structure Inv (d : Dispatcher κ) : Prop where
  poller : d.poller.Inv fd
  report_eq : d.handled ++ d.left = d.report
  active_eq : d.activeChannels = d.report.map Prod.fst
  nodup : (d.report.map Prod.fst).Nodup
  registered : ∀ k ∈ d.rest, d.poller.channels[(fd k : ℤ)]? = some k
  current : ∀ k, d.currentActiveChannel = some k → k ∉ d.rest
  idle : d.eventHandling = false → d.rest = [] ∧ d.currentActiveChannel = none

end Dispatcher

namespace PollPoller

variable {κ : Type} [DecidableEq κ] {fd : κ → ℕ} {p p' : PollPoller κ}

/-- No call changes what the channels got from the last poll. -/
theorem Inv.revents_call (h : p.Inv fd) {c : Call κ} (hc : p.call fd c = some p') (m : κ) :
    (p'.channel m).revents = (p.channel m).revents := by
  have hupdate : ∀ (k : κ) (s : ChannelState), s.revents = (p.channel k).revents →
      (Function.update p.channel k s m).revents = (p.channel m).revents := by
    intro k s hs
    rcases eq_or_ne m k with rfl | hne
    · rw [Function.update_self, hs]
    · rw [Function.update_of_ne hne]
  have hasserted := asserted_of_call hc
  cases c with
  | update k interest =>
    rw [asserted_update] at hasserted
    by_cases hnew : (p.channel k).index < 0
    · rw [if_pos hnew] at hasserted
      rw [call_update_new hnew hasserted] at hc
      obtain rfl := Option.some.inj hc
      exact hupdate k _ rfl
    · rw [if_neg hnew] at hasserted
      obtain ⟨pfd, -, -, hcall⟩ := h.call_update hasserted interest
      obtain rfl := Option.some.inj (hc.symm.trans hcall)
      exact hupdate k _ rfl
  | remove k =>
    rcases h.call_remove hasserted with ⟨-, hcall⟩ | ⟨l, -, -, hcall⟩
    · obtain rfl := Option.some.inj (hc.symm.trans hcall)
      rfl
    · obtain rfl := Option.some.inj (hc.symm.trans hcall)
      exact hupdate l _ rfl

/-- Only a removal takes a channel off. -/
theorem Inv.registered_call (h : p.Inv fd) {c : Call κ} (hc : p.call fd c = some p') {m : κ}
    (hm : p.channels[(fd m : ℤ)]? = some m) (hne : c ≠ .remove m) :
    p'.channels[(fd m : ℤ)]? = some m := by
  by_cases hcm : c.channel = m
  swap
  · exact (h.call_of_ne hc hcm).registered_iff.2 hm
  cases c with
  | remove k => exact absurd (congrArg Call.remove hcm) hne
  | update k interest =>
    obtain rfl := hcm
    obtain ⟨pfd, -, -, hcall⟩ := h.call_update hm interest
    obtain rfl := Option.some.inj (hc.symm.trans hcall)
    exact hm

/-- What `poll(2)` writes leaves the slots with their channels. -/
theorem Inv.polled (h : p.Inv fd) (revents : ℕ → Int16) : (p.polled revents).Inv fd where
  keyed := h.keyed
  index_nonneg := h.index_nonneg
  size_eq := by
    rw [PollPoller.polled, Array.size_mapIdx]
    exact h.size_eq
  table := by
    refine ⟨fun k i hi => ?_, fun i hi => ?_, h.table.inj⟩
    · obtain ⟨pfd, hpfd, howns⟩ := h.table.owned k i hi
      refine ⟨{ pfd with revents := if pfd.fd < 0 then 0 else revents i }, ?_, howns⟩
      rw [PollPoller.polled, Array.getElem?_mapIdx, hpfd]
      rfl
    · rw [PollPoller.polled, Array.size_mapIdx] at hi
      exact h.table.onto i hi

theorem Inv.of_reports {pfds : List PollFd} {active : List κ} (h : p.Inv fd)
    (hr : Reports p pfds p' active) : p'.Inv fd where
  keyed := by
    rw [hr.channels_eq]
    exact h.keyed
  index_nonneg k hk := by
    rw [hr.channels_eq] at hk
    rw [hr.index_eq]
    exact h.index_nonneg k hk
  size_eq := by
    rw [hr.channels_eq, hr.pollfds_eq]
    exact h.size_eq
  table := by
    have hslot : p'.slot fd = p.slot fd := by
      funext k
      rw [slot, slot, hr.channels_eq, hr.index_eq]
    rw [hslot, hr.pollfds_eq]
    exact h.table

end PollPoller

namespace Dispatcher

variable {κ : Type} [DecidableEq κ] {fd : κ → ℕ} {d : Dispatcher κ}

theorem inv_init : (init : Dispatcher κ).Inv fd where
  poller := PollPoller.inv_init
  report_eq := rfl
  active_eq := rfl
  nodup := List.nodup_nil
  registered := by simp [init]
  current := by simp [init]
  idle _ := ⟨rfl, rfl⟩

omit [DecidableEq κ] in
/-- The report, by the channels that the poller found. -/
theorem reportOf_eq {p p' : PollPoller κ} {active : List κ}
    (hr : PollPoller.Reports p p.ready p' active) :
    reportOf p = active.map fun k => (k, (p'.channel k).revents) := by
  have hreported := hr.reported
  rw [reportOf]
  clear hr
  generalize p.ready = pfds at hreported
  induction hreported with
  | nil => rfl
  | cons hk _ ih =>
    rw [List.filterMap_cons, hk.1, List.map_cons, ← hk.2, ih]
    rfl

/-- A poll reports the channels of the slots with events; all of them are left to be handled. -/
theorem Inv.poll (h : d.Inv fd) (hidle : d.eventHandling = false) (revents : ℕ → Int16) :
    ∃ d', d.poll fd revents = some d' ∧ d'.Inv fd := by
  obtain ⟨p', active, hp', hr⟩ := h.poller.poll revents
  have hreport := reportOf_eq hr
  have hfst : (reportOf (d.poller.polled revents)).map Prod.fst = active := by
    rw [hreport, List.map_map]
    exact List.map_id' active
  refine ⟨_, by rw [Dispatcher.poll, hp']; rfl, ?_⟩
  exact
    { poller := (h.poller.polled revents).of_reports hr
      report_eq := by rw [List.nil_append, left, hreport]
      active_eq := hfst.symm
      nodup := by
        rw [hfst]
        exact hr.nodup
      registered := fun k hk => by
        obtain ⟨pfd, hpfd, hk'⟩ := hr.exists_slot hk
        rw [hr.channels_eq, ← (h.poller.polled revents).keyed pfd.fd k hk']
        exact hk'
      current := fun k hk => by
        rw [(h.idle hidle).2] at hk
        cases hk
      idle := fun hd => absurd hd (by simp) }

theorem Inv.advance (h : d.Inv fd) : d.advance.Inv fd := by
  rw [Dispatcher.advance]
  have hreport := h.report_eq
  cases hrest : d.rest with
  | nil =>
    exact
      { poller := h.poller
        report_eq := by rw [← h.report_eq, left, left, hrest]
        active_eq := h.active_eq
        nodup := h.nodup
        registered := fun k hk => by cases hk
        current := fun k hk => by cases hk
        idle := fun _ => ⟨rfl, rfl⟩ }
  | cons k rest =>
    rw [left, hrest, List.map_cons] at hreport
    have hnodup := h.nodup
    rw [← hreport, List.map_append, List.map_cons, List.map_map] at hnodup
    exact
      { poller := h.poller
        report_eq := by
          rw [← hreport, List.append_assoc]
          rfl
        active_eq := h.active_eq
        nodup := h.nodup
        registered := fun m hm => h.registered m (by rw [hrest]; exact List.mem_cons_of_mem k hm)
        current := fun m hm => by
          obtain rfl := Option.some.inj hm
          have hnotMem := (List.nodup_cons.1 (List.nodup_append.1 hnodup).2.1).1
          simpa using hnotMem
        idle := fun hd => by
          have hnil := (h.idle hd).1
          rw [hrest] at hnil
          cases hnil }

/-- A call of the poller, which does not remove what is left. -/
theorem Inv.of_call (h : d.Inv fd) {c : PollPoller.Call κ} {poller : PollPoller κ}
    (hc : d.poller.call fd c = some poller) (hne : ∀ k ∈ d.rest, c ≠ .remove k) :
    { d with poller := poller }.Inv fd := by
  obtain ⟨p', hp', hinv⟩ := h.poller.call (PollPoller.asserted_of_call hc)
  obtain rfl := Option.some.inj (hc.symm.trans hp')
  refine { h with poller := hinv, report_eq := ?_, registered := fun k hk => ?_ }
  · rw [← h.report_eq, left, left]
    simp only [h.poller.revents_call hc]
  · exact h.poller.registered_call hc (h.registered k hk) (hne k hk)

/-- A removal asserts that the channel is the one that is handled, or was not reported. -/
theorem removeChannel_eq (d : Dispatcher κ) (k : κ) : d.removeChannel fd k =
    if d.eventHandling = true → d.currentActiveChannel = some k ∨ k ∉ d.activeChannels then
      (d.poller.call fd (.remove k)).map fun poller => { d with poller := poller }
    else none := by
  have hcall : (d.poller.call fd (.remove k)).map (fun poller => { d with poller := poller }) =
      (d.poller.call fd (.remove k)).bind fun poller => some { d with poller := poller } :=
    Option.map_eq_bind
  unfold removeChannel
  by_cases hhandling : d.eventHandling = true
  · rw [if_pos hhandling]
    by_cases hassert : d.currentActiveChannel = some k ∨ k ∉ d.activeChannels
    · rw [if_pos fun _ => hassert, hcall]
      exact Runs.guard_bind hassert _
    · rw [if_neg fun h => hassert (h hhandling)]
      exact Runs.guard_bind_none hassert _
  · rw [if_neg hhandling, if_pos fun h => absurd h hhandling, hcall]
    rfl

theorem Inv.mem_active (h : d.Inv fd) {k : κ} (hk : k ∈ d.rest) : k ∈ d.activeChannels := by
  rw [h.active_eq, ← h.report_eq, List.map_append, List.mem_append]
  exact .inr (List.mem_map.2 ⟨_, List.mem_map_of_mem hk, rfl⟩)

/-- The step lemma. -/
theorem Inv.step (h : d.Inv fd) (e : Event κ) : (d.step fd e).Inv fd := by
  unfold Dispatcher.step
  cases e with
  | poll revents =>
    unfold step?
    dsimp only
    split_ifs with hhandling
    · exact h
    · obtain ⟨d', hd', h'⟩ := h.poll (by simpa using hhandling) revents
      rw [hd']
      exact h'
  | advance =>
    unfold step?
    dsimp only
    rw [Option.getD_some]
    split_ifs
    · exact h.advance
    · exact h
  | updateChannel k interest =>
    unfold step? updateChannel
    dsimp only
    cases hc : d.poller.call fd (.update k interest) with
    | none => exact h
    | some poller => exact h.of_call hc fun _ _ heq => by cases heq
  | removeChannel k =>
    unfold step?
    dsimp only
    rw [removeChannel_eq]
    split_ifs with hassert
    swap
    · exact h
    cases hc : d.poller.call fd (.remove k) with
    | none => exact h
    | some poller =>
      refine h.of_call hc fun m hm heq => ?_
      obtain rfl := PollPoller.Call.remove.inj heq
      -- what is left was reported, and is not the channel that is handled
      have hhandling : d.eventHandling = true := by
        by_contra hnot
        rw [(h.idle (by simpa using hnot)).1] at hm
        cases hm
      rcases hassert hhandling with hcurrent | hnotMem
      · exact h.current k hcurrent hm
      · exact hnotMem (h.mem_active hm)

/-- **Dispatch.** In every run, whatever the handlers and functors call meanwhile, the channels that
the last poll reported are handled in its order, each once and with the events that the poll
returned for it, and each is still registered when its turn comes; no poll fails; and a call that
keeps to what the poller asserts fails only if it removes a reported channel that is not the one
handled. -/
theorem dispatch_run (es : List (Event κ)) :
    let d := Runs.run (Dispatcher.step fd) init es
    (d.handled <+: d.report ∧ (d.eventHandling = false → d.handled = d.report) ∧
        (d.report.map Prod.fst).Nodup ∧
        ∀ k rest, d.rest = k :: rest → d.poller.channels[(fd k : ℤ)]? = some k) ∧
      (∀ revents, (d.step? fd (.poll revents)).isSome) ∧
      (∀ k interest, d.poller.Asserted fd (.update k interest) →
        (d.step? fd (.updateChannel k interest)).isSome) ∧
      ∀ k, d.poller.Asserted fd (.remove k) → ((d.step? fd (.removeChannel k)).isSome ↔
        d.eventHandling = false ∨ d.currentActiveChannel = some k ∨ k ∉ d.report.map Prod.fst) := by
  intro d
  have h : d.Inv fd :=
    Runs.run_invariant (I := Dispatcher.Inv fd) (fun _ e _ h => h.step e) inv_init
  refine ⟨⟨⟨d.left, h.report_eq⟩, fun hidle => ?_, h.nodup, fun k rest hrest => ?_⟩,
    fun revents => ?_, fun k interest hasserted => ?_, fun k hasserted => ?_⟩
  · rw [← h.report_eq, left, (h.idle hidle).1, List.map_nil, List.append_nil]
  · exact h.registered k (by simp [hrest])
  · unfold step?
    dsimp only
    split_ifs with hhandling
    · rfl
    · obtain ⟨d', hd', -⟩ := h.poll (by simpa using hhandling) revents
      rw [hd']
      rfl
  · obtain ⟨p', hp', -⟩ := h.poller.call hasserted
    unfold step? updateChannel
    dsimp only
    rw [hp']
    rfl
  · obtain ⟨p', hp', -⟩ := h.poller.call hasserted
    unfold step?
    dsimp only
    rw [removeChannel_eq, hp', h.active_eq]
    split_ifs with hassert
    · refine iff_of_true rfl ?_
      cases hhandling : d.eventHandling with
      | false => exact .inl rfl
      | true => exact .inr (hassert hhandling)
    · refine iff_of_false (by simp) ?_
      rintro (hidle | hcond)
      · exact hassert fun hhandling => absurd (hidle.symm.trans hhandling) (by decide)
      · exact hassert fun _ => hcond

end Dispatcher

end Huaweip2p
