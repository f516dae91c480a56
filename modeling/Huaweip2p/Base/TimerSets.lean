import Huaweip2p.Base.TimerQueue
import Huaweip2p.Lib.OrderedSet

/-!
# The sets of the timer queue

What the operations of `TimerQueue` do to `timers_`, `activeTimers_`, the timers on the heap and
`timerfd_` from any state in which the two sets list the same timers.

* `SameTimers`: that invariant;
* `getExpired_spec`: `getExpired` takes exactly the timers that are due;
* `sameTimers_iff`: which operations keep the invariant;
* `armed_iff`: when `timerfd_` stays armed for the earliest timer.
-/

namespace Huaweip2p

namespace TimerQueue

/-- Every entry of `timers_` and of `activeTimers_` belongs to a timer that is not deleted, under
its expiration and its sequence number, and the two sets list the same timers. -/
structure SameTimers (q : TimerQueue) : Prop where
  timers : ∀ e ∈ q.timers, ∃ t, q.heap[e.2]? = some t ∧ t.expiration = e.1
  active : ∀ id ∈ q.activeTimers, ∃ t, q.heap[id.1]? = some t ∧ t.sequence = id.2
  same : ∀ a, (∃ time, (time, a) ∈ q.timers) ↔ ∃ n, (a, n) ∈ q.activeTimers

/-- A queue with one timer. -/
def single (a : Addr) (t : Timer) : TimerQueue :=
  { init with
    timers := (∅ : Std.ExtTreeSet (ℤ × Addr) entryCompare).insert (t.expiration, a)
    activeTimers := (∅ : Std.ExtTreeSet TimerId activeCompare).insert (a, t.sequence)
    heap := (∅ : Heap).insert a t
    timerfd := some t.expiration }

theorem mem_timers_single {a : Addr} {t : Timer} {e : ℤ × Addr} :
    e ∈ (single a t).timers ↔ (t.expiration, a) = e := by
  simp [single, Std.ExtTreeSet.mem_insert, Std.LawfulEqCmp.compare_eq_iff_eq]

theorem mem_activeTimers_single {a : Addr} {t : Timer} {id : TimerId} :
    id ∈ (single a t).activeTimers ↔ (a, t.sequence) = id := by
  simp [single, Std.ExtTreeSet.mem_insert, Std.LawfulEqCmp.compare_eq_iff_eq]

theorem sameTimers_single (a : Addr) (t : Timer) : (single a t).SameTimers where
  timers e he := by
    obtain rfl := mem_timers_single.1 he
    exact ⟨t, by simp [single], rfl⟩
  active id hid := by
    obtain rfl := mem_activeTimers_single.1 hid
    exact ⟨t, by simp [single], rfl⟩
  same b := by
    simp only [mem_timers_single, mem_activeTimers_single, Prod.mk.injEq]
    constructor
    · rintro ⟨_, -, rfl⟩
      exact ⟨_, rfl, rfl⟩
    · rintro ⟨_, rfl, -⟩
      exact ⟨_, rfl, rfl⟩

/-! ### `getExpired` -/

theorem entryCompare_eq_lt_iff (e e' : ℤ × Addr) :
    entryCompare e e' = .lt ↔ e.1 < e'.1 ∨ e.1 = e'.1 ∧ e.2 < e'.2 := by
  simp only [entryCompare, compareLex, compareOn, Ordering.then_eq_lt, compare_lt_iff_lt,
    compare_eq_iff_eq]

/-- The entry is in front of the sentry of `getExpired`. -/
def isExpired (now : ℤ) (e : ℤ × Addr) : Bool := entryCompare e (now, uintptrMax) == .lt

theorem isExpired_iff {now : ℤ} {e : ℤ × Addr} (h : e.2 < uintptrMax) :
    isExpired now e = true ↔ e.1 ≤ now := by
  rw [isExpired, beq_iff_eq, entryCompare_eq_lt_iff]
  constructor
  · rintro (hlt | ⟨heq, -⟩)
    · exact hlt.le
    · exact heq.le
  · intro hle
    exact hle.lt_or_eq.imp_right fun heq => ⟨heq, h⟩

/-- What is in front of an expired entry is expired. -/
theorem isExpired_of_lt {now : ℤ} {e e' : ℤ × Addr} (h : entryCompare e e' = .lt)
    (h' : isExpired now e' = true) : isExpired now e = true := by
  rw [isExpired, beq_iff_eq] at h' ⊢
  exact Std.TransCmp.lt_trans h h'

variable (q : TimerQueue) (now : ℤ)

/-- The entries that `getExpired` returns. -/
def expired : List (ℤ × Addr) := q.timers.toList.filter (isExpired now)

/-- The sequence number of the timer at an address. -/
def sequenceAt (a : Addr) : ℕ := ((q.heap[a]?).map Timer.sequence).getD 0

/-- What `getExpired` leaves. -/
def withoutExpired : TimerQueue :=
  { q with
    timers := (q.expired now).foldl (fun ts e => ts.erase e) q.timers
    activeTimers :=
      (q.expired now).foldl (fun ts e => ts.erase (e.2, q.sequenceAt e.2)) q.activeTimers }

variable {q} {now}

theorem mem_expired {e : ℤ × Addr} : e ∈ q.expired now ↔ e ∈ q.timers ∧ isExpired now e = true := by
  rw [expired, List.mem_filter, Std.ExtTreeSet.mem_toList]

theorem foldlM_eraseActive {l : List (ℤ × Addr)}
    (h : ∀ e ∈ l, ∃ t, q.heap[e.2]? = some t) :
    l.foldlM eraseActive q = some { q with
      activeTimers := l.foldl (fun ts e => ts.erase (e.2, q.sequenceAt e.2)) q.activeTimers } := by
  induction l generalizing q with
  | nil => rfl
  | cons e l ih =>
    obtain ⟨t, ht⟩ := h e List.mem_cons_self
    have hseq : q.sequenceAt e.2 = t.sequence := by rw [sequenceAt, ht]; rfl
    rw [List.foldlM_cons, eraseActive, ht, List.foldl_cons, hseq]
    exact ih (q := { q with activeTimers := q.activeTimers.erase (e.2, t.sequence) })
      fun e' he' => h e' (List.mem_cons_of_mem _ he')

theorem SameTimers.getExpired_eq (h : q.SameTimers) (now : ℤ) :
    q.getExpired now = some (q.withoutExpired now, q.expired now) := by
  have hfront : q.timers.toList.takeWhile (isExpired now) = q.expired now :=
    Std.ExtTreeSet.ordered_toList.takeWhile_eq_filter fun _ _ => isExpired_of_lt
  have hlive : ∀ e ∈ q.expired now, ∃ t, q.heap[e.2]? = some t := by
    intro e he
    obtain ⟨t, ht, -⟩ := h.timers e (mem_expired.1 he).1
    exact ⟨t, ht⟩
  have hloop := foldlM_eraseActive (l := q.expired now)
    (q := { q with timers := (q.expired now).foldl (fun ts e => ts.erase e) q.timers }) hlive
  have hdef : ∀ l, q.timers.toList.takeWhile (isExpired now) = l → q.getExpired now =
      l.foldlM eraseActive { q with timers := l.foldl (fun ts e => ts.erase e) q.timers } >>=
        fun q' => pure (q', l) := by
    rintro _ rfl
    rfl
  rw [hdef _ hfront, hloop]
  rfl

theorem mem_timers_withoutExpired {e : ℤ × Addr} :
    e ∈ (q.withoutExpired now).timers ↔ e ∈ q.timers ∧ isExpired now e = false := by
  refine (Std.ExtTreeSet.mem_foldl_erase (f := id)).trans ?_
  rw [List.map_id, mem_expired]
  cases isExpired now e <;> simp

theorem SameTimers.mem_activeTimers_withoutExpired (h : q.SameTimers) {id : TimerId} :
    id ∈ (q.withoutExpired now).activeTimers ↔
      id ∈ q.activeTimers ∧
        ∃ t, q.heap[id.1]? = some t ∧ isExpired now (t.expiration, id.1) = false := by
  refine (Std.ExtTreeSet.mem_foldl_erase
    (f := fun e : ℤ × Addr => (e.2, q.sequenceAt e.2))).trans ?_
  refine and_congr_right fun hid => ?_
  obtain ⟨t, ht, hseq⟩ := h.active id hid
  have hat : q.sequenceAt id.1 = id.2 := by rw [sequenceAt, ht]; exact hseq
  rw [List.mem_map]
  constructor
  · intro hnot
    refine ⟨t, ht, ?_⟩
    -- the timer is in `timers_` as well, under its expiration
    obtain ⟨time, htime⟩ := (h.same id.1).2 ⟨id.2, hid⟩
    obtain ⟨t', ht', rfl⟩ := h.timers _ htime
    obtain rfl : t = t' := Option.some.inj (ht.symm.trans ht')
    by_contra hexp
    rw [Bool.not_eq_false] at hexp
    exact hnot ⟨_, mem_expired.2 ⟨htime, hexp⟩, Prod.ext rfl hat⟩
  · rintro ⟨t', ht', hexp⟩ ⟨e, he, rfl⟩
    obtain ⟨hmem, hexp'⟩ := mem_expired.1 he
    obtain ⟨t'', ht'', htime⟩ := h.timers e hmem
    obtain rfl : t' = t'' := Option.some.inj (ht'.symm.trans ht'')
    rw [htime] at hexp
    exact Bool.false_ne_true (hexp.symm.trans hexp')

theorem SameTimers.withoutExpired (h : q.SameTimers) (now : ℤ) :
    (q.withoutExpired now).SameTimers where
  timers e he := h.timers e (mem_timers_withoutExpired.1 he).1
  active id hid := h.active id (h.mem_activeTimers_withoutExpired.1 hid).1
  same a := by
    simp only [mem_timers_withoutExpired, h.mem_activeTimers_withoutExpired]
    constructor
    · rintro ⟨time, htime, hexp⟩
      obtain ⟨n, hn⟩ := (h.same a).1 ⟨time, htime⟩
      obtain ⟨t, ht, rfl⟩ := h.timers _ htime
      exact ⟨n, hn, t, ht, hexp⟩
    · rintro ⟨n, hn, t, ht, hexp⟩
      obtain ⟨time, htime⟩ := (h.same a).2 ⟨n, hn⟩
      obtain ⟨t', ht', rfl⟩ := h.timers _ htime
      obtain rfl : t = t' := Option.some.inj (ht.symm.trans ht')
      exact ⟨t.expiration, htime, hexp⟩

/-- Every expired timer is listed once. -/
theorem SameTimers.nodup_expired (h : q.SameTimers) (now : ℤ) :
    ((q.expired now).map Prod.snd).Nodup := by
  refine List.Nodup.map_on (fun e he e' he' heq => ?_) ?_
  · obtain ⟨t, ht, htime⟩ := h.timers e (mem_expired.1 he).1
    obtain ⟨t', ht', htime'⟩ := h.timers e' (mem_expired.1 he').1
    obtain rfl : t = t' := Option.some.inj (ht.symm.trans ((congrArg _ heq).trans ht'))
    exact Prod.ext (htime.symm.trans htime') heq
  · refine List.Nodup.filter _ (Std.ExtTreeSet.ordered_toList.imp fun hlt heq => ?_)
    subst heq
    cases Std.ReflCmp.compare_self.symm.trans hlt

theorem pairwise_expired : (q.expired now).Pairwise fun e e' => e.1 ≤ e'.1 := by
  refine List.Pairwise.filter _ (Std.ExtTreeSet.ordered_toList.imp fun {e e'} hlt => ?_)
  rcases (entryCompare_eq_lt_iff e e').1 hlt with h | ⟨h, -⟩
  · exact h.le
  · exact h.le

/-- **Expired timers.** From any state in which the two sets list the same timers, with addresses
below `UINTPTR_MAX`, `getExpired` returns exactly the timers with an expiration up to `now`, each
once and in the order of their expirations, and leaves exactly the others in both sets. -/
theorem getExpired_spec (h : q.SameTimers) (haddr : ∀ e ∈ q.timers, e.2 < uintptrMax) (now : ℤ) :
    ∃ q' expired, q.getExpired now = some (q', expired) ∧
      (∀ e, e ∈ expired ↔ e ∈ q.timers ∧ e.1 ≤ now) ∧ (expired.map Prod.snd).Nodup ∧
      expired.Pairwise (fun e e' => e.1 ≤ e'.1) ∧
      (∀ e, e ∈ q'.timers ↔ e ∈ q.timers ∧ now < e.1) ∧
      (∀ id, id ∈ q'.activeTimers ↔
        id ∈ q.activeTimers ∧ ∃ t, q.heap[id.1]? = some t ∧ now < t.expiration) ∧
      q'.heap = q.heap := by
  refine ⟨_, _, h.getExpired_eq now, fun e => ?_, h.nodup_expired now, pairwise_expired,
    fun e => ?_, fun id => ?_, rfl⟩
  · rw [mem_expired]
    exact and_congr_right fun he => isExpired_iff (haddr e he)
  · rw [mem_timers_withoutExpired]
    refine and_congr_right fun he => ?_
    rw [← Bool.not_eq_true, isExpired_iff (haddr e he), not_le]
  · rw [h.mem_activeTimers_withoutExpired]
    refine and_congr_right fun hid => exists_congr fun t => and_congr_right fun ht => ?_
    obtain ⟨time, htime⟩ := (h.same id.1).2 ⟨id.2, hid⟩
    rw [← Bool.not_eq_true, isExpired_iff (show id.1 < uintptrMax from haddr _ htime), not_le]

/-- A timer for the time 5 is due at the time 5. -/
theorem getExpired_spec_single :
    ∃ q' expired, (single 1 ⟨0, 5, 0, false, 1⟩).getExpired 5 = some (q', expired) ∧
      (5, 1) ∈ expired ∧ ∀ e, e ∉ q'.timers := by
  have hmem : ∀ e, e ∈ (single 1 ⟨0, 5, 0, false, 1⟩).timers → e = (5, 1) := fun e he =>
    (mem_timers_single.1 he).symm
  obtain ⟨q', expired, hq', hexpired, -, -, htimers, -⟩ :=
    getExpired_spec (sameTimers_single 1 ⟨0, 5, 0, false, 1⟩)
      (fun e he => by rw [hmem e he]; decide) 5
  refine ⟨q', expired, hq', (hexpired _).2 ⟨mem_timers_single.2 rfl, le_refl _⟩, fun e he => ?_⟩
  obtain ⟨hin, hlt⟩ := (htimers e).1 he
  rw [hmem e hin] at hlt
  exact absurd hlt (by decide)

/-! ### The other operations -/

/-- `insert` inserts nothing: `addTimerInLoop` leaves the sets alone, and looks whether `timers_` is
empty. -/
theorem addTimerInLoop_eq {timer : Addr} {t : Timer} (h : q.heap[timer]? = some t) :
    q.addTimerInLoop timer =
      some (if q.timers.isEmpty then { q with timerfd := some t.expiration } else q) := by
  simp only [addTimerInLoop, insert, h, Option.map_some, Option.pure_def, Option.bind_eq_bind,
    Option.bind_some]
  split_ifs <;> rfl

theorem cancelInLoop_of_mem {id : TimerId} (h : q.SameTimers) (hid : id ∈ q.activeTimers) :
    q.cancelInLoop id = some { q with
      heap := q.heap.erase id.1, activeTimers := q.activeTimers.erase id } := by
  obtain ⟨t, ht, -⟩ := h.active id hid
  have hcontains : q.activeTimers.contains id = true := hid
  rw [cancelInLoop, if_pos hcontains, ht]
  rfl

theorem cancelInLoop_of_not_mem {id : TimerId} (hid : id ∉ q.activeTimers) :
    q.cancelInLoop id = some { q with
      cancelingTimers := if q.callingExpiredTimers then q.cancelingTimers.insert id
        else q.cancelingTimers } := by
  have hcontains : ¬ q.activeTimers.contains id = true := hid
  rw [cancelInLoop, if_neg hcontains]
  split_ifs <;> rfl

/-- A timer that is cancelled stays in `timers_`. -/
theorem not_sameTimers_of_cancelled {q' : TimerQueue} (h : q.SameTimers) {id : TimerId}
    (hid : id ∈ q.activeTimers) (htimers : q'.timers = q.timers)
    (hactive : ∀ id' ∈ q'.activeTimers, id' ∈ q.activeTimers) (hnot : id ∉ q'.activeTimers) :
    ¬ q'.SameTimers := by
  intro h'
  obtain ⟨t, ht, hseq⟩ := h.active id hid
  obtain ⟨time, htime⟩ := (h.same id.1).2 ⟨id.2, hid⟩
  obtain ⟨n, hn⟩ := (h'.same id.1).1 ⟨time, by rwa [htimers]⟩
  obtain ⟨t', ht', hseq'⟩ := h.active _ (hactive _ hn)
  obtain rfl : t = t' := Option.some.inj (ht.symm.trans ht')
  have hid' : id = (id.1, n) := Prod.ext rfl (hseq.symm.trans hseq')
  rw [← hid'] at hn
  exact hnot hn

/-- What callbacks do to a queue: nothing enters the sets or leaves `timers_`, and a timer that is
not in `activeTimers_` stays on the heap. -/
structure Acted (q q' : TimerQueue) : Prop where
  timers : q'.timers = q.timers
  activeTimers : ∀ id ∈ q'.activeTimers, id ∈ q.activeTimers
  heap : ∀ (a : Addr) (t : Timer), q.heap[a]? = some t → (∀ n, (a, n) ∉ q.activeTimers) →
    q'.heap[a]? = some t

theorem Acted.refl (q : TimerQueue) : Acted q q := ⟨rfl, fun _ h => h, fun _ _ h _ => h⟩

theorem Acted.trans {q q' q'' : TimerQueue} (h : Acted q q') (h' : Acted q' q'') : Acted q q'' where
  timers := h'.timers.trans h.timers
  activeTimers id hid := h.activeTimers id (h'.activeTimers id hid)
  heap a t ht hnot := h'.heap a t (h.heap a t ht hnot) fun n hn => hnot n (h.activeTimers _ hn)

/-- What callbacks do that cancel no timer of `activeTimers_`. -/
structure Spared (q q' : TimerQueue) : Prop where
  timers : q'.timers = q.timers
  activeTimers : q'.activeTimers = q.activeTimers
  heap : ∀ (a : Addr) (t : Timer), q.heap[a]? = some t → q'.heap[a]? = some t

theorem Spared.refl (q : TimerQueue) : Spared q q := ⟨rfl, rfl, fun _ _ h => h⟩

theorem Spared.trans {q q' q'' : TimerQueue} (h : Spared q q') (h' : Spared q' q'') :
    Spared q q'' where
  timers := h'.timers.trans h.timers
  activeTimers := h'.activeTimers.trans h.activeTimers
  heap a t ht := h'.heap a t (h.heap a t ht)

theorem Spared.sameTimers {q q' : TimerQueue} (h : Spared q q') (hsame : q.SameTimers) :
    q'.SameTimers where
  timers e he := by
    rw [h.timers] at he
    obtain ⟨t, ht, htime⟩ := hsame.timers e he
    exact ⟨t, h.heap _ _ ht, htime⟩
  active id hid := by
    rw [h.activeTimers] at hid
    obtain ⟨t, ht, hseq⟩ := hsame.active id hid
    exact ⟨t, h.heap _ _ ht, hseq⟩
  same a := by
    rw [h.timers, h.activeTimers]
    exact hsame.same a

theorem Spared.acted {q q' : TimerQueue} (h : Spared q q') : Acted q q' where
  timers := h.timers
  activeTimers _ hid := h.activeTimers ▸ hid
  heap a t ht _ := h.heap a t ht

section

variable (env : TimerEnv)

theorem addTimer_spared (q : TimerQueue) (callback : ℕ) (time interval : ℤ) :
    ∃ q' ops, q.addTimer env callback time interval = some (q', ops) ∧ Spared q q' := by
  have hnew : ∀ (a : Addr) (t t' : Timer), q.heap[a]? = some t →
      (q.heap.insert (env.malloc q.numCreated q.heap) t')[a]? = some t := by
    intro a t t' ht
    rw [Std.ExtTreeMap.getElem?_insert, if_neg, ht]
    intro heq
    obtain rfl := Std.LawfulEqCmp.eq_of_compare heq
    rw [env.malloc_fresh] at ht
    cases ht
  have hheap : (q.heap.insert (env.malloc q.numCreated q.heap)
      ⟨callback, time, interval, interval > 0, q.numCreated + 1⟩)[env.malloc q.numCreated q.heap]? =
        some ⟨callback, time, interval, interval > 0, q.numCreated + 1⟩ :=
    Std.ExtTreeMap.getElem?_insert_self ..
  have hadd := addTimerInLoop_eq (q := { q with
      heap := q.heap.insert (env.malloc q.numCreated q.heap)
        ⟨callback, time, interval, interval > 0, q.numCreated + 1⟩
      numCreated := q.numCreated + 1 }) hheap
  rw [addTimer, hadd]
  refine ⟨_, _, rfl, ?_⟩
  split_ifs
  · exact ⟨rfl, rfl, fun a t ht => hnew a t _ ht⟩
  · exact ⟨rfl, rfl, fun a t ht => hnew a t _ ht⟩

theorem cancelInLoop_acted {q q' : TimerQueue} {id : TimerId} (h : q.cancelInLoop id = some q') :
    Acted q q' ∧ id ∉ q'.activeTimers := by
  by_cases hid : id ∈ q.activeTimers
  · have hcontains : q.activeTimers.contains id = true := hid
    rw [cancelInLoop, if_pos hcontains] at h
    split_ifs at h
    obtain rfl := Option.some.inj h
    refine ⟨⟨rfl, fun id' hid' => Std.ExtTreeSet.mem_of_mem_erase hid', fun a t ht hnot => ?_⟩, ?_⟩
    · show (q.heap.erase id.1)[a]? = some t
      rw [Std.ExtTreeMap.getElem?_erase, if_neg, ht]
      intro heq
      obtain rfl := Std.LawfulEqCmp.eq_of_compare heq
      exact hnot id.2 hid
    · simp [Std.ExtTreeSet.mem_erase]
  · rw [cancelInLoop_of_not_mem hid] at h
    obtain rfl := Option.some.inj h
    exact ⟨⟨rfl, fun _ h => h, fun _ _ h _ => h⟩, hid⟩

/-- A callback's action, with the log. -/
def runAction (r : TimerQueue × List TimerOp) (a : Action) : Option (TimerQueue × List TimerOp) := do
  let (q, ops) ← r.1.act env a
  return (q, r.2 ++ ops)

theorem runTimer_eq {r : TimerQueue × List TimerOp} {e : ℤ × Addr} {t : Timer}
    (ht : r.1.heap[e.2]? = some t) (now : ℤ) :
    runTimer env now r e =
      (env.actions t.callback).foldlM (runAction env) (r.1, r.2 ++ [.ran (e.2, t.sequence) now]) := by
  rw [runTimer, ht]
  rfl

theorem runAction_acted {r r' : TimerQueue × List TimerOp} {a : Action}
    (h : runAction env r a = some r') :
    Acted r.1 r'.1 ∧ ∀ id, a = .cancel id → id ∉ r'.1.activeTimers := by
  obtain ⟨⟨q', ops⟩, hact, hr'⟩ := Option.bind_eq_some_iff.1 h
  obtain rfl := Option.some.inj hr'
  cases a with
  | addTimer callback time interval =>
    obtain ⟨q₁, ops₁, hq₁, hspared⟩ := addTimer_spared env r.1 callback time interval
    obtain ⟨rfl, rfl⟩ : q₁ = q' ∧ ops₁ = ops := by simpa using hq₁.symm.trans hact
    exact ⟨hspared.acted, fun _ hne => by cases hne⟩
  | cancel id =>
    obtain ⟨q₁, hq₁, hr⟩ := Option.bind_eq_some_iff.1 hact
    obtain ⟨rfl, -⟩ : q₁ = q' ∧ [TimerOp.cancelled id] = ops := by simpa using hr
    obtain ⟨hacted, hnot⟩ := cancelInLoop_acted hq₁
    refine ⟨hacted, fun id' heq => ?_⟩
    obtain rfl : id = id' := by simpa using heq
    exact hnot

theorem runAction_spared {q : TimerQueue} {a : Action}
    (ha : ∀ id, a = .cancel id → id ∉ q.activeTimers) (ops : List TimerOp) :
    ∃ r', runAction env (q, ops) a = some r' ∧ Spared q r'.1 := by
  cases a with
  | addTimer callback time interval =>
    obtain ⟨q', ops', hq', hspared⟩ := addTimer_spared env q callback time interval
    exact ⟨(q', ops ++ ops'), by simp [runAction, act, hq'], hspared⟩
  | cancel id =>
    have hcancel := cancelInLoop_of_not_mem (ha id rfl)
    have hspared : Spared q { q with
        cancelingTimers := if q.callingExpiredTimers then q.cancelingTimers.insert id
          else q.cancelingTimers } := ⟨rfl, rfl, fun _ _ h => h⟩
    exact ⟨(_, ops ++ [.cancelled id]), by simp [runAction, act, cancel, hcancel], hspared⟩

theorem runTimer_acted {now : ℤ} {r r' : TimerQueue × List TimerOp} {e : ℤ × Addr}
    (h : runTimer env now r e = some r') : Acted r.1 r'.1 := by
  cases ht : r.1.heap[e.2]? with
  | none =>
    rw [runTimer, ht] at h
    cases h
  | some t =>
    rw [runTimer_eq env ht] at h
    exact Runs.foldlM_of_some (I := fun r' => Acted r.1 r'.1)
      (fun _ _ _ hstep hacted => hacted.trans (runAction_acted env hstep).1) h (.refl _)

/-- A timer that the callback cancels is not in `activeTimers_` afterwards. -/
theorem runTimer_cancelled {now : ℤ} {r r' : TimerQueue × List TimerOp} {e : ℤ × Addr} {t : Timer}
    (ht : r.1.heap[e.2]? = some t) {id : TimerId} (hid : .cancel id ∈ env.actions t.callback)
    (h : runTimer env now r e = some r') : id ∉ r'.1.activeTimers := by
  rw [runTimer_eq env ht] at h
  exact Runs.foldlM_of_mem (f := runAction env) (I := fun _ => True) (P := fun r => id ∉ r.1.activeTimers)
    (fun _ _ _ _ _ => trivial)
    (fun _ _ _ hstep hnot hmem => hnot ((runAction_acted env hstep).1.activeTimers _ hmem))
    (fun _ _ hstep _ => (runAction_acted env hstep).2 id rfl) hid h trivial

theorem runTimer_spared {r : TimerQueue × List TimerOp} {e : ℤ × Addr} {t : Timer}
    (ht : r.1.heap[e.2]? = some t)
    (hcancel : ∀ id, .cancel id ∈ env.actions t.callback → id ∉ r.1.activeTimers) (now : ℤ) :
    ∃ r', runTimer env now r e = some r' ∧ Spared r.1 r'.1 := by
  rw [runTimer_eq env ht]
  refine Runs.foldlM_invariant_of_mem
    (I := fun r' : TimerQueue × List TimerOp => Spared r.1 r'.1) ?_ (.refl _)
  intro r₁ a ha hspared
  obtain ⟨r₂, hr₂, hspared₂⟩ := runAction_spared env (q := r₁.1) (a := a) (by
    rintro id rfl
    rw [hspared.activeTimers]
    exact hcancel id ha) r₁.2
  exact ⟨r₂, hr₂, hspared.trans hspared₂⟩

end

/-! ### `reset` -/

theorem resetTimer_eq {e : ℤ × Addr} {t : Timer} (ht : q.heap[e.2]? = some t) (now : ℤ) :
    resetTimer now q e = some { q with
      heap := if t.repeats && !q.cancelingTimers.contains (e.2, t.sequence) then
        q.heap.insert e.2 (t.restart now) else q.heap.erase e.2 } := by
  rw [resetTimer, ht]
  simp only [Option.bind_eq_bind, Option.bind_some, insert, Std.ExtTreeMap.getElem?_insert_self,
    Option.map_some, Option.pure_def]
  split_ifs <;> rfl

/-- `reset` leaves the sets alone. -/
theorem reset_sets {q' : TimerQueue} {expired : List (ℤ × Addr)}
    (h : q.reset expired now = some q') :
    q'.timers = q.timers ∧ q'.activeTimers = q.activeTimers := by
  obtain ⟨q₁, hq₁, hrest⟩ := Option.bind_eq_some_iff.1 h
  have hsets : q₁.timers = q.timers ∧ q₁.activeTimers = q.activeTimers := by
    refine Runs.foldlM_of_some
      (I := fun q₁ => q₁.timers = q.timers ∧ q₁.activeTimers = q.activeTimers)
      (fun q₁ e q₂ hstep hsets => ?_) hq₁ ⟨rfl, rfl⟩
    cases ht : q₁.heap[e.2]? with
    | none =>
      rw [resetTimer, ht] at hstep
      cases hstep
    | some t =>
      rw [resetTimer_eq ht] at hstep
      obtain rfl := Option.some.inj hstep
      exact hsets
  cases hmin : q₁.timers.min? with
  | none =>
    simp only [hmin] at hrest
    obtain rfl := Option.some.inj hrest
    exact hsets
  | some e =>
    simp only [hmin] at hrest
    obtain ⟨t, -, hq'⟩ := Option.bind_eq_some_iff.1 hrest
    obtain rfl := Option.some.inj hq'
    split_ifs
    · exact hsets
    · exact hsets

/-- The entries that `reset` is called with: each is a timer of its own, which is not deleted and
not in `timers_`. -/
structure Detached (q : TimerQueue) (expired : List (ℤ × Addr)) : Prop where
  nodup : (expired.map Prod.snd).Nodup
  live : ∀ e ∈ expired, ∃ t, q.heap[e.2]? = some t
  unlisted : ∀ e ∈ expired, ∀ time, (time, e.2) ∉ q.timers

/-- The loop of `reset` changes these timers only. -/
theorem foldlM_resetTimer {expired : List (ℤ × Addr)} (hnodup : (expired.map Prod.snd).Nodup)
    (hlive : ∀ e ∈ expired, ∃ t, q.heap[e.2]? = some t) (now : ℤ) :
    ∃ q', expired.foldlM (resetTimer now) q = some q' ∧ q'.timers = q.timers ∧
      q'.timerfd = q.timerfd ∧ ∀ a ∉ expired.map Prod.snd, q'.heap[a]? = q.heap[a]? := by
  induction expired generalizing q with
  | nil => exact ⟨q, rfl, rfl, rfl, fun _ _ => rfl⟩
  | cons e l ih =>
    obtain ⟨he, hnodup⟩ := List.nodup_cons.1 hnodup
    obtain ⟨t, ht⟩ := hlive e List.mem_cons_self
    have hstep := resetTimer_eq ht now
    set q₁ : TimerQueue := { q with
      heap := if t.repeats && !q.cancelingTimers.contains (e.2, t.sequence) then
        q.heap.insert e.2 (t.restart now) else q.heap.erase e.2 } with hq₁
    have hother : ∀ a, a ≠ e.2 → q₁.heap[a]? = q.heap[a]? := by
      intro a ha
      have hne : compare e.2 a ≠ .eq := fun heq => ha (Std.LawfulEqCmp.eq_of_compare heq).symm
      rw [hq₁]
      dsimp only
      split_ifs
      · rw [Std.ExtTreeMap.getElem?_insert, if_neg hne]
      · rw [Std.ExtTreeMap.getElem?_erase, if_neg hne]
    obtain ⟨q', hq', htimers, htimerfd, hheap⟩ := ih (q := q₁) hnodup fun e' he' => by
      rw [hother]
      · exact hlive e' (List.mem_cons_of_mem _ he')
      · rintro heq
        exact he (heq ▸ List.mem_map_of_mem he')
    refine ⟨q', by rw [List.foldlM_cons, hstep]; exact hq', htimers, htimerfd, fun a ha => ?_⟩
    rw [List.map_cons, List.mem_cons, not_or] at ha
    rw [hheap a ha.2, hother a ha.1]

/-- `reset` returns, and arms `timerfd_` for the first timer that is left. -/
theorem reset_spec {expired : List (ℤ × Addr)}
    (hlisted : ∀ e ∈ q.timers, ∃ t, q.heap[e.2]? = some t ∧ t.expiration = e.1)
    (h : q.Detached expired) (now : ℤ) :
    ∃ q', q.reset expired now = some q' ∧
      (∀ a ∉ expired.map Prod.snd, q'.heap[a]? = q.heap[a]?) ∧
      ∀ e, q.timers.min? = some e → 0 < e.1 → q'.timerfd = some e.1 := by
  obtain ⟨q₁, hq₁, htimers, htimerfd, hheap⟩ := foldlM_resetTimer h.nodup h.live now
  cases hmin : q.timers.min? with
  | none =>
    refine ⟨q₁, ?_, hheap, fun e he => by cases he⟩
    simp only [reset, hq₁, Option.bind_eq_bind, Option.bind_some, htimers, hmin, Option.pure_def]
  | some e =>
    have he : e ∈ q.timers := (Std.ExtTreeSet.min?_eq_some_iff_mem_and_forall.1 hmin).1
    obtain ⟨t, ht, htime⟩ := hlisted e he
    have hout : e.2 ∉ expired.map Prod.snd := by
      intro hin
      obtain ⟨e', he', heq⟩ := List.mem_map.1 hin
      exact h.unlisted e' he' e.1 (heq ▸ he)
    refine ⟨if t.expiration > 0 then { q₁ with timerfd := some t.expiration } else q₁, ?_, ?_, ?_⟩
    · simp only [reset, hq₁, Option.bind_eq_bind, Option.bind_some, htimers, hmin, hheap _ hout, ht,
        Option.pure_def]
    · intro a ha
      split_ifs
      · exact hheap a ha
      · exact hheap a ha
    · intro e' he' hpos
      obtain rfl := Option.some.inj he'
      rw [htime, if_pos hpos]

/-! ### What keeps the sets the same -/

/-- A timer that was created and is in neither set. -/
def Fresh (q : TimerQueue) (timer : Addr) : Prop :=
  (∃ t, q.heap[timer]? = some t) ∧ ∀ time, (time, timer) ∉ q.timers

/-- The callbacks of the timers that are due cancel no timer of the queue that is not due. -/
def CancelsDueOnly (env : TimerEnv) (q : TimerQueue) (now : ℤ) : Prop :=
  ∀ e ∈ q.timers, isExpired now e = true → ∀ t, q.heap[e.2]? = some t →
    ∀ id ∈ q.activeTimers, .cancel id ∈ env.actions t.callback →
      ∀ t', q.heap[id.1]? = some t' → isExpired now (t'.expiration, id.1) = true

theorem SameTimers.detached (h : q.SameTimers) {now : ℤ} {q' : TimerQueue}
    (htimers : q'.timers = (q.withoutExpired now).timers)
    (hheap : ∀ e ∈ q.expired now, ∃ t, q'.heap[e.2]? = some t) :
    q'.Detached (q.expired now) where
  nodup := h.nodup_expired now
  live := hheap
  unlisted e he time htime := by
    obtain ⟨hmem, hexp⟩ := mem_expired.1 he
    rw [htimers, mem_timers_withoutExpired] at htime
    obtain ⟨t, ht, heq⟩ := h.timers e hmem
    obtain ⟨t', ht', heq'⟩ := h.timers _ htime.1
    obtain rfl : t = t' := Option.some.inj (ht.symm.trans ht')
    have he' : e = (time, e.2) := Prod.ext (heq.symm.trans heq') rfl
    rw [← he'] at htime
    exact Bool.false_ne_true (htime.2.symm.trans hexp)

theorem SameTimers.reset {expired : List (ℤ × Addr)} (h : q.SameTimers)
    (hdetached : q.Detached expired) (now : ℤ) :
    ∃ q', q.reset expired now = some q' ∧ q'.SameTimers := by
  obtain ⟨q', hq', hheap, -⟩ := reset_spec h.timers hdetached now
  obtain ⟨htimers, hactive⟩ := reset_sets hq'
  have hout : ∀ time a, (time, a) ∈ q.timers → a ∉ expired.map Prod.snd := by
    intro time a ha hin
    obtain ⟨e, he, rfl⟩ := List.mem_map.1 hin
    exact hdetached.unlisted e he time ha
  refine ⟨q', hq', ?_, ?_, fun a => by rw [htimers, hactive]; exact h.same a⟩
  · intro e he
    rw [htimers] at he
    rw [hheap _ (hout e.1 e.2 he)]
    exact h.timers e he
  · intro id hid
    rw [hactive] at hid
    obtain ⟨time, htime⟩ := (h.same id.1).2 ⟨id.2, hid⟩
    rw [hheap _ (hout time id.1 htime)]
    exact h.active id hid

/-- The queue while the callbacks of the expired timers run. -/
def calling (q : TimerQueue) (now : ℤ) : TimerQueue :=
  { q.withoutExpired now with callingExpiredTimers := true, cancelingTimers := ∅ }

variable (env : TimerEnv)

theorem SameTimers.handleRead_eq (h : q.SameTimers) (now : ℤ) :
    q.handleRead env now =
      (q.expired now).foldlM (runTimer env now) (q.calling now, []) >>= fun r =>
        TimerQueue.reset { r.1 with callingExpiredTimers := false } (q.expired now) now >>= fun q' =>
          pure (q', r.2) := by
  rw [handleRead, h.getExpired_eq]
  rfl

/-- Callbacks that cancel no other timer leave a queue whose sets list the same timers. -/
theorem SameTimers.handleRead (h : q.SameTimers) {now : ℤ} (hcancels : CancelsDueOnly env q now) :
    ∃ q' ops, q.handleRead env now = some (q', ops) ∧ q'.SameTimers := by
  have hcalling : (q.calling now).SameTimers := { h.withoutExpired now with }
  obtain ⟨⟨q₁, ops⟩, hq₁, hspared⟩ := Runs.foldlM_invariant_of_mem (f := runTimer env now)
    (I := fun r : TimerQueue × List TimerOp => Spared (q.calling now) r.1)
    (s := (q.calling now, [])) (by
      intro r e he hspared
      obtain ⟨hmem, hexp⟩ := mem_expired.1 he
      obtain ⟨t, ht, -⟩ := h.timers e hmem
      obtain ⟨r', hr', hspared'⟩ := runTimer_spared env (r := r) (hspared.heap _ _ ht) (by
        intro id hid hactive
        rw [hspared.activeTimers] at hactive
        obtain ⟨hin, t', ht', hnot⟩ := h.mem_activeTimers_withoutExpired.1 hactive
        exact Bool.false_ne_true (hnot.symm.trans (hcancels e hmem hexp t ht id hin hid t' ht'))) now
      exact ⟨r', hr', hspared.trans hspared'⟩) (.refl _)
  have hsame : SameTimers { q₁ with callingExpiredTimers := false } :=
    { hspared.sameTimers hcalling with }
  have hdetached : Detached { q₁ with callingExpiredTimers := false } (q.expired now) :=
    h.detached hspared.timers fun e he => by
      obtain ⟨t, ht, -⟩ := h.timers e (mem_expired.1 he).1
      exact ⟨t, hspared.heap _ _ ht⟩
  obtain ⟨q', hq', hsame'⟩ := hsame.reset hdetached now
  refine ⟨q', ops, ?_, hsame'⟩
  rw [h.handleRead_eq, hq₁]
  simp [hq']

/-- A callback that cancels another timer leaves it in `timers_` only. -/
theorem SameTimers.cancelsDueOnly (h : q.SameTimers) {now : ℤ} {q' : TimerQueue}
    {ops : List TimerOp} (hread : q.handleRead env now = some (q', ops)) (h' : q'.SameTimers) :
    CancelsDueOnly env q now := by
  intro e he hexp t ht id hid hcancel t' ht'
  by_contra hnot
  rw [Bool.not_eq_true] at hnot
  have hcalling : (q.calling now).SameTimers := { h.withoutExpired now with }
  have hactive : id ∈ (q.calling now).activeTimers :=
    h.mem_activeTimers_withoutExpired.2 ⟨hid, t', ht', hnot⟩
  -- the timer that is running is in neither set, and stays on the heap
  have hrunning : ∀ n, (e.2, n) ∉ (q.calling now).activeTimers := by
    intro n hn
    obtain ⟨-, t'', ht'', hexp'⟩ := h.mem_activeTimers_withoutExpired.1 hn
    obtain rfl : t = t'' := Option.some.inj (ht.symm.trans ht'')
    obtain ⟨t₁, ht₁, htime⟩ := h.timers e he
    obtain rfl : t = t₁ := Option.some.inj (ht.symm.trans ht₁)
    have he' : e = (t.expiration, e.2) := Prod.ext htime.symm rfl
    rw [← he'] at hexp'
    exact Bool.false_ne_true (hexp'.symm.trans hexp)
  rw [h.handleRead_eq] at hread
  obtain ⟨r, hr, hrest⟩ := Option.bind_eq_some_iff.1 hread
  obtain ⟨q₂, hq₂, heq⟩ := Option.bind_eq_some_iff.1 hrest
  obtain ⟨rfl, rfl⟩ : q₂ = q' ∧ r.2 = ops := by simpa using heq
  obtain ⟨htimers, hactives⟩ := reset_sets hq₂
  have hacted : Acted (q.calling now) r.1 :=
    Runs.foldlM_of_some (f := runTimer env now)
      (I := fun r : TimerQueue × List TimerOp => Acted (q.calling now) r.1)
      (fun _ _ _ hstep hacted => hacted.trans (runTimer_acted env hstep)) hr (.refl _)
  have hgone : id ∉ r.1.activeTimers :=
    Runs.foldlM_of_mem (f := runTimer env now)
      (I := fun r : TimerQueue × List TimerOp => Acted (q.calling now) r.1)
      (P := fun r : TimerQueue × List TimerOp => id ∉ r.1.activeTimers)
      (fun _ _ _ hstep hacted => hacted.trans (runTimer_acted env hstep))
      (fun _ _ _ hstep hnot hmem => hnot ((runTimer_acted env hstep).activeTimers _ hmem))
      (fun _ _ hstep hacted => runTimer_cancelled env (hacted.heap _ _ ht hrunning) hcancel hstep)
      (mem_expired.2 ⟨he, hexp⟩) hr (.refl _)
  refine not_sameTimers_of_cancelled hcalling hactive (htimers.trans hacted.timers) ?_ ?_ h'
  · intro id' hid'
    rw [hactives] at hid'
    exact hacted.activeTimers id' hid'
  · rw [hactives]
    exact hgone

/-- **The sets of timers.** From every state in which the two sets list the same timers, none of
them deleted, `addTimerInLoop` of a fresh timer and `getExpired` end in such a state; `cancelInLoop`
does exactly when the timer is not in `activeTimers_`, and `handleRead` exactly when the callbacks of
the timers that are due cancel no timer of the queue that is not due. -/
theorem sameTimers_iff (h : q.SameTimers) :
    (∀ timer, q.Fresh timer → ∃ q', q.addTimerInLoop timer = some q' ∧ q'.SameTimers) ∧
    (∀ id, (∃ q', q.cancelInLoop id = some q' ∧ q'.SameTimers) ↔ id ∉ q.activeTimers) ∧
    (∀ now, ∃ q' expired, q.getExpired now = some (q', expired) ∧ q'.SameTimers) ∧
    ∀ now, (∃ q' ops, q.handleRead env now = some (q', ops) ∧ q'.SameTimers) ↔
      CancelsDueOnly env q now := by
  refine ⟨fun timer hfresh => ?_, fun id => ?_, fun now => ?_, fun now => ?_⟩
  · obtain ⟨⟨t, ht⟩, -⟩ := hfresh
    refine ⟨_, addTimerInLoop_eq ht, ?_⟩
    split_ifs
    · exact { h with }
    · exact h
  · constructor
    · rintro ⟨q', hq', hsame⟩ hid
      obtain ⟨hacted, hgone⟩ := cancelInLoop_acted hq'
      exact not_sameTimers_of_cancelled h hid hacted.timers hacted.activeTimers hgone hsame
    · intro hid
      exact ⟨_, cancelInLoop_of_not_mem hid, { h with }⟩
  · exact ⟨_, _, h.getExpired_eq now, h.withoutExpired now⟩
  · constructor
    · rintro ⟨q', ops, hread, hsame⟩
      exact h.cancelsDueOnly env hread hsame
    · exact h.handleRead env

/-- A timer that does not exist is cancelled. -/
theorem sameTimers_iff_single :
    ∃ q', (single 1 ⟨0, 5, 0, false, 1⟩).cancelInLoop (2, 1) = some q' ∧ q'.SameTimers := by
  refine ((sameTimers_iff mallocAbove (sameTimers_single 1 ⟨0, 5, 0, false, 1⟩)).2.1 (2, 1)).2 ?_
  rw [mem_activeTimers_single]
  decide

/-- The only timer of a queue is cancelled: it stays in `timers_`. -/
theorem cancelInLoop_not_sameTimers :
    (single 1 ⟨0, 5, 0, false, 1⟩).SameTimers ∧
      ¬ ∃ q', (single 1 ⟨0, 5, 0, false, 1⟩).cancelInLoop (1, 1) = some q' ∧ q'.SameTimers := by
  refine ⟨sameTimers_single _ _, ?_⟩
  rintro ⟨q', hq', hsame⟩
  have hmem : ((1, 1) : TimerId) ∈ (single 1 ⟨0, 5, 0, false, 1⟩).activeTimers :=
    mem_activeTimers_single.2 rfl
  rw [cancelInLoop_of_mem (sameTimers_single _ _) hmem] at hq'
  obtain rfl := Option.some.inj hq'
  obtain ⟨t, ht, -⟩ := hsame.timers (5, 1) (mem_timers_single.2 rfl)
  simp [single] at ht

/-! ### `timerfd_` -/

/-- `timerfd_` is armed for the earliest expiration in `timers_`. -/
def Armed (q : TimerQueue) : Prop := ∀ e, q.timers.min? = some e → q.timerfd = some e.1

/-- The earliest expiration once a timer is added. -/
def earliestWith (q : TimerQueue) (expiration : ℤ) : ℤ :=
  match q.timers.min? with
  | none => expiration
  | some e => min e.1 expiration

/-- A timer is added with `timerfd_` armed for the earliest. -/
theorem Armed.addTimerInLoop_iff (h : q.Armed) {timer : Addr} {t : Timer}
    (ht : q.heap[timer]? = some t) :
    (∃ q', q.addTimerInLoop timer = some q' ∧
        q'.timerfd = some (q.earliestWith t.expiration)) ↔
      ∀ e, q.timers.min? = some e → e.1 ≤ t.expiration := by
  rw [addTimerInLoop_eq ht, earliestWith]
  cases hmin : q.timers.min? with
  | none =>
    have hempty : q.timers.isEmpty = true :=
      Std.ExtTreeSet.isEmpty_iff.2 (Std.ExtTreeSet.min?_eq_none_iff.1 hmin)
    rw [if_pos hempty]
    exact iff_of_true ⟨_, rfl, rfl⟩ fun _ he => by cases he
  | some e =>
    have hne : ¬ q.timers.isEmpty = true := by
      intro hempty
      rw [Std.ExtTreeSet.min?_eq_none_iff.2 (Std.ExtTreeSet.isEmpty_iff.1 hempty)] at hmin
      cases hmin
    rw [if_neg hne]
    simp only [Option.some.injEq, exists_eq_left', forall_eq', h e hmin]
    exact eq_comm.trans min_eq_left_iff

/-- **Arming.** From every state in which `timerfd_` is armed for the earliest timer,
`addTimerInLoop` arms it for the smaller of that expiration and the new one exactly when the new
timer is not earlier than those in `timers_`; and `reset`, called with expired timers that are in
neither set, arms it for the earliest timer left, as far as expirations are valid. -/
theorem armed_iff (h : q.Armed) :
    (∀ timer t, q.heap[timer]? = some t →
      ((∃ q', q.addTimerInLoop timer = some q' ∧
          q'.timerfd = some (q.earliestWith t.expiration)) ↔
        ∀ e, q.timers.min? = some e → e.1 ≤ t.expiration)) ∧
    ∀ expired now, (∀ e ∈ q.timers, ∃ t, q.heap[e.2]? = some t ∧ t.expiration = e.1) →
      (∀ e ∈ q.timers, 0 < e.1) → q.Detached expired →
      ∃ q', q.reset expired now = some q' ∧ q'.Armed := by
  refine ⟨fun timer t ht => h.addTimerInLoop_iff ht, fun expired now hlisted hpos hdetached => ?_⟩
  obtain ⟨q', hq', -, harmed⟩ := reset_spec hlisted hdetached now
  refine ⟨q', hq', fun e he => ?_⟩
  rw [(reset_sets hq').1] at he
  exact harmed e he (hpos e (Std.ExtTreeSet.min?_eq_some_iff_mem_and_forall.1 he).1)

theorem min?_single {a : Addr} {t : Timer} : (single a t).timers.min? = some (t.expiration, a) := by
  refine Std.ExtTreeSet.min?_eq_some_iff_mem_and_forall.2 ⟨mem_timers_single.2 rfl, fun e he => ?_⟩
  obtain rfl := mem_timers_single.1 he
  exact Std.ReflCmp.isLE_rfl

theorem armed_single (a : Addr) (t : Timer) : (single a t).Armed := by
  rintro e he
  rw [min?_single] at he
  obtain rfl := Option.some.inj he
  rfl

/-- The only timer of a queue is added again. -/
theorem armed_iff_single :
    ∃ q', (single 1 ⟨0, 5, 0, false, 1⟩).addTimerInLoop 1 = some q' ∧
      q'.timerfd = some ((single 1 ⟨0, 5, 0, false, 1⟩).earliestWith 5) := by
  refine ((armed_iff (armed_single 1 ⟨0, 5, 0, false, 1⟩)).1 1 ⟨0, 5, 0, false, 1⟩
    (by simp [single])).2 fun e he => ?_
  rw [min?_single] at he
  obtain rfl := Option.some.inj he
  exact le_rfl

/-- A timer that is due at 3 is added to a queue whose only timer is due at 5: `timerfd_` stays armed
for 5. -/
theorem addTimerInLoop_not_armed :
    ∃ q : TimerQueue, q.Armed ∧ q.heap[2]? = some ⟨0, 3, 0, false, 2⟩ ∧ q.earliestWith 3 = 3 ∧
      ¬ ∃ q', q.addTimerInLoop 2 = some q' ∧ q'.timerfd = some (q.earliestWith 3) := by
  let q : TimerQueue :=
    { single 1 ⟨0, 5, 0, false, 1⟩ with
      heap := (single 1 ⟨0, 5, 0, false, 1⟩).heap.insert 2 ⟨0, 3, 0, false, 2⟩ }
  have hmin : q.timers.min? = some (5, 1) := min?_single
  have hheap : q.heap[2]? = some ⟨0, 3, 0, false, 2⟩ := by simp [q]
  have hwith : q.earliestWith 3 = 3 := by
    rw [earliestWith, hmin]
    decide
  have harmed : q.Armed := armed_single 1 ⟨0, 5, 0, false, 1⟩
  refine ⟨q, harmed, hheap, hwith, ?_⟩
  rintro ⟨q', hq', hfd⟩
  have hle := (harmed.addTimerInLoop_iff hheap).1 ⟨q', hq', hfd⟩ (5, 1) hmin
  norm_num at hle

end TimerQueue

end Huaweip2p
