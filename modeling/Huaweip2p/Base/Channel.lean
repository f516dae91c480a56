import Huaweip2p.Base.TcpConnection

/-!
# Channels

The interest of a `Channel` as the mask that `poll` gets, the calls that change it, and the
callbacks that `handleEventWithGuard` makes for a mask that `poll` returns.
-/

namespace Huaweip2p

/-! ### The masks of `poll(2)` -/

def POLLIN : Int32 := 0x001
def POLLPRI : Int32 := 0x002
def POLLOUT : Int32 := 0x004
def POLLERR : Int32 := 0x008
def POLLHUP : Int32 := 0x010
def POLLNVAL : Int32 := 0x020
def POLLRDHUP : Int32 := 0x2000

namespace Channel

def kNoneEvent : Int32 := 0
def kReadEvent : Int32 := POLLIN ||| POLLPRI
def kWriteEvent : Int32 := POLLOUT

/-- A channel after its construction. -/
def init : Channel := ⟨false, false⟩

/-- `events_`. -/
def events (c : Channel) : Int32 :=
  (if c.reading then kReadEvent else kNoneEvent) ||| (if c.writing then kWriteEvent else kNoneEvent)

def isNoneEvent (c : Channel) : Bool := c.events = kNoneEvent

def enableReading (c : Channel) : Channel := { c with reading := true }

def disableAll (_ : Channel) : Channel := init

theorem isNoneEvent_iff (c : Channel) : c.isNoneEvent = true ↔ c = init := by
  obtain ⟨reading, writing⟩ := c
  cases reading <;> cases writing <;> decide

@[simp] theorem isNoneEvent_init : init.isNoneEvent = true := by decide

@[simp] theorem isNoneEvent_disableAll (c : Channel) : c.disableAll.isNoneEvent = true :=
  isNoneEvent_init

@[simp] theorem isNoneEvent_enableReading (c : Channel) : c.enableReading.isNoneEvent = false := by
  obtain ⟨reading, writing⟩ := c
  cases reading <;> cases writing <;> decide

@[simp] theorem isNoneEvent_enableWriting (c : Channel) : c.enableWriting.isNoneEvent = false := by
  obtain ⟨reading, writing⟩ := c
  cases reading <;> cases writing <;> decide

/-- What is left after `disableWriting` was there before. -/
theorem isNoneEvent_disableWriting {c : Channel} (h : c.isNoneEvent = true) :
    c.disableWriting.isNoneEvent = true := by
  rw [isNoneEvent_iff] at h
  subst h
  decide

/-- The mask fits into the `short` of a `pollfd`. -/
@[simp] theorem toInt32_toInt16_events (c : Channel) : c.events.toInt16.toInt32 = c.events := by
  obtain ⟨reading, writing⟩ := c
  cases reading <;> cases writing <;> decide

/-- The callbacks of a `Channel`. -/
inductive Callback
  | close
  | error
  | read
  | write
  deriving DecidableEq, Repr

/-! ### The conditions of `handleEventWithGuard` -/

abbrev Closes (revents : Int32) : Prop := revents &&& POLLHUP ≠ 0 ∧ ¬ revents &&& POLLIN ≠ 0

abbrev Errs (revents : Int32) : Prop := revents &&& (POLLERR ||| POLLNVAL) ≠ 0

abbrev Reads (revents : Int32) : Prop := revents &&& (POLLIN ||| POLLPRI ||| POLLRDHUP) ≠ 0

abbrev Writes (revents : Int32) : Prop := revents &&& POLLOUT ≠ 0

/-- `handleEventWithGuard`: the callbacks made for `revents`, of those that are set. -/
def handleEventWithGuard (isSet : Callback → Bool) (revents : Int32) : List Callback :=
  List.filter isSet <|
    (if Closes revents then [Callback.close] else []) ++
    (if Errs revents then [Callback.error] else []) ++
    (if Reads revents then [Callback.read] else []) ++
    (if Writes revents then [Callback.write] else [])

section

variable {σ : Type} (isSet : Callback → Bool) (f : σ → Callback → Option σ)

/-- A callback, if `P` holds and it is set. -/
def callIf (P : Prop) [Decidable P] (c : Callback) (s : σ) : Option σ :=
  if P ∧ isSet c = true then f s c else some s

/-- The callbacks one after the other. -/
theorem foldlM_handleEventWithGuard (revents : Int32) (s : σ) :
    (handleEventWithGuard isSet revents).foldlM f s =
      (((callIf isSet f (Closes revents) .close s).bind
        (callIf isSet f (Errs revents) .error)).bind
        (callIf isSet f (Reads revents) .read)).bind
        (callIf isSet f (Writes revents) .write) := by
  have hone : ∀ (P : Prop) [Decidable P] (c : Callback) (s : σ),
      ((if P then [c] else []).filter isSet).foldlM f s = callIf isSet f P c s := by
    intro P _ c s
    unfold callIf
    by_cases hP : P <;> cases hc : isSet c <;> simp [hP, hc]
  simp only [handleEventWithGuard, List.filter_append, List.foldlM_append, hone,
    Option.bind_eq_bind]

end

end Channel

end Huaweip2p
