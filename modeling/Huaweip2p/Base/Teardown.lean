import Huaweip2p.Base.Output
import Huaweip2p.Base.PollPoller

/-!
# A connection and its poller

An established connection with the poller of its loop, in which other channels come and go: sends
and shutdowns in the loop thread and from other threads, the callbacks of its channel, the functors
it queued, and `connectDestroyed`, which runs once and at any time. `connectDestroyed` clears the
events only of a connection that is `kConnected`, and a queued `sendInLoop` does not look at the
state.

* `Attached.step?`: the steps, `none` where an assertion fails;
* `Inv`: the channel of the connection is registered until `connectDestroyed` and never after it;
* `Inv.step?_cases`: when a step is carried out;
* `teardown_iff_safe`: in which runs all steps are.
-/

namespace Huaweip2p

/-- A connection, the poller of its loop, the functors it queued, whether `connectDestroyed` ran,
and how often its channel called the poller. -/
structure Attached (κ : Type) where
  conn : TcpConnection
  poller : PollPoller κ
  pending : List (Option Str)
  destroyed : Bool
  updates : ℕ

namespace PollPoller

variable {κ : Type} [DecidableEq κ] {fd : κ → ℕ} {p : PollPoller κ} {k : κ}

/-- A slot that `removeChannel` accepts once nothing is asked for. -/
def Fits (fd : κ → ℕ) (k : κ) (interest : Channel) (pfd : PollFd) : Prop :=
  pfd.events.toInt32 = interest.events ∧ (interest.isNoneEvent = true → pfd.fd = -fd k - 1)

theorem Inv.call_update_fits (h : p.Inv fd) (hk : p.channels[(fd k : ℤ)]? = some k)
    (interest : Channel) :
    ∃ p', p.call fd (.update k interest) = some p' ∧ p'.Inv fd ∧
      p'.Shows fd k (Fits fd k interest) ∧ (p'.channel k).interest = interest := by
  obtain ⟨pfd, hpfd, howns, hcall⟩ := h.call_update hk interest
  have hlt := h.table.lt_size (slot_eq_some_iff.2 ⟨hk, rfl⟩)
  refine ⟨_, hcall, h.changed hk interest (howns.update interest), ⟨hk, ?_⟩, ?_⟩
  · show ∃ pfd, (p.pollfds.setIfInBounds (p.channel k).index.toNat _)[
      (Function.update p.channel k _ k).index.toNat]? = some pfd ∧ _
    rw [Function.update_self, Array.getElem?_setIfInBounds_self_of_lt hlt]
    exact ⟨_, rfl, Channel.toInt32_toInt16_events interest, fun hnone => if_pos hnone⟩
  · show (Function.update p.channel k _ k).interest = interest
    rw [Function.update_self]

theorem Inv.call_remove_fits (h : p.Inv fd)
    (hk : p.Shows fd k (Fits fd k (p.channel k).interest))
    (hnone : (p.channel k).interest.isNoneEvent = true) :
    ∃ p', p.call fd (.remove k) = some p' ∧ p'.Inv fd ∧ p'.channels[(fd k : ℤ)]? ≠ some k ∧
      (p'.channel k).interest = (p.channel k).interest ∧ 0 ≤ (p'.channel k).index := by
  obtain ⟨hmem, pfd, hpfd, hevents, hfd⟩ := hk
  have hasserted : p.Asserted fd (.remove k) := ⟨hmem, hnone, pfd, hpfd, hfd hnone, hevents⟩
  have hgone : (p.channels.erase (fd k : ℤ))[(fd k : ℤ)]? ≠ some k := by
    rw [Ne, getElem?_erase_eq_some_iff hmem]
    exact fun hself => hself.1 rfl
  have hindex := h.index_nonneg k hmem
  rcases h.call_remove hasserted with ⟨hlast, hcall⟩ | ⟨m, hne, hm, hcall⟩
  · exact ⟨_, hcall, h.dropped hmem hlast, hgone, rfl, hindex⟩
  · have hchannel : (p.replaced fd k m).channel k = p.channel k :=
      Function.update_of_ne hne.symm ..
    refine ⟨_, hcall, h.replaced hmem hne hm, hgone, ?_, ?_⟩
    · rw [hchannel]
    · rwa [hchannel]

/-- A channel that was removed cannot be updated. -/
theorem call_update_removed (hk : p.channels[(fd k : ℤ)]? ≠ some k)
    (hindex : 0 ≤ (p.channel k).index) (interest : Channel) :
    p.call fd (.update k interest) = none := by
  rw [← Option.not_isSome_iff_eq_none]
  intro hsome
  obtain ⟨p', hp'⟩ := Option.isSome_iff_exists.1 hsome
  have hasserted := asserted_of_call hp'
  rw [asserted_update, if_neg (not_lt.2 hindex)] at hasserted
  exact hk hasserted

end PollPoller

/-- `setState(kDisconnected)` and the interest after `disableAll`. -/
def TcpConnection.down (c : TcpConnection) : TcpConnection :=
  { c with state := .kDisconnected, channel := c.channel.disableAll }

namespace Attached

/-- What a callback of the user may do with the connection, in the loop thread. -/
inductive UserCall
  | send (data : Str) (w : Option ℕ)
  | shutdown
  deriving DecidableEq, Repr

/-- What `readFd` returns, and what the message callback does when there is data. -/
inductive ReadResult
  | data (calls : List UserCall)
  | closed
  | error
  deriving DecidableEq, Repr

inductive Event (κ : Type)
  /-- A call in the loop thread. -/
  | call (c : UserCall)
  | sendFromOtherThread (data : Str)
  | shutdownFromOtherThread
  /-- The oldest functor, with the result of the write it may make. -/
  | runFunctor (w : Option ℕ)
  /-- `poll` returned events for the channel. -/
  | handleEvent (revents : Int32) (read : ReadResult) (w : Option ℕ)
  | connectDestroyed
  /-- A call of the poller for another channel. -/
  | other (c : PollPoller.Call κ)

variable {κ : Type} [DecidableEq κ] (fd : κ → ℕ) (ch : κ)

/-- `Channel::update`. -/
def update (a : Attached κ) (conn : TcpConnection) : Option (Attached κ) := do
  let poller ← a.poller.call fd (.update ch conn.channel)
  return { a with conn := conn, poller := poller, updates := a.updates + 1 }

/-- `Channel::remove`. -/
def remove (a : Attached κ) : Option (Attached κ) := do
  guard a.conn.channel.isNoneEvent
  let poller ← a.poller.call fd (.remove ch)
  return { a with poller := poller, updates := a.updates + 1 }

/-- The end of `sendInLoop` and of `handleWrite`, which call the poller when they change the
interest. -/
def settle (a : Attached κ) (conn : TcpConnection) : Option (Attached κ) :=
  if conn.channel = a.conn.channel then some { a with conn := conn } else a.update fd ch conn

def sendInLoop (a : Attached κ) (message : Str) (w : Option ℕ) : Option (Attached κ) := do
  let conn ← a.conn.sendInLoop message w
  a.settle fd ch conn

def userCall (a : Attached κ) : UserCall → Option (Attached κ)
  | .send data w => if a.conn.state = .kConnected then a.sendInLoop fd ch data w else some a
  | .shutdown => some { a with conn := a.conn.shutdown }

/-- A functor: `sendInLoop` with its message, or `shutdownInLoop`. -/
def functor (a : Attached κ) (w : Option ℕ) : Option Str → Option (Attached κ)
  | some message => a.sendInLoop fd ch message w
  | none => some { a with conn := a.conn.shutdownInLoop }

/-- `handleClose`, up to the callbacks: what they do with a closed connection has no effect. -/
def handleClose (a : Attached κ) : Option (Attached κ) :=
  a.update fd ch a.conn.down

def handleRead (a : Attached κ) : ReadResult → Option (Attached κ)
  | .data calls => calls.foldlM (userCall fd ch) a
  | .closed => a.handleClose fd ch
  | .error => some a

def handleWrite (a : Attached κ) (w : Option ℕ) : Option (Attached κ) := do
  let conn ← a.conn.handleWrite w
  a.settle fd ch conn

def callback (read : ReadResult) (w : Option ℕ) (a : Attached κ) :
    Channel.Callback → Option (Attached κ)
  | .close => a.handleClose fd ch
  | .error => some a
  | .read => a.handleRead fd ch read
  | .write => a.handleWrite fd ch w

/-- `connectDestroyed`. -/
def connectDestroyed (a : Attached κ) : Option (Attached κ) := do
  let a ← if a.conn.state = .kConnected then
      a.update fd ch a.conn.down
    else some a
  let a ← a.remove fd ch
  return { a with destroyed := true }

/-- The channel is registered, and its slot is one that `poll` looks at. -/
def isPolled (a : Attached κ) : Bool :=
  a.poller.channels[(fd ch : ℤ)]? = some ch ∧
    (a.poller.pollfds[(a.poller.channel ch).index.toNat]?).any fun pfd => 0 ≤ pfd.fd

def step? (a : Attached κ) : Event κ → Option (Attached κ)
  | .call c => a.userCall fd ch c
  | .sendFromOtherThread data => some (if a.conn.state = .kConnected then
      { a with pending := a.pending ++ [some data] } else a)
  | .shutdownFromOtherThread => some (if a.conn.state = .kConnected then
      { a with
        conn := { a.conn with state := .kDisconnecting }
        pending := a.pending ++ [none] } else a)
  | .runFunctor w => match a.pending with
    | [] => some a
    | f :: pending => functor fd ch { a with pending := pending } w f
  | .handleEvent revents read w => if a.isPolled fd ch then
      (Channel.handleEventWithGuard (fun _ => true) revents).foldlM (callback fd ch read w) a
    else some a
  | .connectDestroyed => if a.destroyed then some a else a.connectDestroyed fd ch
  | .other c => some (if c.channel = ch then a else { a with poller := a.poller.step fd c })

/-- A step whose assertion fails ends the program; the run goes on as if it was not made. -/
def step (a : Attached κ) (e : Event κ) : Attached κ := (a.step? fd ch e).getD a

/-- An established connection, after the calls `cs` for other channels. -/
def established (cs : List (PollPoller.Call κ)) : Attached κ where
  conn := .established
  poller := (Runs.run (PollPoller.step fd) PollPoller.init cs).step fd
    (.update ch TcpConnection.established.channel)
  pending := []
  destroyed := false
  updates := 0

/-- When a step is carried out: `connectDestroyed` finds the connection `kConnected` or without
interest, and a message sent after it is empty or written at once. -/
def Safe (a : Attached κ) : Event κ → Prop
  | .connectDestroyed => a.destroyed = false →
      a.conn.state = .kConnected ∨ a.conn.channel.isNoneEvent = true
  | .runFunctor w => a.destroyed = true → ∀ message pending, a.pending = some message :: pending →
      message = [] ∨ (a.conn.outputBuffer.content = [] ∧ ∃ n, w = some n ∧ message.length ≤ n)
  | _ => True

/-- Until `connectDestroyed` the channel is registered, with a slot that fits its interest; after it
the channel is removed for good, asks for nothing, and the connection accepts nothing. -/
structure Inv (a : Attached κ) : Prop where
  poller : a.poller.Inv fd
  wellFormed : a.conn.outputBuffer.WellFormed
  interest_eq : (a.poller.channel ch).interest = a.conn.channel
  registered : a.destroyed = false →
    a.poller.Shows fd ch (PollPoller.Fits fd ch a.conn.channel)
  removed : a.destroyed = true → a.conn.channel = .init ∧ a.conn.state ≠ .kConnected ∧
    a.poller.channels[(fd ch : ℤ)]? ≠ some ch ∧ 0 ≤ (a.poller.channel ch).index

section

variable {fd ch} {a : Attached κ}

theorem Inv.update (h : a.Inv fd ch) (hopen : a.destroyed = false) {conn : TcpConnection}
    (hwf : conn.outputBuffer.WellFormed) :
    ∃ a', a.update fd ch conn = some a' ∧ a'.Inv fd ch ∧ a'.conn = conn ∧
      a'.destroyed = false := by
  obtain ⟨poller, hpoller, hinv, hshows, hinterest⟩ :=
    h.poller.call_update_fits (h.registered hopen).1 conn.channel
  refine ⟨{ a with conn := conn, poller := poller, updates := a.updates + 1 }, ?_, ?_, rfl, hopen⟩
  · rw [Attached.update, hpoller]
    rfl
  · exact ⟨hinv, hwf, hinterest, fun _ => hshows, fun hdestroyed => by simp [hopen] at hdestroyed⟩

/-- A connection may change as long as its channel stays, and, once destroyed, its state. -/
theorem Inv.with_conn (h : a.Inv fd ch) {conn : TcpConnection}
    (hwf : conn.outputBuffer.WellFormed) (hchannel : conn.channel = a.conn.channel)
    (hstate : conn.state = .kConnected → a.conn.state = .kConnected) :
    { a with conn := conn }.Inv fd ch where
  poller := h.poller
  wellFormed := hwf
  interest_eq := h.interest_eq.trans hchannel.symm
  registered hopen := by
    show a.poller.Shows fd ch (PollPoller.Fits fd ch conn.channel)
    rw [hchannel]
    exact h.registered hopen
  removed hdestroyed := by
    obtain ⟨hinit, hnot, hremoved⟩ := h.removed hdestroyed
    exact ⟨hchannel.trans hinit, fun hconn => hnot (hstate hconn), hremoved⟩

theorem Inv.settle (h : a.Inv fd ch) (hopen : a.destroyed = false) {conn : TcpConnection}
    (hwf : conn.outputBuffer.WellFormed)
    (hstate : conn.state = .kConnected → a.conn.state = .kConnected) :
    ∃ a', a.settle fd ch conn = some a' ∧ a'.Inv fd ch ∧ a'.conn = conn ∧
      a'.destroyed = false := by
  unfold Attached.settle
  split_ifs with hchannel
  · exact ⟨_, rfl, h.with_conn hwf hchannel hstate, rfl, hopen⟩
  · exact h.update hopen hwf

/-! ### Before `connectDestroyed` -/

/-- The invariant before `connectDestroyed`. -/
def Open (fd : κ → ℕ) (ch : κ) (a : Attached κ) : Prop := a.Inv fd ch ∧ a.destroyed = false

theorem Open.sendInLoop (h : a.Open fd ch) (message : Str) (w : Option ℕ) :
    ∃ a', a.sendInLoop fd ch message w = some a' ∧ a'.Open fd ch := by
  obtain ⟨conn, hconn, haccepts⟩ := a.conn.sendInLoop_spec h.1.wellFormed message w
  obtain ⟨a', ha', hinv, -, hopen⟩ := h.1.settle h.2 haccepts.wellFormed
    (fun hstate => haccepts.state_eq.symm.trans hstate)
  refine ⟨a', ?_, hinv, hopen⟩
  rw [Attached.sendInLoop, hconn]
  exact ha'

theorem Open.handleWrite (h : a.Open fd ch) (w : Option ℕ) :
    ∃ a', a.handleWrite fd ch w = some a' ∧ a'.Open fd ch := by
  obtain ⟨conn, hconn, haccepts⟩ := a.conn.handleWrite_spec h.1.wellFormed w
  obtain ⟨a', ha', hinv, -, hopen⟩ := h.1.settle h.2 haccepts.wellFormed
    (fun hstate => haccepts.state_eq.symm.trans hstate)
  refine ⟨a', ?_, hinv, hopen⟩
  rw [Attached.handleWrite, hconn]
  exact ha'

theorem Open.handleClose (h : a.Open fd ch) :
    ∃ a', a.handleClose fd ch = some a' ∧ a'.Open fd ch := by
  have hwf : a.conn.down.outputBuffer.WellFormed := h.1.wellFormed
  obtain ⟨a', ha', hinv, -, hopen⟩ := h.1.update h.2 hwf
  exact ⟨a', ha', hinv, hopen⟩

theorem Inv.shutdownInLoop (h : a.Inv fd ch) :
    { a with conn := a.conn.shutdownInLoop }.Inv fd ch :=
  h.with_conn (by simpa using h.wellFormed) (by simp) (by simp)

theorem Inv.shutdown (h : a.Inv fd ch) : { a with conn := a.conn.shutdown }.Inv fd ch := by
  unfold TcpConnection.shutdown
  split_ifs
  · exact h.with_conn (by simpa using h.wellFormed) (by simp) (by simp)
  · exact h

theorem Open.userCall (h : a.Open fd ch) (c : UserCall) :
    ∃ a', a.userCall fd ch c = some a' ∧ a'.Open fd ch := by
  cases c with
  | send data w =>
    unfold Attached.userCall
    split_ifs
    · exact h.sendInLoop data w
    · exact ⟨a, rfl, h⟩
  | shutdown => exact ⟨_, rfl, h.1.shutdown, h.2⟩

theorem Open.callback (h : a.Open fd ch) (read : ReadResult) (w : Option ℕ)
    (c : Channel.Callback) : ∃ a', a.callback fd ch read w c = some a' ∧ a'.Open fd ch := by
  cases c with
  | close => exact h.handleClose
  | error => exact ⟨a, rfl, h⟩
  | read =>
    cases read with
    | data calls => exact Runs.foldlM_invariant (fun a c h => Open.userCall h c) h calls
    | closed => exact h.handleClose
    | error => exact ⟨a, rfl, h⟩
  | write => exact h.handleWrite w

/-- `connectDestroyed` succeeds on a connection that is `kConnected` or asks for nothing, and on no
other. -/
theorem Open.connectDestroyed (h : a.Open fd ch) :
    ((a.conn.state = .kConnected ∨ a.conn.channel.isNoneEvent = true) ∧
        ∃ a', a.connectDestroyed fd ch = some a' ∧ a'.Inv fd ch) ∨
      (¬ (a.conn.state = .kConnected ∨ a.conn.channel.isNoneEvent = true) ∧
        a.connectDestroyed fd ch = none) := by
  have hremove : ∀ {b : Attached κ}, b.Open fd ch → b.conn.channel.isNoneEvent = true →
      b.conn.state ≠ .kConnected → ∃ b', b.remove fd ch = some b' ∧
        { b' with destroyed := true }.Inv fd ch := by
    intro b hb hnone hstate
    have hfits := hb.1.registered hb.2
    rw [← hb.1.interest_eq] at hfits
    obtain ⟨poller, hpoller, hinv, hgone, hinterest, hindex⟩ :=
      hb.1.poller.call_remove_fits hfits (by rw [hb.1.interest_eq, hnone])
    refine ⟨{ b with poller := poller, updates := b.updates + 1 }, ?_, ?_⟩
    · rw [Attached.remove, Runs.guard_bind hnone, hpoller]
      rfl
    · exact
        { poller := hinv
          wellFormed := hb.1.wellFormed
          interest_eq := hinterest.trans hb.1.interest_eq
          registered := fun hopen => by simp at hopen
          removed := fun _ => ⟨(Channel.isNoneEvent_iff _).1 hnone, hstate, hgone, hindex⟩ }
  unfold Attached.connectDestroyed
  by_cases hconnected : a.conn.state = .kConnected
  · have hwf : a.conn.down.outputBuffer.WellFormed := h.1.wellFormed
    obtain ⟨b, hb, hinv, hconn, hopen⟩ := h.1.update h.2 hwf
    have hnone : b.conn.channel.isNoneEvent = true := by
      rw [hconn]
      exact Channel.isNoneEvent_disableAll a.conn.channel
    have hstate : b.conn.state ≠ .kConnected := by
      rw [hconn]
      simp [TcpConnection.down]
    obtain ⟨b', hb', hinv'⟩ := hremove ⟨hinv, hopen⟩ hnone hstate
    refine .inl ⟨.inl hconnected, _, ?_, hinv'⟩
    rw [if_pos hconnected, hb, Option.bind_eq_bind, Option.bind_some]
    dsimp only
    rw [hb', Option.bind_some]
    rfl
  · rw [if_neg hconnected]
    by_cases hnone : a.conn.channel.isNoneEvent = true
    · obtain ⟨a', ha', hinv'⟩ := hremove h hnone hconnected
      refine .inl ⟨.inr hnone, _, ?_, hinv'⟩
      rw [Option.bind_eq_bind, Option.bind_some]
      dsimp only
      rw [ha', Option.bind_some]
      rfl
    · refine .inr ⟨fun hor => hor.elim hconnected hnone, ?_⟩
      have hfails : a.remove fd ch = none := by
        rw [Attached.remove, guard, if_neg hnone]
        rfl
      rw [Option.bind_eq_bind, Option.bind_some]
      dsimp only
      rw [hfails]
      rfl

/-! ### After `connectDestroyed` -/

/-- A message sent after `connectDestroyed` reaches the poller, which fails, unless it is empty or
written at once. -/
theorem Inv.sendInLoop_destroyed (h : a.Inv fd ch) (hdestroyed : a.destroyed = true)
    (message : Str) (w : Option ℕ) :
    (∃ conn, a.sendInLoop fd ch message w = some { a with conn := conn } ∧
        { a with conn := conn }.Inv fd ch ∧ (message = [] ∨
          (a.conn.outputBuffer.content = [] ∧ ∃ n, w = some n ∧ message.length ≤ n))) ∨
      (a.sendInLoop fd ch message w = none ∧ ¬ (message = [] ∨
        (a.conn.outputBuffer.content = [] ∧ ∃ n, w = some n ∧ message.length ≤ n))) := by
  obtain ⟨hinit, hstate, hgone, hindex⟩ := h.removed hdestroyed
  obtain ⟨conn, hconn, haccepts⟩ := a.conn.sendInLoop_spec h.wellFormed message w
  have hiff := TcpConnection.sendInLoop_channel_iff h.wellFormed (by rw [hinit]; rfl) hconn
  unfold Attached.sendInLoop
  rw [hconn, Option.bind_eq_bind, Option.bind_some, Attached.settle]
  by_cases hchannel : conn.channel = a.conn.channel
  · rw [if_pos hchannel]
    exact .inl ⟨conn, rfl, h.with_conn haccepts.wellFormed hchannel
      (fun hconnected => haccepts.state_eq.symm.trans hconnected), hiff.1 hchannel⟩
  · rw [if_neg hchannel, Attached.update, PollPoller.call_update_removed hgone hindex]
    exact .inr ⟨rfl, fun hsafe => hchannel (hiff.2 hsafe)⟩

/-! ### The steps -/

theorem Inv.with_pending (h : a.Inv fd ch) (pending : List (Option Str)) :
    { a with pending := pending }.Inv fd ch :=
  ⟨h.poller, h.wellFormed, h.interest_eq, h.registered, h.removed⟩

/-- A channel that is polled is registered, so `connectDestroyed` did not run. -/
theorem Inv.open_of_isPolled (h : a.Inv fd ch) (hpolled : a.isPolled fd ch = true) :
    a.Open fd ch := by
  refine ⟨h, ?_⟩
  rw [← Bool.not_eq_true]
  intro hdestroyed
  simp only [isPolled, Bool.decide_and, Bool.and_eq_true, decide_eq_true_eq] at hpolled
  exact (h.removed hdestroyed).2.2.1 hpolled.1

theorem Inv.runFunctor (h : a.Inv fd ch) (w : Option ℕ) :
    (∃ a', a.step? fd ch (.runFunctor w) = some a' ∧ a'.Inv fd ch ∧
        (a.destroyed = true → a'.updates = a.updates) ∧ a.Safe (.runFunctor w)) ∨
      (a.step? fd ch (.runFunctor w) = none ∧ ¬ a.Safe (.runFunctor w)) := by
  unfold Attached.step?
  dsimp only
  cases hpending : a.pending with
  | nil => exact .inl ⟨a, rfl, h, fun _ => rfl, fun _ _ _ hcons => by simp [hpending] at hcons⟩
  | cons f pending =>
    cases f with
    | none =>
      exact .inl ⟨_, rfl, (h.with_pending pending).shutdownInLoop, fun _ => rfl,
        fun _ _ _ hcons => by simp [hpending] at hcons⟩
    | some message =>
      have hsafe : a.Safe (.runFunctor w) ↔ (a.destroyed = true → message = [] ∨
          (a.conn.outputBuffer.content = [] ∧ ∃ n, w = some n ∧ message.length ≤ n)) := by
        constructor
        · intro hs hdestroyed
          exact hs hdestroyed message pending hpending
        · intro hs hdestroyed m rest hcons
          rw [hpending] at hcons
          obtain ⟨hm, -⟩ := List.cons.inj hcons
          obtain rfl := Option.some.inj hm
          exact hs hdestroyed
      rw [hsafe]
      by_cases hdestroyed : a.destroyed = true
      · rcases (h.with_pending pending).sendInLoop_destroyed hdestroyed message w with
          ⟨conn, ha', hinv, hwritten⟩ | ⟨ha', hnot⟩
        · exact .inl ⟨_, ha', hinv, fun _ => rfl, fun _ => hwritten⟩
        · exact .inr ⟨ha', fun hs => hnot (hs hdestroyed)⟩
      · have hopen : Open fd ch { a with pending := pending } :=
          ⟨h.with_pending pending, Bool.not_eq_true _ ▸ hdestroyed⟩
        obtain ⟨a', ha', hinv, -⟩ := hopen.sendInLoop message w
        exact .inl ⟨a', ha', hinv, fun hd => absurd hd hdestroyed, fun hd => absurd hd hdestroyed⟩

/-- The step lemma: a safe step is carried out and keeps the invariant, and after
`connectDestroyed` leaves the poller alone; an unsafe one fails. -/
theorem Inv.step?_cases (h : a.Inv fd ch) (e : Event κ) :
    (∃ a', a.step? fd ch e = some a' ∧ a'.Inv fd ch ∧
        (a.destroyed = true → a'.updates = a.updates) ∧ a.Safe e) ∨
      (a.step? fd ch e = none ∧ ¬ a.Safe e) := by
  cases e with
  | runFunctor w => exact h.runFunctor w
  | call c =>
    refine .inl ?_
    cases hdestroyed : a.destroyed with
    | false =>
      obtain ⟨a', ha', hinv, -⟩ := Open.userCall ⟨h, hdestroyed⟩ c
      exact ⟨a', ha', hinv, by simp, trivial⟩
    | true =>
      have hstate := (h.removed hdestroyed).2.1
      cases c with
      | send data w => exact ⟨a, if_neg hstate, h, fun _ => rfl, trivial⟩
      | shutdown => exact ⟨_, rfl, h.shutdown, fun _ => rfl, trivial⟩
  | sendFromOtherThread data =>
    refine .inl ⟨_, rfl, ?_, fun _ => ?_, trivial⟩
    · split_ifs
      · exact h.with_pending _
      · exact h
    · split_ifs <;> rfl
  | shutdownFromOtherThread =>
    refine .inl ⟨_, rfl, ?_, fun _ => ?_, trivial⟩
    · split_ifs with hconnected
      · have hconn : { a with conn := { a.conn with state := .kDisconnecting } }.Inv fd ch :=
          h.with_conn h.wellFormed rfl fun _ => hconnected
        exact hconn.with_pending _
      · exact h
    · split_ifs <;> rfl
  | handleEvent revents read w =>
    refine .inl ?_
    unfold Attached.step?
    dsimp only
    by_cases hpolled : a.isPolled fd ch = true
    · rw [if_pos hpolled]
      obtain ⟨a', ha', hinv, -⟩ := Runs.foldlM_invariant
        (fun a c h => Open.callback h read w c) (h.open_of_isPolled hpolled)
        (Channel.handleEventWithGuard (fun _ => true) revents)
      have hopen := (h.open_of_isPolled hpolled).2
      exact ⟨a', ha', hinv, fun hdestroyed => by simp [hopen] at hdestroyed, trivial⟩
    · rw [if_neg hpolled]
      exact ⟨a, rfl, h, fun _ => rfl, trivial⟩
  | connectDestroyed =>
    unfold Attached.step?
    dsimp only
    cases hdestroyed : a.destroyed with
    | true => exact .inl ⟨a, rfl, h, fun _ => rfl, fun hopen => by simp [hdestroyed] at hopen⟩
    | false =>
      have hopen : a.Open fd ch := ⟨h, hdestroyed⟩
      rcases hopen.connectDestroyed with ⟨hsafe, a', ha', hinv⟩ | ⟨hnot, ha'⟩
      · exact .inl ⟨a', ha', hinv, by simp, fun _ => hsafe⟩
      · exact .inr ⟨ha', fun hs => hnot (hs hdestroyed)⟩
  | other c =>
    refine .inl ⟨_, rfl, ?_, fun _ => ?_, trivial⟩
    · split_ifs with hc
      · exact h
      · have huntouched := h.poller.step_of_ne (k := ch) hc
        exact
          { poller := h.poller.step c
            wellFormed := h.wellFormed
            interest_eq := huntouched.interest_eq.trans h.interest_eq
            registered := fun hopen => huntouched.shows _ (h.registered hopen)
            removed := fun hdestroyed => by
              obtain ⟨hinit, hstate, hgone, hindex⟩ := h.removed hdestroyed
              exact ⟨hinit, hstate, fun hk => hgone (huntouched.registered_iff.1 hk),
                huntouched.index_nonneg hindex⟩ }
    · split_ifs <;> rfl

theorem inv_established (cs : List (PollPoller.Call κ))
    (hnew : ((Runs.run (PollPoller.step fd) PollPoller.init cs).channel ch).index < 0)
    (hfree : (fd ch : ℤ) ∉ (Runs.run (PollPoller.step fd) PollPoller.init cs).channels) :
    (established fd ch cs).Inv fd ch := by
  have h : (Runs.run (PollPoller.step fd) PollPoller.init cs).Inv fd := PollPoller.inv_run cs
  unfold established
  generalize Runs.run (PollPoller.step fd) PollPoller.init cs = p at hnew hfree h
  have hstep : p.step fd (.update ch TcpConnection.established.channel) =
      p.added fd ch TcpConnection.established.channel := by
    unfold PollPoller.step
    rw [PollPoller.call_update_new hnew hfree]
    rfl
  rw [hstep]
  refine ⟨h.added hfree _, Buffer.wellFormed_init, ?_, fun _ => ⟨?_, ?_⟩, fun hdestroyed => ?_⟩
  · show (Function.update p.channel ch _ ch).interest = _
    rw [Function.update_self]
  · exact (PollPoller.getElem?_insert_eq_some_iff hfree).2 (.inl ⟨rfl, rfl⟩)
  · show ∃ pfd, (p.pollfds.push _)[(Function.update p.channel ch _ ch).index.toNat]? = some pfd ∧ _
    rw [Function.update_self, Int.toNat_natCast, Array.getElem?_push_size]
    have hsome : TcpConnection.established.channel.isNoneEvent ≠ true := by decide
    exact ⟨_, rfl, Channel.toInt32_toInt16_events _, fun hnone => absurd hnone hsome⟩
  · simp at hdestroyed

end

/-- In a run of an established connection every step is carried out, and none after
`connectDestroyed` reaches the poller, exactly when every step is safe. -/
theorem teardown_iff_safe (cs : List (PollPoller.Call κ))
    (hnew : ((Runs.run (PollPoller.step fd) PollPoller.init cs).channel ch).index < 0)
    (hfree : (fd ch : ℤ) ∉ (Runs.run (PollPoller.step fd) PollPoller.init cs).channels)
    (es : List (Event κ)) :
    Runs.EveryStep (step fd ch) (fun a e a' => (a.step? fd ch e).isSome ∧
        (a.destroyed = true → a'.updates = a.updates)) (established fd ch cs) es ↔
      Runs.EveryStep (step fd ch) (fun a e _ => a.Safe e) (established fd ch cs) es := by
  apply Runs.everyStep_getD_iff (I := fun a : Attached κ => a.Inv fd ch)
  · intro a e h
    rcases h.step?_cases e with ⟨a', ha', hinv, hupdates, hsafe⟩ | ⟨ha', hnot⟩
    · exact .inl ⟨a', ha', hinv, ⟨by simp [ha'], hupdates⟩, hsafe⟩
    · exact .inr ⟨ha', fun hq => by simp [ha'] at hq, hnot⟩
  · exact inv_established cs hnew hfree

/-- A connection that is shut down and read, on descriptor 5. -/
theorem teardown_iff_safe_five :
    Runs.EveryStep (step id 5) (fun a e a' => (a.step? id 5 e).isSome ∧
        (a.destroyed = true → a'.updates = a.updates)) (established id 5 [])
        [.call .shutdown, .handleEvent 1 .closed none, .connectDestroyed] ↔
      Runs.EveryStep (step id 5) (fun a e _ => a.Safe e) (established id 5 [])
        [.call .shutdown, .handleEvent 1 .closed none, .connectDestroyed] :=
  teardown_iff_safe id 5 [] (by decide +kernel) (by decide +kernel) _

/-- Two runs that fail. A connection that is shutting down when the server is destroyed still asks
for reading. A message that another thread sent before the server was destroyed asks for writing
after it. -/
theorem teardown_fails :
    (¬ Runs.EveryStep (step id 5) (fun a e a' => (a.step? id 5 e).isSome ∧
        (a.destroyed = true → a'.updates = a.updates)) (established id 5 [])
        [.call .shutdown, .connectDestroyed]) ∧
    ¬ Runs.EveryStep (step id 5) (fun a e a' => (a.step? id 5 e).isSome ∧
        (a.destroyed = true → a'.updates = a.updates)) (established id 5 [])
        [.sendFromOtherThread (lit "m"), .connectDestroyed, .runFunctor (some 0)] := by
  constructor
  · intro h
    obtain ⟨hsome, -⟩ := h [.call .shutdown] .connectDestroyed [] rfl
    exact absurd hsome (by decide +kernel)
  · intro h
    obtain ⟨hsome, -⟩ := h [.sendFromOtherThread (lit "m"), .connectDestroyed]
      (.runFunctor (some 0)) [] rfl
    exact absurd hsome (by decide +kernel)

end Attached

end Huaweip2p
