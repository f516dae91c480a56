import Huaweip2p.Base.Delivery
import Huaweip2p.Base.Output
import Huaweip2p.Server.P2PServer

/-!
# The half-close of the server

The server answers a registration and shuts the connection down at once. `output_run` says what
every connection owes its sender until it is closed, and that the half-close of the server comes
behind its whole answer.
-/

namespace Huaweip2p

open UserCatalogue LengthHeaderCodec

/-- `LengthHeaderCodec::send` sends the frame of the message. -/
theorem LengthHeaderCodec.send_eq_sendData (conn : TcpConnection) (message : Str)
    (w : Option ℕ) : LengthHeaderCodec.send conn message w = conn.sendData (frame message) w := by
  obtain ⟨buf, hbuf, -, hcontent⟩ := toBuffer_spec message
  rw [← hcontent, ← TcpConnection.map_fst_send, LengthHeaderCodec.send, hbuf,
    Option.bind_eq_bind, Option.bind_some]
  cases conn.send buf w <;> rfl

/-- An effect of a handler as an event of the connection, with the result of the write that a send
may make. -/
def Effect.event (w : Option ℕ) : Effect → Output.Event
  | .send message => .send (frame message) w
  | .shutdown => .shutdown

section

variable {σ : Type} [UserSet σ]

/-- Only the answer to a registration shuts the connection down. -/
theorem P2PServer.effects_of_shutdown {c c' : UserCatalogue σ} {isClientWorking : Str → Bool}
    {m : Str} {effects : List Effect}
    (h : (P2PServer.onStringMessage c isClientWorking m).val = some (c', effects))
    (hshutdown : Effect.shutdown ∈ effects) :
    ∃ reply, effects = [.send (lit "b0" ++ reply), .shutdown] := by
  simp only [P2PServer.onStringMessage, Traced.val_bind, Option.bind_eq_some_iff] at h
  obtain ⟨r, -, n, -, h⟩ := h
  split_ifs at h
  · simp only [Traced.val_bind, Option.bind_eq_some_iff, Traced.val_pure, Option.some.injEq,
      Prod.mk.injEq] at h
    obtain ⟨reply, -, -, rfl⟩ := h
    exact ⟨reply, rfl⟩
  · simp only [Traced.val_pure, Option.some.injEq, Prod.mk.injEq] at h
    obtain ⟨-, rfl⟩ := h
    simp at hshutdown
  · simp only [Traced.val_pure, Option.some.injEq, Prod.mk.injEq] at h
    obtain ⟨-, rfl⟩ := h
    simp at hshutdown

/-- A message sent on an open connection that is then shut down is written in full before the
half-close. -/
theorem Output.Inv.send_shutdown {s : Output} (h : s.Inv) (hs : s.shutdownCalled = false)
    (data : Str) (w : Option ℕ) (later : List Output.Event) :
    ∃ s', (Output.Event.send data w :: .shutdown :: later).foldlM Output.step s = some s' ∧
      (0 < s'.conn.shutdownWrites → s'.conn.written = s.accepted.flatten ++ data) := by
  have hstate : s.conn.state = .kConnected := by simp [h.state_eq, hs]
  obtain ⟨s₁, hs₁, h₁, -⟩ := h.step (.send data w)
  have haccepted : s₁.accepted = s.accepted ++ [data] := by
    simp only [Output.step, Option.bind_eq_bind, Option.bind_eq_some_iff] at hs₁
    obtain ⟨conn, -, hs₁⟩ := hs₁
    obtain rfl := Option.some.inj hs₁
    exact if_pos hstate
  obtain ⟨s₂, hs₂, h₂, -⟩ := h₁.step .shutdown
  have hcalled : s₂.shutdownCalled = true ∧ s₂.accepted = s₁.accepted := by
    obtain rfl := Option.some.inj hs₂
    exact ⟨rfl, rfl⟩
  obtain ⟨s', hs', h', hkept⟩ := h₂.run later
  refine ⟨s', ?_, fun hclosed => ?_⟩
  · rw [List.foldlM_cons, hs₁]
    show (Output.Event.shutdown :: later).foldlM Output.step s₁ = some s'
    rw [List.foldlM_cons, hs₂]
    exact hs'
  · rw [(h'.written_eq hclosed).2, hkept hcalled.1, hcalled.2, haccepted, List.flatten_append,
      List.flatten_singleton]

variable (σ)

/-- **Output.** In every run of a connection until its close, no assertion fails; the bytes written
and the bytes that wait are what was accepted; the channel asks for writing exactly while bytes
wait; the half-close is made at most once, after `shutdown` and when everything accepted is
written; after `shutdown` nothing more is accepted; and where the server answers and shuts down, it
has written its answer when it makes the half-close. -/
theorem output_run (es : List Output.Event) :
    ∃ s, es.foldlM Output.step Output.init = some s ∧
      s.conn.written ++ s.conn.outputBuffer.content = s.accepted.flatten ∧
      (s.conn.channel.isWriting = true ↔ s.conn.outputBuffer.content ≠ []) ∧
      s.conn.shutdownWrites ≤ 1 ∧
      (0 < s.conn.shutdownWrites →
        s.shutdownCalled = true ∧ s.conn.written = s.accepted.flatten) ∧
      (s.shutdownCalled = true → ∀ later : List Output.Event, ∃ s',
        later.foldlM Output.step s = some s' ∧ s'.accepted = s.accepted) ∧
      (s.shutdownCalled = false → ∀ (c c' : UserCatalogue σ) isClientWorking m effects,
        (P2PServer.onStringMessage c isClientWorking m).val = some (c', effects) →
        Effect.shutdown ∈ effects → ∃ reply, effects = [.send (lit "b0" ++ reply), .shutdown] ∧
          ∀ w later, ∃ s',
            (effects.map (Effect.event w) ++ later).foldlM Output.step s = some s' ∧
            (0 < s'.conn.shutdownWrites →
              s'.conn.written = s.accepted.flatten ++ frame (lit "b0" ++ reply))) := by
  obtain ⟨s, hs, h, -⟩ := Output.inv_init.run es
  refine ⟨s, hs, h.accepted_eq, h.writes, ?_, h.written_eq, fun hcalled later => ?_, ?_⟩
  · rw [h.shutdownWrites_eq]
    split_ifs
    · exact le_refl 1
    · exact Nat.zero_le 1
  · obtain ⟨s', hs', -, hkept⟩ := h.run later
    exact ⟨s', hs', hkept hcalled⟩
  · intro hopen c c' isClientWorking m effects hval hshutdown
    obtain ⟨reply, rfl⟩ := P2PServer.effects_of_shutdown hval hshutdown
    exact ⟨reply, rfl, fun w later => h.send_shutdown hopen _ w later⟩

end

end Huaweip2p
