import Huaweip2p.Client.P2PClient
import Huaweip2p.Server.Registration
import Huaweip2p.Server.P2PServer

/-!
# Reads of the three message handlers

The codec passes on a message of any length, and no handler looks at the length before it reads.
`handlers_inBounds_iff` says which messages each of the three handlers reads without leaving them.
-/

namespace Huaweip2p

open UserCatalogue

variable {σ : Type} [UserSet σ]

omit [UserSet σ] in
/-- A lookup reads nothing of the message. -/
theorem UserCatalogue.inBounds_lookup (c : UserCatalogue σ) (ip : Str) :
    (c.lookup ip).All Access.InBounds := by
  simp [lookup, Access.InBounds]

theorem UserCatalogue.inBounds_hasNeighbor (c : UserCatalogue σ) (ip : Str) :
    (c.hasNeighbor ip).All Access.InBounds := by
  simp [hasNeighbor, Traced.all_bind, c.inBounds_lookup]

theorem P2PServer.inBounds_processMessage (c : UserCatalogue σ) (ip : Str) :
    (P2PServer.processMessage c ip).All Access.InBounds := by
  rw [P2PServer.processMessage, Traced.all_bind]
  refine ⟨c.inBounds_hasNeighbor ip, fun n _ => ?_⟩
  split_ifs
  · simp [P2PServer.retNeighborIP, getNeighborUsers, Traced.all_bind, c.inBounds_lookup]
  · simp

/-- The server stays inside a message exactly when it has the seven bytes of a request. -/
theorem P2PServer.inBounds_onStringMessage_iff (c : UserCatalogue σ) (w : Str → Bool) (m : Str) :
    (P2PServer.onStringMessage c w m).All Access.InBounds ↔ 7 ≤ m.length := by
  rw [P2PServer.onStringMessage, Traced.all_bind, inBounds_readRequest_iff]
  apply and_iff_left
  intro r _
  rw [Traced.all_bind]
  refine ⟨c.inBounds_hasNeighbor r.ip, fun n _ => ?_⟩
  split_ifs
  · simp [Traced.all_bind, P2PServer.inBounds_processMessage]
  · simp
  · simp

/-- **Reads.** Whatever the catalogue, the probes and the client, the two servers stay inside a
message exactly when it has seven bytes, and the client exactly when it has the bytes that its type
and count ask for. -/
theorem handlers_inBounds_iff (c : Catalogue) (w : Str → Bool) (s : P2PCServer) (m : Str) :
    ((P2PServer.onStringMessage c w m).All Access.InBounds ↔ 7 ≤ m.length) ∧
      ((s.onStringMessage m).All Access.InBounds ↔ 7 ≤ m.length) ∧
      ((P2PClient.processMessage s m).All Access.InBounds ↔ P2PClient.readLength m ≤ m.length) :=
  ⟨P2PServer.inBounds_onStringMessage_iff c w m, s.inBounds_onStringMessage_iff m,
    P2PClient.inBounds_processMessage_iff s m⟩

/-- The empty message leaves all three handlers, and a neighbour list of four bytes with the count
127 makes the client throw. -/
theorem handlers_not_inBounds :
    ¬ (P2PServer.onStringMessage (init (lit "1111") 100 : Catalogue) (fun _ => true) []).All
        Access.InBounds ∧
      ¬ (P2PCServer.start.onStringMessage []).All Access.InBounds ∧
      ¬ (P2PClient.processMessage P2PCServer.start []).All Access.InBounds ∧
      ¬ (P2PClient.processMessage P2PCServer.start (lit "b0" ++ [127, 0])).All
        Access.InBounds := by
  decide +kernel

end Huaweip2p
