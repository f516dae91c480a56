import Huaweip2p.Base.Access

/-!
# Requests

Both servers take a message apart in the same way: a type at 0, an id at 1, four characters of IP
from 2 on and a level at 6. What they answer with is a list of `Effect`s on the connection.
-/

namespace Huaweip2p

/-- What a handler does to the connection the message came from. -/
inductive Effect
  /-- `codec_.send(conn, message)`. -/
  | send (message : Str)
  /-- `conn->shutdown()`. -/
  | shutdown
  deriving DecidableEq, Repr

/-- The fields of a request. -/
structure Request where
  type : UInt8
  id : ℤ
  ip : Str
  reqfile : ℤ
  deriving DecidableEq, Repr

/-- The first four lines of `P2PServer::onStringMessage` and of `P2PCServer::onStringMessage`. -/
def readRequest (message : Str) : Traced Access Request := do
  let type ← charAt message 0
  let id ← charAt message 1
  let ip ← substr message 2 4
  let reqfile ← charAt message 6
  return ⟨type, charToInt id, ip, charToInt reqfile⟩

/-- A request is read without leaving the message exactly when the message has its seven bytes. -/
theorem inBounds_readRequest_iff (m : Str) :
    (readRequest m).All Access.InBounds ↔ 7 ≤ m.length := by
  simp only [readRequest, inBounds_charAt_bind_iff, inBounds_substr_bind_iff, Traced.all_pure]
  constructor
  · rintro ⟨-, -, -, h, -⟩
    exact h
  · intro h
    exact ⟨by omega, by omega, by omega, h, trivial⟩

/-- The IP field of a message. -/
def ipField (m : Str) : Str := (m.drop 2).take 4

theorem val_readRequest {m : Str} (h : 6 < m.length) :
    (readRequest m).val =
      some ⟨m[0], charToInt m[1], ipField m, charToInt m[6]⟩ := by
  simp only [readRequest, Traced.val_bind, val_charAt (show 0 < m.length by omega),
    val_charAt (show 1 < m.length by omega), val_substr (show 2 ≤ m.length by omega),
    val_charAt (show 6 < m.length by omega), Option.bind_some, Traced.val_pure, ipField]

theorem found_readRequest (m : Str) : (readRequest m).All Access.Found := by
  simp [readRequest, Traced.all_bind, charAt, substr, Access.Found]

end Huaweip2p
