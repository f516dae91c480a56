import Huaweip2p.Base.Message
import Huaweip2p.Lib.FirstEntry

/-!
# The peer side of the client

The static members of `P2PCServer`, which the two halves of a client program share, and the
handler for the requests of other clients. `findNeiIP_eq_iff` says which neighbour the ordered
scan of the table selects.
-/

namespace Huaweip2p

/-- The static members of `P2PCServer`. -/
structure P2PCServer where
  neiIP : Std.ExtTreeMap Str ℤ
  updateFile : ℤ
  IP : Str

namespace P2PCServer

/-- The members before `main` starts. -/
def start : P2PCServer where
  neiIP := ∅
  updateFile := 1
  IP := []

/-- `setIP`. -/
def setIP (s : P2PCServer) (ip : Str) : P2PCServer := { s with IP := ip }

/-- `getIP`. -/
def getIP (s : P2PCServer) : Str := s.IP

/-- The level that `insertNeiIP` stores: 1 stands for no information, which is assumed to be 101. -/
def storedFile (file : ℤ) : ℤ := if file = 1 then 101 else file

/-- `insertNeiIP`. -/
def insertNeiIP (s : P2PCServer) (ip : Str) (file : ℤ) : P2PCServer :=
  { s with neiIP := s.neiIP.insert ip (storedFile file) }

/-- `removeNeiIP`. -/
def removeNeiIP (s : P2PCServer) (ip : Str) : P2PCServer := { s with neiIP := s.neiIP.erase ip }

/-- The test of the loop of `findNeiIP`. -/
def ahead (level : ℤ) (e : Str × ℤ) : Bool := e.2 > level && e.1 ≠ lit "1111"

/-- `findNeiIP`: the first neighbour ahead of the level, or the server. -/
def findNeiIP (s : P2PCServer) (level : ℤ) : Str :=
  match s.neiIP.toList.find? (ahead level) with
  | some e => e.1
  | none => lit "1111"

/-- `getFile`. -/
def getFile (s : P2PCServer) : ℤ := s.updateFile

/-- `processUpdateFile`. -/
def processUpdateFile (s : P2PCServer) (level : ℤ) : P2PCServer × ℤ :=
  if level > s.updateFile then ({ s with updateFile := s.updateFile + 1 }, 1) else (s, 0)

/-- The answer to a request: what `P2PCServer::onStringMessage` sends. -/
def fileReply (s : P2PCServer) : Str := lit "d0" ++ s.getIP ++ [intToChar s.getFile]

/-- `P2PCServer::onStringMessage`. -/
def onStringMessage (s : P2PCServer) (message : Str) : Traced Access (P2PCServer × List Effect) := do
  let r ← readRequest message
  let s := s.insertNeiIP r.ip r.reqfile
  return (s, [.send s.fileReply])

variable (s : P2PCServer) (ip : Str) (file : ℤ)

@[simp] theorem updateFile_insertNeiIP : (s.insertNeiIP ip file).updateFile = s.updateFile := rfl

@[simp] theorem IP_insertNeiIP : (s.insertNeiIP ip file).IP = s.IP := rfl

theorem getElem?_insertNeiIP (k : Str) :
    (s.insertNeiIP ip file).neiIP[k]? = if ip = k then some (storedFile file) else s.neiIP[k]? := by
  simp only [insertNeiIP, Std.ExtTreeMap.getElem?_insert, Std.LawfulEqCmp.compare_eq_iff_eq]

@[simp] theorem ahead_iff (level : ℤ) (e : Str × ℤ) :
    ahead level e = true ↔ level < e.2 ∧ e.1 ≠ lit "1111" := by
  simp [ahead]

/-- A neighbour other than the server is selected exactly when it is ahead of the level and no
neighbour with a smaller IP is. -/
theorem findNeiIP_eq_iff {s : P2PCServer} {level : ℤ} {p : Str} (hp : p ≠ lit "1111") :
    s.findNeiIP level = p ↔
      (∃ file, s.neiIP[p]? = some file ∧ level < file) ∧
        ∀ k file, s.neiIP[k]? = some file → level < file → k ≠ lit "1111" →
          compare k p ≠ .lt := by
  have hfind : s.findNeiIP level = p ↔
      ∃ file, s.neiIP.toList.find? (ahead level) = some (p, file) := by
    rw [findNeiIP]
    cases he : s.neiIP.toList.find? (ahead level) with
    | none =>
      simp only [reduceCtorEq, exists_false, iff_false]
      exact Ne.symm hp
    | some e =>
      constructor
      · rintro rfl
        exact ⟨e.2, rfl⟩
      · rintro ⟨file, hfile⟩
        rw [Option.some.injEq] at hfile
        rw [hfile]
  rw [hfind]
  simp only [Std.ExtTreeMap.find?_toList_eq_some_iff, ahead_iff, ne_eq, hp, not_false_eq_true,
    and_true]
  constructor
  · rintro ⟨file, hget, hlt, hmin⟩
    exact ⟨⟨file, hget, hlt⟩, fun k v hk hv hne => hmin k v hk ⟨hv, hne⟩⟩
  · rintro ⟨⟨file, hget, hlt⟩, hmin⟩
    exact ⟨file, hget, hlt, fun k v hk hv => hmin k v hk hv.1 hv.2⟩

/-- A request is read without leaving the message exactly when it has its seven bytes. -/
theorem inBounds_onStringMessage_iff (s : P2PCServer) (m : Str) :
    (s.onStringMessage m).All Access.InBounds ↔ 7 ≤ m.length := by
  simp only [onStringMessage, Traced.all_bind, inBounds_readRequest_iff, Traced.all_pure,
    implies_true, and_true]

end P2PCServer

end Huaweip2p
