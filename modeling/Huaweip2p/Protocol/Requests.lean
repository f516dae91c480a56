import Huaweip2p.Client.P2PClient

/-!
# Requests and answers between the programs

The messages of a client carry the decimal string of its listening port and a level byte behind a
type and an id, and their receivers take four characters of IP and the byte after them.
`decodesExactly_iff` says for which ports the two sides agree.
-/

namespace Huaweip2p

/-- The decimal string of a port. -/
def decimal (port : ℕ) : Str := (Nat.digits 10 port).reverse.map fun d => UInt8.ofNat (48 + d)

/-- A port from 1 on has four decimal characters exactly when it lies between 1000 and 9999. -/
theorem length_decimal_eq_four_iff (port : ℕ) :
    (decimal port).length = 4 ↔ 1000 ≤ port ∧ port ≤ 9999 := by
  have hle := Nat.digits_length_le_iff (b := 10) (k := 4) (by omega) port
  have hlt := Nat.lt_digits_length_iff (b := 10) (k := 3) (by omega) port
  simp only [decimal, List.length_map, List.length_reverse]
  omega

/-! ### The fields of a message -/

section Fields

variable (t i c : UInt8) (ip : Str)

theorem ipField_message : ipField ([t, i] ++ ip ++ [c]) = (ip ++ [c]).take 4 := rfl

/-- The IP field of a message is its IP exactly when that has four characters. -/
theorem ipField_message_eq_iff : ipField ([t, i] ++ ip ++ [c]) = ip ↔ ip.length = 4 := by
  rw [ipField_message]
  constructor
  · intro h
    have := congrArg List.length h
    simp only [List.length_take, List.length_append, List.length_singleton] at this
    omega
  · intro h
    rw [List.take_append_of_le_length h.ge, List.take_of_length_le h.le]

/-- A reader of requests gets the IP of a message exactly when that has four characters, and then
the type, the id and the level with it. -/
theorem val_readRequest_message_iff :
    (readRequest ([t, i] ++ ip ++ [c])).val = some ⟨t, charToInt i, ip, charToInt c⟩ ↔
      ip.length = 4 := by
  constructor
  · intro h
    rw [← ipField_message_eq_iff t i c ip]
    simp only [readRequest, Traced.val_bind, Option.bind_eq_some_iff, Traced.val_pure,
      Option.some.injEq, Request.mk.injEq] at h
    obtain ⟨_, -, _, -, field, hfield, _, -, -, -, rfl, -⟩ := h
    rw [val_substr (by simp), Option.some.injEq] at hfield
    exact hfield
  · intro h
    have hlen : ([t, i] ++ ip ++ [c]).length = 7 := by simp [h]
    rw [val_readRequest hlen.ge, (ipField_message_eq_iff t i c ip).2 h]
    simp [h]

/-- A reader of answers gets the IP of a message exactly when that has four characters, and then
the level with it. -/
theorem val_readAnswer_message_iff :
    (P2PClient.readAnswer ([t, i] ++ ip ++ [c])).val = some (ip, charToInt c) ↔
      ip.length = 4 := by
  constructor
  · intro h
    rw [← ipField_message_eq_iff t i c ip]
    simp only [P2PClient.readAnswer, Traced.val_bind, Option.bind_eq_some_iff, Traced.val_pure,
      Option.some.injEq, Prod.mk.injEq] at h
    obtain ⟨field, hfield, _, -, rfl, -⟩ := h
    rw [val_substr (by simp), Option.some.injEq] at hfield
    exact hfield
  · intro h
    have hlen : ([t, i] ++ ip ++ [c]).length = 7 := by simp [h]
    rw [P2PClient.val_readAnswer hlen.ge, (ipField_message_eq_iff t i c ip).2 h]
    simp [h]

end Fields

/-! ### Agreement -/

/-- The receivers of the messages of a client get its IP and the level it encoded: the servers from
a registration and from a request, a client from an answer; and the two that keep a table act on
them. -/
structure DecodesExactly (s : P2PCServer) : Prop where
  registration : (readRequest (P2PClient.registration s)).val =
    some ⟨chr 'a', charToInt (chr '0'), s.IP, 1⟩
  fileRequest : (readRequest (P2PClient.fileRequest s s.getFile)).val =
    some ⟨chr 'c', charToInt (chr '0'), s.IP, s.updateFile⟩
  fileReply : (P2PClient.readAnswer s.fileReply).val = some (s.IP, s.updateFile)
  onStringMessage : ∀ r : P2PCServer,
    (r.onStringMessage (P2PClient.fileRequest s s.getFile)).val =
      some (r.insertNeiIP s.IP s.updateFile, [.send r.fileReply])
  processMessage : ∀ r : P2PCServer, (P2PClient.processMessage r s.fileReply).val =
    some (((r.insertNeiIP s.IP s.updateFile).processUpdateFile s.updateFile).1,
      if s.updateFile > r.updateFile then 1 else 0)

/-- A client whose IP has four characters and whose level fits a `char` is understood. -/
theorem decodesExactly_of_length {s : P2PCServer} (h : s.IP.length = 4)
    (hfile : charToInt (intToChar s.updateFile) = s.updateFile) : DecodesExactly s := by
  have hreg := (val_readRequest_message_iff (chr 'a') (chr '0') (intToChar 1) s.IP).2 h
  have hreq := (val_readRequest_message_iff (chr 'c') (chr '0') (intToChar s.updateFile) s.IP).2 h
  have hrep := (val_readAnswer_message_iff (chr 'd') (chr '0') (intToChar s.updateFile) s.IP).2 h
  rw [charToInt_intToChar (show (-128 : ℤ) ≤ 1 by omega) (by omega)] at hreg
  rw [hfile] at hreq hrep
  refine ⟨hreg, hreq, hrep, fun r => ?_, fun r => ?_⟩
  · rw [P2PCServer.onStringMessage, Traced.val_bind]
    exact congrArg (Option.bind · _) hreq
  · have hlen : s.fileReply.length = 7 := by simp [P2PCServer.fileReply, P2PCServer.getIP, lit, h]
    have hfields := P2PClient.val_readAnswer hlen.ge
    rw [show (P2PClient.readAnswer s.fileReply).val = _ from hrep, Option.some.injEq,
      Prod.mk.injEq] at hfields
    rw [P2PClient.val_processMessage_answer r hlen.ge rfl, ← hfields.1, ← hfields.2]

/-- **Requests and answers.** At any port and any level that fits a `char`, the messages of a
client are decoded to its IP and level exactly when the port has four digits. -/
theorem decodesExactly_iff (s : P2PCServer) (port : ℕ) (h₁ : 1 ≤ s.updateFile)
    (h₂ : s.updateFile ≤ 127) :
    DecodesExactly (s.setIP (decimal port)) ↔ 1000 ≤ port ∧ port ≤ 9999 := by
  rw [← length_decimal_eq_four_iff]
  constructor
  · intro h
    have hreg := h.registration
    rw [← charToInt_intToChar (show (-128 : ℤ) ≤ 1 by omega) (by omega)] at hreg
    exact (val_readRequest_message_iff _ _ _ _).1 hreg
  · intro h
    exact decodesExactly_of_length h (charToInt_intToChar (show -128 ≤ s.updateFile by omega)
      (by show s.updateFile < 128; omega))

/-- A client on port 9001 at level 7. -/
theorem decodesExactly_of_four_digits :
    DecodesExactly (P2PCServer.setIP { P2PCServer.start with updateFile := 7 } (decimal 9001)) :=
  (decodesExactly_iff _ 9001 (by decide) (by decide)).2 (by omega)

/-- The messages of a client on port 10000 are read as coming from port 1000, at the level that is
the code of the character `'0'`. -/
theorem not_decodesExactly_of_five_digits :
    ¬ DecodesExactly (P2PCServer.start.setIP (decimal 10000)) ∧
      (readRequest (P2PClient.registration (P2PCServer.start.setIP (decimal 10000)))).val =
        some ⟨chr 'a', charToInt (chr '0'), lit "1000", 48⟩ :=
  ⟨fun h => absurd h.registration (by decide), by decide⟩

end Huaweip2p
