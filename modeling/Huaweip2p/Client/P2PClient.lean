import Huaweip2p.Client.P2PCServer

/-!
# The asking side of the client

The messages a client sends and `P2PClient::processMessage`, the parser of what it gets back.
`inBounds_processMessage_iff` gives the length a message must have to be read without leaving it,
`findNeiIP_processMessage_ne_iff` what becomes of a peer that has just answered that it is not
ahead.
-/

namespace Huaweip2p.P2PClient

open P2PCServer

/-- The registration that `onConnection` sends on the first connection. -/
def registration (s : P2PCServer) : Str := lit "a0" ++ s.getIP ++ [intToChar 1]

/-- The request that `onConnection` and `onStringMessage` send for the given file. -/
def fileRequest (s : P2PCServer) (file : ℤ) : Str := lit "c0" ++ s.getIP ++ [intToChar file]

/-- The loop of the `'b'` branch from round `i` on, with `n` rounds to go. -/
def storeNeighbours (message : Str) : ℕ → ℕ → P2PCServer → Traced Access P2PCServer
  | 0, _, s => pure s
  | n + 1, i, s => do
    let ip ← substr message (3 + i * 5) 4
    let file ← charAt message (7 + i * 5)
    storeNeighbours message n (i + 1) (s.insertNeiIP ip (charToInt file))

/-- The arguments that the `'d'` branch passes to `insertNeiIP`. -/
def readAnswer (message : Str) : Traced Access (Str × ℤ) := do
  let ip ← substr message 2 4
  let level ← charAt message 6
  return (ip, charToInt level)

/-- `processMessage`. -/
def processMessage (s : P2PCServer) (message : Str) : Traced Access (P2PCServer × ℤ) := do
  let type ← charAt message 0
  let _id ← charAt message 1
  if type = chr 'b' then
    let num ← charAt message 2
    let s ← storeNeighbours message (charToInt num).toNat 0 s
    return (s, 0)
  else if type = chr 'd' then
    let (ip, level) ← readAnswer message
    let s := s.insertNeiIP ip level
    let level ← charAt message 6
    let (s, res) := s.processUpdateFile (charToInt level)
    return (s, if res ≠ 0 then 1 else 0)
  else
    return (s, -1)

/-! ### Reads -/

/-- The rounds of the loop stay inside the message exactly when its entries do. -/
theorem inBounds_storeNeighbours_iff (m : Str) (n i : ℕ) (s : P2PCServer) :
    (storeNeighbours m n i s).All Access.InBounds ↔ n = 0 ∨ 3 + 5 * (i + n) ≤ m.length := by
  induction n generalizing i s with
  | zero => simp [storeNeighbours]
  | succ n ih =>
    simp only [storeNeighbours, inBounds_substr_bind_iff, inBounds_charAt_bind_iff, ih]
    constructor
    · rintro ⟨-, h, h'⟩
      omega
    · intro h
      exact ⟨by omega, by omega, by omega⟩

/-- An answer is read without leaving the message exactly when it has its seven bytes. -/
theorem inBounds_readAnswer_iff (m : Str) :
    (readAnswer m).All Access.InBounds ↔ 7 ≤ m.length := by
  simp only [readAnswer, inBounds_substr_bind_iff, inBounds_charAt_bind_iff, Traced.all_pure]
  constructor
  · rintro ⟨-, h, -⟩
    exact h
  · intro h
    exact ⟨by omega, h, trivial⟩

theorem val_readAnswer {m : Str} (h : 7 ≤ m.length) :
    (readAnswer m).val = some (ipField m, charToInt m[6]) := by
  rw [readAnswer, val_substr_bind (show 2 ≤ m.length by omega),
    val_charAt_bind (show 6 < m.length by omega), Traced.val_pure, ipField]

/-- The number of bytes that `processMessage` reads. -/
def readLength (m : Str) : ℕ :=
  if m[0]? = some (chr 'b') then 3 + 5 * (charToInt (m.getD 2 0)).toNat
  else if m[0]? = some (chr 'd') then 7
  else 2

/-- The client's parser stays inside a message exactly when the message has the bytes that its
type and, in a list of neighbours, its count byte ask for. -/
theorem inBounds_processMessage_iff (s : P2PCServer) (m : Str) :
    (processMessage s m).All Access.InBounds ↔ readLength m ≤ m.length := by
  simp only [processMessage, inBounds_charAt_bind_iff, readLength]
  by_cases hlen : 2 ≤ m.length
  · have h₀ : m[0]? = some m[0] := List.getElem?_eq_getElem (by omega)
    simp only [h₀, Option.some.injEq, show 0 < m.length by omega, show 1 < m.length by omega,
      exists_true_left]
    split_ifs with hb hd
    · rw [inBounds_charAt_bind_iff]
      simp only [Traced.all_bind, inBounds_storeNeighbours_iff, Traced.all_pure, implies_true,
        and_true]
      by_cases hnum : 2 < m.length
      · have h₂ : m.getD 2 0 = m[2] := by simp [hnum]
        simp only [hnum, exists_true_left, h₂]
        omega
      · refine iff_of_false (fun h => hnum h.1) ?_
        omega
    · rw [Traced.all_bind, inBounds_readAnswer_iff]
      refine and_iff_left_of_imp fun h _ _ => ?_
      rw [inBounds_charAt_bind_iff]
      exact ⟨h, Traced.all_pure _⟩
    · simp only [Traced.all_pure, true_iff]
      exact hlen
  · refine iff_of_false (fun h => hlen h.2.1) ?_
    split_ifs <;> omega

/-! ### The list of neighbours -/

/-- A list of neighbours goes through the loop, with the count byte as a signed number of rounds. -/
theorem val_processMessage_list (s : P2PCServer) {m : Str} (hm : 3 ≤ m.length)
    (hb : m[0] = chr 'b') :
    (processMessage s m).val =
      (storeNeighbours m (charToInt m[2]).toNat 0 s).val.map fun s' => (s', 0) := by
  rw [processMessage, val_charAt_bind (show 0 < m.length by omega),
    val_charAt_bind (show 1 < m.length by omega), if_pos hb,
    val_charAt_bind (show 2 < m.length by omega), Traced.val_bind, Option.map_eq_bind]
  rfl

/-! ### Answers of peers -/

/-- An answer enters the table and may raise the level of the client. -/
theorem val_processMessage_answer (s : P2PCServer) {m : Str} (hm : 7 ≤ m.length)
    (hd : m[0] = chr 'd') :
    (processMessage s m).val =
      some (((s.insertNeiIP (ipField m) (charToInt m[6])).processUpdateFile (charToInt m[6])).1,
        if charToInt m[6] > s.updateFile then 1 else 0) := by
  have hb : m[0] ≠ chr 'b' := by
    rw [hd]
    decide
  rw [processMessage, val_charAt_bind (show 0 < m.length by omega),
    val_charAt_bind (show 1 < m.length by omega), if_neg hb, if_pos hd, Traced.val_bind,
    val_readAnswer hm, Option.bind_some, val_charAt_bind (show 6 < m.length by omega),
    Traced.val_pure]
  by_cases hup : charToInt m[6] > s.updateFile <;> simp [processUpdateFile, hup]

/-- An answer whose level is not ahead only enters the table. -/
theorem val_processMessage_of_le {s : P2PCServer} {m : Str} (hm : 7 ≤ m.length)
    (hd : m[0] = chr 'd') (hlevel : charToInt m[6] ≤ s.updateFile) :
    (processMessage s m).val = some (s.insertNeiIP (ipField m) (charToInt m[6]), 0) := by
  rw [val_processMessage_answer s hm hd, if_neg (not_lt.2 hlevel), processUpdateFile,
    updateFile_insertNeiIP, if_neg (not_lt.2 hlevel)]

/-- **Selection after an answer.** After an answer of `p` that is not ahead, the next peer selected
is another one exactly when the level answered is not 1, or 101 is not ahead of the client either,
or a neighbour with a smaller IP is ahead. -/
theorem findNeiIP_processMessage_ne_iff (s : P2PCServer) {m : Str} (hm : 7 ≤ m.length)
    (hd : m[0] = chr 'd') (hp : ipField m ≠ lit "1111")
    (hlevel : charToInt m[6] ≤ s.updateFile) :
    ∃ s', (processMessage s m).val = some (s', 0) ∧
      (s'.findNeiIP s'.getFile ≠ ipField m ↔
        charToInt m[6] ≠ 1 ∨ 101 ≤ s.updateFile ∨
          ∃ k file, s.neiIP[k]? = some file ∧ s.updateFile < file ∧ k ≠ lit "1111" ∧
            compare k (ipField m) = .lt) := by
  refine ⟨_, val_processMessage_of_le hm hd hlevel, ?_⟩
  rw [ne_eq, findNeiIP_eq_iff hp, not_and_or]
  simp only [getElem?_insertNeiIP, getFile, updateFile_insertNeiIP, if_pos, Option.some.injEq,
    exists_eq_left', not_lt]
  have hstored : storedFile (charToInt m[6]) ≤ s.updateFile ↔
      charToInt m[6] ≠ 1 ∨ 101 ≤ s.updateFile := by
    rw [storedFile]
    split_ifs with h
    · simp [h]
    · simp [h, hlevel]
  rw [hstored, or_assoc]
  refine or_congr_right (or_congr_right ?_)
  push Not
  -- a neighbour with a smaller IP is not the one that answered
  constructor
  · rintro ⟨k, file, hget, hlt, hne, hk⟩
    refine ⟨k, file, ?_, hlt, hne, hk⟩
    rwa [if_neg] at hget
    rintro rfl
    simp at hk
  · rintro ⟨k, file, hget, hlt, hne, hk⟩
    refine ⟨k, file, ?_, hlt, hne, hk⟩
    rwa [if_neg]
    rintro rfl
    simp at hk

/-- A peer that is not ahead, with an earlier neighbour to ask. -/
theorem findNeiIP_processMessage_of_neighbour :
    ∃ s', (processMessage (start.insertNeiIP (lit "2222") 7) (lit "d03333" ++ [1])).val =
        some (s', 0) ∧ s'.findNeiIP s'.getFile ≠ lit "3333" := by
  obtain ⟨s', h, hiff⟩ := findNeiIP_processMessage_ne_iff (start.insertNeiIP (lit "2222") 7)
    (m := lit "d03333" ++ [1]) (by decide) (by decide) (by decide) (by decide)
  refine ⟨s', h, hiff.2 (.inr (.inr ⟨lit "2222", 7, ?_, by decide, by decide, by decide⟩))⟩
  rw [getElem?_insertNeiIP]
  rfl

/-- A peer that answers with level 1 is selected again. -/
theorem findNeiIP_processMessage_eq :
    ipField (lit "d03333" ++ [1]) = lit "3333" ∧ charToInt 1 ≤ start.getFile ∧
      ∃ s' : P2PCServer, (processMessage start (lit "d03333" ++ [1])).val = some (s', 0) ∧
        s'.findNeiIP s'.getFile = lit "3333" :=
  ⟨by decide, by decide, _, rfl, by decide +kernel⟩

end Huaweip2p.P2PClient
