import Huaweip2p.Network.Model
import Huaweip2p.Protocol.Requests

/-!
# The messages of the network

What is true of the messages on their way and of the tables, as far as it depends on the levels
`file` that the clients have now, and what the programs make of such messages.

* `Record`, `Registered`: the entries of a client's table, and of the catalogue;
* `IsRequest`, `IsReply`: the messages on their way from and to a client;
* `IsReply.read`, `IsRequest.read`, `IsRequest.respond`: the three handlers.
-/

namespace Huaweip2p

/-- What the server has, in the form of what a client has. -/
def serverStatics : P2PCServer := ⟨∅, 100, lit "1111"⟩

theorem P2PCServer.insertAll_spec (s : P2PCServer) (es : List (Str × ℤ)) :
    (s.insertAll es).updateFile = s.updateFile ∧ (s.insertAll es).IP = s.IP := by
  induction es generalizing s with
  | nil => exact ⟨rfl, rfl⟩
  | cons e es ih => exact ih (s.insertNeiIP e.1 e.2)

namespace Addresses

variable {ι : Type} (a : Addresses ι) (file : ι → ℤ)

/-- What client `k` may have in its table: the server; or another client, with 101 or a level that
it has reached. -/
def Record (k : ι) (key : Str) (level : ℤ) : Prop :=
  key = lit "1111" ∨ ∃ j, j ≠ k ∧ key = a.ip j ∧ (level = 101 ∨ level ≤ file j)

def Records (k : ι) (s : P2PCServer) : Prop :=
  ∀ (key : Str) (level : ℤ), s.neiIP[key]? = some level → a.Record file k key level

/-- What the catalogue may have: the server, or a client with a level that it has reached. -/
def Registered (u : UserInfo) : Prop :=
  u.Fits ∧ (u.userIP = lit "1111" ∨ ∃ j, u.userIP = a.ip j ∧ u.userFile ≤ file j)

/-- What client `k` had once: a level from 1 to 100 that it has reached. -/
structure Was (k : ι) (s : P2PCServer) : Prop where
  IP_eq : s.IP = a.ip k
  one_le : 1 ≤ s.updateFile
  le_hundred : s.updateFile ≤ 100
  le_file : s.updateFile ≤ file k

def IsRequest (k : ι) (m : Str) : Prop :=
  ∃ s, a.Was file k s ∧
    (m = P2PClient.registration s ∨ m = P2PClient.fileRequest s s.getFile)

/-- The program at `peer` has, or had, `s`. -/
def Answers (k : ι) (peer : Str) (s : P2PCServer) : Prop :=
  (peer = lit "1111" ∧ s = serverStatics) ∨ ∃ j, j ≠ k ∧ peer = a.ip j ∧ a.Was file j s

/-- The replies that client `k` gets from `peer`. -/
inductive IsReply (k : ι) (peer : Str) : Str → Prop
  | answer (s : P2PCServer) (hs : a.Answers file k peer s) : IsReply k peer s.fileReply
  | neighbours (us : List UserInfo) (hpeer : peer = lit "1111")
      (hus : ∀ u ∈ us, a.Registered file u ∧ u.userIP ≠ a.ip k) :
      IsReply k peer (P2PServer.reply us)
  | alone (ip : Str) (hpeer : peer = lit "1111") :
      IsReply k peer (lit "b0" ++ P2PServer.processMyself ip)

variable {a file}

/-! ### Levels only grow -/

section Mono

variable {file' : ι → ℤ} {k : ι}

theorem Record.mono (hle : file ≤ file') {key : Str} {level : ℤ} (h : a.Record file k key level) :
    a.Record file' k key level := by
  rcases h with hserver | ⟨j, hj, hkey, hlevel⟩
  · exact .inl hserver
  · exact .inr ⟨j, hj, hkey, hlevel.imp_right fun h => h.trans (hle j)⟩

theorem Records.mono (hle : file ≤ file') {s : P2PCServer} (h : a.Records file k s) :
    a.Records file' k s := fun key level hget => (h key level hget).mono hle

theorem Registered.mono (hle : file ≤ file') {u : UserInfo} (h : a.Registered file u) :
    a.Registered file' u := by
  obtain ⟨hfits, hserver | ⟨j, hj, hlevel⟩⟩ := h
  · exact ⟨hfits, .inl hserver⟩
  · exact ⟨hfits, .inr ⟨j, hj, hlevel.trans (hle j)⟩⟩

theorem Was.mono (hle : file ≤ file') {s : P2PCServer} (h : a.Was file k s) : a.Was file' k s :=
  { h with le_file := h.le_file.trans (hle k) }

theorem IsRequest.mono (hle : file ≤ file') {m : Str} (h : a.IsRequest file k m) :
    a.IsRequest file' k m := by
  obtain ⟨s, hs, hm⟩ := h
  exact ⟨s, hs.mono hle, hm⟩

theorem IsReply.mono (hle : file ≤ file') {peer m : Str} (h : a.IsReply file k peer m) :
    a.IsReply file' k peer m := by
  cases h with
  | answer s hs =>
    rcases hs with hserver | ⟨j, hj, hpeer, hwas⟩
    · exact .answer s (.inl hserver)
    · exact .answer s (.inr ⟨j, hj, hpeer, hwas.mono hle⟩)
  | neighbours us hpeer hus =>
    exact .neighbours us hpeer fun u hu => ⟨(hus u hu).1.mono hle, (hus u hu).2⟩
  | alone ip hpeer => exact .alone ip hpeer

end Mono

/-! ### Tables -/

variable {k : ι} {s : P2PCServer}

theorem Records.insertNeiIP (h : a.Records file k s) {ip : Str} {level : ℤ}
    (hrecord : a.Record file k ip (P2PCServer.storedFile level)) :
    a.Records file k (s.insertNeiIP ip level) := by
  intro key level' hget
  rw [P2PCServer.getElem?_insertNeiIP] at hget
  split_ifs at hget with hkey
  · subst hkey
    rwa [← Option.some.inj hget]
  · exact h key level' hget

theorem Records.insertAll (h : a.Records file k s) {es : List (Str × ℤ)}
    (hes : ∀ e ∈ es, a.Record file k e.1 (P2PCServer.storedFile e.2)) :
    a.Records file k (s.insertAll es) := by
  induction es generalizing s with
  | nil => exact h
  | cons e es ih =>
    rw [List.forall_mem_cons] at hes
    exact ih (h.insertNeiIP hes.1) hes.2

/-- No client has its own IP in its table. -/
theorem Records.own (h : a.Records file k s) : s.neiIP[a.ip k]? = none := by
  cases hget : s.neiIP[a.ip k]? with
  | none => rfl
  | some level =>
    rcases h _ _ hget with hserver | ⟨j, hj, hkey, -⟩
    · exact absurd hserver (a.ne_server k)
    · exact absurd (a.injective hkey).symm hj

/-- A level that a client has reached may be stored. -/
theorem record_stored {j : ι} (hj : j ≠ k) {level : ℤ} (hlevel : level ≤ file j) :
    a.Record file k (a.ip j) (P2PCServer.storedFile level) := by
  refine .inr ⟨j, hj, rfl, ?_⟩
  rw [P2PCServer.storedFile]
  split_ifs
  · exact .inl rfl
  · exact .inr hlevel

theorem Registered.record {u : UserInfo} (h : a.Registered file u) (hne : u.userIP ≠ a.ip k) :
    a.Record file k u.userIP (P2PCServer.storedFile u.userFile) := by
  obtain ⟨-, hserver | ⟨j, hip, hlevel⟩⟩ := h
  · exact .inl hserver
  · rw [hip]
    refine record_stored ?_ hlevel
    rintro rfl
    exact hne hip

theorem Answers.record {peer : Str} (h : a.Answers file k peer s) :
    a.Record file k s.IP (P2PCServer.storedFile s.updateFile) := by
  rcases h with ⟨-, rfl⟩ | ⟨j, hj, -, hwas⟩
  · exact .inl rfl
  · rw [hwas.IP_eq]
    exact record_stored hj hwas.le_file

/-- What an answering program has fits its messages, and is at most 100. -/
theorem Answers.decodes {peer : Str} (h : a.Answers file k peer s) :
    DecodesExactly s ∧ s.updateFile ≤ 100 := by
  rcases h with ⟨-, rfl⟩ | ⟨j, -, -, hwas⟩
  · exact ⟨decodesExactly_of_length rfl (by decide), le_refl 100⟩
  · have hone := hwas.one_le
    have hle := hwas.le_hundred
    have hlength : s.IP.length = 4 := by
      rw [hwas.IP_eq]
      exact a.length_eq j
    exact ⟨decodesExactly_of_length hlength (charToInt_intToChar (by omega) (by omega)), hle⟩

/-! ### Reading a reply -/

/-- A list of neighbours, whose count may have wrapped, is read up to that count. -/
theorem val_processMessage_neighbours {us : List UserInfo} (h : ∀ u ∈ us, u.Fits)
    (s : P2PCServer) : ∃ n, (P2PClient.processMessage s (P2PServer.reply us)).val =
      some (s.insertAll ((us.take n).map UserInfo.entry), 0) := by
  set n := (charToInt (intToChar us.length)).toNat with hn
  have hle : n ≤ us.length := by
    have hwrap : charToInt (intToChar us.length) ≤ us.length := by
      show (Int8.ofInt us.length).toInt ≤ us.length
      have hsize : (Int8.size : ℤ) = 256 := rfl
      have hlength : (0 : ℤ) ≤ us.length := Int.natCast_nonneg _
      rw [Int8.toInt_ofInt, Int.bmod_def, hsize]
      split_ifs <;> omega
    omega
  have hlength : (us.take n).length = n := List.length_take_of_le hle
  refine ⟨n, ?_⟩
  have hfits : ∀ u ∈ us.take n, u.Fits := fun u hu => h u (List.mem_of_mem_take hu)
  have hread := P2PClient.val_storeNeighbours hfits [chr 'b', chr '0', intToChar us.length]
    ((us.drop n).flatMap P2PServer.encode) (i := 0) rfl s
  rw [List.append_assoc, ← List.flatMap_append, List.take_append_drop, hlength] at hread
  have hthree : 3 ≤ (P2PServer.reply us).length := by simp [P2PServer.reply]
  have hget : (P2PServer.reply us)[2] = intToChar us.length := rfl
  rw [P2PClient.val_processMessage_list s hthree rfl, hget, ← hn]
  exact congrArg (Option.map fun s' => (s', (0 : ℤ))) hread

theorem val_processMessage_alone (ip : Str) (s : P2PCServer) :
    (P2PClient.processMessage s (lit "b0" ++ P2PServer.processMyself ip)).val =
      some (s.insertNeiIP (lit "1111") 0, 0) := rfl

/-- What a client makes of a reply: the table grows by what it may have, and the level by one at
most, on an answer that is ahead. -/
theorem IsReply.read {peer m : Str} (h : a.IsReply file k peer m) (hs : a.Records file k s) :
    ∃ s' res, (P2PClient.processMessage s m).val = some (s', res) ∧ s'.IP = s.IP ∧
      a.Records file k s' ∧ (s'.updateFile = s.updateFile ∨
        s'.updateFile = s.updateFile + 1 ∧ s'.updateFile ≤ 100 ∧ m.head? = some (chr 'd')) := by
  cases h with
  | answer t ht =>
    obtain ⟨hdecodes, hle⟩ := ht.decodes
    refine ⟨_, _, hdecodes.processMessage s, ?_⟩
    have hrecords := hs.insertNeiIP ht.record
    rw [P2PCServer.processUpdateFile]
    split_ifs with hup
    · rw [P2PCServer.updateFile_insertNeiIP] at hup
      exact ⟨rfl, hrecords, .inr ⟨rfl, by show s.updateFile + 1 ≤ 100; omega, rfl⟩⟩
    · exact ⟨rfl, hrecords, .inl rfl⟩
  | neighbours us hpeer hus =>
    obtain ⟨n, hval⟩ := val_processMessage_neighbours (fun u hu => (hus u hu).1.1) s
    obtain ⟨hfile, hIP⟩ := s.insertAll_spec ((us.take n).map UserInfo.entry)
    refine ⟨_, _, hval, hIP, hs.insertAll fun e he => ?_, .inl hfile⟩
    obtain ⟨u, hu, rfl⟩ := List.mem_map.1 he
    obtain ⟨hregistered, hne⟩ := hus u (List.mem_of_mem_take hu)
    exact hregistered.record hne
  | alone ip hpeer =>
    exact ⟨_, _, val_processMessage_alone ip s, rfl, hs.insertNeiIP (.inl rfl), .inl rfl⟩

/-- An answer carries a level that its sender has reached. -/
theorem IsReply.level {peer m : Str} (h : a.IsReply file k peer m)
    (hd : m.head? = some (chr 'd')) :
    (peer = lit "1111" ∧ charToInt (m.getD 6 0) ≤ 100) ∨
      ∃ j, peer = a.ip j ∧ charToInt (m.getD 6 0) ≤ file j := by
  cases h with
  | answer t ht =>
    obtain ⟨hdecodes, -⟩ := ht.decodes
    have hread := hdecodes.fileReply
    have hlength : t.fileReply.length = 7 := by
      rcases ht with ⟨-, rfl⟩ | ⟨j, -, -, hwas⟩
      · rfl
      · simp [P2PCServer.fileReply, P2PCServer.getIP, lit, hwas.IP_eq, a.length_eq]
    rw [P2PClient.val_readAnswer hlength.ge, Option.some.injEq, Prod.mk.injEq] at hread
    have hlevel : charToInt (t.fileReply.getD 6 0) = t.updateFile := by
      rw [List.getD_eq_getElem?_getD, List.getElem?_eq_getElem (by omega)]
      exact hread.2
    rw [hlevel]
    rcases ht with ⟨hpeer, rfl⟩ | ⟨j, -, hpeer, hwas⟩
    · exact .inl ⟨hpeer, le_refl 100⟩
    · exact .inr ⟨j, hpeer, hwas.le_file⟩
  | neighbours us hpeer hus => exact absurd (Option.some.inj hd) (by decide)
  | alone ip hpeer => exact absurd (Option.some.inj hd) (by decide)

/-! ### Handling a request -/

/-- The receiver of a request finds its sender's IP, with a level that the sender has reached. -/
theorem IsRequest.read {m : Str} (h : a.IsRequest file k m) :
    ∃ r, (readRequest m).val = some r ∧ r.ip = a.ip k ∧ r.reqfile ≤ file k ∧
      -128 ≤ r.reqfile ∧ r.reqfile < 128 := by
  obtain ⟨s, hs, hm⟩ := h
  have hone := hs.one_le
  have hle := hs.le_hundred
  have hfile := hs.le_file
  have hlength : s.IP.length = 4 := by
    rw [hs.IP_eq]
    exact a.length_eq k
  have hdecodes := decodesExactly_of_length hlength
    (charToInt_intToChar (n := s.updateFile) (by omega) (by omega))
  rcases hm with rfl | rfl
  · refine ⟨_, hdecodes.registration, hs.IP_eq, ?_⟩
    dsimp only
    omega
  · refine ⟨_, hdecodes.fileRequest, hs.IP_eq, ?_⟩
    dsimp only
    omega

/-- What the server does with a request: the catalogue grows by what it may have, and at most one
reply is sent. -/
theorem IsRequest.respond {m : Str} (h : a.IsRequest file k m) {c : UserCatalogue.Catalogue}
    (hc : c.EveryRecord (a.Registered file)) (w : Str → Bool) (survives : Bool)
    {c' : UserCatalogue.Catalogue} {effects : List Effect}
    (heq : P2PServer.respond c w survives m = some (c', effects)) :
    c'.EveryRecord (a.Registered file) ∧ (effects = [] ∨
      ∃ m', a.IsReply file k (lit "1111") m' ∧
        (effects = [.send m'] ∨ effects = [.send m', .shutdown])) := by
  obtain ⟨r, hr, hip, hlevel, hmin, hmax⟩ := h.read
  have hanswer : (P2PServer.answer c w r).val = some (c', effects) := by
    rw [P2PServer.respond] at heq
    split_ifs at heq
    · rwa [Traced.val_bind, hr] at heq
    · rw [P2PServer.onStringMessage_eq, Traced.val_bind, hr, Option.bind_some, Traced.val_bind,
        Option.bind_eq_some_iff] at heq
      obtain ⟨_, -, hval⟩ := heq
      exact hval
  have hregistered : a.Registered file ⟨r.ip, r.reqfile⟩ :=
    ⟨⟨by rw [hip]; exact a.length_eq k, hmin, hmax⟩, .inr ⟨k, hip, hlevel⟩⟩
  rw [P2PServer.answer] at hanswer
  split_ifs at hanswer
  · set c₁ := (c.insertUser w r.ip r.reqfile).1 with hc₁
    have hrecords : c₁.EveryRecord (a.Registered file) := hc.insertUser w hregistered
    have hgroup : P2PServer.HasGroup c₁ r.ip :=
      (P2PServer.isSome_users_insertUser c w _ _ _).2 (.inr rfl)
    rw [Traced.val_bind, P2PServer.val_processMessage hgroup, Option.bind_some, Traced.val_pure,
      Option.some.injEq, Prod.mk.injEq] at hanswer
    obtain ⟨rfl, rfl⟩ := hanswer
    refine ⟨hrecords, .inr ⟨_, ?_, .inr rfl⟩⟩
    split_ifs
    · exact .alone r.ip rfl
    · refine .neighbours (P2PServer.neighbours c₁ r.ip) rfl fun u hu => ?_
      obtain ⟨hmem, hne⟩ := List.mem_filter.1 hu
      refine ⟨hrecords _ u hmem, ?_⟩
      rw [← hip]
      simpa using hne
  · rw [Traced.val_pure, Option.some.injEq, Prod.mk.injEq] at hanswer
    obtain ⟨rfl, rfl⟩ := hanswer
    exact ⟨hc, .inr ⟨_, .answer serverStatics (.inl ⟨rfl, rfl⟩), .inl rfl⟩⟩
  · rw [Traced.val_pure, Option.some.injEq, Prod.mk.injEq] at hanswer
    obtain ⟨rfl, rfl⟩ := hanswer
    exact ⟨hc, .inl rfl⟩

end Addresses

end Huaweip2p
