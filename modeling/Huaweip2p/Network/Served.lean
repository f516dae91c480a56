import Huaweip2p.Network.Model
import Huaweip2p.Network.Sessions
import Huaweip2p.Server.Replacement

/-!
# The server and its connections

`P2PServer` as a program in the sense of `Sessions`: what its catalogue and its connections have come
to when bytes arrived in any order on any of them. Only the registrations make the catalogue, in the
order in which they were taken, and a connection gets answers up to its first registration, the
reply to it, and nothing any more.
-/

namespace Huaweip2p

open UserCatalogue LengthHeaderCodec

namespace P2PServer

variable {σ : Type} [UserSet σ] {κ : Type}

/-- `onStringMessage`, told the answers of the probes and whether it survives a failing lookup. -/
def handler : Handler (UserCatalogue σ) ((Str → Bool) × Bool) :=
  fun a c m => respond c a.1 a.2 m

/-- The type of a message. -/
def IsType (t : UInt8) (m : Str) : Prop := m.head? = some t

instance (t : UInt8) (m : Str) : Decidable (IsType t m) :=
  inferInstanceAs (Decidable (m.head? = some t))

/-- A message and the answers that go with it as a call of `insertUser`. -/
def call (isClientWorking : Str → Bool) (m : Str) : InsertCall :=
  ⟨isClientWorking, ipField m, charToInt (m.getD 6 0)⟩

/-- The registrations among the messages taken. -/
def registrations (taken : List (κ × ((Str → Bool) × Bool) × Str)) : List InsertCall :=
  (taken.filter fun x => IsType (chr 'a') x.2.2).map fun x => call x.2.1.1 x.2.2

/-- The answer to a file request. -/
def fileAnswer : Str := lit "d01111" ++ [intToChar 100]

theorem registrations_append (xs ys : List (κ × ((Str → Bool) × Bool) × Str)) :
    registrations (xs ++ ys) = registrations xs ++ registrations ys := by
  simp [registrations]

/-- The fields of a request that could be read, where the level may be the terminating zero. -/
theorem fields_of_readRequest {m : Str} {r : Request} (h : (readRequest m).val = some r) :
    m.head? = some r.type ∧ r.ip = ipField m ∧ r.reqfile = charToInt (m.getD 6 0) := by
  simp only [readRequest, charAt, substr, Traced.val_bind, Traced.val_emit, Traced.val_pure,
    Option.bind_eq_some_iff, Option.some.injEq] at h
  obtain ⟨type, htype, id, -, ip, hip, level, hlevel, rfl⟩ := h
  have hlength : 6 ≤ m.length := by
    split_ifs at hlevel
    · omega
    · omega
  rw [if_pos (by omega), List.getElem?_eq_some_iff] at htype
  obtain ⟨_, htype⟩ := htype
  rw [if_pos (by omega), Option.some.injEq] at hip
  refine ⟨?_, hip.symm, ?_⟩
  · rw [List.head?_eq_getElem?, List.getElem?_eq_getElem (by omega), htype]
  · rw [List.getD_eq_getElem?_getD]
    split_ifs at hlevel with hlt heq
    · rw [hlevel, Option.getD_some]
    · rw [List.getElem?_eq_none (by omega), Option.getD_none, Option.some.inj hlevel]

/-- What the server does with one message. -/
theorem respond_cases {c c' : UserCatalogue σ} {w : Str → Bool} {survives : Bool} {m : Str}
    {effects : List Effect} (h : respond c w survives m = some (c', effects)) :
    (IsType (chr 'a') m ∧ c' = c.afterCall (call w m) ∧ ∃ reply,
      (processMessage c' (ipField m)).val = some reply ∧
        effects = [.send (lit "b0" ++ reply), .shutdown]) ∨
    (¬ IsType (chr 'a') m ∧ c' = c ∧
      effects = if IsType (chr 'c') m then [.send fileAnswer] else []) := by
  obtain ⟨r, hr, hanswer⟩ : ∃ r, (readRequest m).val = some r ∧
      (answer c w r).val = some (c', effects) := by
    rw [respond] at h
    split_ifs at h
    · rwa [Traced.val_bind, Option.bind_eq_some_iff] at h
    · rw [onStringMessage_eq, Traced.val_bind, Option.bind_eq_some_iff] at h
      obtain ⟨r, hr, h⟩ := h
      rw [Traced.val_bind, Option.bind_eq_some_iff] at h
      obtain ⟨-, -, h⟩ := h
      exact ⟨r, hr, h⟩
  obtain ⟨htype, hip, hlevel⟩ := fields_of_readRequest hr
  have htype : ∀ t, r.type = t ↔ IsType t m := by
    intro t
    rw [IsType, htype, Option.some.injEq]
  have hcall : call w m = ⟨w, r.ip, r.reqfile⟩ := by rw [call, hip, hlevel]
  rw [answer] at hanswer
  simp only [htype] at hanswer
  split_ifs at hanswer with ha hc
  · rw [Traced.val_bind, Option.bind_eq_some_iff] at hanswer
    obtain ⟨reply, hreply, h⟩ := hanswer
    rw [Traced.val_pure, Option.some.injEq, Prod.mk.injEq] at h
    obtain ⟨rfl, rfl⟩ := h
    exact .inl ⟨ha, by rw [afterCall, hcall], reply, hip ▸ hreply, rfl⟩
  · rw [Traced.val_pure, Option.some.injEq, Prod.mk.injEq] at hanswer
    obtain ⟨rfl, rfl⟩ := hanswer
    exact .inr ⟨ha, rfl, by rw [if_pos hc]; rfl⟩
  · rw [Traced.val_pure, Option.some.injEq, Prod.mk.injEq] at hanswer
    obtain ⟨rfl, rfl⟩ := hanswer
    exact .inr ⟨ha, rfl, by rw [if_neg hc]⟩

section Serial

open Sessions (serial)

variable [DecidableEq κ] {c c' : UserCatalogue σ}
  {taken : List (κ × ((Str → Bool) × Bool) × Str)} {effects : List (κ × Effect)}

omit [DecidableEq κ] in
/-- Only the registrations make the catalogue. -/
theorem state_of_serial (h : serial handler c taken = some (c', effects)) :
    c' = Runs.run afterCall c (registrations taken) := by
  induction taken generalizing c effects with
  | nil =>
    rw [serial, Option.some.injEq, Prod.mk.injEq] at h
    exact h.1.symm
  | cons x taken ih =>
    obtain ⟨k, a, m⟩ := x
    obtain ⟨c₁, es, later, hrespond, hlater, -⟩ := Sessions.serial_cons_eq_some h
    rcases respond_cases hrespond with ⟨ha, rfl, -⟩ | ⟨ha, rfl, -⟩
    · rw [ih hlater]
      simp [registrations, ha]
    · rw [ih hlater]
      simp [registrations, ha]

/-- Before its first registration a connection gets the answers to its file requests. -/
theorem effectsOn_of_serial (h : serial handler c taken = some (c', effects)) {k : κ}
    (hk : ∀ m ∈ Sessions.takenOn k taken, ¬ IsType (chr 'a') m) :
    Sessions.effectsOn k effects = List.replicate
      ((Sessions.takenOn k taken).countP fun m => IsType (chr 'c') m) (.send fileAnswer) := by
  induction taken generalizing c effects with
  | nil =>
    rw [serial, Option.some.injEq, Prod.mk.injEq] at h
    obtain ⟨-, rfl⟩ := h
    rfl
  | cons x taken ih =>
    obtain ⟨k', a, m⟩ := x
    have hsplit : Sessions.takenOn k ((k', a, m) :: taken) =
        Sessions.takenOn k [(k', a, m)] ++ Sessions.takenOn k taken :=
      Sessions.takenOn_append k [(k', a, m)] taken
    rw [hsplit] at hk ⊢
    obtain ⟨c₁, es, later, hrespond, hlater, rfl⟩ := Sessions.serial_cons_eq_some h
    rw [Sessions.effectsOn_append, Sessions.effectsOn_map,
      ih hlater fun m' hm' => hk m' (List.mem_append_right _ hm')]
    by_cases hkk : k' = k
    · subst hkk
      have hm : Sessions.takenOn k' [(k', a, m)] = [m] := by simp [Sessions.takenOn]
      rw [hm] at hk ⊢
      have hna := hk m (List.mem_append_left _ (List.mem_singleton_self m))
      rcases respond_cases hrespond with ⟨ha, -⟩ | ⟨-, -, rfl⟩
      · exact absurd ha hna
      · by_cases hc : IsType (chr 'c') m
        · simp [hc, List.replicate_succ]
        · simp [hc]
    · have hm : Sessions.takenOn k [(k', a, m)] = [] := by simp [Sessions.takenOn, hkk]
      rw [hm, if_neg hkk, List.nil_append, List.nil_append]

theorem sends_replicate (n : ℕ) (m : Str) (es : List Effect) :
    Effect.sends (List.replicate n (.send m) ++ es) = List.replicate n m ++ Effect.sends es := by
  induction n with
  | zero => rfl
  | succ n ih => rw [List.replicate_succ, List.cons_append, Effect.sends, ih, List.replicate_succ,
      List.cons_append]

/-- From its first registration on, the reply to it is the last that a connection gets. -/
theorem sends_of_serial {k : κ} {a : (Str → Bool) × Bool} {m : Str}
    {pre post : List (κ × ((Str → Bool) × Bool) × Str)}
    (h : serial handler c (pre ++ (k, a, m) :: post) = some (c', effects))
    (hpre : ∀ m ∈ Sessions.takenOn k pre, ¬ IsType (chr 'a') m) (ha : IsType (chr 'a') m) :
    ∃ reply, (processMessage (Runs.run afterCall c (registrations (pre ++ [(k, a, m)])))
        (ipField m)).val = some reply ∧
      Effect.sends (Sessions.effectsOn k effects) = List.replicate
        ((Sessions.takenOn k pre).countP fun m => IsType (chr 'c') m) fileAnswer ++
          [lit "b0" ++ reply] := by
  rw [Sessions.serial_append, Option.bind_eq_some_iff] at h
  obtain ⟨⟨c₁, before⟩, hbefore, h⟩ := h
  obtain ⟨⟨c₂, behind⟩, hbehind, h⟩ := Option.map_eq_some_iff.1 h
  obtain ⟨rfl, rfl⟩ := Prod.mk.inj h
  obtain ⟨c₁, es, later, hrespond, -, rfl⟩ := Sessions.serial_cons_eq_some hbehind
  rcases respond_cases hrespond with ⟨-, rfl, reply, hreply, rfl⟩ | ⟨hna, -⟩
  swap
  · exact absurd ha hna
  refine ⟨reply, ?_, ?_⟩
  · rw [registrations_append, Runs.run_append, ← state_of_serial hbefore]
    simpa [registrations, ha] using hreply
  · rw [Sessions.effectsOn_append, Sessions.effectsOn_append, Sessions.effectsOn_map, if_pos rfl,
      effectsOn_of_serial hbefore hpre, sends_replicate]
    rfl

end Serial

variable (σ)

/-- **Service.** In every run of the server, however the bytes of its connections arrive, interleave
and are written: the catalogue is made by the calls of `insertUser` for the registrations, in the
order in which they were taken on whatever connection, and by nothing else. On a connection on which
no registration was taken yet, the bytes written and those that wait are the frames of one answer for
each file request. From the first registration on, they are these and the frame of its reply, which
is built from the catalogue right after it, whatever is taken later; and the half-close comes only
then, or after an invalid length. -/
theorem sessions_served [DecidableEq κ]
    (es : List (Sessions.Event ((Str → Bool) × Bool) κ)) :
    (∃ s, es.foldlM (Sessions.step handler)
        (Sessions.init (UserCatalogue.init (lit "1111") 100 : UserCatalogue σ)) = some s ∧
      s.state = Runs.run afterCall (UserCatalogue.init (lit "1111") 100) (registrations s.taken) ∧
      ∀ k,
        let conn := (s.session k).output.conn
        ((∀ m ∈ Sessions.takenOn k s.taken, ¬ IsType (chr 'a') m) →
          conn.written ++ conn.outputBuffer.content = encoder.encodeAll (List.replicate
            ((Sessions.takenOn k s.taken).countP fun m => IsType (chr 'c') m) fileAnswer) ∧
          (0 < conn.shutdownWrites →
            decoder.front (decoder.parse (s.arrived k)).2 = .invalid)) ∧
        ∀ pre a m post, s.taken = pre ++ (k, a, m) :: post →
          (∀ m ∈ Sessions.takenOn k pre, ¬ IsType (chr 'a') m) → IsType (chr 'a') m →
          ∃ reply, (processMessage (Runs.run afterCall (UserCatalogue.init (lit "1111") 100 :
              UserCatalogue σ) (registrations (pre ++ [(k, a, m)]))) (ipField m)).val =
                some reply ∧
            conn.written ++ conn.outputBuffer.content = encoder.encodeAll (List.replicate
              ((Sessions.takenOn k pre).countP fun m => IsType (chr 'c') m) fileAnswer ++
                [lit "b0" ++ reply])) ∨
    (es.foldlM (Sessions.step handler)
        (Sessions.init (UserCatalogue.init (lit "1111") 100 : UserCatalogue σ)) = none ∧
      Sessions.RunFails handler (UserCatalogue.init (lit "1111") 100 : UserCatalogue σ) es) := by
  rcases Sessions.inv_run handler (UserCatalogue.init (lit "1111") 100 : UserCatalogue σ) es with
    ⟨s, effects, hs, h⟩ | hfails
  swap
  · exact .inr hfails
  refine .inl ⟨s, hs, state_of_serial h.serial_eq, fun k => ⟨fun hk => ?_, ?_⟩⟩
  · have heffects := effectsOn_of_serial h.serial_eq hk
    refine ⟨?_, fun hclosed => ?_⟩
    · rw [(h.session k).encoded, heffects, ← List.append_nil (List.replicate _ (Effect.send _)),
        sends_replicate, Effect.sends, List.append_nil]
    · have hcalled := (h.session k).shutdownCalled_iff.1 ((h.session k).written_eq hclosed).1
      refine hcalled.resolve_left fun hmem => ?_
      rw [heffects] at hmem
      cases List.eq_of_mem_replicate hmem
  · intro pre a m post htaken hpre ha
    have hserial := h.serial_eq
    rw [htaken] at hserial
    obtain ⟨reply, hreply, hsends⟩ := sends_of_serial hserial hpre ha
    exact ⟨reply, hreply, by rw [(h.session k).encoded, hsends]⟩

end P2PServer

end Huaweip2p
