import PurecryptoTpm.Exchange

/-!
What auth values and session keys can influence. Two runs that differ in
nothing else are told apart only by the HMAC tags of the commands and by the
verdicts on the HMACs of the responses: as long as these coincide, everything
sent, returned and remembered does. For the bind entity of a session the auth
value does not even reach the tags.
-/

namespace PurecryptoTpm

variable {τ : Type} [Transport τ]

/-! ### What two runs agree on -/

/-- A session without its key. -/
def Session.publicPart (s : Session) : Session := { s with sessionKey := [] }

/-- A call without its auth value. -/
def Call.publicPart (c : Call) : Call := { c with authValue := [] }

/-- What one call leaves to the next. -/
structure Party (τ : Type) where
  transport : τ
  session : Session
  os : OsRng

def Party.publicPart (p : Party τ) : Party τ := { p with session := p.session.publicPart }

/-- The verdict on the HMAC of the reply behind an outcome, if it carries one. -/
def verdict (P : Purecrypto) (code : UInt32) (names : List Bytes) (respHandles : ℕ)
    (s : Session) (authValue : Bytes) : Except Error Bytes → Option (Outcome Error Unit)
  | .ok resp =>
      match readOutcome respHandles resp with
      | .ok reply => reply.entry.map fun entry =>
          (verifySession P 0 code names reply.raw.params entry (.session s authValue)).1
      | _ => none
  | .error _ => none

namespace Call

/-- Run a call, and keep the session it was run with. -/
def step (P : Purecrypto) (c : Call) (p : Party τ) : Outcome Error RawResponse × Party τ :=
  let result := c.run P p.transport p.session p.os
  (result.1,
    { transport := result.2.transport
      session :=
        match result.2.auth with
        | .session s _ => s
        | _ => p.session
      os := result.2.os })

/-- The HMAC tag of the command, if one is sent. -/
def commandTag (P : Purecrypto) (c : Call) (p : Party τ) : Option Bytes :=
  (Digest.ofAlg p.session.hashAlg).map fun d =>
    commandHmac P d p.session c.authValue c.code c.names c.params (p.os.drawn d.size)

/-- The verdict on the reply the call ends with. -/
def replyVerdict (P : Purecrypto) (c : Call) (p : Party τ) : Option (Outcome Error Unit) :=
  (Digest.ofAlg p.session.hashAlg).bind fun d =>
    verdict P c.code c.names c.respHandles { p.session with nonceCaller := p.os.drawn d.size }
      c.authValue
      (settle (c.frame P d p.session (p.os.drawn d.size)) maxTransientRetries p.transport).1

/-- All that may tell two runs of a call apart. -/
def observation (P : Purecrypto) (c : Call) (p : Party τ) :
    Option Bytes × Option (Outcome Error Unit) :=
  (c.commandTag P p, c.replyVerdict P p)

end Call

/-- A number of calls, each with what it left behind. -/
def runs (P : Purecrypto) : List Call → Party τ → List (Outcome Error RawResponse × Party τ)
  | [], _ => []
  | c :: calls, p => c.step P p :: runs P calls (c.step P p).2

def observations (P : Purecrypto) :
    List Call → Party τ → List (Option Bytes × Option (Outcome Error Unit))
  | [], _ => []
  | c :: calls, p => c.observation P p :: observations P calls (c.step P p).2

/-! ### One call -/

section Interpret

variable {P : Purecrypto} {code : UInt32} {names : List Bytes} {n : ℕ}
  {o : Except Error Bytes} {s₁ s₂ : Session} {a₁ a₂ : Bytes}

/-- Verifications with the same verdict absorb the same nonce, if any. -/
theorem verifySession_alike {params : Bytes} {entry : AuthResponse}
    (h : (verifySession P 0 code names params entry (.session s₁ a₁)).1 =
      (verifySession P 0 code names params entry (.session s₂ a₂)).1) :
    ∃ result, ∃ absorbed : Option Bytes,
      verifySession P 0 code names params entry (.session s₁ a₁) =
        (result, .session { s₁ with nonceTpm := absorbed.getD s₁.nonceTpm } a₁) ∧
      verifySession P 0 code names params entry (.session s₂ a₂) =
        (result, .session { s₂ with nonceTpm := absorbed.getD s₂.nonceTpm } a₂) := by
  rcases verifySession_session P s₁ a₁ code names params entry with ⟨-, hok₁⟩ | ⟨-, e₁, -, herr₁⟩
  · rcases verifySession_session P s₂ a₂ code names params entry with ⟨-, hok₂⟩ | ⟨-, e₂, -, herr₂⟩
    · exact ⟨.ok (), some entry.nonceTpm, hok₁, hok₂⟩
    · simp [hok₁, herr₂] at h
  · rcases verifySession_session P s₂ a₂ code names params entry with ⟨-, hok₂⟩ | ⟨-, e₂, -, herr₂⟩
    · simp [herr₁, hok₂] at h
    · obtain rfl : e₁ = e₂ := by simpa [herr₁, herr₂] using h
      exact ⟨.err e₁, none, herr₁, herr₂⟩

/-- With the same verdict an outcome is interpreted in the same way, and the
same nonce is absorbed, if any. -/
theorem interpret_alike
    (h : verdict P code names n s₁ a₁ o = verdict P code names n s₂ a₂ o) :
    ∃ result, ∃ absorbed : Option Bytes,
      interpret P code names n o (.session s₁ a₁) =
        (result, .session { s₁ with nonceTpm := absorbed.getD s₁.nonceTpm } a₁) ∧
      interpret P code names n o (.session s₂ a₂) =
        (result, .session { s₂ with nonceTpm := absorbed.getD s₂.nonceTpm } a₂) := by
  cases o with
  | error e => exact ⟨_, none, interpret_error e, interpret_error e⟩
  | ok resp =>
      rw [interpret_ok, parseResponse_eq]
      rcases readOutcome_cases n resp with
        ⟨⟨raw, entry⟩, -, hread⟩ | ⟨_, _, rc, _, -, -, hread⟩ | ⟨e, -, hread⟩
      · simp only [verdict, hread] at h
        rw [hread]
        cases entry with
        | none => exact ⟨.ok raw, none, rfl, rfl⟩
        | some entry =>
            rw [Option.map_some, Option.map_some, Option.some_inj] at h
            obtain ⟨verdict, absorbed, h₁, h₂⟩ := verifySession_alike h
            have hverify : ∀ auth : Auth,
                (Exec.resume (.ok ⟨raw, some entry⟩) >>= verifyReply P code names) auth =
                  (do verifySession P 0 code names raw.params entry; pure raw) auth := fun _ => rfl
            rw [hverify, hverify]
            -- what follows the verification only passes the parameters on
            cases verdict with
            | ok => exact ⟨.ok raw, absorbed, Exec.bind_ok h₁, Exec.bind_ok h₂⟩
            | err e => exact ⟨.err e, absorbed, Exec.bind_err h₁, Exec.bind_err h₂⟩
            | panic => exact ⟨.panic, absorbed, Exec.bind_panic h₁, Exec.bind_panic h₂⟩
      · rw [hread]
        exact ⟨_, none, rfl, rfl⟩
      · rw [hread]
        exact ⟨_, none, rfl, rfl⟩

end Interpret

namespace Call

theorem run_settles (P : Purecrypto) (c : Call) (t : τ) {s : Session} {d : Digest}
    (hd : Digest.ofAlg s.hashAlg = some d) (os : OsRng) :
    c.run P t s os =
      ((interpret P c.code c.names c.respHandles
          (settle (c.frame P d s (os.drawn d.size)) maxTransientRetries t).1
          (.session { s with nonceCaller := os.drawn d.size } c.authValue)).1,
        { transport := (settle (c.frame P d s (os.drawn d.size)) maxTransientRetries t).2
          auth := (interpret P c.code c.names c.respHandles
            (settle (c.frame P d s (os.drawn d.size)) maxTransientRetries t).1
            (.session { s with nonceCaller := os.drawn d.size } c.authValue)).2
          os := os.skip d.size }) :=
  @PurecryptoTpm.run_settles τ _ P c.code c.handles c.names c.params c.respHandles _
    ⟨t, .session s c.authValue, os⟩ _ _ (requestFrame_session hd)

theorem run_unsupported (P : Purecrypto) (c : Call) (t : τ) {s : Session}
    (hd : Digest.ofAlg s.hashAlg = none) (os : OsRng) :
    c.run P t s os = (.err (.usage "unsupported hash algorithm"),
      { transport := t, auth := .session s c.authValue, os := os }) :=
  @run_of_frame_err τ _ P c.code c.handles c.names c.params c.respHandles
    ⟨t, .session s c.authValue, os⟩ _ _ _ (requestFrame_unsupported hd)

/-- Calls with the same tag send the same frame. -/
theorem frame_alike {P : Purecrypto} {c : Call} {d : Digest} {s : Session} {nonce key a : Bytes}
    (h : commandHmac P d s c.authValue c.code c.names c.params nonce =
      commandHmac P d { s with sessionKey := key } a c.code c.names c.params nonce) :
    c.frame P d s nonce = ({ c with authValue := a } : Call).frame P d
      { s with sessionKey := key } nonce := by
  rw [frame, frame, sessionEntry, sessionEntry, h]

theorem publicPart_eq_iff {c₁ c₂ : Call} :
    c₁.publicPart = c₂.publicPart ↔ ∃ a, c₂ = { c₁ with authValue := a } := by
  constructor
  · intro h
    cases c₁
    cases c₂
    simp only [publicPart, mk.injEq] at h
    obtain ⟨rfl, rfl, rfl, rfl, rfl, -⟩ := h
    exact ⟨_, rfl⟩
  · rintro ⟨a, rfl⟩
    rfl

end Call

theorem Session.publicPart_eq_iff {s₁ s₂ : Session} :
    s₁.publicPart = s₂.publicPart ↔ ∃ key, s₂ = { s₁ with sessionKey := key } := by
  constructor
  · intro h
    cases s₁
    cases s₂
    simp only [publicPart, mk.injEq] at h
    obtain ⟨rfl, rfl, rfl, -, rfl, rfl, rfl⟩ := h
    exact ⟨_, rfl⟩
  · rintro ⟨key, rfl⟩
    rfl

/-- One call, in two runs that no observation tells apart. -/
theorem Call.step_alike {P : Purecrypto} {c₁ c₂ : Call} {p₁ p₂ : Party τ}
    (hc : c₁.publicPart = c₂.publicPart) (hp : p₁.publicPart = p₂.publicPart)
    (h : c₁.observation P p₁ = c₂.observation P p₂) :
    (c₁.step P p₁).1 = (c₂.step P p₂).1 ∧
      (c₁.step P p₁).2.publicPart = (c₂.step P p₂).2.publicPart := by
  obtain ⟨t, s, os⟩ := p₁
  obtain ⟨t₂, s₂, os₂⟩ := p₂
  obtain ⟨rfl, hs, rfl⟩ : t = t₂ ∧ s.publicPart = s₂.publicPart ∧ os = os₂ := by
    simpa [Party.publicPart] using hp
  obtain ⟨a, rfl⟩ := Call.publicPart_eq_iff.1 hc
  obtain ⟨key, rfl⟩ := Session.publicPart_eq_iff.1 hs
  cases hd : Digest.ofAlg s.hashAlg with
  | none =>
      have hd' : Digest.ofAlg ({ s with sessionKey := key } : Session).hashAlg = none := hd
      rw [step, step, run_unsupported P c₁ t hd os, run_unsupported P _ t hd' os]
      exact ⟨rfl, hp⟩
  | some d =>
      have hd' : Digest.ofAlg ({ s with sessionKey := key } : Session).hashAlg = some d := hd
      obtain ⟨htag, hverdict⟩ := Prod.mk.inj h
      simp only [commandTag, replyVerdict, hd, Option.map_some, Option.bind_some,
        Option.some_inj] at htag hverdict
      -- the same frame is sent, so the same outcome is interpreted
      have hframe := frame_alike htag
      rw [← hframe] at hverdict
      obtain ⟨result, absorbed, h₁, h₂⟩ := interpret_alike hverdict
      rw [step, step, run_settles P c₁ t hd os, run_settles P _ t hd' os, ← hframe, h₁, h₂]
      exact ⟨rfl, rfl⟩

/-- A call changes nothing of the session but the nonces. -/
theorem Call.step_session (P : Purecrypto) (c : Call) (p : Party τ) :
    ∃ nonceTpm nonceCaller, (c.step P p).2.session =
      { p.session with nonceTpm := nonceTpm, nonceCaller := nonceCaller } := by
  obtain ⟨t, s, os⟩ := p
  cases hd : Digest.ofAlg s.hashAlg with
  | none =>
      rw [step, run_unsupported P c t hd os]
      exact ⟨s.nonceTpm, s.nonceCaller, rfl⟩
  | some d =>
      obtain ⟨result, absorbed, h, -⟩ := @interpret_alike P c.code c.names c.respHandles
        (settle (c.frame P d s (os.drawn d.size)) maxTransientRetries t).1
        { s with nonceCaller := os.drawn d.size } { s with nonceCaller := os.drawn d.size }
        c.authValue c.authValue rfl
      rw [step, run_settles P c t hd os, h]
      exact ⟨_, _, rfl⟩

/-! ### The bind entity -/

/-- The first Name of a call is the one its session is bound to. -/
def Session.Binds (s : Session) (c : Call) : Prop :=
  s.boundName ≠ [] ∧ c.names.head? = some s.boundName

theorem Session.Binds.hmacKey {s : Session} {c : Call} (h : s.Binds c) (a : Bytes) :
    s.hmacKey a (objectName c.names) = s.sessionKey := by
  have hname : s.boundName = objectName c.names := by
    rw [objectName, List.headD_eq_head?_getD, h.2]
    rfl
  rw [hmacKey_eq, if_pos ⟨h.1, hname⟩]

/-- The auth value reaches a verdict through the key alone. -/
theorem verdict_congr {P : Purecrypto} {code : UInt32} {names : List Bytes} {n : ℕ} {s : Session}
    {a₁ a₂ : Bytes} (h : s.hmacKey a₁ (objectName names) = s.hmacKey a₂ (objectName names))
    (o : Except Error Bytes) : verdict P code names n s a₁ o = verdict P code names n s a₂ o := by
  have hresponse : ∀ rp entry, Session.verifyResponse P rp a₁ (objectName names) entry s =
      Session.verifyResponse P rp a₂ (objectName names) entry s := by
    intro rp entry
    rw [Session.verifyResponse, Session.verifyResponse, Exec.get_bind, Exec.get_bind, h]
  have hverify : ∀ params entry,
      (verifySession P 0 code names params entry (.session s a₁)).1 =
        (verifySession P 0 code names params entry (.session s a₂)).1 := by
    intro params entry
    show ((Exec.ofExcept (rpHash P s.hashAlg 0 code params) >>= fun rp =>
        Session.verifyResponse P rp a₁ (objectName names) entry) s).1 =
      ((Exec.ofExcept (rpHash P s.hashAlg 0 code params) >>= fun rp =>
        Session.verifyResponse P rp a₂ (objectName names) entry) s).1
    cases rpHash P s.hashAlg 0 code params with
    | error e => rfl
    | ok rp => rw [Exec.ofExcept_ok_bind, Exec.ofExcept_ok_bind, hresponse]
  cases o with
  | error e => rfl
  | ok resp => simp only [verdict, hverify]

/-- Neither the tag nor the verdict depends on the auth value of the bind entity. -/
theorem Call.observation_bound {P : Purecrypto} {c : Call} {p : Party τ}
    (h : p.session.Binds c) (a : Bytes) :
    c.observation P p = ({ c with authValue := a } : Call).observation P p := by
  have hkey : p.session.hmacKey c.authValue (objectName c.names) =
      p.session.hmacKey a (objectName c.names) := (h.hmacKey _).trans (h.hmacKey a).symm
  cases hd : Digest.ofAlg p.session.hashAlg with
  | none => simp [observation, commandTag, replyVerdict, hd]
  | some d =>
      have htag : commandHmac P d p.session c.authValue c.code c.names c.params
          (p.os.drawn d.size) =
          commandHmac P d p.session a c.code c.names c.params (p.os.drawn d.size) := by
        rw [commandHmac, commandHmac, hkey]
      have hframe : c.frame P d p.session (p.os.drawn d.size) =
          ({ c with authValue := a } : Call).frame P d p.session (p.os.drawn d.size) := by
        rw [frame, frame, sessionEntry, sessionEntry, htag]
      have hverdict := @verdict_congr P c.code c.names c.respHandles
        { p.session with nonceCaller := p.os.drawn d.size } c.authValue a hkey
      simp only [observation, commandTag, replyVerdict, hd, Option.map_some, Option.bind_some,
        htag, hframe, hverdict]

/-- A call of the bind entity ends in the same way for every auth value. -/
theorem Call.step_bound {P : Purecrypto} {c₁ c₂ : Call} {p : Party τ}
    (hc : c₁.publicPart = c₂.publicPart) (h : p.session.Binds c₁) :
    c₁.step P p = c₂.step P p := by
  obtain ⟨a, rfl⟩ := Call.publicPart_eq_iff.1 hc
  obtain ⟨hresult, hparty⟩ := step_alike hc rfl (observation_bound (P := P) h a)
  obtain ⟨nonceTpm₁, nonceCaller₁, hsession₁⟩ := c₁.step_session P p
  obtain ⟨nonceTpm₂, nonceCaller₂, hsession₂⟩ := Call.step_session P { c₁ with authValue := a } p
  generalize c₁.step P p = r₁ at hresult hparty hsession₁ ⊢
  generalize ({ c₁ with authValue := a } : Call).step P p = r₂ at hresult hparty hsession₂ ⊢
  obtain ⟨result₁, t₁, s₁, os₁⟩ := r₁
  obtain ⟨result₂, t₂, s₂, os₂⟩ := r₂
  simp only [Party.publicPart, Party.mk.injEq] at hparty hresult hsession₁ hsession₂
  obtain ⟨rfl, hsession, rfl⟩ := hparty
  -- the key is the one before the call in both cases
  obtain ⟨key, rfl⟩ := Session.publicPart_eq_iff.1 hsession
  have hkey₁ : s₁.sessionKey = p.session.sessionKey := by rw [hsession₁]
  have hkey₂ : key = p.session.sessionKey := by simpa using congrArg Session.sessionKey hsession₂
  rw [hresult, hkey₂, ← hkey₁]

/-! ### A run -/

/-- Two runs that no observation tells apart, call by call. -/
theorem runs_alike {P : Purecrypto} {calls₁ calls₂ : List Call} {p₁ p₂ : Party τ}
    (hcalls : calls₁.map Call.publicPart = calls₂.map Call.publicPart)
    (hp : p₁.publicPart = p₂.publicPart)
    (h : observations P calls₁ p₁ = observations P calls₂ p₂) :
    (runs P calls₁ p₁).map (fun r => (r.1, r.2.publicPart)) =
      (runs P calls₂ p₂).map fun r => (r.1, r.2.publicPart) := by
  induction calls₁ generalizing calls₂ p₁ p₂ with
  | nil =>
      obtain rfl : calls₂ = [] := by simpa using hcalls.symm
      rfl
  | cons c₁ calls₁ ih =>
      cases calls₂ with
      | nil => simp at hcalls
      | cons c₂ calls₂ =>
          obtain ⟨hc, hcalls⟩ := List.cons.inj hcalls
          obtain ⟨hobservation, hrest⟩ := List.cons.inj h
          obtain ⟨hresult, hparty⟩ := Call.step_alike hc hp hobservation
          rw [runs, runs, List.map_cons, List.map_cons, hresult, hparty, ih hcalls hparty hrest]

/-- Two lists of calls that differ in auth values of the bind entity only. -/
def BoundAlike (s : Session) : List Call → List Call → Prop :=
  List.Forall₂ fun c₁ c₂ => c₁ = c₂ ∨ (c₁.publicPart = c₂.publicPart ∧ s.Binds c₁)

theorem runs_bound {P : Purecrypto} {calls₁ calls₂ : List Call} {p : Party τ}
    (h : BoundAlike p.session calls₁ calls₂) : runs P calls₁ p = runs P calls₂ p := by
  rw [BoundAlike] at h
  generalize hs : p.session = s at h
  -- along the run the session keeps the Name it is bound to
  suffices hruns : ∀ p : Party τ, p.session.boundName = s.boundName →
      runs P calls₁ p = runs P calls₂ p from hruns p (by rw [hs])
  clear hs
  induction h with
  | nil => exact fun _ _ => rfl
  | @cons c₁ c₂ calls₁ calls₂ hc _ ih =>
      intro p hname
      have hstep : c₁.step P p = c₂.step P p := by
        rcases hc with rfl | ⟨hpublic, hbinds⟩
        · rfl
        · apply Call.step_bound hpublic
          rwa [Session.Binds, hname]
      obtain ⟨nonceTpm, nonceCaller, hsession⟩ := c₂.step_session P p
      rw [runs, runs, hstep, ih _ (by rw [hsession]; exact hname)]

/-- What can be seen of a run behind a call. -/
structure CallRecord where
  result : Outcome Error RawResponse
  sent : List Bytes
  nonceTpm : Bytes
  nonceCaller : Bytes
  deriving DecidableEq

def CallRecord.of (r : Outcome Error RawResponse × Party Responder) : CallRecord where
  result := r.1
  sent := r.2.transport.sent
  nonceTpm := r.2.session.nonceTpm
  nonceCaller := r.2.session.nonceCaller

/-- Auth values and session keys show in the HMAC tags and the verdicts only, and
auth values of the bind entity do not show at all. -/
theorem authValues_hidden (P : Purecrypto) :
    (∀ (calls₁ calls₂ : List Call) (p₁ p₂ : Party Responder),
      calls₁.map Call.publicPart = calls₂.map Call.publicPart →
      p₁.publicPart = p₂.publicPart →
      observations P calls₁ p₁ = observations P calls₂ p₂ →
      (runs P calls₁ p₁).map CallRecord.of = (runs P calls₂ p₂).map CallRecord.of) ∧
    ∀ (calls₁ calls₂ : List Call) (p : Party Responder), BoundAlike p.session calls₁ calls₂ →
      (runs P calls₁ p).map CallRecord.of = (runs P calls₂ p).map CallRecord.of := by
  refine ⟨?_, ?_⟩
  · intro calls₁ calls₂ p₁ p₂ hcalls hp h
    have hruns := congrArg (List.map CallRecord.of) (runs_alike hcalls hp h)
    rw [List.map_map, List.map_map] at hruns
    exact hruns
  · intro calls₁ calls₂ p h
    rw [runs_bound h]

/-- The call with another auth value. -/
def unsealWith (authValue : Bytes) : Call := { unsealCall with authValue := authValue }

/-- A session with the recorded peer, which answers everything with its one entry. -/
def unsealParty (s : Session) : Party Responder where
  transport :=
    { respond := fun _ =>
        .ok (successReply st.sessions [] (authorizedBody unsealParams unsealEntry))
      sent := [] }
  session := s
  os := ⟨fun _ => 0x33⟩

/-- Two calls with the password in two places, and two with the bound object's
auth value changed. -/
theorem authValues_hidden_unseal :
    (runs unsealCrypto [unsealCall, unsealCall] (unsealParty unsealSession)).map CallRecord.of =
      (runs unsealCrypto [unsealWith [0x77], unsealWith [0x77]] (unsealParty splitSession)).map
        CallRecord.of ∧
    (runs unsealCrypto [unsealWith [], unsealWith [0xAA]] (unsealParty { unsealSession with
        sessionKey := [0x70, 0x77], boundName := [0x80, 0, 0, 0] })).map CallRecord.of =
      (runs unsealCrypto [unsealWith [0xBB], unsealWith [0xCC]] (unsealParty { unsealSession with
        sessionKey := [0x70, 0x77], boundName := [0x80, 0, 0, 0] })).map CallRecord.of := by
  obtain ⟨halike, hbound⟩ := authValues_hidden unsealCrypto
  refine ⟨?_, ?_⟩
  · exact halike [unsealCall, unsealCall] [unsealWith [0x77], unsealWith [0x77]]
      (unsealParty unsealSession) (unsealParty splitSession) rfl rfl (by decide +kernel)
  · have hbinds : ∀ a b : Bytes, unsealWith a = unsealWith b ∨
        ((unsealWith a).publicPart = (unsealWith b).publicPart ∧ Session.Binds { unsealSession with
          sessionKey := [0x70, 0x77], boundName := [0x80, 0, 0, 0] } (unsealWith a)) :=
      fun _ _ => .inr ⟨rfl, by decide, rfl⟩
    exact hbound _ _ _ (.cons (hbinds _ _) (.cons (hbinds _ _) .nil))

end PurecryptoTpm
