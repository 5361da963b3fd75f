import PurecryptoTpm.Authenticity

/-!
Any number of calls on one session, failing and succeeding. Apart from the two
nonces nothing of the session ever changes, and the TPM nonce changes only
behind a verified entry, so every command HMAC is computed with the nonce of
the last verified entry. A call that succeeds without having verified
anything is the one that does not roll the nonce.
-/

namespace PurecryptoTpm

/-- One call of a history, with what it started from. -/
structure Step where
  call : Call
  line : Line
  before : Session
  os : OsRng

namespace Step

def result (P : Purecrypto) (e : Step) : Outcome Error RawResponse × Env Line :=
  e.call.run P e.line e.before e.os

/-- The session behind the call. -/
def after (P : Purecrypto) (e : Step) : Session :=
  match (e.result P).2.auth with
  | .session s _ => s
  | _ => e.before

/-- The entry with the nonce the session absorbs, if there is one. -/
def Verifies (P : Purecrypto) (e : Step) (entry : AuthResponse) : Prop :=
  ∃ nonce raw, (∃ d, Digest.ofAlg e.before.hashAlg = some d ∧ nonce = e.os.drawn d.size) ∧
    VerifiedBy P e.call e.line e.before nonce raw entry

/-- The session survives the call: its fields are kept but for the nonces, a
failure keeps the TPM nonce, and a success replaces it by that of a verified entry. -/
structure Survives (P : Purecrypto) (e : Step) : Prop where
  kept : ∃ nonceCaller nonceTpm, (e.result P).2.auth = .session
    { e.before with nonceCaller := nonceCaller, nonceTpm := nonceTpm } e.call.authValue
  failed : ∀ err, (e.result P).1 = .err err → (e.after P).nonceTpm = e.before.nonceTpm
  rolled : ∀ raw, (e.result P).1 = .ok raw →
    ∃ entry, e.Verifies P entry ∧ (e.after P).nonceTpm = entry.nonceTpm

/-- What holds of every call, downgraded or not. -/
structure Keeps (P : Purecrypto) (e : Step) : Prop where
  kept : ∃ nonceCaller nonceTpm, (e.result P).2.auth = .session
    { e.before with nonceCaller := nonceCaller, nonceTpm := nonceTpm } e.call.authValue
  failed : ∀ err, (e.result P).1 = .err err → (e.after P).nonceTpm = e.before.nonceTpm
  changed : (e.after P).nonceTpm ≠ e.before.nonceTpm → ∃ raw entry,
    (e.result P).1 = .ok raw ∧ e.Verifies P entry ∧ (e.after P).nonceTpm = entry.nonceTpm
  discarded : ∀ d i j, Digest.ofAlg e.before.hashAlg = some d → StopsAt e.line.outcome i → j < i →
    (interpret P e.call.code e.call.names e.call.respHandles (e.line.outcome j)
        (.session { e.before with nonceCaller := e.os.drawn d.size } e.call.authValue)).2 =
      .session { e.before with nonceCaller := e.os.drawn d.size } e.call.authValue

end Step

/-- The history of a list of calls, each over a line of its own. -/
def history (P : Purecrypto) : Session → OsRng → List (Call × Line) → List Step
  | _, _, [] => []
  | s, os, (c, line) :: calls =>
      let e : Step := { call := c, line := line, before := s, os := os }
      e :: history P (e.after P) (e.result P).2.os calls

/-- The TPM nonce of the last verified entry of a history, or the one before it. -/
inductive LastVerified (P : Purecrypto) : Bytes → List Step → Bytes → Prop where
  | none (nonce : Bytes) : LastVerified P nonce [] nonce
  | verified {nonce last : Bytes} {e : Step} {es : List Step} {entry : AuthResponse}
      (h : e.Verifies P entry) (rest : LastVerified P entry.nonceTpm es last) :
      LastVerified P nonce (e :: es) last
  | unverified {nonce last : Bytes} {e : Step} {es : List Step}
      (h : ∀ entry, ¬ e.Verifies P entry) (rest : LastVerified P nonce es last) :
      LastVerified P nonce (e :: es) last

/-! ### One call -/

namespace Step

variable {P : Purecrypto} {e : Step}

theorem after_of_auth {s : Session} {authValue : Bytes}
    (h : (e.result P).2.auth = .session s authValue) : e.after P = s := by
  rw [after, h]

/-- A verified entry is accepted. -/
theorem Verifies.result {entry : AuthResponse} (h : e.Verifies P entry) :
    ∃ nonceCaller raw, (e.result P).1 = .ok raw ∧ (e.result P).2.auth = .session
      { e.before with nonceCaller := nonceCaller, nonceTpm := entry.nonceTpm }
      e.call.authValue := by
  obtain ⟨_, raw, ⟨d, hd, rfl⟩, d', i, resp, hd', hstop, hresp, hreading, hhmac⟩ := h
  obtain rfl : d = d' := Option.some.inj (hd.symm.trans hd')
  obtain ⟨j, hstop', hrun⟩ := e.call.run_line P e.line hd e.os
  obtain rfl := hstop.unique hstop'
  have haccepts : Auth.Accepts P e.call.code e.call.names { raw, entry := some entry }
      (.session { e.before with nonceCaller := e.os.drawn d.size } e.call.authValue) := by
    rintro _ ⟨rfl⟩
    exact ⟨d, hd, hhmac⟩
  have hok := parseResponse_ok_iff.mpr ⟨_, hreading, haccepts, rfl, rfl⟩
  rw [Step.result, hrun, hresp, interpret_ok, hok]
  exact ⟨e.os.drawn d.size, raw, rfl, rfl⟩

/-- Without one, the nonce stays, and the call fails or is downgraded. -/
theorem result_of_not_verifies (h : ∀ entry, ¬ e.Verifies P entry) :
    (∃ nonceCaller, (e.result P).2.auth = .session
      { e.before with nonceCaller := nonceCaller } e.call.authValue) ∧
    ((∃ err, (e.result P).1 = .err err) ∨ Downgraded e.call e.line e.before) := by
  have hcall := run_sessionCall P e.call e.line e.before e.os
  rw [Step.result]
  generalize (e.call.run P e.line e.before e.os).1 = o at hcall ⊢
  generalize (e.call.run P e.line e.before e.os).2 = env at hcall ⊢
  cases hcall with
  | unsent hd => exact ⟨⟨e.before.nonceCaller, rfl⟩, .inl ⟨_, rfl⟩⟩
  | failed hd hstop => exact ⟨⟨_, rfl⟩, .inl ⟨_, rfl⟩⟩
  | @unverified d i resp raw hd hstop hresp hreading =>
      have hbare := sessionlessReply_iff.mpr ⟨raw, hreading⟩
      exact ⟨⟨_, rfl⟩, .inr ⟨d, i, resp, hd, hstop, hresp, hbare⟩⟩
  | @verified d i resp raw entry hd hstop hresp hreading hhmac =>
      exact absurd ⟨_, raw, ⟨d, hd, rfl⟩, d, i, resp, hd, hstop, hresp, hreading, hhmac⟩ (h entry)

theorem keeps (P : Purecrypto) (e : Step) : e.Keeps P := by
  by_cases hverifies : ∃ entry, e.Verifies P entry
  · obtain ⟨entry, hverifies⟩ := hverifies
    obtain ⟨nonceCaller, raw, hok, hauth⟩ := hverifies.result
    have hafter := after_of_auth hauth
    refine ⟨⟨_, _, hauth⟩, ?_, ?_, ?_⟩
    · intro err herr
      simp [hok] at herr
    · intro _
      exact ⟨raw, entry, hok, hverifies, by rw [hafter]⟩
    · intro d i j hd hstop hj
      exact interpret_transient (hstop.2.1 j hj)
  · rw [not_exists] at hverifies
    obtain ⟨⟨nonceCaller, hauth⟩, -⟩ := result_of_not_verifies hverifies
    have hafter := after_of_auth hauth
    refine ⟨⟨_, _, hauth⟩, ?_, ?_, ?_⟩
    · intro err _
      rw [hafter]
    · intro hchanged
      exact absurd (by rw [hafter]) hchanged
    · intro d i j hd hstop hj
      exact interpret_transient (hstop.2.1 j hj)

theorem survives_iff (P : Purecrypto) (e : Step) :
    e.Survives P ↔ ¬ Downgraded e.call e.line e.before := by
  constructor
  · intro hsurvives hdowngraded
    obtain ⟨raw, -, hok, -⟩ := hdowngraded.run P e.os
    obtain ⟨entry, ⟨_, _, -, hverified⟩, -⟩ := hsurvives.rolled raw hok
    exact hverified.not_downgraded hdowngraded
  · intro hdowngraded
    have hkeeps := e.keeps P
    refine ⟨hkeeps.kept, hkeeps.failed, fun raw hok => ?_⟩
    by_contra hnone
    have hverifies : ∀ entry, ¬ e.Verifies P entry := by
      intro entry hverifies
      obtain ⟨nonceCaller, raw', -, hauth⟩ := hverifies.result
      exact hnone ⟨entry, hverifies, by rw [after_of_auth hauth]⟩
    rcases (result_of_not_verifies hverifies).2 with ⟨err, herr⟩ | hdowngraded'
    · simp [hok] at herr
    · exact hdowngraded hdowngraded'

/-- Every frame of a call carries the HMAC computed with the nonce it started with. -/
theorem frames (P : Purecrypto) (e : Step) : ∃ k, (e.result P).2.transport.sent =
      e.line.sent ++ k ∧ ∀ frame ∈ k, ∃ d, Digest.ofAlg e.before.hashAlg = some d ∧
        frame = e.call.frame P d e.before (e.os.drawn d.size) := by
  have hcall := run_sessionCall P e.call e.line e.before e.os
  rw [Step.result]
  generalize (e.call.run P e.line e.before e.os).1 = o at hcall
  generalize (e.call.run P e.line e.before e.os).2 = env at hcall ⊢
  have hpushes : ∀ (d : Digest) (i : ℕ), Digest.ofAlg e.before.hashAlg = some d →
      ∃ k, (e.line.pushes (i + 1) (e.call.frame P d e.before (e.os.drawn d.size))).sent =
        e.line.sent ++ k ∧ ∀ frame ∈ k, ∃ d, Digest.ofAlg e.before.hashAlg = some d ∧
          frame = e.call.frame P d e.before (e.os.drawn d.size) := by
    intro d i hd
    exact ⟨_, rfl, fun frame hframe => ⟨d, hd, List.eq_of_mem_replicate hframe⟩⟩
  cases hcall with
  | unsent hd => exact ⟨[], (List.append_nil _).symm, by simp⟩
  | failed hd hstop => exact hpushes _ _ hd
  | unverified hd hstop hresp hreading => exact hpushes _ _ hd
  | verified hd hstop hresp hreading hhmac => exact hpushes _ _ hd

end Step

/-! ### Any number of calls -/

/-- The session at any point of a history: the first one but for the nonces,
with the TPM nonce of the last verified entry. -/
theorem history_before (P : Purecrypto) (s : Session) (os : OsRng) (calls : List (Call × Line)) :
    ∀ pre e post, history P s os calls = pre ++ e :: post → ∃ nonceCaller nonceTpm,
      e.before = { s with nonceCaller := nonceCaller, nonceTpm := nonceTpm } ∧
      LastVerified P s.nonceTpm pre nonceTpm := by
  induction calls generalizing s os with
  | nil =>
      intro pre e post h
      simp [history] at h
  | cons call calls ih =>
      intro pre e post h
      rw [history] at h
      cases pre with
      | nil =>
          -- nothing has been verified before the first call
          obtain ⟨rfl, -⟩ := List.cons.inj h
          exact ⟨s.nonceCaller, s.nonceTpm, rfl, .none _⟩
      | cons first pre =>
          obtain ⟨hfirst, hrest⟩ := List.cons.inj h
          -- a later call starts from the session the first one leaves behind
          obtain ⟨nonceCaller, nonceTpm, hbefore, hlast⟩ := ih _ _ pre e post hrest
          rw [hfirst] at hbefore hlast
          have hs : first.before = s := by rw [← hfirst]
          by_cases hverifies : ∃ entry, first.Verifies P entry
          · obtain ⟨entry, hverifies⟩ := hverifies
            obtain ⟨_, _, -, hauth⟩ := hverifies.result
            rw [Step.after_of_auth hauth] at hbefore hlast
            rw [hs] at hbefore
            exact ⟨nonceCaller, nonceTpm, hbefore, .verified hverifies hlast⟩
          · rw [not_exists] at hverifies
            obtain ⟨⟨_, hauth⟩, -⟩ := Step.result_of_not_verifies hverifies
            rw [Step.after_of_auth hauth] at hbefore hlast
            rw [hs] at hbefore hlast
            exact ⟨nonceCaller, nonceTpm, hbefore, .unverified hverifies hlast⟩

/-- Over any calls on one session: the session survives all of them exactly if
none is downgraded. In any case only its nonces change, the TPM nonce only in a
success and only to the nonce of a verified entry, and each command HMAC is
computed with the nonce of the last verified entry. -/
theorem session_survives_iff (P : Purecrypto) (s : Session) (os : OsRng)
    (calls : List (Call × Line)) :
    ((∀ e ∈ history P s os calls, e.Survives P) ↔
      ∀ e ∈ history P s os calls, ¬ Downgraded e.call e.line e.before) ∧
    ∀ pre e post, history P s os calls = pre ++ e :: post → e.Keeps P ∧ ∃ nonceCaller nonceTpm,
      e.before = { s with nonceCaller := nonceCaller, nonceTpm := nonceTpm } ∧
      LastVerified P s.nonceTpm pre nonceTpm ∧
      ∃ frames, (e.result P).2.transport.sent = e.line.sent ++ frames ∧
        ∀ frame ∈ frames, ∃ d nonce, Digest.ofAlg s.hashAlg = some d ∧
          frame = e.call.frame P d { s with nonceTpm := nonceTpm } nonce := by
  refine ⟨forall₂_congr fun e _ => e.survives_iff P, fun pre e post h => ⟨e.keeps P, ?_⟩⟩
  obtain ⟨nonceCaller, nonceTpm, hbefore, hlast⟩ := history_before P s os calls pre e post h
  obtain ⟨frames, hsent, hframes⟩ := e.frames P
  refine ⟨nonceCaller, nonceTpm, hbefore, hlast, frames, hsent, fun frame hframe => ?_⟩
  obtain ⟨d, hd, heq⟩ := hframes frame hframe
  rw [hbefore] at hd heq
  exact ⟨d, _, hd, heq⟩

/-- The forged reply is a success that verifies nothing and rolls no nonce. -/
theorem not_survives :
    ¬ ∀ e ∈ history unsealCrypto unsealSession ⟨fun _ => 0x33⟩ [(unsealCall, forgedLine)],
      e.Survives unsealCrypto := by
  intro h
  have hsurvives := h _ (List.mem_cons_self ..)
  exact (Step.survives_iff _ _).mp hsurvives forgedLine_downgraded

end PurecryptoTpm
