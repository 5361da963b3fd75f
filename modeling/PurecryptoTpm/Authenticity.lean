import PurecryptoTpm.Exchange

/-!
What an accepted reply proves. A session-authorized call that returns
parameters should have checked an HMAC over them and absorbed the nonce of the
entry that carried it. It has, unless the reply came without an authorization
area: the tag of the reply decides whether anything is checked.
-/

namespace PurecryptoTpm

/-- A success reply, well sized and with a full handle area, under a tag other
than SESSIONS. -/
def SessionlessReply (respHandles : ℕ) (resp : Bytes) : Prop :=
  ∃ tag handles params, tag ≠ st.sessions ∧ handles.length = respHandles ∧
    (successReply tag handles params).length < 4294967296 ∧
    resp = successReply tag handles params

theorem sessionlessReply_iff {n : ℕ} {resp : Bytes} : SessionlessReply n resp ↔
    ∃ raw, Reading n resp { raw, entry := none } := by
  constructor
  · rintro ⟨tag, handles, params, htag, hcount, hsize, rfl⟩
    exact ⟨_, .bare htag hcount hsize⟩
  · rintro ⟨raw, hreading⟩
    cases hreading with
    | bare htag hcount hsize => exact ⟨_, _, _, htag, hcount, hsize, rfl⟩

/-- The reply on which the loop stops is sessionless. -/
def Downgraded (c : Call) (line : Line) (s : Session) : Prop :=
  ∃ d i resp, Digest.ofAlg s.hashAlg = some d ∧ StopsAt line.outcome i ∧
    line.outcome i = .ok resp ∧ SessionlessReply c.respHandles resp

/-- The reply on which the loop stops carries an entry whose HMAC, over the
parameters read and with the nonce sent, is right. -/
def VerifiedBy (P : Purecrypto) (c : Call) (line : Line) (s : Session) (nonce : Bytes)
    (raw : RawResponse) (entry : AuthResponse) : Prop :=
  ∃ d i resp, Digest.ofAlg s.hashAlg = some d ∧ StopsAt line.outcome i ∧
    line.outcome i = .ok resp ∧ Reading c.respHandles resp { raw, entry := some entry } ∧
    entry.hmac = c.responseHmac P d s nonce raw.params entry

/-- Whatever a call returns was covered by a verified HMAC, computed with the
nonce of the frame that was sent, and the entry's nonce has been absorbed. -/
def ResponseAuthenticity (P : Purecrypto) (c : Call) (line : Line) (s : Session)
    (os : OsRng) : Prop :=
  ∀ raw, (c.run P line s os).1 = .ok raw → ∃ d i nonce entry s',
    Digest.ofAlg s.hashAlg = some d ∧ VerifiedBy P c line s nonce raw entry ∧
    (c.run P line s os).2.transport.sent =
      line.sent ++ List.replicate (i + 1) (c.frame P d s nonce) ∧
    (c.run P line s os).2.auth = .session s' c.authValue ∧ s'.nonceTpm = entry.nonceTpm

section Call

variable {P : Purecrypto} {c : Call} {line : Line} {s : Session} {os : OsRng}

theorem VerifiedBy.not_downgraded {nonce : Bytes} {raw : RawResponse} {entry : AuthResponse}
    (h : VerifiedBy P c line s nonce raw entry) : ¬ Downgraded c line s := by
  rintro ⟨-, i, resp, -, hstop, hresp, hsessionless⟩
  obtain ⟨-, j, resp', -, hstop', hresp', hreading, -⟩ := h
  obtain rfl := hstop.unique hstop'
  obtain rfl : resp = resp' := Except.ok.inj (hresp.symm.trans hresp')
  obtain ⟨raw', hbare⟩ := sessionlessReply_iff.mp hsessionless
  have hreply := hreading.unique hbare
  simp at hreply

/-- A downgraded call succeeds and leaves the TPM nonce alone. -/
theorem Downgraded.run (h : Downgraded c line s) (P : Purecrypto) (os : OsRng) :
    ∃ raw nonce, (c.run P line s os).1 = .ok raw ∧
      (c.run P line s os).2.auth = .session { s with nonceCaller := nonce } c.authValue := by
  obtain ⟨d, i, resp, hd, hstop, hresp, hsessionless⟩ := h
  obtain ⟨raw, hbare⟩ := sessionlessReply_iff.mp hsessionless
  obtain ⟨j, hstop', hrun⟩ := c.run_line P line hd os
  obtain rfl := hstop.unique hstop'
  have hok : parseResponse P c.code resp c.names c.respHandles
      (.session { s with nonceCaller := os.drawn d.size } c.authValue) =
      (.ok raw, .session { s with nonceCaller := os.drawn d.size } c.authValue) :=
    parseResponse_ok_iff.mpr ⟨_, hbare, by simp [Auth.Accepts], rfl, rfl⟩
  rw [hrun, hresp, interpret_ok, hok]
  exact ⟨raw, os.drawn d.size, rfl, rfl⟩

/-- A call that is not downgraded and succeeds has verified what it returns. -/
theorem authentic_of_not_downgraded (h : ¬ Downgraded c line s) :
    ResponseAuthenticity P c line s os := by
  intro raw hok
  have hcall := run_sessionCall P c line s os
  rw [hok] at hcall
  generalize (c.run P line s os).2 = env at hcall ⊢
  cases hcall with
  | @unverified d i resp _ hd hstop hresp hreading =>
      exact absurd ⟨d, i, resp, hd, hstop, hresp, sessionlessReply_iff.mpr ⟨raw, hreading⟩⟩ h
  | @verified d i resp _ entry hd hstop hresp hreading hhmac =>
      exact ⟨d, i, os.drawn d.size, entry, _, hd, ⟨d, i, resp, hd, hstop, hresp, hreading, hhmac⟩,
        rfl, rfl, rfl⟩

theorem Downgraded.not_authentic (h : Downgraded c line s) :
    ¬ ResponseAuthenticity P c line s os := by
  intro hauthentic
  obtain ⟨raw, nonce, hok, -⟩ := h.run P os
  obtain ⟨-, -, _, entry, -, -, hverified, -⟩ := hauthentic raw hok
  exact hverified.not_downgraded h

end Call

/-- No reply slips past a session except one without an authorization area. -/
theorem responseAuthenticity_iff (P : Purecrypto) (c : Call) (line : Line) (s : Session)
    (os : OsRng) : ResponseAuthenticity P c line s os ↔ ¬ Downgraded c line s := by
  constructor
  · intro hauthentic hdowngraded
    exact hdowngraded.not_authentic hauthentic
  · exact authentic_of_not_downgraded

/-- A reply that carries four bytes of "secret" and no authorization area. -/
def forgedLine : Line where
  outcomes _ := .ok [0x80, 0x01, 0, 0, 0, 16, 0, 0, 0, 0, 0, 4, 0x65, 0x76, 0x69, 0x6C]
  sent := []

theorem forgedLine_downgraded : Downgraded unsealCall forgedLine unsealSession := by
  refine ⟨.sha256, 0, _, rfl, by decide, rfl, st.noSessions, [], [0, 4, 0x65, 0x76, 0x69, 0x6C],
    by decide, rfl, by decide, by decide⟩

/-- The forged secret is returned. -/
theorem not_responseAuthenticity :
    ¬ ResponseAuthenticity unsealCrypto unsealCall forgedLine unsealSession ⟨fun _ => 0x33⟩ :=
  forgedLine_downgraded.not_authentic

end PurecryptoTpm
