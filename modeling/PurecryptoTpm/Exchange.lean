import PurecryptoTpm.Resubmission

/-!
One call of `run` with a session. `SessionCall` lists the four ways such a
call can end and what each leaves behind; whatever is said about calls with a
session is said by cases on it.
-/

namespace PurecryptoTpm

/-- The arguments of a call with a session, the session apart. -/
structure Call where
  code : UInt32
  handles : List Handle
  names : List Bytes
  params : Bytes
  respHandles : ℕ
  authValue : Bytes
  deriving DecidableEq

namespace Call

/-- `run` with a session. -/
def run {τ : Type} [Transport τ] (P : Purecrypto) (c : Call) (t : τ) (s : Session)
    (os : OsRng) : Outcome Error RawResponse × Env τ :=
  PurecryptoTpm.run P c.code c.handles c.names c.params c.respHandles
    { transport := t, auth := .session s c.authValue, os := os }

/-- The frame that carries a caller nonce. -/
def frame (P : Purecrypto) (c : Call) (d : Digest) (s : Session) (nonce : Bytes) : Bytes :=
  commandFrame st.sessions c.code (commandBody c.handles
    (some (sessionEntry P d s c.authValue c.code c.names c.params nonce)) c.params)

/-- The response HMAC over what the call returned, with the nonce it sent. -/
def responseHmac (P : Purecrypto) (c : Call) (d : Digest) (s : Session) (nonce params : Bytes)
    (entry : AuthResponse) : Bytes :=
  P.hmac d (s.hmacKey c.authValue (objectName c.names))
    (P.hash d (rpHashParts 0 c.code params).flatten ++ entry.nonceTpm ++ nonce ++
      [entry.attributes.raw])

end Call

/-- A call with a session whose hash algorithm is supported. -/
theorem Call.run_line (P : Purecrypto) (c : Call) (line : Line) {s : Session} {d : Digest}
    (hd : Digest.ofAlg s.hashAlg = some d) (os : OsRng) :
    ∃ i, StopsAt line.outcome i ∧ c.run P line s os =
      ((interpret P c.code c.names c.respHandles (line.outcome i)
          (.session { s with nonceCaller := os.drawn d.size } c.authValue)).1,
        { transport := line.pushes (i + 1) (c.frame P d s (os.drawn d.size))
          auth := (interpret P c.code c.names c.respHandles (line.outcome i)
            (.session { s with nonceCaller := os.drawn d.size } c.authValue)).2
          os := os.skip d.size }) :=
  PurecryptoTpm.run_line line (requestFrame_session hd)

/-- How a call with a session ends. -/
inductive SessionCall (P : Purecrypto) (c : Call) (line : Line) (s : Session) (os : OsRng) :
    Outcome Error RawResponse → Env Line → Prop where
  /-- No frame can be built for a hash algorithm that is not supported. -/
  | unsent (hd : Digest.ofAlg s.hashAlg = none) :
      SessionCall P c line s os (.err (.usage "unsupported hash algorithm"))
        { transport := line, auth := .session s c.authValue, os := os }
  /-- A transport error, an error code, or a reply that is not accepted. -/
  | failed {d : Digest} {i : ℕ} {e : Error} (hd : Digest.ofAlg s.hashAlg = some d)
      (hstop : StopsAt line.outcome i) :
      SessionCall P c line s os (.err e)
        { transport := line.pushes (i + 1) (c.frame P d s (os.drawn d.size))
          auth := .session { s with nonceCaller := os.drawn d.size } c.authValue
          os := os.skip d.size }
  /-- A reply without an authorization entry. -/
  | unverified {d : Digest} {i : ℕ} {resp : Bytes} {raw : RawResponse}
      (hd : Digest.ofAlg s.hashAlg = some d) (hstop : StopsAt line.outcome i)
      (hresp : line.outcome i = .ok resp)
      (hreading : Reading c.respHandles resp { raw, entry := none }) :
      SessionCall P c line s os (.ok raw)
        { transport := line.pushes (i + 1) (c.frame P d s (os.drawn d.size))
          auth := .session { s with nonceCaller := os.drawn d.size } c.authValue
          os := os.skip d.size }
  /-- A reply whose entry carries the expected HMAC. -/
  | verified {d : Digest} {i : ℕ} {resp : Bytes} {raw : RawResponse} {entry : AuthResponse}
      (hd : Digest.ofAlg s.hashAlg = some d) (hstop : StopsAt line.outcome i)
      (hresp : line.outcome i = .ok resp)
      (hreading : Reading c.respHandles resp { raw, entry := some entry })
      (hhmac : entry.hmac = c.responseHmac P d s (os.drawn d.size) raw.params entry) :
      SessionCall P c line s os (.ok raw)
        { transport := line.pushes (i + 1) (c.frame P d s (os.drawn d.size))
          auth := .session
            { s with nonceCaller := os.drawn d.size, nonceTpm := entry.nonceTpm } c.authValue
          os := os.skip d.size }

theorem run_sessionCall (P : Purecrypto) (c : Call) (line : Line) (s : Session) (os : OsRng) :
    SessionCall P c line s os (c.run P line s os).1 (c.run P line s os).2 := by
  cases hd : Digest.ofAlg s.hashAlg with
  | none =>
      have hrun : c.run P line s os = (.err (.usage "unsupported hash algorithm"),
          { transport := line, auth := .session s c.authValue, os := os }) :=
        run_of_frame_err (requestFrame_unsupported hd)
      rw [hrun]
      exact .unsent hd
  | some d =>
      obtain ⟨i, hstop, hrun⟩ := c.run_line P line hd os
      rw [hrun]
      cases hresp : line.outcome i with
      | error e =>
          rw [interpret_error]
          exact .failed hd hstop
      | ok resp =>
          rw [interpret_ok]
          rcases parseResponse_cases P c.code resp c.names c.respHandles
              (.session { s with nonceCaller := os.drawn d.size } c.authValue) with
            ⟨⟨raw, entry⟩, hreading, haccepts, hok⟩ | ⟨_, _, rc, _, -, -, herr⟩ | ⟨e, -, herr⟩
          · rw [hok]
            cases entry with
            | none => exact .unverified hd hstop hresp hreading
            | some entry =>
                obtain ⟨d', hd', hhmac⟩ := haccepts entry rfl
                obtain rfl : d = d' := Option.some.inj (hd.symm.trans hd')
                exact .verified hd hstop hresp hreading hhmac
          · rw [herr]
            exact .failed hd hstop
          · rw [herr]
            exact .failed hd hstop

/-! ### A recorded exchange

Unsealing an object over a session that is neither salted nor bound, so that
the key is the password. The values are those of SHA-256 and of HMAC with it. -/

def unsealCall : Call where
  code := cc.unseal
  handles := [⟨0x80000000⟩]
  names := [[0x80, 0, 0, 0]]
  params := []
  respHandles := 0
  authValue := [0x70, 0x77]

def unsealSession : Session where
  handle := ⟨0x02000000⟩
  hashAlg := Alg.sha256
  attributes := ⟨SessionAttributes.continueSession⟩
  sessionKey := []
  nonceTpm := List.replicate 32 0x11
  nonceCaller := List.replicate 32 0x22
  boundName := []

/-- The same, with half of the password in the session key. -/
def splitSession : Session := { unsealSession with sessionKey := [0x70] }

/-- The secret as it is returned: sized, two bytes long. -/
def unsealParams : Bytes := [0, 2, 0x68, 0x69]

def unsealCpHash : Bytes :=
  [0x3F, 0x3B, 0xA9, 0x4B, 0xFF, 0x0B, 0xA2, 0x73, 0xBF, 0x61, 0xB9, 0x3D, 0x0E, 0x8D,
    0x23, 0xFA, 0x9A, 0x19, 0x83, 0xDE, 0x36, 0x0E, 0xBE, 0x59, 0x24, 0x59, 0xC4, 0xBA,
    0xCA, 0x45, 0x30, 0xB5]

def unsealCommandHmac : Bytes :=
  [0x00, 0x54, 0xBC, 0xC9, 0x23, 0xA4, 0x7F, 0x20, 0x66, 0x22, 0xAF, 0x0E, 0x15, 0xDE,
    0x6C, 0xB6, 0x4E, 0xAC, 0xEF, 0x3C, 0xCC, 0x4E, 0xEC, 0x69, 0x7F, 0x78, 0x74, 0xE7,
    0xAB, 0xF9, 0xF1, 0x97]

def unsealRpHash : Bytes :=
  [0xFC, 0x21, 0xD6, 0xF5, 0xFF, 0x39, 0x5F, 0x7B, 0x5C, 0xD4, 0xD4, 0xEE, 0xC2, 0xF4,
    0x7C, 0xEF, 0x20, 0x8C, 0x8B, 0xDC, 0x61, 0xFA, 0xFA, 0xBC, 0xC6, 0x63, 0x33, 0xFB,
    0x40, 0xEF, 0x50, 0x17]

def unsealEntry : AuthResponse where
  nonceTpm := List.replicate 32 0x44
  attributes := ⟨SessionAttributes.continueSession⟩
  hmac :=
    [0x01, 0xEC, 0x39, 0x4E, 0xCA, 0x8A, 0x3E, 0x20, 0xE8, 0x72, 0x43, 0x13, 0x20, 0xEB,
    0x38, 0x78, 0x51, 0xF3, 0x2A, 0xC4, 0x63, 0xB6, 0xBE, 0x9A, 0x6D, 0x59, 0xBC, 0x69,
    0xEC, 0x4E, 0xA6, 0xCB]

/-- The command HMAC of a second exchange like the first, with the nonce of its entry. -/
def unsealAgainHmac : Bytes :=
  [0xD3, 0xAB, 0x79, 0x2C, 0x6F, 0xB3, 0xBB, 0x86, 0x8A, 0x92, 0x4A, 0x4A, 0x9D, 0x51,
    0x29, 0xDF, 0xC1, 0xB6, 0xE4, 0x5C, 0x0A, 0xBE, 0x94, 0xB0, 0xFA, 0xD8, 0x8D, 0x6A,
    0xED, 0x64, 0x97, 0x88]

def unsealCrypto : Purecrypto :=
  .ofValues
    [((.sha256, [0, 0, 0x01, 0x5E, 0x80, 0, 0, 0]), unsealCpHash),
      ((.sha256, [0, 0, 0, 0, 0, 0, 0x01, 0x5E, 0, 2, 0x68, 0x69]), unsealRpHash)]
    [((.sha256, [0x70, 0x77], unsealCpHash ++ List.replicate 32 0x33 ++ List.replicate 32 0x11 ++
        [1]), unsealCommandHmac),
      ((.sha256, [0x70, 0x77], unsealCpHash ++ List.replicate 32 0x33 ++ List.replicate 32 0x44 ++
        [1]), unsealAgainHmac),
      ((.sha256, [0x70, 0x77], unsealRpHash ++ List.replicate 32 0x44 ++ List.replicate 32 0x33 ++
        [1]), unsealEntry.hmac)]

def unsealLine : Line where
  outcomes _ := .ok (successReply st.sessions [] (authorizedBody unsealParams unsealEntry))
  sent := []

example : (unsealCall.run unsealCrypto unsealLine unsealSession ⟨fun _ => 0x33⟩).1 =
    .ok { handles := [], params := unsealParams } := by decide

end PurecryptoTpm
