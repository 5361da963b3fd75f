import PurecryptoTpm.Crypto

/-!
Authorization sessions: `src/session.rs`. A session carries a key, fixed when
it is started, and the two rolling nonces. `commandAuth` records the nonce of
the command it authorizes and `verifyResponse` absorbs the nonce of a response
whose HMAC it accepts; no other field of a session is ever written.
-/

namespace PurecryptoTpm

/-- The Name of a permanent or PCR handle: its four bytes. -/
def permanentName (handle : Handle) : Bytes := toBeBytes handle.raw

/-- The operating system's random generator, as the bytes it has yet to yield. -/
structure OsRng where
  stream : ℕ → UInt8

namespace OsRng

/-- The next `n` bytes. -/
def drawn (n : ℕ) (r : OsRng) : Bytes := (List.range n).map r.stream

/-- What is left behind the next `n` bytes. -/
def skip (n : ℕ) (r : OsRng) : OsRng := ⟨fun i => r.stream (n + i)⟩

/-- `OsRng.fill_bytes` over a buffer of `n` bytes. -/
def fillBytes (n : ℕ) : Exec Error OsRng Bytes := fun r => (.ok (r.drawn n), r.skip n)

@[simp] theorem length_drawn (n : ℕ) (r : OsRng) : (r.drawn n).length = n := by
  simp [drawn]

end OsRng

/-- One established authorization session. -/
structure Session where
  handle : Handle
  hashAlg : Alg
  attributes : SessionAttributes
  sessionKey : Bytes
  nonceTpm : Bytes
  nonceCaller : Bytes
  boundName : Bytes
  deriving DecidableEq

/-- A command authorization entry. -/
structure AuthCommand where
  sessionHandle : Handle
  nonceCaller : Bytes
  attributes : SessionAttributes
  hmac : Bytes
  deriving DecidableEq

/-- A response authorization entry. -/
structure AuthResponse where
  nonceTpm : Bytes
  attributes : SessionAttributes
  hmac : Bytes
  deriving DecidableEq

/-- Equality of two equally long strings without an early exit. The surplus of
the longer one is ignored. -/
def ctEq (a b : Bytes) : Bool :=
  (a.zip b).foldl (fun diff p => diff ||| (p.1 ^^^ p.2)) 0 == 0

namespace Session

/-- A session from what starting it returned. -/
def new {σ : Type} (P : Purecrypto) (handle : Handle) (hashAlg : Alg)
    (nonceTpm nonceCaller : Bytes) (attributes : SessionAttributes)
    (bindAuth bindName salt : Bytes) : Exec Error σ Session := do
  let size ← Exec.ofExcept (crypto.digestSize hashAlg)
  let bits := UInt32.ofNat (size * 8)
  let sessionKey ←
    if bindAuth.isEmpty ∧ salt.isEmpty then
      pure []
    else
      -- the label is "ATH"
      crypto.kdfa P hashAlg (bindAuth ++ salt) [0x41, 0x54, 0x48] nonceTpm nonceCaller bits
  pure
    { handle := handle
      hashAlg := hashAlg
      attributes := attributes
      sessionKey := sessionKey
      nonceTpm := nonceTpm
      nonceCaller := nonceCaller
      boundName := bindName }

/-- The HMAC key: the auth value is dropped for the session's bind entity. -/
def hmacKey (self : Session) (authValue objectName : Bytes) : Bytes :=
  let bound := !self.boundName.isEmpty && self.boundName == objectName
  let k := self.sessionKey
  if !bound then k ++ authValue else k

/-- The fields a command HMAC covers. -/
def commandParts (self : Session) (cpHash : Bytes) : List Bytes :=
  [cpHash, self.nonceCaller, self.nonceTpm, [self.attributes.raw]]

/-- The fields a response HMAC covers. -/
def responseParts (self : Session) (rpHash : Bytes) (resp : AuthResponse) : List Bytes :=
  [rpHash, resp.nonceTpm, self.nonceCaller, [resp.attributes.raw]]

/-- The command authorization entry for a command with hash `cpHash`. -/
def commandAuth (P : Purecrypto) (cpHash authValue objectName nonceCaller : Bytes) :
    Exec Error Session AuthCommand := do
  let self ← Exec.get
  let self := { self with nonceCaller := nonceCaller }
  Exec.set self
  let key := self.hmacKey authValue objectName
  let hmac ← Exec.ofExcept (crypto.hmacParts P self.hashAlg key (self.commandParts cpHash))
  pure
    { sessionHandle := self.handle
      nonceCaller := self.nonceCaller
      attributes := self.attributes
      hmac := hmac }

/-- Check a response authorization entry and absorb its nonce. -/
def verifyResponse (P : Purecrypto) (rpHash authValue objectName : Bytes)
    (resp : AuthResponse) : Exec Error Session Unit := do
  let self ← Exec.get
  let key := self.hmacKey authValue objectName
  let expected ← Exec.ofExcept
    (crypto.hmacParts P self.hashAlg key (self.responseParts rpHash resp))
  if expected.length != resp.hmac.length || !ctEq expected resp.hmac then
    Exec.throw (.protocol "response HMAC verification failed")
  else
    Exec.set { self with nonceTpm := resp.nonceTpm }

/-- A fresh nonce of the session hash's digest length. -/
def freshNonce (self : Session) : Exec Error OsRng Bytes := do
  let n ← Exec.ofExcept (crypto.digestSize self.hashAlg)
  OsRng.fillBytes n

end Session

/-! ### What the comparison decides -/

theorem foldl_xor_eq_zero (l : List (UInt8 × UInt8)) (acc : UInt8) :
    l.foldl (fun diff p => diff ||| (p.1 ^^^ p.2)) acc = 0 ↔ acc = 0 ∧ ∀ p ∈ l, p.1 = p.2 := by
  induction l generalizing acc with
  | nil => simp
  | cons p l ih =>
      rw [List.foldl_cons, ih, UInt8.or_eq_zero_iff, UInt8.xor_eq_zero_iff]
      simp only [List.mem_cons, forall_eq_or_imp, and_assoc]

/-- The loop compares the common prefix of its arguments. -/
theorem ctEq_iff (a b : Bytes) : ctEq a b = true ↔ ∀ p ∈ a.zip b, p.1 = p.2 := by
  simp [ctEq, foldl_xor_eq_zero]

theorem zip_take {α : Type} (a b : List α) :
    (∀ p ∈ a.zip b, p.1 = p.2) ↔ a.take b.length = b.take a.length := by
  induction a generalizing b with
  | nil => simp
  | cons x a ih =>
      cases b with
      | nil => simp
      | cons y b =>
          simp only [List.zip_cons_cons, List.mem_cons, forall_eq_or_imp, ih, List.length_cons,
            List.take_succ_cons, List.cons.injEq]

/-- Without a surplus it decides equality. -/
theorem ctEq_iff_of_length {a b : Bytes} (h : a.length = b.length) :
    ctEq a b = true ↔ a = b := by
  rw [ctEq_iff]
  induction a generalizing b with
  | nil =>
      obtain rfl := List.length_eq_zero_iff.mp h.symm
      simp
  | cons x a ih =>
      cases b with
      | nil => simp at h
      | cons y b =>
          have hlen : a.length = b.length := by simpa using h
          simp only [List.zip_cons_cons, List.mem_cons, forall_eq_or_imp, ih hlen,
            List.cons.injEq]

/-- With the length guard in front, the surplus cannot go unnoticed. -/
theorem lengthGuard_iff (a b : Bytes) :
    (a.length != b.length || !ctEq a b) = true ↔ a ≠ b := by
  by_cases h : a.length = b.length
  · simp [h, ← Bool.not_eq_true, ctEq_iff_of_length h]
  · have hne : a ≠ b := fun hab => h (congrArg List.length hab)
    simp [h, hne]

namespace Session

variable {P : Purecrypto} {s : Session} {d : Digest}

/-- Without an auth value and a salt nothing is derived. -/
theorem new_unkeyed {σ : Type} {hashAlg : Alg} {n : ℕ} (h : crypto.digestSize hashAlg = .ok n)
    (handle : Handle) (nonceTpm nonceCaller : Bytes) (attributes : SessionAttributes)
    (bindName : Bytes) (s : σ) :
    new P handle hashAlg nonceTpm nonceCaller attributes [] bindName [] s =
      (.ok ⟨handle, hashAlg, attributes, [], nonceTpm, nonceCaller, bindName⟩, s) := by
  rw [new, h, Exec.ofExcept_ok_bind]
  rfl

theorem commandAuth_eq (hd : Digest.ofAlg s.hashAlg = some d)
    (cpHash authValue objectName nonce : Bytes) :
    commandAuth P cpHash authValue objectName nonce s =
      (.ok
        { sessionHandle := s.handle
          nonceCaller := nonce
          attributes := s.attributes
          hmac := P.hmac d (s.hmacKey authValue objectName)
            (cpHash ++ nonce ++ s.nonceTpm ++ [s.attributes.raw]) },
        { s with nonceCaller := nonce }) := by
  have hmac : crypto.hmacParts P s.hashAlg (s.hmacKey authValue objectName)
      (commandParts { s with nonceCaller := nonce } cpHash) = _ :=
    crypto.hmacParts_of_some hd _ _
  rw [commandAuth, Exec.get_bind, Exec.set_bind]
  show (Exec.ofExcept (crypto.hmacParts P s.hashAlg (s.hmacKey authValue objectName)
    (commandParts { s with nonceCaller := nonce } cpHash)) >>= _) _ = _
  rw [hmac, Exec.ofExcept_ok_bind]
  simp [commandParts]

/-- What a response HMAC must be. -/
def expectedHmac (P : Purecrypto) (d : Digest) (s : Session) (rpHash authValue objectName : Bytes)
    (resp : AuthResponse) : Bytes :=
  P.hmac d (s.hmacKey authValue objectName)
    (rpHash ++ resp.nonceTpm ++ s.nonceCaller ++ [resp.attributes.raw])

/-- An entry is accepted, and its nonce absorbed, exactly if its HMAC is the
expected one; otherwise the session stays as it is. -/
theorem verifyResponse_eq (hd : Digest.ofAlg s.hashAlg = some d)
    (rpHash authValue objectName : Bytes) (resp : AuthResponse) :
    verifyResponse P rpHash authValue objectName resp s =
      if resp.hmac = expectedHmac P d s rpHash authValue objectName resp then
        (.ok (), { s with nonceTpm := resp.nonceTpm })
      else (.err (.protocol "response HMAC verification failed"), s) := by
  have hmac : crypto.hmacParts P s.hashAlg (s.hmacKey authValue objectName)
      (s.responseParts rpHash resp) =
      .ok (expectedHmac P d s rpHash authValue objectName resp) := by
    simp [crypto.hmacParts_of_some hd, responseParts, expectedHmac]
  rw [verifyResponse, Exec.get_bind, hmac, Exec.ofExcept_ok_bind]
  by_cases h : resp.hmac = expectedHmac P d s rpHash authValue objectName resp
  · rw [if_pos h, if_neg (by rw [lengthGuard_iff, ← h]; simp)]
    rfl
  · rw [if_neg h, if_pos ((lengthGuard_iff _ _).mpr (Ne.symm h))]
    rfl

theorem verifyResponse_unsupported (hd : Digest.ofAlg s.hashAlg = none)
    (rpHash authValue objectName : Bytes) (resp : AuthResponse) :
    verifyResponse P rpHash authValue objectName resp s =
      (.err (.usage "unsupported HMAC hash algorithm"), s) := by
  simp [verifyResponse, crypto.hmacParts, hd]

/-- The key of a session for an object: the auth value of the bind entity is left out. -/
theorem hmacKey_eq (s : Session) (authValue objectName : Bytes) :
    s.hmacKey authValue objectName =
      if s.boundName ≠ [] ∧ s.boundName = objectName then s.sessionKey
      else s.sessionKey ++ authValue := by
  rw [hmacKey]
  by_cases hbound : s.boundName ≠ [] ∧ s.boundName = objectName
  · have hname : objectName ≠ [] := hbound.2 ▸ hbound.1
    rw [if_pos hbound, hbound.2]
    simp [hname]
  · rw [if_neg hbound, if_pos]
    simp only [ne_eq, not_and_or, not_not] at hbound
    simpa using hbound

/-- A response is accepted exactly if its HMAC is, byte for byte, the one the
key gives for it. The loop that compares them sees their common prefix only. -/
theorem verifyResponse_decides (P : Purecrypto) (s : Session) (rpHash authValue objectName : Bytes)
    (resp : AuthResponse) :
    let result := verifyResponse P rpHash authValue objectName resp s
    let key := if s.boundName ≠ [] ∧ s.boundName = objectName then s.sessionKey
      else s.sessionKey ++ authValue
    (result.1 = .ok () ↔ ∃ d, Digest.ofAlg s.hashAlg = some d ∧
      resp.hmac =
        P.hmac d key (rpHash ++ resp.nonceTpm ++ s.nonceCaller ++ [resp.attributes.raw])) ∧
    (result.1 = .ok () → result.2 = { s with nonceTpm := resp.nonceTpm }) ∧
    (result.1 ≠ .ok () → (∃ e, result.1 = .err e) ∧ result.2 = s) ∧
    ∀ a b, ctEq a b = true ↔ a.take b.length = b.take a.length := by
  intro result key
  have hprefix : ∀ a b, ctEq a b = true ↔ a.take b.length = b.take a.length := by
    intro a b
    rw [ctEq_iff, zip_take]
  cases hd : Digest.ofAlg s.hashAlg with
  | none =>
      have hresult : result = (.err (.usage "unsupported HMAC hash algorithm"), s) :=
        verifyResponse_unsupported hd rpHash authValue objectName resp
      rw [hresult]
      exact ⟨by simp, by simp, fun _ => ⟨⟨_, rfl⟩, rfl⟩, hprefix⟩
  | some d =>
      have hresult : result = _ := verifyResponse_eq hd rpHash authValue objectName resp
      have hkey : s.hmacKey authValue objectName = key := hmacKey_eq s authValue objectName
      rw [expectedHmac, hkey] at hresult
      by_cases h : resp.hmac =
          P.hmac d key (rpHash ++ resp.nonceTpm ++ s.nonceCaller ++ [resp.attributes.raw])
      · rw [hresult, if_pos h]
        exact ⟨iff_of_true rfl ⟨d, rfl, h⟩, fun _ => rfl, fun hne => absurd rfl hne, hprefix⟩
      · rw [hresult, if_neg h]
        refine ⟨iff_of_false (by simp) ?_, by simp, fun _ => ⟨⟨_, rfl⟩, rfl⟩, hprefix⟩
        rintro ⟨d', hd', h'⟩
        rw [Option.some_inj] at hd'
        exact h (hd' ▸ h')

theorem freshNonce_eq (hd : Digest.ofAlg s.hashAlg = some d) (r : OsRng) :
    s.freshNonce r = (.ok (r.drawn d.size), r.skip d.size) := by
  rw [freshNonce, crypto.digestSize_of_some hd, Exec.ofExcept_ok_bind]
  rfl

end Session

end PurecryptoTpm
