import PurecryptoTpm.CommandBinding
import PurecryptoTpm.Exchange

/-!
Replayed, redirected and reflected HMACs. A session is used for any number of
exchanges, each a command and whatever responses are shown to the session
before the next one. An HMAC made for one exchange is accepted in another only
together with two explicit messages that collide.
-/

namespace PurecryptoTpm

/-- An exchange: what its command was authorized with, and the entry sent. -/
structure Exchange where
  code : UInt32
  names : List Bytes
  params : Bytes
  authValue : Bytes
  command : AuthCommand
  deriving DecidableEq

/-- A response entry that was accepted in an exchange, over given parameters. -/
structure Acceptance where
  exchange : Exchange
  params : Bytes
  entry : AuthResponse
  deriving DecidableEq

/-- A use of the session `s₀`: the exchanges so far, the entries accepted so
far, and the session now. Every caller nonce is a digest long. -/
inductive Transcript (P : Purecrypto) (d : Digest) (s₀ : Session) :
    List Exchange → List Acceptance → Session → Prop where
  | start : Transcript P d s₀ [] [] s₀
  | command {xs : List Exchange} {as : List Acceptance} {s t : Session} {x : Exchange}
      {cp nonce : Bytes} (h : Transcript P d s₀ xs as s) (hnonce : nonce.length = d.size)
      (hcp : cpHash P s.hashAlg x.code x.names x.params = .ok cp)
      (hauth : s.commandAuth P cp x.authValue (objectName x.names) nonce = (.ok x.command, t)) :
      Transcript P d s₀ (xs ++ [x]) as t
  | rejected {xs : List Exchange} {as : List Acceptance} {s t : Session} {x : Exchange}
      {params rp : Bytes} {entry : AuthResponse} {e : Error}
      (h : Transcript P d s₀ (xs ++ [x]) as s)
      (hrp : rpHash P s.hashAlg 0 x.code params = .ok rp)
      (herr : s.verifyResponse P rp x.authValue (objectName x.names) entry = (.err e, t)) :
      Transcript P d s₀ (xs ++ [x]) as t
  | accepted {xs : List Exchange} {as : List Acceptance} {s t : Session} {x : Exchange}
      {params rp : Bytes} {entry : AuthResponse}
      (h : Transcript P d s₀ (xs ++ [x]) as s)
      (hrp : rpHash P s.hashAlg 0 x.code params = .ok rp)
      (hok : s.verifyResponse P rp x.authValue (objectName x.names) entry = (.ok (), t)) :
      Transcript P d s₀ (xs ++ [x]) (as ++ [⟨x, params, entry⟩]) t

/-- The key of an exchange on a session. -/
def Exchange.key (s₀ : Session) (x : Exchange) : Bytes :=
  s₀.hmacKey x.authValue (objectName x.names)

/-- The message of the HMAC on a response to an exchange. -/
def Exchange.responseMessage (P : Purecrypto) (d : Digest) (x : Exchange) (params nonceTpm : Bytes)
    (attributes : SessionAttributes) : Bytes :=
  P.hash d (rpHashParts 0 x.code params).flatten ++ nonceTpm ++ x.command.nonceCaller ++
    [attributes.raw]

/-- The message of the HMAC on its command. -/
def Exchange.commandMessage (P : Purecrypto) (d : Digest) (x : Exchange) (nonceTpm : Bytes)
    (attributes : SessionAttributes) : Bytes :=
  P.hash d (cpHashParts x.code x.names x.params).flatten ++ x.command.nonceCaller ++ nonceTpm ++
    [attributes.raw]

/-! ### What a transcript guarantees -/

section Transcript

variable {P : Purecrypto} {d : Digest} {s₀ s : Session} {xs : List Exchange}
  {as : List Acceptance}

/-- The invariant of a transcript. -/
structure Transcript.Invariant (P : Purecrypto) (d : Digest) (s₀ : Session) (xs : List Exchange)
    (as : List Acceptance) (s : Session) : Prop where
  /-- Only the nonces of the session have changed. -/
  session : ∃ nonceCaller nonceTpm,
    s = { s₀ with nonceCaller := nonceCaller, nonceTpm := nonceTpm }
  /-- The session holds the caller nonce of the last exchange. -/
  current : ∀ x, xs.getLast? = some x → s.nonceCaller = x.command.nonceCaller
  /-- Each exchange carries its command HMAC, with a caller nonce of the digest size. -/
  commands : ∀ x ∈ xs, x.command.nonceCaller.length = d.size ∧ ∃ nonceTpm,
    x.command.hmac = P.hmac d (x.key s₀) (x.commandMessage P d nonceTpm s₀.attributes)
  /-- Each accepted entry carries the response HMAC of its exchange. -/
  acceptances : ∀ a ∈ as, a.exchange ∈ xs ∧ a.entry.hmac = P.hmac d (a.exchange.key s₀)
    (a.exchange.responseMessage P d a.params a.entry.nonceTpm a.entry.attributes)

theorem Transcript.Invariant.hashAlg (hd : Digest.ofAlg s₀.hashAlg = some d)
    (h : Transcript.Invariant P d s₀ xs as s) : Digest.ofAlg s.hashAlg = some d := by
  obtain ⟨nonceCaller, nonceTpm, rfl⟩ := h.session
  exact hd

theorem Transcript.invariant (hd : Digest.ofAlg s₀.hashAlg = some d)
    (h : Transcript P d s₀ xs as s) : Transcript.Invariant P d s₀ xs as s := by
  induction h with
  | start => exact ⟨⟨_, _, rfl⟩, by simp, by simp, by simp⟩
  | @command xs as s t x cp nonce _ hnonce hcp hauth ih =>
      rw [Session.commandAuth_eq (ih.hashAlg hd)] at hauth
      obtain ⟨⟨nonceCaller, nonceTpm, rfl⟩, -, hcommands, hacceptances⟩ := ih
      obtain ⟨hcommand, rfl⟩ := Prod.mk.inj hauth
      have hcommand := (Outcome.ok.inj hcommand).symm
      have hcp : P.hash d (cpHashParts x.code x.names x.params).flatten = cp :=
        Except.ok.inj ((crypto.hashParts_of_some hd _).symm.trans hcp)
      refine ⟨⟨_, _, rfl⟩, ?_, ?_, ?_⟩
      · intro y hy
        rw [List.getLast?_concat] at hy
        obtain rfl := Option.some.inj hy
        rw [hcommand]
      · intro y hy
        rcases List.mem_append.mp hy with hy | hy
        · exact hcommands y hy
        · obtain rfl := List.mem_singleton.mp hy
          refine ⟨by rw [hcommand, hnonce], nonceTpm, ?_⟩
          rw [Exchange.commandMessage, hcp, hcommand]
          rfl
      · intro a ha
        exact ⟨List.mem_append_left _ (hacceptances a ha).1, (hacceptances a ha).2⟩
  | @rejected xs as s t x params rp entry e _ hrp herr ih =>
      rw [Session.verifyResponse_eq (ih.hashAlg hd)] at herr
      obtain ⟨⟨nonceCaller, nonceTpm, rfl⟩, hcurrent, hcommands, hacceptances⟩ := ih
      -- a rejection writes to none of the session's fields
      split at herr
      · simp at herr
      · obtain ⟨-, rfl⟩ := Prod.mk.inj herr
        exact ⟨⟨_, _, rfl⟩, hcurrent, hcommands, hacceptances⟩
  | @accepted xs as s t x params rp entry _ hrp hok ih =>
      rw [Session.verifyResponse_eq (ih.hashAlg hd)] at hok
      obtain ⟨⟨nonceCaller, nonceTpm, rfl⟩, hcurrent, hcommands, hacceptances⟩ := ih
      split at hok
      case isFalse => simp at hok
      case isTrue hhmac =>
        obtain ⟨-, rfl⟩ := Prod.mk.inj hok
        have hrp : P.hash d (rpHashParts 0 x.code params).flatten = rp :=
          Except.ok.inj ((crypto.hashParts_of_some hd _).symm.trans hrp)
        refine ⟨⟨_, _, rfl⟩, hcurrent, hcommands, fun a ha => ?_⟩
        rcases List.mem_append.mp ha with ha | ha
        · exact hacceptances a ha
        · obtain rfl := List.mem_singleton.mp ha
          -- the exchange is the last one, so the session still holds its caller nonce
          have hnonce : nonceCaller = x.command.nonceCaller := hcurrent x List.getLast?_concat
          refine ⟨List.mem_append_right _ (List.mem_singleton_self x), ?_⟩
          rw [hhmac, Exchange.responseMessage, hrp, ← hnonce]
          rfl

/-! ### Telling messages apart -/

/-- A response message determines its fields, given two exchanges with nonces of
the digest size, unless the hashes in it collide. -/
theorem responseMessage_inj {x y : Exchange} {params params' nonceTpm nonceTpm' : Bytes}
    {attributes attributes' : SessionAttributes}
    (hx : x.command.nonceCaller.length = d.size) (hy : y.command.nonceCaller.length = d.size)
    (h : x.responseMessage P d params nonceTpm attributes =
      y.responseMessage P d params' nonceTpm' attributes') :
    (x.code = y.code ∧ params = params' ∧ x.command.nonceCaller = y.command.nonceCaller ∧
      nonceTpm = nonceTpm' ∧ attributes = attributes') ∨
    HashCollision P d (rpHashParts 0 x.code params).flatten
      (rpHashParts 0 y.code params').flatten := by
  obtain ⟨h, hattributes⟩ := List.append_inj' h rfl
  obtain ⟨h, hcaller⟩ := List.append_inj' h (by rw [hx, hy])
  obtain ⟨hhash, htpm⟩ := List.append_inj h (by rw [P.length_hash, P.length_hash])
  by_cases hpreimage : (rpHashParts 0 x.code params).flatten =
      (rpHashParts 0 y.code params').flatten
  · left
    simp only [rpHashParts, List.flatten_cons, List.flatten_nil, List.append_nil] at hpreimage
    obtain ⟨-, hpreimage⟩ := List.append_inj hpreimage rfl
    obtain ⟨hcode, hparams⟩ := List.append_inj hpreimage (by simp)
    refine ⟨toBeBytes_injective hcode, hparams, hcaller, htpm, ?_⟩
    cases attributes
    cases attributes'
    simpa using hattributes
  · exact .inr ⟨hpreimage, hhash⟩

/-- A command message is no response message unless a hash over a command
collides with one over a response, whose first four bytes are zero. -/
theorem commandMessage_ne {x y : Exchange} {params nonceTpm nonceTpm' : Bytes}
    {attributes attributes' : SessionAttributes} (hcode : x.code ≠ 0)
    (h : x.commandMessage P d nonceTpm attributes =
      y.responseMessage P d params nonceTpm' attributes') :
    HashCollision P d (cpHashParts x.code x.names x.params).flatten
      (rpHashParts 0 y.code params).flatten := by
  simp only [Exchange.commandMessage, Exchange.responseMessage, List.append_assoc] at h
  obtain ⟨hhash, -⟩ := List.append_inj h (by rw [P.length_hash, P.length_hash])
  refine ⟨fun hpreimage => hcode ?_, hhash⟩
  simp only [cpHashParts, rpHashParts, List.flatten_cons, List.cons_append,
    List.nil_append] at hpreimage
  exact toBeBytes_injective (List.append_inj hpreimage (by simp)).1

end Transcript

/-- An entry accepted in one exchange whose HMAC was made for another says what
the other exchange's response said, or messages collide; and an HMAC the host
sent with a command is accepted on no response, or messages collide. -/
theorem transcript_no_replay (P : Purecrypto) (d : Digest) (s₀ s : Session)
    (hd : Digest.ofAlg s₀.hashAlg = some d) (xs : List Exchange) (as : List Acceptance)
    (h : Transcript P d s₀ xs as s) :
    (∀ x ∈ xs, ∀ a ∈ as, ∀ params nonceTpm attributes,
      a.entry.hmac = P.hmac d (x.key s₀) (x.responseMessage P d params nonceTpm attributes) →
      (x.code = a.exchange.code ∧ params = a.params ∧
        x.command.nonceCaller = a.exchange.command.nonceCaller ∧
        nonceTpm = a.entry.nonceTpm ∧ attributes = a.entry.attributes) ∨
      HashCollision P d (rpHashParts 0 x.code params).flatten
        (rpHashParts 0 a.exchange.code a.params).flatten ∨
      HmacCollision P d (x.key s₀) (a.exchange.key s₀)
        (x.responseMessage P d params nonceTpm attributes)
        (a.exchange.responseMessage P d a.params a.entry.nonceTpm a.entry.attributes)) ∧
    ∀ x ∈ xs, ∀ a ∈ as, x.code ≠ 0 → a.entry.hmac = x.command.hmac →
      HashCollision P d (cpHashParts x.code x.names x.params).flatten
        (rpHashParts 0 a.exchange.code a.params).flatten ∨
      ∃ nonceTpm, HmacCollision P d (x.key s₀) (a.exchange.key s₀)
        (x.commandMessage P d nonceTpm s₀.attributes)
        (a.exchange.responseMessage P d a.params a.entry.nonceTpm a.entry.attributes) := by
  obtain ⟨-, -, hcommands, hacceptances⟩ := h.invariant hd
  refine ⟨?_, ?_⟩
  · intro x hx a ha params nonceTpm attributes hmade
    obtain ⟨hmem, haccepted⟩ := hacceptances a ha
    by_cases hmessage : x.responseMessage P d params nonceTpm attributes =
        a.exchange.responseMessage P d a.params a.entry.nonceTpm a.entry.attributes
    · rcases responseMessage_inj (hcommands x hx).1 (hcommands _ hmem).1 hmessage with
        hfields | hcollision
      · exact .inl hfields
      · exact .inr (.inl hcollision)
    · exact .inr (.inr ⟨hmessage, hmade.symm.trans haccepted⟩)
  · intro x hx a ha hcode hreflected
    obtain ⟨-, nonceTpm, hsent⟩ := hcommands x hx
    obtain ⟨-, haccepted⟩ := hacceptances a ha
    by_cases hmessage : x.commandMessage P d nonceTpm s₀.attributes =
        a.exchange.responseMessage P d a.params a.entry.nonceTpm a.entry.attributes
    · exact .inl (commandMessage_ne hcode hmessage)
    · exact .inr ⟨nonceTpm, hmessage, hsent.symm.trans (hreflected.symm.trans haccepted)⟩

/-- The recorded exchange, with the entry accepted in it. -/
def unsealExchange : Exchange where
  code := unsealCall.code
  names := unsealCall.names
  params := unsealCall.params
  authValue := unsealCall.authValue
  command :=
    { sessionHandle := unsealSession.handle
      nonceCaller := List.replicate 32 0x33
      attributes := unsealSession.attributes
      hmac := unsealCommandHmac }

/-- Once more with the same caller nonce, so that the same entry is accepted again. -/
def unsealAgain : Exchange :=
  { unsealExchange with command := { unsealExchange.command with hmac := unsealAgainHmac } }

theorem unseal_transcript :
    Transcript unsealCrypto .sha256 unsealSession [unsealExchange, unsealAgain]
      [⟨unsealExchange, unsealParams, unsealEntry⟩, ⟨unsealAgain, unsealParams, unsealEntry⟩]
      { unsealSession with
        nonceCaller := List.replicate 32 0x33, nonceTpm := unsealEntry.nonceTpm } := by
  have hcommand : Transcript unsealCrypto .sha256 unsealSession ([] ++ [unsealExchange]) []
      { unsealSession with nonceCaller := List.replicate 32 0x33 } :=
    @Transcript.command _ _ _ [] [] _ _ unsealExchange unsealCpHash (List.replicate 32 0x33)
      .start (by decide) (by decide) (by decide)
  have haccepted : Transcript unsealCrypto .sha256 unsealSession ([] ++ [unsealExchange])
      ([] ++ [⟨unsealExchange, unsealParams, unsealEntry⟩]) { unsealSession with
        nonceCaller := List.replicate 32 0x33, nonceTpm := unsealEntry.nonceTpm } :=
    @Transcript.accepted _ _ _ [] [] _ _ _ _ unsealRpHash _ hcommand (by decide) (by decide)
  have hagain : Transcript unsealCrypto .sha256 unsealSession ([unsealExchange] ++ [unsealAgain])
      [⟨unsealExchange, unsealParams, unsealEntry⟩] { unsealSession with
        nonceCaller := List.replicate 32 0x33, nonceTpm := unsealEntry.nonceTpm } :=
    @Transcript.command _ _ _ _ _ _ _ unsealAgain unsealCpHash (List.replicate 32 0x33)
      haccepted (by decide) (by decide) (by decide)
  exact @Transcript.accepted _ _ _ [unsealExchange] [⟨unsealExchange, unsealParams, unsealEntry⟩]
    _ _ _ _ unsealRpHash _ hagain (by decide) (by decide)

/-- The entry made for the first exchange, accepted in the second. -/
theorem transcript_no_replay_unseal :
    (unsealExchange.code = unsealAgain.code ∧ unsealParams = unsealParams ∧
      unsealExchange.command.nonceCaller = unsealAgain.command.nonceCaller ∧
      unsealEntry.nonceTpm = unsealEntry.nonceTpm ∧
      unsealEntry.attributes = unsealEntry.attributes) ∨
    HashCollision unsealCrypto .sha256 (rpHashParts 0 unsealExchange.code unsealParams).flatten
      (rpHashParts 0 unsealAgain.code unsealParams).flatten ∨
    HmacCollision unsealCrypto .sha256 (unsealExchange.key unsealSession)
      (unsealAgain.key unsealSession)
      (unsealExchange.responseMessage unsealCrypto .sha256 unsealParams unsealEntry.nonceTpm
        unsealEntry.attributes)
      (unsealAgain.responseMessage unsealCrypto .sha256 unsealParams unsealEntry.nonceTpm
        unsealEntry.attributes) :=
  (transcript_no_replay unsealCrypto .sha256 unsealSession _ (by decide)
    [unsealExchange, unsealAgain] [⟨unsealExchange, unsealParams, unsealEntry⟩,
      ⟨unsealAgain, unsealParams, unsealEntry⟩] unseal_transcript).1 unsealExchange (by simp)
    ⟨unsealAgain, unsealParams, unsealEntry⟩ (by simp) unsealParams unsealEntry.nonceTpm
    unsealEntry.attributes (by decide)

end PurecryptoTpm
