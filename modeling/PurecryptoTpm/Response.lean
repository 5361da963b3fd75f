import PurecryptoTpm.Request

/-!
Which replies `parse_response` accepts. Parsing a reply reads nothing of the
authorization, so it splits in two: reading the bytes, and verifying the entry
the bytes carry. `Reading` is the grammar of the first half as it is
implemented, and `Verified` says what the second half checks.
-/

namespace PurecryptoTpm

/-! ### Wire forms -/

def responseHeader (tag : UInt16) (size rc : UInt32) : Bytes :=
  toBeBytes tag ++ toBeBytes size ++ toBeBytes rc

/-- A response with code zero and the right size field. -/
def successReply (tag : UInt16) (handles : List Handle) (body : Bytes) : Bytes :=
  responseHeader tag (UInt32.ofNat (10 + 4 * handles.length + body.length)) 0 ++
    handleArea handles ++ body

/-- The entry of a response authorization area. -/
def responseEntry (entry : AuthResponse) : Bytes :=
  tpm2bBytes entry.nonceTpm ++ [entry.attributes.raw] ++ tpm2bBytes entry.hmac

/-- Both sized fields of an entry fit their length prefixes. -/
def AuthResponse.Fits (entry : AuthResponse) : Prop :=
  entry.nonceTpm.length < 65536 ∧ entry.hmac.length < 65536

/-- Sized parameters and the entry behind them. -/
def authorizedBody (params : Bytes) (entry : AuthResponse) : Bytes :=
  toBeBytes (UInt32.ofNat params.length) ++ params ++ responseEntry entry

@[simp] theorem length_responseHeader (tag : UInt16) (size rc : UInt32) :
    (responseHeader tag size rc).length = 10 := by
  simp [responseHeader]

@[simp] theorem length_successReply (tag : UInt16) (handles : List Handle) (body : Bytes) :
    (successReply tag handles body).length = 10 + 4 * handles.length + body.length := by
  rw [successReply, List.length_append, List.length_append, length_responseHeader,
    length_handleArea]

/-- The header can be read off a response. -/
theorem responseHeader_inj {tag tag' : UInt16} {size size' rc rc' : UInt32} {rest rest' : Bytes}
    (h : responseHeader tag size rc ++ rest = responseHeader tag' size' rc' ++ rest') :
    tag = tag' ∧ size = size' ∧ rc = rc' ∧ rest = rest' := by
  simp only [responseHeader, List.append_assoc] at h
  obtain ⟨htag, h⟩ := List.append_inj h (by simp)
  obtain ⟨hsize, h⟩ := List.append_inj h (by simp)
  obtain ⟨hrc, hrest⟩ := List.append_inj h (by simp)
  exact ⟨toBeBytes_injective htag, toBeBytes_injective hsize, toBeBytes_injective hrc, hrest⟩

theorem Reader.parseAuthResponse_parses :
    Parses Reader.between Malformed parseAuthResponse
      (fun entry w => entry.Fits ∧ w = responseEntry entry) := by
  refine (tpm2b_parses.bind fun nonce => u8_parses.bind fun attributes =>
    tpm2b_parses.bind fun hmac => Parses.pure _).congr fun entry w => ?_
  constructor
  · rintro ⟨nonce, _, _, ⟨hnonce, rfl⟩, ⟨attributes, _, _, rfl,
      ⟨hmac, _, _, ⟨hhmac, rfl⟩, ⟨rfl, rfl⟩, rfl⟩, rfl⟩, rfl⟩
    refine ⟨⟨hnonce, hhmac⟩, ?_⟩
    simp [responseEntry, toBeBytes_uint8]
  · rintro ⟨⟨hnonce, hhmac⟩, rfl⟩
    refine ⟨entry.nonceTpm, _, _, ⟨hnonce, rfl⟩, ⟨entry.attributes.raw, _, _, rfl,
      ⟨entry.hmac, _, [], ⟨hhmac, rfl⟩, ⟨rfl, rfl⟩, rfl⟩, rfl⟩, ?_⟩
    simp [responseEntry, toBeBytes_uint8]

theorem Reader.unmarshalHandles_parses (n : ℕ) :
    Parses Reader.between Malformed (unmarshalHandles n)
      (fun hs w => hs.length = n ∧ w = handleArea hs) := by
  have hvector : Parses Reader.between Malformed (unmarshalHandles n)
      (Format.vector (fun h w => w = toBeBytes h.raw) n) := by
    induction n with
    | zero => exact Parses.pure []
    | succ n ih => exact handle_parses.bind fun h => ih.bind fun hs => Parses.pure (h :: hs)
  exact hvector.congr fun hs w => Format.vector_eq _ n hs w

/-! ### Reading a reply -/

/-- What the bytes of a reply say. -/
structure Reply where
  raw : RawResponse
  entry : Option AuthResponse

/-- The part of a successful response behind the header. -/
def readBody (respHandles : ℕ) (tag : UInt16) : Exec Error Reader Reply := do
  let rhandles ← unmarshalHandles respHandles
  if tag = st.sessions then do
    let paramSize ← Reader.u32
    let pbytes ← Reader.take paramSize.toNat
    let authResp ← parseAuthResponse
    pure { raw := { handles := rhandles, params := pbytes }, entry := some authResp }
  else do
    let params ← Reader.takeRemaining
    pure { raw := { handles := rhandles, params := params }, entry := none }

/-- `parse_response` up to the verification of the entry. -/
def readReply (respHandles : ℕ) (resp : Bytes) : Exec Error Reader Reply := do
  let tag ← Reader.u16
  let size ← Reader.u32
  let rc ← Reader.u32
  if rc ≠ 0 then
    Exec.throw (Error.rc rc)
  else if size.toNat ≠ resp.length then
    Exec.throw (.protocol "response size header disagrees with received length")
  else
    readBody respHandles tag

/-- How reading a reply from its start ends. -/
def readOutcome (respHandles : ℕ) (resp : Bytes) : Outcome Error Reply :=
  (readReply respHandles resp (Reader.new resp)).1

/-- The replies that are read, with what is read from them. A tag other than
SESSIONS, whichever it is, makes all of the body parameters; and nothing is
asked of the bytes behind an entry. -/
inductive Reading (respHandles : ℕ) : Bytes → Reply → Prop where
  | bare {tag : UInt16} {handles : List Handle} {params : Bytes} (htag : tag ≠ st.sessions)
      (hcount : handles.length = respHandles)
      (hsize : (successReply tag handles params).length < 4294967296) :
      Reading respHandles (successReply tag handles params)
        { raw := { handles, params }, entry := none }
  | authorized {handles : List Handle} {params rest : Bytes} {entry : AuthResponse}
      (hcount : handles.length = respHandles) (hfits : entry.Fits)
      (hsize : (successReply st.sessions handles (authorizedBody params entry ++ rest)).length <
        4294967296) :
      Reading respHandles (successReply st.sessions handles (authorizedBody params entry ++ rest))
        { raw := { handles, params }, entry := some entry }

section Reading

variable {n : ℕ} {resp : Bytes} {reply : Reply}

theorem readReply_header (tag : UInt16) (size rc : UInt32) (rest : Bytes) :
    readReply n resp (Reader.between [] (responseHeader tag size rc ++ rest)) =
      (if rc ≠ 0 then
        Exec.throw (Error.rc rc)
      else if size.toNat ≠ resp.length then
        Exec.throw (.protocol "response size header disagrees with received length")
      else
        readBody n tag) (Reader.between (responseHeader tag size rc) rest) := by
  rw [readReply, responseHeader, List.append_assoc, List.append_assoc,
    Reader.u16_parses.bind_complete rfl, Reader.u32_parses.bind_complete rfl,
    Reader.u32_parses.bind_complete rfl, List.nil_append]

/-- A reply has a header or is too short for one. -/
theorem header_cases (n : ℕ) (resp : Bytes) :
    (∃ tag size rc rest, resp = responseHeader tag size rc ++ rest) ∨
    ∃ e, Malformed e ∧ readOutcome n resp = .err e := by
  rw [readOutcome, readReply, Reader.new_eq_between]
  rcases Reader.u16_parses.bind_cases _ [] resp with
    ⟨tag, _, post, rfl, hresp, hstep⟩ | ⟨e, _, _, he, hstep⟩
  case inr => exact .inr ⟨e, he, by rw [hstep]⟩
  rw [hstep]
  rcases Reader.u32_parses.bind_cases _ _ post with
    ⟨size, _, post, rfl, rfl, hstep⟩ | ⟨e, _, _, he, hstep⟩
  case inr => exact .inr ⟨e, he, by rw [hstep]⟩
  rw [hstep]
  rcases Reader.u32_parses.bind_cases _ _ post with
    ⟨rc, _, post, rfl, rfl, -⟩ | ⟨e, _, _, he, hstep⟩
  case inr => exact .inr ⟨e, he, by rw [hstep]⟩
  refine .inl ⟨tag, size, rc, post, ?_⟩
  rw [hresp, responseHeader, List.append_assoc, List.append_assoc]

/-- A nonzero code is reported before the tag and the size are looked at. -/
theorem readOutcome_of_rc (tag : UInt16) (size : UInt32) {rc : UInt32} (hrc : rc ≠ 0)
    (rest : Bytes) :
    readOutcome n (responseHeader tag size rc ++ rest) = .err (.tpm ⟨rc⟩) := by
  rw [readOutcome, Reader.new_eq_between, readReply_header, if_pos hrc]
  rfl

theorem readOutcome_of_size (tag : UInt16) {size : UInt32} {rest : Bytes}
    (hsize : size.toNat ≠ 10 + rest.length) :
    readOutcome n (responseHeader tag size 0 ++ rest) =
      .err (.protocol "response size header disagrees with received length") := by
  have hlen : size.toNat ≠ (responseHeader tag size 0 ++ rest).length := by
    rwa [List.length_append, length_responseHeader]
  rw [readOutcome, Reader.new_eq_between, readReply_header, if_neg (by simp), if_pos hlen]
  rfl

theorem readOutcome_of_body (tag : UInt16) {size : UInt32} {rest : Bytes}
    (hsize : size.toNat = 10 + rest.length) :
    readOutcome n (responseHeader tag size 0 ++ rest) =
      (readBody n tag (Reader.between (responseHeader tag size 0) rest)).1 := by
  have hlen : ¬ size.toNat ≠ (responseHeader tag size 0 ++ rest).length := by
    rw [List.length_append, length_responseHeader, not_not]
    exact hsize
  rw [readOutcome, Reader.new_eq_between, readReply_header, if_neg (by simp), if_neg hlen]

/-- Under the SESSIONS tag the body is a handle area, sized parameters and an entry. -/
theorem readBody_sessions_parses :
    Parses Reader.between Malformed (readBody n st.sessions) (fun reply w =>
      ∃ handles params entry, handles.length = n ∧ params.length < 4294967296 ∧ entry.Fits ∧
        reply = { raw := { handles, params }, entry := some entry } ∧
        w = handleArea handles ++ authorizedBody params entry) := by
  refine ((Reader.unmarshalHandles_parses n).bind fun hs => Reader.u32_parses.bind fun size =>
    (Reader.take_parses size.toNat).bind fun params => Reader.parseAuthResponse_parses.bind
      fun entry => Parses.pure ({ raw := ⟨hs, params⟩, entry := some entry } : Reply)).congr
    fun reply w => ?_
  constructor
  · rintro ⟨handles, _, _, ⟨hcount, rfl⟩, ⟨size, _, _, rfl, ⟨_, params, _, ⟨rfl, hlen⟩,
      ⟨entry, _, _, ⟨hfits, rfl⟩, ⟨rfl, rfl⟩, rfl⟩, rfl⟩, rfl⟩, rfl⟩
    have hsize : UInt32.ofNat params.length = size := by rw [hlen, UInt32.ofNat_toNat]
    refine ⟨handles, params, entry, hcount, hlen ▸ size.toNat_lt, hfits, rfl, ?_⟩
    rw [authorizedBody, hsize]
    simp
  · rintro ⟨handles, params, entry, hcount, hlen, hfits, rfl, rfl⟩
    refine ⟨handles, _, _, ⟨hcount, rfl⟩, ⟨UInt32.ofNat params.length, _, _, rfl,
      ⟨params, _, _, ⟨rfl, (UInt32.toNat_ofNat_of_lt' hlen).symm⟩,
      ⟨entry, _, [], ⟨hfits, rfl⟩, ⟨rfl, rfl⟩, rfl⟩, rfl⟩, rfl⟩, ?_⟩
    simp [authorizedBody]

/-- Under any other tag the body is a handle area and nothing but parameters. -/
theorem readBody_bare {tag : UInt16} (htag : tag ≠ st.sessions) (pre : Bytes)
    {handles : List Handle} (hcount : handles.length = n) (params : Bytes) :
    (readBody n tag (Reader.between pre (handleArea handles ++ params))).1 =
      .ok { raw := { handles, params }, entry := none } := by
  rw [readBody, (Reader.unmarshalHandles_parses n).bind_complete ⟨hcount, rfl⟩, if_neg htag,
    Exec.bind_ok (Reader.takeRemaining_between _ _)]
  rfl

theorem readBody_cases (n : ℕ) (tag : UInt16) (pre post : Bytes) :
    (∃ handles params, handles.length = n ∧ tag ≠ st.sessions ∧
      post = handleArea handles ++ params) ∨
    (∃ handles params entry rest, handles.length = n ∧ params.length < 4294967296 ∧
      AuthResponse.Fits entry ∧ tag = st.sessions ∧
      post = handleArea handles ++ authorizedBody params entry ++ rest) ∨
    ∃ e, Malformed e ∧ (readBody n tag (Reader.between pre post)).1 = .err e := by
  rcases eq_or_ne tag st.sessions with rfl | htag
  · rcases readBody_sessions_parses.cases pre post with
      ⟨_, _, rest, ⟨handles, params, entry, hcount, hlen, hfits, -, rfl⟩, rfl, -⟩ |
        ⟨e, _, _, he, -, herr⟩
    · exact .inr (.inl ⟨handles, params, entry, rest, hcount, hlen, hfits, rfl, rfl⟩)
    · exact .inr (.inr ⟨e, he, by rw [herr]⟩)
  · rcases (Reader.unmarshalHandles_parses n).bind_cases _ pre post with
      ⟨handles, _, params, ⟨hcount, rfl⟩, rfl, -⟩ | ⟨e, _, _, he, herr⟩
    · exact .inl ⟨handles, params, hcount, htag, rfl⟩
    · exact .inr (.inr ⟨e, he, by rw [readBody, herr]⟩)

theorem successReply_eq (tag : UInt16) (handles : List Handle) (body : Bytes) :
    successReply tag handles body =
      responseHeader tag (UInt32.ofNat (10 + (handleArea handles ++ body).length)) 0 ++
        (handleArea handles ++ body) := by
  rw [successReply, List.length_append, length_handleArea, ← Nat.add_assoc, List.append_assoc]

theorem readOutcome_successReply (tag : UInt16) (handles : List Handle) {body : Bytes}
    (hsize : (successReply tag handles body).length < 4294967296) :
    ∃ pre, readOutcome n (successReply tag handles body) =
      (readBody n tag (Reader.between pre (handleArea handles ++ body))).1 := by
  have hlen : 10 + (handleArea handles ++ body).length < 4294967296 := by
    rw [length_successReply] at hsize
    rw [List.length_append, length_handleArea]
    omega
  rw [successReply_eq]
  exact ⟨_, readOutcome_of_body tag (UInt32.toNat_ofNat_of_lt' hlen)⟩

theorem readOutcome_of_reading (h : Reading n resp reply) : readOutcome n resp = .ok reply := by
  cases h with
  | bare htag hcount hsize =>
      obtain ⟨pre, hread⟩ := readOutcome_successReply (n := n) _ _ hsize
      rw [hread, readBody_bare htag pre hcount]
  | @authorized handles params rest entry hcount hfits hsize =>
      obtain ⟨pre, hread⟩ := readOutcome_successReply (n := n) _ _ hsize
      have hparams : params.length < 4294967296 := by
        rw [length_successReply, authorizedBody] at hsize
        simp only [List.length_append] at hsize
        omega
      have hbody := readBody_sessions_parses.complete
        ⟨handles, params, entry, hcount, hparams, hfits, rfl, rfl⟩ pre rest
      rw [hread, ← List.append_assoc, hbody]

/-- A reply has one reading. -/
theorem Reading.unique {reply' : Reply} (h : Reading n resp reply) (h' : Reading n resp reply') :
    reply = reply' :=
  Outcome.ok.inj ((readOutcome_of_reading h).symm.trans (readOutcome_of_reading h'))

/-- Every reply is read, reports a code, or is an error of the parser. -/
theorem readOutcome_cases (n : ℕ) (resp : Bytes) :
    (∃ reply, Reading n resp reply ∧ readOutcome n resp = .ok reply) ∨
    (∃ tag size rc rest, rc ≠ 0 ∧ resp = responseHeader tag size rc ++ rest ∧
      readOutcome n resp = .err (.tpm ⟨rc⟩)) ∨
    ∃ e, (∀ rc, e ≠ .tpm rc) ∧ readOutcome n resp = .err e := by
  have hmalformed : ∀ e, Malformed e → ∀ rc, e ≠ .tpm rc := by
    rintro _ ⟨message, rfl⟩ rc
    simp
  -- the code is looked at before the size, and the size before the body
  rcases header_cases n resp with ⟨tag, size, rc, rest, rfl⟩ | ⟨e, he, herr⟩
  case inr => exact .inr (.inr ⟨e, hmalformed e he, herr⟩)
  rcases ne_or_eq rc 0 with hrc | rfl
  · exact .inr (.inl ⟨tag, size, rc, rest, hrc, rfl, readOutcome_of_rc tag size hrc rest⟩)
  rcases ne_or_eq size.toNat (10 + rest.length) with hsize | hsize
  · exact .inr (.inr ⟨_, by simp, readOutcome_of_size tag hsize⟩)
  have hlt : 10 + rest.length < 4294967296 := hsize ▸ size.toNat_lt
  have hofNat : size = UInt32.ofNat (10 + rest.length) := by rw [← hsize, UInt32.ofNat_toNat]
  rcases readBody_cases n tag (responseHeader tag size 0) rest with
    ⟨handles, params, hcount, htag, rfl⟩ |
      ⟨handles, params, entry, trailing, hcount, hparams, hfits, rfl, rfl⟩ | ⟨e, he, herr⟩
  · have hreply : responseHeader tag size 0 ++ (handleArea handles ++ params) =
        successReply tag handles params := by rw [hofNat, ← successReply_eq]
    have hreading : Reading n (successReply tag handles params) ⟨⟨handles, params⟩, none⟩ := by
      apply Reading.bare htag hcount
      rw [← hreply, List.length_append, length_responseHeader]
      exact hlt
    rw [hreply]
    exact .inl ⟨_, hreading, readOutcome_of_reading hreading⟩
  · -- whatever follows the entry is never looked at
    rw [List.append_assoc] at hlt hofNat ⊢
    have hreply : responseHeader st.sessions size 0 ++
          (handleArea handles ++ (authorizedBody params entry ++ trailing)) =
        successReply st.sessions handles (authorizedBody params entry ++ trailing) := by
      rw [hofNat, ← successReply_eq]
    have hreading : Reading n
        (successReply st.sessions handles (authorizedBody params entry ++ trailing))
        ⟨⟨handles, params⟩, some entry⟩ := by
      apply Reading.authorized hcount hfits
      rw [← hreply, List.length_append, length_responseHeader]
      exact hlt
    rw [hreply]
    exact .inl ⟨_, hreading, readOutcome_of_reading hreading⟩
  · refine .inr (.inr ⟨e, hmalformed e he, ?_⟩)
    rw [readOutcome_of_body tag hsize, herr]

theorem readOutcome_ok_iff : readOutcome n resp = .ok reply ↔ Reading n resp reply := by
  constructor
  · intro h
    rcases readOutcome_cases n resp with
      ⟨reply', hreading, hok⟩ | ⟨_, _, _, _, -, -, herr⟩ | ⟨e, -, herr⟩
    · obtain rfl : reply' = reply := by simpa [hok] using h
      exact hreading
    · simp [herr] at h
    · simp [herr] at h
  · exact readOutcome_of_reading

end Reading

/-! ### Verifying a reply -/

/-- `parse_response` behind the reading. -/
def verifyReply (P : Purecrypto) (code : UInt32) (names : List Bytes) (reply : Reply) :
    Exec Error Auth RawResponse :=
  match reply.entry with
  | none => pure reply.raw
  | some entry => do
      verifySession P 0 code names reply.raw.params entry
      pure reply.raw

/-- The HMAC a session expects on a response with code zero. -/
def responseHmac (P : Purecrypto) (d : Digest) (s : Session) (authValue : Bytes) (code : UInt32)
    (names : List Bytes) (params : Bytes) (entry : AuthResponse) : Bytes :=
  P.hmac d (s.hmacKey authValue (objectName names))
    (P.hash d (rpHashParts 0 code params).flatten ++ entry.nonceTpm ++ s.nonceCaller ++
      [entry.attributes.raw])

/-- The entry carries the HMAC the session expects. -/
def Session.Verified (P : Purecrypto) (s : Session) (authValue : Bytes) (code : UInt32)
    (names : List Bytes) (params : Bytes) (entry : AuthResponse) : Prop :=
  ∃ d, Digest.ofAlg s.hashAlg = some d ∧
    entry.hmac = responseHmac P d s authValue code names params entry

namespace Auth

/-- Whether an authorization lets a reply pass. Only a session looks at the
entry, and a reply without one passes in any case. -/
def Accepts (P : Purecrypto) (code : UInt32) (names : List Bytes) (reply : Reply) :
    Auth → Prop
  | session s authValue => ∀ entry, reply.entry = some entry →
      s.Verified P authValue code names reply.raw.params entry
  | _ => True

/-- The authorization behind a reply it let pass. -/
def absorb (reply : Reply) : Auth → Auth
  | session s authValue =>
      session { s with nonceTpm := (reply.entry.map AuthResponse.nonceTpm).getD s.nonceTpm }
        authValue
  | auth => auth

end Auth

section Verifying

variable {P : Purecrypto} {code : UInt32} {names : List Bytes} {n : ℕ} {resp : Bytes}
  {reply : Reply} {auth auth' : Auth}

/-- Parsing a reply is reading it, whatever the authorization, and then verifying it. -/
theorem parseResponse_eq (P : Purecrypto) (code : UInt32) (resp : Bytes) (names : List Bytes)
    (n : ℕ) : parseResponse P code resp names n =
      Exec.resume (readOutcome n resp) >>= verifyReply P code names := by
  rw [parseResponse, readOutcome, readReply]
  refine Exec.Factors.withLocal_eq (.onFst_bind fun tag => .onFst_bind fun size =>
    .onFst_bind fun rc => ?_) _
  rcases ne_or_eq rc 0 with hrc | rfl
  · rw [if_pos hrc, if_pos hrc]
    exact .throw _
  have hzero : ¬ (0 : UInt32) ≠ 0 := by simp
  rw [if_neg hzero, if_neg hzero]
  refine .ite (.throw _) (.onFst_bind fun rhandles => .ite ?_ ?_)
  · exact .onFst_bind fun paramSize => .onFst_bind fun pbytes =>
      .onFst_bind fun authResp => .pure fun r => Exec.withLocal_onSnd_bind_pure r _ _
  · exact .onFst_bind fun params => .pure fun r => rfl

/-- Verification passes and absorbs the nonce exactly on a verified entry; it
fails without a trace otherwise, and never with a code of the TPM. -/
theorem verifySession_session (P : Purecrypto) (s : Session) (authValue : Bytes) (code : UInt32)
    (names : List Bytes) (params : Bytes) (entry : AuthResponse) :
    (s.Verified P authValue code names params entry ∧
      verifySession P 0 code names params entry (.session s authValue) =
        (.ok (), .session { s with nonceTpm := entry.nonceTpm } authValue)) ∨
    (¬ s.Verified P authValue code names params entry ∧ ∃ e, (∀ rc, e ≠ .tpm rc) ∧
      verifySession P 0 code names params entry (.session s authValue) =
        (.err e, .session s authValue)) := by
  have hunfold : verifySession P 0 code names params entry (.session s authValue) =
      Auth.onSession (do
        let rp ← Exec.ofExcept (rpHash P s.hashAlg 0 code params)
        Session.verifyResponse P rp authValue (objectName names) entry)
        (.session s authValue) := rfl
  rw [hunfold, Auth.onSession]
  rcases hd : Digest.ofAlg s.hashAlg with _ | d
  · have hrp : rpHash P s.hashAlg 0 code params =
        .error (.usage "unsupported hash algorithm") := crypto.hashParts_of_none hd _
    rw [hrp, Exec.ofExcept_error_bind]
    refine .inr ⟨?_, _, ?_, rfl⟩
    · rintro ⟨d, hsome, -⟩
      simp [hd] at hsome
    · simp
  · have hrp : rpHash P s.hashAlg 0 code params =
        .ok (P.hash d (rpHashParts 0 code params).flatten) := crypto.hashParts_of_some hd _
    have hexpected : Session.expectedHmac P d s (P.hash d (rpHashParts 0 code params).flatten)
        authValue (objectName names) entry =
        responseHmac P d s authValue code names params entry := rfl
    rw [hrp, Exec.ofExcept_ok_bind, Session.verifyResponse_eq hd, hexpected]
    rcases eq_or_ne entry.hmac (responseHmac P d s authValue code names params entry) with
      heq | hne
    · rw [if_pos heq]
      exact .inl ⟨⟨d, hd, heq⟩, rfl⟩
    · rw [if_neg hne]
      refine .inr ⟨?_, _, ?_, rfl⟩
      · rintro ⟨d', hd', heq⟩
        obtain rfl : d = d' := by simpa [hd] using hd'
        exact hne heq
      · simp

theorem verifyReply_cases (P : Purecrypto) (code : UInt32) (names : List Bytes) (reply : Reply)
    (auth : Auth) :
    (auth.Accepts P code names reply ∧
      verifyReply P code names reply auth = (.ok reply.raw, auth.absorb reply)) ∨
    (¬ auth.Accepts P code names reply ∧ ∃ e, (∀ rc, e ≠ .tpm rc) ∧
      verifyReply P code names reply auth = (.err e, auth)) := by
  obtain ⟨raw, entry⟩ := reply
  cases entry with
  | none =>
      refine .inl ⟨?_, ?_⟩
      · cases auth <;> simp [Auth.Accepts]
      · cases auth <;> rfl
  | some entry =>
      cases auth with
      | none => exact .inl ⟨trivial, rfl⟩
      | password pw => exact .inl ⟨trivial, rfl⟩
      | session s authValue =>
          rcases verifySession_session P s authValue code names raw.params entry with
            ⟨hverified, hok⟩ | ⟨hverified, e, he, herr⟩
          · refine .inl ⟨?_, Exec.bind_ok hok⟩
            rintro _ ⟨rfl⟩
            exact hverified
          · exact .inr ⟨fun haccepts => hverified (haccepts entry rfl), e, he, Exec.bind_err herr⟩

/-- Every way `parse_response` can end. -/
theorem parseResponse_cases (P : Purecrypto) (code : UInt32) (resp : Bytes) (names : List Bytes)
    (n : ℕ) (auth : Auth) :
    (∃ reply, Reading n resp reply ∧ auth.Accepts P code names reply ∧
      parseResponse P code resp names n auth = (.ok reply.raw, auth.absorb reply)) ∨
    (∃ tag size rc rest, rc ≠ 0 ∧ resp = responseHeader tag size rc ++ rest ∧
      parseResponse P code resp names n auth = (.err (.tpm ⟨rc⟩), auth)) ∨
    ∃ e, (∀ rc, e ≠ .tpm rc) ∧ parseResponse P code resp names n auth = (.err e, auth) := by
  rw [parseResponse_eq]
  rcases readOutcome_cases n resp with
    ⟨reply, hreading, hok⟩ | ⟨tag, size, rc, rest, hrc, hresp, herr⟩ | ⟨e, he, herr⟩
  · have hstep : (Exec.resume (readOutcome n resp) >>= verifyReply P code names) auth =
        verifyReply P code names reply auth := by rw [hok]; rfl
    rw [hstep]
    rcases verifyReply_cases P code names reply auth with ⟨haccepts, hok⟩ | ⟨-, e, he, herr⟩
    · exact .inl ⟨reply, hreading, haccepts, hok⟩
    · exact .inr (.inr ⟨e, he, herr⟩)
  · exact .inr (.inl ⟨tag, size, rc, rest, hrc, hresp, by rw [herr]; rfl⟩)
  · exact .inr (.inr ⟨e, he, by rw [herr]; rfl⟩)

theorem parseResponse_ok_iff {raw : RawResponse} :
    parseResponse P code resp names n auth = (.ok raw, auth') ↔
      ∃ reply, Reading n resp reply ∧ auth.Accepts P code names reply ∧ reply.raw = raw ∧
        auth.absorb reply = auth' := by
  rw [parseResponse_eq, Exec.bind_eq_ok]
  constructor
  · rintro ⟨reply, a, hread, hverify⟩
    rw [Exec.resume_apply] at hread
    obtain ⟨hreading, rfl⟩ := Prod.mk.inj hread
    refine ⟨reply, readOutcome_ok_iff.mp hreading, ?_⟩
    rcases verifyReply_cases P code names reply auth with ⟨haccepts, hok⟩ | ⟨-, e, -, herr⟩
    · rw [hok] at hverify
      obtain ⟨hraw, hauth⟩ := Prod.mk.inj hverify
      exact ⟨haccepts, by simpa using hraw, hauth⟩
    · simp [herr] at hverify
  · rintro ⟨reply, hreading, haccepts, rfl, rfl⟩
    refine ⟨reply, auth, ?_, ?_⟩
    · rw [readOutcome_of_reading hreading, Exec.resume_apply]
    · rcases verifyReply_cases P code names reply auth with ⟨-, hok⟩ | ⟨hreject, -⟩
      · exact hok
      · exact absurd haccepts hreject

/-- A nonzero code is the error, whatever else the reply holds. -/
theorem parseResponse_of_rc (P : Purecrypto) (code : UInt32) (names : List Bytes) (n : ℕ)
    (auth : Auth) (tag : UInt16) (size : UInt32) {rc : UInt32} (hrc : rc ≠ 0) (rest : Bytes) :
    parseResponse P code (responseHeader tag size rc ++ rest) names n auth =
      (.err (.tpm ⟨rc⟩), auth) := by
  rw [parseResponse_eq, readOutcome_of_rc tag size hrc]
  rfl

theorem parseResponse_tpm_iff {rc : TpmRc} :
    (parseResponse P code resp names n auth).1 = .err (.tpm rc) ↔
      rc.raw ≠ 0 ∧ ∃ tag size rest, resp = responseHeader tag size rc.raw ++ rest := by
  constructor
  · intro h
    rcases parseResponse_cases P code resp names n auth with
      ⟨reply, -, -, hok⟩ | ⟨tag, size, c, rest, hc, hresp, herr⟩ | ⟨e, he, herr⟩
    · simp [hok] at h
    · obtain rfl : ⟨c⟩ = rc := by simpa [herr] using h
      exact ⟨hc, tag, size, rest, hresp⟩
    · exact absurd (by simpa [herr] using h) (he rc)
  · rintro ⟨hrc, tag, size, rest, rfl⟩
    rw [parseResponse_of_rc P code names n auth tag size hrc rest]

end Verifying

end PurecryptoTpm
