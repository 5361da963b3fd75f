import PurecryptoTpm.Tpm

/-!
What a request frame is made of. Each way to authorize a command determines
the entry of the authorization area, and with it every byte of the frame. The
lemmas of the last section are the equations of `requestFrame`, one for each
way; everything proved about requests goes through them.
-/

namespace PurecryptoTpm

/-! ### Wire forms -/

/-- Handles in order. -/
def handleArea (handles : List Handle) : Bytes :=
  (handles.map fun h => toBeBytes h.raw).flatten

/-- One entry of a command authorization area. -/
def commandEntry (ac : AuthCommand) : Bytes :=
  toBeBytes ac.sessionHandle.raw ++ tpm2bBytes ac.nonceCaller ++ [ac.attributes.raw] ++
    tpm2bBytes ac.hmac

/-- Handles, authorization area and parameters. -/
def commandBody (handles : List Handle) (entry : Option AuthCommand) (params : Bytes) : Bytes :=
  match entry with
  | none => handleArea handles ++ params
  | some ac => handleArea handles ++ toBeBytes (UInt32.ofNat (commandEntry ac).length) ++
      commandEntry ac ++ params

/-- A body behind its header. -/
def commandFrame (tag : UInt16) (code : UInt32) (body : Bytes) : Bytes :=
  toBeBytes tag ++ toBeBytes (10 + UInt32.ofNat body.length) ++ toBeBytes code ++ body

@[simp] theorem length_handleArea (handles : List Handle) :
    (handleArea handles).length = 4 * handles.length := by
  induction handles with
  | nil => rfl
  | cons h handles ih =>
      rw [handleArea, List.map_cons, List.flatten_cons, List.length_append, ← handleArea, ih,
        length_toBeBytes, size_uint32, List.length_cons]
      omega

theorem foldl_marshal_handles (handles : List Handle) :
    handles.foldl (fun out h => marshal h out) [] = handleArea handles := by
  rw [foldl_marshal, List.nil_append]
  rfl

/-! ### The entry of each authorization -/

/-- The entry that carries a password. -/
def passwordEntry (pw : Bytes) : AuthCommand where
  sessionHandle := ⟨rh.pw⟩
  nonceCaller := []
  attributes := ⟨SessionAttributes.continueSession⟩
  hmac := pw

/-- The HMAC a session puts on a command. -/
def commandHmac (P : Purecrypto) (d : Digest) (s : Session) (authValue : Bytes) (code : UInt32)
    (names : List Bytes) (params nonce : Bytes) : Bytes :=
  P.hmac d (s.hmacKey authValue (objectName names))
    (P.hash d (cpHashParts code names params).flatten ++ nonce ++ s.nonceTpm ++
      [s.attributes.raw])

/-- The entry that carries a session's HMAC. -/
def sessionEntry (P : Purecrypto) (d : Digest) (s : Session) (authValue : Bytes) (code : UInt32)
    (names : List Bytes) (params nonce : Bytes) : AuthCommand where
  sessionHandle := s.handle
  nonceCaller := nonce
  attributes := s.attributes
  hmac := commandHmac P d s authValue code names params nonce

variable {P : Purecrypto} {code : UInt32} {handles : List Handle} {names : List Bytes}
  {params : Bytes} {s : Session} {d : Digest} {authValue : Bytes} {os : OsRng}

theorem area_eq_commandEntry {ac : AuthCommand} (hnonce : ac.nonceCaller.length < 65536)
    (hhmac : ac.hmac.length < 65536) :
    marshalTpm2bOk ac.hmac
      (marshalTpm2bOk ac.nonceCaller (marshal ac.sessionHandle []) ++ [ac.attributes.raw]) =
      commandEntry ac := by
  rw [marshalTpm2bOk_of_lt hhmac, marshalTpm2bOk_of_lt hnonce, marshal_eq, toBytes_handle]
  simp [commandEntry]

theorem authorizationArea_password {pw : Bytes} (hpw : pw.length < 65536) :
    authorizationArea P code names params (.password pw, os) =
      (.ok (commandEntry (passwordEntry pw)), .password pw, os) := by
  rw [authorizationArea, Exec.get_bind]
  have hempty : ([] : Bytes).length < 65536 := by decide
  simp only [marshalTpm2b_of_lt hpw, marshalTpm2bOk_of_lt hempty, marshal_eq, toBytes_handle]
  simp [commandEntry, passwordEntry]

theorem authorizationArea_password_long {pw : Bytes} (hpw : 65536 ≤ pw.length) :
    authorizationArea P code names params (.password pw, os) =
      (.err (.usage "auth value too long"), .password pw, os) := by
  rw [authorizationArea, Exec.get_bind]
  simp only [marshalTpm2b_of_ge hpw]
  rfl

theorem authorizationArea_session (hd : Digest.ofAlg s.hashAlg = some d) :
    authorizationArea P code names params (.session s authValue, os) =
      (.ok (commandEntry (sessionEntry P d s authValue code names params (os.drawn d.size))),
        .session { s with nonceCaller := os.drawn d.size } authValue, os.skip d.size) := by
  have hcp : cpHash P s.hashAlg code names params =
      .ok (P.hash d (cpHashParts code names params).flatten) := crypto.hashParts_of_some hd _
  have hnonce : (Exec.onSnd (sessionNonce s) : Exec Error (Auth × OsRng) Bytes)
        (.session s authValue, os) =
      (.ok (os.drawn d.size), .session s authValue, os.skip d.size) := by
    rw [Exec.onSnd_apply, sessionNonce, Session.freshNonce_eq hd]
  have hac : (Exec.onFst (Auth.onSession (Session.commandAuth P
          (P.hash d (cpHashParts code names params).flatten) authValue (objectName names)
          (os.drawn d.size))) : Exec Error (Auth × OsRng) AuthCommand)
        (.session s authValue, os.skip d.size) =
      (.ok (sessionEntry P d s authValue code names params (os.drawn d.size)),
        .session { s with nonceCaller := os.drawn d.size } authValue, os.skip d.size) := by
    rw [Exec.onFst_apply, Auth.onSession, Session.commandAuth_eq hd]
    rfl
  rw [authorizationArea, Exec.get_bind]
  simp only [hcp, Exec.ofExcept_ok_bind]
  rw [Exec.bind_ok hnonce, Exec.bind_ok hac, Exec.pure_apply, area_eq_commandEntry]
  · rw [sessionEntry, OsRng.length_drawn]
    exact d.size_lt
  · rw [sessionEntry, commandHmac, P.length_hmac]
    exact d.size_lt

theorem authorizationArea_unsupported (hd : Digest.ofAlg s.hashAlg = none) :
    authorizationArea P code names params (.session s authValue, os) =
      (.err (.usage "unsupported hash algorithm"), .session s authValue, os) := by
  have hcp : cpHash P s.hashAlg code names params =
      .error (.usage "unsupported hash algorithm") := crypto.hashParts_of_none hd _
  rw [authorizationArea, Exec.get_bind]
  simp only [hcp, Exec.ofExcept_error_bind]

/-! ### The equations of `requestFrame` -/

theorem requestBody_none :
    requestBody P code handles names params (.none, os) =
      (.ok (commandBody handles none params), .none, os) := by
  rw [requestBody, Exec.get_bind]
  simp only [Auth.usesSessionArea, foldl_marshal_handles]
  rfl

theorem requestBody_of_area {auth auth' : Auth} {os' : OsRng} {ac : AuthCommand}
    (huses : auth.usesSessionArea = true)
    (harea : authorizationArea P code names params (auth, os) =
      (.ok (commandEntry ac), auth', os')) :
    requestBody P code handles names params (auth, os) =
      (.ok (commandBody handles (some ac) params), auth', os') := by
  rw [requestBody, Exec.get_bind]
  simp only [huses, if_true, foldl_marshal_handles]
  rw [Exec.bind_ok harea, Exec.pure_apply, marshal_eq, toBytes_prim]
  rfl

theorem requestBody_of_area_err {auth auth' : Auth} {os' : OsRng} {e : Error}
    (huses : auth.usesSessionArea = true)
    (harea : authorizationArea P code names params (auth, os) = (.err e, auth', os')) :
    requestBody P code handles names params (auth, os) = (.err e, auth', os') := by
  rw [requestBody, Exec.get_bind]
  simp only [huses, if_true]
  exact Exec.bind_err harea

theorem requestFrame_of_body {auth auth' : Auth} {os' : OsRng} {body : Bytes}
    (hbody : requestBody P code handles names params (auth, os) = (.ok body, auth', os')) :
    requestFrame P code handles names params (auth, os) =
      (.ok (commandFrame (if auth.usesSessionArea then st.sessions else st.noSessions) code body),
        auth', os') := by
  rw [requestFrame, Exec.get_bind]
  simp only
  rw [Exec.bind_ok hbody, Exec.pure_apply]
  simp only [marshal_eq, toBytes_prim, List.nil_append]
  rfl

theorem requestFrame_of_body_err {auth auth' : Auth} {os' : OsRng} {e : Error}
    (hbody : requestBody P code handles names params (auth, os) = (.err e, auth', os')) :
    requestFrame P code handles names params (auth, os) = (.err e, auth', os') := by
  rw [requestFrame, Exec.get_bind]
  exact Exec.bind_err hbody

theorem requestFrame_none :
    requestFrame P code handles names params (.none, os) =
      (.ok (commandFrame st.noSessions code (commandBody handles none params)), .none, os) :=
  requestFrame_of_body requestBody_none

theorem requestFrame_password {pw : Bytes} (hpw : pw.length < 65536) :
    requestFrame P code handles names params (.password pw, os) =
      (.ok (commandFrame st.sessions code (commandBody handles (some (passwordEntry pw)) params)),
        .password pw, os) :=
  requestFrame_of_body (requestBody_of_area rfl (authorizationArea_password hpw))

theorem requestFrame_password_long {pw : Bytes} (hpw : 65536 ≤ pw.length) :
    requestFrame P code handles names params (.password pw, os) =
      (.err (.usage "auth value too long"), .password pw, os) :=
  requestFrame_of_body_err (requestBody_of_area_err rfl (authorizationArea_password_long hpw))

theorem requestFrame_session (hd : Digest.ofAlg s.hashAlg = some d) :
    requestFrame P code handles names params (.session s authValue, os) =
      (.ok (commandFrame st.sessions code (commandBody handles
          (some (sessionEntry P d s authValue code names params (os.drawn d.size))) params)),
        .session { s with nonceCaller := os.drawn d.size } authValue, os.skip d.size) :=
  requestFrame_of_body (requestBody_of_area rfl (authorizationArea_session hd))

theorem requestFrame_unsupported (hd : Digest.ofAlg s.hashAlg = none) :
    requestFrame P code handles names params (.session s authValue, os) =
      (.err (.usage "unsupported hash algorithm"), .session s authValue, os) :=
  requestFrame_of_body_err (requestBody_of_area_err rfl (authorizationArea_unsupported hd))

end PurecryptoTpm
