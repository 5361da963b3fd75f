import PurecryptoTpm.Library.Retry
import PurecryptoTpm.Session
import PurecryptoTpm.Transport
import PurecryptoTpm.Types.Structures

/-!
The command dispatcher: `src/tpm.rs`. `run` builds the request frame, sends it
until the answer is not a transient warning, and unframes the answer. Its
mutable places are the transport, the authorization it was given (with the
session inside) and the random generator nonces are drawn from.
-/

namespace PurecryptoTpm

/-- How a command is authorized. -/
inductive Auth where
  | none
  | password (pw : Bytes)
  | session (session : Session) (authValue : Bytes)
  deriving DecidableEq

namespace Auth

def usesSessionArea : Auth → Bool
  | none => false
  | _ => true

/-- Run over the borrowed session of an authorization that has one. -/
def onSession {α : Type} (x : Exec Error Session α) : Exec Error Auth α
  | session s authValue => ((x s).1, session (x s).2 authValue)
  | auth => (.panic, auth)

end Auth

/-- A parsed, success-checked response. -/
structure RawResponse where
  handles : List Handle
  params : Bytes
  deriving DecidableEq

/-- The mutable places of a call of `run`. -/
structure Env (τ : Type) where
  transport : τ
  auth : Auth
  os : OsRng

namespace Env

variable {τ α : Type}

def onTransport (x : Exec Error τ α) : Exec Error (Env τ) α := fun env =>
  ((x env.transport).1, { env with transport := (x env.transport).2 })

def onAuth (x : Exec Error Auth α) : Exec Error (Env τ) α := fun env =>
  ((x env.auth).1, { env with auth := (x env.auth).2 })

/-- Run over everything but the transport. -/
def onCaller (x : Exec Error (Auth × OsRng) α) : Exec Error (Env τ) α := fun env =>
  ((x (env.auth, env.os)).1,
    { env with auth := (x (env.auth, env.os)).2.1, os := (x (env.auth, env.os)).2.2 })

/-- Run with an authorization of its own in place of the caller's. -/
def withAuth (auth : Auth) (x : Exec Error (Env τ) α) : Exec Error (Env τ) α := fun env =>
  ((x { env with auth := auth }).1, { (x { env with auth := auth }).2 with auth := env.auth })

theorem withAuth_apply (auth : Auth) (x : Exec Error (Env τ) α) (env : Env τ) :
    withAuth auth x env = ((x { env with auth := auth }).1,
      { (x { env with auth := auth }).2 with auth := env.auth }) := rfl

theorem onTransport_apply (x : Exec Error τ α) (env : Env τ) : onTransport x env =
    ((x env.transport).1, { env with transport := (x env.transport).2 }) := rfl

theorem onCaller_apply (x : Exec Error (Auth × OsRng) α) (env : Env τ) : onCaller x env =
    ((x (env.auth, env.os)).1,
      { env with auth := (x (env.auth, env.os)).2.1, os := (x (env.auth, env.os)).2.2 }) := rfl

end Env

/-! ### The hashes of a command and of a response -/

/-- The fields `cpHash` covers. -/
def cpHashParts (code : UInt32) (names : List Bytes) (params : Bytes) : List Bytes :=
  [toBeBytes code] ++ names ++ [params]

def cpHash (P : Purecrypto) (alg : Alg) (code : UInt32) (names : List Bytes) (params : Bytes) :
    Except Error Bytes :=
  crypto.hashParts P alg (cpHashParts code names params)

/-- The fields `rpHash` covers. -/
def rpHashParts (rc code : UInt32) (params : Bytes) : List Bytes :=
  [toBeBytes rc, toBeBytes code, params]

def rpHash (P : Purecrypto) (alg : Alg) (rc code : UInt32) (params : Bytes) :
    Except Error Bytes :=
  crypto.hashParts P alg (rpHashParts rc code params)

/-! ### The request -/

/-- The Name of the object being authorized. -/
def objectName (names : List Bytes) : Bytes := names.headD []

def sessionNonce (session : Session) : Exec Error OsRng Bytes := session.freshNonce

/-- The one entry of the authorization area. -/
def authorizationArea (P : Purecrypto) (code : UInt32) (names : List Bytes) (params : Bytes) :
    Exec Error (Auth × OsRng) Bytes := do
  let (auth, _) ← Exec.get
  match auth with
  | .none => Exec.abort
  | .password pw =>
      let area := marshal (Handle.mk rh.pw) []
      let area := marshalTpm2bOk [] area
      let area := area ++ [SessionAttributes.continueSession]
      match marshalTpm2b pw area with
      | (.ok (), area) => pure area
      | (_, _) => Exec.throw (.usage "auth value too long")
  | .session session authValue => do
      let cp ← Exec.ofExcept (cpHash P session.hashAlg code names params)
      let nonce ← Exec.onSnd (sessionNonce session)
      let ac ← Exec.onFst
        (Auth.onSession (Session.commandAuth P cp authValue (objectName names) nonce))
      let area := marshal ac.sessionHandle []
      let area := marshalTpm2bOk ac.nonceCaller area
      let area := area ++ [ac.attributes.raw]
      let area := marshalTpm2bOk ac.hmac area
      pure area

/-- Everything behind the ten-byte header. -/
def requestBody (P : Purecrypto) (code : UInt32) (handles : List Handle) (names : List Bytes)
    (params : Bytes) : Exec Error (Auth × OsRng) Bytes := do
  let (auth, _) ← Exec.get
  let body := handles.foldl (fun out h => marshal h out) []
  if auth.usesSessionArea then do
    let area ← authorizationArea P code names params
    let body := marshal (UInt32.ofNat area.length) body
    let body := body ++ area
    pure (body ++ params)
  else
    pure (body ++ params)

/-- The complete frame. Both the length cast and the sum wrap. -/
def requestFrame (P : Purecrypto) (code : UInt32) (handles : List Handle) (names : List Bytes)
    (params : Bytes) : Exec Error (Auth × OsRng) Bytes := do
  let (auth, _) ← Exec.get
  let body ← requestBody P code handles names params
  let tag := if auth.usesSessionArea then st.sessions else st.noSessions
  let total : UInt32 := 10 + UInt32.ofNat body.length
  let frame := marshal tag []
  let frame := marshal total frame
  let frame := marshal code frame
  pure (frame ++ body)

/-! ### The response -/

def parseAuthResponse : Exec Error Reader AuthResponse := do
  let nonceTpm ← Reader.tpm2b
  let attributes ← Reader.u8
  let hmac ← Reader.tpm2b
  pure { nonceTpm := nonceTpm, attributes := ⟨attributes⟩, hmac := hmac }

/-- The handle area of a response. -/
def unmarshalHandles : ℕ → Exec Error Reader (List Handle)
  | 0 => pure []
  | n + 1 => do
      let h ← unmarshal
      let hs ← unmarshalHandles n
      pure (h :: hs)

/-- Verify the response entry if the command used an HMAC session. -/
def verifySession (P : Purecrypto) (rc code : UInt32) (names : List Bytes) (pbytes : Bytes)
    (authResp : AuthResponse) : Exec Error Auth Unit := do
  let auth ← Exec.get
  match auth with
  | .session session authValue =>
      Auth.onSession do
        let rp ← Exec.ofExcept (rpHash P session.hashAlg rc code pbytes)
        Session.verifyResponse P rp authValue (objectName names) authResp
  | _ => pure ()

def parseResponse (P : Purecrypto) (code : UInt32) (resp : Bytes) (names : List Bytes)
    (respHandles : ℕ) : Exec Error Auth RawResponse :=
  Exec.withLocal (Reader.new resp) do
    let tag ← Exec.onFst Reader.u16
    let size ← Exec.onFst Reader.u32
    let rc ← Exec.onFst Reader.u32
    if rc ≠ 0 then
      Exec.throw (Error.rc rc)
    else if size.toNat ≠ resp.length then
      Exec.throw (.protocol "response size header disagrees with received length")
    else do
      let rhandles ← Exec.onFst (unmarshalHandles respHandles)
      if tag = st.sessions then do
        let paramSize ← Exec.onFst Reader.u32
        let pbytes ← Exec.onFst (Reader.take paramSize.toNat)
        -- the authorization area follows the parameters
        let authResp ← Exec.onFst parseAuthResponse
        Exec.onSnd (verifySession P rc code names pbytes authResp)
        pure { handles := rhandles, params := pbytes }
      else do
        let params ← Exec.onFst Reader.takeRemaining
        pure { handles := rhandles, params := params }

/-! ### The retry loop -/

/-- How many times to resubmit a command answered with a transient warning. -/
def maxTransientRetries : ℕ := 12

/-- The transient warnings: yielded, testing and retry. -/
def isTransient (rc : TpmRc) : Bool :=
  rc.base.raw == 0x908 || rc.base.raw == 0x90A || rc.base.raw == 0x922

/-- Whether the loop resubmits after an attempt to parse the answer. -/
def resubmits : Outcome Error RawResponse → Bool
  | .err (.tpm rc) => isTransient rc
  | _ => false

variable {τ : Type} [Transport τ]

/-- Send the frame once and interpret the answer. -/
def attempt (P : Purecrypto) (code : UInt32) (names : List Bytes) (respHandles : ℕ)
    (frame : Bytes) : Exec Error (Env τ) (Outcome Error RawResponse) := do
  let resp ← Env.onTransport (transmit frame)
  Exec.reify (Env.onAuth (parseResponse P code resp names respHandles))

/-- Run one command and return its parsed response. -/
def run (P : Purecrypto) (code : UInt32) (handles : List Handle) (names : List Bytes)
    (params : Bytes) (respHandles : ℕ) : Exec Error (Env τ) RawResponse := do
  let frame ← Env.onCaller (requestFrame P code handles names params)
  Exec.retry (attempt P code names respHandles frame) resubmits maxTransientRetries

end PurecryptoTpm
