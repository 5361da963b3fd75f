import PurecryptoTpm.Commands.Misc

/-!
Starting a session and flushing a handle: `src/commands/session.rs`. A session
is started unsalted and unbound, and the host looks at its hash algorithm only
after the TPM has answered; `startHmacSession` looks at it before.
-/

namespace PurecryptoTpm

variable {τ : Type} [Transport τ]

/-- The parameter area: nonce, no salt, the session type, no symmetric
algorithm and the hash. -/
def startAuthSessionParams {σ : Type} (hashAlg : Alg) (nonceCaller : Bytes) :
    Exec Error σ Bytes := do
  let p ← appendTpm2b nonceCaller []
  let p ← appendTpm2b [] p
  let p := p ++ [se.hmac]
  let p := marshal SymDefObject.null p
  pure (marshal hashAlg p)

def startAuthSession (P : Purecrypto) (hashAlg : Alg) (nonceCaller : Bytes) :
    Exec Error (Env τ) Session := do
  -- neither a key for the salt nor a bind entity
  let handles : List Handle := [⟨rh.null⟩, ⟨rh.null⟩]
  let p ← startAuthSessionParams hashAlg nonceCaller
  let resp ← Env.withAuth .none (run P cc.startAuthSession handles [] p 1)
  let sessionHandle ← Exec.index resp.handles 0
  let nonceTpm ← Exec.alone (Reader.new resp.params) Reader.tpm2b
  Session.new P sessionHandle hashAlg nonceTpm nonceCaller ⟨SessionAttributes.continueSession⟩
    [] [] []

def startHmacSession (P : Purecrypto) (hashAlg : Alg) : Exec Error (Env τ) Session := do
  let n ← Exec.ofExcept (crypto.digestSize hashAlg)
  let nonce ← Env.onCaller (Exec.onSnd (OsRng.fillBytes n))
  startAuthSession P hashAlg nonce

def flushContext (P : Purecrypto) (handle : Handle) : Exec Error (Env τ) Unit := do
  let p := marshal handle []
  let _resp ← runBare P cc.flushContext p
  pure ()

end PurecryptoTpm
