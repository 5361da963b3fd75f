import PurecryptoTpm.Tpm

/-!
Startup, randomness and capabilities: `src/commands/misc.rs`. None of these
commands is authorized.
-/

namespace PurecryptoTpm

/-- An undecoded capability reply. -/
structure CapabilityData where
  more : Bool
  capability : UInt32
  data : Bytes
  deriving DecidableEq

variable {τ : Type} [Transport τ]

/-- `self.run(code, &[], &[], &p, &mut Auth::None, 0)`. -/
def runBare (P : Purecrypto) (code : UInt32) (p : Bytes) : Exec Error (Env τ) RawResponse :=
  Env.withAuth .none (run P code [] [] p 0)

def startup (P : Purecrypto) (startupType : UInt16) : Exec Error (Env τ) Unit := do
  let p := marshal startupType []
  let _resp ← runBare P cc.startup p
  pure ()

def shutdown (P : Purecrypto) (shutdownType : UInt16) : Exec Error (Env τ) Unit := do
  let p := marshal shutdownType []
  let _resp ← runBare P cc.shutdown p
  pure ()

def selfTest (P : Purecrypto) (full : Bool) : Exec Error (Env τ) Unit := do
  let p := [if full then 1 else 0]
  let _resp ← runBare P cc.selfTest p
  pure ()

def getRandom (P : Purecrypto) (bytes : UInt16) : Exec Error (Env τ) Bytes := do
  let p := marshal bytes []
  let resp ← runBare P cc.getRandom p
  Exec.alone (Reader.new resp.params) Reader.tpm2b

def stirRandom (P : Purecrypto) (data : Bytes) : Exec Error (Env τ) Unit := do
  if data.length > 128 then
    Exec.throw (.usage "StirRandom accepts at most 128 bytes")
  else do
    let p ← appendTpm2b data []
    let _resp ← runBare P cc.stirRandom p
    pure ()

def getCapability (P : Purecrypto) (capability property count : UInt32) :
    Exec Error (Env τ) CapabilityData := do
  let p := marshal capability []
  let p := marshal property p
  let p := marshal count p
  let resp ← runBare P cc.getCapability p
  Exec.alone (Reader.new resp.params) do
    let more ← Reader.u8
    let cap ← Reader.u32
    let data ← Reader.takeRemaining
    pure { more := more != 0, capability := cap, data := data }

end PurecryptoTpm
