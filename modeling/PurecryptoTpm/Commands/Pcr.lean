import PurecryptoTpm.Commands.Misc

/-!
Reading and extending PCRs: `src/commands/pcr.rs`. A digest to extend with is
written as it is, without a length.
-/

namespace PurecryptoTpm

structure PcrReadResult where
  updateCounter : UInt32
  selection : PcrSelectionList
  values : List Buffer
  deriving DecidableEq

/-- The parameters that come back from a reading. -/
def readPcrValues : Exec Error Reader PcrReadResult := do
  let updateCounter ← Reader.u32
  let selection ← unmarshal
  let values ← readDigestList
  pure { updateCounter := updateCounter, selection := selection, values := values }

variable {τ : Type} [Transport τ]

def pcrRead (P : Purecrypto) (selection : PcrSelectionList) :
    Exec Error (Env τ) PcrReadResult := do
  let p := marshal selection []
  let resp ← runBare P cc.pcrRead p
  Exec.alone (Reader.new resp.params) readPcrValues

/-- One PCR of one bank, if the TPM has a value for it. -/
def pcrReadOne (P : Purecrypto) (bank : Alg) (pcr : UInt8) :
    Exec Error (Env τ) (Option Buffer) := do
  let single ← PcrSelection.single bank pcr
  let res ← pcrRead P { list := [single] }
  pure res.values.head?

def pcrExtend (P : Purecrypto) (pcr : UInt32) (digests : List (Alg × Bytes)) :
    Exec Error (Env τ) Unit := do
  let handle : Handle := ⟨pcr⟩
  let p := marshal (UInt32.ofNat digests.length) []
  let p := digests.foldl (fun p digest => marshal digest.1 p ++ digest.2) p
  let name := permanentName handle
  let _resp ← run P cc.pcrExtend [handle] [name] p 0
  pure ()

end PurecryptoTpm
