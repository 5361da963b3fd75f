import Mathlib.Data.UInt
import Mathlib.Data.Nat.Basic

/-!
Response codes and the error type: `src/error.rs`. A `TpmRc` is the 32-bit code
of a response header; `Error` joins the codes a TPM reports with the failures
the host stack raises itself.
-/

namespace PurecryptoTpm

/-- A byte string: a slice or a vector of the source. -/
abbrev Bytes := List UInt8

/-- A TPM response code, as carried in the response header. -/
structure TpmRc where
  raw : UInt32
  deriving DecidableEq

/-- Which kind of argument a format-one code refers to. -/
inductive ArgKind where
  | handle
  | parameter
  | session
  deriving DecidableEq

namespace TpmRc

/-- Bit 7: the code carries a parameter, handle or session number. -/
def isFormatOne (rc : TpmRc) : Bool := rc.raw &&& 0x080 != 0

def isWarning (rc : TpmRc) : Bool := !rc.isFormatOne && (rc.raw &&& 0x800 != 0)

/-- The code with any format-one number stripped off. -/
def base (rc : TpmRc) : TpmRc := if rc.isFormatOne then ⟨rc.raw &&& 0x0BF⟩ else rc

def argNumber (rc : TpmRc) : Option UInt8 :=
  if rc.isFormatOne then some ((rc.raw >>> 8) &&& 0xF).toUInt8 else none

def argKind (rc : TpmRc) : Option ArgKind :=
  if !rc.isFormatOne then none
  else if rc.raw &&& 0x040 != 0 then some .parameter
  else if rc.raw &&& 0x800 != 0 then some .session
  else some .handle

theorem base_of_formatZero {rc : TpmRc} (h : rc.isFormatOne = false) : rc.base = rc := by
  simp [base, h]

/-- Stripping a format-one code leaves at most its low byte. -/
theorem base_raw_le {rc : TpmRc} (h : rc.isFormatOne = true) : rc.base.raw.toNat ≤ 0x0BF := by
  simpa [base, h] using Nat.and_le_right

end TpmRc

/-- Anything that can go wrong talking to a TPM. -/
inductive Error where
  | tpm (rc : TpmRc)
  | transport (message : String)
  | malformed (message : String)
  | protocol (message : String)
  | usage (message : String)
  deriving DecidableEq

/-- An error from a raw response code. -/
def Error.rc (code : UInt32) : Error := .tpm ⟨code⟩

end PurecryptoTpm
