import Mathlib.Algebra.Order.Floor.Div
import Mathlib.GroupTheory.GroupAction.Ring
import PurecryptoTpm.Library.While
import PurecryptoTpm.Types.Constants

/-!
Hashing and HMAC dispatched by algorithm identifier, and the key derivation
function KDFa: `src/crypto.rs`. The digests and their HMACs come from the
`purecrypto` crate. All that is used of them is that each is a function of the
concatenation of what it is fed, with an output of the digest's fixed size; a
`Purecrypto` is any family of functions with that property.
-/

namespace PurecryptoTpm

/-- The digests of the `purecrypto` crate that an algorithm can select. -/
inductive Digest where
  | sha1
  | sha256
  | sha384
  | sha512
  | sm3
  deriving DecidableEq

namespace Digest

/-- The output size in bytes. -/
def size : Digest → ℕ
  | sha1 => 20
  | sha256 => 32
  | sha384 => 48
  | sha512 => 64
  | sm3 => 32

/-- The digest an algorithm selects in `hash_parts` and `hmac_parts`. -/
def ofAlg (alg : Alg) : Option Digest :=
  if alg = Alg.sha1 then some sha1
  else if alg = Alg.sha256 then some sha256
  else if alg = Alg.sha384 then some sha384
  else if alg = Alg.sha512 then some sha512
  else if alg = Alg.sm3_256 then some sm3
  else none

/-- Every digest and every HMAC fits a `TPM2B`. -/
theorem size_lt (d : Digest) : d.size < 65536 := by cases d <;> decide

end Digest

/-- The hash and HMAC functions of the `purecrypto` crate. -/
structure Purecrypto where
  hash : Digest → Bytes → Bytes
  /-- The key comes first. -/
  hmac : Digest → Bytes → Bytes → Bytes
  length_hash : ∀ d m, (hash d m).length = d.size
  length_hmac : ∀ d k m, (hmac d k m).length = d.size

attribute [simp] Purecrypto.length_hash Purecrypto.length_hmac

/-- Cut or fill to exactly `n` bytes. -/
def fit (n : ℕ) (b : Bytes) : Bytes := (b ++ List.replicate n 0).take n

theorem length_fit (n : ℕ) (b : Bytes) : (fit n b).length = n := by
  rw [fit, List.length_take, List.length_append, List.length_replicate]
  omega

/-- The family with the listed outputs, and zeros off the lists. -/
def Purecrypto.ofValues (hashes : List ((Digest × Bytes) × Bytes))
    (hmacs : List ((Digest × Bytes × Bytes) × Bytes)) : Purecrypto where
  hash d m := fit d.size ((hashes.lookup (d, m)).getD [])
  hmac d k m := fit d.size ((hmacs.lookup (d, k, m)).getD [])
  length_hash d _ := length_fit d.size _
  length_hmac d _ _ := length_fit d.size _

namespace crypto

/-- Hash the concatenation of `parts`. -/
def hashParts (P : Purecrypto) (alg : Alg) (parts : List Bytes) : Except Error Bytes :=
  match Digest.ofAlg alg with
  | some d => .ok (P.hash d parts.flatten)
  | none => .error (.usage "unsupported hash algorithm")

/-- HMAC over the concatenation of `parts`. -/
def hmacParts (P : Purecrypto) (alg : Alg) (key : Bytes) (parts : List Bytes) :
    Except Error Bytes :=
  match Digest.ofAlg alg with
  | some d => .ok (P.hmac d key parts.flatten)
  | none => .error (.usage "unsupported HMAC hash algorithm")

/-- The digest size of a hash algorithm; an algorithm of size zero is none. -/
def digestSize (alg : Alg) : Except Error ℕ :=
  match alg.digestSize.filter (0 < ·) with
  | some n => .ok n
  | none => .error (.usage "not a hash algorithm")

/-! ### KDFa -/

/-- The counter and the growing output of KDFa. -/
structure KdfaState where
  counter : UInt32
  out : Bytes
  deriving DecidableEq

/-- The fields the HMAC of a round covers. -/
def kdfaParts (counter : UInt32) (label contextU contextV : Bytes) (bits : UInt32) : List Bytes :=
  [toBeBytes counter, label, [0x00], contextU, contextV, toBeBytes bits]

/-- One round: count it and append its block. The addition panics on overflow. -/
def kdfaRound (P : Purecrypto) (alg : Alg) (key label contextU contextV : Bytes)
    (bits : UInt32) : Exec Error KdfaState Unit := do
  let s ← Exec.get
  if s.counter = 0xFFFF_FFFF then
    Exec.abort
  else do
    let counter := s.counter + 1
    let block ← Exec.ofExcept
      (hmacParts P alg key (kdfaParts counter label contextU contextV bits))
    Exec.set { counter := counter, out := s.out ++ block }

/-- The loop, with fuel for a round for every byte wanted; running out of it
is counted as a panic. -/
def kdfaLoop (P : Purecrypto) (alg : Alg) (key label contextU contextV : Bytes)
    (bits : UInt32) (outLen : ℕ) : Exec Error KdfaState ℕ := do
  let rounds ← Exec.whileLoop (fun s => s.out.length < outLen)
    (kdfaRound P alg key label contextU contextV bits) (outLen + 1)
  match rounds with
  | some n => pure n
  | none => Exec.abort

/-- Clear the surplus high bits of the leading octet. -/
def kdfaMask (bits : UInt32) (out : Bytes) : Exec Error KdfaState Bytes :=
  let rem := bits % 8
  if rem ≠ 0 ∧ ¬out.isEmpty then do
    let b ← Exec.index out 0
    pure (out.set 0 (b &&& ((0xFF : UInt8) >>> (8 - rem).toUInt8)))
  else
    pure out

/-- `bits` bits of key material. -/
def kdfa {σ : Type} (P : Purecrypto) (alg : Alg) (key label contextU contextV : Bytes)
    (bits : UInt32) : Exec Error σ Bytes :=
  Exec.alone { counter := 0, out := [] } do
    let outLen := bits.toNat ⌈/⌉ 8
    let _rounds ← kdfaLoop P alg key label contextU contextV bits outLen
    let s ← Exec.get
    kdfaMask bits (s.out.take outLen)

variable {P : Purecrypto} {alg : Alg} {d : Digest}

theorem hashParts_of_some (h : Digest.ofAlg alg = some d) (parts : List Bytes) :
    hashParts P alg parts = .ok (P.hash d parts.flatten) := by
  simp [hashParts, h]

theorem hashParts_of_none (h : Digest.ofAlg alg = none) (parts : List Bytes) :
    hashParts P alg parts = .error (.usage "unsupported hash algorithm") := by
  simp [hashParts, h]

theorem hmacParts_of_some (h : Digest.ofAlg alg = some d) (key : Bytes) (parts : List Bytes) :
    hmacParts P alg key parts = .ok (P.hmac d key parts.flatten) := by
  simp [hmacParts, h]

/-- The size table and the two dispatches agree on what a hash algorithm is. -/
theorem digestSize_eq (alg : Alg) : digestSize alg =
    match Digest.ofAlg alg with
    | some d => .ok d.size
    | none => .error (.usage "not a hash algorithm") := by
  rcases alg with ⟨raw⟩
  by_cases h₁ : raw = 0x0004
  · subst h₁; rfl
  by_cases h₂ : raw = 0x000B
  · subst h₂; rfl
  by_cases h₃ : raw = 0x000C
  · subst h₃; rfl
  by_cases h₄ : raw = 0x000D
  · subst h₄; rfl
  by_cases h₅ : raw = 0x0012
  · subst h₅; rfl
  by_cases h₆ : raw = 0x0010
  · subst h₆; rfl
  simp [digestSize, Alg.digestSize, Digest.ofAlg, Alg.sha1, Alg.sha256, Alg.sha384,
    Alg.sha512, Alg.sm3_256, Alg.null, h₁, h₂, h₃, h₄, h₅, h₆]

theorem digestSize_of_some (h : Digest.ofAlg alg = some d) : digestSize alg = .ok d.size := by
  rw [digestSize_eq, h]

end crypto

end PurecryptoTpm
