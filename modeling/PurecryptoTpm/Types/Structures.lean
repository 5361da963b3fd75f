import PurecryptoTpm.Types.Constants

/-!
The structure subset the commands send: `src/types/structures.rs`. A sized
buffer discards the length error of its inner codec, so a value too long for
its length prefix is written as nothing at all.
-/

namespace PurecryptoTpm

/-- `marshal_tpm2b(data, out).ok()`: the vector after an attempt whose error is
discarded. -/
def marshalTpm2bOk (data out : Bytes) : Bytes := (marshalTpm2b data).final out

theorem marshalTpm2bOk_append (data out : Bytes) :
    marshalTpm2bOk data out = out ++ marshalTpm2bOk data [] := by
  by_cases h : data.length < 65536
  · simp [marshalTpm2bOk, Exec.final, marshalTpm2b_of_lt h]
  · simp [marshalTpm2bOk, Exec.final, marshalTpm2b_of_ge (Nat.le_of_not_lt h)]

theorem marshalTpm2bOk_of_lt {data : Bytes} (h : data.length < 65536) (out : Bytes) :
    marshalTpm2bOk data out = out ++ tpm2bBytes data := by
  simp [marshalTpm2bOk, Exec.final, marshalTpm2b_of_lt h]

theorem marshalTpm2bOk_of_ge {data : Bytes} (h : 65536 ≤ data.length) (out : Bytes) :
    marshalTpm2bOk data out = out := by
  simp [marshalTpm2bOk, Exec.final, marshalTpm2b_of_ge h]

/-- However long the data, what is written stays below the largest `TPM2B`. -/
theorem length_marshalTpm2bOk_le (data : Bytes) :
    (marshalTpm2bOk data []).length ≤ 65537 := by
  by_cases h : data.length < 65536
  · rw [marshalTpm2bOk_of_lt h, List.nil_append, length_tpm2bBytes]
    omega
  · simp [marshalTpm2bOk_of_ge (Nat.le_of_not_lt h)]

/-- The curve NIST P-256. -/
def eccCurve.nistP256 : UInt16 := 0x0003

/-- A `TPM2B_*` buffer. -/
structure Buffer where
  bytes : Bytes
  deriving DecidableEq

namespace Buffer

def empty : Buffer := ⟨[]⟩

end Buffer

instance : Marshal Buffer where
  marshal b out := marshalTpm2bOk b.bytes out
  marshal_append b out := marshalTpm2bOk_append b.bytes out

instance : Unmarshal Buffer where
  unmarshal := do
    let b ← Reader.tpm2b
    pure ⟨b⟩

@[simp] theorem toBytes_buffer (b : Buffer) : toBytes b = marshalTpm2bOk b.bytes [] := rfl

/-- The symmetric algorithm of a storage key's child protection. -/
structure SymDefObject where
  algorithm : Alg
  keyBits : UInt16
  mode : Alg
  deriving DecidableEq

/-- AES-128 in CFB mode. -/
def SymDefObject.aes128Cfb : SymDefObject where
  algorithm := Alg.aes
  keyBits := 128
  mode := Alg.cfb

/-- No symmetric algorithm. -/
def SymDefObject.null : SymDefObject where
  algorithm := Alg.null
  keyBits := 0
  mode := Alg.null

instance : Marshal SymDefObject where
  marshal s out :=
    let out := marshal s.algorithm out
    if s.algorithm ≠ Alg.null then
      -- key bits and mode of a symmetric object
      marshal s.mode (marshal s.keyBits out)
    else out
  marshal_append s out := by
    by_cases h : s.algorithm ≠ Alg.null <;> simp [h, marshal_eq]

/-- The algorithm-specific parameters of a public area. -/
inductive PublicParms where
  | keyedHash (scheme : Alg)
  | ecc (symmetric : SymDefObject) (scheme : Alg) (curve : UInt16) (kdf : Alg)
  deriving DecidableEq

instance : Marshal PublicParms where
  marshal p out :=
    match p with
    | .keyedHash scheme => marshal scheme out
    | .ecc symmetric scheme curve kdf =>
        marshal kdf (marshal curve (marshal scheme (marshal symmetric out)))
  marshal_append p out := by
    cases p <;> simp [marshal_eq]

/-- The unique field of a public area. -/
inductive PublicId where
  | keyedHash (d : Buffer)
  | ecc (x y : Buffer)
  deriving DecidableEq

instance : Marshal PublicId where
  marshal p out :=
    match p with
    | .keyedHash d => marshal d out
    | .ecc x y => marshal y (marshal x out)
  marshal_append p out := by
    cases p with
    | keyedHash d => exact Marshal.marshal_append d out
    | ecc x y => simp only [marshal_eq, List.append_assoc, List.nil_append]

/-- The public area of an object. -/
structure Public where
  type_ : Alg
  nameAlg : Alg
  attributes : ObjectAttributes
  authPolicy : Buffer
  parameters : PublicParms
  unique : PublicId
  deriving DecidableEq

instance : Marshal Public where
  marshal p out :=
    let out := marshal p.type_ out
    let out := marshal p.nameAlg out
    let out := marshal p.attributes out
    let out := marshal p.authPolicy out
    let out := marshal p.parameters out
    marshal p.unique out
  marshal_append p out := by
    simp only [marshal_eq, List.append_assoc, List.nil_append]

/-- The template of a restricted storage parent on the curve P-256. -/
def Public.eccStorageParent (nameAlg : Alg) : Public where
  type_ := Alg.ecc
  nameAlg := nameAlg
  attributes := ObjectAttributes.storageParent
  authPolicy := Buffer.empty
  parameters := .ecc SymDefObject.aes128Cfb Alg.null eccCurve.nistP256 Alg.null
  unique := .ecc Buffer.empty Buffer.empty

/-- The template of a sealed data object. -/
def Public.sealedData (nameAlg : Alg) : Public where
  type_ := Alg.keyedhash
  nameAlg := nameAlg
  attributes := ObjectAttributes.sealedData
  authPolicy := Buffer.empty
  parameters := .keyedHash Alg.null
  unique := .keyedHash Buffer.empty

/-- The `TPM2B_PUBLIC` form. -/
def Public.wrap2b (p : Public) (out : Bytes) : Bytes :=
  let inner := toBytes p
  marshalTpm2bOk inner out

/-- The caller-supplied secret half at creation. -/
structure SensitiveCreate where
  userAuth : Buffer
  data : Buffer
  deriving DecidableEq

/-- The `TPM2B_SENSITIVE_CREATE` form. -/
def SensitiveCreate.wrap2b (s : SensitiveCreate) (out : Bytes) : Bytes :=
  let inner := marshal s.userAuth []
  let inner := marshal s.data inner
  marshalTpm2bOk inner out

/-- One bank and a bitmap selecting PCRs of it. -/
structure PcrSelection where
  hash : Alg
  select : Bytes
  deriving DecidableEq

/-- A selection of one PCR, in a map of the standard three bytes or more. -/
def PcrSelection.single {σ : Type} (hash : Alg) (pcr : UInt8) : Exec Error σ PcrSelection := do
  let byte := (pcr / 8).toNat
  let select ← Exec.setIndex (List.replicate (byte + 1) 0) byte ((1 : UInt8) <<< (pcr % 8))
  let select :=
    if select.length < 3 then select ++ List.replicate (3 - select.length) 0 else select
  pure { hash := hash, select := select }

instance : Marshal PcrSelection where
  marshal s out := marshal (UInt8.ofNat s.select.length) (marshal s.hash out) ++ s.select
  marshal_append s out := by simp [marshal_eq]

instance : Unmarshal PcrSelection where
  unmarshal := do
    let hash ← unmarshal
    let size ← Reader.u8
    let select ← Reader.take size.toNat
    pure { hash := hash, select := select }

/-- A counted list of selections. -/
structure PcrSelectionList where
  list : List PcrSelection
  deriving DecidableEq

theorem foldl_marshal {α : Type} [Marshal α] (l : List α) (out : Bytes) :
    l.foldl (fun out a => marshal a out) out = out ++ (l.map toBytes).flatten := by
  simp [marshal_eq]

instance : Marshal PcrSelectionList where
  marshal l out :=
    l.list.foldl (fun out s => marshal s out) (marshal (UInt32.ofNat l.list.length) out)
  marshal_append l out := by simp [marshal_eq]

instance : Unmarshal PcrSelectionList where
  unmarshal := do
    let count ← Reader.u32
    let v ← Exec.times unmarshal count.toNat
    pure { list := v }

/-- Reads past a creation ticket without modelling it. -/
def skipTkCreation : Exec Error Reader Unit := do
  let _tag ← Reader.u16
  let _hierarchy ← Reader.u32
  let _digest ← Reader.tpm2b
  pure ()

/-- A counted list of digests. -/
def readDigestList : Exec Error Reader (List Buffer) := do
  let count ← Reader.u32
  if count.toNat > 0xFFFF then
    Exec.throw (.malformed "absurd digest-list count")
  else
    Exec.times (do let b ← Reader.tpm2b; pure ⟨b⟩) count.toNat

end PurecryptoTpm
