import PurecryptoTpm.Tpm

/-!
The object lifecycle: `src/commands/object.rs`, with the result types of
`src/commands/mod.rs`. Each method builds its parameter area, runs the command
and reads what it needs of the returned parameters with a reader of its own.
-/

namespace PurecryptoTpm

structure CreatePrimaryResult where
  handle : Handle
  name : Buffer
  public_ : Buffer
  deriving DecidableEq

structure CreateResult where
  private_ : Buffer
  public_ : Buffer
  deriving DecidableEq

structure LoadResult where
  handle : Handle
  name : Buffer
  deriving DecidableEq

/-- Sensitive, public, empty outside info and no PCRs. -/
def createParams (sensitive : SensitiveCreate) (public_ : Public) : Bytes :=
  let p := sensitive.wrap2b []
  let p := public_.wrap2b p
  let p := marshalTpm2bOk [] p
  marshal ({ list := [] } : PcrSelectionList) p

/-- The parameters that come back for a primary object, of which two are kept. -/
def readPrimary (handle : Handle) : Exec Error Reader CreatePrimaryResult := do
  let outPublic ← Reader.tpm2b
  let _creationData ← Reader.tpm2b
  let _creationHash ← Reader.tpm2b
  skipTkCreation
  let objName ← Reader.tpm2b
  pure { handle := handle, name := ⟨objName⟩, public_ := ⟨outPublic⟩ }

variable {τ : Type} [Transport τ]

def createPrimary (P : Purecrypto) (hierarchy : Handle) (sensitive : SensitiveCreate)
    (public_ : Public) : Exec Error (Env τ) CreatePrimaryResult := do
  let p := createParams sensitive public_
  let name := permanentName hierarchy
  let resp ← run P cc.createPrimary [hierarchy] [name] p 1
  let handle ← Exec.index resp.handles 0
  Exec.alone (Reader.new resp.params) (readPrimary handle)

def create (P : Purecrypto) (parent : Handle) (parentName : Bytes) (sensitive : SensitiveCreate)
    (public_ : Public) : Exec Error (Env τ) CreateResult := do
  let p := createParams sensitive public_
  let resp ← run P cc.create [parent] [parentName] p 0
  Exec.alone (Reader.new resp.params) do
    let outPrivate ← Reader.tpm2b
    let outPublic ← Reader.tpm2b
    pure { private_ := ⟨outPrivate⟩, public_ := ⟨outPublic⟩ }

def load (P : Purecrypto) (parent : Handle) (parentName : Bytes) (inPrivate inPublic : Buffer) :
    Exec Error (Env τ) LoadResult := do
  let p := marshal inPrivate []
  let p := marshal inPublic p
  let resp ← run P cc.load [parent] [parentName] p 1
  let handle ← Exec.index resp.handles 0
  Exec.alone (Reader.new resp.params) do
    let name ← Reader.tpm2b
    pure { handle := handle, name := ⟨name⟩ }

def unseal_ (P : Purecrypto) (item : Handle) (itemName : Bytes) : Exec Error (Env τ) Bytes := do
  let resp ← run P cc.unseal [item] [itemName] [] 0
  Exec.alone (Reader.new resp.params) Reader.tpm2b

end PurecryptoTpm
