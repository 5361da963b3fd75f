import PurecryptoTpm.Marshal

/-!
Code points, handles and attribute fields: `src/types/constants.rs`,
`src/types/handles.rs` and `src/types/attributes.rs`. Each newtype of the
source is a one-field structure over its wire integer and is read and written
as that integer.
-/

namespace PurecryptoTpm

/-! ### Structure tags, command codes and reserved handles -/

def st.noSessions : UInt16 := 0x8001
def st.sessions : UInt16 := 0x8002

/-- The session type of an HMAC session. -/
def se.hmac : UInt8 := 0x00

def cc.startup : UInt32 := 0x0000_0144
def cc.shutdown : UInt32 := 0x0000_0145
def cc.selfTest : UInt32 := 0x0000_0143
def cc.getCapability : UInt32 := 0x0000_017A
def cc.getRandom : UInt32 := 0x0000_017B
def cc.stirRandom : UInt32 := 0x0000_0146
def cc.pcrRead : UInt32 := 0x0000_017E
def cc.pcrExtend : UInt32 := 0x0000_0182
def cc.startAuthSession : UInt32 := 0x0000_0176
def cc.createPrimary : UInt32 := 0x0000_0131
def cc.create : UInt32 := 0x0000_0153
def cc.load : UInt32 := 0x0000_0157
def cc.unseal : UInt32 := 0x0000_015E
def cc.flushContext : UInt32 := 0x0000_0165

/-- The null hierarchy. -/
def rh.null : UInt32 := 0x4000_0007

/-- The password authorization "session". -/
def rh.pw : UInt32 := 0x4000_0009

/-! ### Algorithm identifiers -/

/-- A 16-bit algorithm identifier. -/
structure Alg where
  raw : UInt16
  deriving DecidableEq

namespace Alg

def sha1 : Alg := ⟨0x0004⟩
def aes : Alg := ⟨0x0006⟩
def keyedhash : Alg := ⟨0x0008⟩
def sha256 : Alg := ⟨0x000B⟩
def sha384 : Alg := ⟨0x000C⟩
def sha512 : Alg := ⟨0x000D⟩
def null : Alg := ⟨0x0010⟩
def sm3_256 : Alg := ⟨0x0012⟩
def ecc : Alg := ⟨0x0023⟩
def cfb : Alg := ⟨0x0043⟩

/-- The output size of a hash algorithm; `null` maps to zero. -/
def digestSize (alg : Alg) : Option ℕ :=
  if alg.raw = sha1.raw then some 20
  else if alg.raw = sha256.raw then some 32
  else if alg.raw = sha384.raw then some 48
  else if alg.raw = sha512.raw then some 64
  else if alg.raw = sm3_256.raw then some 32
  else if alg.raw = null.raw then some 0
  else none

end Alg

instance : Marshal Alg where
  marshal a out := marshal a.raw out
  marshal_append a out := Marshal.marshal_append a.raw out

instance : Unmarshal Alg where
  unmarshal := do
    let v ← Reader.u16
    pure ⟨v⟩

/-! ### Handles -/

/-- A 32-bit reference to an object, a session, a PCR or a reserved authority. -/
structure Handle where
  raw : UInt32
  deriving DecidableEq

instance : Marshal Handle where
  marshal h out := marshal h.raw out
  marshal_append h out := Marshal.marshal_append h.raw out

instance : Unmarshal Handle where
  unmarshal := do
    let v ← Reader.u32
    pure ⟨v⟩

/-! ### Attribute fields -/

/-- The attributes of an object. -/
structure ObjectAttributes where
  raw : UInt32
  deriving DecidableEq

instance : Marshal ObjectAttributes where
  marshal a out := marshal a.raw out
  marshal_append a out := Marshal.marshal_append a.raw out

instance : Unmarshal ObjectAttributes where
  unmarshal := do
    let v ← Reader.u32
    pure ⟨v⟩

namespace ObjectAttributes

def fixedTpm : UInt32 := (1 : UInt32) <<< 1
def fixedParent : UInt32 := (1 : UInt32) <<< 4
def sensitiveDataOrigin : UInt32 := (1 : UInt32) <<< 5
def userWithAuth : UInt32 := (1 : UInt32) <<< 6
def restricted : UInt32 := (1 : UInt32) <<< 16
def decrypt : UInt32 := (1 : UInt32) <<< 17

/-- The attributes of a restricted storage parent. -/
def storageParent : ObjectAttributes :=
  ⟨fixedTpm ||| fixedParent ||| sensitiveDataOrigin ||| userWithAuth ||| restricted ||| decrypt⟩

/-- The attributes of a sealed data object. -/
def sealedData : ObjectAttributes := ⟨fixedTpm ||| fixedParent ||| userWithAuth⟩

end ObjectAttributes

/-- The attributes of an authorization session. -/
structure SessionAttributes where
  raw : UInt8
  deriving DecidableEq

instance : Marshal SessionAttributes where
  marshal a out := marshal a.raw out
  marshal_append a out := Marshal.marshal_append a.raw out

instance : Unmarshal SessionAttributes where
  unmarshal := do
    let v ← Reader.u8
    pure ⟨v⟩

namespace SessionAttributes

/-- Keep the session loaded after the command. -/
def continueSession : UInt8 := (1 : UInt8) <<< 0
/-- The session encrypts the first command parameter. -/
def decrypt : UInt8 := (1 : UInt8) <<< 5
/-- The session encrypts the first response parameter. -/
def encrypt : UInt8 := (1 : UInt8) <<< 6

end SessionAttributes

/-! ### Their wire forms -/

@[simp] theorem toBytes_alg (a : Alg) : toBytes a = toBeBytes a.raw := rfl
@[simp] theorem toBytes_handle (h : Handle) : toBytes h = toBeBytes h.raw := rfl
@[simp] theorem toBytes_objectAttributes (a : ObjectAttributes) :
    toBytes a = toBeBytes a.raw := rfl
@[simp] theorem toBytes_sessionAttributes (a : SessionAttributes) :
    toBytes a = toBeBytes a.raw := rfl

theorem Reader.handle_parses :
    Parses Reader.between Malformed (unmarshal : Exec Error Reader Handle)
      (fun h w => w = toBeBytes h.raw) :=
  Reader.u32_parses.wrap Handle.mk Handle.raw (fun _ => rfl) fun _ => rfl

end PurecryptoTpm
