import PurecryptoTpm.Transport.Simulator

/-!
The rest of the simulator transport: `src/transport/simulator.rs`. A simulator
that has to be powered on takes platform signals on a second socket: a selector
in the framing of the data socket, which it answers with a result code. Either
connection may be lost. `MssimTransport` is the transport with that socket, if
one is attached.
-/

namespace PurecryptoTpm

def tpmSignalPowerOn : UInt32 := 1

def tpmSignalNvOn : UInt32 := 11

def tpmSessionEnd : UInt32 := 20

/-! ### The platform -/

/-- A platform: its result code for the last of the signals it has received. -/
abbrev Platform := List UInt32 → UInt32

def Message.signal? : Message → Option UInt32
  | command _ => none
  | signal selector => some selector

/-- The signals a platform has received. -/
def receivedSignals (written : Bytes) : List UInt32 :=
  (mssim.all written).1.filterMap Message.signal?

namespace Platform

/-- All that has been sent in answer to what was written. -/
def output (P : Platform) (written : Bytes) : Bytes :=
  ((answers P (receivedSignals written)).map toBeBytes).flatten

/-- A new connection to a platform. -/
def connect (P : Platform) (sendLimit recvLimit : Option ℕ) : TcpStream where
  answer := P.output
  written := []
  consumed := 0
  sendLimit := sendLimit
  recvLimit := recvLimit

def failed (code rc : UInt32) : Error :=
  .transport ("simulator platform signal " ++ toString code.toNat ++ " failed: rc=" ++
    toString rc.toNat)

/-- The platform signal, once there is a socket for it. -/
def signal (code : UInt32) : Exec Error TcpStream Unit := do
  writeU32 code
  let rc ← readU32
  if rc ≠ 0 then
    Exec.throw (failed code rc)
  else
    pure ()

end Platform

/-! ### The transport -/

/-- A TPM reached through a simulator, which may have a platform socket. -/
structure MssimTransport extends SimulatorTransport where
  platform : Option TcpStream

/-- What there is to do with the transport. -/
inductive Operation where
  | transmit (command : Bytes)
  | setLocality (locality : UInt8)
  | powerOn
  | sessionEnd

namespace MssimTransport

def connect (cmd : TcpStream) : MssimTransport where
  toSimulatorTransport := SimulatorTransport.connect cmd
  platform := none

def connectMssim (cmd : TcpStream) (platform : TcpStream) : MssimTransport :=
  { connect cmd with platform := some platform }

def onData {α : Type} (x : Exec Error SimulatorTransport α) : Exec Error MssimTransport α :=
  fun t => ((x t.toSimulatorTransport).1,
    { t with toSimulatorTransport := (x t.toSimulatorTransport).2 })

def transmit (command : Bytes) : Exec Error MssimTransport Bytes :=
  onData (SimulatorTransport.transmit command)

def setLocality (t : MssimTransport) (locality : UInt8) : MssimTransport :=
  { t with locality := locality }

/-- Why a platform signal is refused. -/
def noPlatform : Error :=
  .usage "no platform socket; connect with connect_mssim (swtpm uses --flags startup-clear instead)"

def platformSignal (code : UInt32) : Exec Error MssimTransport Unit := fun t =>
  match t.platform with
  | none => (.err noPlatform, t)
  | some platform =>
      ((Platform.signal code platform).1,
        { t with platform := some (Platform.signal code platform).2 })

def powerOn : Exec Error MssimTransport Unit := do
  platformSignal tpmSignalPowerOn
  platformSignal tpmSignalNvOn
  pure ()

def sessionEnd : Exec Error MssimTransport Unit :=
  onData (SimulatorTransport.onCmd (writeU32 tpmSessionEnd))

/-- One operation, with the response if it is a transmission. -/
def perform : Operation → Exec Error MssimTransport (Option Bytes)
  | .transmit command => do
      let resp ← transmit command
      pure (some resp)
  | .setLocality locality => fun t => (.ok none, t.setLocality locality)
  | .powerOn => do
      powerOn
      pure none
  | .sessionEnd => do
      sessionEnd
      pure none

end MssimTransport

end PurecryptoTpm
