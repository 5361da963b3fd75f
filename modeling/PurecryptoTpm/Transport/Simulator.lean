import PurecryptoTpm.Library.Socket
import PurecryptoTpm.Library.Stream
import PurecryptoTpm.Marshal
import PurecryptoTpm.Transport

/-!
The simulator transport: `src/transport/simulator.rs`. A command goes out as a
selector, a locality and the sized command; a reply comes back as a sized
payload and a result code. Both directions are plain byte streams.

At the other end is any simulator. It takes messages off the stream it is sent
and answers each command among them, in order, with one reply frame. Either
direction of a connection may end after any number of bytes. A read that finds
too little ends its direction: the simulator sends nothing before it is sent
something, so such a read returns only when the connection is lost.
-/

namespace PurecryptoTpm

/-! ### The stream a simulator is sent -/

/-- The selector of a command. -/
def tpmSendCommand : UInt32 := 8

/-- Refuse a response declared longer than this. -/
def maxResponse : ℕ := 1 <<< 20

/-- A command as a simulator receives it. -/
structure SentCommand where
  locality : UInt8
  bytes : Bytes
  deriving DecidableEq

/-- A message of the grammar. Only commands are followed by data. -/
inductive Message where
  | command (sent : SentCommand)
  | signal (selector : UInt32)
  deriving DecidableEq

def readMessage : Exec Error Reader Message := do
  let selector ← Reader.u32
  if selector = tpmSendCommand then do
    let locality ← Reader.u8
    let len ← Reader.u32
    let bytes ← Reader.take len.toNat
    pure (.command { locality := locality, bytes := bytes })
  else
    pure (.signal selector)

/-- A command that fits its length field, as it is sent. -/
def SentCommand.frame (c : SentCommand) : Bytes :=
  toBeBytes tpmSendCommand ++ [c.locality] ++ toBeBytes (UInt32.ofNat c.bytes.length) ++ c.bytes

def Message.frame : Message → Bytes
  | command c => c.frame
  | signal selector => toBeBytes selector

/-- A command fits its length field, and no other message has its selector. -/
def Message.Fits : Message → Prop
  | command c => c.bytes.length < 4294967296
  | signal selector => selector ≠ tpmSendCommand

/-- What a message looks like on the stream. -/
def messageFormat : Format UInt8 Message := fun m w => m.Fits ∧ w = m.frame

theorem readMessage_parses : Parses Reader.between Malformed readMessage messageFormat := by
  refine (Reader.u32_parses.bind fun selector => Parses.ite
    (Reader.u8_parses.bind fun locality => Reader.u32_parses.bind fun len =>
      (Reader.take_parses len.toNat).bind fun bytes =>
        Parses.pure (Message.command ⟨locality, bytes⟩))
    (Parses.pure (Message.signal selector))).congr fun m w => ?_
  constructor
  · rintro ⟨selector, _, v, rfl, hbody, rfl⟩
    by_cases hselector : selector = tpmSendCommand
    · rw [if_pos hselector] at hbody
      obtain ⟨locality, _, _, rfl, ⟨len, _, _, rfl, ⟨_, bytes, _, ⟨rfl, hlen⟩, ⟨rfl, rfl⟩, rfl⟩,
        rfl⟩, rfl⟩ := hbody
      have hofNat : UInt32.ofNat bytes.length = len := by rw [hlen, UInt32.ofNat_toNat]
      have hlt : bytes.length < 4294967296 := hlen ▸ len.toNat_lt
      refine ⟨hlt, ?_⟩
      rw [Message.frame, SentCommand.frame, hofNat, hselector, toBeBytes_uint8]
      simp
    · rw [if_neg hselector] at hbody
      obtain ⟨rfl, rfl⟩ := hbody
      exact ⟨hselector, List.append_nil _⟩
  · intro h
    cases m with
    | command c =>
        obtain ⟨hlt, rfl⟩ := h
        have hlen := UInt32.toNat_ofNat_of_lt' hlt
        refine ⟨tpmSendCommand, _, [c.locality] ++ (toBeBytes (UInt32.ofNat c.bytes.length) ++
          c.bytes), rfl, ?_, by simp [Message.frame, SentCommand.frame]⟩
        beta_reduce
        rw [if_pos rfl]
        exact ⟨c.locality, _, _, (toBeBytes_uint8 c.locality).symm, ⟨_, _, _, rfl,
          ⟨c.bytes, c.bytes, [], ⟨rfl, hlen.symm⟩, ⟨rfl, rfl⟩, (List.append_nil _).symm⟩, rfl⟩, rfl⟩
    | signal selector =>
        obtain ⟨hselector, rfl⟩ := h
        refine ⟨selector, _, [], rfl, ?_, (List.append_nil _).symm⟩
        beta_reduce
        rw [if_neg hselector]
        exact ⟨rfl, rfl⟩

theorem messageFormat_length {m : Message} {w : Bytes} (h : messageFormat m w) : 4 ≤ w.length := by
  obtain ⟨-, rfl⟩ := h
  cases m with
  | command c => simp [Message.frame, SentCommand.frame]
  | signal selector => simp [Message.frame]

/-- The first message of a stream, once it is complete. -/
def nextMessage (s : Bytes) : Option (Message × Bytes) :=
  match readMessage (Reader.new s) with
  | (.ok m, r) => some (m, r.buf.drop r.pos)
  | _ => none

theorem nextMessage_eq_some_iff {s rest : Bytes} {m : Message} :
    nextMessage s = some (m, rest) ↔ ∃ w, messageFormat m w ∧ s = w ++ rest := by
  constructor
  · intro h
    rcases readMessage_parses.cases [] s with
      ⟨m', w, post, hformat, rfl, hok⟩ | ⟨e, _, _, -, -, herr⟩
    · rw [nextMessage, Reader.new_eq_between, hok] at h
      simp only [Reader.between, List.nil_append, List.drop_left, Option.some.injEq,
        Prod.mk.injEq] at h
      obtain ⟨rfl, rfl⟩ := h
      exact ⟨w, hformat, rfl⟩
    · rw [nextMessage, Reader.new_eq_between, herr] at h
      simp at h
  · rintro ⟨w, hformat, rfl⟩
    rw [nextMessage, Reader.new_eq_between, readMessage_parses.complete hformat]
    simp [Reader.between]

/-- The messages of a stream. -/
def mssim : Framing UInt8 Message where
  next := nextMessage
  next_append := by
    intro s m rest t h
    obtain ⟨w, hformat, rfl⟩ := nextMessage_eq_some_iff.1 h
    exact nextMessage_eq_some_iff.2 ⟨w, hformat, List.append_assoc ..⟩
  next_shorter := by
    intro s m rest h
    obtain ⟨w, hformat, rfl⟩ := nextMessage_eq_some_iff.1 h
    have hlong := messageFormat_length hformat
    rw [List.length_append]
    omega

def Message.sent? : Message → Option SentCommand
  | command sent => some sent
  | signal _ => none

/-- The commands a simulator has received. -/
def receivedCommands (written : Bytes) : List SentCommand :=
  (mssim.all written).1.filterMap Message.sent?

/-! ### The stream a simulator sends -/

/-- A reply of a simulator. -/
structure SimulatorReply where
  payload : Bytes
  result : UInt32
  deriving DecidableEq

/-- The sized payload and the result code. -/
def SimulatorReply.frame (r : SimulatorReply) : Bytes :=
  toBeBytes (UInt32.ofNat r.payload.length) ++ r.payload ++ toBeBytes r.result

/-- A simulator: its reply to the last of the commands it has received. -/
abbrev Simulator := List SentCommand → SimulatorReply

/-- All that has been sent in answer to what was written. -/
def Simulator.output (sim : Simulator) (written : Bytes) : Bytes :=
  ((answers sim (receivedCommands written)).map SimulatorReply.frame).flatten

/-! ### The connection -/

abbrev TcpStream := Socket UInt8

namespace TcpStream

/-- A new connection to a simulator. -/
def connect (simulator : Simulator) (sendLimit recvLimit : Option ℕ) : TcpStream where
  answer := simulator.output
  written := []
  consumed := 0
  sendLimit := sendLimit
  recvLimit := recvLimit

def writeAll (bytes : Bytes) : Exec String TcpStream Unit :=
  Socket.writeAll "Broken pipe (os error 32)" bytes

def readExact (n : ℕ) : Exec String TcpStream Bytes :=
  Socket.readExact "failed to fill whole buffer" n

end TcpStream

def writeU32 (v : UInt32) : Exec Error TcpStream Unit :=
  Exec.mapErr .transport (TcpStream.writeAll (toBeBytes v))

def readU32 : Exec Error TcpStream UInt32 := do
  let b ← Exec.mapErr .transport (TcpStream.readExact 4)
  pure (fromBeBytes b)

/-- The first half of a transmission. There is nothing to flush. -/
def sendCommand (locality : UInt8) (command : Bytes) : Exec Error TcpStream Unit := do
  writeU32 tpmSendCommand
  Exec.mapErr .transport (TcpStream.writeAll [locality])
  writeU32 (UInt32.ofNat command.length)
  Exec.mapErr (fun e => .transport ("write command: " ++ e)) (TcpStream.writeAll command)

/-- The second half of a transmission. -/
def receiveResponse : Exec Error TcpStream Bytes := do
  let len ← readU32
  if len.toNat > maxResponse then
    Exec.throw (.transport ("simulator response too large: " ++ toString len.toNat ++ " bytes"))
  else do
    let resp ← Exec.mapErr (fun e => .transport ("read response: " ++ e))
      (TcpStream.readExact len.toNat)
    let rc ← readU32
    if rc ≠ 0 then
      Exec.throw (.transport ("simulator send failed: rc=" ++ toString rc.toNat))
    else
      pure resp

/-- A TPM reached through a simulator. -/
structure SimulatorTransport where
  cmd : TcpStream
  locality : UInt8

namespace SimulatorTransport

def connect (cmd : TcpStream) : SimulatorTransport where
  cmd := cmd
  locality := 0

def setLocality (t : SimulatorTransport) (locality : UInt8) : SimulatorTransport :=
  { t with locality := locality }

def onCmd {α : Type} (x : Exec Error TcpStream α) : Exec Error SimulatorTransport α := fun t =>
  ((x t.cmd).1, { t with cmd := (x t.cmd).2 })

def transmit (command : Bytes) : Exec Error SimulatorTransport Bytes := do
  let self ← Exec.get
  onCmd do
    sendCommand self.locality command
    receiveResponse

/-- Transmit a command at a locality. -/
def exchange (c : SentCommand) : Exec Error SimulatorTransport Bytes := fun t =>
  transmit c.bytes (t.setLocality c.locality)

/-- Any number of transmissions on one connection. -/
def exchanges : List SentCommand → SimulatorTransport →
    List (Outcome Error Bytes) × SimulatorTransport
  | [], t => ([], t)
  | c :: calls, t =>
      ((exchange c t).1 :: (exchanges calls (exchange c t).2).1,
        (exchanges calls (exchange c t).2).2)

end SimulatorTransport

end PurecryptoTpm
