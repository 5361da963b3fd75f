import PurecryptoTpm.Library.Simulation
import PurecryptoTpm.SimulatorFraming
import PurecryptoTpm.Transport.Mssim

/-!
The simulator transport at the level of messages. `Mssim` is a simulator with
its platform as a user of the transport thinks of it: a command is answered with
its own reply, the session ends without an answer, and NV storage is signalled
once power is on. On connections that are not lost, each operation on the
transport is the operation it stands for there, and both ends find the same
messages in both streams.
-/

namespace PurecryptoTpm

open Exec

/-! ### The simulator in messages -/

/-- A simulator, its platform if there is one, and what each has been sent. -/
structure Mssim where
  simulator : Simulator
  platform : Option Platform
  locality : UInt8
  messages : List Message
  signals : List UInt32

namespace Mssim

def connect (simulator : Simulator) (platform : Option Platform) : Mssim where
  simulator := simulator
  platform := platform
  locality := 0
  messages := []
  signals := []

/-- The simulator with one more message. -/
def told (m : Mssim) (message : Message) : Mssim := { m with messages := m.messages ++ [message] }

/-- The simulator with one more signal to its platform. -/
def signalled (m : Mssim) (code : UInt32) : Mssim := { m with signals := m.signals ++ [code] }

def transmit (command : Bytes) : Exec Error Mssim Bytes := fun m =>
  ((m.simulator (commandsOf m.messages ++ [⟨m.locality, command⟩])).outcome,
    m.told (.command ⟨m.locality, command⟩))

/-- What a signal comes to. -/
def accepted (code rc : UInt32) : Outcome Error Unit :=
  if rc = 0 then .ok () else .err (Platform.failed code rc)

def platformSignal (code : UInt32) : Exec Error Mssim Unit := fun m =>
  match m.platform with
  | none => (.err MssimTransport.noPlatform, m)
  | some P => (accepted code (P (m.signals ++ [code])), m.signalled code)

def powerOn : Exec Error Mssim Unit := do
  platformSignal tpmSignalPowerOn
  platformSignal tpmSignalNvOn
  pure ()

def sessionEnd : Exec Error Mssim Unit := fun m => (.ok (), m.told (.signal tpmSessionEnd))

def perform : Operation → Exec Error Mssim (Option Bytes)
  | .transmit command => do
      let resp ← transmit command
      pure (some resp)
  | .setLocality locality => fun m => (.ok none, { m with locality := locality })
  | .powerOn => do
      powerOn
      pure none
  | .sessionEnd => do
      sessionEnd
      pure none

end Mssim

/-! ### The platform socket -/

namespace Platform

/-- A number of signals as they are sent. -/
def sent (signals : List UInt32) : Bytes := framesOf (signals.map .signal)

@[simp] theorem sent_snoc (signals : List UInt32) (code : UInt32) :
    sent (signals ++ [code]) = sent signals ++ toBeBytes code := by
  simp [sent, Message.frame]

/-- No signal has the selector of a command. -/
def Signals (signals : List UInt32) : Prop := ∀ code ∈ signals, code ≠ tpmSendCommand

@[simp] theorem signals_nil : Signals [] := by
  simp [Signals]

theorem Signals.snoc {signals : List UInt32} (h : Signals signals) {code : UInt32}
    (hcode : code ≠ tpmSendCommand) : Signals (signals ++ [code]) := by
  intro c hc
  rcases List.mem_append.1 hc with hc | hc
  · exact h c hc
  · exact List.mem_singleton.1 hc ▸ hcode

theorem Signals.fits {signals : List UInt32} (h : Signals signals) :
    ∀ m ∈ signals.map Message.signal, m.Fits := by
  intro m hm
  obtain ⟨code, hcode, rfl⟩ := List.mem_map.1 hm
  exact h code hcode

variable (P : Platform) {signals : List UInt32} {code : UInt32}

theorem output_sent (h : Signals signals) :
    P.output (sent signals) = ((answers P signals).map toBeBytes).flatten := by
  have hreceived : receivedSignals (sent signals) = signals := by
    rw [receivedSignals, sent, all_framesOf h.fits, List.filterMap_map]
    exact List.filterMap_some
  rw [output, hreceived]

/-- A new connection has nothing behind it. -/
theorem connect_settled (sendLimit recvLimit : Option ℕ) :
    P.connect sendLimit recvLimit = (P.connect sendLimit recvLimit).settledAt (sent []) := by
  have hempty : P.output (sent []) = [] := P.output_sent signals_nil
  show _ = Socket.mk P.output (sent []) (P.output (sent [])).length sendLimit recvLimit
  rw [hempty]
  rfl

/-- A signal is answered with its own result code. -/
theorem output_snoc (h : Signals (signals ++ [code])) :
    P.output (sent signals ++ toBeBytes code) =
      P.output (sent signals) ++ toBeBytes (P (signals ++ [code])) := by
  have hsignals : Signals signals := fun c hc => h c (List.mem_append_left _ hc)
  rw [← sent_snoc, P.output_sent h, P.output_sent hsignals, answers_snoc]
  simp

/-- What comes back for a signal, and what it comes to. -/
def answered (code : UInt32) : Exec Error TcpStream Unit := do
  let rc ← readU32
  if rc ≠ 0 then
    Exec.throw (failed code rc)
  else
    pure ()

theorem answered_reads (code rc : UInt32) :
    Socket.Reads (answered code) (toBeBytes rc) (Mssim.accepted code rc) := by
  have hreads : Socket.Reads (answered code) (toBeBytes rc ++ []) (Mssim.accepted code rc) := by
    apply (readU32_reads rc).bind
    rw [Mssim.accepted]
    by_cases hrc : rc = 0
    · rw [if_neg (not_not_intro hrc), if_pos hrc]
      exact Socket.Reads.pure _
    · rw [if_pos hrc, if_neg hrc]
      exact Socket.Reads.throw _
  rwa [List.append_nil] at hreads

/-- A signal is answered, or its connection is lost. -/
theorem signal_settled (sendLimit recvLimit : Option ℕ) (h : Signals (signals ++ [code])) :
    signal code ((P.connect sendLimit recvLimit).settledAt (sent signals)) =
        (Mssim.accepted code (P (signals ++ [code])),
          (P.connect sendLimit recvLimit).settledAt (sent (signals ++ [code]))) ∨
      ∃ e p, signal code ((P.connect sendLimit recvLimit).settledAt (sent signals)) =
        (.err e, p) ∧ p.Lost ∧ (P.connect sendLimit recvLimit).Limited := by
  rcases Socket.exchange_settled (s := (P.connect sendLimit recvLimit).settledAt (sent signals)) rfl
    (writeU32_writes code) (fun _ => answered_reads code (P (signals ++ [code])))
    (P.output_snoc h) with
    hok | ⟨e, p, herr, hlimited, -, ⟨-, hended⟩ | ⟨_, -, -, -, hended⟩⟩
  · rw [← sent_snoc] at hok
    exact .inl hok
  · exact .inr ⟨e, p, herr, .inr hended, hlimited⟩
  · exact .inr ⟨e, p, herr, .inl hended, hlimited⟩

theorem not_limited : ¬ (P.connect none none).Limited := by
  simp [Socket.Limited, connect]

end Platform

/-! ### The operations -/

/-- A transport on connections that are not lost, and the simulator behind it. -/
structure Attached (t : MssimTransport) (m : Mssim) : Prop where
  room : ∀ sent, (m.simulator sent).payload.length ≤ maxResponse
  locality : t.locality = m.locality
  fits : ∀ message ∈ m.messages, message.Fits
  data : t.cmd = (TcpStream.connect m.simulator none none).boundary m.messages
  signals : Platform.Signals m.signals
  platform : t.platform =
    m.platform.map fun P => (P.connect none none).settledAt (Platform.sent m.signals)

def Operation.Fits : Operation → Prop
  | transmit command => command.length < 4294967296
  | _ => True

theorem Mssim.told_fits {m : Mssim} (h : ∀ message ∈ m.messages, message.Fits)
    (message : Message) (hmessage : message.Fits) :
    ∀ x ∈ (m.told message).messages, x.Fits := by
  intro x hx
  rcases List.mem_append.1 hx with hx | hx
  · exact h x hx
  · exact List.mem_singleton.1 hx ▸ hmessage

namespace MssimTransport

theorem transmit_apply (command : Bytes) (t : MssimTransport) :
    transmit command t = ((SimulatorTransport.turn ⟨t.locality, command⟩ t.cmd).1,
      { t with cmd := (SimulatorTransport.turn ⟨t.locality, command⟩ t.cmd).2 }) := rfl

theorem sessionEnd_apply (t : MssimTransport) :
    sessionEnd t =
      ((writeU32 tpmSessionEnd t.cmd).1, { t with cmd := (writeU32 tpmSessionEnd t.cmd).2 }) := rfl

theorem platformSignal_none {t : MssimTransport} (h : t.platform = none) (code : UInt32) :
    platformSignal code t = (.err noPlatform, t) := by
  rw [platformSignal, h]

theorem platformSignal_some {t : MssimTransport} {p : TcpStream} (h : t.platform = some p)
    (code : UInt32) :
    platformSignal code t =
      ((Platform.signal code p).1, { t with platform := some (Platform.signal code p).2 }) := by
  rw [platformSignal, h]

theorem transmit_simulates {command : Bytes} (h : command.length < 4294967296) :
    Simulates Attached (transmit command) (Mssim.transmit command) := by
  intro t m hattached
  have hfits := Mssim.told_fits hattached.fits (.command ⟨m.locality, command⟩) h
  rw [transmit_apply, hattached.locality, hattached.data]
  rcases TcpStream.turn_boundary none none (c := ⟨m.locality, command⟩) hfits
    (fun _ => hattached.room _) with hturn | ⟨e, s', -, -, hlimited⟩
  · rw [hturn]
    exact ⟨rfl, { hattached with locality := rfl, fits := hfits, data := rfl }⟩
  · exact absurd hlimited (TcpStream.not_limited _)

theorem sessionEnd_simulates : Simulates Attached sessionEnd Mssim.sessionEnd := by
  intro t m hattached
  have hfits := Mssim.told_fits hattached.fits (.signal tpmSessionEnd)
    (show tpmSessionEnd ≠ tpmSendCommand by decide)
  rw [sessionEnd_apply, hattached.data]
  rcases TcpStream.writeU32_boundary none none hfits with
    hwrite | ⟨e, s', -, -, hlimited⟩
  · rw [hwrite]
    exact ⟨rfl, { hattached with fits := hfits, data := rfl }⟩
  · exact absurd hlimited (TcpStream.not_limited _)

theorem platformSignal_simulates {code : UInt32} (hcode : code ≠ tpmSendCommand) :
    Simulates Attached (platformSignal code) (Mssim.platformSignal code) := by
  intro t m hattached
  cases hm : m.platform with
  | none =>
      have ht : t.platform = none := by rw [hattached.platform, hm, Option.map_none]
      rw [platformSignal_none ht, Mssim.platformSignal, hm]
      exact ⟨rfl, hattached⟩
  | some P =>
      have ht := hattached.platform
      rw [hm, Option.map_some] at ht
      have hsignals := hattached.signals.snoc hcode
      rw [platformSignal_some ht, Mssim.platformSignal, hm]
      rcases P.signal_settled none none hsignals with hanswered | ⟨e, p, -, -, hlimited⟩
      · rw [hanswered]
        refine ⟨rfl, { hattached with signals := hsignals, platform := ?_ }⟩
        show some _ = m.platform.map _
        rw [hm]
        rfl
      · exact absurd hlimited P.not_limited

theorem powerOn_simulates : Simulates Attached powerOn Mssim.powerOn :=
  (platformSignal_simulates (by decide)).bind fun _ =>
    (platformSignal_simulates (by decide)).bind fun _ => .pure ()

/-- One operation on the transport is the operation it stands for. -/
theorem perform_simulates {op : Operation} (h : op.Fits) :
    Simulates Attached (perform op) (Mssim.perform op) := by
  cases op with
  | transmit command => exact (transmit_simulates h).bind fun _ => .pure _
  | setLocality locality => exact fun t m hattached => ⟨rfl, { hattached with locality := rfl }⟩
  | powerOn => exact powerOn_simulates.bind fun _ => .pure _
  | sessionEnd => exact sessionEnd_simulates.bind fun _ => .pure _

end MssimTransport

/-- The streams carry the messages and the signals, and nothing is left to read. -/
structure MessagesAgree (m : Mssim) (t : MssimTransport) : Prop where
  received : mssim.all t.cmd.written = (m.messages, [])
  read : t.cmd.unread = []
  platform : ∀ p ∈ t.platform, mssim.all p.written = (m.signals.map .signal, []) ∧ p.unread = []

theorem Attached.messagesAgree {t : MssimTransport} {m : Mssim} (h : Attached t m) :
    MessagesAgree m t where
  received := by
    rw [h.data]
    exact all_framesOf h.fits
  read := by
    rw [h.data]
    exact Socket.unread_settledAt _ _
  platform := by
    intro p hp
    rw [h.platform, Option.mem_def, Option.map_eq_some_iff] at hp
    obtain ⟨P, -, rfl⟩ := hp
    exact ⟨all_framesOf h.signals.fits, Socket.unread_settledAt _ _⟩

/-- Where the connections are lost, if they are. -/
structure Cuts where
  dataSend : Option ℕ
  dataRecv : Option ℕ
  platformSend : Option ℕ
  platformRecv : Option ℕ

def Cuts.uncut : Cuts := ⟨none, none, none, none⟩

/-- The transport as it is connected. -/
def MssimTransport.attach (cuts : Cuts) (simulator : Simulator) :
    Option Platform → MssimTransport
  | none => connect (.connect simulator cuts.dataSend cuts.dataRecv)
  | some P => connectMssim (.connect simulator cuts.dataSend cuts.dataRecv)
      (P.connect cuts.platformSend cuts.platformRecv)

/-- Right after connecting. -/
theorem attached_attach {simulator : Simulator}
    (hreply : ∀ sent, (simulator sent).payload.length ≤ maxResponse) (platform : Option Platform) :
    Attached (.attach .uncut simulator platform) (.connect simulator platform) := by
  cases platform with
  | none =>
      exact ⟨hreply, rfl, by simp [Mssim.connect], TcpStream.connect_boundary none none simulator,
        by simp [Mssim.connect], rfl⟩
  | some P =>
      exact ⟨hreply, rfl, by simp [Mssim.connect], TcpStream.connect_boundary none none simulator,
        by simp [Mssim.connect], congrArg some (P.connect_settled none none)⟩

end PurecryptoTpm
