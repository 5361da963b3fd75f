import PurecryptoTpm.Host
import PurecryptoTpm.SimulatorFraming
import PurecryptoTpm.Transport.Device

/-!
The two backends, in front of the same TPM. A TPM is a function from the
commands it has received to its response to the last of them. Behind a driver
that takes a command in one write and returns its response in one read, and
behind a simulator on a connection that is not lost, every program of the host
gets the same results, as long as the responses fit the smaller of the two
buffers. A response that does not fit is cut off by the device, and refused.
-/

namespace PurecryptoTpm

open Exec

/-! ### The backends as transports -/

/-- The result of a call, from the file it leaves. -/
theorem result_safe {φ α : Type} (r : φ → Except String α × φ) :
    Safe Anywhere (fun f => Exec.ofExcept (r f).1 (r f).2) Anything := by
  apply Safe.of_cases
  intro f _
  cases hr : (r f).1 with
  | ok a => exact .inl ⟨a, _, rfl, trivial, trivial⟩
  | error e => exact .inr ⟨e, _, rfl, trivial⟩

section Safe

variable {φ : Type} [File φ]

theorem File.writeAll_safe (buf : Bytes) :
    Safe Anywhere (File.writeAll buf : Exec String φ Unit) Anything := by
  apply Safe.of_cases
  intro f _
  induction hn : buf.length using Nat.strongRecOn generalizing buf f with
  | ind n ih =>
      rcases eq_or_ne buf [] with rfl | hne
      · exact .inl ⟨(), f, File.writeAll_nil f, trivial, trivial⟩
      rcases hwrite : File.write buf f with ⟨r, g⟩
      cases r with
      | error e => exact .inr ⟨e, g, File.writeAll_error hne hwrite, trivial⟩
      | ok m =>
          rcases Nat.eq_zero_or_pos m with rfl | hpos
          · exact .inr ⟨_, g, File.writeAll_zero hne hwrite, trivial⟩
          · have hlen := List.length_pos_of_ne_nil hne
            have hshorter : (buf.drop m).length < n := by
              rw [List.length_drop]
              omega
            rw [File.writeAll_ok hne (Nat.pos_iff_ne_zero.mp hpos) hwrite]
            exact ih _ hshorter (buf.drop m) g trivial rfl

theorem DeviceTransport.exchange_safe (command : Bytes) :
    Safe Anywhere (DeviceTransport.exchange command : Exec Error φ Bytes) Anything :=
  ((File.writeAll_safe command).mapErr _).bind fun _ _ =>
    ((result_safe _).mapErr _).bind fun _ _ => ((result_safe _).mapErr _).bind fun _ _ =>
      .ite (fun _ => .throw _) fun _ => .pure trivial

theorem DeviceTransport.transmit_safe (command : Bytes) :
    Safe Anywhere (DeviceTransport.transmit command : Exec Error (DeviceTransport φ) Bytes)
      Anything :=
  fun t _ => ⟨trivial, (DeviceTransport.exchange_safe command t.file trivial).2⟩

end Safe

instance {φ : Type} [File φ] : Transport (DeviceTransport φ) where
  transmit command := Exec.total (DeviceTransport.transmit command)
    (DeviceTransport.transmit_safe command)

theorem SimulatorTransport.transmit_safe (command : Bytes) :
    Safe Anywhere (SimulatorTransport.transmit command) Anything := by
  have hsend : ∀ locality, Safe Anywhere (sendCommand locality command) Anything := by
    intro locality
    apply Safe.of_cases
    intro s _
    rcases sendCommand_writes ⟨locality, command⟩ s with ⟨hsent, -⟩ | ⟨e, p, -, -, -, herr, -⟩
    · exact .inl ⟨(), _, hsent, trivial, trivial⟩
    · exact .inr ⟨e, _, herr, trivial⟩
  have hreceive : Safe Anywhere receiveResponse Anything :=
    fun s _ => ⟨trivial, (receiveResponse_safe s.written s rfl).2⟩
  intro t _
  exact ⟨trivial, (((hsend t.locality).bind fun _ _ => hreceive) t.cmd trivial).2⟩

instance : Transport SimulatorTransport where
  transmit command := Exec.total (SimulatorTransport.transmit command)
    (SimulatorTransport.transmit_safe command)

/-! ### A TPM behind each of them -/

/-- A TPM: its response to the last of the commands it has received. -/
abbrev Chip := List Bytes → Bytes

/-- The driver of a character device: one write takes a command, and the read
that follows returns its response. -/
structure Driver where
  chip : Chip
  sent : List Bytes
  response : Option Bytes

namespace Driver

def load (chip : Chip) : Driver where
  chip := chip
  sent := []
  response := none

instance : File Driver where
  write buf d :=
    (.ok buf.length,
      { d with sent := d.sent ++ [buf], response := some (d.chip (d.sent ++ [buf])) })
  flush d := (.ok (), d)
  read n d := (.ok ((d.response.getD []).take n), { d with response := none })
  write_le buf d n h := by
    obtain rfl := Except.ok.inj h
    exact le_rfl
  read_le n d b h := by
    obtain rfl := Except.ok.inj h
    exact List.length_take_le n _

end Driver

namespace Chip

/-- The transport that hands out a chip's responses as they are. -/
def direct (chip : Chip) : Responder where
  respond sent := .ok (chip sent)
  sent := []

/-- The chip in a simulator, which answers every command without an error of its own. -/
def simulator (chip : Chip) : Simulator := fun sent => ⟨chip (sent.map SentCommand.bytes), 0⟩

end Chip

/-- A device answers with as much of the response as fits its buffer. -/
theorem transmit_driver {d : Driver} {command : Bytes} (hne : command ≠ [])
    (hreply : d.chip (d.sent ++ [command]) ≠ []) :
    Transport.transmit command (DeviceTransport.mk d) =
      (.ok ((d.chip (d.sent ++ [command])).take DeviceTransport.maxResponse),
        ⟨{ d with sent := d.sent ++ [command], response := none }⟩) := by
  generalize hresp : d.chip (d.sent ++ [command]) = resp at hreply
  have hwrite : File.writeAll command d =
      (.ok (), { d with sent := d.sent ++ [command], response := some resp }) := by
    have hlen : command.length ≠ 0 := fun h => hne (List.length_eq_zero_iff.mp h)
    rw [File.writeAll_ok hne hlen rfl, List.drop_length, File.writeAll_nil, hresp]
  have hflush : File.flushed
      ({ d with sent := d.sent ++ [command], response := some resp } : Driver) =
      (.ok (), { d with sent := d.sent ++ [command], response := some resp }) := rfl
  have hread : File.readOnce DeviceTransport.maxResponse
      ({ d with sent := d.sent ++ [command], response := some resp } : Driver) =
      (.ok (resp.take DeviceTransport.maxResponse),
        { d with sent := d.sent ++ [command], response := none }) := rfl
  have htake : (resp.take DeviceTransport.maxResponse).length ≠ 0 := by
    have hpos := List.length_pos_of_ne_nil hreply
    have hmax : DeviceTransport.maxResponse = 4096 := rfl
    rw [List.length_take]
    omega
  have hexchange : DeviceTransport.exchange command d =
      (.ok (resp.take DeviceTransport.maxResponse),
        { d with sent := d.sent ++ [command], response := none }) := by
    rw [DeviceTransport.exchange, Exec.bind_ok (Exec.mapErr_ok _ hwrite),
      Exec.bind_ok (Exec.mapErr_ok _ hflush), Exec.bind_ok (Exec.mapErr_ok _ hread),
      if_neg htake, Exec.pure_apply]
  apply Exec.total_of_ok
  rw [DeviceTransport.transmit, DeviceTransport.onFile, hexchange]

/-- A device and the direct transport, in front of one chip with one history. -/
structure OnDevice (chip : Chip) (t : DeviceTransport Driver) (r : Responder) : Prop where
  same : t.file.chip = chip
  respond : r.respond = chip.direct.respond
  sent : t.file.sent = r.sent

theorem device_interchangeable {chip : Chip}
    (hreply : ∀ sent, chip sent ≠ [] ∧ (chip sent).length ≤ DeviceTransport.maxResponse) :
    Interchangeable (OnDevice chip) := by
  rintro frame ⟨d⟩ ⟨respond, sent⟩ hframe ⟨rfl, hrespond, hsent⟩
  have hrespond : respond = d.chip.direct.respond := hrespond
  have hsent : d.sent = sent := hsent
  subst hrespond hsent
  have hne : frame ≠ [] := by
    rintro rfl
    exact absurd hframe.1 (by decide)
  obtain ⟨hresp, hroom⟩ := hreply (d.sent ++ [frame])
  rw [transmit_driver hne hresp, List.take_of_length_le hroom]
  exact ⟨rfl, rfl, rfl, rfl⟩

/-- The commands of a history, at one locality. -/
def atLocality (locality : UInt8) (sent : List Bytes) : List SentCommand :=
  sent.map (SentCommand.mk locality)

theorem bytes_atLocality (locality : UInt8) (sent : List Bytes) :
    (atLocality locality sent).map SentCommand.bytes = sent := by
  rw [atLocality, List.map_map]
  exact List.map_id' sent

theorem atLocality_snoc (l : UInt8) (sent : List Bytes) (frame : Bytes) :
    atLocality l (sent ++ [frame]) = atLocality l sent ++ [⟨l, frame⟩] := List.map_append

/-- The connection of a simulator that holds a chip, at a boundary. -/
def Chip.stream (chip : Chip) (l : UInt8) (sent : List Bytes) : TcpStream :=
  (TcpStream.connect chip.simulator none none).boundary ((atLocality l sent).map .command)

/-- A simulator answers with the response, from one boundary to the next. -/
theorem transmit_simulator {chip : Chip} {l : UInt8} {sent : List Bytes} {frame : Bytes}
    (hfits : ∀ c ∈ atLocality l (sent ++ [frame]), c.bytes.length < 4294967296)
    (hreply : (chip (sent ++ [frame])).length ≤ maxResponse) :
    Transport.transmit frame (SimulatorTransport.mk (chip.stream l sent) l) =
      (.ok (chip (sent ++ [frame])), ⟨chip.stream l (sent ++ [frame]), l⟩) := by
  have hanswer : chip.simulator (atLocality l sent ++ [⟨l, frame⟩]) =
      ⟨chip (sent ++ [frame]), 0⟩ := by
    rw [Chip.simulator, ← atLocality_snoc, bytes_atLocality]
  have hmessages := SimulatorTransport.commands_fit hfits
  rw [atLocality_snoc, List.map_append, List.map_singleton] at hmessages
  have hroom : (chip.simulator (commandsOf ((atLocality l sent).map .command) ++
      [⟨l, frame⟩])).payload.length ≤ maxResponse := by
    rwa [commandsOf_commands, hanswer]
  rcases TcpStream.turn_boundary none none hmessages (fun _ => hroom) with
    hturn | ⟨e, s, -, -, hlimited⟩
  · apply Exec.total_of_ok
    have hexchange := SimulatorTransport.exchange_apply ⟨l, frame⟩ ⟨chip.stream l sent, l⟩
    rw [Chip.stream, hturn, commandsOf_commands, hanswer] at hexchange
    rw [Chip.stream, Chip.stream, atLocality_snoc, List.map_append]
    exact hexchange
  · exact absurd hlimited (TcpStream.not_limited _)

/-- A simulator and the direct transport, in front of one chip with one history. -/
structure OnSimulator (chip : Chip) (l : UInt8) (t : SimulatorTransport) (r : Responder) :
    Prop where
  locality : t.locality = l
  boundary : t.cmd = chip.stream l r.sent
  respond : r.respond = chip.direct.respond
  fits : ∀ c ∈ atLocality l r.sent, c.bytes.length < 4294967296

/-- Right after connecting. -/
theorem OnSimulator.connect (chip : Chip) (l : UInt8) :
    OnSimulator chip l ((SimulatorTransport.connect
      (.connect chip.simulator none none)).setLocality l) chip.direct :=
  ⟨rfl, TcpStream.connect_boundary none none _, rfl, by simp [atLocality, Chip.direct]⟩

/-- The simulator has received the commands that the chip has. -/
theorem OnSimulator.received {chip : Chip} {l : UInt8} {t : SimulatorTransport} {r : Responder}
    (h : OnSimulator chip l t r) : receivedCommands t.cmd.written = atLocality l r.sent := by
  have hreceived := receivedCommands_framesOf (SimulatorTransport.commands_fit h.fits)
  rw [commandsOf_commands] at hreceived
  rw [h.boundary]
  exact hreceived

theorem simulator_interchangeable {chip : Chip} (l : UInt8)
    (hreply : ∀ sent, (chip sent).length ≤ maxResponse) :
    Interchangeable (OnSimulator chip l) := by
  intro frame t r hframe h
  obtain ⟨cmd, l'⟩ := t
  obtain ⟨respond, sent⟩ := r
  obtain ⟨hlocality, hcmd, hrespond, hfits⟩ := h
  simp only at hlocality hcmd hrespond hfits
  subst hlocality hcmd hrespond
  have hall : ∀ c ∈ atLocality l' (sent ++ [frame]), c.bytes.length < 4294967296 := by
    intro c hc
    rcases List.mem_append.mp (atLocality_snoc l' sent frame ▸ hc) with hc | hc
    · exact hfits c hc
    · rw [List.mem_singleton.mp hc]
      exact hframe.2
  rw [transmit_simulator hall (hreply _)]
  exact ⟨rfl, rfl, rfl, rfl, hall⟩

/-! ### Programs in front of the two -/

/-- A program cannot tell whether a chip that answers in 1 to 4096 bytes is
behind a device or in a simulator, and the chip cannot tell either. -/
theorem backends_agree {α : Type} (P : Purecrypto) (chip : Chip)
    (hreply : ∀ sent, chip sent ≠ [] ∧ (chip sent).length ≤ DeviceTransport.maxResponse)
    (program : Host α) (hshort : program.Short) (l : UInt8) (auth : Auth) (os : OsRng) :
    let device := program.run P ⟨DeviceTransport.mk (Driver.load chip), auth, os⟩
    let simulator := program.run P
      ⟨(SimulatorTransport.connect (.connect chip.simulator none none)).setLocality l, auth, os⟩
    device.1 = simulator.1 ∧ device.2.auth = simulator.2.auth ∧
      device.2.os = simulator.2.os ∧
      receivedCommands simulator.2.transport.cmd.written =
        atLocality l device.2.transport.file.sent := by
  have hroom : ∀ sent, (chip sent).length ≤ maxResponse := by
    intro sent
    have hle := (hreply sent).2
    have hdevice : DeviceTransport.maxResponse = 4096 := rfl
    have hsimulator : maxResponse = 1048576 := rfl
    omega
  have hprogram := (Host.run_simulates (P := P) (device_interchangeable hreply) hshort).trans
    (Host.run_simulates (P := P) (simulator_interchangeable l hroom) hshort).symm
  obtain ⟨hresult, direct, hdevice, hsimulator⟩ := hprogram
    ⟨DeviceTransport.mk (Driver.load chip), auth, os⟩
    ⟨(SimulatorTransport.connect (.connect chip.simulator none none)).setLocality l, auth, os⟩
    ⟨⟨chip.direct, auth, os⟩, ⟨⟨rfl, rfl, rfl⟩, rfl, rfl⟩,
      ⟨OnSimulator.connect chip l, rfl, rfl⟩⟩
  refine ⟨hresult, hdevice.auth.trans hsimulator.auth.symm,
    hdevice.os.trans hsimulator.os.symm, ?_⟩
  rw [hsimulator.transport.received, hdevice.transport.sent]

/-- A chip with two random bytes for whoever asks first, and an error for the rest. -/
def randomOnce : Chip := fun sent =>
  if sent.length = 1 then
    [0x80, 0x01, 0, 0, 0, 14, 0, 0, 0, 0, 0, 2, 0x70, 0x77]
  else
    [0x80, 0x01, 0, 0, 0, 10, 0, 0, 0x01, 0x01]

theorem unsealUnderRandom_short : unsealUnderRandom.Short := by
  refine ⟨trivial, fun o => ?_⟩
  cases o with
  | ok pw => exact fun _ => ⟨trivial, fun _ => trivial⟩
  | err e => trivial
  | panic => trivial

theorem backends_agree_randomOnce :
    (unsealUnderRandom.run (.ofValues [] [])
        ⟨DeviceTransport.mk (Driver.load randomOnce), .none, ⟨fun _ => 0⟩⟩).1 =
      (unsealUnderRandom.run (.ofValues [] []) ⟨(SimulatorTransport.connect
        (.connect randomOnce.simulator none none)).setLocality 3, .none, ⟨fun _ => 0⟩⟩).1 := by
  refine (backends_agree (.ofValues [] []) randomOnce (fun sent => ?_)
    unsealUnderRandom unsealUnderRandom_short 3 .none ⟨fun _ => 0⟩).1
  rw [randomOnce]
  split <;> exact ⟨by simp, by decide⟩

/-! ### Responses the device cuts off -/

/-- A response that holds a header, with its own length in the size field. -/
def Sized (resp : Bytes) : Prop :=
  ∃ tag rc rest, 10 + rest.length < 4294967296 ∧
    resp = responseHeader tag (UInt32.ofNat (10 + rest.length)) rc ++ rest

theorem Sized.length {resp : Bytes} (h : Sized resp) : 10 ≤ resp.length := by
  obtain ⟨tag, rc, rest, -, rfl⟩ := h
  rw [List.length_append, length_responseHeader]
  omega

/-- The buffer holds the header at least. -/
theorem take_response (tag : UInt16) (size rc : UInt32) (rest : Bytes) :
    (responseHeader tag size rc ++ rest).take DeviceTransport.maxResponse =
      responseHeader tag size rc ++ rest.take 4086 := by
  rw [List.take_append, length_responseHeader, List.take_of_length_le]
  · rfl
  · rw [length_responseHeader]
    decide

/-- What is cut off does not decide whether the command is sent again. -/
theorem transient_take_iff {resp : Bytes} (h : Sized resp) :
    TransientOutcome (.ok (resp.take DeviceTransport.maxResponse)) ↔
      TransientOutcome (.ok resp) := by
  obtain ⟨tag, rc, rest, -, rfl⟩ := h
  have htransient : ∀ tail : Bytes, TransientOutcome
      (.ok (responseHeader tag (UInt32.ofNat (10 + rest.length)) rc ++ tail)) ↔
        (rc = 0x908 ∨ rc = 0x90A ∨ rc = 0x922) := by
    intro tail
    constructor
    · rintro ⟨_, hok, tag', size', rc', rest', hresp, hrc⟩
      obtain ⟨-, -, rfl, -⟩ := responseHeader_inj ((Except.ok.inj hok).trans hresp)
      exact hrc
    · intro hrc
      exact ⟨_, rfl, tag, _, rc, tail, rfl, hrc⟩
  rw [take_response, htransient, htransient]

/-- The transmissions of a command settle on the same response, cut off or not. -/
theorem settle_driver {frame : Bytes} (hne : frame ≠ []) (n : ℕ) {d : Driver}
    (hchip : ∀ sent, Sized (d.chip sent)) :
    ∃ sent, settle frame n (DeviceTransport.mk d) =
        (.ok ((d.chip sent).take DeviceTransport.maxResponse),
          ⟨{ d with sent := sent, response := none }⟩) ∧
      settle frame n (Responder.mk d.chip.direct.respond d.sent) =
        (.ok (d.chip sent), ⟨d.chip.direct.respond, sent⟩) := by
  have hdevice : ∀ d : Driver, (∀ sent, Sized (d.chip sent)) → _ :=
    fun d h => transmit_driver (d := d) hne
      (List.ne_nil_of_length_pos (Nat.lt_of_lt_of_le (Nat.succ_pos 9) (h _).length))
  have hdirect : ∀ d : Driver,
      Transport.transmit frame (Responder.mk d.chip.direct.respond d.sent) =
        (.ok (d.chip (d.sent ++ [frame])), ⟨d.chip.direct.respond, d.sent ++ [frame]⟩) :=
    fun _ => rfl
  induction n generalizing d with
  | zero => exact ⟨_, hdevice d hchip, hdirect d⟩
  | succ n ih =>
      have hsized := hchip (d.sent ++ [frame])
      rw [settle, settle, hdevice d hchip, hdirect]
      by_cases htransient : TransientOutcome (.ok (d.chip (d.sent ++ [frame])))
      · rw [if_pos ((transient_take_iff hsized).mpr htransient), if_pos htransient]
        exact @ih { d with sent := d.sent ++ [frame], response := none } hchip
      · rw [if_neg fun h => htransient ((transient_take_iff hsized).mp h), if_neg htransient]
        exact ⟨_, rfl, rfl⟩

theorem requestFrame_ne_nil {P : Purecrypto} {code : UInt32} {handles : List Handle}
    {names : List Bytes} {params : Bytes} {auth : Auth} (hbuildable : auth.Buildable)
    (os : OsRng) : ∃ frame places, requestFrame P code handles names params (auth, os) =
      (.ok frame, places) ∧ frame ≠ [] := by
  obtain ⟨entry, places, hbody, -, -⟩ :=
    @requestBody_of_buildable P code handles names params auth hbuildable os
  refine ⟨_, places, requestFrame_of_body hbody, List.ne_nil_of_length_pos ?_⟩
  simp [commandFrame]

/-- A success response that was cut off is refused for its length. -/
theorem interpret_cut {P : Purecrypto} {code : UInt32} {names : List Bytes} {n : ℕ} {auth : Auth}
    (tag : UInt16) {rest : Bytes} (hlt : 10 + rest.length < 4294967296)
    (hlong : DeviceTransport.maxResponse < 10 + rest.length) :
    interpret P code names n (.ok ((responseHeader tag (UInt32.ofNat (10 + rest.length)) 0 ++
        rest).take DeviceTransport.maxResponse)) auth =
      (.err (.protocol "response size header disagrees with received length"), auth) := by
  have hmax : DeviceTransport.maxResponse = 4096 := rfl
  have hsize : (UInt32.ofNat (10 + rest.length)).toNat ≠ 10 + (rest.take 4086).length := by
    rw [UInt32.toNat_ofNat_of_lt' hlt, List.length_take]
    omega
  rw [take_response, interpret_ok, parseResponse_eq, readOutcome_of_size tag hsize]
  rfl

/-- A command over a device returns what it returns over a transport that cuts
nothing off, or it fails because the last response did not fit the buffer. No
response that did not fit is accepted. -/
theorem device_long_response (P : Purecrypto) {chip : Chip} (hchip : ∀ sent, Sized (chip sent))
    (code : UInt32) (handles : List Handle) (names : List Bytes) (params : Bytes)
    (respHandles : ℕ) (auth : Auth) (os : OsRng) :
    let device := run P code handles names params respHandles
      ⟨DeviceTransport.mk (Driver.load chip), auth, os⟩
    let direct := run P code handles names params respHandles ⟨chip.direct, auth, os⟩
    device.2.transport.file.sent = direct.2.transport.sent ∧ device.2.os = direct.2.os ∧
      ((device.1 = direct.1 ∧ device.2.auth = direct.2.auth) ∨
        (DeviceTransport.maxResponse < (chip direct.2.transport.sent).length ∧ device.1 =
          .err (.protocol "response size header disagrees with received length"))) ∧
      ∀ raw, device.1 = .ok raw →
        (chip direct.2.transport.sent).length ≤ DeviceTransport.maxResponse := by
  intro device direct
  by_cases hbuildable : auth.Buildable
  · obtain ⟨frame, ⟨auth', os'⟩, hframe, hne⟩ :=
      @requestFrame_ne_nil P code handles names params auth hbuildable os
    obtain ⟨sent, hdevice, hdirect⟩ :=
      settle_driver (d := Driver.load chip) hne maxTransientRetries hchip
    have hdirect : settle frame maxTransientRetries chip.direct =
        (.ok (chip sent), ⟨chip.direct.respond, sent⟩) := hdirect
    have hdeviceRun : device = _ := @run_settles _ _ P code handles names params respHandles frame
      ⟨_, auth, os⟩ auth' os' hframe
    have hdirectRun : direct = _ := @run_settles _ _ P code handles names params respHandles frame
      ⟨_, auth, os⟩ auth' os' hframe
    simp only [hdevice] at hdeviceRun
    simp only [hdirect] at hdirectRun
    rw [hdeviceRun, hdirectRun]
    refine ⟨rfl, rfl, ?_⟩
    rcases Nat.lt_or_ge DeviceTransport.maxResponse (chip sent).length with hlong | hroom
    · obtain ⟨tag, rc, rest, hlt, hresp⟩ := hchip sent
      have hdriver : (Driver.load chip).chip sent = chip sent := rfl
      rw [hdriver, hresp]
      rcases eq_or_ne rc 0 with rfl | hrc
      · -- only the header tells that something is missing
        rw [hresp, List.length_append, length_responseHeader] at hlong
        rw [interpret_cut tag hlt hlong, List.length_append, length_responseHeader]
        exact ⟨.inr ⟨hlong, rfl⟩, by simp⟩
      · rw [take_response, interpret_ok, interpret_ok,
          parseResponse_of_rc P code names _ auth' tag _ hrc,
          parseResponse_of_rc P code names _ auth' tag _ hrc]
        exact ⟨.inl ⟨rfl, rfl⟩, by simp⟩
    · have hcut : ((Driver.load chip).chip sent).take DeviceTransport.maxResponse = chip sent :=
        List.take_of_length_le hroom
      rw [hcut]
      exact ⟨.inl ⟨rfl, rfl⟩, fun raw _ => hroom⟩
  · obtain ⟨e, herr⟩ :=
      @requestFrame_of_not_buildable P code handles names params auth hbuildable os
    have hdeviceRun : device = _ := @run_of_frame_err _ _ P code handles names params respHandles
      ⟨_, auth, os⟩ e auth os herr
    have hdirectRun : direct = _ := @run_of_frame_err _ _ P code handles names params respHandles
      ⟨_, auth, os⟩ e auth os herr
    rw [hdeviceRun, hdirectRun]
    exact ⟨rfl, rfl, .inl ⟨rfl, rfl⟩, by simp⟩

/-- A chip that answers everything with 5000 zeros. -/
def longWinded : Chip := fun _ =>
  responseHeader st.noSessions (UInt32.ofNat (10 + (List.replicate 5000 (0 : UInt8)).length)) 0 ++
    List.replicate 5000 0

theorem device_long_response_longWinded :
    ¬ ∃ raw, (run (.ofValues [] []) cc.getRandom [] [] [0, 2] 0
      ⟨DeviceTransport.mk (Driver.load longWinded), .none, ⟨fun _ => 0⟩⟩).1 = .ok raw := by
  rintro ⟨raw, hok⟩
  have hsized : ∀ sent, Sized (longWinded sent) := fun _ =>
    ⟨st.noSessions, 0, List.replicate 5000 0, by rw [List.length_replicate]; omega, rfl⟩
  obtain ⟨-, -, -, haccepted⟩ := device_long_response (.ofValues [] []) hsized cc.getRandom []
    [] [0, 2] 0 .none ⟨fun _ => 0⟩
  have hlen := haccepted raw hok
  have hmax : DeviceTransport.maxResponse = 4096 := rfl
  rw [longWinded, List.length_append, length_responseHeader, List.length_replicate] at hlen
  omega

end PurecryptoTpm
