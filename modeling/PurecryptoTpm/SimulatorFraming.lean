import PurecryptoTpm.Library.Safe
import PurecryptoTpm.Transport.Simulator

/-!
Both ends of a simulator connection agree on where frames begin and end. The
simulator finds in what it is sent exactly the commands that were transmitted,
each with its locality, and a transmission consumes exactly its own reply. The
invariant of a run is that both streams are at a frame boundary.
-/

namespace PurecryptoTpm

/-! ### Streams of frames -/

theorem nextMessage_frame {m : Message} (h : m.Fits) (s : Bytes) :
    nextMessage (m.frame ++ s) = some (m, s) :=
  nextMessage_eq_some_iff.2 ⟨m.frame, ⟨h, rfl⟩, rfl⟩

theorem nextMessage_short {s : Bytes} (h : s.length < 4) : nextMessage s = none := by
  rw [Option.eq_none_iff_forall_ne_some]
  rintro ⟨m, rest⟩ hnext
  obtain ⟨w, hformat, rfl⟩ := nextMessage_eq_some_iff.1 hnext
  have hlong := messageFormat_length hformat
  rw [List.length_append] at h
  omega

/-- A number of messages as they are sent. -/
def framesOf (ms : List Message) : Bytes := (ms.map Message.frame).flatten

@[simp] theorem framesOf_snoc (ms : List Message) (m : Message) :
    framesOf (ms ++ [m]) = framesOf ms ++ m.frame := by
  simp [framesOf]

/-- Messages are found again, and nothing in the front of one that is cut off. -/
theorem all_framesOf_append {ms : List Message} (h : ∀ m ∈ ms, m.Fits) {tail : Bytes}
    (hshort : tail.length < 4) : mssim.all (framesOf ms ++ tail) = (ms, tail) := by
  have htail : mssim.all tail = ([], tail) := Framing.all_of_none (nextMessage_short hshort)
  have hframes := Framing.all_frames (F := mssim) (fun m hm => nextMessage_frame (h m hm)) tail
  rw [htail, List.append_nil] at hframes
  exact hframes

theorem all_framesOf {ms : List Message} (h : ∀ m ∈ ms, m.Fits) :
    mssim.all (framesOf ms) = (ms, []) := by
  have hframes := all_framesOf_append h (by decide : ([] : Bytes).length < 4)
  rwa [List.append_nil] at hframes

/-- The commands among a number of messages. -/
def commandsOf (ms : List Message) : List SentCommand := ms.filterMap Message.sent?

@[simp] theorem commandsOf_command (ms : List Message) (c : SentCommand) :
    commandsOf (ms ++ [.command c]) = commandsOf ms ++ [c] := by
  simp [commandsOf, Message.sent?]

@[simp] theorem commandsOf_signal (ms : List Message) (selector : UInt32) :
    commandsOf (ms ++ [.signal selector]) = commandsOf ms := by
  simp [commandsOf, Message.sent?]

@[simp] theorem commandsOf_commands (calls : List SentCommand) :
    commandsOf (calls.map .command) = calls := by
  rw [commandsOf, List.filterMap_map]
  exact List.filterMap_some

theorem receivedCommands_framesOf {ms : List Message} (h : ∀ m ∈ ms, m.Fits) :
    receivedCommands (framesOf ms) = commandsOf ms := by
  rw [receivedCommands, all_framesOf h, commandsOf]

/-- What is written later only adds to the commands received. -/
theorem receivedCommands_isPrefix (s t : Bytes) :
    receivedCommands s <+: receivedCommands (s ++ t) := by
  obtain ⟨more, hmore⟩ := mssim.all_isPrefix s t
  rw [receivedCommands, receivedCommands, ← hmore, List.filterMap_append]
  exact List.prefix_append _ _

namespace Simulator

variable (sim : Simulator)

theorem output_framesOf {ms : List Message} (h : ∀ m ∈ ms, m.Fits) :
    sim.output (framesOf ms) =
      ((answers sim (commandsOf ms)).map SimulatorReply.frame).flatten := by
  rw [output, receivedCommands_framesOf h]

/-- A command is answered with its own reply. -/
theorem output_command {ms : List Message} {c : SentCommand}
    (h : ∀ m ∈ ms ++ [Message.command c], m.Fits) :
    sim.output (framesOf ms ++ c.frame) =
      sim.output (framesOf ms) ++ (sim (commandsOf ms ++ [c])).frame := by
  have hfits : ∀ m ∈ ms, m.Fits := fun m hm => h m (List.mem_append_left _ hm)
  have hframe : framesOf ms ++ c.frame = framesOf (ms ++ [.command c]) :=
    (framesOf_snoc ms (.command c)).symm
  rw [hframe, sim.output_framesOf h, sim.output_framesOf hfits, commandsOf_command, answers_snoc]
  simp

/-- Nothing else is answered. -/
theorem output_signal {ms : List Message} {selector : UInt32}
    (h : ∀ m ∈ ms ++ [Message.signal selector], m.Fits) :
    sim.output (framesOf ms ++ toBeBytes selector) = sim.output (framesOf ms) := by
  have hfits : ∀ m ∈ ms, m.Fits := fun m hm => h m (List.mem_append_left _ hm)
  have hframe : framesOf ms ++ toBeBytes selector = framesOf (ms ++ [.signal selector]) :=
    (framesOf_snoc ms (.signal selector)).symm
  rw [hframe, sim.output_framesOf h, sim.output_framesOf hfits, commandsOf_signal]

end Simulator

/-! ### The two halves of a transmission -/

theorem writeU32_writes (v : UInt32) : Socket.Writes (writeU32 v) (toBeBytes v) :=
  (Socket.Writes.writeAll _ _).mapErr _

theorem sendCommand_writes (c : SentCommand) :
    Socket.Writes (sendCommand c.locality c.bytes) c.frame := by
  have hwrites : Socket.Writes (sendCommand c.locality c.bytes) (toBeBytes tpmSendCommand ++
      ([c.locality] ++ (toBeBytes (UInt32.ofNat c.bytes.length) ++ c.bytes))) :=
    (writeU32_writes _).bind (((Socket.Writes.writeAll _ _).mapErr _).bind
      ((writeU32_writes _).bind ((Socket.Writes.writeAll _ _).mapErr _)))
  rw [SentCommand.frame, List.append_assoc, List.append_assoc]
  exact hwrites

theorem SentCommand.frame_ne_nil (c : SentCommand) : c.frame ≠ [] := by
  intro hnil
  have hlength := congrArg List.length hnil
  simp [SentCommand.frame] at hlength

theorem toBeBytes_uint32_ne_nil (v : UInt32) : toBeBytes v ≠ [] := by
  intro hnil
  have hlength := congrArg List.length hnil
  simp at hlength

theorem readU32_reads (v : UInt32) : Socket.Reads readU32 (toBeBytes v) (.ok v) := by
  have hreads : Socket.Reads readU32 (toBeBytes v ++ []) (.ok (fromBeBytes (toBeBytes v))) :=
    ((Socket.Reads.readExact _ (by simp)).mapErr _).bind (Socket.Reads.pure _)
  rwa [List.append_nil, fromBeBytes_toBeBytes] at hreads

/-- What a transmission makes of a reply. -/
def SimulatorReply.outcome (r : SimulatorReply) : Outcome Error Bytes :=
  if r.result = 0 then
    .ok r.payload
  else
    .err (.transport ("simulator send failed: rc=" ++ toString r.result.toNat))

theorem receiveResponse_reads {r : SimulatorReply} (h : r.payload.length ≤ maxResponse) :
    Socket.Reads receiveResponse r.frame r.outcome := by
  have hlen : (UInt32.ofNat r.payload.length).toNat = r.payload.length := by
    apply UInt32.toNat_ofNat_of_lt'
    calc r.payload.length ≤ maxResponse := h
      _ < UInt32.size := by decide
  have hreads : Socket.Reads receiveResponse (toBeBytes (UInt32.ofNat r.payload.length) ++
      (r.payload ++ (toBeBytes r.result ++ []))) r.outcome := by
    apply (readU32_reads _).bind
    rw [hlen, if_neg (Nat.not_lt.2 h)]
    refine ((Socket.Reads.readExact _ rfl).mapErr _).bind ((readU32_reads _).bind ?_)
    rw [SimulatorReply.outcome]
    by_cases hresult : r.result = 0
    · rw [if_pos hresult, if_neg (not_not_intro hresult)]
      exact Socket.Reads.pure _
    · rw [if_neg hresult, if_pos hresult]
      exact Socket.Reads.throw _
  rw [SimulatorReply.frame, List.append_assoc]
  rwa [List.append_nil] at hreads

theorem SimulatorReply.frame_ne_nil (r : SimulatorReply) : r.frame ≠ [] := by
  intro hnil
  have hlength := congrArg List.length hnil
  simp [SimulatorReply.frame] at hlength

/-- Reading leaves what was written as it is. -/
theorem readExact_safe (w : Bytes) (n : ℕ) :
    Exec.Safe (fun s : TcpStream => s.written = w) (TcpStream.readExact n) Exec.Anything := by
  apply Exec.Safe.of_cases
  intro s hs
  rw [TcpStream.readExact, Socket.readExact]
  split
  · exact .inl ⟨_, _, rfl, hs, trivial⟩
  · exact .inr ⟨_, _, rfl, hs⟩

theorem receiveResponse_safe (w : Bytes) :
    Exec.Safe (fun s : TcpStream => s.written = w) receiveResponse Exec.Anything := by
  have hread : Exec.Safe (fun s : TcpStream => s.written = w) readU32 Exec.Anything :=
    ((readExact_safe w 4).mapErr _).bind fun _ _ => .pure trivial
  exact hread.bind fun len _ => .ite (fun _ => .throw _) fun _ =>
    ((readExact_safe w _).mapErr _).bind fun resp _ => hread.bind fun rc _ =>
      .ite (fun _ => .throw _) fun _ => .pure trivial

/-! ### One exchange -/

namespace SimulatorTransport

/-- One exchange, over the connection alone. -/
def turn (c : SentCommand) : Exec Error TcpStream Bytes := do
  sendCommand c.locality c.bytes
  receiveResponse

theorem exchange_apply (c : SentCommand) (t : SimulatorTransport) :
    exchange c t = ((turn c t.cmd).1, ⟨(turn c t.cmd).2, c.locality⟩) := rfl

end SimulatorTransport

namespace TcpStream

variable {sim : Simulator} {ms : List Message} {c : SentCommand} (sendLimit recvLimit : Option ℕ)

/-- The connection with a number of messages sent and the replies to the
commands among them read. -/
def boundary (s : TcpStream) (ms : List Message) : TcpStream := s.settledAt (framesOf ms)

theorem boundary_snoc (s : TcpStream) (ms : List Message) (m : Message) :
    (s.boundary ms).settledAt (framesOf ms ++ m.frame) = s.boundary (ms ++ [m]) := by
  rw [boundary, boundary, framesOf_snoc]
  rfl

theorem connect_boundary (sim : Simulator) :
    connect sim sendLimit recvLimit = (connect sim sendLimit recvLimit).boundary [] := by
  have hempty : sim.output (framesOf []) = [] := sim.output_framesOf (by simp)
  show _ = Socket.mk sim.output [] (sim.output (framesOf [])).length sendLimit recvLimit
  rw [hempty]
  rfl

theorem not_limited (sim : Simulator) : ¬ (connect sim none none).Limited := by
  simp [Socket.Limited, connect]

/-- An exchange gets from one boundary to the next, unless the connection is
lost. The length of the reply matters only once the command got through. -/
theorem turn_boundary (h : ∀ m ∈ ms ++ [Message.command c], m.Fits)
    (hreply : sendCommand c.locality c.bytes ((connect sim sendLimit recvLimit).boundary ms) =
        (.ok (), ((connect sim sendLimit recvLimit).boundary ms).wrote c.frame) →
      (sim (commandsOf ms ++ [c])).payload.length ≤ maxResponse) :
    SimulatorTransport.turn c ((connect sim sendLimit recvLimit).boundary ms) =
        ((sim (commandsOf ms ++ [c])).outcome,
          (connect sim sendLimit recvLimit).boundary (ms ++ [.command c])) ∨
      ∃ e s, SimulatorTransport.turn c ((connect sim sendLimit recvLimit).boundary ms) =
        (.err e, s) ∧ s.Lost ∧ (connect sim sendLimit recvLimit).Limited := by
  rcases Socket.exchange_settled (s := (connect sim sendLimit recvLimit).boundary ms) rfl
    (sendCommand_writes c) (fun hsent => receiveResponse_reads (hreply hsent))
    (sim.output_command h) with
    hok | ⟨e, s, herr, hlimited, -, ⟨-, hended⟩ | ⟨_, -, -, -, hended⟩⟩
  · have hend := (connect sim sendLimit recvLimit).boundary_snoc ms (.command c)
    exact .inl (hok.trans (congrArg (Prod.mk _) hend))
  · exact .inr ⟨e, s, herr, .inr hended, hlimited⟩
  · exact .inr ⟨e, s, herr, .inl hended, hlimited⟩

/-- Nothing is received once the connection is lost. -/
theorem turn_lost {s : TcpStream} (h : s.Lost) (c : SentCommand) :
    ∃ e t, SimulatorTransport.turn c s = (.err e, t) ∧ t.Lost :=
  Socket.exchange_lost h (sendCommand_writes c) c.frame_ne_nil
    (receiveResponse_reads (r := ⟨[], 0⟩) (by decide)) (SimulatorReply.frame_ne_nil _)

/-- A signal gets through, or its connection is lost. -/
theorem writeU32_boundary {selector : UInt32} (h : ∀ m ∈ ms ++ [Message.signal selector], m.Fits) :
    writeU32 selector ((connect sim sendLimit recvLimit).boundary ms) =
        (.ok (), (connect sim sendLimit recvLimit).boundary (ms ++ [.signal selector])) ∨
      ∃ e s, writeU32 selector ((connect sim sendLimit recvLimit).boundary ms) = (.err e, s) ∧
        s.Lost ∧ (connect sim sendLimit recvLimit).Limited := by
  rcases writeU32_writes selector ((connect sim sendLimit recvLimit).boundary ms) with
    ⟨hok, -⟩ | ⟨e, p, -, -, -, herr, n, hlimit, hle⟩
  · have hsame : ((connect sim sendLimit recvLimit).boundary ms).wrote (toBeBytes selector) =
        ((connect sim sendLimit recvLimit).boundary ms).settledAt
          (framesOf ms ++ toBeBytes selector) := by
      have houtput : (connect sim sendLimit recvLimit).answer (framesOf ms ++ toBeBytes selector) =
          (connect sim sendLimit recvLimit).answer (framesOf ms) := sim.output_signal h
      simp [boundary, Socket.wrote, Socket.settledAt, houtput]
    have hend := (connect sim sendLimit recvLimit).boundary_snoc ms (.signal selector)
    exact .inl (hok.trans (congrArg (Prod.mk _) (hsame.trans hend)))
  · have hlimit : (connect sim sendLimit recvLimit).sendLimit = some n := hlimit
    exact .inr ⟨e, _, herr, .inl ⟨n, hlimit, hle⟩, .inl (by simp [hlimit])⟩

end TcpStream

/-! ### A run -/

namespace SimulatorTransport

theorem turn_of_sent {s : TcpStream} {c : SentCommand}
    (h : sendCommand c.locality c.bytes s = (.ok (), s.wrote c.frame)) :
    (turn c s).2.written = s.written ++ c.frame := by
  rw [turn, Exec.bind_ok h]
  exact (receiveResponse_safe (s.wrote c.frame).written).keeps rfl

theorem turn_written (c : SentCommand) (s : TcpStream) : s.written <+: (turn c s).2.written := by
  rcases sendCommand_writes c s with ⟨hsent, -⟩ | ⟨e, p, -, -, -, herr, -⟩
  · rw [turn_of_sent hsent]
    exact List.prefix_append _ _
  · rw [turn, Exec.bind_err herr]
    exact List.prefix_append _ _

theorem exchanges_snoc (calls : List SentCommand) (c : SentCommand) (t : SimulatorTransport) :
    exchanges (calls ++ [c]) t =
      ((exchanges calls t).1 ++ [(exchange c (exchanges calls t).2).1],
        (exchange c (exchanges calls t).2).2) := by
  induction calls generalizing t with
  | nil => rfl
  | cons c' calls ih => rw [List.cons_append, exchanges, ih, exchanges, List.cons_append]

/-- The replies that the lengths of a run depend on are of an accepted length:
those to the commands that got through. -/
def RepliesFit (sim : Simulator) (calls : List SentCommand) (t : SimulatorTransport) : Prop :=
  ∀ done c, done ++ [c] <+: calls →
    (exchanges (done ++ [c]) t).2.cmd.written = framesOf ((done ++ [c]).map .command) →
      (sim (done ++ [c])).payload.length ≤ maxResponse

theorem RepliesFit.of_replies {sim : Simulator} {calls : List SentCommand}
    (h : ∀ r ∈ answers sim calls, r.payload.length ≤ maxResponse) (t : SimulatorTransport) :
    RepliesFit sim calls t :=
  fun _ _ hpre _ => h _ (mem_answers sim hpre)

theorem RepliesFit.isPrefix {sim : Simulator} {calls calls' : List SentCommand}
    {t : SimulatorTransport} (h : RepliesFit sim calls' t) (hpre : calls <+: calls') :
    RepliesFit sim calls t :=
  fun done c hdone => h done c (hdone.trans hpre)

theorem commands_fit {calls : List SentCommand} (h : ∀ c ∈ calls, c.bytes.length < 4294967296) :
    ∀ m ∈ calls.map Message.command, m.Fits := by
  intro m hm
  obtain ⟨c, hc, rfl⟩ := List.mem_map.1 hm
  exact h c hc

section Run

variable {sim : Simulator} {calls : List SentCommand} {sendLimit recvLimit : Option ℕ}

/-- One more exchange of a run that is at a boundary. -/
theorem exchange_boundary {c : SentCommand} (h : ∀ c' ∈ calls ++ [c], c'.bytes.length < 4294967296)
    (hreplies : RepliesFit sim (calls ++ [c]) (connect (.connect sim sendLimit recvLimit)))
    (hcmd : (exchanges calls (connect (.connect sim sendLimit recvLimit))).2.cmd =
      (TcpStream.connect sim sendLimit recvLimit).boundary (calls.map .command)) :
    exchange c (exchanges calls (connect (.connect sim sendLimit recvLimit))).2 =
        ((sim (calls ++ [c])).outcome,
          ⟨(TcpStream.connect sim sendLimit recvLimit).boundary ((calls ++ [c]).map .command),
            c.locality⟩) ∨
      ∃ e s, exchange c (exchanges calls (connect (.connect sim sendLimit recvLimit))).2 =
        (.err e, ⟨s, c.locality⟩) ∧ s.Lost ∧
          (TcpStream.connect sim sendLimit recvLimit).Limited := by
  have hfits := commands_fit h
  have hlast := hreplies calls c (List.prefix_refl _)
  rw [exchanges_snoc, exchange_apply, hcmd] at hlast
  rw [List.map_append, List.map_singleton] at hfits hlast ⊢
  rw [framesOf_snoc] at hlast
  rw [exchange_apply, hcmd]
  rcases TcpStream.turn_boundary sendLimit recvLimit hfits fun hsent => by
    rw [commandsOf_commands]
    exact hlast (turn_of_sent hsent) with
    hturn | ⟨e, s, hturn, hlost, hlimited⟩
  · left
    rw [hturn, commandsOf_commands]
  · right
    rw [hturn]
    exact ⟨e, s, rfl, hlost, hlimited⟩

/-- A run stays at boundaries until the connection is lost. -/
theorem exchanges_run (h : ∀ c ∈ calls, c.bytes.length < 4294967296)
    (hreplies : RepliesFit sim calls (connect (.connect sim sendLimit recvLimit))) :
    ((exchanges calls (connect (.connect sim sendLimit recvLimit))).1 =
        (answers sim calls).map SimulatorReply.outcome ∧
      (exchanges calls (connect (.connect sim sendLimit recvLimit))).2.cmd =
        (TcpStream.connect sim sendLimit recvLimit).boundary (calls.map .command)) ∨
    ((exchanges calls (connect (.connect sim sendLimit recvLimit))).2.cmd.Lost ∧
      (TcpStream.connect sim sendLimit recvLimit).Limited) := by
  induction calls using List.reverseRecOn with
  | nil => exact .inl ⟨rfl, TcpStream.connect_boundary sendLimit recvLimit sim⟩
  | append_singleton calls c ih =>
      rw [exchanges_snoc]
      rcases ih (fun c' hc => h c' (List.mem_append_left _ hc))
        (hreplies.isPrefix (List.prefix_append _ _)) with ⟨hresults, hcmd⟩ | ⟨hlost, hlimited⟩
      · rw [hresults, answers_snoc, List.map_append]
        rcases exchange_boundary h hreplies hcmd with hexchange | ⟨e, s, hexchange, hlost, hlimited⟩
        · left
          rw [hexchange]
          exact ⟨rfl, rfl⟩
        · right
          rw [hexchange]
          exact ⟨hlost, hlimited⟩
      · right
        obtain ⟨e, s, hturn, hlost'⟩ := TcpStream.turn_lost hlost c
        rw [exchange_apply, hturn]
        exact ⟨hlost', hlimited⟩

end Run

end SimulatorTransport

/-- Both ends of a connection are at a frame boundary after a number of exchanges. -/
structure FramesAgree (sim : Simulator) (calls : List SentCommand) (s : TcpStream) : Prop where
  received : mssim.all s.written = (calls.map .command, [])
  consumed : s.consumed = ((answers sim calls).map SimulatorReply.frame).flatten.length
  unread : s.unread = []

theorem framesAgree_boundary (sim : Simulator) {calls : List SentCommand}
    (h : ∀ c ∈ calls, c.bytes.length < 4294967296) (sendLimit recvLimit : Option ℕ) :
    FramesAgree sim calls
      ((TcpStream.connect sim sendLimit recvLimit).boundary (calls.map .command)) where
  received := all_framesOf (SimulatorTransport.commands_fit h)
  consumed := by
    have houtput := sim.output_framesOf (SimulatorTransport.commands_fit h)
    rw [commandsOf_commands] at houtput
    exact congrArg List.length houtput
  unread := Socket.unread_settledAt _ _

open SimulatorTransport in
/-- Transmissions on a connection that is not lost: the simulator finds exactly
the commands, each result is what its own reply says, and every one of them
leaves both streams at a frame boundary. -/
theorem simulator_framing {sim : Simulator} {calls : List SentCommand}
    (h : ∀ c ∈ calls, c.bytes.length < 4294967296)
    (hreplies : ∀ r ∈ answers sim calls, r.payload.length ≤ maxResponse) :
    (exchanges calls (connect (.connect sim none none))).1 =
        (answers sim calls).map SimulatorReply.outcome ∧
      ∀ n, FramesAgree sim (calls.take n)
        (exchanges (calls.take n) (connect (.connect sim none none))).2.cmd := by
  have hfit := RepliesFit.of_replies hreplies (connect (.connect sim none none))
  have hrun : ∀ n,
      (exchanges (calls.take n) (connect (.connect sim none none))).1 =
          (answers sim (calls.take n)).map SimulatorReply.outcome ∧
        (exchanges (calls.take n) (connect (.connect sim none none))).2.cmd =
          (TcpStream.connect sim none none).boundary ((calls.take n).map .command) := by
    intro n
    rcases exchanges_run (fun c hc => h c (List.mem_of_mem_take hc))
      (hfit.isPrefix (calls.take_prefix n)) with hboundary | ⟨-, hlimited⟩
    · exact hboundary
    · exact absurd hlimited (TcpStream.not_limited sim)
  refine ⟨?_, ?_⟩
  · have hall := (hrun calls.length).1
    rwa [List.take_length] at hall
  · intro n
    rw [(hrun n).2]
    exact framesAgree_boundary sim (fun c hc => h c (List.mem_of_mem_take hc)) none none

/-- A simulator that accepts its first command only. -/
def acceptsFirst : Simulator := fun sent => ⟨[0xAA], UInt32.ofNat (sent.length - 1)⟩

open SimulatorTransport in
theorem simulator_framing_acceptsFirst :
    (exchanges [⟨0, [1]⟩, ⟨3, []⟩] (connect (.connect acceptsFirst none none))).1 =
        [.ok [0xAA], .err (.transport "simulator send failed: rc=1")] ∧
      ∀ n, FramesAgree acceptsFirst (List.take n [⟨0, [1]⟩, ⟨3, []⟩])
        (exchanges (List.take n [⟨0, [1]⟩, ⟨3, []⟩])
          (connect (.connect acceptsFirst none none))).2.cmd :=
  simulator_framing (by decide) (by decide)

end PurecryptoTpm
