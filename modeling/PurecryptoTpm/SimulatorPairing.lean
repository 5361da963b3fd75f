import PurecryptoTpm.SimulatorFraming

/-!
Which reply the result of a transmission comes from. A transmission that fails
has read its reply to the end, or has found that the connection is lost, so the
next one does not receive what is left of it. There is one exception: a reply
that is refused for its length stays in the stream, and what is transmitted next
receives its bytes.
-/

namespace PurecryptoTpm

open SimulatorTransport

/-- The `n`-th transmission returned the payload of the reply to its own command
and read that reply, no more and no less. -/
structure OwnReply (sim : Simulator) (calls : List SentCommand) (t : SimulatorTransport) (n : ℕ)
    (bytes : Bytes) : Prop where
  payload : bytes = (sim (calls.take (n + 1))).payload
  start : (exchanges (calls.take n) t).2.cmd.consumed =
    ((answers sim (calls.take n)).map SimulatorReply.frame).flatten.length
  stop : (exchanges (calls.take (n + 1)) t).2.cmd.consumed =
    ((answers sim (calls.take (n + 1))).map SimulatorReply.frame).flatten.length

/-- Whatever succeeds returns its own reply. -/
def Paired (sim : Simulator) (calls : List SentCommand) (t : SimulatorTransport) : Prop :=
  ∀ n bytes, (exchanges calls t).1[n]? = some (.ok bytes) → OwnReply sim calls t n bytes

theorem getElem?_exchanges (calls : List SentCommand) (t : SimulatorTransport) (n : ℕ) :
    (exchanges calls t).1[n]? =
      calls[n]?.map fun c => (exchange c (exchanges (calls.take n) t).2).1 := by
  induction calls generalizing t n with
  | nil => rfl
  | cons c calls ih =>
      cases n with
      | zero => rfl
      | succ n =>
          rw [exchanges, List.getElem?_cons_succ, List.getElem?_cons_succ, ih]
          rfl

theorem SimulatorReply.payload_of_outcome {r : SimulatorReply} {bytes : Bytes}
    (h : r.outcome = .ok bytes) : bytes = r.payload := by
  rw [SimulatorReply.outcome] at h
  split at h
  · exact (Outcome.ok.inj h).symm
  · cases h

/-- What is transmitted later only adds to what was written. -/
theorem exchanges_written {calls calls' : List SentCommand} (h : calls <+: calls')
    (t : SimulatorTransport) :
    (exchanges calls t).2.cmd.written <+: (exchanges calls' t).2.cmd.written := by
  obtain ⟨more, rfl⟩ := h
  induction more using List.reverseRecOn with
  | nil => simp
  | append_singleton more c ih =>
      rw [← List.append_assoc, exchanges_snoc, exchange_apply]
      exact ih.trans (turn_written c _)

/-- Whatever the simulator replies to the commands that it has received. -/
theorem RepliesFit.of_received {sim : Simulator} {calls : List SentCommand}
    {t : SimulatorTransport} (h : ∀ c ∈ calls, c.bytes.length < 4294967296)
    (hreplies : ∀ r ∈ answers sim (receivedCommands (exchanges calls t).2.cmd.written),
      r.payload.length ≤ maxResponse) : RepliesFit sim calls t := by
  intro done c hpre hwritten
  have hfits := commands_fit fun c' hc' => h c' (hpre.subset hc')
  obtain ⟨more, hmore⟩ := exchanges_written hpre t
  have hreceived := receivedCommands_isPrefix (exchanges (done ++ [c]) t).2.cmd.written more
  rw [hmore, hwritten, receivedCommands_framesOf hfits, commandsOf_commands] at hreceived
  exact hreplies _ (mem_answers sim hreceived)

/-- Whatever is transmitted on a connection, and wherever it is lost. -/
theorem transmissions_paired {sim : Simulator} {calls : List SentCommand}
    (h : ∀ c ∈ calls, c.bytes.length < 4294967296) (sendLimit recvLimit : Option ℕ)
    (hreplies : ∀ r ∈ answers sim (receivedCommands
      (exchanges calls (connect (.connect sim sendLimit recvLimit))).2.cmd.written),
      r.payload.length ≤ maxResponse) :
    Paired sim calls (connect (.connect sim sendLimit recvLimit)) := by
  intro n bytes hn
  rw [getElem?_exchanges, Option.map_eq_some_iff] at hn
  obtain ⟨c, hc, hok⟩ := hn
  have hsucc : calls.take (n + 1) = calls.take n ++ [c] := by
    rw [List.take_add_one, hc]
    rfl
  have hcalls : ∀ c' ∈ calls.take n ++ [c], c'.bytes.length < 4294967296 :=
    hsucc ▸ fun c' hc' => h c' (List.mem_of_mem_take hc')
  have hfit := (RepliesFit.of_received h hreplies).isPrefix (calls.take_prefix (n + 1))
  rw [hsucc] at hfit
  -- An exchange that succeeds started at a boundary, since none does on a lost connection.
  rcases exchanges_run (fun c' hc' => hcalls c' (List.mem_append_left _ hc'))
    (hfit.isPrefix (List.prefix_append _ _)) with ⟨-, hcmd⟩ | ⟨hlost, -⟩
  · rcases exchange_boundary hcalls hfit hcmd with hexchange | ⟨e, s, hexchange, -, -⟩
    · have hbefore := framesAgree_boundary sim
        (fun c' hc' => hcalls c' (List.mem_append_left _ hc')) sendLimit recvLimit
      have hafter := framesAgree_boundary sim hcalls sendLimit recvLimit
      refine ⟨?_, ?_, ?_⟩
      · rw [hexchange] at hok
        rw [hsucc]
        exact SimulatorReply.payload_of_outcome hok
      · rw [hcmd]
        exact hbefore.consumed
      · rw [hsucc, exchanges_snoc, hexchange]
        exact hafter.consumed
    · rw [hexchange] at hok
      cases hok
  · obtain ⟨e, s, hturn, -⟩ := TcpStream.turn_lost hlost c
    rw [exchange_apply, hturn] at hok
    cases hok

/-- The second command fails, and the third is answered only in part. -/
theorem transmissions_paired_acceptsFirst :
    Paired acceptsFirst [⟨0, [1]⟩, ⟨0, [2]⟩, ⟨0, [3]⟩]
      (connect (.connect acceptsFirst none (some 23))) := by
  refine transmissions_paired (by decide) none (some 23) ?_
  intro r hr
  obtain ⟨i, -, rfl⟩ := List.mem_map.1 hr
  exact (by decide : ([0xAA] : Bytes).length ≤ maxResponse)

/-! ### What a refused reply leaves behind -/

/-- Only the length of a reply is read before it is refused. -/
theorem receiveResponse_refuses {r : SimulatorReply} (h : maxResponse < r.payload.length)
    (hlt : r.payload.length < 4294967296) :
    ∃ e, Socket.Reads receiveResponse (toBeBytes (UInt32.ofNat r.payload.length)) (.err e) := by
  have hlen : (UInt32.ofNat r.payload.length).toNat = r.payload.length :=
    UInt32.toNat_ofNat_of_lt' hlt
  have hreads : Socket.Reads receiveResponse (toBeBytes (UInt32.ofNat r.payload.length) ++ [])
      (.err (.transport
        ("simulator response too large: " ++ toString r.payload.length ++ " bytes"))) := by
    apply (readU32_reads _).bind
    rw [hlen, if_pos h]
    exact Socket.Reads.throw _
  rw [List.append_nil] at hreads
  exact ⟨_, hreads⟩

/-- An exchange on a connection that is not lost, by what its receiving half reads. -/
theorem turn_unlimited {s : TcpStream} {c : SentCommand} {a : Bytes} {o : Outcome Error Bytes}
    (hsend : s.sendLimit = none) (hreads : Socket.Reads receiveResponse a o)
    (h : a <+: (s.wrote c.frame).unread) : turn c s = (o, (s.wrote c.frame).took a.length) := by
  rw [turn, Exec.bind_ok ((sendCommand_writes c).unlimited hsend)]
  exact hreads.complete _ h

section Refused

variable {sim : Simulator} {c₁ c₂ : SentCommand} {r : SimulatorReply} {rest : Bytes}

/-- Two commands on a connection of which only the first length was read. -/
theorem unread_refused (h : ∀ c ∈ [c₁, c₂], c.bytes.length < 4294967296) :
    ((((TcpStream.connect sim none none).wrote c₁.frame).took 4).wrote c₂.frame).unread =
      (sim [c₁]).payload ++ (toBeBytes (sim [c₁]).result ++ (sim [c₁, c₂]).frame) := by
  have hanswers : answers sim [c₁, c₂] = [sim [c₁], sim [c₁, c₂]] := rfl
  have houtput := sim.output_framesOf (commands_fit h)
  rw [commandsOf_commands, hanswers] at houtput
  refine Socket.unread_of_answer (toBeBytes (UInt32.ofNat (sim [c₁]).payload.length)) _ ?_ ?_
  · show sim.output (([] ++ c₁.frame) ++ c₂.frame) = _
    simpa [framesOf, Message.frame, SimulatorReply.frame] using houtput
  · simp [TcpStream.connect, Socket.wrote, Socket.took]

/-- A refused reply that starts with a frame: the next transmission receives that. -/
theorem exchanges_refused (h : ∀ c ∈ [c₁, c₂], c.bytes.length < 4294967296)
    (hpayload : (sim [c₁]).payload = r.frame ++ rest)
    (hlong : maxResponse < (sim [c₁]).payload.length)
    (hlt : (sim [c₁]).payload.length < 4294967296) (hr : r.payload.length ≤ maxResponse) :
    ∃ e, (exchanges [c₁, c₂] (connect (.connect sim none none))).1 = [.err e, r.outcome] := by
  obtain ⟨e, hrefuses⟩ := receiveResponse_refuses hlong hlt
  have hfirst : turn c₁ (.connect sim none none) =
      (.err e, ((TcpStream.connect sim none none).wrote c₁.frame).took 4) := by
    have hc₁ : ∀ c ∈ [c₁], c.bytes.length < 4294967296 :=
      fun c hc => h c (List.mem_cons.2 (.inl (List.mem_singleton.1 hc)))
    have hempty : sim.output (framesOf []) = [] := sim.output_framesOf (by simp)
    have houtput := @Simulator.output_command sim [] c₁ (commands_fit hc₁)
    rw [hempty] at houtput
    have hunread : ((TcpStream.connect sim none none).wrote c₁.frame).unread = (sim [c₁]).frame :=
      Socket.unread_of_answer [] _ houtput rfl
    apply turn_unlimited rfl hrefuses
    rw [hunread, SimulatorReply.frame, List.append_assoc]
    exact List.prefix_append _ _
  have hsecond := turn_unlimited (c := c₂)
    (s := ((TcpStream.connect sim none none).wrote c₁.frame).took 4) rfl (receiveResponse_reads hr)
    (by rw [unread_refused h, hpayload, List.append_assoc]; exact List.prefix_append _ _)
  refine ⟨e, ?_⟩
  rw [exchanges, exchanges, exchanges, exchange_apply, exchange_apply, connect, hfirst, hsecond]

end Refused

/-- A simulator whose first reply is too long, and starts with a frame of its own. -/
def oversizedFirst : Simulator := fun sent =>
  if sent.length = 1 then
    ⟨SimulatorReply.frame ⟨[0xAA], 0⟩ ++ List.replicate maxResponse 0, 0⟩
  else
    ⟨[0xBB], 0⟩

/-- The second transmission succeeds with a part of the first reply. -/
theorem not_transmissions_paired :
    ¬ Paired oversizedFirst [⟨0, [1]⟩, ⟨0, [2]⟩]
      (connect (.connect oversizedFirst none none)) := by
  intro hpaired
  have hlength : (SimulatorReply.frame ⟨[0xAA], 0⟩ ++ List.replicate maxResponse 0).length =
      9 + maxResponse := by
    rw [List.length_append, List.length_replicate]
    rfl
  have hmax : maxResponse = 1048576 := rfl
  have hlong : maxResponse < (oversizedFirst [⟨0, [1]⟩]).payload.length := by
    show maxResponse < (SimulatorReply.frame ⟨[0xAA], 0⟩ ++ List.replicate maxResponse 0).length
    omega
  have hlt : (oversizedFirst [⟨0, [1]⟩]).payload.length < 4294967296 := by
    show (SimulatorReply.frame ⟨[0xAA], 0⟩ ++ List.replicate maxResponse 0).length < 4294967296
    omega
  have hcalls : ∀ c ∈ [SentCommand.mk 0 [1], ⟨0, [2]⟩], c.bytes.length < 4294967296 := by decide
  obtain ⟨e, hresults⟩ := exchanges_refused hcalls (r := ⟨[0xAA], 0⟩) rfl hlong hlt (by decide)
  have hown := hpaired 1 [0xAA] (by rw [hresults]; rfl)
  exact absurd hown.payload (by decide)

end PurecryptoTpm
