import PurecryptoTpm.Backends
import PurecryptoTpm.ClientRefinement

/-!
The whole stack. A server is a chip: its reply to a frame depends on the
frames before it. It replies to whatever is sent to it, with 10 to 4096 bytes,
so it can stand behind the character device and behind the simulator's
streams, and what a client gets over either is what it gets from the service.
-/

namespace PurecryptoTpm

open Exec

/-! ### A server as a chip -/

namespace Server

variable {P : Purecrypto} {S : Type}

/-- The reply to the last of the frames, and the server behind it. -/
def after (server : Server P S) (frames : List Bytes) : Bytes × Server P S :=
  frames.foldl (fun last frame => last.2.reply frame) (Peer.errorReply 0x100, server)

def chip (server : Server P S) : Chip := fun frames => (server.after frames).1

theorem after_snoc (server : Server P S) (frames : List Bytes) (frame : Bytes) :
    server.after (frames ++ [frame]) = (server.after frames).2.reply frame := by
  rw [after, List.foldl_append]
  rfl

end Server

/-! ### The lengths of replies -/

/-- The replies a device can hand out. -/
def ReplyFits (reply : Bytes) : Prop := reply ≠ [] ∧ reply.length ≤ DeviceTransport.maxResponse

theorem errorReply_fits (rc : UInt32) : ReplyFits (Peer.errorReply rc) :=
  ⟨List.ne_nil_of_length_pos (by simp [Peer.errorReply]), by simp [Peer.errorReply]; decide⟩

theorem successReply_fits (tag : UInt16) {handles : List Handle} {body : Bytes}
    (hhandles : handles.length ≤ 1) (hbody : body.length ≤ 4000) :
    ReplyFits (successReply tag handles body) := by
  have hmax : DeviceTransport.maxResponse = 4096 := rfl
  have hlen := length_successReply tag handles body
  exact ⟨List.ne_nil_of_length_pos (by omega), by omega⟩

theorem Order.respHandles_le (o : Order) : o.respHandles ≤ 1 := by
  cases o with
  | command code handles params requester =>
      rw [respHandles, responseHandles]
      split <;> omega
  | openSession hashAlg => exact le_rfl

theorem ServiceReply.toReply_fits {r : ServiceReply} {n : ℕ} (h : r.Fits n) (hn : n ≤ 1)
    (tag : UInt16) {body : Bytes → Bytes}
    (hbody : ∀ params, params.length ≤ maxParams → (body params).length ≤ 4000) :
    ReplyFits (r.toReply tag body) := by
  cases r with
  | success handles params => exact successReply_fits tag (h.1.trans_le hn) (hbody params h.2)
  | error rc => exact errorReply_fits rc

namespace Server

variable {P : Purecrypto} {S : Type}

theorem length_authorizedBody_le {params : Bytes} (h : params.length ≤ maxParams)
    {entry : AuthResponse} (hnonce : entry.nonceTpm.length ≤ 64) (hhmac : entry.hmac.length ≤ 64) :
    (authorizedBody params entry).length ≤ 4000 := by
  have hmax : maxParams = 3072 := rfl
  simp only [authorizedBody, responseEntry, List.length_append, length_toBeBytes,
    length_tpm2bBytes, size_uint32, List.length_singleton]
  omega

theorem serve_fits (server : Server P S) (o : Order) {encode : ServiceReply → Bytes}
    (hencode : ∀ r : ServiceReply, r.Fits o.respHandles → ReplyFits (encode r))
    (committed : List Handle → Server P S → Server P S) :
    ReplyFits (server.serve o encode committed).1 :=
  hencode _ (server.service.perform_fits o server.state)

theorem serveAnyone_fits (server : Server P S) (cmd : Command) :
    ReplyFits (server.serveAnyone cmd).1 := by
  refine server.serve_fits _ (fun r hr => ?_) _
  exact ServiceReply.toReply_fits hr (Order.respHandles_le _) _
    fun params hparams => hparams.trans (by decide)

theorem servePassword_fits (server : Server P S) (cmd : Command) (pw : Bytes) :
    ReplyFits (server.servePassword cmd pw).1 := by
  refine server.serve_fits _ (fun r hr => ?_) _
  exact ServiceReply.toReply_fits hr (Order.respHandles_le _) _
    fun params hparams => length_authorizedBody_le hparams (Nat.zero_le _) (Nat.zero_le _)

theorem serveSession_fits (server : Server P S) (cmd : Command) (entry : AuthCommand)
    (shared : Shared) : ReplyFits (server.serveSession cmd entry shared).1 := by
  refine server.serve_fits _ (fun r hr => ?_) _
  cases r with
  | error rc => exact errorReply_fits rc
  | success handles params =>
      have hnonce : (server.os.drawn shared.digest.size).length ≤ 64 := by
        rw [OsRng.length_drawn]
        exact shared.digest.size_le
      refine successReply_fits _ (hr.1.trans_le (Order.respHandles_le _))
        (length_authorizedBody_le hr.2 hnonce ?_)
      show (P.hmac shared.digest _ _).length ≤ 64
      rw [P.length_hmac]
      exact shared.digest.size_le

theorem serveStart_fits (server : Server P S) (cmd : Command) :
    ReplyFits (server.serveStart cmd).1 := by
  rw [serveStart]
  split
  · split
    · rename_i d hd
      refine server.serve_fits _ (fun r hr => ?_) _
      refine ServiceReply.toReply_fits hr (Order.respHandles_le _) _ fun params _ => ?_
      have hsize := d.size_le
      rw [length_tpm2bBytes, OsRng.length_drawn]
      omega
    · exact errorReply_fits _
  · exact errorReply_fits _

/-- The server replies to everything, and no reply is too long for a device. -/
theorem reply_fits (server : Server P S) (frame : Bytes) : ReplyFits (server.reply frame).1 := by
  rw [reply]
  cases decodeCommand commandHandles frame with
  | none => exact errorReply_fits _
  | some cmd =>
      dsimp only
      cases cmd.area with
      | none =>
          dsimp only
          split
          · exact server.serveStart_fits cmd
          · exact server.serveAnyone_fits cmd
      | some area =>
          dsimp only
          split
          · exact server.servePassword_fits cmd _
          · cases server.sessions area.2.sessionHandle with
            | none => exact errorReply_fits _
            | some shared =>
                dsimp only
                split
                · exact server.serveSession_fits cmd area.2 shared
                · exact errorReply_fits _

theorem chip_fits (server : Server P S) (frames : List Bytes) :
    server.chip frames ≠ [] ∧ (server.chip frames).length ≤ DeviceTransport.maxResponse := by
  induction frames using List.reverseRecOn with
  | nil => exact errorReply_fits _
  | append_singleton frames frame _ =>
      rw [chip, after_snoc]
      exact reply_fits _ frame

/-- The direct transport in front of a server's chip, and the server itself. -/
structure Behind (server : Server P S) (r : Responder) (current : Server P S) : Prop where
  respond : r.respond = server.chip.direct.respond
  current : current = (server.after r.sent).2

theorem behind_interchangeable (server : Server P S) : Interchangeable server.Behind := by
  rintro frame ⟨respond, sent⟩ _ - ⟨rfl, rfl⟩
  have htransmit : Transport.transmit frame (Responder.mk server.chip.direct.respond sent) =
      (.ok (server.chip (sent ++ [frame])), ⟨server.chip.direct.respond, sent ++ [frame]⟩) := rfl
  have hserver : Transport.transmit frame (server.after sent).2 =
      (.ok (server.after (sent ++ [frame])).1, (server.after (sent ++ [frame])).2) := by
    rw [after_snoc]
    rfl
  rw [htransmit, hserver]
  exact ⟨rfl, rfl, rfl⟩

end Server

/-! ### Clients in front of the two backends -/

theorem Client.host_short {α : Type} {c : Client α} (h : c.Short) (sessions : List Session) :
    (c.host sessions).Short := by
  induction c generalizing sessions with
  | done a => trivial
  | call m hplain who next ih =>
      rw [host]
      cases who.auth sessions with
      | none => exact ih _ (h.2 _) sessions
      | some auth => exact fun _ => ⟨h.1, fun o auth' => ih o (h.2 o) _⟩
  | openSession hashAlg next ih => exact ⟨trivial, fun o => ih _ (h _) _⟩

section Stack

variable {P : Purecrypto} {S α : Type} {svc : Service S} {c : Client α} {t : S}

/-- Over a transport that cannot be told from the server, a client is told what
it is told by the service. -/
theorem Client.over_transport {τ : Type} [Transport τ] {R : τ → Responder → Prop}
    (hR : Interchangeable R) (hshort : c.Short)
    (hallows : (c.orders []).Throughout (Direct.answer svc) svc.Allows (Direct.fresh t))
    (os os' : OsRng) (transport : τ)
    (h : R transport (Server.powerOn svc t os' : Server P S).chip.direct) :
    ∃ r, R ((c.host []).run P ⟨transport, .none, os⟩).2.transport r ∧
      ((c.host []).run P ⟨transport, .none, os⟩).1 =
        .ok ((c.orders []).run (Direct.answer svc) (Direct.fresh t)).1 ∧
      ((Server.powerOn svc t os' : Server P S).after r.sent).2.state =
        ((c.orders []).run (Direct.answer svc) (Direct.fresh t)).2.state := by
  obtain ⟨server, sessions, os'', hrun, htracks⟩ :=
    Client.refines (P := P) hshort hallows os os'
  obtain ⟨hresult, direct, htransport, hserver⟩ :=
    (Host.run_simulates (P := P) hR (c.host_short hshort [])).trans
      (Host.run_simulates (P := P) (Server.powerOn svc t os').behind_interchangeable
        (c.host_short hshort [])) ⟨transport, .none, os⟩ ⟨Server.powerOn svc t os', .none, os⟩
      ⟨⟨_, .none, os⟩, ⟨h, rfl, rfl⟩, ⟨⟨rfl, rfl⟩, rfl, rfl⟩⟩
  refine ⟨direct.transport, htransport.transport, ?_, ?_⟩
  · rw [hresult, hrun]
  · rw [← hserver.transport.current, hrun]
    exact htracks.state

end Stack

/-- What a client gets over the character device and over the simulator is what
it gets from the service, and the frames that got there do to the server what
the client does to the service. -/
theorem client_end_to_end {S α : Type} (P : Purecrypto) (svc : Service S) (c : Client α)
    (hshort : c.Short) (t : S)
    (hallows : (c.orders []).Throughout (Direct.answer svc) svc.Allows (Direct.fresh t))
    (l : UInt8) (os os' : OsRng) :
    let server : Server P S := Server.powerOn svc t os'
    let device := (c.host []).run P ⟨DeviceTransport.mk (Driver.load server.chip), .none, os⟩
    let simulator := (c.host []).run P ⟨(SimulatorTransport.connect
      (.connect server.chip.simulator none none)).setLocality l, .none, os⟩
    let direct := (c.orders []).run (Direct.answer svc) (Direct.fresh t)
    device.1 = .ok direct.1 ∧ simulator.1 = .ok direct.1 ∧
      (server.after device.2.transport.file.sent).2.state = direct.2.state ∧
      (server.after ((receivedCommands simulator.2.transport.cmd.written).map
        SentCommand.bytes)).2.state = direct.2.state := by
  intro server device simulator direct
  have hroom : ∀ sent, (server.chip sent).length ≤ maxResponse := by
    intro sent
    have hle := (server.chip_fits sent).2
    have hdevice : DeviceTransport.maxResponse = 4096 := rfl
    have hsimulator : maxResponse = 1048576 := rfl
    omega
  obtain ⟨r, hr, hresult, hstate⟩ := Client.over_transport (P := P)
    (device_interchangeable server.chip_fits) hshort hallows os os'
    (DeviceTransport.mk (Driver.load server.chip)) ⟨rfl, rfl, rfl⟩
  obtain ⟨r', hr', hresult', hstate'⟩ := Client.over_transport (P := P)
    (simulator_interchangeable l hroom) hshort hallows os os'
    ((SimulatorTransport.connect (.connect server.chip.simulator none none)).setLocality l)
    (.connect server.chip l)
  refine ⟨hresult, hresult', ?_, ?_⟩
  · rw [hr.sent]
    exact hstate
  · rw [hr'.received, bytes_atLocality]
    exact hstate'

theorem client_end_to_end_inTurns :
    ((inTurns.host []).run turnsCrypto ⟨DeviceTransport.mk (Driver.load
      (Server.powerOn .forTwo (true, true) ⟨fun n => UInt8.ofNat n⟩ :
        Server turnsCrypto (Bool × Bool)).chip), .none, ⟨fun _ => 0⟩⟩).1 =
      .ok [.ok [42], .ok [42], .ok [42], .err (.tpm ⟨0x918⟩)] :=
  (client_end_to_end turnsCrypto .forTwo inTurns inTurns_short (true, true) inTurns_allowed 0
    ⟨fun _ => 0⟩ ⟨fun n => UInt8.ofNat n⟩).1.trans rfl

end PurecryptoTpm
