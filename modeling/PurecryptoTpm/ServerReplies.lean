import PurecryptoTpm.Server

/-!
What the server makes of the frames of `run`, and `run` of its replies. A
frame that asks for an order gets the service's reply to it, and the reply is
read for what the service said: that the order was performed, with the handles
and parameters it has returned, that it was not, or that it is to be asked for
again.
-/

namespace PurecryptoTpm

open Exec

/-- The server answers a frame by performing an order. -/
structure Server.Serves {P : Purecrypto} {S : Type} (server : Server P S) (frame : Bytes)
    (o : Order) (encode : ServiceReply → Bytes)
    (committed : List Handle → Server P S → Server P S) : Prop where
  reply : server.reply frame = server.serve o encode committed
  transient : ∀ r : ServiceReply, TransientOutcome (.ok (encode r)) ↔ r.Transient

/-! ### Replies -/

namespace ServiceReply

/-- What can be sent in answer to a command with `n` handles in its response. -/
def Fits (n : ℕ) : ServiceReply → Prop
  | success handles params => handles.length = n ∧ params.length ≤ maxParams
  | error rc => rc ≠ 0

/-- The reply with other parameters. -/
def map (body : Bytes → Bytes) : ServiceReply → ServiceReply
  | success handles params => success handles (body params)
  | error rc => error rc

theorem commit_of_transient {α : Type} {r : ServiceReply} (h : r.Transient)
    (f : List Handle → α → α) (a : α) : r.commit f a = a := by
  cases r with
  | success handles params => exact h.elim
  | error rc => rfl

@[simp] theorem map_id (r : ServiceReply) : r.map id = r := by
  cases r <;> rfl

/-- Only an error asks for another transmission. -/
theorem transient_toReply_iff (r : ServiceReply) (tag : UInt16) (body : Bytes → Bytes) :
    TransientOutcome (.ok (r.toReply tag body)) ↔ r.Transient := by
  have hheader : ∀ tag size rc rest, TransientOutcome (.ok (responseHeader tag size rc ++ rest)) ↔
      (rc = 0x908 ∨ rc = 0x90A ∨ rc = 0x922) := by
    intro tag size rc rest
    constructor
    · rintro ⟨resp, hresp, tag', size', rc', rest', rfl, hrc⟩
      obtain ⟨-, -, rfl, -⟩ := responseHeader_inj (Except.ok.inj hresp)
      exact hrc
    · intro hrc
      exact ⟨_, rfl, tag, size, rc, rest, rfl, hrc⟩
  cases r with
  | success handles params =>
      rw [toReply, successReply, List.append_assoc, hheader]
      exact iff_of_false (by decide) id
  | error rc =>
      rw [toReply, Peer.errorReply, ← List.append_nil (responseHeader st.noSessions 10 rc), hheader]
      rfl

end ServiceReply

theorem Service.perform_fits {S : Type} (svc : Service S) (o : Order) (s : S) :
    (svc.perform o s).1.Fits o.respHandles := by
  cases hreply : (svc.perform o s).1 with
  | success handles params => exact svc.success_fits o s handles params hreply
  | error rc => exact svc.error_ne_zero o s rc hreply

section Interpret

variable {P : Purecrypto} {code : UInt32} {names : List Bytes} {n : ℕ} {r : ServiceReply}

theorem interpret_errorReply {rc : UInt32} (h : rc ≠ 0) (auth : Auth) :
    interpret P code names n (.ok (Peer.errorReply rc)) auth = (.err (.tpm ⟨rc⟩), auth) := by
  have hparse := parseResponse_of_rc P code names n auth st.noSessions 10 h []
  rw [List.append_nil] at hparse
  rw [interpret_ok]
  exact hparse

/-- A reply without an authorization area. -/
theorem interpret_bare {body : Bytes → Bytes} (h : r.Fits n) (hn : n ≤ 1)
    (hbody : ∀ params, params.length ≤ maxParams → (body params).length ≤ 65536) :
    interpret P code names n (.ok (r.toReply st.noSessions body)) .none =
      ((r.map body).outcome, .none) := by
  cases r with
  | error rc => exact interpret_errorReply h .none
  | success handles params =>
      obtain ⟨hcount, hparams⟩ := h
      have hlen := hbody params hparams
      have hreading : Reading n (successReply st.noSessions handles (body params))
          ⟨⟨handles, body params⟩, none⟩ := by
        refine .bare (by decide) hcount ?_
        rw [length_successReply]
        omega
      rw [interpret_ok]
      exact parseResponse_ok_iff.mpr ⟨_, hreading, trivial, rfl, rfl⟩

/-- A reply to a password. -/
theorem interpret_acknowledged (h : r.Fits n) (hn : n ≤ 1) (pw : Bytes) :
    interpret P code names n
        (.ok (r.toReply st.sessions fun params => authorizedBody params passwordAck))
        (.password pw) = (r.outcome, .password pw) := by
  cases r with
  | error rc => exact interpret_errorReply h (.password pw)
  | success handles params =>
      obtain ⟨hcount, hparams⟩ := h
      have hmax : maxParams = 3072 := rfl
      have hreading := @Reading.authorized n handles params [] passwordAck hcount
        ⟨Nat.zero_lt_succ _, Nat.zero_lt_succ _⟩ (by
          simp only [length_successReply, authorizedBody, responseEntry, passwordAck,
            List.length_append, length_toBeBytes, length_tpm2bBytes, size_uint32,
            List.length_singleton, List.length_nil]
          omega)
      rw [List.append_nil] at hreading
      rw [interpret_ok]
      exact parseResponse_ok_iff.mpr ⟨_, hreading, trivial, rfl, rfl⟩

end Interpret

/-! ### Frames without a session -/

namespace Request

theorem Fits.perform_fits {S : Type} {q : Request} (h : q.Fits) (svc : Service S)
    (requester : Requester) (s : S) :
    (svc.perform (q.order requester) s).1.Fits q.respHandles := by
  rw [h.respHandles]
  exact svc.perform_fits (q.order requester) s

/-- The request as a call over a session. -/
def call (q : Request) (authValue : Bytes) : Call where
  code := q.code
  handles := q.handles
  names := q.names
  params := q.params
  respHandles := q.respHandles
  authValue := authValue

end Request

namespace Server

variable {P : Purecrypto} {S : Type} {q : Request}

theorem serves_anyone (h : q.Fits) (self : Server P S) :
    Serves self (commandFrame st.noSessions q.code (commandBody q.handles none q.params))
      (q.order .anyone) (ServiceReply.toReply st.noSessions id)
      fun _ => closing q.code q.params none where
  reply := by
    have hentry : EntryFits st.noSessions none := ⟨fun _ => rfl, by simp⟩
    have hbody : (commandBody q.handles none q.params).length < 4294967286 := by
      have hlen := h.length
      rw [commandBody, List.length_append, length_handleArea]
      omega
    rw [reply, decodeCommand_commandFrame h.handles hentry hbody]
    exact if_neg h.plain
  transient r := r.transient_toReply_iff _ _

theorem length_body_entry {entry : AuthCommand} (h : q.Fits)
    (hnonce : entry.nonceCaller.length < 65536) (hhmac : entry.hmac.length < 65536) :
    (commandBody q.handles (some entry) q.params).length < 4294967286 := by
  have hlen := h.length
  simp only [commandBody, commandEntry, List.length_append, length_handleArea, length_toBeBytes,
    length_tpm2bBytes, size_uint32, List.length_singleton]
  omega

theorem serves_password (h : q.Fits) (self : Server P S) {pw : Bytes} (hpw : pw.length < 65536) :
    Serves self
      (commandFrame st.sessions q.code (commandBody q.handles (some (passwordEntry pw)) q.params))
      (q.order (.password pw))
      (ServiceReply.toReply st.sessions fun params => authorizedBody params passwordAck)
      fun _ => closing q.code q.params none where
  reply := by
    have hnonce : (passwordEntry pw).nonceCaller.length < 65536 := Nat.zero_lt_succ _
    rw [reply, decodeCommand_commandFrame h.handles (.some hnonce hpw)
      (length_body_entry h hnonce hpw)]
    rfl
  transient r := r.transient_toReply_iff _ _

end Server

/-! ### Frames over a session -/

/-- The host's end of a session the server shares. -/
structure Session.Holds (s : Session) (shared : Shared) : Prop where
  digest : Digest.ofAlg s.hashAlg = some shared.digest
  sessionKey : s.sessionKey = []
  boundName : s.boundName = []
  nonceTpm : s.nonceTpm = shared.nonceTpm

namespace Server

variable {P : Purecrypto} {S : Type} {q : Request} {s : Session} {shared : Shared}
  {authValue : Bytes} {self : Server P S}

/-- The request as a call the peer of a session has one answer to. -/
def peerCall (q : Request) (authValue : Bytes) (attributes : SessionAttributes)
    (directory : Directory) (answer : Answer) : PeerCall where
  call := q.call authValue
  attributes := attributes
  directory := directory
  script _ := answer

/-- Host and server face each other over every session they share. -/
theorem facing (h : q.Fits) (hholds : s.Holds shared)
    (hauthorized : q.Authorized (self.service.directory self.state) authValue s.attributes)
    {answer : Answer} (hanswer : answer.Sendable shared.digest q.respHandles) :
    Facing (peerCall q authValue s.attributes (self.service.directory self.state) answer) s
      (self.peer s.handle shared answer) where
  agrees :=
    { handle := rfl
      digest := hholds.digest
      sessionKey := hholds.sessionKey
      boundName := hholds.boundName
      nonceTpm := hholds.nonceTpm }
  admissible :=
    { count := h.handles
      names := hauthorized.names
      auth := hauthorized.auth
      attributes := hauthorized.attributes
      frame := by
        have hlen := h.length
        have hsize := shared.digest.size_lt
        show 23 + 4 * q.handles.length + 2 * shared.digest.size + q.params.length < _
        omega
      answers := fun _ => hanswer }
  attributes := rfl
  directory := rfl
  script := rfl

/-- The command the server reads off a frame of the request. -/
def commandOver (P : Purecrypto) (q : Request) (authValue : Bytes) (d : Digest) (s : Session)
    (nonce : Bytes) : Command :=
  commandOf st.sessions q.code q.handles
    (some (sessionEntry P d s authValue q.code q.names q.params nonce)) q.params

theorem decode_frame (h : q.Fits) (d : Digest) {nonce : Bytes} (hnonce : nonce.length = d.size) :
    decodeCommand commandHandles ((q.call authValue).frame P d s nonce) =
      some (commandOver P q authValue d s nonce) := by
  have hlt := d.size_lt
  have hcaller : (sessionEntry P d s authValue q.code q.names q.params nonce).nonceCaller.length <
      65536 := by
    rw [sessionEntry, hnonce]
    exact hlt
  have hhmac : (sessionEntry P d s authValue q.code q.names q.params nonce).hmac.length <
      65536 := by
    rw [sessionEntry, commandHmac, P.length_hmac]
    exact hlt
  exact decodeCommand_commandFrame h.handles (.some hcaller hhmac)
    (length_body_entry h hcaller hhmac)

/-- A command under an authorization that is not a password is for the session
it names. -/
theorem reply_of_area {frame : Bytes} {cmd : Command} {size : UInt32} {entry : AuthCommand}
    (hcmd : decodeCommand commandHandles frame = some cmd) (harea : cmd.area = some (size, entry))
    (hpw : entry.sessionHandle ≠ ⟨rh.pw⟩) :
    self.reply frame = (self.sessions entry.sessionHandle).elim (Peer.errorReply 0x918, self)
      fun shared =>
        if (self.peer entry.sessionHandle shared (.error 0x101)).verifies cmd entry then
          self.serveSession cmd entry shared
        else (Peer.errorReply 0x98E, self) := by
  simp only [reply, hcmd, harea, if_neg hpw]
  cases self.sessions entry.sessionHandle <;> rfl

theorem commandOver_reads (directory : Directory) (answer : Answer) (d : Digest) (nonce : Bytes) :
    (peerCall q authValue s.attributes directory answer).Reads P d s nonce
      (commandOver P q authValue d s nonce) :=
  ⟨rfl, rfl, rfl, _, rfl⟩

/-- A session that is not there is refused. -/
theorem reply_unknown (h : q.Fits) (authValue : Bytes) {d : Digest} {nonce : Bytes}
    (hnonce : nonce.length = d.size) (hpw : s.handle ≠ ⟨rh.pw⟩)
    (hunknown : self.sessions s.handle = none) :
    self.reply ((q.call authValue).frame P d s nonce) = (Peer.errorReply 0x918, self) := by
  rw [reply_of_area (decode_frame h d hnonce) rfl hpw]
  simp [sessionEntry, hunknown]

/-- The reply over a session, for what the service says. -/
def encodeOver (self : Server P S) (q : Request) (authValue : Bytes) (s : Session)
    (shared : Shared) (nonce : Bytes) (r : ServiceReply) : Bytes :=
  ((self.peer s.handle shared
    (r.answer (self.os.drawn shared.digest.size) s.attributes)).answer
      (commandOver P q authValue shared.digest s nonce)
      (sessionEntry P shared.digest s authValue q.code q.names q.params nonce)).1

theorem serves_session (h : q.Fits) (hholds : s.Holds shared) (hpw : s.handle ≠ ⟨rh.pw⟩)
    (hshared : self.sessions s.handle = some shared)
    (hauthorized : q.Authorized (self.service.directory self.state) authValue s.attributes)
    {nonce : Bytes} (hnonce : nonce.length = shared.digest.size) :
    Serves self ((q.call authValue).frame P shared.digest s nonce) (q.order .session)
      (self.encodeOver q authValue s shared nonce)
      fun _ self => closing q.code q.params (some (s.handle, s.attributes))
        (self.roll s.handle shared.digest) where
  reply := by
    have hfacing : Facing (peerCall q authValue s.attributes (self.service.directory self.state)
        (.error 0x101)) s (self.peer s.handle shared (.error 0x101)) := by
      refine facing h hholds hauthorized ?_
      rw [Answer.Sendable]
      decide
    have hverifies : (self.peer s.handle shared (.error 0x101)).verifies
        (commandOver P q authValue shared.digest s nonce)
        (sessionEntry P shared.digest s authValue q.code q.names q.params nonce) = true :=
      hfacing.verifies (commandOver_reads _ _ shared.digest nonce)
    rw [reply_of_area (decode_frame h shared.digest hnonce) rfl hpw]
    show Option.elim (self.sessions s.handle) _ _ = _
    rw [hshared, Option.elim_some]
    exact if_pos hverifies
  transient r := by
    rw [encodeOver, answer_transient_iff]
    cases r with
    | success handles params => rfl
    | error rc => rfl

/-- The host takes the reply for what the service says, and holds the nonce
that comes next if the server has rolled it. -/
theorem interpret_over (h : q.Fits) (hholds : s.Holds shared)
    (hauthorized : q.Authorized (self.service.directory self.state) authValue s.attributes)
    {r : ServiceReply} (hfits : r.Fits q.respHandles) (nonce : Bytes) :
    ∃ s', interpret P q.code q.names q.respHandles
        (.ok (self.encodeOver q authValue s shared nonce r))
        (.session { s with nonceCaller := nonce } authValue) =
          (r.outcome, .session s' authValue) ∧ s'.handle = s.handle ∧
      s'.Holds (r.commit (fun _ shared =>
        { shared with nonceTpm := self.os.drawn shared.digest.size }) shared) := by
  have hanswer : (r.answer (self.os.drawn shared.digest.size) s.attributes).Sendable
      shared.digest q.respHandles := by
    cases r with
    | error rc => exact hfits
    | success handles params =>
        obtain ⟨hcount, hparams⟩ := hfits
        have hone := h.respHandles_le
        have hmax : maxParams = 3072 := rfl
        have hsize := shared.digest.size_lt
        refine ⟨hcount, ?_, ?_⟩ <;> rw [OsRng.length_drawn] <;> omega
  obtain ⟨s', hinterpret, hagrees⟩ := (facing h hholds hauthorized hanswer).interpret
    (commandOver_reads _ _ shared.digest nonce)
  refine ⟨s', hinterpret.trans ?_, ?_, ?_⟩
  · cases r with
    | success handles params => rfl
    | error rc => rfl
  · rw [hagrees.handle]
    cases r with
    | success handles params => rfl
    | error rc => rfl
  · cases r with
    | success handles params =>
        exact ⟨hagrees.digest, hagrees.sessionKey, hagrees.boundName, hagrees.nonceTpm⟩
    | error rc =>
        exact ⟨hagrees.digest, hagrees.sessionKey, hagrees.boundName, hagrees.nonceTpm⟩

end Server

/-! ### The frame that starts a session -/

/-- No digest is longer than 64 bytes. -/
theorem Digest.size_le (d : Digest) : d.size ≤ 64 := by
  cases d <;> decide

/-- The parameters of a session start. -/
def sessionStart (nonceCaller : Bytes) (hashAlg : Alg) : Bytes :=
  marshal hashAlg (marshal SymDefObject.null
    (tpm2bBytes nonceCaller ++ tpm2bBytes [] ++ [se.hmac]))

theorem readSessionStart_parses : Parses Reader.between Malformed readSessionStart
    (fun hashAlg w => ∃ nonceCaller : Bytes, nonceCaller.length < 65536 ∧
      w = sessionStart nonceCaller hashAlg) := by
  refine (Reader.tpm2b_parses.bind fun nonceCaller => Reader.tpm2b_parses.bind fun salt =>
    Reader.u8_parses.bind fun kind => readSymDefObject_parses.bind fun symmetric =>
      Reader.alg_parses.bind fun hashAlg => Parses.ite (Parses.pure hashAlg)
        (Parses.throw ⟨_, rfl⟩)).congr fun hashAlg w => ?_
  have hmarshal : ∀ nonceCaller : Bytes, sessionStart nonceCaller hashAlg =
      tpm2bBytes nonceCaller ++ (tpm2bBytes [] ++ (toBeBytes se.hmac ++
        (toBytes SymDefObject.null ++ toBytes hashAlg))) := by
    intro nonceCaller
    rw [sessionStart, marshal_eq, marshal_eq]
    simp [toBeBytes_uint8]
  constructor
  · rintro ⟨nonceCaller, _, _, ⟨hnonce, rfl⟩, ⟨salt, _, _, ⟨-, rfl⟩, ⟨kind, _, _, rfl,
      ⟨symmetric, _, _, ⟨-, rfl⟩, ⟨alg, _, _, ⟨-, rfl⟩, hrest, rfl⟩, rfl⟩, rfl⟩, rfl⟩, rfl⟩
    split at hrest
    · case isTrue hplain =>
        obtain ⟨rfl, rfl, rfl⟩ := hplain
        obtain ⟨rfl, rfl⟩ := hrest
        refine ⟨nonceCaller, hnonce, ?_⟩
        rw [hmarshal, List.append_nil]
    · exact hrest.elim
  · rintro ⟨nonceCaller, hnonce, rfl⟩
    have hempty : ([] : Bytes).length < 65536 := Nat.zero_lt_succ _
    refine ⟨nonceCaller, _, _, ⟨hnonce, rfl⟩, ⟨[], _, _, ⟨hempty, rfl⟩, ⟨se.hmac, _, _, rfl,
      ⟨SymDefObject.null, _, _, ⟨rfl, rfl⟩, ⟨hashAlg, _, [], ⟨trivial, rfl⟩, ?_, rfl⟩, rfl⟩, rfl⟩,
      rfl⟩, ?_⟩
    · beta_reduce
      rw [if_pos (And.intro rfl (And.intro rfl rfl))]
      exact ⟨rfl, rfl⟩
    · rw [hmarshal, List.append_nil]

namespace Server

variable {P : Purecrypto} {S : Type}

/-- The frame that starts a session. -/
def startFrame (nonceCaller : Bytes) (hashAlg : Alg) : Bytes :=
  commandFrame st.noSessions cc.startAuthSession
    (commandBody [⟨rh.null⟩, ⟨rh.null⟩] none (sessionStart nonceCaller hashAlg))

theorem serves_start (self : Server P S) {nonceCaller : Bytes} (hnonce : nonceCaller.length < 65536)
    {hashAlg : Alg} {d : Digest} (hd : Digest.ofAlg hashAlg = some d) :
    Serves self (startFrame nonceCaller hashAlg) (.openSession hashAlg)
      (ServiceReply.toReply st.noSessions fun _ => tpm2bBytes (self.os.drawn d.size))
      (start d) where
  reply := by
    have hentry : EntryFits st.noSessions none := ⟨fun _ => rfl, by simp⟩
    have hbody : (commandBody [⟨rh.null⟩, ⟨rh.null⟩] none
        (sessionStart nonceCaller hashAlg)).length < 4294967286 := by
      have hnull : (toBytes SymDefObject.null).length = 2 := rfl
      simp only [commandBody, sessionStart, marshal_eq, toBytes_alg, List.length_append,
        length_handleArea, length_tpm2bBytes, length_toBeBytes, size_uint16, hnull,
        List.length_cons, List.length_nil]
      omega
    have hread : readWhole readSessionStart (sessionStart nonceCaller hashAlg) = .ok hashAlg :=
      (readWhole_ok_iff readSessionStart_parses _ _).mpr ⟨nonceCaller, hnonce, rfl⟩
    have hcount : [Handle.mk rh.null, ⟨rh.null⟩].length = commandHandles cc.startAuthSession := rfl
    rw [reply, startFrame, decodeCommand_commandFrame hcount hentry hbody]
    show serveStart (commandOf st.noSessions cc.startAuthSession _ none _) _ = _
    simp only [serveStart, commandOf, hread, hd]
  transient r := r.transient_toReply_iff _ _

end Server

end PurecryptoTpm
