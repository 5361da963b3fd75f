import PurecryptoTpm.Exchange
import PurecryptoTpm.Framing

/-!
A session between the host and a TPM that follows the protocol. The peer is
written from the module documentation of sessions alone: it reads frames by
the command grammar, checks the command HMAC, and answers as it pleases, with
a response HMAC and a new nonce on success and with a bare error header
otherwise. As long as both ends agree on the session to begin with, they agree
after every call, whatever mixture of answers the peer chooses.
-/

namespace PurecryptoTpm

/-- The Name of whatever a handle refers to, and the auth value of a command by
its first handle, if it has one. -/
structure Directory where
  nameOf : Handle → Bytes
  authOf : Option Handle → Bytes

/-- What the peer makes of a command. -/
inductive Answer where
  | success (handles : List Handle) (params nonceTpm : Bytes) (attributes : SessionAttributes)
  | error (rc : UInt32)
  deriving DecidableEq

/-- The peer's end of a session. `script` holds its answers to the frames of
the current call, and `verdicts` whether their HMACs verified. -/
structure Peer (P : Purecrypto) where
  handle : Handle
  digest : Digest
  sessionKey : Bytes
  boundName : Bytes
  nonceTpm : Bytes
  handleCount : UInt32 → ℕ
  directory : Directory
  script : ℕ → Answer
  verdicts : List Bool

namespace Peer

variable {P : Purecrypto}

/-- `sessionKey || authValue`, without the auth value of the bind entity. -/
def key (peer : Peer P) (handles : List Handle) : Bytes :=
  match handles with
  | [] => peer.sessionKey ++ peer.directory.authOf none
  | h :: _ =>
      if peer.boundName ≠ [] ∧ peer.directory.nameOf h = peer.boundName then peer.sessionKey
      else peer.sessionKey ++ peer.directory.authOf (some h)

/-- `HMAC(key, cpHash || nonceCaller || nonceTPM || attributes)`. -/
def commandHmac (peer : Peer P) (cmd : Command) (entry : AuthCommand) : Bytes :=
  let names := (cmd.handles.map peer.directory.nameOf).flatten
  let cp := P.hash peer.digest (toBeBytes cmd.code ++ names ++ cmd.params)
  P.hmac peer.digest (peer.key cmd.handles)
    (cp ++ entry.nonceCaller ++ peer.nonceTpm ++ [entry.attributes.raw])

/-- `HMAC(key, rpHash || nonceTPM' || nonceCaller || attributes)`. -/
def responseHmac (peer : Peer P) (cmd : Command) (entry : AuthCommand) (params nonceTpm : Bytes)
    (attributes : SessionAttributes) : Bytes :=
  let rp := P.hash peer.digest (toBeBytes (0 : UInt32) ++ toBeBytes cmd.code ++ params)
  P.hmac peer.digest (peer.key cmd.handles)
    (rp ++ nonceTpm ++ entry.nonceCaller ++ [attributes.raw])

/-- A command is authorized by this session, asks for no parameter encryption,
and its HMAC is right. -/
def verifies (peer : Peer P) (cmd : Command) (entry : AuthCommand) : Bool :=
  entry.sessionHandle == peer.handle &&
    entry.attributes.raw &&& (SessionAttributes.decrypt ||| SessionAttributes.encrypt) == 0 &&
    entry.hmac == peer.commandHmac cmd entry

def errorReply (rc : UInt32) : Bytes := responseHeader st.noSessions 10 rc

/-- The answer to a verified command. Only a success rolls the nonce. -/
def answer (peer : Peer P) (cmd : Command) (entry : AuthCommand) : Bytes × Peer P :=
  match peer.script peer.verdicts.length with
  | .success handles params nonceTpm attributes =>
      (successReply st.sessions handles (authorizedBody params
          { nonceTpm := nonceTpm
            attributes := attributes
            hmac := peer.responseHmac cmd entry params nonceTpm attributes }),
        { peer with nonceTpm := nonceTpm, verdicts := peer.verdicts ++ [true] })
  | .error rc => (errorReply rc, { peer with verdicts := peer.verdicts ++ [true] })

/-- The reply to a frame. -/
def reply (frame : Bytes) (peer : Peer P) : Bytes × Peer P :=
  match decodeCommand peer.handleCount frame with
  | some cmd =>
      match cmd.area with
      | some (_, entry) =>
          if peer.verifies cmd entry then peer.answer cmd entry
          else (errorReply 0x98E, { peer with verdicts := peer.verdicts ++ [false] })
      | none => (errorReply 0x125, { peer with verdicts := peer.verdicts ++ [false] })
  | none => (errorReply 0x142, { peer with verdicts := peer.verdicts ++ [false] })

instance : Transport (Peer P) where
  transmit frame peer := (.ok (peer.reply frame).1, (peer.reply frame).2)

end Peer

/-! ### Agreement -/

/-- Both ends hold the same session. -/
structure Agrees {P : Purecrypto} (s : Session) (peer : Peer P) : Prop where
  handle : s.handle = peer.handle
  digest : Digest.ofAlg s.hashAlg = some peer.digest
  sessionKey : s.sessionKey = peer.sessionKey
  boundName : s.boundName = peer.boundName
  nonceTpm : s.nonceTpm = peer.nonceTpm

/-- A call of the host, the attributes it sets on the session, what its
handles refer to, and the answers the peer has in store. -/
structure PeerCall where
  call : Call
  attributes : SessionAttributes
  directory : Directory
  script : ℕ → Answer

/-- Answers that can be sent: handles as many as the host expects, a nonce and
a reply that fit their length fields, and no error code zero. -/
def Answer.Sendable (d : Digest) (respHandles : ℕ) : Answer → Prop
  | success handles params nonceTpm _ =>
      handles.length = respHandles ∧ nonceTpm.length ≤ 65535 ∧
        19 + 4 * handles.length + params.length + nonceTpm.length + d.size < 4294967296
  | error rc => rc ≠ 0

/-- The host names its handles rightly and knows the auth value of the command,
does not ask for parameter encryption, and builds no frame of 2^32 bytes. -/
structure PeerCall.Admissible (d : Digest) (handleCount : UInt32 → ℕ) (pc : PeerCall) : Prop where
  count : pc.call.handles.length = handleCount pc.call.code
  names : pc.call.names = pc.call.handles.map pc.directory.nameOf
  auth : pc.call.authValue = pc.directory.authOf pc.call.handles.head?
  attributes : pc.attributes.raw &&&
    (SessionAttributes.decrypt ||| SessionAttributes.encrypt) = 0
  frame : 23 + 4 * pc.call.handles.length + 2 * d.size + pc.call.params.length < 4294967296
  answers : ∀ i, (pc.script i).Sendable d pc.call.respHandles

/-- The two ends at the start of an admissible call. -/
structure Facing {P : Purecrypto} (pc : PeerCall) (s : Session) (peer : Peer P) : Prop where
  agrees : Agrees s peer
  admissible : pc.Admissible peer.digest peer.handleCount
  attributes : s.attributes = pc.attributes
  directory : peer.directory = pc.directory
  script : peer.script = pc.script

section Facing

variable {P : Purecrypto} {pc : PeerCall} {s : Session} {peer : Peer P}

/-- Host and peer select the same key, bound or not. -/
theorem Facing.key (h : Facing pc s peer) :
    s.hmacKey pc.call.authValue (objectName pc.call.names) = peer.key pc.call.handles := by
  rw [h.admissible.names, h.admissible.auth, ← h.directory]
  cases pc.call.handles with
  | nil => simp [Session.hmacKey, objectName, Peer.key, h.agrees.sessionKey]
  | cons handle handles =>
      rw [Session.hmacKey, objectName, Peer.key, h.agrees.boundName, h.agrees.sessionKey]
      by_cases hbound : peer.boundName ≠ [] ∧ peer.directory.nameOf handle = peer.boundName
      · obtain ⟨hne, hname⟩ := hbound
        simp [hne, hname]
      · rw [if_neg hbound]
        have hunbound : (!peer.boundName.isEmpty &&
            peer.boundName == peer.directory.nameOf handle) = false := by
          rw [Bool.eq_false_iff]
          intro hbound'
          simp only [Bool.and_eq_true, Bool.not_eq_true', List.isEmpty_eq_false_iff,
            beq_iff_eq] at hbound'
          exact hbound ⟨hbound'.1, hbound'.2.symm⟩
        simp [hunbound]

/-- The entry the host puts on the call's command. -/
def PeerCall.entry (P : Purecrypto) (pc : PeerCall) (d : Digest) (s : Session) (nonce : Bytes) :
    AuthCommand :=
  sessionEntry P d s pc.call.authValue pc.call.code pc.call.names pc.call.params nonce

/-- The command the peer reads off the host's frame. -/
def PeerCall.Reads (P : Purecrypto) (pc : PeerCall) (d : Digest) (s : Session) (nonce : Bytes)
    (cmd : Command) : Prop :=
  cmd.code = pc.call.code ∧ cmd.handles = pc.call.handles ∧ cmd.params = pc.call.params ∧
    ∃ size, cmd.area = some (size, pc.entry P d s nonce)

theorem Facing.decode (h : Facing pc s peer) {nonce : Bytes}
    (hnonce : nonce.length = peer.digest.size) : ∃ cmd,
    decodeCommand peer.handleCount (pc.call.frame P peer.digest s nonce) = some cmd ∧
      pc.Reads P peer.digest s nonce cmd := by
  have hhmac : (pc.entry P peer.digest s nonce).hmac.length = peer.digest.size :=
    P.length_hmac _ _ _
  have hcaller : (pc.entry P peer.digest s nonce).nonceCaller.length = peer.digest.size := hnonce
  have hlt := peer.digest.size_lt
  have hbody : (commandBody pc.call.handles (some (pc.entry P peer.digest s nonce))
      pc.call.params).length < 4294967286 := by
    have hframe := h.admissible.frame
    simp only [commandBody, commandEntry, List.length_append, length_handleArea, length_toBeBytes,
      length_tpm2bBytes, size_uint32, List.length_singleton]
    omega
  have hentry : EntryFits st.sessions (some (pc.entry P peer.digest s nonce)) :=
    .some (by omega) (by omega)
  exact ⟨_, decodeCommand_commandFrame h.admissible.count hentry hbody, rfl, rfl, rfl, _, rfl⟩

/-- Every command HMAC the host sends verifies at the peer. -/
theorem Facing.verifies (h : Facing pc s peer) {nonce : Bytes} {cmd : Command}
    (hreads : pc.Reads P peer.digest s nonce cmd) :
    peer.verifies cmd (pc.entry P peer.digest s nonce) = true := by
  obtain ⟨hcode, hhandles, hparams, -⟩ := hreads
  have hhmac : (pc.entry P peer.digest s nonce).hmac =
      peer.commandHmac cmd (pc.entry P peer.digest s nonce) := by
    have hpreimage : (cpHashParts pc.call.code pc.call.names pc.call.params).flatten =
        toBeBytes cmd.code ++ (cmd.handles.map peer.directory.nameOf).flatten ++ cmd.params := by
      rw [hcode, hhandles, hparams, h.directory, ← h.admissible.names]
      simp [cpHashParts]
    rw [Peer.commandHmac, hhandles, ← h.key, ← hhandles, ← hpreimage, ← h.agrees.nonceTpm]
    rfl
  have hattributes := h.admissible.attributes
  rw [← h.attributes] at hattributes
  simp only [Peer.verifies, Bool.and_eq_true, beq_iff_eq]
  exact ⟨⟨h.agrees.handle, hattributes⟩, hhmac⟩

/-- What the peer does with the host's frame. -/
theorem Facing.transmit (h : Facing pc s peer) {nonce : Bytes}
    (hnonce : nonce.length = peer.digest.size) : ∃ cmd, pc.Reads P peer.digest s nonce cmd ∧
      Transport.transmit (pc.call.frame P peer.digest s nonce) peer =
        (.ok (peer.answer cmd (pc.entry P peer.digest s nonce)).1,
          (peer.answer cmd (pc.entry P peer.digest s nonce)).2) := by
  obtain ⟨cmd, hcmd, hreads⟩ := h.decode hnonce
  obtain ⟨size, harea⟩ := hreads.2.2.2
  have hreply : peer.reply (pc.call.frame P peer.digest s nonce) =
      peer.answer cmd (pc.entry P peer.digest s nonce) := by
    simp only [Peer.reply, hcmd, harea, h.verifies hreads, if_true]
  refine ⟨cmd, hreads, ?_⟩
  rw [← hreply]
  rfl

end Facing

/-! ### One call -/

/-- The answers that make the host send again. -/
def Answer.Transient : Answer → Prop
  | success _ _ _ _ => False
  | error rc => rc = 0x908 ∨ rc = 0x90A ∨ rc = 0x922

/-- The answer, counted from zero, that ends a call. -/
def Settles (script : ℕ → Answer) (i : ℕ) : Prop :=
  i ≤ maxTransientRetries ∧ (∀ j < i, (script j).Transient) ∧
    (i < maxTransientRetries → ¬ (script i).Transient)

/-- What the call returns when an answer ends it. -/
def Answer.outcome : Answer → Outcome Error RawResponse
  | success handles params _ _ => .ok { handles, params }
  | error rc => .err (.tpm ⟨rc⟩)

section Call

variable {P : Purecrypto} {pc : PeerCall} {s : Session} {peer : Peer P}

theorem Facing.withVerdicts (h : Facing pc s peer) (verdicts : List Bool) :
    Facing pc s ({ peer with verdicts := verdicts } : Peer P) where
  agrees := ⟨h.agrees.handle, h.agrees.digest, h.agrees.sessionKey, h.agrees.boundName,
    h.agrees.nonceTpm⟩
  admissible := h.admissible
  attributes := h.attributes
  directory := h.directory
  script := h.script

/-- A reply is transient exactly if the answer is. -/
theorem answer_transient_iff (peer : Peer P) (cmd : Command) (entry : AuthCommand) :
    TransientOutcome (.ok (peer.answer cmd entry).1) ↔
      (peer.script peer.verdicts.length).Transient := by
  rw [Peer.answer]
  cases peer.script peer.verdicts.length with
  | success handles params nonceTpm attributes =>
      simp only [Answer.Transient, iff_false]
      rintro ⟨resp, hresp, tag, size, rc, rest, hreply, hrc⟩
      rw [← Except.ok.inj hresp, successReply, List.append_assoc] at hreply
      obtain ⟨-, -, rfl, -⟩ := responseHeader_inj hreply
      rcases hrc with hrc | hrc | hrc <;> exact absurd hrc (by decide)
  | error rc =>
      constructor
      · rintro ⟨resp, hresp, tag, size, rc', rest, hreply, hrc⟩
        have hheader : responseHeader st.noSessions 10 rc ++ [] =
            responseHeader tag size rc' ++ rest := by
          rw [List.append_nil, ← hreply]
          exact Except.ok.inj hresp
        obtain ⟨-, -, rfl, -⟩ := responseHeader_inj hheader
        exact hrc
      · intro hrc
        exact ⟨_, rfl, st.noSessions, 10, rc, [], (List.append_nil _).symm, hrc⟩

/-- A transient answer changes nothing but the record of verdicts. -/
theorem answer_of_transient {peer : Peer P} {cmd : Command} {entry : AuthCommand}
    (h : (peer.script peer.verdicts.length).Transient) :
    (peer.answer cmd entry).2 = { peer with verdicts := peer.verdicts ++ [true] } := by
  rw [Peer.answer]
  cases hanswer : peer.script peer.verdicts.length with
  | success handles params nonceTpm attributes => simp [hanswer, Answer.Transient] at h
  | error rc => rfl

theorem answer_verdicts (peer : Peer P) (cmd : Command) (entry : AuthCommand) :
    (peer.answer cmd entry).2.verdicts = peer.verdicts ++ [true] := by
  rw [Peer.answer]
  cases peer.script peer.verdicts.length <;> rfl

/-- The size of the digests and the handle counts are fixed. -/
theorem answer_fixed (peer : Peer P) (cmd : Command) (entry : AuthCommand) :
    (peer.answer cmd entry).2.digest = peer.digest ∧
      (peer.answer cmd entry).2.handleCount = peer.handleCount := by
  rw [Peer.answer]
  cases peer.script peer.verdicts.length <;> exact ⟨rfl, rfl⟩

/-- Frames resent to the peer all verify, and leave its session as it is. -/
theorem Facing.resent (h : Facing pc s peer) (hfresh : peer.verdicts = []) {nonce : Bytes}
    (hnonce : nonce.length = peer.digest.size) {k : ℕ} {t : Peer P}
    (hresent : Resent (pc.call.frame P peer.digest s nonce) k peer t) :
    t = { peer with verdicts := List.replicate k true } ∧ ∀ j < k, (pc.script j).Transient := by
  -- a transient answer leaves the peer's session alone, so the host faces it again each time
  generalize hframe : pc.call.frame P peer.digest s nonce = frame at hresent
  induction hresent with
  | none peer =>
      refine ⟨?_, fun j hj => absurd hj (Nat.not_lt_zero j)⟩
      rw [List.replicate_zero, ← hfresh]
  | @more k peer t _ htransient ih =>
      obtain ⟨rfl, hbefore⟩ := ih h hfresh hnonce hframe
      obtain ⟨cmd, -, htransmit⟩ := (h.withVerdicts (List.replicate k true)).transmit hnonce
      have htransmit : Transport.transmit frame
          ({ peer with verdicts := List.replicate k true } : Peer P) = _ := hframe ▸ htransmit
      rw [htransmit] at htransient ⊢
      have hanswer := (answer_transient_iff _ _ _).mp htransient
      rw [answer_of_transient hanswer]
      simp only [List.length_replicate, h.script] at hanswer
      refine ⟨by rw [List.replicate_succ'], fun j hj => ?_⟩
      rcases Nat.lt_succ_iff_lt_or_eq.mp hj with hlt | rfl
      · exact hbefore j hlt
      · exact hanswer

/-- The host takes the answer for what it is, and both ends hold the same nonce. -/
theorem Facing.interpret (h : Facing pc s peer) {nonce : Bytes} {cmd : Command}
    (hreads : pc.Reads P peer.digest s nonce cmd) :
    ∃ s', PurecryptoTpm.interpret P pc.call.code pc.call.names pc.call.respHandles
        (.ok (peer.answer cmd (pc.entry P peer.digest s nonce)).1)
        (.session { s with nonceCaller := nonce } pc.call.authValue) =
      ((pc.script peer.verdicts.length).outcome, .session s' pc.call.authValue) ∧
      Agrees s' (peer.answer cmd (pc.entry P peer.digest s nonce)).2 := by
  have hsendable := h.admissible.answers peer.verdicts.length
  rw [interpret_ok, Peer.answer, h.script]
  cases hanswer : pc.script peer.verdicts.length with
  | error rc =>
      -- a bare header with a code is the TPM's error, and no nonce is rolled
      rw [hanswer] at hsendable
      refine ⟨{ s with nonceCaller := nonce }, ?_, ?_⟩
      · have hparse := parseResponse_of_rc P pc.call.code pc.call.names pc.call.respHandles
          (.session { s with nonceCaller := nonce } pc.call.authValue) st.noSessions 10 hsendable []
        rw [List.append_nil] at hparse
        exact hparse
      · exact ⟨h.agrees.handle, h.agrees.digest, h.agrees.sessionKey, h.agrees.boundName,
          h.agrees.nonceTpm⟩
  | success handles params nonceTpm attributes =>
      rw [hanswer] at hsendable
      obtain ⟨hcount, hnonceTpm, hsize⟩ := hsendable
      obtain ⟨hcode, hhandles, -, -⟩ := hreads
      have hhmac : (peer.responseHmac cmd (pc.entry P peer.digest s nonce) params nonceTpm
          attributes).length = peer.digest.size := P.length_hmac _ _ _
      have hlt := peer.digest.size_lt
      have hreading := @Reading.authorized pc.call.respHandles handles params []
        { nonceTpm := nonceTpm
          attributes := attributes
          hmac := peer.responseHmac cmd (pc.entry P peer.digest s nonce) params nonceTpm
            attributes }
        hcount ⟨Nat.lt_succ_of_le hnonceTpm, by rw [hhmac]; exact hlt⟩ (by
          simp only [length_successReply, authorizedBody, responseEntry, List.length_append,
            length_toBeBytes, length_tpm2bBytes, size_uint32, List.length_singleton, hhmac,
            List.length_nil]
          omega)
      rw [List.append_nil] at hreading
      refine ⟨{ s with nonceCaller := nonce, nonceTpm := nonceTpm }, ?_, ?_⟩
      -- the entry is checked against the nonce it brings, which both ends then hold
      · refine parseResponse_ok_iff.mpr ⟨_, hreading, ?_, rfl, rfl⟩
        rintro _ ⟨rfl⟩
        refine ⟨peer.digest, h.agrees.digest, ?_⟩
        have hpreimage : (rpHashParts 0 pc.call.code params).flatten =
            toBeBytes (0 : UInt32) ++ toBeBytes cmd.code ++ params := by
          rw [hcode]
          simp [rpHashParts]
        have hkey := h.key
        rw [Peer.responseHmac, hhandles, ← hkey, ← hpreimage]
        rfl
      · exact ⟨h.agrees.handle, h.agrees.digest, h.agrees.sessionKey, h.agrees.boundName, rfl⟩

/-- One call keeps the agreement, and returns what the last answer says. -/
theorem Facing.run (h : Facing pc s peer) (hfresh : peer.verdicts = []) (os : OsRng) :
    ∃ i, Settles pc.script i ∧ (pc.call.run P peer s os).1 = (pc.script i).outcome ∧
      (pc.call.run P peer s os).2.transport.verdicts = List.replicate (i + 1) true ∧
      ((pc.call.run P peer s os).2.transport.digest = peer.digest ∧
        (pc.call.run P peer s os).2.transport.handleCount = peer.handleCount) ∧
      ∃ s', (pc.call.run P peer s os).2.auth = .session s' pc.call.authValue ∧
        Agrees s' (pc.call.run P peer s os).2.transport := by
  have hnonce := os.length_drawn peer.digest.size
  generalize hcaller : os.drawn peer.digest.size = nonce at hnonce
  have hframe : requestFrame P pc.call.code pc.call.handles pc.call.names pc.call.params
      (.session s pc.call.authValue, os) = (.ok (pc.call.frame P peer.digest s nonce),
        .session { s with nonceCaller := nonce } pc.call.authValue, os.skip peer.digest.size) :=
    hcaller ▸ requestFrame_session h.agrees.digest
  obtain ⟨k, t, hk, hresent, hstop, hrun⟩ :=
    @run_of_frame (Peer P) _ P pc.call.code pc.call.handles pc.call.names pc.call.params
      pc.call.respHandles _ ⟨peer, .session s pc.call.authValue, os⟩ _ _ hframe
  obtain ⟨ht, hbefore⟩ := h.resent hfresh hnonce hresent
  have hfacing : Facing pc s t := ht ▸ h.withVerdicts (List.replicate k true)
  have hdigest : t.digest = peer.digest := by rw [ht]
  have hverdicts : t.verdicts = List.replicate k true := by rw [ht]
  have hlast : t.script t.verdicts.length = pc.script k := by
    rw [hfacing.script, hverdicts, List.length_replicate]
  -- the last transmission is one more of the same frame, to the same session
  rw [← hdigest] at hnonce hstop hrun
  obtain ⟨cmd, hreads, htransmit⟩ := hfacing.transmit hnonce
  obtain ⟨s', hinterpret, hagrees⟩ := hfacing.interpret hreads
  rw [htransmit] at hstop hrun
  rw [answer_transient_iff, hlast] at hstop
  rw [← hfacing.script, hlast] at hinterpret
  rw [Call.run, hrun, hinterpret]
  refine ⟨k, ⟨hk, hbefore, hstop⟩, rfl, ?_, ?_, s', rfl, hagrees⟩
  · rw [answer_verdicts, hverdicts, List.replicate_succ']
  · obtain ⟨hdigest', hcount'⟩ := answer_fixed t cmd (pc.entry P t.digest s nonce)
    exact ⟨hdigest'.trans hdigest, hcount'.trans (by rw [ht])⟩

end Call

/-! ### Any number of calls -/

/-- A call of a conversation, with the two ends as they start it. -/
structure PeerStep (P : Purecrypto) where
  pc : PeerCall
  before : Session
  peer : Peer P
  os : OsRng

namespace PeerStep

variable {P : Purecrypto}

def result (e : PeerStep P) : Outcome Error RawResponse × Env (Peer P) :=
  e.pc.call.run P e.peer e.before e.os

/-- The host's session behind the call. -/
def after (e : PeerStep P) : Session :=
  match e.result.2.auth with
  | .session s _ => s
  | _ => e.before

/-- All command HMACs of the call verified at the peer, the call returned what
the answer that ended it says, and both ends agree behind it. -/
def Agreed (e : PeerStep P) : Prop :=
  ∃ i, Settles e.pc.script i ∧ e.result.1 = (e.pc.script i).outcome ∧
    e.result.2.transport.verdicts = List.replicate (i + 1) true ∧
    Agrees e.after e.result.2.transport

theorem agreed {e : PeerStep P} (h : Facing e.pc e.before e.peer) (hfresh : e.peer.verdicts = []) :
    e.Agreed ∧ e.result.2.transport.digest = e.peer.digest ∧
      e.result.2.transport.handleCount = e.peer.handleCount := by
  obtain ⟨i, hsettles, hresult, hverdicts, hfixed, s', hauth, hagrees⟩ := h.run hfresh e.os
  have hafter : e.after = s' := by rw [after, result, hauth]
  exact ⟨⟨i, hsettles, hresult, hverdicts, hafter ▸ hagrees⟩, hfixed⟩

end PeerStep

/-- Calls on one session, one after the other, over one peer. -/
def conversation (P : Purecrypto) : Session → Peer P → OsRng → List PeerCall → List (PeerStep P)
  | _, _, _, [] => []
  | s, peer, os, pc :: pcs =>
      let e : PeerStep P :=
        { pc := pc
          before := { s with attributes := pc.attributes }
          peer := { peer with directory := pc.directory, script := pc.script, verdicts := [] }
          os := os }
      e :: conversation P e.after e.result.2.transport e.result.2.os pcs

section Conversation

variable {P : Purecrypto} {pc : PeerCall} {s : Session} {peer : Peer P}

/-- Ends that agree face each other in any admissible call. -/
theorem Agrees.facing (h : Agrees s peer)
    (hadmissible : pc.Admissible peer.digest peer.handleCount) :
    Facing pc { s with attributes := pc.attributes } ({ peer with
      directory := pc.directory, script := pc.script, verdicts := [] } : Peer P) where
  agrees := ⟨h.handle, h.digest, h.sessionKey, h.boundName, h.nonceTpm⟩
  admissible := hadmissible
  attributes := rfl
  directory := rfl
  script := rfl

end Conversation

/-- A session shared with a peer that follows the protocol stays shared over any
calls and any answers: no command HMAC fails at the peer, no answer is taken
for another at the host, and the nonces agree after every call. -/
theorem conversation_agreed (P : Purecrypto) (s : Session) (peer : Peer P) (os : OsRng)
    (pcs : List PeerCall) (hagrees : Agrees s peer)
    (hadmissible : ∀ pc ∈ pcs, pc.Admissible peer.digest peer.handleCount) :
    ∀ e ∈ conversation P s peer os pcs, e.Agreed := by
  induction pcs generalizing s peer os with
  | nil =>
      intro e he
      simp [conversation] at he
  | cons pc pcs ih =>
      intro e he
      have hfacing := hagrees.facing (hadmissible pc (List.mem_cons_self ..))
      rw [conversation] at he
      obtain ⟨hagreed, hdigest, hcount⟩ := @PeerStep.agreed P ⟨_, _, _, os⟩ hfacing rfl
      rcases List.mem_cons.mp he with rfl | he
      · exact hagreed
      · obtain ⟨_, -, -, -, hagrees'⟩ := hagreed
        refine ih _ _ _ hagrees' (fun pc' hpc' => ?_) e he
        rw [hdigest, hcount]
        exact hadmissible pc' (List.mem_cons_of_mem pc hpc')

/-- The recorded exchange with a peer that is not ready for it at first. -/
def unsealPeerCall : PeerCall where
  call := unsealCall
  attributes := unsealSession.attributes
  directory := { nameOf := fun h => toBeBytes h.raw, authOf := fun _ => unsealCall.authValue }
  script i :=
    match i with
    | 0 => .error 0x922
    | _ => .success [] unsealParams unsealEntry.nonceTpm unsealEntry.attributes

def unsealPeer : Peer unsealCrypto where
  handle := unsealSession.handle
  digest := .sha256
  sessionKey := unsealSession.sessionKey
  boundName := unsealSession.boundName
  nonceTpm := unsealSession.nonceTpm
  handleCount _ := 1
  directory := unsealPeerCall.directory
  script := unsealPeerCall.script
  verdicts := []

theorem unsealPeerCall_admissible :
    unsealPeerCall.Admissible unsealPeer.digest unsealPeer.handleCount where
  count := rfl
  names := by decide
  auth := rfl
  attributes := by decide
  frame := by decide
  answers i := by
    cases i with
    | zero => simp [unsealPeerCall, Answer.Sendable]
    | succ i => exact ⟨rfl, by decide, by decide⟩

/-- Twice the same, the second time with the nonce that the first one rolled to. -/
def unsealTwice : List (PeerStep unsealCrypto) :=
  conversation unsealCrypto unsealSession unsealPeer ⟨fun _ => 0x33⟩
    [unsealPeerCall, unsealPeerCall]

theorem conversation_agreed_unseal : unsealTwice.Forall PeerStep.Agreed := by
  have hagrees : Agrees unsealSession unsealPeer := ⟨rfl, rfl, rfl, rfl, rfl⟩
  refine List.forall_iff_forall_mem.2 (conversation_agreed unsealCrypto unsealSession unsealPeer
    ⟨fun _ => 0x33⟩ [unsealPeerCall, unsealPeerCall] hagrees ?_)
  intro pc hpc
  obtain rfl : pc = unsealPeerCall := by simpa using hpc
  exact unsealPeerCall_admissible

example : unsealTwice.map
    (fun e => (e.result.1, e.result.2.transport.verdicts, e.before.nonceTpm)) =
    [(.ok { handles := [], params := unsealParams }, [true, true], List.replicate 32 0x11),
      (.ok { handles := [], params := unsealParams }, [true, true], List.replicate 32 0x44)] := by
  decide +kernel

end PurecryptoTpm
