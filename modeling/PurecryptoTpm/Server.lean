import PurecryptoTpm.PublicArea
import PurecryptoTpm.Service

/-!
The TPM's end of the line, around a service. It reads frames by the command
grammar, lets a password pass on to the service, checks the HMAC of a session
before the service sees the command, and keeps one entry for each session it
has started: the digest and the nonce the next command must be computed with.
Every answer is the service's, and only a success rolls the nonce.
-/

namespace PurecryptoTpm

/-! ### Its state -/

/-- What the TPM keeps of a session that is neither salted nor bound. -/
structure Shared where
  digest : Digest
  nonceTpm : Bytes
  deriving DecidableEq

structure Server (P : Purecrypto) (S : Type) where
  service : Service S
  state : S
  sessions : Handle → Option Shared
  os : OsRng

/-- The authorization entry of a response to a password. -/
def passwordAck : AuthResponse where
  nonceTpm := []
  attributes := ⟨SessionAttributes.continueSession⟩
  hmac := []

namespace ServiceReply

/-- A reply as it is sent, with a body made from its parameters. -/
def toReply (tag : UInt16) (body : Bytes → Bytes) : ServiceReply → Bytes
  | success handles params => successReply tag handles (body params)
  | error rc => Peer.errorReply rc

/-- A reply as the answer of a session, with the nonce that comes next. -/
def answer (nonceTpm : Bytes) (attributes : SessionAttributes) : ServiceReply → Answer
  | success handles params => .success handles params nonceTpm attributes
  | error rc => .error rc

end ServiceReply

/-- The parameters that ask for an unsalted HMAC session without parameter
encryption, and its hash algorithm. -/
def readSessionStart : Exec Error Reader Alg := do
  let _nonceCaller ← Reader.tpm2b
  let salt ← Reader.tpm2b
  let kind ← Reader.u8
  let symmetric ← readSymDefObject
  let hashAlg ← unmarshal
  if salt = [] ∧ kind = se.hmac ∧ symmetric = SymDefObject.null then pure hashAlg
  else Exec.throw (.malformed "neither unsalted nor unencrypted")

namespace Server

variable {P : Purecrypto} {S : Type}

def powerOn (svc : Service S) (s : S) (os : OsRng) : Server P S where
  service := svc
  state := s
  sessions _ := none
  os := os

/-- Have an order performed, and commit to it if it is. -/
def serve (self : Server P S) (o : Order) (encode : ServiceReply → Bytes)
    (committed : List Handle → Server P S → Server P S) : Bytes × Server P S :=
  let (reply, s) := self.service.perform o self.state
  (encode reply, reply.commit committed { self with state := s })

theorem serve_apply (self : Server P S) (o : Order) (encode : ServiceReply → Bytes)
    (committed : List Handle → Server P S → Server P S) :
    self.serve o encode committed = (encode (self.service.perform o self.state).1,
      (self.service.perform o self.state).1.commit committed
        { self with state := (self.service.perform o self.state).2 }) := rfl

/-- Drop the sessions a successful command leaves nothing of. -/
def closing (code : UInt32) (params : Bytes) (sentOver : Option (Handle × SessionAttributes))
    (self : Server P S) : Server P S :=
  { self with sessions := remaining code params sentOver self.sessions }

/-- Hand out the next nonce, to the session of a handle. -/
def roll (self : Server P S) (h : Handle) (d : Digest) : Server P S :=
  { self with
    sessions := Function.update self.sessions h (some ⟨d, self.os.drawn d.size⟩)
    os := self.os.skip d.size }

/-- The first nonce of a session that has been given a handle. -/
def start (d : Digest) : List Handle → Server P S → Server P S
  | [], self => self
  | h :: _, self => self.roll h d

/-- One session of the server, with an answer in store. -/
def peer (self : Server P S) (h : Handle) (shared : Shared) (answer : Answer) : Peer P where
  handle := h
  digest := shared.digest
  sessionKey := []
  boundName := []
  nonceTpm := shared.nonceTpm
  handleCount := commandHandles
  directory := self.service.directory self.state
  script _ := answer
  verdicts := []

def serveAnyone (cmd : Command) (self : Server P S) : Bytes × Server P S :=
  self.serve (.command cmd.code cmd.handles cmd.params .anyone)
    (ServiceReply.toReply st.noSessions id) fun _ => closing cmd.code cmd.params none

def servePassword (cmd : Command) (pw : Bytes) (self : Server P S) : Bytes × Server P S :=
  self.serve (.command cmd.code cmd.handles cmd.params (.password pw))
    (ServiceReply.toReply st.sessions fun params => authorizedBody params passwordAck)
    fun _ => closing cmd.code cmd.params none

def serveSession (cmd : Command) (entry : AuthCommand) (shared : Shared) (self : Server P S) :
    Bytes × Server P S :=
  let nonce := self.os.drawn shared.digest.size
  self.serve (.command cmd.code cmd.handles cmd.params .session)
    (fun reply => ((self.peer entry.sessionHandle shared
      (reply.answer nonce entry.attributes)).answer cmd entry).1)
    fun _ self => closing cmd.code cmd.params (some (entry.sessionHandle, entry.attributes))
      (self.roll entry.sessionHandle shared.digest)

/-- Start a session: its nonce follows the handle the service gives it. -/
def serveStart (cmd : Command) (self : Server P S) : Bytes × Server P S :=
  match readWhole readSessionStart cmd.params with
  | .ok hashAlg =>
      match Digest.ofAlg hashAlg with
      | some d =>
          self.serve (.openSession hashAlg)
            (ServiceReply.toReply st.noSessions fun _ => tpm2bBytes (self.os.drawn d.size))
            (start d)
      | none => (Peer.errorReply 0x2C3, self)
  | .error _ => (Peer.errorReply 0x095, self)

/-- The reply to a frame. -/
def reply (frame : Bytes) (self : Server P S) : Bytes × Server P S :=
  match decodeCommand commandHandles frame with
  | none => (Peer.errorReply 0x142, self)
  | some cmd =>
      match cmd.area with
      | none => if cmd.code = cc.startAuthSession then self.serveStart cmd else self.serveAnyone cmd
      | some (_, entry) =>
          if entry.sessionHandle = ⟨rh.pw⟩ then self.servePassword cmd entry.hmac
          else
            match self.sessions entry.sessionHandle with
            | none => (Peer.errorReply 0x918, self)
            | some shared =>
                if (self.peer entry.sessionHandle shared (.error 0x101)).verifies cmd entry then
                  self.serveSession cmd entry shared
                else (Peer.errorReply 0x98E, self)

instance : Transport (Server P S) where
  transmit frame self := (.ok (self.reply frame).1, (self.reply frame).2)

end Server

end PurecryptoTpm
