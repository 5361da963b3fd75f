import PurecryptoTpm.Library.Dialogue
import PurecryptoTpm.MethodRequests
import PurecryptoTpm.Peer

/-!
What a TPM is for. A `Service` performs orders: it knows nothing of frames,
nonces or HMACs, only who asks. A `Client` is a program that opens sessions
and calls methods under any of them, under a password or without either, and
goes on with whatever they return. To the service it is a dialogue of orders,
each asked again as long as the service wants that, and a session is a number
that stands for having been let in.
-/

namespace PurecryptoTpm

/-! ### The service -/

/-- Who asks for a command: nobody in particular, whoever knows a password, or
somebody who proved to know the right one over a session. -/
inductive Requester where
  | anyone
  | password (pw : Bytes)
  | session

inductive Order where
  | command (code : UInt32) (handles : List Handle) (params : Bytes) (requester : Requester)
  | openSession (hashAlg : Alg)

def Order.respHandles : Order → ℕ
  | command code _ _ _ => responseHandles code
  | openSession _ => 1

inductive ServiceReply where
  | success (handles : List Handle) (params : Bytes)
  | error (rc : UInt32)

namespace ServiceReply

/-- The replies that ask for the command to be sent again. -/
def Transient : ServiceReply → Prop
  | success _ _ => False
  | error rc => rc = 0x908 ∨ rc = 0x90A ∨ rc = 0x922

instance : DecidablePred Transient
  | success _ _ => inferInstanceAs (Decidable False)
  | error rc => inferInstanceAs (Decidable (rc = 0x908 ∨ rc = 0x90A ∨ rc = 0x922))

/-- What a success does to a state. -/
def commit {α : Type} (f : List Handle → α → α) : ServiceReply → α → α
  | success handles _ => f handles
  | error _ => id

/-- What the host is told. -/
def outcome : ServiceReply → Outcome Error RawResponse
  | success handles params => .ok { handles, params }
  | error rc => .err (.tpm ⟨rc⟩)

end ServiceReply

/-- The most bytes of parameters a service returns. -/
def maxParams : ℕ := 3072

/-- A TPM, off the wire. Its replies have the handles their commands call for
and a bounded length, no error is code zero, and no session has the handle of
passwords. -/
structure Service (S : Type) where
  perform : Order → S → ServiceReply × S
  directory : S → Directory
  success_fits : ∀ o s handles params, (perform o s).1 = .success handles params →
    handles.length = o.respHandles ∧ params.length ≤ maxParams
  error_ne_zero : ∀ o s rc, (perform o s).1 = .error rc → rc ≠ 0
  session_ne_pw : ∀ hashAlg s h params,
    (perform (.openSession hashAlg) s).1 = .success [h] params → h ≠ ⟨rh.pw⟩

/-! ### Clients -/

/-- Under which authorization a client calls a method: a session is named by
its place among those the client has opened. -/
inductive Who where
  | anyone
  | password (pw : Bytes)
  | session (i : ℕ) (authValue : Bytes) (attributes : SessionAttributes)

/-- A program that opens sessions and calls methods. -/
inductive Client (α : Type) where
  | done (a : α)
  | call (m : Method) (h : m.Plain) (who : Who) (next : Outcome Error m.Result → Client α)
  | openSession (hashAlg : Alg) (next : Outcome Error Handle → Client α)

/-- A client none of whose methods sends more than a frame can hold. -/
def Client.Short {α : Type} : Client α → Prop
  | done _ => True
  | call m _ _ next => m.Short ∧ ∀ o, (next o).Short
  | openSession _ next => ∀ o, (next o).Short

/-! ### What is asked of a service -/

def Request.order (q : Request) (requester : Requester) : Order :=
  .command q.code q.handles q.params requester

inductive Ask where
  | submit (q : Request) (requester : Requester)
  | submitOver (q : Request) (number : ℕ) (authValue : Bytes) (attributes : SessionAttributes)
  | openSession (hashAlg : Alg)

/-- What a client is told: the reply, and the number of the next session. -/
structure Told where
  reply : ServiceReply
  number : ℕ

/-- Told to ask again. -/
def Told.Transient (told : Told) : Prop := told.reply.Transient

instance : DecidablePred Told.Transient :=
  fun told => inferInstanceAs (Decidable told.reply.Transient)

/-! ### The answers -/

/-- Whether a successful command leaves nothing behind a handle: it flushes it,
or was sent over it as a session that is not to be continued. -/
def closes (code : UInt32) (params : Bytes) (sentOver : Option (Handle × SessionAttributes))
    (h : Handle) : Bool :=
  (code == cc.flushContext && (readWhole unmarshal params).toOption == some h) ||
    sentOver.any fun sent => sent.1 == h && sent.2.raw &&& SessionAttributes.continueSession == 0

/-- What remains of a table of sessions. -/
def remaining {β : Type} (code : UInt32) (params : Bytes)
    (sentOver : Option (Handle × SessionAttributes)) (table : Handle → Option β) (h : Handle) :
    Option β :=
  if closes code params sentOver h then none else table h

/-- A service and the sessions opened with it: their handles in the order of
opening, and which of them each handle stands for at present. -/
structure Direct (S : Type) where
  state : S
  opened : List Handle
  live : Handle → Option ℕ

/-- Nothing opened yet. -/
def Direct.fresh {S : Type} (s : S) : Direct S where
  state := s
  opened := []
  live _ := none

namespace Direct

variable {S : Type}

/-- From now on the handle stands for one more session. -/
def enter : List Handle → Direct S → Direct S
  | [], d => d
  | h :: _, d =>
      { state := d.state
        opened := d.opened ++ [h]
        live := Function.update d.live h (some d.opened.length) }

/-- Have an order performed once, and commit to it if it is. -/
def tell (svc : Service S) (o : Order) (committed : List Handle → Direct S → Direct S)
    (d : Direct S) : Told × Direct S :=
  let (reply, s) := svc.perform o d.state
  (⟨reply, d.opened.length⟩, reply.commit committed { d with state := s })

theorem tell_apply (svc : Service S) (o : Order)
    (committed : List Handle → Direct S → Direct S) (d : Direct S) :
    tell svc o committed d = (⟨(svc.perform o d.state).1, d.opened.length⟩,
      (svc.perform o d.state).1.commit committed { d with state := (svc.perform o d.state).2 }) :=
  rfl

def answer (svc : Service S) : Ask → Direct S → Told × Direct S
  | .submit q requester, d =>
      tell svc (q.order requester) (fun _ d =>
        { d with live := remaining q.code q.params none d.live }) d
  | .submitOver q number _ attributes, d =>
      match d.opened[number]? with
      | some h =>
          if d.live h = some number then
            tell svc (q.order .session) (fun _ d =>
              { d with live := remaining q.code q.params (some (h, attributes)) d.live }) d
          else (⟨.error 0x918, d.opened.length⟩, d)
      | none => (⟨.error 0x918, d.opened.length⟩, d)
  | .openSession hashAlg, d => tell svc (.openSession hashAlg) enter d

end Direct

/-- A request whose handles are named rightly, by somebody who knows the auth
value and asks for no parameter encryption. -/
structure Request.Authorized (q : Request) (directory : Directory) (authValue : Bytes)
    (attributes : SessionAttributes) : Prop where
  names : q.names = q.handles.map directory.nameOf
  auth : authValue = directory.authOf q.handles.head?
  attributes : attributes.raw &&&
    (SessionAttributes.decrypt ||| SessionAttributes.encrypt) = 0

/-- A request over a session is over one that is gone, or authorized. -/
def Service.Allows {S : Type} (svc : Service S) : Ask → Direct S → Prop
  | .submitOver q number authValue attributes, d => ∃ h, d.opened[number]? = some h ∧
      (d.live h = none ∨ d.live h = some number ∧
        q.Authorized (svc.directory d.state) authValue attributes)
  | _, _ => True

/-! ### Clients as dialogues -/

/-- A dialogue with the service. -/
abbrev Orders (α : Type) := Dialogue Ask Told α

/-- A client's choice, by the number of the session instead of its place among
the client's own. -/
def Who.number (mine : List ℕ) : Who → Option Who
  | anyone => some anyone
  | password pw => some (password pw)
  | session i authValue attributes =>
      mine[i]?.map fun number => session number authValue attributes

/-- Under which of a client's choices a request goes out. -/
def Request.under (q : Request) (who : Who) : Who := if q.authorized then who else .anyone

/-- What is asked for a request. -/
def Request.asked (q : Request) : Who → Except Error Ask
  | .anyone => .ok (.submit q .anyone)
  | .password pw =>
      if pw.length < 65536 then .ok (.submit q (.password pw))
      else .error (.usage "auth value too long")
  | .session number authValue attributes => .ok (.submitOver q number authValue attributes)

/-- What a method makes of the outcome of its request. -/
def Method.result (m : Method) (h : m.Plain) : Outcome Error RawResponse → Outcome Error m.Result
  | .ok resp => m.outcome h resp
  | .err e => .err e
  | .panic => .panic

/-- What a client is left with when it has been told of a session. -/
def Told.opened (told : Told) (mine : List ℕ) : Outcome Error Handle × List ℕ :=
  match told.reply with
  | .success (h :: _) _ => (.ok h, mine ++ [told.number])
  | .success [] _ => (.panic, mine)
  | .error rc => (.err (.tpm ⟨rc⟩), mine)

/-- The orders of a client, with the numbers of its sessions. -/
def Client.orders {α : Type} : Client α → List ℕ → Orders α
  | done a, _ => .done a
  | call m h who next, mine =>
      match who.number mine with
      | none => (next .panic).orders mine
      | some who =>
          match m.request h with
          | .error e => (next (.err e)).orders mine
          | .ok q =>
              match q.asked (q.under who) with
              | .error e => (next (.err e)).orders mine
              | .ok ask =>
                  .persist Told.Transient ask (fun told =>
                    (next (m.result h told.reply.outcome)).orders mine) maxTransientRetries
  | openSession hashAlg next, mine =>
      match crypto.digestSize hashAlg with
      | .error e => (next (.err e)).orders mine
      | .ok _ =>
          .persist Told.Transient (.openSession hashAlg) (fun told =>
            (next (told.opened mine).1).orders (told.opened mine).2) maxTransientRetries

end PurecryptoTpm
