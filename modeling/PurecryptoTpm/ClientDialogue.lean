import PurecryptoTpm.ServerReplies

/-!
Clients over the wire. A client becomes a program of the host that keeps a list
of its sessions, lends one of them to each call that goes out under it, and
takes it back with the nonces it has then. Over any transport that is a
dialogue of frames: each request is one frame, sent again as long as the reply
is transient, and what the client makes of the last reply depends on nothing
but its own sessions and generator.
-/

namespace PurecryptoTpm

open Exec

/-! ### Clients as programs of the host -/

/-- The authorization a client's choice stands for, with the session itself. -/
def Who.auth (sessions : List Session) : Who → Option Auth
  | anyone => some .none
  | password pw => some (.password pw)
  | session i authValue attributes =>
      sessions[i]?.map fun s => .session { s with attributes := attributes } authValue

/-- The sessions, with the one that was lent taken back. -/
def Who.returned (sessions : List Session) : Who → Auth → List Session
  | session i _ _, .session s _ => sessions.set i s
  | _, _ => sessions

/-- What a started session leaves the host with, and what it tells the client. -/
def Session.opened : Outcome Error Session → List Session → Outcome Error Handle × List Session
  | .ok s, sessions => (.ok s.handle, sessions ++ [s])
  | .err e, sessions => (.err e, sessions)
  | .panic, sessions => (.panic, sessions)

/-- A client as a program of the host, with the sessions it has opened. -/
def Client.host {α : Type} : Client α → List Session → Host α
  | done a, _ => .done a
  | call m _ who next, sessions =>
      match who.auth sessions with
      | some auth => .swapAuth auth fun _ => .call m fun o => .swapAuth .none fun auth =>
          (next o).host (who.returned sessions auth)
      | none => (next .panic).host sessions
  | openSession hashAlg next, sessions => .call (.startHmacSession hashAlg) fun o =>
      (next (Session.opened o sessions).1).host (Session.opened o sessions).2

/-! ### What is made of replies -/

namespace Request

/-- The authorization that goes with a request, of the one in place. -/
def auth (q : Request) (auth : Auth) : Auth := if q.authorized then auth else .none

/-- The authorization in place behind a request that leaves `left`. -/
def restored (q : Request) (auth left : Auth) : Auth := if q.authorized then left else auth

end Request

/-- What the start of a session makes of the response. -/
def readStart {σ : Type} (P : Purecrypto) (hashAlg : Alg) (nonceCaller : Bytes)
    (resp : RawResponse) : Exec Error σ Session := do
  let sessionHandle ← Exec.index resp.handles 0
  let nonceTpm ← Exec.alone (Reader.new resp.params) Reader.tpm2b
  Session.new P sessionHandle hashAlg nonceTpm nonceCaller ⟨SessionAttributes.continueSession⟩
    [] [] []

def startOutcome (P : Purecrypto) (hashAlg : Alg) (nonceCaller : Bytes) :
    Outcome Error RawResponse → Outcome Error Session
  | .ok resp => ((readStart P hashAlg nonceCaller resp : Exec Error Unit Session) ()).1
  | .err e => .err e
  | .panic => .panic

/-! ### The dialogue -/

/-- A dialogue over the wire. -/
abbrev Frames (α : Type) := Dialogue Bytes (Except Error Bytes) α

section Resume

variable {α : Type} (P : Purecrypto)

/-- A call goes on behind the last reply. -/
def resumeCall {m : Method} (h : m.Plain) (who : Who) (sessions : List Session) (q : Request)
    (auth sent : Auth) (next : Outcome Error m.Result → List Session → Frames α)
    (reply : Except Error Bytes) : Frames α :=
  let read := interpret P q.code q.names q.respHandles reply sent
  next (m.result h read.1) (who.returned sessions (q.restored auth read.2))

/-- A session start goes on behind the last reply. -/
def resumeStart (hashAlg : Alg) (nonceCaller : Bytes) (sessions : List Session)
    (next : Outcome Error Handle → List Session → Frames α) (reply : Except Error Bytes) :
    Frames α :=
  let read := interpret P cc.startAuthSession [] 1 reply .none
  let opened := Session.opened (startOutcome P hashAlg nonceCaller read.1) sessions
  next opened.1 opened.2

/-- The frames of a client, with the sessions it has opened and its generator. -/
def Client.frames : Client α → List Session → OsRng → Frames α
  | done a, _, _ => .done a
  | call m h who next, sessions, os =>
      match who.auth sessions with
      | none => (next .panic).frames sessions os
      | some auth =>
          match m.request h with
          | .error e => (next (.err e)).frames (who.returned sessions auth) os
          | .ok q =>
              match requestFrame P q.code q.handles q.names q.params (q.auth auth, os) with
              | (.ok frame, sent, os) =>
                  .persist TransientOutcome frame (resumeCall P h who sessions q auth sent
                    fun o sessions => (next o).frames sessions os) maxTransientRetries
              | (.err e, left, os) =>
                  (next (.err e)).frames (who.returned sessions (q.restored auth left)) os
              | (.panic, left, os) =>
                  (next .panic).frames (who.returned sessions (q.restored auth left)) os
  | openSession hashAlg next, sessions, os =>
      match crypto.digestSize hashAlg with
      | .error e => (next (.err e)).frames sessions os
      | .ok n =>
          .persist TransientOutcome (Server.startFrame (os.drawn n) hashAlg)
            (resumeStart P hashAlg (os.drawn n) sessions fun o sessions =>
              (next o).frames sessions (os.skip n)) maxTransientRetries

end Resume

/-! ### The dialogue and the run -/

theorem readStart_apply {σ : Type} (P : Purecrypto) {hashAlg : Alg} {d : Digest}
    (hd : Digest.ofAlg hashAlg = some d) (nonceCaller : Bytes) (resp : RawResponse) (s : σ) :
    readStart P hashAlg nonceCaller resp s =
      (startOutcome P hashAlg nonceCaller (.ok resp), s) := by
  obtain ⟨handles, params⟩ := resp
  cases handles with
  | nil => rfl
  | cons handle handles =>
      have hnew : ∀ {ρ : Type} (nonceTpm : Bytes), (Session.new P handle hashAlg nonceTpm
          nonceCaller ⟨SessionAttributes.continueSession⟩ [] [] [] : Exec Error ρ Session) =
          pure ⟨handle, hashAlg, ⟨SessionAttributes.continueSession⟩, [], nonceTpm, nonceCaller,
            []⟩ := by
        intro ρ nonceTpm
        ext r : 1
        exact Session.new_unkeyed (crypto.digestSize_of_some hd) handle nonceTpm nonceCaller _ [] r
      simp only [startOutcome, readStart, Exec.index_head_bind, hnew]
      exact Method.alone_pick _ _ _ s

section Run

variable {τ : Type} [Transport τ] {P : Purecrypto} {α : Type}

/-- A call of a client, with what it goes out under put in place and taken away. -/
theorem Client.run_host_call {m : Method} {h : m.Plain} {who : Who}
    {next : Outcome Error m.Result → Client α} {sessions : List Session} {auth auth' : Auth}
    (hauth : who.auth sessions = some auth) {t t' : τ} {os os' : OsRng} {o : Outcome Error m.Result}
    (hcall : m.invoke P ⟨t, auth, os⟩ = (o, ⟨t', auth', os'⟩)) :
    ((call m h who next).host sessions).run P ⟨t, .none, os⟩ =
      ((next o).host (who.returned sessions auth')).run P ⟨t', .none, os'⟩ := by
  rw [host, hauth]
  show ((next (m.invoke P ⟨t, auth, os⟩).1).host
      (who.returned sessions (m.invoke P ⟨t, auth, os⟩).2.auth)).run P
    { (m.invoke P ⟨t, auth, os⟩).2 with auth := .none } = _
  rw [hcall]

theorem Client.run_host_openSession {hashAlg : Alg} {next : Outcome Error Handle → Client α}
    {sessions : List Session} {env env' : Env τ} {o : Outcome Error Session}
    (hstart : startHmacSession P hashAlg env = (o, env')) :
    ((openSession hashAlg next).host sessions).run P env =
      ((next (Session.opened o sessions).1).host (Session.opened o sessions).2).run P env' := by
  show ((next (Session.opened (startHmacSession P hashAlg env).1 sessions).1).host
    (Session.opened (startHmacSession P hashAlg env).1 sessions).2).run P
      (startHmacSession P hashAlg env).2 = _
  rw [hstart]

/-- A frame that persists is answered by what it settles on. -/
theorem run_persist (frame : Bytes) (next : Except Error Bytes → Frames α) (n : ℕ) (t : τ) :
    (Dialogue.persist TransientOutcome frame next n).run Transport.transmit t =
      (next (settle frame n t).1).run Transport.transmit (settle frame n t).2 := by
  induction n generalizing t with
  | zero => rfl
  | succ n ih =>
      rw [Dialogue.persist, Dialogue.run, settle]
      split
      · exact ih _
      · simp

theorem startHmacSession_settles {hashAlg : Alg} {d : Digest} (hd : Digest.ofAlg hashAlg = some d)
    (t : τ) (os : OsRng) :
    startHmacSession P hashAlg ⟨t, .none, os⟩ =
      let settled := settle (Server.startFrame (os.drawn d.size) hashAlg) maxTransientRetries t
      (startOutcome P hashAlg (os.drawn d.size)
        (interpret P cc.startAuthSession [] 1 settled.1 .none).1,
        ⟨settled.2, .none, os.skip d.size⟩) := by
  have hlen : (os.drawn d.size).length < 65536 := by
    rw [OsRng.length_drawn]
    exact d.size_lt
  have hfill : (Env.onCaller (Exec.onSnd (OsRng.fillBytes d.size)) : Exec Error (Env τ) Bytes)
      ⟨t, .none, os⟩ = (.ok (os.drawn d.size), ⟨t, .none, os.skip d.size⟩) := rfl
  have hrun := @run_settles _ _ P cc.startAuthSession [⟨rh.null⟩, ⟨rh.null⟩] []
    (sessionStart (os.drawn d.size) hashAlg) 1 _ ⟨t, .none, os.skip d.size⟩ .none _
    requestFrame_none
  rw [startHmacSession, crypto.digestSize_of_some hd, Exec.ofExcept_ok_bind, Exec.bind_ok hfill,
    startAuthSession, Exec.bind_ok (startAuthSessionParams_of_lt hashAlg hlen _)]
  show (Env.withAuth .none (run P cc.startAuthSession [⟨rh.null⟩, ⟨rh.null⟩] []
    (sessionStart (os.drawn d.size) hashAlg) 1) >>= readStart P hashAlg (os.drawn d.size)) _ = _
  have hwith := Env.withAuth_apply .none (run P cc.startAuthSession [⟨rh.null⟩, ⟨rh.null⟩] []
    (sessionStart (os.drawn d.size) hashAlg) 1) ⟨t, .none, os.skip d.size⟩
  rw [hrun] at hwith
  show _ = (startOutcome P hashAlg (os.drawn d.size) (interpret P cc.startAuthSession [] 1
    (settle (Server.startFrame (os.drawn d.size) hashAlg) maxTransientRetries t).1 .none).1, _)
  cases ho : (interpret P cc.startAuthSession [] 1
      (settle (Server.startFrame (os.drawn d.size) hashAlg) maxTransientRetries t).1 .none).1 with
  | ok resp =>
      rw [Exec.bind_ok (hwith.trans (Prod.ext ho rfl)), readStart_apply P hd]
      rfl
  | err e =>
      rw [Exec.bind_err (hwith.trans (Prod.ext ho rfl))]
      rfl
  | panic =>
      rw [Exec.bind_panic (hwith.trans (Prod.ext ho rfl))]
      rfl

/-- A request returns what its frame settles on. -/
theorem Request.run_settles {q : Request} {t : τ} {auth sent : Auth} {os os' : OsRng}
    {frame : Bytes} (hframe : requestFrame P q.code q.handles q.names q.params (q.auth auth, os) =
      (.ok frame, sent, os')) :
    q.run P ⟨t, auth, os⟩ =
      let settled := settle frame maxTransientRetries t
      let read := interpret P q.code q.names q.respHandles settled.1 sent
      (read.1, ⟨settled.2, q.restored auth read.2, os'⟩) := by
  have hrun := @PurecryptoTpm.run_settles _ _ P q.code q.handles q.names q.params q.respHandles _
    ⟨t, q.auth auth, os⟩ sent os' hframe
  rw [Request.run]
  cases hauthorized : q.authorized with
  | true =>
      simp only [Request.auth, hauthorized, if_true] at hrun
      simp only [restored, hauthorized, if_true]
      exact hrun
  | false =>
      simp only [Request.auth, hauthorized, Bool.false_eq_true, if_false] at hrun
      simp only [restored, hauthorized, Bool.false_eq_true, if_false, Env.withAuth_apply, hrun]

theorem Request.run_of_frame_err {q : Request} {t : τ} {auth left : Auth} {os os' : OsRng}
    {e : Error} (hframe : requestFrame P q.code q.handles q.names q.params (q.auth auth, os) =
      (.err e, left, os')) :
    q.run P ⟨t, auth, os⟩ = (.err e, ⟨t, q.restored auth left, os'⟩) := by
  have hrun := @PurecryptoTpm.run_of_frame_err _ _ P q.code q.handles q.names q.params
    q.respHandles ⟨t, q.auth auth, os⟩ e left os' hframe
  rw [Request.run]
  cases hauthorized : q.authorized with
  | true =>
      simp only [Request.auth, hauthorized, if_true] at hrun
      simp only [restored, hauthorized, if_true]
      exact hrun
  | false =>
      simp only [Request.auth, hauthorized, Bool.false_eq_true, if_false] at hrun
      simp only [restored, hauthorized, Bool.false_eq_true, if_false, Env.withAuth_apply, hrun]

theorem requestFrame_ne_panic {code : UInt32} {handles : List Handle} {names : List Bytes}
    {params : Bytes} (auth : Auth) (os : OsRng) :
    (requestFrame P code handles names params (auth, os)).1 ≠ .panic := by
  by_cases hbuildable : auth.Buildable
  · obtain ⟨frame, places, hframe⟩ :=
      @requestFrame_of_buildable P code handles names params auth hbuildable os
    simp [hframe]
  · obtain ⟨e, herr⟩ :=
      @requestFrame_of_not_buildable P code handles names params auth hbuildable os
    simp [herr]

theorem Method.invoke_of_run {m : Method} {h : m.Plain} {q : Request} (hq : m.request h = .ok q)
    {env env' : Env τ} {o : Outcome Error RawResponse} (hrun : q.run P env = (o, env')) :
    m.invoke P env = (m.result h o, env') := by
  rw [m.invoke_eq h, hq, Exec.ofExcept_ok_bind]
  cases o with
  | ok resp => rw [Exec.bind_ok hrun, read_apply, result]
  | err e => rw [Exec.bind_err hrun, result]
  | panic => rw [Exec.bind_panic hrun, result]

/-- What a client does over a transport is its dialogue with it. -/
theorem Client.run_frames (c : Client α) (sessions : List Session) (t : τ) (os : OsRng) :
    ∃ os', (c.host sessions).run P ⟨t, .none, os⟩ =
      (.ok ((c.frames P sessions os).run Transport.transmit t).1,
        ⟨((c.frames P sessions os).run Transport.transmit t).2, .none, os'⟩) := by
  induction c generalizing sessions t os with
  | done a => exact ⟨os, rfl⟩
  | call m h who next ih =>
      rw [frames]
      cases hauth : who.auth sessions with
      | none =>
          obtain ⟨os', hrun⟩ := ih .panic sessions t os
          exact ⟨os', by rw [host, hauth]; exact hrun⟩
      | some auth =>
          cases hq : m.request h with
          | error e =>
              have hcall : m.invoke P ⟨t, auth, os⟩ = (.err e, ⟨t, auth, os⟩) := by
                rw [m.invoke_eq h, hq]
                rfl
              obtain ⟨os', hrun⟩ := ih (.err e) (who.returned sessions auth) t os
              exact ⟨os', (run_host_call hauth hcall).trans hrun⟩
          | ok q =>
              rcases hframe : requestFrame P q.code q.handles q.names q.params
                (q.auth auth, os) with ⟨o, sent, os'⟩
              cases o with
              | ok frame =>
                  have hcall := Method.invoke_of_run hq (Request.run_settles (t := t) hframe)
                  simp only [hframe]
                  rw [run_persist, run_host_call hauth hcall]
                  exact ih _ _ _ _
              | err e =>
                  have hcall := Method.invoke_of_run hq (Request.run_of_frame_err (t := t) hframe)
                  simp only [hframe]
                  rw [run_host_call hauth hcall]
                  exact ih _ _ _ _
              | panic => exact absurd (congrArg Prod.fst hframe) (requestFrame_ne_panic _ _)
  | openSession hashAlg next ih =>
      rw [frames, crypto.digestSize_eq]
      cases hd : Digest.ofAlg hashAlg with
      | none =>
          have hstart : startHmacSession P hashAlg ⟨t, .none, os⟩ =
              (.err (.usage "not a hash algorithm"), ⟨t, .none, os⟩) := by
            rw [startHmacSession, crypto.digestSize_eq, hd]
            rfl
          obtain ⟨os', hrun⟩ := ih (.err (.usage "not a hash algorithm")) sessions t os
          exact ⟨os', (run_host_openSession hstart).trans hrun⟩
      | some d =>
          simp only
          rw [run_persist,
            run_host_openSession (startHmacSession_settles hd t os)]
          exact ih _ _ _ _

end Run

end PurecryptoTpm
