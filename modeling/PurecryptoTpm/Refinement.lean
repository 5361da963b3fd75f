import PurecryptoTpm.ClientDialogue

/-!
One transmission to the server is one order to the service. `Tracks` relates
the sessions of the hosts and the server to the service as clients see it:
every session that is still there is held by both ends with the same nonce. A
frame under any authorization, and one that starts a session, keep the
relation, and the reply is read for what the service says.
-/

namespace PurecryptoTpm

open Exec

/-! ### Sessions held by both ends -/

/-- What is behind a handle, at the server and to the client: nothing, or the
session that the host holds under this number. -/
inductive Coupled (sessions : List Session) (h : Handle) : Option Shared → Option ℕ → Prop where
  | closed : Coupled sessions h none none
  | opened {i : ℕ} {s : Session} {shared : Shared} (hs : sessions[i]? = some s)
      (hhandle : s.handle = h) (hholds : s.Holds shared) :
      Coupled sessions h (some shared) (some i)

/-- The host's sessions and the server, and the service as the client sees it. -/
structure Tracks {P : Purecrypto} {S : Type} (svc : Service S) (sessions : List Session)
    (server : Server P S) (d : Direct S) : Prop where
  service : server.service = svc
  state : server.state = d.state
  opened : sessions.map Session.handle = d.opened
  usable : ∀ s ∈ sessions, s.handle ≠ ⟨rh.pw⟩ ∧ ∃ digest, Digest.ofAlg s.hashAlg = some digest
  coupled : ∀ h, Coupled sessions h (server.sessions h) (d.live h)

section Tracks

variable {P : Purecrypto} {S : Type} {svc : Service S} {sessions : List Session}
  {server : Server P S} {d : Direct S} {i : ℕ} {s s' : Session}

theorem Tracks.fresh (svc : Service S) (t : S) (os : OsRng) :
    Tracks svc [] (Server.powerOn svc t os : Server P S) (Direct.fresh t) where
  service := rfl
  state := rfl
  opened := rfl
  usable := by simp
  coupled _ := .closed

theorem Tracks.moved (h : Tracks svc sessions server d) (t : S) :
    Tracks svc sessions ({ server with state := t } : Server P S) { d with state := t } where
  service := h.service
  state := rfl
  opened := h.opened
  usable := h.usable
  coupled := h.coupled

/-- Both ends drop the same sessions. -/
theorem Tracks.closing (h : Tracks svc sessions server d) (code : UInt32) (params : Bytes)
    (sentOver : Option (Handle × SessionAttributes)) :
    Tracks svc sessions (server.closing code params sentOver)
      { d with live := remaining code params sentOver d.live } where
  service := h.service
  state := h.state
  opened := h.opened
  usable := h.usable
  coupled handle := by
    show Coupled _ _ (remaining code params sentOver server.sessions handle)
      (remaining code params sentOver d.live handle)
    rw [remaining, remaining]
    split
    · exact .closed
    · exact h.coupled handle

/-- A handle other than its own does not notice that a session is replaced. -/
theorem Coupled.set {handle : Handle} {a : Option Shared} {b : Option ℕ}
    (h : Coupled sessions handle a b) (hi : sessions[i]? = some s) (hne : s.handle ≠ handle)
    (s' : Session) : Coupled (sessions.set i s') handle a b := by
  cases h with
  | closed => exact .closed
  | @opened j t shared ht hhandle hholds =>
      have hij : i ≠ j := by
        rintro rfl
        rw [hi] at ht
        exact hne (Option.some.inj ht ▸ hhandle)
      exact .opened (by rw [List.getElem?_set_ne hij, ht]) hhandle hholds

/-- A session is replaced at the host, and what the server keeps of it. -/
theorem Tracks.set (h : Tracks svc sessions server d) (hi : sessions[i]? = some s)
    (hhandle : s'.handle = s.handle) (husable : ∃ digest, Digest.ofAlg s'.hashAlg = some digest)
    {table : Handle → Option Shared} (htable : ∀ h, h ≠ s.handle → table h = server.sessions h)
    (hcoupled : Coupled (sessions.set i s') s.handle (table s.handle) (d.live s.handle))
    (os : OsRng) :
    Tracks svc (sessions.set i s') ({ server with sessions := table, os := os } : Server P S)
      d where
  service := h.service
  state := h.state
  opened := by
    obtain ⟨hlt, hget⟩ := List.getElem?_eq_some_iff.mp hi
    have hsame : (sessions.map Session.handle).set i s.handle = sessions.map Session.handle := by
      rw [← hget, ← List.getElem_map Session.handle (h := by simpa using hlt)]
      exact List.set_getElem_self _
    rw [List.map_set, hhandle, hsame, h.opened]
  usable t ht := by
    rcases List.mem_or_eq_of_mem_set ht with ht | rfl
    · exact h.usable t ht
    · exact ⟨hhandle ▸ (h.usable s (List.mem_of_getElem? hi)).1, husable⟩
  coupled handle := by
    by_cases heq : handle = s.handle
    · rw [heq]
      exact hcoupled
    · show Coupled _ _ (table handle) _
      rw [htable handle heq]
      exact (h.coupled handle).set hi (Ne.symm heq) s'

/-- What is behind a session's handle, as long as it is there. -/
theorem Tracks.shared (h : Tracks svc sessions server d) (hi : sessions[i]? = some s)
    (hlive : d.live s.handle = some i) :
    ∃ shared, server.sessions s.handle = some shared ∧ s.Holds shared := by
  have hcoupled := h.coupled s.handle
  rw [hlive] at hcoupled
  generalize hserver : server.sessions s.handle = a at hcoupled
  cases hcoupled with
  | @opened j t shared ht hhandle hholds =>
      rw [hi] at ht
      obtain rfl := Option.some.inj ht
      exact ⟨shared, rfl, hholds⟩

/-- Behind the handle of a session that is gone there is nothing. -/
theorem Tracks.gone (h : Tracks svc sessions server d) {handle : Handle}
    (hlive : d.live handle = none) : server.sessions handle = none := by
  have hcoupled := h.coupled handle
  rw [hlive] at hcoupled
  generalize server.sessions handle = a at hcoupled
  cases hcoupled
  rfl

/-- What both ends hold of a session is neither its attributes nor its last
command nonce. -/
theorem Tracks.set_same (h : Tracks svc sessions server d) (hi : sessions[i]? = some s)
    (hhandle : s'.handle = s.handle) (hhash : s'.hashAlg = s.hashAlg)
    (hholds : ∀ shared, s.Holds shared → s'.Holds shared) :
    Tracks svc (sessions.set i s') server d := by
  obtain ⟨hlt, -⟩ := List.getElem?_eq_some_iff.mp hi
  have husable := (h.usable s (List.mem_of_getElem? hi)).2
  refine h.set hi hhandle (hhash ▸ husable) (fun _ _ => rfl) ?_ server.os
  have hcoupled := h.coupled s.handle
  generalize server.sessions s.handle = a, d.live s.handle = b at hcoupled
  cases hcoupled with
  | closed => exact .closed
  | @opened j t shared ht htandle hold =>
      by_cases hij : i = j
      · subst hij
        rw [hi] at ht
        obtain rfl := Option.some.inj ht
        exact .opened (List.getElem?_set_self hlt) hhandle (hholds shared hold)
      · exact .opened (by rw [List.getElem?_set_ne hij, ht]) htandle hold

theorem Tracks.committed (h : Tracks svc sessions server d) (code : UInt32) (params : Bytes)
    (sentOver : Option (Handle × SessionAttributes)) (r : ServiceReply) (t : S) :
    Tracks svc sessions
      (r.commit (fun _ => Server.closing code params sentOver)
        ({ server with state := t } : Server P S))
      (r.commit (fun _ d => { d with live := remaining code params sentOver d.live })
        { d with state := t }) := by
  cases r with
  | success handles reply => exact (h.moved t).closing code params sentOver
  | error rc => exact h.moved t

/-- Over a session, only a success rolls the nonce and can close the session. -/
theorem Tracks.committed_over (h : Tracks svc sessions server d) (hi : sessions[i]? = some s)
    (hlive : d.live s.handle = some i) {shared : Shared}
    (hshared : server.sessions s.handle = some shared) (hhandle : s'.handle = s.handle)
    (code : UInt32) (params : Bytes) (attributes : SessionAttributes) {r : ServiceReply}
    (hholds : s'.Holds (r.commit (fun _ shared =>
      { shared with nonceTpm := server.os.drawn shared.digest.size }) shared)) (t : S) :
    Tracks svc (sessions.set i s')
      (r.commit (fun _ self => Server.closing code params (some (s.handle, attributes))
        (self.roll s.handle shared.digest)) ({ server with state := t } : Server P S))
      (r.commit (fun _ d =>
        { d with live := remaining code params (some (s.handle, attributes)) d.live })
        { d with state := t }) := by
  obtain ⟨hlt, -⟩ := List.getElem?_eq_some_iff.mp hi
  cases r with
  | success handles reply =>
      refine Tracks.closing ?_ code params (some (s.handle, attributes))
      refine (h.moved t).set hi hhandle ⟨_, hholds.digest⟩
        (fun handle hne => Function.update_of_ne hne _ _) ?_ _
      rw [Function.update_self, hlive]
      exact .opened (List.getElem?_set_self hlt) hhandle hholds
  | error rc =>
      refine (h.moved t).set hi hhandle ⟨_, hholds.digest⟩ (fun _ _ => rfl) ?_ server.os
      rw [hshared, hlive]
      exact .opened (List.getElem?_set_self hlt) hhandle hholds

/-- Lending a session and taking it back changes nothing the server knows of. -/
theorem Tracks.returned {who : Who} {auth : Auth} (h : Tracks svc sessions server d)
    (hauth : who.auth sessions = some auth) :
    Tracks svc (who.returned sessions auth) server d := by
  cases who with
  | anyone => exact h
  | password pw => exact h
  | session i authValue attributes =>
      obtain ⟨s, hi, rfl⟩ := Option.map_eq_some_iff.mp hauth
      exact h.set_same hi rfl rfl fun shared hholds =>
        ⟨hholds.digest, hholds.sessionKey, hholds.boundName, hholds.nonceTpm⟩

/-- Another session does not disturb those before it. -/
theorem Coupled.append {h : Handle} {a : Option Shared} {b : Option ℕ}
    (hcoupled : Coupled sessions h a b) (s : Session) : Coupled (sessions ++ [s]) h a b := by
  cases hcoupled with
  | closed => exact .closed
  | opened hs hhandle hholds =>
      have hlt := (List.getElem?_eq_some_iff.mp hs).1
      exact .opened (by rw [List.getElem?_append_left hlt, hs]) hhandle hholds

/-- Both ends enter a session under a handle, whatever was behind it before. -/
theorem Tracks.enter (h : Tracks svc sessions server d) {s : Session} {digest : Digest}
    (hpw : s.handle ≠ ⟨rh.pw⟩) (hholds : s.Holds ⟨digest, server.os.drawn digest.size⟩) :
    Tracks svc (sessions ++ [s]) (server.roll s.handle digest)
      (Direct.enter [s.handle] d) where
  service := h.service
  state := h.state
  opened := by
    rw [List.map_append, h.opened]
    rfl
  usable t ht := by
    rcases List.mem_append.mp ht with ht | ht
    · exact h.usable t ht
    · obtain rfl := List.mem_singleton.mp ht
      exact ⟨hpw, digest, hholds.digest⟩
  coupled handle := by
    have hlen : d.opened.length = sessions.length := by rw [← h.opened, List.length_map]
    show Coupled _ _ (Function.update server.sessions s.handle _ handle)
      (Function.update d.live s.handle _ handle)
    by_cases heq : handle = s.handle
    · subst heq
      rw [Function.update_self, Function.update_self, hlen]
      exact .opened List.getElem?_concat_length rfl hholds
    · rw [Function.update_of_ne heq, Function.update_of_ne heq]
      exact (h.coupled handle).append s

end Tracks

/-! ### One transmission -/

/-- A frame and what is asked with it, and the authorization left in the host
until the reply is read. Sessions are named by number. -/
inductive InFlight (P : Purecrypto) (sessions : List Session) (q : Request) :
    Who → Auth → Bytes → Ask → Prop where
  | anyone : InFlight P sessions q .anyone .none
      (commandFrame st.noSessions q.code (commandBody q.handles none q.params))
      (.submit q .anyone)
  | password {pw : Bytes} (hpw : pw.length < 65536) :
      InFlight P sessions q (.password pw) (.password pw)
        (commandFrame st.sessions q.code
          (commandBody q.handles (some (passwordEntry pw)) q.params))
        (.submit q (.password pw))
  | session {number : ℕ} {s : Session} {authValue nonce : Bytes} {attributes : SessionAttributes}
      {digest : Digest} (hs : sessions[number]? = some s)
      (hdigest : Digest.ofAlg s.hashAlg = some digest) (hnonce : nonce.length = digest.size) :
      InFlight P sessions q (.session number authValue attributes)
        (.session { s with attributes := attributes, nonceCaller := nonce } authValue)
        ((q.call authValue).frame P digest { s with attributes := attributes } nonce)
        (.submitOver q number authValue attributes)

/-- What the reply does to the host is what it is told by the service. -/
structure Delivered {P : Purecrypto} {S : Type} (svc : Service S) (sessions : List Session)
    (q : Request) (who : Who) (sent : Auth) (reply : Bytes × Server P S) (told : Told × Direct S) :
    Prop where
  transient : TransientOutcome (.ok reply.1) ↔ told.1.Transient
  again : told.1.Transient → Tracks svc sessions reply.2 told.2
  final : ∃ left, interpret P q.code q.names q.respHandles (.ok reply.1) sent =
      (told.1.reply.outcome, left) ∧ Tracks svc (who.returned sessions left) reply.2 told.2

section Delivered

variable {P : Purecrypto} {S : Type} {svc : Service S} {sessions : List Session}
  {server : Server P S} {d : Direct S} {q : Request}

/-- What the server answers is what the service says to the client. -/
theorem Tracks.reply (h : Tracks svc sessions server d) {frame : Bytes} {o : Order}
    {encode : ServiceReply → Bytes} {committed : List Handle → Server P S → Server P S}
    (hserves : server.Serves frame o encode committed) :
    server.reply frame = (encode (svc.perform o d.state).1,
      (svc.perform o d.state).1.commit committed
        { server with state := (svc.perform o d.state).2 }) := by
  rw [hserves.reply, Server.serve_apply, h.service, h.state]

/-- A transient reply commits neither end to anything. -/
theorem Tracks.again (h : Tracks svc sessions server d) {r : ServiceReply} (hr : r.Transient)
    (f : List Handle → Server P S → Server P S) (g : List Handle → Direct S → Direct S) (t : S) :
    Tracks svc sessions (r.commit f { server with state := t })
      (r.commit g { d with state := t }) := by
  rw [ServiceReply.commit_of_transient hr, ServiceReply.commit_of_transient hr]
  exact h.moved t

theorem Tracks.delivered_anyone (h : Tracks svc sessions server d) (hq : q.Fits) :
    Delivered svc sessions q .anyone .none
      (server.reply (commandFrame st.noSessions q.code (commandBody q.handles none q.params)))
      (Direct.answer svc (.submit q .anyone) d) := by
  have hserves := Server.serves_anyone hq server
  have hfits := hq.perform_fits svc .anyone d.state
  rw [h.reply hserves]
  refine ⟨hserves.transient _, fun hr => h.again hr _ _ _, .none, ?_, ?_⟩
  · have hinterpret := @interpret_bare P q.code q.names q.respHandles _ id hfits hq.respHandles_le
      fun params hparams => Nat.le_trans hparams (by decide)
    rwa [ServiceReply.map_id] at hinterpret
  · exact h.committed q.code q.params none _ _

theorem Tracks.delivered_password (h : Tracks svc sessions server d) (hq : q.Fits) {pw : Bytes}
    (hpw : pw.length < 65536) :
    Delivered svc sessions q (.password pw) (.password pw)
      (server.reply (commandFrame st.sessions q.code
        (commandBody q.handles (some (passwordEntry pw)) q.params)))
      (Direct.answer svc (.submit q (.password pw)) d) := by
  have hserves := Server.serves_password hq server hpw
  have hfits := hq.perform_fits svc (.password pw) d.state
  rw [h.reply hserves]
  exact ⟨hserves.transient _, fun hr => h.again hr _ _ _, .password pw,
    interpret_acknowledged hfits hq.respHandles_le pw, h.committed q.code q.params none _ _⟩

/-- The number of a session stands for its handle. -/
theorem Tracks.opened_at (h : Tracks svc sessions server d) {number : ℕ} {s : Session}
    (hs : sessions[number]? = some s) : d.opened[number]? = some s.handle := by
  rw [← h.opened, List.getElem?_map, hs, Option.map_some]

/-- Lending a session changes nothing that both ends hold of it. -/
theorem Session.Holds.lent {s : Session} {shared : Shared} (h : s.Holds shared)
    (attributes : SessionAttributes) (nonce : Bytes) :
    ({ s with attributes := attributes, nonceCaller := nonce } : Session).Holds shared :=
  ⟨h.digest, h.sessionKey, h.boundName, h.nonceTpm⟩

theorem Tracks.delivered_session (h : Tracks svc sessions server d) (hq : q.Fits) {number : ℕ}
    {s : Session} (hs : sessions[number]? = some s) {digest : Digest}
    (hdigest : Digest.ofAlg s.hashAlg = some digest) {nonce : Bytes}
    (hnonce : nonce.length = digest.size) {authValue : Bytes} {attributes : SessionAttributes}
    (hallows : svc.Allows (.submitOver q number authValue attributes) d) :
    Delivered svc sessions q (.session number authValue attributes)
      (.session { s with attributes := attributes, nonceCaller := nonce } authValue)
      (server.reply ((q.call authValue).frame P digest { s with attributes := attributes } nonce))
      (Direct.answer svc (.submitOver q number authValue attributes) d) := by
  obtain ⟨hpw, -⟩ := h.usable s (List.mem_of_getElem? hs)
  have hopened := h.opened_at hs
  obtain ⟨handle, hhandle, hpermitted⟩ := hallows
  obtain rfl : s.handle = handle := Option.some.inj (hopened.symm.trans hhandle)
  rcases hpermitted with hgone | ⟨hlive, hauthorized⟩
  · have hanswer : Direct.answer svc (.submitOver q number authValue attributes) d =
        (⟨.error 0x918, d.opened.length⟩, d) := by
      simp [Direct.answer, hopened, hgone]
    have hreply : server.reply ((q.call authValue).frame P digest
        { s with attributes := attributes } nonce) = (Peer.errorReply 0x918, server) :=
      Server.reply_unknown hq authValue hnonce hpw (h.gone hgone)
    have hnever : ¬ Told.Transient ⟨.error 0x918, d.opened.length⟩ := by
      show ¬ ((0x918 : UInt32) = 0x908 ∨ _)
      decide
    have hfinal : ¬ TransientOutcome (.ok (Peer.errorReply 0x918)) := by decide
    rw [hreply, hanswer]
    refine ⟨iff_of_false hfinal hnever, fun hr => absurd hr hnever, _,
      interpret_errorReply (by decide) _, ?_⟩
    exact h.set_same hs rfl rfl fun shared hholds => hholds.lent attributes nonce
  · obtain ⟨shared, hshared, hholds⟩ := h.shared hs hlive
    obtain rfl : digest = shared.digest := Option.some.inj (hdigest.symm.trans hholds.digest)
    have hanswer : Direct.answer svc (.submitOver q number authValue attributes) d =
        Direct.tell svc (q.order .session) (fun _ d =>
          { d with live := remaining q.code q.params (some (s.handle, attributes)) d.live }) d := by
      simp [Direct.answer, hopened, hlive]
    have hauthorized : q.Authorized (server.service.directory server.state) authValue
        attributes := by
      rw [h.service, h.state]
      exact hauthorized
    have hlent := hholds.lent attributes s.nonceCaller
    have hserves := Server.serves_session (P := P) hq hlent hpw hshared hauthorized hnonce
    have hfits := hq.perform_fits svc .session d.state
    obtain ⟨s', hinterpret, hhandle, hholds'⟩ := Server.interpret_over (P := P) hq hlent
      hauthorized hfits nonce
    rw [h.reply hserves, hanswer]
    exact ⟨hserves.transient _, fun hr => h.again hr _ _ _, .session s' authValue, hinterpret,
      h.committed_over hs hlive hshared hhandle q.code q.params attributes hholds' _⟩

/-- The two ends of a session start: both sides enter the same session, or none. -/
structure Started {P : Purecrypto} {S : Type} (svc : Service S) (sessions : List Session)
    (hashAlg : Alg) (nonceCaller : Bytes) (reply : Bytes × Server P S) (told : Told × Direct S) :
    Prop where
  transient : TransientOutcome (.ok reply.1) ↔ told.1.Transient
  again : told.1.Transient → Tracks svc sessions reply.2 told.2
  final : (∃ s, startOutcome P hashAlg nonceCaller
        (interpret P cc.startAuthSession [] 1 (.ok reply.1) .none).1 = .ok s ∧
      (∀ mine, told.1.opened mine = (.ok s.handle, mine ++ [sessions.length])) ∧
      Tracks svc (sessions ++ [s]) reply.2 told.2) ∨
    ∃ e, startOutcome P hashAlg nonceCaller
        (interpret P cc.startAuthSession [] 1 (.ok reply.1) .none).1 = .err e ∧
      (∀ mine, told.1.opened mine = (.err e, mine)) ∧ Tracks svc sessions reply.2 told.2

theorem startOutcome_of_nonce {hashAlg : Alg} {digest : Digest}
    (hdigest : Digest.ofAlg hashAlg = some digest) {nonceTpm : Bytes}
    (hnonce : nonceTpm.length < 65536) (nonceCaller : Bytes) (handle : Handle) :
    startOutcome P hashAlg nonceCaller (.ok ⟨[handle], tpm2bBytes nonceTpm⟩) =
      .ok ⟨handle, hashAlg, ⟨SessionAttributes.continueSession⟩, [], nonceTpm, nonceCaller,
        []⟩ := by
  have hread : (Exec.alone (Reader.new (tpm2bBytes nonceTpm)) Reader.tpm2b :
      Exec Error Unit Bytes) () = (.ok nonceTpm, ()) :=
    Reader.alone_new Reader.tpm2b_parses ⟨hnonce, rfl⟩ ()
  rw [startOutcome, readStart, Exec.index_head_bind, Exec.bind_ok hread,
    Session.new_unkeyed (crypto.digestSize_of_some hdigest)]

theorem Tracks.delivered_start (h : Tracks svc sessions server d) {nonceCaller : Bytes}
    (hnonce : nonceCaller.length < 65536) {hashAlg : Alg} {digest : Digest}
    (hdigest : Digest.ofAlg hashAlg = some digest) :
    Started svc sessions hashAlg nonceCaller
      (server.reply (Server.startFrame nonceCaller hashAlg))
      (Direct.answer svc (.openSession hashAlg) d) := by
  have hserves := server.serves_start hnonce hdigest
  have hfits := svc.perform_fits (.openSession hashAlg) d.state
  have hpw := svc.session_ne_pw hashAlg d.state
  have hlen : (server.os.drawn digest.size).length ≤ 64 := by
    rw [OsRng.length_drawn]
    exact digest.size_le
  rw [h.reply hserves, Direct.answer, Direct.tell_apply]
  generalize svc.perform (.openSession hashAlg) d.state = performed at hfits hpw ⊢
  obtain ⟨r, t⟩ := performed
  have hinterpret := @interpret_bare P cc.startAuthSession [] 1 r
    (fun _ => tpm2bBytes (server.os.drawn digest.size)) hfits le_rfl fun params _ => by
      rw [length_tpm2bBytes]
      omega
  refine ⟨hserves.transient r, fun hr => h.again hr _ _ t, ?_⟩
  dsimp only
  rw [hinterpret]
  cases r with
  | error rc => exact .inr ⟨_, rfl, fun _ => rfl, h.moved t⟩
  | success handles params =>
      obtain ⟨handle, rfl⟩ := List.length_eq_one_iff.mp hfits.1
      refine .inl ⟨_, startOutcome_of_nonce hdigest (by omega) nonceCaller handle, ?_,
        (h.moved t).enter (hpw handle params rfl) ⟨hdigest, rfl, rfl, rfl⟩⟩
      intro mine
      show (_, mine ++ [d.opened.length]) = _
      rw [← h.opened, List.length_map]

end Delivered

end PurecryptoTpm
