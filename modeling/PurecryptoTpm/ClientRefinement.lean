import PurecryptoTpm.Refinement

/-!
The stack in front of a TPM does what the TPM would do if it were asked
directly. The dialogues of a host, one of frames and one of orders, stand at
the same point after every transmission, whatever becomes of other hosts'
sessions in between. So a client over the wire returns what it is told by the
service, and leaves the service in the same state, however many sessions it has
open and in whatever order it uses them.
-/

namespace PurecryptoTpm

open Exec

/-! ### The sessions of one host -/

/-- A host's own sessions are those under its numbers. -/
structure Owns (sessions own : List Session) (mine : List ℕ) : Prop where
  same : own.map some = mine.map fun number => sessions[number]?
  nodup : mine.Nodup

section Owns

variable {sessions sessions' own : List Session} {mine : List ℕ} {who who' : Who}

theorem Owns.get (h : Owns sessions own mine) (i : ℕ) :
    own[i]?.map some = mine[i]?.map fun number => sessions[number]? := by
  rw [← List.getElem?_map, h.same, List.getElem?_map]

theorem Owns.lt (h : Owns sessions own mine) {number : ℕ} (hmine : number ∈ mine) :
    number < sessions.length := by
  have hsome : sessions[number]? ∈ own.map some := h.same ▸ List.mem_map_of_mem hmine
  obtain ⟨s, -, hs⟩ := List.mem_map.mp hsome
  exact (List.getElem?_eq_some_iff.mp hs.symm).1

/-- Other hosts' sessions do not matter. -/
theorem Owns.keep (h : Owns sessions own mine)
    (hkeep : ∀ number ∈ mine, sessions'[number]? = sessions[number]?) :
    Owns sessions' own mine where
  same := h.same.trans (List.map_congr_left fun number hmine => (hkeep number hmine).symm)
  nodup := h.nodup

/-- A choice by number stands for the same authorization, if the session is there. -/
theorem Owns.auth (h : Owns sessions own mine) (hnumber : who.number mine = some who') :
    ∃ auth, who.auth own = some auth ∧ who'.auth sessions = some auth := by
  cases who with
  | anyone =>
      obtain rfl := Option.some.inj hnumber
      exact ⟨_, rfl, rfl⟩
  | password pw =>
      obtain rfl := Option.some.inj hnumber
      exact ⟨_, rfl, rfl⟩
  | session i authValue attributes =>
      obtain ⟨number, hi, rfl⟩ := Option.map_eq_some_iff.mp hnumber
      have hget := h.get i
      rw [hi, Option.map_some, Option.map_eq_some_iff] at hget
      obtain ⟨s, hown, hs⟩ := hget
      exact ⟨_, by rw [Who.auth, hown, Option.map_some], by rw [Who.auth, ← hs, Option.map_some]⟩

theorem Owns.auth_none (h : Owns sessions own mine) (hnumber : who.number mine = none) :
    who.auth own = none := by
  cases who with
  | anyone => simp [Who.number] at hnumber
  | password pw => simp [Who.number] at hnumber
  | session i authValue attributes =>
      have hi : mine[i]? = none := Option.map_eq_none_iff.mp hnumber
      have hget := h.get i
      rw [hi, Option.map_none, Option.map_eq_none_iff] at hget
      rw [Who.auth, hget, Option.map_none]

theorem Who.mem_of_number {number : ℕ} {authValue : Bytes} {attributes : SessionAttributes}
    (hnumber : who.number mine = some (.session number authValue attributes)) :
    number ∈ mine := by
  cases who with
  | anyone => simp [Who.number] at hnumber
  | password pw => simp [Who.number] at hnumber
  | session i authValue' attributes' =>
      obtain ⟨number', hi, heq⟩ := Option.map_eq_some_iff.mp hnumber
      obtain ⟨rfl, -, -⟩ := Who.session.inj heq
      exact List.mem_of_getElem? hi

theorem Who.auth_keep (hnumber : who.number mine = some who')
    (hkeep : ∀ number ∈ mine, sessions'[number]? = sessions[number]?) :
    who'.auth sessions' = who'.auth sessions := by
  cases who' with
  | anyone => rfl
  | password pw => rfl
  | session number authValue attributes =>
      rw [Who.auth, Who.auth, hkeep number (mem_of_number hnumber)]

/-- Only a host's own sessions are replaced when one is taken back. -/
theorem Who.returned_keep (hnumber : who.number mine = some who') (auth : Auth) {number : ℕ}
    (hmine : number ∉ mine) : (who'.returned sessions auth)[number]? = sessions[number]? := by
  cases who' with
  | anyone => rfl
  | password pw => rfl
  | session number' authValue attributes =>
      cases auth with
      | none => rfl
      | password pw => rfl
      | session s authValue' =>
          refine List.getElem?_set_ne ?_
          rintro rfl
          exact hmine (mem_of_number hnumber)

theorem Who.length_returned (auth : Auth) :
    (who.returned sessions auth).length = sessions.length := by
  rcases who with _ | _ | _ <;> rcases auth with _ | _ | _ <;> simp [Who.returned]

theorem Owns.returned (h : Owns sessions own mine) (hnumber : who.number mine = some who')
    (auth : Auth) : Owns (who'.returned sessions auth) (who.returned own auth) mine := by
  cases who with
  | anyone =>
      obtain rfl := Option.some.inj hnumber
      exact h
  | password pw =>
      obtain rfl := Option.some.inj hnumber
      exact h
  | session i authValue attributes =>
      obtain ⟨number, hi, rfl⟩ := Option.map_eq_some_iff.mp hnumber
      cases auth with
      | none => exact h
      | password pw => exact h
      | session s authValue' =>
          refine ⟨?_, h.nodup⟩
          have hnumber := h.lt (List.mem_of_getElem? hi)
          obtain ⟨hlt, -⟩ := List.getElem?_eq_some_iff.mp hi
          show (own.set i s).map some = mine.map fun j => (sessions.set number s)[j]?
          rw [List.map_set, h.same]
          ext1 j
          by_cases hij : i = j
          · subst hij
            rw [List.getElem?_set_self (by simpa using hlt), List.getElem?_map, hi,
              Option.map_some, List.getElem?_set_self hnumber]
          · rw [List.getElem?_set_ne hij, List.getElem?_map, List.getElem?_map]
            refine Option.map_congr fun other hother => ?_
            have hne : number ≠ other := by
              rintro rfl
              exact hij ((List.getElem?_inj hlt h.nodup).mp (hi.trans hother.symm))
            rw [List.getElem?_set_ne hne]

theorem Owns.append (h : Owns sessions own mine) (s : Session) :
    Owns (sessions ++ [s]) (own ++ [s]) (mine ++ [sessions.length]) where
  same := by
    rw [List.map_append, List.map_append, h.same, List.map_singleton, List.map_singleton,
      List.getElem?_concat_length]
    congr 1
    refine List.map_congr_left fun number hmine => ?_
    rw [List.getElem?_append_left (h.lt hmine)]
  nodup := by
    refine List.Nodup.append h.nodup (List.nodup_singleton _) ?_
    intro number hmine hlast
    obtain rfl := List.mem_singleton.mp hlast
    exact Nat.lt_irrefl _ (h.lt hmine)

end Owns

/-! ### One host -/

/-- The dialogues of one host stand at the same point: both are over, or the
same request or session start has some resubmissions left. -/
inductive Alike (P : Purecrypto) {α : Type} (sessions : List Session) (mine : List ℕ) :
    Frames α → Orders α → Prop where
  | done (a : α) : Alike P sessions mine (.done a) (.done a)
  | call {m : Method} {h : m.Plain} {who who' : Who} {next : Outcome Error m.Result → Client α}
      {own : List Session} {q : Request} {auth sent : Auth} {os : OsRng} {frame : Bytes}
      {ask : Ask} (n : ℕ) (howns : Owns sessions own mine) (hshort : ∀ o, (next o).Short)
      (hnumber : who.number mine = some who') (hauth : who'.auth sessions = some auth)
      (hq : q.Fits) (hflight : InFlight P sessions q (q.under who') sent frame ask) :
      Alike P sessions mine
        (.persist TransientOutcome frame (resumeCall P h who own q auth sent fun o sessions =>
          (next o).frames P sessions os) n)
        (.persist Told.Transient ask (fun told =>
          (next (m.result h told.reply.outcome)).orders mine) n)
  | start {hashAlg : Alg} {digest : Digest} {next : Outcome Error Handle → Client α}
      {own : List Session} {os : OsRng} {nonce : Bytes} (n : ℕ) (howns : Owns sessions own mine)
      (hshort : ∀ o, (next o).Short) (hdigest : Digest.ofAlg hashAlg = some digest)
      (hnonce : nonce.length < 65536) :
      Alike P sessions mine
        (.persist TransientOutcome (Server.startFrame nonce hashAlg)
          (resumeStart P hashAlg nonce own fun o sessions => (next o).frames P sessions os) n)
        (.persist Told.Transient (.openSession hashAlg) (fun told =>
          (next (told.opened mine).1).orders (told.opened mine).2) n)

section Host

variable {P : Purecrypto} {S α : Type} {svc : Service S} {sessions sessions' own : List Session}
  {mine : List ℕ} {server : Server P S} {d : Direct S} {q : Request} {who who' : Who}

theorem InFlight.keep {sent : Auth} {frame : Bytes} {ask : Ask}
    (h : InFlight P sessions q (q.under who') sent frame ask)
    (hnumber : who.number mine = some who')
    (hkeep : ∀ number ∈ mine, sessions'[number]? = sessions[number]?) :
    InFlight P sessions' q (q.under who') sent frame ask := by
  generalize hwho : q.under who' = eff at h
  cases h with
  | anyone => exact .anyone
  | password hpw => exact .password hpw
  | @session number s authValue nonce attributes digest hs hdigest hnonce =>
      have hmine : number ∈ mine := by
        rw [Request.under] at hwho
        split at hwho
        · exact Who.mem_of_number (hnumber.trans (congrArg some hwho))
        · simp at hwho
      exact .session ((hkeep number hmine).trans hs) hdigest hnonce

/-- What becomes of the others' sessions does not matter to a host. -/
theorem Alike.keep {frames : Frames α} {orders : Orders α}
    (h : Alike P sessions mine frames orders)
    (hkeep : ∀ number ∈ mine, sessions'[number]? = sessions[number]?) :
    Alike P sessions' mine frames orders := by
  cases h with
  | done a => exact .done a
  | call n howns hshort hnumber hauth hq hflight =>
      exact .call n (howns.keep hkeep) hshort hnumber
        ((Who.auth_keep hnumber hkeep).trans hauth) hq (hflight.keep hnumber hkeep)
  | start n howns hshort hdigest hnonce =>
      exact .start n (howns.keep hkeep) hshort hdigest hnonce

/-- A request that goes out is in flight on both sides, and one that cannot be
built fails on both. -/
theorem Tracks.inFlight (h : Tracks svc sessions server d) {auth : Auth}
    (hauth : who'.auth sessions = some auth) (q : Request) (os : OsRng) :
    (∃ e, requestFrame P q.code q.handles q.names q.params (q.auth auth, os) =
        (.err e, q.auth auth, os) ∧ q.asked (q.under who') = .error e) ∨
      ∃ frame sent os' ask, requestFrame P q.code q.handles q.names q.params (q.auth auth, os) =
          (.ok frame, sent, os') ∧ q.asked (q.under who') = .ok ask ∧
        InFlight P sessions q (q.under who') sent frame ask := by
  cases hauthorized : q.authorized with
  | false =>
      simp only [Request.auth, Request.under, hauthorized, Bool.false_eq_true, if_false]
      exact .inr ⟨_, _, _, _, requestFrame_none, rfl, .anyone⟩
  | true =>
      simp only [Request.auth, Request.under, hauthorized, if_true]
      cases who' with
      | anyone =>
          obtain rfl := Option.some.inj hauth
          exact .inr ⟨_, _, _, _, requestFrame_none, rfl, .anyone⟩
      | password pw =>
          obtain rfl := Option.some.inj hauth
          rcases Nat.lt_or_ge pw.length 65536 with hpw | hlong
          · exact .inr ⟨_, _, _, _, requestFrame_password hpw, if_pos hpw, .password hpw⟩
          · exact .inl ⟨_, requestFrame_password_long hlong, if_neg (Nat.not_lt.mpr hlong)⟩
      | session number authValue attributes =>
          obtain ⟨s, hs, rfl⟩ := Option.map_eq_some_iff.mp hauth
          obtain ⟨-, digest, hdigest⟩ := h.usable s (List.mem_of_getElem? hs)
          exact .inr ⟨_, _, _, _, requestFrame_session hdigest, rfl,
            @InFlight.session _ _ _ _ s _ _ attributes _ hs hdigest (os.length_drawn digest.size)⟩

/-- Nothing but a host's own sessions changes until its next frame. -/
theorem Tracks.resumes {c : Client α} (hshort : c.Short) (h : Tracks svc sessions server d)
    (howns : Owns sessions own mine) (os : OsRng) :
    ∃ sessions', Tracks svc sessions' server d ∧ sessions'.length = sessions.length ∧
      (∀ number ∉ mine, sessions'[number]? = sessions[number]?) ∧
      Alike P sessions' mine (c.frames P own os) (c.orders mine) := by
  induction c generalizing sessions own os with
  | done a => exact ⟨sessions, h, rfl, fun _ _ => rfl, .done a⟩
  | call m hplain who next ih =>
      obtain ⟨hm, hnext⟩ := hshort
      rw [Client.frames, Client.orders]
      cases hnumber : who.number mine with
      | none =>
          rw [howns.auth_none hnumber]
          exact ih .panic (hnext _) h howns os
      | some who' =>
          obtain ⟨auth, hown, hauth⟩ := howns.auth hnumber
          rw [hown]
          -- the session that was lent is taken back without having been used
          have hreturned : ∀ e, ∃ sessions', Tracks svc sessions' server d ∧
              sessions'.length = sessions.length ∧
              (∀ number ∉ mine, sessions'[number]? = sessions[number]?) ∧
              Alike P sessions' mine ((next (.err e)).frames P (who.returned own auth) os)
                ((next (.err e)).orders mine) := by
            intro e
            obtain ⟨sessions', htracks, hlength, hkeep, halike⟩ := ih (.err e) (hnext _)
              (h.returned hauth) (howns.returned hnumber auth) os
            refine ⟨sessions', htracks, hlength.trans (Who.length_returned auth), ?_, halike⟩
            intro number hmine
            rw [hkeep number hmine, Who.returned_keep hnumber auth hmine]
          cases hq : m.request hplain with
          | error e => exact hreturned e
          | ok q =>
              rcases h.inFlight (P := P) hauth q os with ⟨e, hframe, hasked⟩ |
                ⟨frame, sent, os', ask, hframe, hasked, hflight⟩
              · have hrestored : q.restored auth (q.auth auth) = auth := by
                  cases hauthorized : q.authorized <;>
                    simp [Request.restored, Request.auth, hauthorized]
                simp only [hframe, hasked, hrestored]
                exact hreturned e
              · simp only [hframe, hasked]
                exact ⟨sessions, h, rfl, fun _ _ => rfl, .call _ howns hnext hnumber hauth
                  (Method.request_fits hplain hm hq) hflight⟩
  | openSession hashAlg next ih =>
      rw [Client.frames, Client.orders, crypto.digestSize_eq]
      cases hdigest : Digest.ofAlg hashAlg with
      | none => exact ih _ (hshort _) h howns os
      | some digest =>
          refine ⟨sessions, h, rfl, fun _ _ => rfl, .start _ howns hshort hdigest ?_⟩
          rw [OsRng.length_drawn]
          exact digest.size_lt

/-- What an answered frame leaves behind: the host's dialogues stand at the same
point again, other hosts' sessions are as they were, and numbers that are new to
the host are new altogether. -/
structure Answered (svc : Service S) (sessions : List Session) (mine : List ℕ)
    (server : Server P S) (frames : Frames α) (d : Direct S) (orders : Orders α)
    (sessions' : List Session) (mine' : List ℕ) : Prop where
  tracks : Tracks svc sessions' server d
  alike : Alike P sessions' mine' frames orders
  others : ∀ number < sessions.length, number ∉ mine → sessions'[number]? = sessions[number]?
  length : sessions.length ≤ sessions'.length
  numbers : ∀ number ∈ mine', number ∈ mine ∨
    sessions.length ≤ number ∧ number < sessions'.length

theorem Tracks.answered {c : Client α} (hshort : c.Short) (h : Tracks svc sessions server d)
    (howns : Owns sessions own mine) (os : OsRng) :
    ∃ sessions', Answered svc sessions mine server (c.frames P own os) d (c.orders mine)
      sessions' mine := by
  obtain ⟨sessions', htracks, hlength, hkeep, halike⟩ := h.resumes (P := P) hshort howns os
  exact ⟨sessions', htracks, halike, fun number _ hmine => hkeep number hmine, hlength.ge,
    fun number hmine => .inl hmine⟩

theorem Answered.of_returned {frames : Frames α} {orders : Orders α} {mine' : List ℕ}
    {auth : Auth} (hnumber : who.number mine = some who')
    (h : Answered svc (who'.returned sessions auth) mine server frames d orders sessions' mine') :
    Answered svc sessions mine server frames d orders sessions' mine' where
  tracks := h.tracks
  alike := h.alike
  others number hlt hmine := by
    rw [h.others number (by rwa [Who.length_returned]) hmine,
      Who.returned_keep hnumber auth hmine]
  length := @Who.length_returned sessions who' auth ▸ h.length
  numbers := @Who.length_returned sessions who' auth ▸ h.numbers

theorem Answered.of_append {frames : Frames α} {orders : Orders α} {s : Session}
    (h : Answered svc (sessions ++ [s]) (mine ++ [sessions.length]) server frames d orders
      sessions' (mine ++ [sessions.length])) :
    Answered svc sessions mine server frames d orders sessions'
      (mine ++ [sessions.length]) := by
  have hlength := h.length
  rw [List.length_append, List.length_singleton] at hlength
  refine ⟨h.tracks, h.alike, fun number hlt hmine => ?_, by omega, fun number hnumber => ?_⟩
  · rw [h.others number, List.getElem?_append_left hlt]
    · rw [List.length_append, List.length_singleton]
      omega
    · rw [List.mem_append, List.mem_singleton]
      exact not_or.mpr ⟨hmine, hlt.ne⟩
  · rcases List.mem_append.mp hnumber with hmine | hlast
    · exact .inl hmine
    · obtain rfl := List.mem_singleton.mp hlast
      exact .inr ⟨le_rfl, hlength⟩

theorem Tracks.delivered (h : Tracks svc sessions server d) (hq : q.Fits) {sent : Auth}
    {frame : Bytes} {ask : Ask} (hflight : InFlight P sessions q who sent frame ask)
    (hallows : svc.Allows ask d) :
    Delivered svc sessions q who sent (server.reply frame) (Direct.answer svc ask d) := by
  cases hflight with
  | anyone => exact h.delivered_anyone hq
  | password hpw => exact h.delivered_password hq hpw
  | session hs hdigest hnonce => exact h.delivered_session hq hs hdigest hnonce hallows

/-- What is left in the host is back in place, whether it went out or not. -/
theorem Tracks.restored {auth left : Auth} (h : Tracks svc ((q.under who').returned sessions left)
    server d) (hauth : who'.auth sessions = some auth) :
    Tracks svc (who'.returned sessions (q.restored auth left)) server d := by
  rw [Request.under] at h
  rw [Request.restored]
  cases hauthorized : q.authorized with
  | true =>
      rw [if_pos rfl]
      rwa [hauthorized, if_pos rfl] at h
  | false =>
      rw [if_neg Bool.false_ne_true]
      rw [hauthorized, if_neg Bool.false_ne_true] at h
      have h : Tracks svc sessions server d := h
      exact h.returned hauth

/-- The dialogues of a host are over together, or the frame and the order at
their heads are answered alike. -/
theorem Alike.cases_ask (svc : Service S) (server : Server P S) (d : Direct S)
    {frames : Frames α} {orders : Orders α} (h : Alike P sessions mine frames orders) :
    (∃ a, frames = .done a ∧ orders = .done a) ∨
      ∃ frame next ask next', frames = .ask frame next ∧ orders = .ask ask next' ∧
        (Tracks svc sessions server d → svc.Allows ask d →
          ∃ sessions' mine', Answered svc sessions mine (server.reply frame).2
            (next (.ok (server.reply frame).1)) (Direct.answer svc ask d).2
            (next' (Direct.answer svc ask d).1) sessions' mine') := by
  cases h with
  | done a => exact .inl ⟨a, rfl, rfl⟩
  | @call m hplain who who' next own q auth sent os frame ask n howns hshort hnumber hauth hq
      hflight =>
      refine .inr ⟨_, _, _, _, Dialogue.persist_eq .., Dialogue.persist_eq .., fun h hallows => ?_⟩
      obtain ⟨htransient, hagain, left, hinterpret, hfinal⟩ := h.delivered hq hflight hallows
      by_cases hmore : 0 < n ∧ (Direct.answer svc ask d).1.Transient
      · rw [if_pos hmore, if_pos (hmore.imp_right htransient.mpr)]
        exact ⟨sessions, mine, hagain hmore.2, .call _ howns hshort hnumber hauth hq hflight,
          fun _ _ _ => rfl, le_rfl, fun _ hmine => .inl hmine⟩
      · rw [if_neg hmore, if_neg fun hframe => hmore (hframe.imp_right htransient.mp), resumeCall,
          hinterpret]
        obtain ⟨sessions', hanswered⟩ := (hfinal.restored hauth).answered (P := P)
          (hshort (m.result hplain (Direct.answer svc ask d).1.reply.outcome))
          (howns.returned hnumber (q.restored auth left)) os
        exact ⟨sessions', mine, hanswered.of_returned hnumber⟩
  | @start hashAlg digest next own os nonce n howns hshort hdigest hnonce =>
      refine .inr ⟨_, _, _, _, Dialogue.persist_eq .., Dialogue.persist_eq .., fun h _ => ?_⟩
      obtain ⟨htransient, hagain, hfinal⟩ := h.delivered_start (P := P) hnonce hdigest
      by_cases hmore : 0 < n ∧ (Direct.answer svc (.openSession hashAlg) d).1.Transient
      · rw [if_pos hmore, if_pos (hmore.imp_right htransient.mpr)]
        exact ⟨sessions, mine, hagain hmore.2, .start _ howns hshort hdigest hnonce,
          fun _ _ _ => rfl, le_rfl, fun _ hmine => .inl hmine⟩
      · rw [if_neg hmore, if_neg fun hframe => hmore (hframe.imp_right htransient.mp), resumeStart]
        rcases hfinal with ⟨s, hok, hopened, htracks⟩ | ⟨e, herr, hopened, htracks⟩
        · obtain ⟨sessions', hanswered⟩ := htracks.answered (P := P) (hshort (.ok s.handle))
            (howns.append s) os
          rw [hok, hopened mine]
          exact ⟨sessions', _, hanswered.of_append⟩
        · obtain ⟨sessions', hanswered⟩ := htracks.answered (P := P) (hshort (.err e)) howns os
          rw [herr, hopened mine]
          exact ⟨sessions', mine, hanswered⟩

end Host

/-! ### One client -/

/-- The two dialogues of a host that has the TPM for itself. -/
def InStep {P : Purecrypto} {S α : Type} (svc : Service S) (server : Server P S)
    (frames : Frames α) (d : Direct S) (orders : Orders α) : Prop :=
  ∃ sessions mine, Tracks svc sessions server d ∧ Alike P sessions mine frames orders

section Client

variable {P : Purecrypto} {S α : Type} {svc : Service S} {server : Server P S}
  {frames : Frames α} {d : Direct S} {c : Client α} {t : S}

theorem InStep.done {a : α} (h : InStep svc server frames d (.done a)) : frames = .done a := by
  obtain ⟨sessions, mine, -, halike⟩ := h
  rcases halike.cases_ask svc server d with ⟨b, hframes, hdone⟩ | ⟨_, _, _, _, -, hask, -⟩
  · rw [hframes, Dialogue.done.inj hdone]
  · cases hask

theorem InStep.ask {ask : Ask} {next' : Told → Orders α}
    (h : InStep svc server frames d (.ask ask next')) (hallows : svc.Allows ask d) :
    ∃ frame next, frames = .ask frame next ∧
      InStep svc (Transport.transmit frame server).2 (next (Transport.transmit frame server).1)
        (Direct.answer svc ask d).2 (next' (Direct.answer svc ask d).1) := by
  obtain ⟨sessions, mine, htracks, halike⟩ := h
  rcases halike.cases_ask svc server d with ⟨a, -, hdone⟩ |
    ⟨frame, next, ask', next'', hframes, hask, hanswered⟩
  · cases hdone
  · cases hask
    obtain ⟨sessions', mine', hanswered⟩ := hanswered htracks hallows
    exact ⟨frame, next, hframes, sessions', mine', hanswered.tracks, hanswered.alike⟩

/-- A client over the wire is told what it is told by the service itself. -/
theorem Client.refines (hshort : c.Short)
    (hallows : (c.orders []).Throughout (Direct.answer svc) svc.Allows (Direct.fresh t))
    (os os' : OsRng) :
    ∃ (server : Server P S) (sessions : List Session) (os'' : OsRng),
      (c.host []).run P ⟨Server.powerOn svc t os', .none, os⟩ =
        (.ok ((c.orders []).run (Direct.answer svc) (Direct.fresh t)).1, ⟨server, .none, os''⟩) ∧
      Tracks svc sessions server ((c.orders []).run (Direct.answer svc) (Direct.fresh t)).2 := by
  have howns : Owns [] [] [] := ⟨rfl, List.nodup_nil⟩
  have hfresh : Tracks svc [] (Server.powerOn svc t os' : Server P S) (Direct.fresh t) :=
    .fresh svc t os'
  obtain ⟨sessions, htracks, -, -, halike⟩ := hfresh.resumes hshort howns os
  have hstep : InStep svc (Server.powerOn svc t os') (c.frames P [] os) (Direct.fresh t)
      (c.orders []) := ⟨sessions, [], htracks, halike⟩
  obtain ⟨hresult, a, sessions', -, htracks', -⟩ :=
    Dialogue.run_related (R := InStep svc) (fun _ _ _ _ => InStep.done)
      (fun _ _ _ _ _ => InStep.ask) hstep hallows
  obtain ⟨os'', hrun⟩ := c.run_frames (P := P) [] (Server.powerOn svc t os' : Server P S) os
  rw [hresult] at hrun
  exact ⟨_, sessions', os'', hrun, htracks'⟩

end Client

/-- A client over the wire gets what it gets from the service itself, and the
service is left in the same state, with the same handles open. -/
theorem client_refines {S α : Type} (P : Purecrypto) (svc : Service S) (c : Client α)
    (hshort : c.Short) (t : S)
    (hallows : (c.orders []).Throughout (Direct.answer svc) svc.Allows (Direct.fresh t))
    (os os' : OsRng) :
    let wire := (c.host []).run P ⟨(Server.powerOn svc t os' : Server P S), .none, os⟩
    let direct := (c.orders []).run (Direct.answer svc) (Direct.fresh t)
    wire.1 = .ok direct.1 ∧ wire.2.transport.state = direct.2.state ∧
      ∀ h, (wire.2.transport.sessions h).isSome = (direct.2.live h).isSome := by
  intro wire direct
  obtain ⟨server, sessions, os'', hrun, htracks⟩ := Client.refines (P := P) hshort hallows os os'
  have hwire : wire = (.ok direct.1, ⟨server, .none, os''⟩) := hrun
  rw [hwire]
  refine ⟨rfl, htracks.state, fun h => ?_⟩
  have hcoupled := htracks.coupled h
  generalize server.sessions h = a, direct.2.live h = b at hcoupled ⊢
  cases hcoupled with
  | closed => rfl
  | opened hs hhandle hholds => rfl

/-! ### Two sessions at once -/

/-- A service with one secret and two sessions, which has to be asked for
everything twice. -/
def Service.forTwo : Service (Bool × Bool) where
  perform
    | _, (true, first) => (.error 0x922, (false, first))
    | .openSession _, (false, first) =>
        (.success [if first then ⟨0x02000000⟩ else ⟨0x02000001⟩] [], (true, !first))
    | .command code _ _ _, (false, first) =>
        (.success (List.replicate (responseHandles code) ⟨0x80000000⟩) (tpm2bBytes [42]),
          (true, first))
  directory _ := ⟨fun _ => [0x80, 0, 0, 0], fun _ => [1]⟩
  success_fits
    | _, (true, first), _, _, h => by simp at h
    | .openSession _, (false, first), _, _, rfl => ⟨rfl, by decide⟩
    | .command _ _ _ _, (false, first), _, _, rfl => ⟨List.length_replicate, by decide⟩
  error_ne_zero
    | _, (true, first), _, rfl => by decide
    | .openSession _, (false, first), _, h => by simp at h
    | .command _ _ _ _, (false, first), _, h => by simp at h
  session_ne_pw
    | _, (true, first), _, _, h => by simp at h
    | _, (false, true), _, _, rfl => by decide
    | _, (false, false), _, _, rfl => by decide

/-- Unseal over one of the sessions. -/
def unsealOver {α : Type} (i : ℕ) (attributes : UInt8) (next : Outcome Error Bytes → Client α) :
    Client α :=
  .call (.unseal_ ⟨0x80000000⟩ [0x80, 0, 0, 0]) trivial (.session i [1] ⟨attributes⟩) next

/-- Two sessions in turns. The first ends with its second use, and is used again. -/
def inTurns : Client (List (Outcome Error Bytes)) :=
  .openSession .sha256 fun _ => .openSession .sha1 fun _ =>
    unsealOver 0 SessionAttributes.continueSession fun a =>
      unsealOver 1 SessionAttributes.continueSession fun b =>
        unsealOver 0 0 fun c => unsealOver 0 0 fun d => .done [a, b, c, d]

theorem inTurns_short : inTurns.Short := by
  simp [inTurns, unsealOver, Client.Short, Method.Short]

theorem inTurns_allowed : (inTurns.orders []).Throughout (Direct.answer .forTwo)
    Service.forTwo.Allows (Direct.fresh (true, true)) := by
  have hattributes : ∀ raw : UInt8, raw = 0 ∨ raw = SessionAttributes.continueSession → raw &&&
      (SessionAttributes.decrypt ||| SessionAttributes.encrypt) = 0 := by
    rintro raw (rfl | rfl) <;> decide
  refine ⟨trivial, trivial, trivial, trivial, ?_, ?_, ?_, ?_, ?_, ?_, ?_, trivial⟩
  · exact ⟨_, rfl, .inr ⟨rfl, rfl, rfl, hattributes _ (.inr rfl)⟩⟩
  · exact ⟨_, rfl, .inr ⟨rfl, rfl, rfl, hattributes _ (.inr rfl)⟩⟩
  · exact ⟨_, rfl, .inr ⟨rfl, rfl, rfl, hattributes _ (.inr rfl)⟩⟩
  · exact ⟨_, rfl, .inr ⟨rfl, rfl, rfl, hattributes _ (.inr rfl)⟩⟩
  · exact ⟨_, rfl, .inr ⟨rfl, rfl, rfl, hattributes _ (.inl rfl)⟩⟩
  · exact ⟨_, rfl, .inr ⟨rfl, rfl, rfl, hattributes _ (.inl rfl)⟩⟩
  · -- the first session is gone
    exact ⟨_, rfl, .inl rfl⟩

/-- What comes of a generator that counts, behind its first bytes. -/
def counted (n w : ℕ) : Bytes := (OsRng.skip n ⟨fun i => UInt8.ofNat i⟩).drawn w

/-- The hashes over such an unseal and its response, and the HMACs that are made
of them under the auth value when the hosts draw zeros and the TPM counts. -/
def turnsCrypto : Purecrypto :=
  let cp256 :=
    BigEndian.bytes 32 0x3F3BA94BFF0BA273BF61B93D0E8D23FA9A1983DE360EBE592459C4BACA4530B5
  let rp256 :=
    BigEndian.bytes 32 0xE670B6420CDC3EF87787F7D64630B29BAAD2DD16853E6834F1CED5010895E94D
  let cp1 := BigEndian.bytes 20 0x015CC0248582570C203ADF4273EB6B10C1399E0D
  let rp1 := BigEndian.bytes 20 0x0709CE041721170C5EA6A8D7502067BDF640EB52
  let zeros n := List.replicate n (0 : UInt8)
  .ofValues
    [((.sha256, [0, 0, 0x01, 0x5E, 0x80, 0, 0, 0]), cp256),
      ((.sha256, [0, 0, 0, 0, 0, 0, 0x01, 0x5E, 0, 1, 42]), rp256),
      ((.sha1, [0, 0, 0x01, 0x5E, 0x80, 0, 0, 0]), cp1),
      ((.sha1, [0, 0, 0, 0, 0, 0, 0x01, 0x5E, 0, 1, 42]), rp1)]
    [((.sha256, [1], cp256 ++ zeros 32 ++ counted 0 32 ++ [1]),
        BigEndian.bytes 32 0x06FDFA6696674D57191275277A61051E3532E7F2F103C05125635D9E078C7C55),
      ((.sha256, [1], rp256 ++ counted 52 32 ++ zeros 32 ++ [1]),
        BigEndian.bytes 32 0xF085332D43F4CAB6685D37D8DE3BDFA6E90C621238FBCDBB69D4277B3DB0CC57),
      ((.sha1, [1], cp1 ++ zeros 20 ++ counted 32 20 ++ [1]),
        BigEndian.bytes 20 0xD0AF648EE73170817A24D31F2944D25FA80FDAA7),
      ((.sha1, [1], rp1 ++ counted 84 20 ++ zeros 20 ++ [1]),
        BigEndian.bytes 20 0x3AD7A13A80208BF67F0505F6B70B069867A3C776),
      ((.sha256, [1], cp256 ++ zeros 32 ++ counted 52 32 ++ [0]),
        BigEndian.bytes 32 0xDD4979F7AD7784329DFB20F36F9738B08B4ECD04199052A25156C25CF447EBE0),
      ((.sha256, [1], rp256 ++ counted 104 32 ++ zeros 32 ++ [0]),
        BigEndian.bytes 32 0x6531DD068F7DB9A2EE0082FEA035D6BEC153DDC61AD19FD7BBE4AE78D5776178),
      ((.sha256, [1], cp256 ++ zeros 32 ++ counted 104 32 ++ [0]),
        BigEndian.bytes 32 0xE8753B6ACA1959CA0F0A91CB72731007C5D2C25C8B119F1B392D30C5CC8587ED),
      ((.sha256, [1], rp256 ++ counted 32 32 ++ zeros 32 ++ [1]),
        BigEndian.bytes 32 0x5E770DCFE841A665AB228B2E1A162B9BDF7D7D652585FB28374B7BDEF479C01E),
      ((.sha256, [1], cp256 ++ zeros 32 ++ counted 64 32 ++ [1]),
        BigEndian.bytes 32 0x536A766593EF1F781D5D1447861BE2B7245E5E57B90F7F40082679C8AB1D58BB),
      ((.sha256, [1], rp256 ++ counted 96 32 ++ zeros 32 ++ [1]),
        BigEndian.bytes 32 0x8CC54AF7D4C75DFB0E56C619E4336CB6DB155DE6CC0392528F710821BD1C3433)]

theorem client_refines_inTurns :
    ((inTurns.host []).run turnsCrypto
      ⟨(Server.powerOn .forTwo (true, true) ⟨fun n => UInt8.ofNat n⟩ :
        Server turnsCrypto (Bool × Bool)), .none, ⟨fun _ => 0⟩⟩).1 =
      .ok [.ok [42], .ok [42], .ok [42], .err (.tpm ⟨0x918⟩)] :=
  (client_refines turnsCrypto .forTwo inTurns inTurns_short (true, true) inTurns_allowed
    ⟨fun _ => 0⟩ ⟨fun n => UInt8.ofNat n⟩).1.trans rfl

end PurecryptoTpm
