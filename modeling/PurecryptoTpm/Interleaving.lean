import PurecryptoTpm.ClientRefinement

/-!
Hosts that share a TPM. Each holds its dialogue of frames with the same server,
and a schedule says whose frame the server receives next, down to the single
transmission: between a frame and its resubmission others may send anything.
Under every schedule, each client gets what it gets when its orders are put to
the service at the same turns. The sessions of all hosts are numbered together;
a host's own are those under its numbers, and no number is shared.
-/

namespace PurecryptoTpm

open Exec

/-! ### All hosts -/

/-- The hosts stand where their orders stand, and no two share a session. -/
structure Sharing {P : Purecrypto} {S α ι : Type} (svc : Service S) (server : Server P S)
    (frames : ι → Frames α) (d : Direct S) (orders : ι → Orders α) (sessions : List Session)
    (mine : ι → List ℕ) : Prop where
  tracks : Tracks svc sessions server d
  alike : ∀ i, Alike P sessions (mine i) (frames i) (orders i)
  lt : ∀ i, ∀ number ∈ mine i, number < sessions.length
  apart : ∀ i j, i ≠ j → ∀ number ∈ mine i, number ∉ mine j

section Hosts

variable {P : Purecrypto} {S α ι : Type} {svc : Service S} {server : Server P S}
  {frames : ι → Frames α} {d : Direct S} {orders : ι → Orders α} {sessions : List Session}
  {mine : ι → List ℕ}

theorem Sharing.fresh (svc : Service S) (t : S) (os : OsRng) {clients : ι → Client α}
    (hshort : ∀ i, (clients i).Short) (rngs : ι → OsRng) :
    Sharing svc (Server.powerOn svc t os : Server P S)
      (fun i => (clients i).frames P [] (rngs i)) (Direct.fresh t)
      (fun i => (clients i).orders []) [] fun _ => [] where
  tracks := .fresh svc t os
  alike i := by
    have howns : Owns [] [] [] := ⟨rfl, List.nodup_nil⟩
    obtain ⟨sessions, -, hlength, -, halike⟩ := (Tracks.fresh svc t os).resumes (P := P)
      (hshort i) howns (rngs i)
    rwa [List.length_eq_zero_iff.mp hlength] at halike
  lt := by simp
  apart := by simp

variable [DecidableEq ι]

/-- The others are where they were when one host has been answered. -/
theorem Sharing.answered (h : Sharing svc server frames d orders sessions mine) {i : ι}
    {server' : Server P S} {d' : Direct S} {hostFrames : Frames α} {hostOrders : Orders α}
    {sessions' : List Session} {mine' : List ℕ}
    (hanswered : Answered svc sessions (mine i) server' hostFrames d' hostOrders sessions' mine') :
    Sharing svc server' (Function.update frames i hostFrames) d'
      (Function.update orders i hostOrders) sessions' (Function.update mine i mine') where
  tracks := hanswered.tracks
  alike j := by
    by_cases hj : j = i
    · subst hj
      simp only [Function.update_self]
      exact hanswered.alike
    · simp only [Function.update_of_ne hj]
      refine (h.alike j).keep fun number hnumber => ?_
      exact hanswered.others number (h.lt j number hnumber) (h.apart j i hj number hnumber)
  lt j number hnumber := by
    have hlength := hanswered.length
    by_cases hj : j = i
    · subst hj
      rw [Function.update_self] at hnumber
      rcases hanswered.numbers number hnumber with hmine | ⟨-, hlt⟩
      · exact (h.lt j number hmine).trans_le hlength
      · exact hlt
    · rw [Function.update_of_ne hj] at hnumber
      exact (h.lt j number hnumber).trans_le hlength
  apart j k hjk number hnumber hother := by
    -- a number new to the host is new to the others
    have hnew : ∀ k, k ≠ i → number ∈ mine' → number ∉ mine k := by
      intro k hk hnumber hother
      rcases hanswered.numbers number hnumber with hmine | ⟨hge, -⟩
      · exact h.apart i k (Ne.symm hk) number hmine hother
      · exact absurd (h.lt k number hother) (Nat.not_lt.mpr hge)
    by_cases hj : j = i
    · subst hj
      rw [Function.update_self] at hnumber
      rw [Function.update_of_ne (Ne.symm hjk)] at hother
      exact hnew k (Ne.symm hjk) hnumber hother
    · rw [Function.update_of_ne hj] at hnumber
      by_cases hk : k = i
      · subst hk
        rw [Function.update_self] at hother
        exact hnew j hj hother hnumber
      · rw [Function.update_of_ne hk] at hother
        exact h.apart j k hjk number hnumber hother

/-- A transmission of one host and its order at the service. -/
theorem Sharing.turn (h : Sharing svc server frames d orders sessions mine) (i : ι)
    (hallows : ∀ ask next, orders i = .ask ask next → svc.Allows ask d) :
    ∃ sessions' mine', Sharing svc (Dialogue.turn Transport.transmit server frames i).1
      (Dialogue.turn Transport.transmit server frames i).2
      (Dialogue.turn (Direct.answer svc) d orders i).1
      (Dialogue.turn (Direct.answer svc) d orders i).2 sessions' mine' := by
  rcases (h.alike i).cases_ask svc server d with
    ⟨a, hframes, horders⟩ | ⟨frame, next, ask, next', hframes, horders, hanswered⟩
  · rw [Dialogue.turn_of_done hframes, Dialogue.turn_of_done horders]
    exact ⟨sessions, mine, h⟩
  · obtain ⟨sessions', mine', hanswered⟩ := hanswered h.tracks (hallows ask next' horders)
    rw [Dialogue.turn_of_ask hframes, Dialogue.turn_of_ask horders]
    exact ⟨sessions', Function.update mine i mine', h.answered hanswered⟩

end Hosts

/-- Hosts that share a TPM get, under any schedule of their transmissions, what
their clients get when their orders are put to the service under the same
schedule, and leave the service in the same state. -/
theorem hosts_interleave {S α ι : Type} [DecidableEq ι] (P : Purecrypto) (svc : Service S)
    (clients : ι → Client α) (hshort : ∀ i, (clients i).Short) (t : S) (os : OsRng)
    (rngs : ι → OsRng) (schedule : List ι)
    (hallows : Dialogue.Along (Direct.answer svc) svc.Allows schedule (Direct.fresh t)
      fun i => (clients i).orders []) :
    let wire := Dialogue.turns Transport.transmit schedule
      (Server.powerOn svc t os : Server P S) fun i => (clients i).frames P [] (rngs i)
    let direct := Dialogue.turns (Direct.answer svc) schedule (Direct.fresh t)
      fun i => (clients i).orders []
    (∀ i, (wire.2 i).result? = (direct.2 i).result?) ∧ wire.1.state = direct.1.state := by
  intro wire direct
  obtain ⟨sessions, mine, h⟩ : ∃ sessions mine,
      Sharing svc wire.1 wire.2 direct.1 direct.2 sessions mine :=
    Dialogue.turns_related (R := fun server frames d orders =>
        ∃ sessions mine, Sharing svc server frames d orders sessions mine)
      (fun i _ _ _ _ ⟨_, _, h⟩ hallows => h.turn i hallows) schedule
      ⟨_, _, Sharing.fresh svc t os hshort rngs⟩ hallows
  refine ⟨fun i => ?_, h.tracks.state⟩
  rcases (h.alike i).cases_ask svc wire.1 direct.1 with
    ⟨a, hframes, horders⟩ | ⟨frame, next, ask, next', hframes, horders, -⟩
  · rw [hframes, horders]
    rfl
  · rw [hframes, horders]
    rfl

/-- Open a session and unseal over it. -/
def unsealOnce : Client (Outcome Error Bytes) :=
  .openSession .sha256 fun _ => unsealOver 0 SessionAttributes.continueSession .done

/-- Two hosts, one of which is let in between the transmissions of the other's
first request. -/
def takingTurns : List Bool := [true, false, true, false, true, true, true, true]

theorem unsealOnce_allowed :
    Dialogue.Along (Direct.answer .forTwo) Service.forTwo.Allows takingTurns
      (Direct.fresh (true, true)) fun _ => unsealOnce.orders [] := by
  refine ⟨Dialogue.head_allowed rfl trivial, Dialogue.head_allowed rfl trivial,
    Dialogue.head_allowed rfl trivial, Dialogue.head_allowed rfl ?_,
    Dialogue.head_allowed rfl trivial, Dialogue.head_allowed rfl trivial,
    Dialogue.head_allowed rfl ?_, Dialogue.head_allowed rfl ?_, trivial⟩
  · exact ⟨_, rfl, .inr ⟨rfl, rfl, rfl, by decide⟩⟩
  · exact ⟨_, rfl, .inr ⟨rfl, rfl, rfl, by decide⟩⟩
  · exact ⟨_, rfl, .inr ⟨rfl, rfl, rfl, by decide⟩⟩

theorem hosts_interleave_unsealOnce :
    ((Dialogue.turns Transport.transmit takingTurns
      (Server.powerOn .forTwo (true, true) ⟨fun n => UInt8.ofNat n⟩ :
        Server turnsCrypto (Bool × Bool))
      fun _ => unsealOnce.frames turnsCrypto [] ⟨fun _ => 0⟩).2 true).result? =
        some (.ok [42]) :=
  ((hosts_interleave turnsCrypto .forTwo (fun _ : Bool => unsealOnce)
    (fun _ _ => ⟨trivial, fun _ => trivial⟩) (true, true) ⟨fun n => UInt8.ofNat n⟩
    (fun _ => ⟨fun _ => 0⟩) takingTurns unsealOnce_allowed).1 true).trans rfl

end PurecryptoTpm
