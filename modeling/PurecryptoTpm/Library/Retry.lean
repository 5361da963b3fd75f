import PurecryptoTpm.Library.Exec

/-!
A bounded retry loop. A round hands its outcome to the loop; an outcome that
calls for another attempt is discarded as long as attempts are left, and any
other outcome ends the loop. An error of the round itself is not an outcome
and ends the loop at once.

`Discards k s t` says that `k` consecutive rounds, the first from `s`, were
discarded and left `t`. `retry_spec` is the rule for reasoning about the loop:
it is some number of discarded rounds followed by the one whose outcome is
returned, and that round was final unless the attempts were used up.
-/

namespace Exec

variable {ε σ α : Type}

/-- Run `round`, and run it again up to `left` more times while `again` asks
for it. -/
def retry (round : Exec ε σ (Outcome ε α)) (again : Outcome ε α → Bool) : ℕ → Exec ε σ α
  | 0 => do
      let o ← round
      resume o
  | left + 1 => do
      let o ← round
      if again o then retry round again left else resume o

/-- A number of consecutive discarded rounds. -/
inductive Discards (round : Exec ε σ (Outcome ε α)) (again : Outcome ε α → Bool) :
    ℕ → σ → σ → Prop where
  | none (s : σ) : Discards round again 0 s s
  | more {k : ℕ} {s t u : σ} {o : Outcome ε α} (hround : round s = (.ok o, t))
      (hagain : again o = true) (rest : Discards round again k t u) :
      Discards round again (k + 1) s u

variable {round : Exec ε σ (Outcome ε α)} {again : Outcome ε α → Bool}

/-- An invariant of the discarded rounds holds where the last round starts. -/
theorem Discards.invariant {I : ℕ → σ → Prop} {k : ℕ} {s t : σ}
    (h : Discards round again k s t)
    (hstep : ∀ i s t o, I i s → round s = (.ok o, t) → again o = true → I (i + 1) t) {n : ℕ}
    (hs : I n s) : I (n + k) t := by
  induction h generalizing n with
  | none s => exact hs
  | more hround hagain _ ih =>
      have hrest := ih (hstep n _ _ _ hs hround hagain)
      rwa [Nat.add_assoc, Nat.add_comm 1] at hrest

/-- A round is final if it fails or its outcome does not ask for another. -/
def Final (round : Exec ε σ (Outcome ε α)) (again : Outcome ε α → Bool) (s : σ) : Prop :=
  ∀ o t, round s = (.ok o, t) → again o = false

theorem retry_of_final {s : σ} (h : Final round again s) (left : ℕ) :
    retry round again left s = (round >>= resume) s := by
  cases left with
  | zero => rfl
  | succ left =>
      rw [retry]
      rcases hround : round s with ⟨o, t⟩
      cases o with
      | ok o =>
          rw [bind_ok hround, bind_ok hround, if_neg (by simp [h o t hround])]
      | err e => rw [bind_err hround, bind_err hround]
      | panic => rw [bind_panic hround, bind_panic hround]

theorem retry_spec (left : ℕ) (s : σ) :
    ∃ k t, k ≤ left ∧ Discards round again k s t ∧ (k < left → Final round again t) ∧
      retry round again left s = (round >>= resume) t := by
  induction left generalizing s with
  | zero => exact ⟨0, s, Nat.le_refl 0, .none s, by simp, rfl⟩
  | succ left ih =>
      by_cases hfinal : Final round again s
      · exact ⟨0, s, by simp, .none s, fun _ => hfinal, retry_of_final hfinal _⟩
      · simp only [Final, not_forall] at hfinal
        obtain ⟨o, t, hround, hagain⟩ := hfinal
        have hagain : again o = true := by simpa using hagain
        obtain ⟨k, u, hk, hdiscards, hstop, hretry⟩ := ih t
        refine ⟨k + 1, u, by omega, .more hround hagain hdiscards, fun h => hstop (by omega), ?_⟩
        rw [retry, bind_ok hround, if_pos hagain, hretry]

end Exec
