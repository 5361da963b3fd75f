import PurecryptoTpm.Library.Exec

/-!
Loops with a condition in front. A loop is given fuel for a number of tests of
its condition and returns how many rounds it made, or nothing if the last test
the fuel pays for still succeeds.

`whileLoop_rounds` is the rule for reasoning about it. An invariant that knows
the number of the round carries a loop to the round at which its condition
fails; that number is returned, whatever the fuel beyond it.
-/

namespace Exec

variable {ε σ : Type}

/-- Run `body` while `cond` holds, and count the rounds. -/
def whileLoop (cond : σ → Bool) (body : Exec ε σ Unit) : ℕ → Exec ε σ (Option ℕ)
  | 0 => pure none
  | fuel + 1 => do
      let s ← get
      if cond s then do
        body
        let n ← whileLoop cond body fuel
        pure (n.map (· + 1))
      else
        pure (some 0)

variable {cond : σ → Bool} {body : Exec ε σ Unit}

theorem whileLoop_false {s : σ} (h : cond s = false) (fuel : ℕ) :
    whileLoop cond body (fuel + 1) s = (.ok (some 0), s) := by
  rw [whileLoop, get_bind, h]
  rfl

theorem whileLoop_true {s t : σ} (h : cond s = true) (hbody : body s = (.ok (), t)) (fuel : ℕ) :
    whileLoop cond body (fuel + 1) s =
      (whileLoop cond body fuel >>= fun n => pure (n.map (· + 1))) t := by
  rw [whileLoop, get_bind, if_pos h, bind_ok hbody]

/-- A round that fails ends the loop. -/
theorem whileLoop_err {s t : σ} {e : ε} (h : cond s = true) (hbody : body s = (.err e, t))
    (fuel : ℕ) : whileLoop cond body (fuel + 1) s = (.err e, t) := by
  rw [whileLoop, get_bind, if_pos h, bind_err hbody]

/-- A loop whose condition fails in round `N` makes `N` rounds. -/
theorem whileLoop_rounds (I : ℕ → σ → Prop) (N : ℕ)
    (hround : ∀ k s, k < N → I k s → cond s = true ∧ ∃ t, body s = (.ok (), t) ∧ I (k + 1) t)
    (hdone : ∀ s, I N s → cond s = false) {k : ℕ} {s : σ} (hk : k ≤ N) (hs : I k s) {fuel : ℕ}
    (hfuel : N - k < fuel) :
    ∃ t, I N t ∧ whileLoop cond body fuel s = (.ok (some (N - k)), t) := by
  induction fuel generalizing k s with
  | zero => omega
  | succ fuel ih =>
      by_cases hlast : k = N
      · subst hlast
        refine ⟨s, hs, ?_⟩
        rw [whileLoop_false (hdone s hs), Nat.sub_self]
      · obtain ⟨hcond, t, hbody, ht⟩ := hround k s (by omega) hs
        obtain ⟨u, hu, hloop⟩ := ih (by omega) ht (by omega)
        refine ⟨u, hu, ?_⟩
        have hcount : N - k = N - (k + 1) + 1 := by omega
        rw [whileLoop_true hcond hbody, bind_ok hloop, hcount]
        rfl

end Exec
