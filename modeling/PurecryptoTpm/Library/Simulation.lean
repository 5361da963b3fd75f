import Mathlib.Logic.Relation
import PurecryptoTpm.Library.Retry
import PurecryptoTpm.Library.Safe

/-!
Bodies that cannot be told apart. `Simulates R x y` says that from places
related by `R` the bodies `x` and `y` end in the same way and leave related
places. The rules follow the construction of a body, so two bodies that differ
only in the operations at their leaves simulate each other as soon as these
operations do.
-/

namespace Exec

variable {ε σ ρ κ α β : Type}

/-- The same outcome, and related places behind it. -/
def Simulates (R : σ → ρ → Prop) (x : Exec ε σ α) (y : Exec ε ρ α) : Prop :=
  ∀ s t, R s t → (x s).1 = (y t).1 ∧ R (x s).2 (y t).2

namespace Simulates

variable {R : σ → ρ → Prop} {S : ρ → κ → Prop} {x : Exec ε σ α} {y : Exec ε ρ α}
  {z : Exec ε κ α} {f : α → Exec ε σ β} {g : α → Exec ε ρ β}

theorem cases (h : Simulates R x y) {s : σ} {t : ρ} (hst : R s t) :
    ∃ o s' t', x s = (o, s') ∧ y t = (o, t') ∧ R s' t' := by
  obtain ⟨ho, hR⟩ := h s t hst
  exact ⟨(x s).1, (x s).2, (y t).2, rfl, Prod.ext ho.symm rfl, hR⟩

theorem symm (h : Simulates R x y) : Simulates (fun t s => R s t) y x := by
  intro t s hst
  obtain ⟨ho, hR⟩ := h s t hst
  exact ⟨ho.symm, hR⟩

theorem trans (hxy : Simulates R x y) (hyz : Simulates S y z) :
    Simulates (Relation.Comp R S) x z := by
  rintro s u ⟨t, hst, htu⟩
  obtain ⟨ho, hR⟩ := hxy s t hst
  obtain ⟨ho', hS⟩ := hyz t u htu
  exact ⟨ho.trans ho', _, hR, hS⟩

theorem pure (a : α) : Simulates R (Pure.pure a : Exec ε σ α) (Pure.pure a) :=
  fun _ _ h => ⟨rfl, h⟩

theorem throw (e : ε) : Simulates R (Exec.throw e : Exec ε σ α) (Exec.throw e) :=
  fun _ _ h => ⟨rfl, h⟩

theorem resume (o : Outcome ε α) : Simulates R (Exec.resume o) (Exec.resume o) := by
  intro s t h
  rw [resume_apply, resume_apply]
  exact ⟨rfl, h⟩

theorem ofExcept (r : Except ε α) : Simulates R (Exec.ofExcept r) (Exec.ofExcept r) := by
  cases r with
  | ok a => exact .pure a
  | error e => exact .throw e

theorem alone {γ : Type} (r : γ) (w : Exec ε γ α) :
    Simulates R (Exec.alone r w) (Exec.alone r w) :=
  fun _ _ h => ⟨rfl, h⟩

theorem index (l : List α) (i : ℕ) :
    Simulates R (Exec.index l i : Exec ε σ α) (Exec.index l i) := by
  intro s t h
  rw [Exec.index, Exec.index]
  cases l[i]? with
  | some a => exact Simulates.pure a s t h
  | none => exact ⟨rfl, h⟩

theorem ite {c : Prop} [Decidable c] {x' : Exec ε σ α} {y' : Exec ε ρ α} (h : Simulates R x y)
    (h' : Simulates R x' y') : Simulates R (if c then x else x') (if c then y else y') := by
  split
  · exact h
  · exact h'

/-- A sequence, whose second half is only run on what the first can return. -/
theorem bind_of (hx : Simulates R x y)
    (hf : ∀ a, (∃ s, (x s).1 = .ok a) → Simulates R (f a) (g a)) :
    Simulates R (x >>= f) (y >>= g) := by
  intro s t hst
  obtain ⟨o, s', t', hxs, hyt, hR⟩ := hx.cases hst
  cases o with
  | ok a =>
      rw [bind_ok hxs, bind_ok hyt]
      exact hf a ⟨s, by rw [hxs]⟩ s' t' hR
  | err e =>
      rw [bind_err hxs, bind_err hyt]
      exact ⟨rfl, hR⟩
  | panic =>
      rw [bind_panic hxs, bind_panic hyt]
      exact ⟨rfl, hR⟩

theorem bind (hx : Simulates R x y) (hf : ∀ a, Simulates R (f a) (g a)) :
    Simulates R (x >>= f) (y >>= g) :=
  hx.bind_of fun a _ => hf a

theorem reify (h : Simulates R x y) : Simulates R (Exec.reify x) (Exec.reify y) := by
  intro s t hst
  obtain ⟨ho, hR⟩ := h s t hst
  rw [reify_apply, reify_apply, ho]
  exact ⟨rfl, hR⟩

/-- Loops over rounds that simulate each other discard the same rounds. -/
theorem retry {round : Exec ε σ (Outcome ε α)} {round' : Exec ε ρ (Outcome ε α)}
    (h : Simulates R round round') (again : Outcome ε α → Bool) (left : ℕ) :
    Simulates R (Exec.retry round again left) (Exec.retry round' again left) := by
  induction left with
  | zero => exact h.bind fun o => .resume o
  | succ left ih => exact h.bind fun o => ih.ite (.resume o)

/-- Bodies that do not panic simulate each other as functions with a result. -/
theorem total (h : Simulates R x y) (hx : Safe Anywhere x Anything)
    (hy : Safe Anywhere y Anything) {s : σ} {t : ρ} (hst : R s t) :
    (Exec.total x hx s).1 = (Exec.total y hy t).1 ∧
      R (Exec.total x hx s).2 (Exec.total y hy t).2 := by
  obtain ⟨o, s', t', hxs, hyt, hR⟩ := h.cases hst
  cases o with
  | ok a =>
      rw [total_of_ok hx hxs, total_of_ok hy hyt]
      exact ⟨rfl, hR⟩
  | err e =>
      rw [total_of_err hx hxs, total_of_err hy hyt]
      exact ⟨rfl, hR⟩
  | panic => exact absurd (congrArg Prod.fst hxs) (hx.ne_panic trivial)

end Simulates

/-! ### Bodies that may fail where another does not -/

/-- What succeeds in `x` succeeds in `y`, and the places behind are related either way. -/
def Weakens (R : σ → ρ → Prop) (x : Exec ε σ α) (y : Exec ε ρ α) : Prop :=
  ∀ s t, R s t → (∀ a, (x s).1 = .ok a → (y t).1 = .ok a) ∧ R (x s).2 (y t).2

namespace Weakens

variable {R : σ → ρ → Prop} {x : Exec ε σ α} {y : Exec ε ρ α} {f : α → Exec ε σ β}
  {g : α → Exec ε ρ β}

/-- A sequence. Where only the first half of the left one fails, the second half
of the right one has to keep the places related. -/
theorem bind (hx : Weakens R x y) (hf : ∀ a, Weakens R (f a) (g a))
    (hstray : ∀ s t a, R s t → (∀ b, (x s).1 ≠ .ok b) → (y t).1 = .ok a →
      R (x s).2 (g a (y t).2).2) : Weakens R (x >>= f) (y >>= g) := by
  intro s t hst
  obtain ⟨hok, hR⟩ := hx s t hst
  have hstray := fun a => hstray s t a hst
  rcases hxs : x s with ⟨o, s'⟩
  rcases hyt : y t with ⟨o', t'⟩
  rw [hxs, hyt] at hok hR hstray
  have hright : (∀ b, o ≠ .ok b) → R s' ((y >>= g) t).2 := by
    intro hne
    cases o' with
    | ok a => rw [bind_ok hyt]; exact hstray a hne rfl
    | err e => rw [bind_err hyt]; exact hR
    | panic => rw [bind_panic hyt]; exact hR
  cases o with
  | ok a =>
      obtain rfl : o' = .ok a := hok a rfl
      rw [bind_ok hxs, bind_ok hyt]
      exact hf a s' t' hR
  | err e =>
      rw [bind_err hxs]
      exact ⟨by simp, hright (by simp)⟩
  | panic =>
      rw [bind_panic hxs]
      exact ⟨by simp, hright (by simp)⟩

theorem map (h : Weakens R x y) (k : α → β) :
    Weakens R (x >>= fun a => pure (k a)) (y >>= fun a => pure (k a)) :=
  h.bind (fun _ _ _ hst => ⟨fun _ => id, hst⟩) fun s t _ hst _ _ => (h s t hst).2

end Weakens

/-! ### Bodies one after the other -/

section Each

variable {ι : Type}

/-- Run one body for each of a list, however the ones before it ended. -/
def each (f : ι → Exec ε σ α) : List ι → σ → List (Outcome ε α) × σ
  | [], s => ([], s)
  | i :: is, s => ((f i s).1 :: (each f is (f i s).2).1, (each f is (f i s).2).2)

variable {R : σ → ρ → Prop} {f : ι → Exec ε σ α} {g : ι → Exec ε ρ α}

/-- Bodies that weaken others one by one do so in a row. -/
theorem Weakens.each {is : List ι} (h : ∀ i ∈ is, Weakens R (f i) (g i)) {s : σ} {t : ρ}
    (hst : R s t) :
    (∀ (n : ℕ) (a : α), (each f is s).1[n]? = some (.ok a) →
      (each g is t).1[n]? = some (.ok a)) ∧ R (each f is s).2 (each g is t).2 := by
  induction is generalizing s t with
  | nil => exact ⟨fun n a hn => hn, hst⟩
  | cons i is ih =>
      obtain ⟨hok, hR⟩ := h i (List.mem_cons_self ..) s t hst
      obtain ⟨hoks, hR'⟩ := ih (fun j hj => h j (List.mem_cons_of_mem i hj)) hR
      refine ⟨fun n a hn => ?_, hR'⟩
      cases n with
      | zero =>
          have hhead : (f i s).1 = .ok a := Option.some_inj.1 hn
          exact congrArg some (hok a hhead)
      | succ n => exact hoks n a hn

/-- What each of the bodies keeps, they keep in a row. -/
theorem each_keeps {I : σ → Prop} (h : ∀ i s, I s → I (f i s).2) (is : List ι) {s : σ}
    (hs : I s) : I (each f is s).2 := by
  induction is generalizing s with
  | nil => exact hs
  | cons i is ih => exact ih (h i s hs)

end Each

end Exec
