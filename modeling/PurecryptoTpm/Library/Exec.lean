import Mathlib.Data.List.Basic
import Mathlib.Tactic.Common

/-!
Imperative function bodies as state transformers. An `Exec ε σ α` runs over
the mutable places `σ` and ends in one of three ways: with a value, with an
error of type `ε` that propagates to the caller, or by panicking. The places
keep whatever was written to them before the body ended, so an error does not
roll anything back.
-/

/-- How a function body ends. -/
inductive Outcome (ε α : Type) where
  | ok (a : α)
  | err (e : ε)
  | panic
  deriving DecidableEq

/-- A function body over the mutable places `σ`. -/
def Exec (ε σ α : Type) : Type := σ → Outcome ε α × σ

namespace Exec

variable {ε σ ρ α β : Type}

instance : Monad (Exec ε σ) where
  pure a := fun s => (.ok a, s)
  bind x f := fun s =>
    match x s with
    | (.ok a, t) => f a t
    | (.err e, t) => (.err e, t)
    | (.panic, t) => (.panic, t)

@[ext] theorem ext {x y : Exec ε σ α} (h : ∀ s, x s = y s) : x = y := funext h

/-- Return early with an error. -/
def throw (e : ε) : Exec ε σ α := fun s => (.err e, s)

/-- Reach a panicking operation. -/
def abort : Exec ε σ α := fun s => (.panic, s)

def get : Exec ε σ σ := fun s => (.ok s, s)

def set (s : σ) : Exec ε σ Unit := fun _ => (.ok (), s)

/-- The `?` operator on a result that touches none of the places. -/
def ofExcept : Except ε α → Exec ε σ α
  | .ok a => fun s => (.ok a, s)
  | .error e => fun s => (.err e, s)

/-- The indexing expression `l[i]`, which panics out of bounds. -/
def index (l : List α) (i : ℕ) : Exec ε σ α :=
  match l[i]? with
  | some a => pure a
  | none => abort

/-- The assignment `l[i] = a`, which panics out of bounds. -/
def setIndex (l : List α) (i : ℕ) (a : α) : Exec ε σ (List α) :=
  if i < l.length then pure (l.set i a) else abort

/-- Run a body a known number of times and collect what it returns. -/
def times (x : Exec ε σ α) : ℕ → Exec ε σ (List α)
  | 0 => pure []
  | n + 1 => do
      let a ← x
      let as ← times x n
      pure (a :: as)

/-- Hand the outcome of a body to the code after it instead of propagating it. -/
def reify (x : Exec ε σ α) : Exec ε σ (Outcome ε α) := fun s => (.ok (x s).1, (x s).2)

/-- End with a given outcome. -/
def resume : Outcome ε α → Exec ε σ α
  | .ok a => pure a
  | .err e => throw e
  | .panic => abort

/-- `map_err`: the same body with its errors translated. -/
def mapErr {ε' : Type} (f : ε → ε') (x : Exec ε σ α) : Exec ε' σ α := fun s =>
  match x s with
  | (.ok a, t) => (.ok a, t)
  | (.err e, t) => (.err (f e), t)
  | (.panic, t) => (.panic, t)

/-- Run over the first of two places. -/
def onFst (x : Exec ε σ α) : Exec ε (σ × ρ) α := fun s => ((x s.1).1, (x s.1).2, s.2)

/-- Run over the second of two places. -/
def onSnd (x : Exec ε σ α) : Exec ε (ρ × σ) α := fun s => ((x s.2).1, s.1, (x s.2).2)

/-- Run with an additional local place, dropped at the end. -/
def withLocal (r : ρ) (x : Exec ε (ρ × σ) α) : Exec ε σ α :=
  fun s => ((x (r, s)).1, (x (r, s)).2.2)

/-- Run over a place of its own, touching no other. -/
def alone (r : ρ) (x : Exec ε ρ α) : Exec ε σ α := fun s => ((x r).1, s)

/-- The places after a body whose result is discarded with `.ok()`. -/
def final (x : Exec ε σ α) (s : σ) : σ := (x s).2

/-! ### One step of a body

These rewrite the first statement of a body once its outcome is known. -/

theorem bind_ok {x : Exec ε σ α} {f : α → Exec ε σ β} {s t : σ} {a : α}
    (h : x s = (.ok a, t)) : (x >>= f) s = f a t := by
  show (match x s with
    | (.ok a, t) => f a t
    | (.err e, t) => (.err e, t)
    | (.panic, t) => (.panic, t)) = _
  rw [h]

theorem bind_err {x : Exec ε σ α} {f : α → Exec ε σ β} {s t : σ} {e : ε}
    (h : x s = (.err e, t)) : (x >>= f) s = (.err e, t) := by
  show (match x s with
    | (.ok a, t) => f a t
    | (.err e, t) => (.err e, t)
    | (.panic, t) => (.panic, t)) = _
  rw [h]

theorem bind_panic {x : Exec ε σ α} {f : α → Exec ε σ β} {s t : σ}
    (h : x s = (.panic, t)) : (x >>= f) s = (.panic, t) := by
  show (match x s with
    | (.ok a, t) => f a t
    | (.err e, t) => (.err e, t)
    | (.panic, t) => (.panic, t)) = _
  rw [h]

/-- A sequence succeeds exactly if both of its halves do. -/
theorem bind_eq_ok {x : Exec ε σ α} {f : α → Exec ε σ β} {s u : σ} {b : β} :
    (x >>= f) s = (.ok b, u) ↔ ∃ a t, x s = (.ok a, t) ∧ f a t = (.ok b, u) := by
  constructor
  · intro h
    rcases hx : x s with ⟨o, t⟩
    cases o with
    | ok a => exact ⟨a, t, rfl, by rwa [bind_ok hx] at h⟩
    | err e => rw [bind_err hx] at h; simp at h
    | panic => rw [bind_panic hx] at h; simp at h
  · rintro ⟨a, t, hx, hf⟩
    rwa [bind_ok hx]

theorem bind_assoc {γ : Type} (x : Exec ε σ α) (f : α → Exec ε σ β) (g : β → Exec ε σ γ) :
    x >>= f >>= g = x >>= fun a => f a >>= g := by
  ext s : 1
  rcases hx : x s with ⟨o, t⟩
  cases o with
  | ok a =>
      rw [bind_ok hx]
      show (match (x >>= f) s with
        | (.ok a, t) => g a t
        | (.err e, t) => (.err e, t)
        | (.panic, t) => (.panic, t)) = _
      rw [bind_ok hx]
      rfl
  | err e => rw [bind_err hx, bind_err (bind_err hx)]
  | panic => rw [bind_panic hx, bind_panic (bind_panic hx)]

/-- What a body leaves behind, if what follows it touches nothing. -/
theorem bind_snd {x : Exec ε σ α} {f : α → Exec ε σ β} (h : ∀ a s, (f a s).2 = s) (s : σ) :
    ((x >>= f) s).2 = (x s).2 := by
  rcases hx : x s with ⟨o, t⟩
  cases o with
  | ok a => rw [bind_ok hx, h]
  | err e => rw [bind_err hx]
  | panic => rw [bind_panic hx]

@[simp] theorem pure_apply (a : α) (s : σ) : (pure a : Exec ε σ α) s = (.ok a, s) := rfl
@[simp] theorem throw_apply (e : ε) (s : σ) : (throw e : Exec ε σ α) s = (.err e, s) := rfl
@[simp] theorem get_apply (s : σ) : (get : Exec ε σ σ) s = (.ok s, s) := rfl
@[simp] theorem set_apply (s t : σ) : (set t : Exec ε σ Unit) s = (.ok (), t) := rfl
@[simp] theorem reify_apply (x : Exec ε σ α) (s : σ) : reify x s = (.ok (x s).1, (x s).2) := rfl
@[simp] theorem onFst_apply (x : Exec ε σ α) (s : σ) (r : ρ) :
    onFst x (s, r) = ((x s).1, (x s).2, r) := rfl
@[simp] theorem onSnd_apply (x : Exec ε σ α) (r : ρ) (s : σ) :
    onSnd x (r, s) = ((x s).1, r, (x s).2) := rfl

@[simp] theorem alone_apply (r : ρ) (x : Exec ε ρ α) (s : σ) :
    (alone r x : Exec ε σ α) s = ((x r).1, s) := rfl

theorem mapErr_ok {ε' : Type} (f : ε → ε') {x : Exec ε σ α} {s t : σ} {a : α}
    (h : x s = (.ok a, t)) : mapErr f x s = (.ok a, t) := by
  rw [mapErr, h]

theorem mapErr_err {ε' : Type} (f : ε → ε') {x : Exec ε σ α} {s t : σ} {e : ε}
    (h : x s = (.err e, t)) : mapErr f x s = (.err (f e), t) := by
  rw [mapErr, h]

@[simp] theorem pure_bind (a : α) (f : α → Exec ε σ β) (s : σ) : (pure a >>= f) s = f a s := rfl
@[simp] theorem get_bind (f : σ → Exec ε σ β) (s : σ) : (get >>= f) s = f s s := rfl
@[simp] theorem set_bind (t : σ) (f : Unit → Exec ε σ β) (s : σ) :
    (set t >>= f) s = f () t := rfl
@[simp] theorem ofExcept_ok_bind (a : α) (f : α → Exec ε σ β) (s : σ) :
    (ofExcept (.ok a) >>= f) s = f a s := rfl
@[simp] theorem ofExcept_error_bind (e : ε) (f : α → Exec ε σ β) (s : σ) :
    (ofExcept (.error e) >>= f) s = (.err e, s) := rfl

@[simp] theorem resume_apply (o : Outcome ε α) (s : σ) : (resume o : Exec ε σ α) s = (o, s) := by
  cases o <;> rfl

/-! ### A body that splits into two

The first half runs over a local place alone, and only its outcome matters to
the second. -/

/-- `x` is `y` over the local place followed by `v` over the other one. -/
def Factors (x : Exec ε (ρ × σ) α) (y : Exec ε ρ β) (v : β → Exec ε σ α) : Prop :=
  ∀ r, withLocal r x = resume (y r).1 >>= v

namespace Factors

variable {γ : Type} {v : β → Exec ε σ α}

theorem withLocal_eq {x : Exec ε (ρ × σ) α} {y : Exec ε ρ β} (h : Factors x y v) (r : ρ) :
    withLocal r x = resume (y r).1 >>= v := h r

theorem onFst_bind {x : Exec ε ρ γ} {f : γ → Exec ε (ρ × σ) α} {g : γ → Exec ε ρ β}
    (h : ∀ c, Factors (f c) (g c) v) : Factors (onFst x >>= f) (x >>= g) v := by
  intro r
  ext s : 1
  rcases hx : x r with ⟨o, t⟩
  have hfst : (onFst x : Exec ε (ρ × σ) γ) (r, s) = (o, t, s) := by rw [onFst_apply, hx]
  cases o with
  | ok c =>
      rw [withLocal, bind_ok hfst, bind_ok hx, ← h c t]
      rfl
  | err e =>
      rw [withLocal, bind_err hfst, bind_err hx]
      rfl
  | panic =>
      rw [withLocal, bind_panic hfst, bind_panic hx]
      rfl

theorem throw (e : ε) :
    Factors (Exec.throw e : Exec ε (ρ × σ) α) (Exec.throw e : Exec ε ρ β) v := fun _ => rfl

theorem ite {c : Prop} [Decidable c] {x x' : Exec ε (ρ × σ) α} {y y' : Exec ε ρ β}
    (h : Factors x y v) (h' : Factors x' y' v) :
    Factors (if c then x else x') (if c then y else y') v := by
  split
  · exact h
  · exact h'

theorem pure {b : β} {x : Exec ε (ρ × σ) α} (h : ∀ r, withLocal r x = v b) :
    Factors x (Pure.pure b) v := fun r => h r

end Factors

/-- A body that is done with its local place. -/
theorem withLocal_onSnd_bind_pure (r : ρ) (x : Exec ε σ β) (f : β → α) :
    withLocal r (onSnd x >>= fun b => pure (f b)) = x >>= fun b => pure (f b) := by
  ext s : 1
  rcases hx : x s with ⟨o, t⟩
  have hsnd : (onSnd x : Exec ε (ρ × σ) β) (r, s) = (o, r, t) := by rw [onSnd_apply, hx]
  cases o with
  | ok b =>
      rw [withLocal, bind_ok hsnd, bind_ok hx]
      rfl
  | err e => rw [withLocal, bind_err hsnd, bind_err hx]
  | panic => rw [withLocal, bind_panic hsnd, bind_panic hx]

/-- Picking the element that stands first. -/
@[simp] theorem index_head_bind (a : α) (l : List α) (f : α → Exec ε σ β) (s : σ) :
    (index (a :: l) 0 >>= f) s = f a s := rfl

theorem index_snd (l : List α) (i : ℕ) (s : σ) : ((index l i : Exec ε σ α) s).2 = s := by
  rw [index]
  cases l[i]? <;> rfl

/-- Picking an element and reading something alone leave everything as it is. -/
theorem index_bind_alone_snd (l : List α) (i : ℕ) (r : ρ) (x : α → Exec ε ρ β) (s : σ) :
    ((index l i >>= fun a => alone r (x a) : Exec ε σ β) s).2 = s := by
  rw [bind_snd (fun a s => rfl), index_snd]

end Exec
