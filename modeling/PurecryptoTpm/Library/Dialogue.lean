import Mathlib.Logic.Function.Basic
import Mathlib.Tactic.Common

/-!
Dialogues with a machine. A dialogue asks questions, one at a time, and goes on
with the answers. It can be held on its own, or next to others that ask the
same machine: a schedule says whose question is answered next. Two dialogues,
or two systems of them, keep a relation as long as one answer keeps it.
-/

inductive Dialogue (Q A α : Type) where
  | done (a : α)
  | ask (q : Q) (next : A → Dialogue Q A α)

namespace Dialogue

variable {Q A σ α : Type}

/-- Hold a dialogue to its end. -/
def run (answer : Q → σ → A × σ) : Dialogue Q A α → σ → α × σ
  | done a, s => (a, s)
  | ask q next, s => (next (answer q s).1).run answer (answer q s).2

/-- Every question of a dialogue is asked where `p` allows it. -/
def Throughout (answer : Q → σ → A × σ) (p : Q → σ → Prop) : Dialogue Q A α → σ → Prop
  | done _, _ => True
  | ask q next, s => p q s ∧ (next (answer q s).1).Throughout answer p (answer q s).2

def result? : Dialogue Q A α → Option α
  | done a => some a
  | ask _ _ => none

/-- Repeat a question as long as the answer is not final, `n` times at most. -/
def persist (again : A → Prop) [DecidablePred again] (q : Q) (next : A → Dialogue Q A α) :
    ℕ → Dialogue Q A α
  | 0 => ask q next
  | n + 1 => ask q fun a => if again a then persist again q next n else next a

theorem persist_eq (again : A → Prop) [DecidablePred again] (q : Q) (next : A → Dialogue Q A α)
    (n : ℕ) :
    persist again q next n =
      ask q fun a => if 0 < n ∧ again a then persist again q next (n - 1) else next a := by
  cases n <;> simp [persist]

/-- What holds of the question at the head holds of whatever is asked next. -/
theorem head_allowed {p : Q → Prop} {d : Dialogue Q A α} {q : Q} {next : A → Dialogue Q A α}
    (h : d = ask q next) (hq : p q) (q' : Q) (next' : A → Dialogue Q A α)
    (h' : d = ask q' next') : p q' := by
  obtain ⟨rfl, -⟩ := ask.inj (h.symm.trans h')
  exact hq

section Related

variable {Q' A' σ' : Type} {answer : Q → σ → A × σ} {answer' : Q' → σ' → A' × σ'}
  {p : Q' → σ' → Prop}

/-- Dialogues that stay related answer by answer end in the same way. -/
theorem run_related {R : σ → Dialogue Q A α → σ' → Dialogue Q' A' α → Prop}
    (hdone : ∀ s d s' a, R s d s' (done a) → d = done a)
    (hask : ∀ s d s' q' next', R s d s' (ask q' next') → p q' s' → ∃ q next, d = ask q next ∧
      R (answer q s).2 (next (answer q s).1) (answer' q' s').2 (next' (answer' q' s').1))
    {s : σ} {d : Dialogue Q A α} {s' : σ'} {d' : Dialogue Q' A' α} (h : R s d s' d')
    (hp : d'.Throughout answer' p s') :
    (d.run answer s).1 = (d'.run answer' s').1 ∧
      ∃ a, R (d.run answer s).2 (done a) (d'.run answer' s').2 (done a) := by
  induction d' generalizing s d s' with
  | done a =>
      obtain rfl := hdone s d s' a h
      exact ⟨rfl, a, h⟩
  | ask q' next' ih =>
      obtain ⟨q, next, rfl, hnext⟩ := hask s d s' q' next' h hp.1
      have hrest := ih _ hnext hp.2
      exact hrest

end Related

/-! ### Several dialogues at once -/

section Turns

variable {ι : Type} [DecidableEq ι]

/-- The next question of `i` is answered, if there is one. -/
def turn (answer : Q → σ → A × σ) (s : σ) (ds : ι → Dialogue Q A α) (i : ι) :
    σ × (ι → Dialogue Q A α) :=
  match ds i with
  | done _ => (s, ds)
  | ask q next => ((answer q s).2, Function.update ds i (next (answer q s).1))

theorem turn_of_done {answer : Q → σ → A × σ} {ds : ι → Dialogue Q A α} {i : ι} {a : α}
    (h : ds i = done a) (s : σ) : turn answer s ds i = (s, ds) := by
  rw [turn, h]

theorem turn_of_ask {answer : Q → σ → A × σ} {ds : ι → Dialogue Q A α} {i : ι} {q : Q}
    {next : A → Dialogue Q A α} (h : ds i = ask q next) (s : σ) :
    turn answer s ds i = ((answer q s).2, Function.update ds i (next (answer q s).1)) := by
  rw [turn, h]

/-- The turns of a schedule. -/
def turns (answer : Q → σ → A × σ) : List ι → σ → (ι → Dialogue Q A α) → σ × (ι → Dialogue Q A α)
  | [], s, ds => (s, ds)
  | i :: schedule, s, ds =>
      turns answer schedule (turn answer s ds i).1 (turn answer s ds i).2

/-- Every question of a schedule is asked where `p` allows it. -/
def Along (answer : Q → σ → A × σ) (p : Q → σ → Prop) :
    List ι → σ → (ι → Dialogue Q A α) → Prop
  | [], _, _ => True
  | i :: schedule, s, ds => (∀ q next, ds i = ask q next → p q s) ∧
      Along answer p schedule (turn answer s ds i).1 (turn answer s ds i).2

variable {Q' A' σ' : Type} {answer : Q → σ → A × σ} {answer' : Q' → σ' → A' × σ'}
  {p : Q' → σ' → Prop} {R : σ → (ι → Dialogue Q A α) → σ' → (ι → Dialogue Q' A' α) → Prop}

/-- What one allowed turn keeps, allowed turns keep. -/
theorem turns_related
    (hturn : ∀ i s ds s' ds', R s ds s' ds' → (∀ q next, ds' i = ask q next → p q s') →
      R (turn answer s ds i).1 (turn answer s ds i).2 (turn answer' s' ds' i).1
        (turn answer' s' ds' i).2)
    (schedule : List ι) {s : σ} {ds : ι → Dialogue Q A α} {s' : σ'}
    {ds' : ι → Dialogue Q' A' α} (h : R s ds s' ds') (hp : Along answer' p schedule s' ds') :
    R (turns answer schedule s ds).1 (turns answer schedule s ds).2
      (turns answer' schedule s' ds').1 (turns answer' schedule s' ds').2 := by
  induction schedule generalizing s ds s' ds' with
  | nil => exact h
  | cons i schedule ih => exact ih (hturn i s ds s' ds' h hp.1) hp.2

end Turns

end Dialogue
