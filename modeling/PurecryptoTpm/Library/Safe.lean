import PurecryptoTpm.Library.Format

/-!
Bodies that do not panic. `Safe I x Q` says that from places with the
invariant `I` the body `x` does not panic, leaves places with the invariant
however it ends, and returns only values with `Q`. The rules below follow the
construction of a body, so a panicking operation is discharged where it
stands, from what the statements before it returned.
-/

namespace Exec

variable {ε σ ρ α β : Type}

/-- No panic, and the invariant is kept. -/
def Safe (I : σ → Prop) (x : Exec ε σ α) (Q : α → Prop) : Prop :=
  ∀ s, I s → I (x s).2 ∧ (∀ a, (x s).1 = .ok a → Q a) ∧ (x s).1 ≠ .panic

/-- Nothing is asked of the places. -/
def Anywhere : σ → Prop := fun _ => True

/-- Nothing is asked of the value. -/
def Anything : α → Prop := fun _ => True

namespace Safe

variable {I : σ → Prop} {x : Exec ε σ α} {Q R : α → Prop} {f : α → Exec ε σ β} {S : β → Prop}

theorem ne_panic (h : Safe I x Q) {s : σ} (hs : I s) : (x s).1 ≠ .panic := (h s hs).2.2

theorem keeps (h : Safe I x Q) {s : σ} (hs : I s) : I (x s).2 := (h s hs).1

theorem mono (h : Safe I x Q) (hQR : ∀ a, Q a → R a) : Safe I x R := by
  intro s hs
  obtain ⟨hI, hQ, hpanic⟩ := h s hs
  exact ⟨hI, fun a ha => hQR a (hQ a ha), hpanic⟩

/-- A body of which each end is known. -/
theorem of_cases (h : ∀ s, I s → (∃ a t, x s = (.ok a, t) ∧ I t ∧ Q a) ∨
    ∃ e t, x s = (.err e, t) ∧ I t) : Safe I x Q := by
  intro s hs
  rcases h s hs with ⟨a, t, hx, hI, hQ⟩ | ⟨e, t, hx, hI⟩
  · rw [hx]
    refine ⟨hI, ?_, by simp⟩
    intro b hb
    rw [Outcome.ok.injEq] at hb
    exact hb ▸ hQ
  · rw [hx]
    exact ⟨hI, by simp, by simp⟩

theorem cases (h : Safe I x Q) {s : σ} (hs : I s) :
    (∃ a t, x s = (.ok a, t) ∧ I t ∧ Q a) ∨ ∃ e t, x s = (.err e, t) ∧ I t := by
  obtain ⟨hI, hQ, hpanic⟩ := h s hs
  rcases hx : x s with ⟨o, t⟩
  rw [hx] at hI hQ hpanic
  cases o with
  | ok a => exact .inl ⟨a, t, rfl, hI, hQ a rfl⟩
  | err e => exact .inr ⟨e, t, rfl, hI⟩
  | panic => exact absurd rfl hpanic

theorem pure {a : α} (h : Q a) : Safe I (Pure.pure a : Exec ε σ α) Q :=
  of_cases fun s hs => .inl ⟨a, s, rfl, hs, h⟩

theorem throw (e : ε) : Safe I (Exec.throw e : Exec ε σ α) Q :=
  of_cases fun s hs => .inr ⟨e, s, rfl, hs⟩

theorem ofExcept {r : Except ε α} (h : ∀ a, r = .ok a → Q a) :
    Safe I (Exec.ofExcept r : Exec ε σ α) Q := by
  cases r with
  | ok a => exact pure (h a rfl)
  | error e => exact throw e

theorem bind (hx : Safe I x Q) (hf : ∀ a, Q a → Safe I (f a) S) : Safe I (x >>= f) S := by
  apply of_cases
  intro s hs
  rcases hx.cases hs with ⟨a, t, hok, ht, hQ⟩ | ⟨e, t, herr, ht⟩
  · rw [bind_ok hok]
    exact (hf a hQ).cases ht
  · exact .inr ⟨e, t, bind_err herr, ht⟩

theorem ite {c : Prop} [Decidable c] {y : Exec ε σ α} (hx : c → Safe I x Q)
    (hy : ¬c → Safe I y Q) : Safe I (if c then x else y) Q := by
  split
  · case isTrue h => exact hx h
  · case isFalse h => exact hy h

/-- An index in bounds. -/
theorem index {l : List α} {i : ℕ} (h : i < l.length) :
    Safe I (Exec.index l i : Exec ε σ α) Anything := by
  rw [Exec.index, List.getElem?_eq_getElem h]
  exact pure trivial

theorem setIndex {l : List α} {i : ℕ} (h : i < l.length) (a : α) :
    Safe I (Exec.setIndex l i a : Exec ε σ (List α)) Anything := by
  rw [Exec.setIndex, if_pos h]
  exact pure trivial

/-- A body over a place of its own. -/
theorem alone {J : ρ → Prop} {r : ρ} {y : Exec ε ρ α} (h : Safe J y Q) (hr : J r) :
    Safe I (Exec.alone r y : Exec ε σ α) Q := by
  intro s hs
  obtain ⟨-, hQ, hpanic⟩ := h r hr
  exact ⟨hs, hQ, hpanic⟩

theorem onSnd (h : Safe Anywhere x Q) : Safe Anywhere (Exec.onSnd x : Exec ε (ρ × σ) α) Q :=
  fun _ _ => ⟨trivial, (h _ trivial).2⟩

/-- A translation of the errors. -/
theorem mapErr {ε' : Type} (h : Safe I x Q) (f : ε → ε') : Safe I (Exec.mapErr f x) Q := by
  apply of_cases
  intro s hs
  rcases h.cases hs with ⟨a, t, hok, ht, hQ⟩ | ⟨e, t, herr, ht⟩
  · exact .inl ⟨a, t, mapErr_ok f hok, ht, hQ⟩
  · exact .inr ⟨f e, t, mapErr_err f herr, ht⟩

end Safe

/-- A body that does not panic, as a function with a result. -/
def total (x : Exec ε σ α) (h : Safe Anywhere x Anything) (s : σ) : Except ε α × σ :=
  match hx : x s with
  | (.ok a, t) => (.ok a, t)
  | (.err e, t) => (.error e, t)
  | (.panic, _) => (h.ne_panic (s := s) trivial (by rw [hx])).elim

theorem total_of_ok {x : Exec ε σ α} (h : Safe Anywhere x Anything) {s t : σ} {a : α}
    (hx : x s = (.ok a, t)) : total x h s = (.ok a, t) := by
  unfold total
  split
  · case h_1 hx' => rw [hx] at hx'; cases hx'; rfl
  · case h_2 hx' => rw [hx] at hx'; cases hx'
  · case h_3 hx' => rw [hx] at hx'; cases hx'

theorem total_of_err {x : Exec ε σ α} (h : Safe Anywhere x Anything) {s t : σ} {e : ε}
    (hx : x s = (.err e, t)) : total x h s = (.error e, t) := by
  unfold total
  split
  · case h_1 hx' => rw [hx] at hx'; cases hx'
  · case h_2 hx' => rw [hx] at hx'; cases hx'; rfl
  · case h_3 hx' => rw [hx] at hx'; cases hx'

end Exec

/-- A parser does not panic and stays a cursor over the string it was given. -/
theorem Parses.safe {ε σ α β : Type} {view : List β → List β → σ} {Q : ε → Prop}
    {p : Exec ε σ α} {E : Format β α} (h : Parses view Q p E) (l : List β) :
    Exec.Safe (fun s => ∃ pre post, s = view pre post ∧ pre ++ post = l) p Exec.Anything := by
  apply Exec.Safe.of_cases
  rintro _ ⟨pre, post, rfl, rfl⟩
  rcases h.cases pre post with ⟨a, w, post', -, rfl, hok⟩ | ⟨e, pre', post', -, hsame, herr⟩
  · exact .inl ⟨a, _, hok, ⟨pre ++ w, post', rfl, List.append_assoc ..⟩, trivial⟩
  · exact .inr ⟨e, _, herr, pre', post', rfl, hsame⟩
