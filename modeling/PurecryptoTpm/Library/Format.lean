import PurecryptoTpm.Library.Exec

/-!
Formats and the parsers that implement them. A *format* says which strings
encode a value; formats compose by sequencing, and a format is *unambiguous*
if an encoding can be split off the front of a string in at most one way.

A parser runs over a cursor, seen through `view pre post`: the cursor that has
consumed `pre` and still faces `post`. `Parses view p E` says that `p`
implements `E`. On a string that starts with an encoding it returns the
encoded value and stops right behind the encoding; on any other string it
returns an error of a known kind, leaving some cursor over the same string. It
panics on no string. The rules below compose such statements along the body of
a parser, so that no parser built from them is ever run by hand.
-/

/-- Which strings of symbols `β` encode a value. -/
abbrev Format (β α : Type) := α → List β → Prop

namespace Format

variable {β α γ : Type}

/-- The format that writes nothing. -/
def done (a : α) : Format β α := fun b w => b = a ∧ w = []

/-- An encoding of `E` followed by one of a format that depends on its value. -/
def seq (E : Format β α) (F : α → Format β γ) : Format β γ :=
  fun c w => ∃ a u v, E a u ∧ F a c v ∧ w = u ++ v

/-- A known number of encodings, one after the other. -/
def vector (E : Format β α) : ℕ → Format β (List α)
  | 0 => done []
  | n + 1 => seq E fun a => seq (vector E n) fun as => done (a :: as)

/-- At most one encoding can be split off the front of a string. -/
def Unambiguous (E : Format β α) : Prop :=
  ∀ ⦃a b : α⦄ ⦃u v s t : List β⦄, E a u → E b v → u ++ s = v ++ t → a = b ∧ u = v ∧ s = t

theorem unambiguous_done (a : α) : Unambiguous (done a : Format β α) := by
  rintro b c u v s t ⟨rfl, rfl⟩ ⟨rfl, rfl⟩ h
  exact ⟨rfl, rfl, by simpa using h⟩

theorem Unambiguous.seq {E : Format β α} {F : α → Format β γ} (hE : Unambiguous E)
    (hF : ∀ a, Unambiguous (F a)) : Unambiguous (seq E F) := by
  rintro b c u v s t ⟨a, u₁, u₂, hu₁, hu₂, rfl⟩ ⟨a', v₁, v₂, hv₁, hv₂, rfl⟩ h
  simp only [List.append_assoc] at h
  obtain ⟨rfl, rfl, hrest⟩ := hE hu₁ hv₁ h
  obtain ⟨rfl, rfl, rfl⟩ := hF a hu₂ hv₂ hrest
  exact ⟨rfl, rfl, rfl⟩

theorem Unambiguous.vector {E : Format β α} (hE : Unambiguous E) (n : ℕ) :
    Unambiguous (vector E n) := by
  induction n with
  | zero => exact unambiguous_done []
  | succ n ih => exact hE.seq fun a => ih.seq fun as => unambiguous_done (a :: as)

/-- An encoding that determines its value, and whose first `k` symbols announce
its length, is unambiguous. -/
theorem unambiguous_of_announced {E : Format β α} (k : ℕ) (len : List β → ℕ)
    (hlen : ∀ a w, E a w → k ≤ w.length ∧ w.length = len (w.take k))
    (hinj : ∀ a b w, E a w → E b w → a = b) : Unambiguous E := by
  intro a b u v s t hu hv h
  obtain ⟨hku, hlenu⟩ := hlen a u hu
  obtain ⟨hkv, hlenv⟩ := hlen b v hv
  have htake : u.take k = v.take k := by
    rw [← List.take_append_of_le_length hku, h, List.take_append_of_le_length hkv]
  obtain ⟨rfl, rfl⟩ := List.append_inj h (by rw [hlenu, hlenv, htake])
  exact ⟨hinj a b u hu hv, rfl, rfl⟩

/-- A vector of encodings, given one for each value. -/
theorem vector_flatten {E : Format β α} (f : α → List β) {as : List α}
    (h : ∀ a ∈ as, E a (f a)) : vector E as.length as (as.map f).flatten := by
  induction as with
  | nil => exact ⟨rfl, rfl⟩
  | cons a as ih =>
      have hrest := ih fun b hb => h b (List.mem_cons_of_mem a hb)
      exact ⟨a, f a, _, h a (List.mem_cons_self ..), ⟨as, _, [], hrest, ⟨rfl, rfl⟩, rfl⟩, by simp⟩

/-- A vector of functional encodings is their concatenation. -/
theorem vector_values (P : α → Prop) (f : α → List β) (n : ℕ) (as : List α) (w : List β) :
    vector (fun a w => P a ∧ w = f a) n as w ↔
      as.length = n ∧ (∀ a ∈ as, P a) ∧ w = (as.map f).flatten := by
  induction n generalizing as w with
  | zero =>
      constructor
      · rintro ⟨rfl, rfl⟩
        exact ⟨rfl, by simp, rfl⟩
      · rintro ⟨hlen, -, rfl⟩
        obtain rfl := List.length_eq_zero_iff.mp hlen
        exact ⟨rfl, rfl⟩
  | succ n ih =>
      constructor
      · rintro ⟨a, _, _, ⟨ha, rfl⟩, ⟨rest, _, _, hrest, ⟨rfl, rfl⟩, rfl⟩, rfl⟩
        obtain ⟨hlen, hall, rfl⟩ := (ih rest _).mp hrest
        exact ⟨by simp [hlen], by simpa [ha] using hall, by simp⟩
      · rintro ⟨hlen, hall, rfl⟩
        cases as with
        | nil => simp at hlen
        | cons a rest =>
            have ha := hall a (List.mem_cons_self ..)
            have hrest := (ih rest (rest.map f).flatten).mpr
              ⟨by simpa using hlen, fun b hb => hall b (List.mem_cons_of_mem a hb), rfl⟩
            exact ⟨a, f a, _, ⟨ha, rfl⟩, ⟨rest, _, [], hrest, ⟨rfl, rfl⟩, rfl⟩, by simp⟩

theorem vector_eq (f : α → List β) (n : ℕ) (as : List α) (w : List β) :
    vector (fun a w => w = f a) n as w ↔ as.length = n ∧ w = (as.map f).flatten := by
  have h := vector_values (fun _ => True) f n as w
  simpa only [true_and, implies_true] using h

end Format

/-! ### Parsers over a cursor -/

open Exec

variable {ε σ ρ α γ β : Type} {view : List β → List β → σ} {Q : ε → Prop}

/-- The parser `p` implements the format `E` on the cursors `view pre post`,
with errors among those of `Q`. -/
structure Parses (view : List β → List β → σ) (Q : ε → Prop) (p : Exec ε σ α)
    (E : Format β α) : Prop where
  complete : ∀ {a w}, E a w → ∀ pre post, p (view pre (w ++ post)) = (.ok a, view (pre ++ w) post)
  sound : ∀ pre post, (∃ a w post', E a w ∧ post = w ++ post') ∨
    ∃ e pre' post', Q e ∧ pre' ++ post' = pre ++ post ∧
      p (view pre post) = (.err e, view pre' post')

namespace Parses

/-- Either the string starts with an encoding or the parser returns an error. -/
theorem cases {p : Exec ε σ α} {E : Format β α} (h : Parses view Q p E) (pre post : List β) :
    (∃ a w post', E a w ∧ post = w ++ post' ∧
      p (view pre post) = (.ok a, view (pre ++ w) post')) ∨
    ∃ e pre' post', Q e ∧ pre' ++ post' = pre ++ post ∧
      p (view pre post) = (.err e, view pre' post') := by
  rcases h.sound pre post with ⟨a, w, post', hE, rfl⟩ | herr
  · exact .inl ⟨a, w, post', hE, rfl, h.complete hE pre post'⟩
  · exact .inr herr

theorem congr {p : Exec ε σ α} {E F : Format β α} (h : Parses view Q p E)
    (hEF : ∀ a w, E a w ↔ F a w) : Parses view Q p F where
  complete hF pre post := h.complete ((hEF _ _).mpr hF) pre post
  sound pre post := by
    rcases h.sound pre post with ⟨a, w, post', hE, hpost⟩ | herr
    · exact .inl ⟨a, w, post', (hEF _ _).mp hE, hpost⟩
    · exact .inr herr

theorem pure (a : α) : Parses view Q (Pure.pure a : Exec ε σ α) (Format.done a) where
  complete := by
    rintro b w ⟨rfl, rfl⟩ pre post
    simp
  sound pre post := .inl ⟨a, [], post, ⟨rfl, rfl⟩, rfl⟩

theorem throw {e : ε} (he : Q e) :
    Parses view Q (Exec.throw e : Exec ε σ α) (fun _ _ => False) where
  complete h := h.elim
  sound pre post := .inr ⟨e, pre, post, he, rfl, rfl⟩

theorem ite {c : Prop} [Decidable c] {p q : Exec ε σ α} {E F : Format β α}
    (hp : Parses view Q p E) (hq : Parses view Q q F) :
    Parses view Q (if c then p else q) (if c then E else F) := by
  split
  · exact hp
  · exact hq

theorem bind {p : Exec ε σ α} {E : Format β α} {f : α → Exec ε σ γ} {F : α → Format β γ}
    (hp : Parses view Q p E) (hf : ∀ a, Parses view Q (f a) (F a)) :
    Parses view Q (p >>= f) (Format.seq E F) where
  complete := by
    rintro c w ⟨a, u, v, hu, hv, rfl⟩ pre post
    rw [List.append_assoc, bind_ok (hp.complete hu pre (v ++ post)), (hf a).complete hv,
      List.append_assoc]
  sound pre post := by
    rcases hp.cases pre post with ⟨a, u, rest, hu, rfl, hok⟩ | ⟨e, pre', post', he, hsame, herr⟩
    · rcases (hf a).sound (pre ++ u) rest with
        ⟨c, v, post', hv, rfl⟩ | ⟨e, pre', post', he, hsame, herr⟩
      · exact .inl ⟨c, u ++ v, post', ⟨a, u, v, hu, hv, rfl⟩, by simp⟩
      · exact .inr ⟨e, pre', post', he, by simpa using hsame, by rw [bind_ok hok, herr]⟩
    · exact .inr ⟨e, pre', post', he, hsame, bind_err herr⟩

/-- Parsing a value and wrapping it up. -/
theorem wrap {p : Exec ε σ α} {E : Format β α} (hp : Parses view Q p E) (f : α → γ) (g : γ → α)
    (hgf : ∀ a, g (f a) = a) (hfg : ∀ c, f (g c) = c) :
    Parses view Q (p >>= fun a => Pure.pure (f a)) (fun c w => E (g c) w) := by
  refine (hp.bind fun a => Parses.pure (f a)).congr fun c w => ?_
  constructor
  · rintro ⟨a, u, _, hu, ⟨rfl, rfl⟩, rfl⟩
    rwa [hgf, List.append_nil]
  · intro h
    exact ⟨g c, w, [], h, ⟨(hfg c).symm, rfl⟩, (List.append_nil w).symm⟩

/-- A counted loop parses a vector. -/
theorem times {p : Exec ε σ α} {E : Format β α} (hp : Parses view Q p E) (n : ℕ) :
    Parses view Q (Exec.times p n) (Format.vector E n) := by
  induction n with
  | zero => exact Parses.pure []
  | succ n ih => exact hp.bind fun a => ih.bind fun as => Parses.pure (a :: as)

/-- A format with a parser is unambiguous, if a cursor tells the two strings apart. -/
theorem unambiguous {p : Exec ε σ α} {E : Format β α} (h : Parses view Q p E)
    (hview : ∀ u v s t, view u s = view v t → u = v ∧ s = t) : Format.Unambiguous E := by
  intro a b u v s t hu hv huv
  have ha := h.complete hu [] s
  have hb := h.complete hv [] t
  rw [huv, hb] at ha
  simp only [List.nil_append, Prod.mk.injEq, Outcome.ok.injEq] at ha
  obtain ⟨rfl, hcursor⟩ := ha
  obtain ⟨rfl, rfl⟩ := hview _ _ _ _ hcursor
  exact ⟨rfl, rfl, rfl⟩

/-- What ends inside an encoding is refused. -/
theorem truncated {p : Exec ε σ α} {E : Format β α} (h : Parses view Q p E)
    (hE : Format.Unambiguous E) {a : α} {v w : List β} (hw : E a w) (hv : v <+: w) (hne : v ≠ w)
    (pre : List β) : ∃ e pre' post', Q e ∧ p (view pre v) = (.err e, view pre' post') := by
  rcases h.cases pre v with ⟨a', u, rest, hu, rfl, -⟩ | ⟨e, pre', post', he, -, herr⟩
  · -- an encoding in front of `v` would be one in front of `w` too
    obtain ⟨t, rfl⟩ := hv
    obtain ⟨-, hsame, -⟩ := hE hu hw (s := rest ++ t) (t := []) (by simp)
    rw [List.append_assoc, List.self_eq_append_right, List.append_eq_nil_iff] at hsame
    obtain ⟨rfl, rfl⟩ := hsame
    simp at hne
  · exact ⟨e, pre', post', he, herr⟩

/-! ### Parsing in front of a body that is no parser -/

variable {p : Exec ε σ α} {E : Format β α} {f : α → Exec ε σ γ}

theorem bind_complete (h : Parses view Q p E) {a : α} {w : List β} (hE : E a w)
    (pre post : List β) : (p >>= f) (view pre (w ++ post)) = f a (view (pre ++ w) post) :=
  bind_ok (h.complete hE pre post)

theorem bind_cases (h : Parses view Q p E) (f : α → Exec ε σ γ) (pre post : List β) :
    (∃ a w post', E a w ∧ post = w ++ post' ∧
      (p >>= f) (view pre post) = f a (view (pre ++ w) post')) ∨
    ∃ e pre' post', Q e ∧ (p >>= f) (view pre post) = (.err e, view pre' post') := by
  rcases h.cases pre post with ⟨a, w, post', hE, hpost, hok⟩ | ⟨e, pre', post', he, -, herr⟩
  · exact .inl ⟨a, w, post', hE, hpost, bind_ok hok⟩
  · exact .inr ⟨e, pre', post', he, bind_err herr⟩

theorem bind_ok_iff (h : Parses view Q p E) {pre post : List β} {c : γ} {s : σ} :
    (p >>= f) (view pre post) = (.ok c, s) ↔
      ∃ a w post', E a w ∧ post = w ++ post' ∧ f a (view (pre ++ w) post') = (.ok c, s) := by
  constructor
  · intro hp
    rcases h.bind_cases f pre post with ⟨a, w, post', hE, hpost, hok⟩ | ⟨e, pre', post', -, herr⟩
    · exact ⟨a, w, post', hE, hpost, hok ▸ hp⟩
    · rw [herr] at hp
      simp at hp
  · rintro ⟨a, w, post', hE, rfl, hf⟩
    rw [h.bind_complete hE, hf]

end Parses
