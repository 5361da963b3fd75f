import Mathlib.Data.List.Infix
import PurecryptoTpm.Library.Exec

/-!
Connections that may be lost. A `Socket` is one end of a connection whose other
end has sent `answer w` once it has been sent `w`. Either direction may end
after any number of symbols, and a read that finds too little ends its
direction.

A body that `Writes` a question and one that `Reads` an answer make up an
exchange. Between exchanges a connection is at some `Stage`: every question got
through and was answered, or one of the directions has ended. What succeeds is
an exchange at the first of these stages, and it reads its own answer.
-/

structure Socket (β : Type) where
  answer : List β → List β
  written : List β
  consumed : ℕ
  /-- Where the direction to the other end stops, if it does. -/
  sendLimit : Option ℕ
  /-- Where the direction from the other end stops, if it does. -/
  recvLimit : Option ℕ

namespace Socket

variable {ε ε' α α' β : Type}

/-- What gets through of a stream. -/
def passed : Option ℕ → List β → List β
  | none, l => l
  | some n, l => l.take n

/-- The connection with `w` sent and all the answers to it read. -/
def settledAt (s : Socket β) (w : List β) : Socket β :=
  { s with written := w, consumed := (s.answer w).length }

/-- What can still be read. -/
def unread (s : Socket β) : List β := (passed s.recvLimit (s.answer s.written)).drop s.consumed

/-- The connection with more written to it. -/
def wrote (s : Socket β) (l : List β) : Socket β := { s with written := s.written ++ l }

/-- The connection with more read from it. -/
def took (s : Socket β) (n : ℕ) : Socket β := { s with consumed := s.consumed + n }

/-- Write all of `l`, or fail with `e`. -/
def writeAll (e : ε) (l : List β) : Exec ε (Socket β) Unit := fun s =>
  let out := passed (s.sendLimit.map (· - s.written.length)) l
  if out.length = l.length then
    (.ok (), s.wrote out)
  else
    (.err e, s.wrote out)

/-- The connection once all that got through has been read, and more was asked for. -/
def starved (s : Socket β) : Socket β :=
  { s.took s.unread.length with recvLimit := some (s.consumed + s.unread.length) }

/-- Read `n` symbols, or fail with `e`. -/
def readExact (e : ε) (n : ℕ) : Exec ε (Socket β) (List β) := fun s =>
  if n ≤ s.unread.length then
    (.ok (s.unread.take n), s.took n)
  else
    (.err e, s.starved)

/-- Nothing more gets through to the other end. -/
def SendEnded (s : Socket β) : Prop := ∃ n, s.sendLimit = some n ∧ n ≤ s.written.length

/-- Nothing more gets through from the other end. -/
def RecvEnded (s : Socket β) : Prop := ∃ n, s.recvLimit = some n ∧ n ≤ s.consumed

/-- One of the directions has ended. -/
def Lost (s : Socket β) : Prop := s.SendEnded ∨ s.RecvEnded

/-- One of the directions stops somewhere. -/
def Limited (s : Socket β) : Prop := s.sendLimit ≠ none ∨ s.recvLimit ≠ none

/-- There is room for `l` on the way to the other end. -/
def Room (s : Socket β) (l : List β) : Prop :=
  ∀ n, s.sendLimit = some n → l.length ≤ n - s.written.length

theorem passed_isPrefix (limit : Option ℕ) (l : List β) : passed limit l <+: l := by
  cases limit with
  | none => exact List.prefix_refl l
  | some n => exact List.take_prefix n l

@[simp] theorem wrote_nil (s : Socket β) : s.wrote [] = s := by
  simp [wrote]

@[simp] theorem wrote_wrote (s : Socket β) (a b : List β) :
    (s.wrote a).wrote b = s.wrote (a ++ b) := by
  simp [wrote]

@[simp] theorem took_took (s : Socket β) (m n : ℕ) : (s.took m).took n = s.took (m + n) := by
  simp [took, Nat.add_assoc]

theorem unread_took (s : Socket β) (n : ℕ) : (s.took n).unread = s.unread.drop n := by
  simp [unread, took]

/-- What is ahead behind all that was read. -/
theorem unread_of_answer {s : Socket β} (pre post : List β)
    (h : s.answer s.written = pre ++ post) (hconsumed : s.consumed = pre.length) :
    s.unread = passed (s.recvLimit.map (· - s.consumed)) post := by
  rw [unread, h, hconsumed]
  cases s.recvLimit with
  | none => exact List.drop_left
  | some n =>
      show ((pre ++ post).take n).drop pre.length = post.take (n - pre.length)
      rw [List.drop_take, List.drop_left]

/-- Where every answer has been read there is nothing to read. -/
theorem unread_settledAt (s : Socket β) (w : List β) : (s.settledAt w).unread = [] := by
  have hanswer : (s.settledAt w).answer (s.settledAt w).written = s.answer w ++ [] :=
    (List.append_nil _).symm
  rw [unread_of_answer (s.answer w) [] hanswer rfl]
  exact List.prefix_nil.1 (passed_isPrefix _ _)

/-- Behind a direction that has ended there is nothing to read. -/
theorem RecvEnded.unread_eq {s : Socket β} (h : s.RecvEnded) : s.unread = [] := by
  obtain ⟨n, hlimit, hle⟩ := h
  rw [unread, hlimit]
  exact List.drop_of_length_le (Nat.le_trans (List.length_take_le ..) hle)

theorem recvEnded_starved (s : Socket β) : s.starved.RecvEnded := ⟨_, rfl, Nat.le_refl _⟩

theorem starved_took {s : Socket β} {n : ℕ} (h : n ≤ s.unread.length) :
    (s.took n).starved = s.starved := by
  have hconsumed : s.consumed + n + (s.unread.length - n) = s.consumed + s.unread.length := by
    omega
  rw [starved, starved, unread_took, List.length_drop, took, took, took, hconsumed]

/-! ### Writing -/

/-- The body writes `l`, or the front of it that gets through. -/
def Writes (x : Exec ε (Socket β) Unit) (l : List β) : Prop :=
  ∀ s, (x s = (.ok (), s.wrote l) ∧ s.Room l) ∨
    ∃ e p, p <+: l ∧ p ≠ l ∧ s.Room p ∧ x s = (.err e, s.wrote p) ∧ (s.wrote p).SendEnded

namespace Writes

variable {x y : Exec ε (Socket β) Unit} {a b : List β}

theorem writeAll (e : ε) (l : List β) : Writes (Socket.writeAll e l) l := by
  intro s
  have hfront := passed_isPrefix (s.sendLimit.map (· - s.written.length)) l
  have hroom : s.Room (passed (s.sendLimit.map (· - s.written.length)) l) := by
    intro n hn
    rw [hn]
    exact List.length_take_le ..
  by_cases hall : (passed (s.sendLimit.map (· - s.written.length)) l).length = l.length
  · left
    have heq := hfront.eq_of_length hall
    rw [heq] at hroom
    exact ⟨by rw [Socket.writeAll, if_pos hall, heq], hroom⟩
  · right
    refine ⟨e, _, hfront, fun heq => hall (congrArg List.length heq), hroom,
      by rw [Socket.writeAll, if_neg hall], ?_⟩
    cases hlimit : s.sendLimit with
    | none => simp [hlimit, passed] at hall
    | some n =>
        refine ⟨n, hlimit, ?_⟩
        simp only [hlimit, Option.map_some, passed, List.length_take] at hall
        simp only [wrote, Option.map_some, passed, List.length_append, List.length_take]
        omega

theorem mapErr (h : Writes x a) (f : ε → ε') : Writes (Exec.mapErr f x) a := by
  intro s
  rcases h s with ⟨hok, hroom⟩ | ⟨e, p, hfront, hpart, hroom, herr, hended⟩
  · exact .inl ⟨Exec.mapErr_ok f hok, hroom⟩
  · exact .inr ⟨f e, p, hfront, hpart, hroom, Exec.mapErr_err f herr, hended⟩

theorem room_append {s : Socket β} (ha : s.Room a) (hb : (s.wrote a).Room b) :
    s.Room (a ++ b) := by
  intro n hn
  have hfirst := ha n hn
  have hsecond : b.length ≤ n - (s.written ++ a).length := hb n hn
  rw [List.length_append] at hsecond ⊢
  omega

theorem bind (hx : Writes x a) (hy : Writes y b) : Writes (x >>= fun _ => y) (a ++ b) := by
  intro s
  rcases hx s with ⟨hok, hroom⟩ | ⟨e, p, hfront, hpart, hroom, herr, hended⟩
  · rw [Exec.bind_ok hok]
    rcases hy (s.wrote a) with ⟨hok', hroom'⟩ | ⟨e, p, hfront, hpart, hroom', herr, hended⟩
    · exact .inl ⟨by rw [hok', wrote_wrote], room_append hroom hroom'⟩
    · refine .inr ⟨e, a ++ p, (List.prefix_append_right_inj a).2 hfront, ?_,
        room_append hroom hroom', by rw [herr, wrote_wrote], by rwa [wrote_wrote] at hended⟩
      exact fun heq => hpart (List.append_cancel_left heq)
  · refine .inr ⟨e, p, hfront.trans (List.prefix_append a b), ?_, hroom, Exec.bind_err herr,
      hended⟩
    intro heq
    exact hpart (hfront.eq_of_length_le (by rw [heq, List.length_append]; omega))

/-- Nothing gets through in a direction that has ended. -/
theorem ended (h : Writes x a) {s : Socket β} (hs : s.SendEnded) (ha : a ≠ []) :
    ∃ e, x s = (.err e, s) := by
  obtain ⟨n, hlimit, hle⟩ := hs
  rcases h s with ⟨-, hroom⟩ | ⟨e, p, -, -, hroom, herr, -⟩
  · have hfits := hroom n hlimit
    have hempty : a = [] := List.length_eq_zero_iff.1 (by omega)
    exact absurd hempty ha
  · have hfits := hroom n hlimit
    have hempty : p = [] := List.length_eq_zero_iff.1 (by omega)
    exact ⟨e, by rw [herr, hempty, wrote_nil]⟩

/-- A write leaves a lost connection lost. -/
theorem lost (h : Writes x a) {s : Socket β} (hs : s.Lost) (ha : a ≠ []) : (x s).2.Lost := by
  rcases hs with hended | hended
  · obtain ⟨e, herr⟩ := h.ended hended ha
    rw [herr]
    exact .inl hended
  · rcases h s with ⟨hok, -⟩ | ⟨e, p, -, -, -, herr, -⟩
    · rw [hok]
      exact .inr hended
    · rw [herr]
      exact .inr hended

/-- Without a limit everything gets through. -/
theorem unlimited (h : Writes x a) {s : Socket β} (hs : s.sendLimit = none) :
    x s = (.ok (), s.wrote a) := by
  rcases h s with ⟨hok, -⟩ | ⟨e, p, -, -, -, -, n, hn, -⟩
  · exact hok
  · have hsome : s.sendLimit = some n := hn
    simp [hs] at hsome

end Writes

/-! ### Reading -/

/-- The body reads `a` and ends in `o`, unless the stream ends first. -/
structure Reads (x : Exec ε (Socket β) α) (a : List β) (o : Outcome ε α) : Prop where
  complete : ∀ s, a <+: s.unread → x s = (o, s.took a.length)
  short : ∀ s, s.unread <+: a → s.unread ≠ a → ∃ e, x s = (.err e, s.starved)

namespace Reads

variable {x : Exec ε (Socket β) α} {f : α → Exec ε (Socket β) α'} {a b : List β}

theorem readExact (e : ε) {n : ℕ} (h : a.length = n) : Reads (Socket.readExact e n) a (.ok a) := by
  subst h
  refine ⟨?_, ?_⟩
  · intro s hpre
    rw [Socket.readExact, if_pos hpre.length_le, ← List.prefix_iff_eq_take.1 hpre]
  · intro s hpre hne
    have hshort : ¬ a.length ≤ s.unread.length := fun hle => hne (hpre.eq_of_length_le hle)
    exact ⟨e, by rw [Socket.readExact, if_neg hshort]⟩

theorem pure (v : α) : Reads (Pure.pure v : Exec ε (Socket β) α) [] (.ok v) :=
  ⟨fun _ _ => rfl, fun _ hpre hne => absurd (List.prefix_nil.1 hpre) hne⟩

theorem throw (e : ε) : Reads (Exec.throw e : Exec ε (Socket β) α) [] (.err e) :=
  ⟨fun _ _ => rfl, fun _ hpre hne => absurd (List.prefix_nil.1 hpre) hne⟩

theorem mapErr {v : α} (h : Reads x a (.ok v)) (f : ε → ε') :
    Reads (Exec.mapErr f x) a (.ok v) := by
  refine ⟨fun s hpre => Exec.mapErr_ok f (h.complete s hpre), ?_⟩
  intro s hpre hne
  obtain ⟨e, herr⟩ := h.short s hpre hne
  exact ⟨f e, Exec.mapErr_err f herr⟩

theorem bind {v : α} {o : Outcome ε α'} (hx : Reads x a (.ok v)) (hf : Reads (f v) b o) :
    Reads (x >>= f) (a ++ b) o := by
  refine ⟨?_, ?_⟩
  · intro s hpre
    have ha : a <+: s.unread := (List.prefix_append a b).trans hpre
    have hb : b <+: (s.took a.length).unread := by
      rw [unread_took]
      simpa using hpre.drop a.length
    rw [Exec.bind_ok (hx.complete s ha), hf.complete _ hb, took_took, List.length_append]
  · intro s hpre hne
    by_cases ha : a <+: s.unread
    · have hb : (s.took a.length).unread <+: b := by
        rw [unread_took]
        simpa using hpre.drop a.length
      have hne' : (s.took a.length).unread ≠ b := by
        rintro rfl
        rw [unread_took] at hne
        exact hne (List.prefix_append_drop ha)
      obtain ⟨e, herr⟩ := hf.short _ hb hne'
      refine ⟨e, ?_⟩
      rw [Exec.bind_ok (hx.complete s ha), herr, starved_took ha.length_le]
    · have hshort : s.unread <+: a :=
        (List.prefix_or_prefix_of_prefix hpre (List.prefix_append a b)).resolve_right ha
      obtain ⟨e, herr⟩ := hx.short s hshort (by rintro rfl; exact ha (List.prefix_refl _))
      exact ⟨e, Exec.bind_err herr⟩

/-- Nothing is read behind a direction that has ended. -/
theorem ended {o : Outcome ε α} (h : Reads x a o) {s : Socket β} (hs : s.RecvEnded)
    (ha : a ≠ []) : ∃ e, x s = (.err e, s.starved) := by
  have hunread := hs.unread_eq
  exact h.short s (by rw [hunread]; exact List.nil_prefix) (by rw [hunread]; exact ha.symm)

end Reads

/-! ### Exchanges -/

/-- A connection between two exchanges, of which `w` are the whole questions
that got through. Behind them may be the front of one more of the questions `Q`. -/
inductive Stage (Q : List β → Prop) (w : List β) (s : Socket β) : Prop where
  | settled (h : s = s.settledAt w)
  | deaf (written : s.written = w) (ended : s.RecvEnded)
  | mute (q p : List β) (asked : Q q) (front : p <+: q) (partially : p ≠ q)
      (written : s.written = w ++ p) (ended : s.SendEnded)

section Exchange

variable {x : Exec ε (Socket β) Unit} {y : Exec ε (Socket β) α} {o : Outcome ε α}
  {Q : List β → Prop} {w q a : List β} {s : Socket β}

/-- An exchange reads its own answer, or ends one of the directions. What the
second half reads matters only once the first half got through. -/
theorem exchange_settled (hs : s = s.settledAt w) (hx : Writes x q)
    (hy : x s = (.ok (), s.wrote q) → Reads y a o) (h : s.answer (w ++ q) = s.answer w ++ a) :
    (x >>= fun _ => y) s = (o, s.settledAt (w ++ q)) ∨
      ∃ e t, (x >>= fun _ => y) s = (.err e, t) ∧ s.Limited ∧ t.answer = s.answer ∧
        ((t.written = w ++ q ∧ t.RecvEnded) ∨
          ∃ p, p <+: q ∧ p ≠ q ∧ t.written = w ++ p ∧ t.SendEnded) := by
  have hwritten : s.written = w := congrArg written hs
  have hconsumed : s.consumed = (s.answer w).length := congrArg consumed hs
  rcases hx s with ⟨hsent, -⟩ | ⟨e, p, hfront, hpart, -, herr, hended⟩
  · have hreads := hy hsent
    have hanswer : (s.wrote q).answer (s.wrote q).written = s.answer w ++ a := by
      rw [← h, ← hwritten]
      rfl
    have hunread := unread_of_answer (s.answer w) a hanswer hconsumed
    rw [Exec.bind_ok hsent]
    by_cases hall : (s.wrote q).unread = a
    · left
      rw [hreads.complete _ (by rw [hall]), wrote, took, settledAt, hwritten, hconsumed, h,
        List.length_append]
    · right
      obtain ⟨e, herr⟩ := hreads.short _ (by rw [hunread]; exact passed_isPrefix _ _) hall
      refine ⟨e, _, herr, .inr fun hopen => hall ?_, rfl,
        .inl ⟨by rw [starved, took, wrote, hwritten], recvEnded_starved _⟩⟩
      have hopen : (s.wrote q).recvLimit = none := hopen
      rw [hunread, hopen]
      rfl
  · right
    refine ⟨e, _, Exec.bind_err herr, .inl ?_, rfl,
      .inr ⟨p, hfront, hpart, by rw [wrote, hwritten], hended⟩⟩
    obtain ⟨n, hlimit, -⟩ := hended
    have hlimit : s.sendLimit = some n := hlimit
    simp [hlimit]

/-- Nothing is answered on a connection that is lost, and it stays so. -/
theorem exchange_lost (hs : s.Lost) (hx : Writes x q) (hq : q ≠ []) (hy : Reads y a o)
    (ha : a ≠ []) : ∃ e t, (x >>= fun _ => y) s = (.err e, t) ∧ t.Lost := by
  rcases hs with hended | hended
  · obtain ⟨e, herr⟩ := hx.ended hended hq
    exact ⟨e, s, Exec.bind_err herr, .inl hended⟩
  · rcases hx s with ⟨hsent, -⟩ | ⟨e, p, -, -, -, herr, hmute⟩
    · have hstill : (s.wrote q).RecvEnded := hended
      obtain ⟨e, herr⟩ := hy.ended hstill ha
      exact ⟨e, _, by rw [Exec.bind_ok hsent, herr], .inr (recvEnded_starved _)⟩
    · exact ⟨e, _, Exec.bind_err herr, .inl hmute⟩

/-- What an exchange does to a connection at any stage. -/
theorem Stage.exchange (hs : s.Stage Q w) (hx : Writes x q) (hasked : Q q) (hq : q ≠ [])
    (hy : Reads y a o) (ha : a ≠ []) (h : s.answer (w ++ q) = s.answer w ++ a) :
    (x >>= fun _ => y) s = (o, s.settledAt (w ++ q)) ∨
      ∃ e t, (x >>= fun _ => y) s = (.err e, t) ∧ t.answer = s.answer ∧
        (t.Stage Q w ∨ t.Stage Q (w ++ q)) := by
  cases hs with
  | settled hs =>
      rcases exchange_settled hs hx (fun _ => hy) h with
        hok | ⟨e, t, herr, -, hanswer, ⟨hsent, hended⟩ | ⟨p, hfront, hpart, hsent, hended⟩⟩
      · exact .inl hok
      · exact .inr ⟨e, t, herr, hanswer, .inr (.deaf hsent hended)⟩
      · exact .inr ⟨e, t, herr, hanswer, .inl (.mute q p hasked hfront hpart hsent hended)⟩
  | deaf hwritten hended =>
      right
      rcases hx s with ⟨hsent, -⟩ | ⟨e, p, hfront, hpart, -, herr, hmute⟩
      · have hstill : (s.wrote q).RecvEnded := hended
        obtain ⟨e, herr⟩ := hy.ended hstill ha
        refine ⟨e, (s.wrote q).starved, ?_, rfl, .inr (.deaf ?_ (recvEnded_starved _))⟩
        · rw [Exec.bind_ok hsent, herr]
        · rw [starved, took, wrote, hwritten]
      · refine ⟨e, _, Exec.bind_err herr, rfl, .inl (.mute q p hasked hfront hpart ?_ hmute)⟩
        rw [wrote, hwritten]
  | mute q' p hasked' hfront hpart hwritten hended =>
      right
      obtain ⟨e, herr⟩ := hx.ended hended hq
      exact ⟨e, s, Exec.bind_err herr, rfl, .inl (.mute q' p hasked' hfront hpart hwritten hended)⟩

end Exchange

end Socket
