import Mathlib.Data.List.Induction
import Mathlib.Tactic.Common

/-!
Streams of frames. A `Framing` takes one frame off the front of a stream, or
finds that no frame is complete yet. What it finds does not depend on what has
not arrived, so a reader that takes off frames until none is complete finds the
same frames however the stream was cut into pieces. Whoever answers the frames
sends one answer for each.
-/

/-- A way to take one frame off the front of a stream. -/
structure Framing (β α : Type) where
  next : List β → Option (α × List β)
  next_append : ∀ {s a rest} (t : List β), next s = some (a, rest) →
    next (s ++ t) = some (a, rest ++ t)
  next_shorter : ∀ {s a rest}, next s = some (a, rest) → rest.length < s.length

namespace Framing

variable {β α : Type} (F : Framing β α)

/-- The complete frames of a stream, and what is left over. -/
def all (s : List β) : List α × List β :=
  match _h : F.next s with
  | none => ([], s)
  | some (a, rest) => (a :: (all rest).1, (all rest).2)
termination_by s.length
decreasing_by all_goals exact F.next_shorter _h

variable {F}

theorem all_of_none {s : List β} (h : F.next s = none) : F.all s = ([], s) := by
  rw [all]
  split
  · rfl
  · case h_2 a rest hnext => simp [h] at hnext

theorem all_of_some {s rest : List β} {a : α} (h : F.next s = some (a, rest)) :
    F.all s = (a :: (F.all rest).1, (F.all rest).2) := by
  rw [all]
  split
  · case h_1 hnext => simp [h] at hnext
  · case h_2 b rest' hnext =>
      rw [h, Option.some_inj, Prod.mk.injEq] at hnext
      rw [hnext.1, hnext.2]

/-- What arrives later extends the frames found so far. -/
theorem all_append (s t : List β) :
    F.all (s ++ t) =
      ((F.all s).1 ++ (F.all ((F.all s).2 ++ t)).1, (F.all ((F.all s).2 ++ t)).2) := by
  induction hn : s.length using Nat.strongRecOn generalizing s with
  | ind n ih =>
      cases h : F.next s with
      | none => rw [all_of_none h, List.nil_append]
      | some p =>
          obtain ⟨a, rest⟩ := p
          have hshorter := F.next_shorter h
          rw [all_of_some h, all_of_some (F.next_append t h), ih rest.length (by omega) rest rfl,
            List.cons_append]

theorem all_isPrefix (s t : List β) : (F.all s).1 <+: (F.all (s ++ t)).1 := by
  rw [all_append]
  exact List.prefix_append _ _

/-- Frames written one after the other are found one after the other. -/
theorem all_frames {f : α → List β} {as : List α}
    (h : ∀ a ∈ as, ∀ s, F.next (f a ++ s) = some (a, s)) (s : List β) :
    F.all ((as.map f).flatten ++ s) = (as ++ (F.all s).1, (F.all s).2) := by
  induction as with
  | nil => rfl
  | cons a as ih =>
      have ha := h a (List.mem_cons_self ..) ((as.map f).flatten ++ s)
      have hrest := ih fun b hb => h b (List.mem_cons_of_mem a hb)
      rw [List.map_cons, List.flatten_cons, List.append_assoc, all_of_some ha, hrest,
        List.cons_append]

end Framing

/-! ### Answers -/

section Answers

variable {α γ : Type} (f : List α → γ)

/-- The answers to a number of messages, each to all that were received so far. -/
def answers (ms : List α) : List γ := (List.range ms.length).map fun i => f (ms.take (i + 1))

theorem answers_snoc (ms : List α) (m : α) :
    answers f (ms ++ [m]) = answers f ms ++ [f (ms ++ [m])] := by
  have hsame : (List.range ms.length).map (fun i => f ((ms ++ [m]).take (i + 1))) =
      (List.range ms.length).map fun i => f (ms.take (i + 1)) := by
    apply List.map_congr_left
    intro i hi
    rw [List.take_append_of_le_length (List.mem_range.1 hi)]
  have hall : (ms ++ [m]).take (ms.length + 1) = ms ++ [m] := List.take_of_length_le (by simp)
  rw [answers, List.length_append, List.length_singleton, List.range_succ, List.map_append, hsame,
    List.map_singleton, hall, answers]

theorem answers_isPrefix {ms ms' : List α} (h : ms <+: ms') : answers f ms <+: answers f ms' := by
  obtain ⟨more, rfl⟩ := h
  induction more using List.reverseRecOn with
  | nil => simp
  | append_singleton more m ih =>
      rw [← List.append_assoc, answers_snoc]
      exact ih.trans (List.prefix_append _ _)

/-- Every message received is answered. -/
theorem mem_answers {ms : List α} {m : α} {ms' : List α} (h : ms ++ [m] <+: ms') :
    f (ms ++ [m]) ∈ answers f ms' := by
  apply (answers_isPrefix f h).subset
  rw [answers_snoc]
  exact List.mem_append_right _ (List.mem_singleton_self _)

end Answers
