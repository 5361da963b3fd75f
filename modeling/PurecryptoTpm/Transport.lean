import PurecryptoTpm.Error
import PurecryptoTpm.Library.Exec

/-!
Moving command bytes to a TPM: `src/transport/mod.rs`. `Line` is the transport
that answers from a fixed stream of outcomes and records what was sent. As the
stream is arbitrary, it stands for every behaviour of whatever is at the other
end.
-/

namespace PurecryptoTpm

/-- A channel that carries one command and returns its one response. -/
class Transport (τ : Type) where
  transmit : Bytes → τ → Except Error Bytes × τ

/-- `self.transport.transmit(&frame)`. -/
def transmit {τ : Type} [Transport τ] (frame : Bytes) : Exec Error τ Bytes := fun t =>
  let (r, t) := Transport.transmit frame t
  Exec.ofExcept r t

theorem transmit_eq {τ : Type} [Transport τ] (frame : Bytes) (t : τ) :
    transmit frame t =
      Exec.ofExcept (Transport.transmit frame t).1 (Transport.transmit frame t).2 := rfl

/-- A transport with a fixed stream of outcomes, one for each transmission. -/
structure Line where
  outcomes : ℕ → Except Error Bytes
  sent : List Bytes

namespace Line

/-- The outcome of the `i`-th transmission from here. -/
def outcome (l : Line) (i : ℕ) : Except Error Bytes := l.outcomes (l.sent.length + i)

def push (l : Line) (frame : Bytes) : Line := { l with sent := l.sent ++ [frame] }

/-- The line after `k` transmissions of one frame. -/
def pushes (l : Line) (k : ℕ) (frame : Bytes) : Line :=
  { l with sent := l.sent ++ List.replicate k frame }

instance : Transport Line where
  transmit frame l := (l.outcome 0, l.push frame)

theorem transmit_line (frame : Bytes) (l : Line) :
    Transport.transmit frame l = (l.outcome 0, l.push frame) := rfl

@[simp] theorem pushes_zero (l : Line) (frame : Bytes) : l.pushes 0 frame = l := by
  simp [pushes]

@[simp] theorem push_pushes (l : Line) (k : ℕ) (frame : Bytes) :
    (l.pushes k frame).push frame = l.pushes (k + 1) frame := by
  simp [push, pushes, List.replicate_succ']

@[simp] theorem outcome_pushes (l : Line) (k i : ℕ) (frame : Bytes) :
    (l.pushes k frame).outcome i = l.outcome (k + i) := by
  simp [outcome, pushes, Nat.add_assoc]

end Line

/-- A transport whose answers are a function of everything sent so far. -/
structure Responder where
  respond : List Bytes → Except Error Bytes
  sent : List Bytes

instance : Transport Responder where
  transmit frame r :=
    (r.respond (r.sent ++ [frame]), { r with sent := r.sent ++ [frame] })

end PurecryptoTpm
