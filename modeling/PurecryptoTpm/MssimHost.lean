import PurecryptoTpm.Backends
import PurecryptoTpm.MssimRefinement

/-!
Programs of the host over the whole simulator transport. `transport_mut` lends
the transport out between the calls, so a program can switch the simulator on,
move to another locality, send a command past the dispatcher or end a session
wherever it likes. What it gets is what it gets from the simulator in messages.
-/

namespace PurecryptoTpm

open Exec

/-! ### The two transports -/

theorem MssimTransport.transmit_safe (command : Bytes) :
    Safe Anywhere (MssimTransport.transmit command) Anything :=
  fun t _ => ⟨trivial, (SimulatorTransport.transmit_safe command t.toSimulatorTransport trivial).2⟩

instance : Transport MssimTransport where
  transmit command := Exec.total (MssimTransport.transmit command)
    (MssimTransport.transmit_safe command)

theorem SimulatorReply.outcome_ne_panic (r : SimulatorReply) : r.outcome ≠ .panic := by
  rw [outcome]
  split <;> simp

theorem Mssim.transmit_safe (command : Bytes) :
    Safe Anywhere (Mssim.transmit command) Anything :=
  fun _ _ => ⟨trivial, fun _ _ => trivial, SimulatorReply.outcome_ne_panic _⟩

/-- The simulator in messages, as a transport. -/
instance : Transport Mssim where
  transmit command := Exec.total (Mssim.transmit command) (Mssim.transmit_safe command)

theorem mssim_interchangeable : Interchangeable Attached := fun _ _ _ hframe hattached =>
  (MssimTransport.transmit_simulates hframe.2).total _ _ hattached

/-! ### Programs that use the transport -/

/-- A program of the host that also operates the transport. -/
inductive Bench (α : Type) where
  | done (a : α)
  | call (m : Method) (next : Outcome Error m.Result → Bench α)
  | swapAuth (auth : Auth) (next : Auth → Bench α)
  /-- Borrow the transport with `transport_mut` for one operation. -/
  | operate (op : Operation) (next : Outcome Error (Option Bytes) → Bench α)

namespace Bench

variable {τ α : Type} [Transport τ]

def run (P : Purecrypto) (perform : Operation → Exec Error τ (Option Bytes)) :
    Bench α → Exec Error (Env τ) α
  | done a => pure a
  | call m next => do
      let o ← Exec.reify (m.invoke P)
      (next o).run P perform
  | swapAuth auth next => do
      let env ← Exec.get
      Exec.set { env with auth := auth }
      (next env.auth).run P perform
  | operate op next => do
      let o ← Exec.reify (Env.onTransport (perform op))
      (next o).run P perform

/-- Every command the program sends fits its length field. -/
def Short : Bench α → Prop
  | done _ => True
  | call m next => m.Short ∧ ∀ o, (next o).Short
  | swapAuth _ next => ∀ auth, (next auth).Short
  | operate op next => op.Fits ∧ ∀ o, (next o).Short

theorem run_simulates {P : Purecrypto} {program : Bench α} (h : program.Short) :
    Simulates (Env.Alike Attached) (program.run P MssimTransport.perform)
      (program.run P Mssim.perform) := by
  induction program with
  | done a => exact .pure a
  | call m next ih =>
      exact (Method.invoke_simulates mssim_interchangeable h.1).reify.bind fun o => ih o (h.2 o)
  | swapAuth auth next ih =>
      rintro ⟨t, auth', os⟩ ⟨t', _, _⟩ ⟨ht, rfl, rfl⟩
      exact ih auth' (h auth') _ _ ⟨ht, rfl, rfl⟩
  | operate op next ih =>
      exact (onTransport_simulates (MssimTransport.perform_simulates h.1)).reify.bind
        fun o => ih o (h.2 o)

end Bench

/-- A program on the simulator transport, on connections that are not lost: it
ends as it does on the simulator in messages, with the same authorization and
the same randomness left, and both ends agree on the messages. -/
theorem bench_refines {α : Type} (P : Purecrypto) {simulator : Simulator}
    (hreply : ∀ sent, (simulator sent).payload.length ≤ maxResponse) (platform : Option Platform)
    (program : Bench α) (hshort : program.Short) (auth : Auth) (os : OsRng) :
    let bytes := program.run P MssimTransport.perform ⟨.attach .uncut simulator platform, auth, os⟩
    let messages := program.run P Mssim.perform ⟨.connect simulator platform, auth, os⟩
    bytes.1 = messages.1 ∧ bytes.2.auth = messages.2.auth ∧ bytes.2.os = messages.2.os ∧
      MessagesAgree messages.2.transport bytes.2.transport := by
  intro bytes messages
  obtain ⟨hresult, hend⟩ := Bench.run_simulates (P := P) hshort
    ⟨.attach .uncut simulator platform, auth, os⟩ ⟨.connect simulator platform, auth, os⟩
    ⟨attached_attach hreply platform, rfl, rfl⟩
  exact ⟨hresult, hend.auth, hend.os, hend.transport.messagesAgree⟩

/-- Switch the simulator on, move, and draw random bytes, then end the session. -/
def coldStart : Bench (Outcome Error Bytes) :=
  .operate .powerOn fun _ => .operate (.setLocality 3) fun _ =>
    .call (.getRandom 2) fun drawn => .operate .sessionEnd fun _ => .done drawn

theorem bench_refines_coldStart :
    (coldStart.run (.ofValues [] []) MssimTransport.perform
        ⟨.attach .uncut randomOnce.simulator (some fun _ => 0), .none, ⟨fun _ => 0⟩⟩).1 =
      (coldStart.run (.ofValues [] []) Mssim.perform
        ⟨.connect randomOnce.simulator (some fun _ => 0), .none, ⟨fun _ => 0⟩⟩).1 := by
  have hreply : ∀ sent, (randomOnce.simulator sent).payload.length ≤ maxResponse := by
    intro sent
    show (randomOnce _).length ≤ maxResponse
    rw [randomOnce]
    split <;> decide
  have hshort : coldStart.Short :=
    ⟨trivial, fun _ => ⟨trivial, fun _ => ⟨trivial, fun _ => ⟨trivial, fun _ => trivial⟩⟩⟩⟩
  exact (bench_refines (.ofValues [] []) hreply (some fun _ => 0) coldStart hshort .none
    ⟨fun _ => 0⟩).1

example : (coldStart.run (.ofValues [] []) Mssim.perform
    ⟨.connect randomOnce.simulator (some fun _ => 0), .none, ⟨fun _ => 0⟩⟩).1 =
      .ok (.ok [0x70, 0x77]) := by
  decide

end PurecryptoTpm
