import PurecryptoTpm.Library.Safe
import PurecryptoTpm.Transport

/-!
The character-device transport: `src/transport/device.rs`. A command is written
to the device until all of it is accepted, and the response is what one read
returns. How the file behaves is left open: a write may accept a part of what
it is given, and any call may fail.
-/

namespace PurecryptoTpm

/-- An open file. A call moves no more bytes than it is given or has room for.
`write` stands for a call that is not interrupted: `write_all` makes an
interrupted one again. -/
class File (φ : Type) where
  write : Bytes → φ → Except String ℕ × φ
  flush : φ → Except String Unit × φ
  read : ℕ → φ → Except String Bytes × φ
  write_le : ∀ buf f n, (write buf f).1 = .ok n → n ≤ buf.length
  read_le : ∀ n f b, (read n f).1 = .ok b → b.length ≤ n

namespace File

variable {φ : Type} [File φ]

/-- Write until everything has been accepted. -/
def writeAll (buf : Bytes) (f : φ) : Outcome String Unit × φ :=
  if buf.isEmpty then
    (.ok (), f)
  else
    match File.write buf f with
    | (.error e, f) => (.err e, f)
    | (.ok 0, f) => (.err "failed to write whole buffer", f)
    | (.ok (n + 1), f) => writeAll (buf.drop (n + 1)) f
termination_by buf.length
decreasing_by
  have hne : buf ≠ [] := by simpa using ‹¬ buf.isEmpty = true›
  have hpos := List.length_pos_of_ne_nil hne
  rw [List.length_drop]
  omega

def flushed : Exec String φ Unit := fun f => Exec.ofExcept (File.flush f).1 (File.flush f).2

/-- One read into a buffer with room for `n` bytes. -/
def readOnce (n : ℕ) : Exec String φ Bytes := fun f =>
  Exec.ofExcept (File.read n f).1 (File.read n f).2

end File

/-- A TPM accessed through a character device. -/
structure DeviceTransport (φ : Type) where
  file : φ

namespace DeviceTransport

variable {φ : Type} [File φ]

/-- The size of the buffer a response is read into. -/
def maxResponse : ℕ := 4096

def onFile {α : Type} (x : Exec Error φ α) : Exec Error (DeviceTransport φ) α := fun t =>
  ((x t.file).1, { t with file := (x t.file).2 })

/-- A transmission, over the file alone. -/
def exchange (command : Bytes) : Exec Error φ Bytes := do
  Exec.mapErr (fun e => .transport ("write command: " ++ e)) (File.writeAll command)
  Exec.mapErr .transport File.flushed
  let buf ← Exec.mapErr (fun e => .transport ("read response: " ++ e))
    (File.readOnce maxResponse)
  if buf.length = 0 then
    Exec.throw (.transport "empty TPM response")
  else
    pure buf

def transmit (command : Bytes) : Exec Error (DeviceTransport φ) Bytes := onFile (exchange command)

end DeviceTransport

/-! ### What a write of everything does -/

namespace File

variable {φ : Type} [File φ]

theorem writeAll_nil (f : φ) : writeAll [] f = (.ok (), f) := by
  rw [writeAll]
  rfl

theorem writeAll_error {buf : Bytes} {f f' : φ} {e : String} (hne : buf ≠ [])
    (h : File.write buf f = (.error e, f')) : writeAll buf f = (.err e, f') := by
  rw [writeAll, if_neg (by simpa using hne), h]

theorem writeAll_zero {buf : Bytes} {f f' : φ} (hne : buf ≠ [])
    (h : File.write buf f = (.ok 0, f')) :
    writeAll buf f = (.err "failed to write whole buffer", f') := by
  rw [writeAll, if_neg (by simpa using hne), h]

theorem writeAll_ok {buf : Bytes} {f f' : φ} {n : ℕ} (hne : buf ≠ []) (hn : n ≠ 0)
    (h : File.write buf f = (.ok n, f')) : writeAll buf f = writeAll (buf.drop n) f' := by
  obtain ⟨m, rfl⟩ := Nat.exists_eq_succ_of_ne_zero hn
  rw [writeAll, if_neg (by simpa using hne), h]

end File

end PurecryptoTpm
