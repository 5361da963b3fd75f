import Mathlib.Data.Nat.Basic
import Mathlib.Data.List.Basic
import Mathlib.Tactic.Ring
import Mathlib.Algebra.Order.Ring.Nat

/-!
Big-endian numerals over bytes. `bytes w n` is the `w`-byte numeral of `n`
modulo `256 ^ w`, most significant byte first, and `value` reads a numeral
back. The two are inverse in both directions: on numbers below `256 ^ w`, and
on byte strings of length `w`.
-/

namespace BigEndian

/-- The `w`-byte big-endian numeral of `n`, reduced modulo `256 ^ w`. -/
def bytes : ℕ → ℕ → List UInt8
  | 0, _ => []
  | w + 1, n => UInt8.ofNat (n / 256 ^ w) :: bytes w n

/-- The number a big-endian byte string denotes. -/
def value : List UInt8 → ℕ
  | [] => 0
  | b :: l => b.toNat * 256 ^ l.length + value l

@[simp] theorem length_bytes (w n : ℕ) : (bytes w n).length = w := by
  induction w with
  | zero => rfl
  | succ w ih => simp [bytes, ih]

theorem value_lt (l : List UInt8) : value l < 256 ^ l.length := by
  induction l with
  | nil => simp [value]
  | cons b l ih =>
      have hb : b.toNat + 1 ≤ 256 := b.toNat_lt
      calc value (b :: l) < b.toNat * 256 ^ l.length + 256 ^ l.length :=
            Nat.add_lt_add_left ih _
        _ = (b.toNat + 1) * 256 ^ l.length := by ring
        _ ≤ 256 * 256 ^ l.length := Nat.mul_le_mul_right _ hb
        _ = 256 ^ (b :: l).length := by rw [List.length_cons, Nat.pow_succ, Nat.mul_comm]

theorem value_bytes (w n : ℕ) : value (bytes w n) = n % 256 ^ w := by
  induction w with
  | zero => simp [bytes, value, Nat.mod_one]
  | succ w ih =>
      have hsplit : n % 256 ^ (w + 1) = n % 256 ^ w + 256 ^ w * (n / 256 ^ w % 256) :=
        Nat.mod_pow_succ
      rw [bytes, value, length_bytes, ih, UInt8.toNat_ofNat', hsplit]
      norm_num
      ring

theorem value_bytes_of_lt {w n : ℕ} (h : n < 256 ^ w) : value (bytes w n) = n := by
  rw [value_bytes, Nat.mod_eq_of_lt h]

/-- Only the residue modulo `256 ^ w` is written. -/
theorem bytes_congr {w m n : ℕ} (h : m % 256 ^ w = n % 256 ^ w) : bytes w m = bytes w n := by
  induction w with
  | zero => rfl
  | succ w ih =>
      have hlow : m % 256 ^ w = n % 256 ^ w := by
        have hdvd : 256 ^ w ∣ 256 ^ (w + 1) := Nat.pow_dvd_pow _ (Nat.le_succ w)
        rw [← Nat.mod_mod_of_dvd m hdvd, ← Nat.mod_mod_of_dvd n hdvd, h]
      have hhigh : m / 256 ^ w % 256 = n / 256 ^ w % 256 := by
        rw [Nat.pow_succ] at h
        rw [← Nat.mod_mul_right_div_self, ← Nat.mod_mul_right_div_self, h]
      rw [bytes, bytes, ih hlow]
      congr 1
      apply UInt8.toNat_inj.mp
      simpa [UInt8.toNat_ofNat'] using hhigh

/-- The high part of a numeral is the numeral of the high part. -/
theorem bytes_add (v w n : ℕ) : bytes (v + w) n = bytes v (n / 256 ^ w) ++ bytes w n := by
  induction v with
  | zero => rw [Nat.zero_add, bytes, List.nil_append]
  | succ v ih =>
      have hdiv : n / 256 ^ (v + w) = n / 256 ^ w / 256 ^ v := by
        rw [Nat.div_div_eq_div_mul, ← Nat.pow_add, Nat.add_comm]
      rw [Nat.add_right_comm, bytes, ih, hdiv, bytes, List.cons_append]

theorem bytes_value (l : List UInt8) : bytes l.length (value l) = l := by
  induction l with
  | nil => rfl
  | cons b l ih =>
      have hv : value l < 256 ^ l.length := value_lt l
      have hhead : (b.toNat * 256 ^ l.length + value l) / 256 ^ l.length = b.toNat := by
        rw [Nat.mul_comm, Nat.mul_add_div (Nat.pow_pos (by decide)),
          Nat.div_eq_of_lt hv, Nat.add_zero]
      have htail : bytes l.length (b.toNat * 256 ^ l.length + value l) =
          bytes l.length (value l) := bytes_congr (by simp [Nat.add_mod])
      rw [List.length_cons, bytes, value, hhead, htail, ih]
      congr 1
      exact UInt8.ofNat_toNat

end BigEndian
