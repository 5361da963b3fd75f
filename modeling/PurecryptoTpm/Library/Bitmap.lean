import Mathlib.Data.List.GetD
import Mathlib.Data.UInt
import Mathlib.Algebra.BigOperators.Group.List.Basic

/-!
Bitmaps over bytes. Bit `n` of a map is bit `n % 8` of byte `n / 8`, and the
bits past the end are clear. The set bits of a map, in order, are as many as
its bytes have set bits together.
-/

namespace Bitmap

/-- Whether bit `n` is set. -/
def bit (map : List UInt8) (n : ℕ) : Bool := (map.getD (n / 8) 0).toNat.testBit (n % 8)

/-- The set bits in order. -/
def members (map : List UInt8) : List ℕ := (List.range (8 * map.length)).filter (bit map)

/-- How many bits of a byte are set. -/
def weight (b : UInt8) : ℕ := (List.range 8).countP fun i => b.toNat.testBit i

/-- How many bits of a map are set. -/
def size (map : List UInt8) : ℕ := (map.map weight).sum

theorem bit_append_left {a : List UInt8} (b : List UInt8) {n : ℕ} (h : n < 8 * a.length) :
    bit (a ++ b) n = bit a n := by
  rw [bit, List.getD_append _ _ _ _ (Nat.div_lt_of_lt_mul h), bit]

theorem bit_append_right (a b : List UInt8) (n : ℕ) :
    bit (a ++ b) (8 * a.length + n) = bit b n := by
  have hbyte : (8 * a.length + n) / 8 = a.length + n / 8 := by omega
  rw [bit, hbyte, Nat.mul_add_mod, List.getD_append_right _ _ _ _ (Nat.le_add_right ..),
    Nat.add_sub_cancel_left, bit]

/-- The set bits of the second map move up behind the first. -/
theorem members_append (a b : List UInt8) :
    members (a ++ b) = members a ++ (members b).map (8 * a.length + ·) := by
  have hlow : (List.range (8 * a.length)).filter (bit (a ++ b)) = members a :=
    List.filter_congr fun n hn => bit_append_left b (List.mem_range.mp hn)
  have hhigh : bit (a ++ b) ∘ (8 * a.length + ·) = bit b := by
    ext n
    exact bit_append_right a b n
  rw [members, List.length_append, Nat.mul_add, List.range_add, List.filter_append, hlow,
    List.filter_map, hhigh]
  rfl

theorem members_singleton (b : UInt8) :
    members [b] = (List.range 8).filter fun i => b.toNat.testBit i :=
  List.filter_congr fun n hn => by
    have hlt : n < 8 := List.mem_range.mp hn
    rw [bit, Nat.div_eq_of_lt hlt, Nat.mod_eq_of_lt hlt, List.getD_cons_zero]

theorem members_zeros (n : ℕ) : members (List.replicate n 0) = [] := by
  induction n with
  | zero => rfl
  | succ n ih =>
      have hzero : members [0] = [] := by decide
      rw [List.replicate_succ', members_append, ih, hzero, List.map_nil, List.append_nil]

theorem length_members (map : List UInt8) : (members map).length = size map := by
  induction map with
  | nil => rfl
  | cons b map ih =>
      rw [← List.singleton_append, members_append, List.length_append, List.length_map, ih,
        members_singleton, ← List.countP_eq_length_filter, List.singleton_append, size, size,
        List.map_cons, List.sum_cons, weight]

end Bitmap
