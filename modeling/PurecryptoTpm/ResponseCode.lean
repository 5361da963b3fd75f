import Mathlib.Data.Nat.Bitwise
import PurecryptoTpm.Error

/-!
The layering of response codes. A format-one code is made of the code proper,
the number of the argument it complains about, and two bits that say what kind
of argument that is. Bit 11 is the top bit of a parameter's number, but marks
the number of a session, and the accessor for numbers takes it for a number
bit in either case.
-/

namespace PurecryptoTpm

namespace ArgKind

/-- The bits that mark the kind. -/
def bits : ArgKind → UInt32
  | handle => 0x000
  | parameter => 0x040
  | session => 0x800

/-- The largest number an argument of the kind can have. -/
def limit : ArgKind → UInt8
  | handle => 7
  | parameter => 15
  | session => 7

end ArgKind

namespace TpmRc

/-- The low twelve bits of a format-one code. -/
def layer (kind : ArgKind) (e : UInt32) (n : UInt8) : UInt32 :=
  e ||| (n.toUInt32 <<< 8) ||| kind.bits

/-- The code says that `e` went wrong with the `n`-th argument of a kind. -/
structure Layered (rc : TpmRc) (kind : ArgKind) (e : UInt32) (n : UInt8) : Prop where
  code : 0x080 ≤ e ∧ e ≤ 0x0BF
  number : 1 ≤ n ∧ n ≤ kind.limit
  raw : ∃ high : UInt32, rc.raw = layer kind e n ||| (high <<< 12)

/-- The accessors take a code apart into what it was made of. -/
def Decomposes (rc : TpmRc) : Prop :=
  (∀ kind e n, rc.Layered kind e n →
    rc.base = ⟨e⟩ ∧ rc.argKind = some kind ∧ rc.argNumber = some n ∧
      layer kind e n = rc.raw &&& 0xFFF) ∧
  (rc.raw &&& 0x080 = 0 →
    rc.base = rc ∧ rc.argKind = none ∧ rc.argNumber = none ∧
      (rc.isWarning = true ↔ rc.raw &&& 0x800 ≠ 0))

/-- A format-one code that carries the number of a session. -/
def NumbersSession (rc : TpmRc) : Prop :=
  rc.isFormatOne = true ∧ rc.raw &&& 0x040 = 0 ∧ rc.raw &&& 0x800 ≠ 0 ∧ rc.raw &&& 0x700 ≠ 0

/-! ### Bit fields as digits -/

/-- Masking out a field of `w` bits from bit `i` up. -/
theorem toNat_and_field (x m : UInt32) (i w : ℕ) (hm : m.toNat = (2 ^ w - 1) * 2 ^ i) :
    (x &&& m).toNat = x.toNat / 2 ^ i % 2 ^ w * 2 ^ i := by
  rw [UInt32.toNat_and, hm]
  apply Nat.eq_of_testBit_eq
  intro j
  rw [Nat.testBit_and, Nat.testBit_mul_two_pow, Nat.testBit_mul_two_pow, Nat.testBit_mod_two_pow,
    Nat.testBit_two_pow_sub_one, Nat.testBit_div_two_pow]
  by_cases hj : i ≤ j
  · simp [hj, Nat.sub_add_cancel hj, Bool.and_comm]
  · simp [hj]

theorem and_field_eq_zero_iff (x m : UInt32) (i w : ℕ) (hm : m.toNat = (2 ^ w - 1) * 2 ^ i) :
    x &&& m = 0 ↔ x.toNat / 2 ^ i % 2 ^ w = 0 := by
  have hpos : 0 < 2 ^ i := Nat.two_pow_pos i
  rw [← UInt32.toNat_inj, toNat_and_field x m i w hm, UInt32.toNat_zero, Nat.mul_eq_zero]
  omega

/-- Fields that do not overlap are put together by adding them. -/
theorem or_eq_add {a b : ℕ} (i : ℕ) (ha : 2 ^ i ∣ a) (hb : b < 2 ^ i) : a ||| b = a + b := by
  obtain ⟨k, rfl⟩ := ha
  exact (Nat.two_pow_add_eq_or_of_lt hb k).symm

/-! ### The accessors -/

theorem isFormatOne_iff (rc : TpmRc) : rc.isFormatOne = true ↔ rc.raw.toNat / 128 % 2 = 1 := by
  have hbit := and_field_eq_zero_iff rc.raw 0x080 7 1 (by decide)
  rw [isFormatOne, bne_iff_ne, ne_eq, hbit]
  omega

theorem toNat_base {rc : TpmRc} (h : rc.isFormatOne = true) :
    rc.base.raw.toNat = 128 + rc.raw.toNat % 64 := by
  have hlow := toNat_and_field rc.raw 0x3F 0 6 (by decide)
  have hbit := toNat_and_field rc.raw 0x080 7 1 (by decide)
  have hmask : rc.raw &&& 0x0BF = (rc.raw &&& 0x080) ||| (rc.raw &&& 0x03F) := by
    apply UInt32.toNat_inj.1
    rw [UInt32.toNat_or, UInt32.toNat_and, UInt32.toNat_and, UInt32.toNat_and,
      ← Nat.and_or_distrib_left]
    rfl
  rw [base, if_pos h, hmask, UInt32.toNat_or, hlow, hbit]
  rw [isFormatOne_iff] at h
  rw [or_eq_add 7 (by omega) (by omega)]
  omega

theorem argNumber_of_formatOne {rc : TpmRc} (h : rc.isFormatOne = true) (n : UInt8) :
    rc.argNumber = some n ↔ n.toNat = rc.raw.toNat / 256 % 16 := by
  have hfield := toNat_and_field (rc.raw >>> 8) 0xF 0 4 (by decide)
  have hshift : (rc.raw >>> 8).toNat = rc.raw.toNat / 256 := by
    rw [UInt32.toNat_shiftRight, Nat.shiftRight_eq_div_pow]
    rfl
  rw [argNumber, if_pos h, Option.some_inj, ← UInt8.toNat_inj, UInt32.toNat_toUInt8, hfield, hshift]
  omega

theorem argKind_of_formatOne {rc : TpmRc} (h : rc.isFormatOne = true) (kind : ArgKind) :
    rc.argKind = some kind ↔
      match kind with
      | .parameter => rc.raw.toNat / 64 % 2 = 1
      | .session => rc.raw.toNat / 64 % 2 = 0 ∧ rc.raw.toNat / 2048 % 2 = 1
      | .handle => rc.raw.toNat / 64 % 2 = 0 ∧ rc.raw.toNat / 2048 % 2 = 0 := by
  have hparameter := and_field_eq_zero_iff rc.raw 0x040 6 1 (by decide)
  have hsession := and_field_eq_zero_iff rc.raw 0x800 11 1 (by decide)
  rw [argKind, h]
  simp only [Bool.not_true, Bool.false_eq_true, if_false, bne_iff_ne, ne_eq, hparameter, hsession]
  split_ifs with hp hs
  · cases kind <;> simp <;> omega
  · cases kind <;> simp <;> omega
  · cases kind <;> simp <;> omega

/-! ### Codes made in layers -/

theorem code_bits {e : UInt32} (h : 0x080 ≤ e ∧ e ≤ 0x0BF) : 128 ≤ e.toNat ∧ e.toNat < 192 := by
  obtain ⟨hlow, hhigh⟩ := h
  rw [UInt32.le_iff_toNat_le] at hlow hhigh
  have hlow' : (0x080 : UInt32).toNat = 128 := rfl
  have hhigh' : (0x0BF : UInt32).toNat = 191 := rfl
  omega

theorem toNat_shiftLeft_of_dvd (x : UInt32) (i : ℕ) (hi : i < 32) :
    ∃ k, (x <<< UInt32.ofNat i).toNat = k * 2 ^ i := by
  have hshift : (UInt32.ofNat i).toNat % 32 = i := by
    rw [UInt32.toNat_ofNat']
    omega
  refine ⟨x.toNat % 2 ^ (32 - i), ?_⟩
  rw [UInt32.toNat_shiftLeft, hshift, Nat.shiftLeft_eq]
  have hsplit : 2 ^ 32 = 2 ^ (32 - i) * 2 ^ i := by
    rw [← Nat.pow_add]
    congr 1
    omega
  rw [hsplit, Nat.mul_mod_mul_right]

theorem toNat_number (n : UInt8) : (n.toUInt32 <<< 8).toNat = n.toNat * 256 := by
  have hn := n.toNat_lt
  rw [UInt32.toNat_shiftLeft, UInt8.toNat_toUInt32, Nat.shiftLeft_eq]
  show n.toNat * 2 ^ 8 % 2 ^ 32 = n.toNat * 256
  omega

/-- The fields of the low twelve bits, added up. -/
theorem toNat_layer {kind : ArgKind} {e : UInt32} {n : UInt8} (he : 0x080 ≤ e ∧ e ≤ 0x0BF)
    (hn : n ≤ kind.limit) :
    (layer kind e n).toNat = e.toNat + kind.bits.toNat + n.toNat * 256 := by
  obtain ⟨hlow, hhigh⟩ := code_bits he
  have hn := UInt8.le_iff_toNat_le.1 hn
  -- bit 7 apart, so that bit 6 of a parameter fits below it
  obtain ⟨r, hr, hr'⟩ : ∃ r, e.toNat = 128 + r ∧ r < 64 := ⟨e.toNat - 128, by omega, by omega⟩
  have hcode : e.toNat = 128 ||| r := by rw [or_eq_add 6 (by decide) hr', hr]
  rw [layer, UInt32.toNat_or, UInt32.toNat_or, toNat_number, hcode]
  cases kind with
  | handle =>
      show (128 ||| r) ||| n.toNat * 256 ||| 0 = (128 ||| r) + 0 + n.toNat * 256
      rw [Nat.or_zero, Nat.or_comm, or_eq_add 8 (by omega) (by omega)]
      omega
  | parameter =>
      show (128 ||| r) ||| n.toNat * 256 ||| 64 = (128 ||| r) + 64 + n.toNat * 256
      have hfields : (128 ||| r) ||| n.toNat * 256 ||| 64 =
          n.toNat * 256 ||| (128 ||| (64 ||| r)) := by
        ac_rfl
      have hmark : 64 ||| r = 64 + r := or_eq_add 6 (by decide) hr'
      have hlow : 128 ||| (64 + r) = 128 + (64 + r) := or_eq_add 7 (by decide) (by omega)
      rw [hfields, hmark, hlow, or_eq_add 8 (by omega) (by omega)]
      omega
  | session =>
      show (128 ||| r) ||| n.toNat * 256 ||| 2048 = (128 ||| r) + 2048 + n.toNat * 256
      have hlimit : n.toNat ≤ 7 := hn
      have hlow : n.toNat * 256 ||| (128 ||| r) = n.toNat * 256 + (128 ||| r) :=
        or_eq_add 8 (by omega) (by omega)
      rw [Nat.or_comm, Nat.or_comm (128 ||| r), hlow, or_eq_add 11 (by decide) (by omega)]
      omega

/-- The mark of each kind and the largest number it has room for. -/
theorem mark_cases {kind : ArgKind} {n : UInt8} (h : n ≤ kind.limit) :
    (kind = .handle ∧ kind.bits.toNat = 0 ∧ n.toNat ≤ 7) ∨
      (kind = .parameter ∧ kind.bits.toNat = 64 ∧ n.toNat ≤ 15) ∨
        (kind = .session ∧ kind.bits.toNat = 2048 ∧ n.toNat ≤ 7) := by
  have hn := UInt8.le_iff_toNat_le.1 h
  cases kind with
  | handle => exact .inl ⟨rfl, rfl, hn⟩
  | parameter => exact .inr (.inl ⟨rfl, rfl, hn⟩)
  | session => exact .inr (.inr ⟨rfl, rfl, hn⟩)

namespace Layered

variable {rc : TpmRc} {kind : ArgKind} {e : UInt32} {n : UInt8}

/-- What the numbers of a code's parts say of the code. -/
theorem toNat_raw (h : rc.Layered kind e n) :
    ∃ k, rc.raw.toNat = k * 4096 + (e.toNat + kind.bits.toNat + n.toNat * 256) ∧
      e.toNat + kind.bits.toNat + n.toNat * 256 < 4096 := by
  obtain ⟨high, hraw⟩ := h.raw
  obtain ⟨hlow, hhigh⟩ := code_bits h.code
  have hlayer := toNat_layer h.code h.number.2
  have hsmall : e.toNat + kind.bits.toNat + n.toNat * 256 < 4096 := by
    rcases mark_cases h.number.2 with ⟨-, hmark, hn⟩ | ⟨-, hmark, hn⟩ | ⟨-, hmark, hn⟩
    · omega
    · omega
    · omega
  obtain ⟨k, hk⟩ := toNat_shiftLeft_of_dvd high 12 (by decide)
  refine ⟨k, ?_, hsmall⟩
  have hshift : (high <<< 12).toNat = k * 4096 := hk
  rw [hraw, UInt32.toNat_or, hlayer, hshift, Nat.or_comm, or_eq_add 12 (by omega) (by omega)]

theorem isFormatOne (h : rc.Layered kind e n) : rc.isFormatOne = true := by
  obtain ⟨hlow, hhigh⟩ := code_bits h.code
  obtain ⟨k, hraw, -⟩ := h.toNat_raw
  rw [isFormatOne_iff]
  rcases mark_cases h.number.2 with ⟨-, hmark, -⟩ | ⟨-, hmark, -⟩ | ⟨-, hmark, -⟩
  · omega
  · omega
  · omega

theorem base_eq (h : rc.Layered kind e n) : rc.base = ⟨e⟩ := by
  obtain ⟨hlow, hhigh⟩ := code_bits h.code
  obtain ⟨k, hraw, -⟩ := h.toNat_raw
  have hbase := toNat_base h.isFormatOne
  have heq : rc.base.raw = e := by
    apply UInt32.toNat_inj.1
    rcases mark_cases h.number.2 with ⟨-, hmark, -⟩ | ⟨-, hmark, -⟩ | ⟨-, hmark, -⟩
    · omega
    · omega
    · omega
  cases hrc : rc.base with
  | mk raw =>
      rw [hrc] at heq
      exact congrArg TpmRc.mk heq

theorem argKind_eq (h : rc.Layered kind e n) : rc.argKind = some kind := by
  obtain ⟨hlow, hhigh⟩ := code_bits h.code
  obtain ⟨k, hraw, -⟩ := h.toNat_raw
  rw [argKind_of_formatOne h.isFormatOne]
  rcases mark_cases h.number.2 with ⟨rfl, hmark, hn⟩ | ⟨rfl, hmark, -⟩ | ⟨rfl, hmark, hn⟩
  · show rc.raw.toNat / 64 % 2 = 0 ∧ rc.raw.toNat / 2048 % 2 = 0
    omega
  · show rc.raw.toNat / 64 % 2 = 1
    omega
  · show rc.raw.toNat / 64 % 2 = 0 ∧ rc.raw.toNat / 2048 % 2 = 1
    omega

theorem layer_eq (h : rc.Layered kind e n) : layer kind e n = rc.raw &&& 0xFFF := by
  obtain ⟨k, hraw, hsmall⟩ := h.toNat_raw
  apply UInt32.toNat_inj.1
  rw [toNat_layer h.code h.number.2, toNat_and_field rc.raw 0xFFF 0 12 (by decide)]
  omega

/-- The mark of a session is taken for a bit of its number. -/
theorem argNumber_iff (h : rc.Layered kind e n) : rc.argNumber = some n ↔ kind ≠ .session := by
  obtain ⟨hlow, hhigh⟩ := code_bits h.code
  obtain ⟨k, hraw, -⟩ := h.toNat_raw
  rw [argNumber_of_formatOne h.isFormatOne]
  rcases mark_cases h.number.2 with ⟨rfl, hmark, hn⟩ | ⟨rfl, hmark, hn⟩ | ⟨rfl, hmark, hn⟩
  · simp only [ne_eq, reduceCtorEq, not_false_eq_true, iff_true]
    omega
  · simp only [ne_eq, reduceCtorEq, not_false_eq_true, iff_true]
    omega
  · simp only [ne_eq, not_true_eq_false, iff_false]
    omega

end Layered

theorem numbersSession_iff (rc : TpmRc) :
    rc.NumbersSession ↔ ∃ e n, rc.Layered .session e n := by
  have hparameter := and_field_eq_zero_iff rc.raw 0x040 6 1 (by decide)
  have hsession := and_field_eq_zero_iff rc.raw 0x800 11 1 (by decide)
  have hfield := and_field_eq_zero_iff rc.raw 0x700 8 3 (by decide)
  have hmark : ArgKind.session.bits.toNat = 2048 := rfl
  rw [NumbersSession, isFormatOne_iff, hparameter, ne_eq, hsession, ne_eq, hfield]
  constructor
  · rintro ⟨hformat, hkind, hmarked, hnumber⟩
    have hraw := rc.raw.toNat_lt
    -- the number is what bits 8 to 10 say
    have he : (UInt32.ofNat (128 + rc.raw.toNat % 64)).toNat = 128 + rc.raw.toNat % 64 := by
      rw [UInt32.toNat_ofNat']
      omega
    have hn : (UInt8.ofNat (rc.raw.toNat / 256 % 8)).toNat = rc.raw.toNat / 256 % 8 := by
      rw [UInt8.toNat_ofNat']
      omega
    have hlow : (0x080 : UInt32).toNat = 128 := rfl
    have hhigh : (0x0BF : UInt32).toNat = 191 := rfl
    have hone : (1 : UInt8).toNat = 1 := rfl
    have hlimit : ArgKind.session.limit.toNat = 7 := rfl
    have hcode : 0x080 ≤ UInt32.ofNat (128 + rc.raw.toNat % 64) ∧
        UInt32.ofNat (128 + rc.raw.toNat % 64) ≤ 0x0BF := by
      rw [UInt32.le_iff_toNat_le, UInt32.le_iff_toNat_le]
      omega
    have hbound : 1 ≤ UInt8.ofNat (rc.raw.toNat / 256 % 8) ∧
        UInt8.ofNat (rc.raw.toNat / 256 % 8) ≤ ArgKind.session.limit := by
      rw [UInt8.le_iff_toNat_le, UInt8.le_iff_toNat_le]
      omega
    refine ⟨_, _, hcode, hbound, rc.raw >>> 12, ?_⟩
    have hshift : ((rc.raw >>> 12) <<< 12).toNat = rc.raw.toNat / 4096 * 4096 := by
      rw [UInt32.toNat_shiftLeft, UInt32.toNat_shiftRight, Nat.shiftRight_eq_div_pow,
        Nat.shiftLeft_eq]
      show rc.raw.toNat / 2 ^ 12 * 2 ^ 12 % 2 ^ 32 = rc.raw.toNat / 4096 * 4096
      omega
    apply UInt32.toNat_inj.1
    rw [UInt32.toNat_or, hshift, toNat_layer hcode hbound.2, Nat.or_comm,
      or_eq_add 12 (by omega) (by omega)]
    omega
  · rintro ⟨e, n, h⟩
    obtain ⟨hlow, hhigh⟩ := code_bits h.code
    obtain ⟨k, hraw, hsmall⟩ := h.toNat_raw
    have hone := UInt8.le_iff_toNat_le.1 h.number.1
    have hn : n.toNat ≤ 7 := UInt8.le_iff_toNat_le.1 h.number.2
    have hone' : 1 ≤ n.toNat := hone
    omega

/-- Codes without a number are left alone. -/
theorem accessors_of_formatZero {rc : TpmRc} (h : rc.raw &&& 0x080 = 0) :
    rc.base = rc ∧ rc.argKind = none ∧ rc.argNumber = none ∧
      (rc.isWarning = true ↔ rc.raw &&& 0x800 ≠ 0) := by
  have hformat : rc.isFormatOne = false := by
    rw [isFormatOne, h]
    rfl
  refine ⟨base_of_formatZero hformat, ?_, ?_, ?_⟩
  · rw [argKind, hformat]
    rfl
  · rw [argNumber, hformat]
    rfl
  · rw [isWarning, hformat, Bool.not_false, Bool.true_and, bne_iff_ne]

/-- A code is taken apart into what it was made of, unless it numbers a session. -/
theorem decomposes_iff (rc : TpmRc) : rc.Decomposes ↔ ¬rc.NumbersSession := by
  rw [numbersSession_iff]
  constructor
  · rintro ⟨hlayers, -⟩ ⟨e, n, hlayered⟩
    have hnumber := (hlayers .session e n hlayered).2.2.1
    exact hlayered.argNumber_iff.1 hnumber rfl
  · intro hsession
    refine ⟨?_, fun h => accessors_of_formatZero h⟩
    intro kind e n hlayered
    refine ⟨hlayered.base_eq, hlayered.argKind_eq, hlayered.argNumber_iff.2 ?_, hlayered.layer_eq⟩
    rintro rfl
    exact hsession ⟨e, n, hlayered⟩

/-- An authorization failure of the first session reads as one of the ninth. -/
theorem authFail_session_not_decomposes : ¬Decomposes ⟨0x98E⟩ := by
  intro h
  have hlayered : Layered ⟨0x98E⟩ .session 0x08E 1 := ⟨by decide, by decide, 0, by decide⟩
  have hnumber : argNumber ⟨0x98E⟩ = some 1 := (h.1 _ _ _ hlayered).2.2.1
  have hread : argNumber ⟨0x98E⟩ = some 9 := by decide
  rw [hread] at hnumber
  exact absurd hnumber (by decide)

end TpmRc

end PurecryptoTpm
