import Formula.Selection

/-!
The words that doubles from one on are.

The first item is counted by one. A double that is not below one has an exponent of at least -52 and a
mantissa that starts with its implicit bit, so that the bits which are cut off leave at least one
(`one_le_toNat_toUInt64`).
-/

namespace Formula.Decimal

open Float.Model Float.Model.UnpackedFloat

theorem mantissa_shiftRight (em : ExtendedMantissa) (n : Nat) :
    (em >>> n).mantissa = em.mantissa / Nat.pow 2 n := by
  show (n.repeat ExtendedMantissa.shiftRightOne em).mantissa = _
  induction n with
  | zero => exact (Nat.div_one _).symm
  | succ n ih =>
      rw [Nat.repeat, ExtendedMantissa.shiftRightOne, ih, Nat.div_div_eq_div_mul]
      rfl

/-- The whole part of a magnitude. -/
theorem roundToInt_positive (m : Nat) (e : Int) :
    roundToInt .positive m e = ((m * Nat.pow 2 e.toNat / Nat.pow 2 (-e).toNat : Nat) : Int) := by
  have hraise : (e - 0).toNat = e.toNat := by rw [Int.sub_zero]
  have hlower : (0 - (e - (e.toNat : Int))).toNat = (-e).toNat := by omega
  simp only [roundToInt, decreaseExponent, shiftToExponent, hraise, hlower, mantissa_shiftRight,
    ExtendedMantissa.ofMantissaAndAccuracy, Sign.apply, Nat.shiftLeft_eq]
  rfl

/-- A finite double has the least exponent or an implicit bit. -/
theorem implicit_bit {x : Float} {s : Sign} {m : Nat} {e : Int} {hm : 0 < m}
    (h : x.toModel.unpack = .finite s m e hm) : e = -1074 ∨ Nat.pow 2 52 ≤ m := by
  unfold Float.Model.unpack UnpackedFloat.unpack at h
  dsimp only at h
  by_cases hlargest : @unpackExponent .binary64 x.toModel.toBits.toBitVec = -1#11
  · rw [if_pos hlargest] at h
    by_cases hmantissa : @unpackMantissa .binary64 x.toModel.toBits.toBitVec = 0#52
    · rw [if_pos hmantissa] at h
      cases h
    · rw [if_neg hmantissa] at h
      cases h
  · rw [if_neg hlargest] at h
    by_cases hleast : @unpackExponent .binary64 x.toModel.toBits.toBitVec = 0#11
    · rw [if_pos hleast] at h
      by_cases hmantissa : @unpackMantissa .binary64 x.toModel.toBits.toBitVec = 0#52
      · rw [dif_pos hmantissa] at h
        cases h
      · rw [dif_neg hmantissa] at h
        left
        cases h
        rw [hleast]
        rfl
    · rw [if_neg hleast] at h
      right
      cases h
      rw [BitVec.toNat_append]
      exact Nat.left_le_or

/-- A double that is not below one is infinite, or it is `m * 2 ^ e` for an `e` and an `m` that are not
below those of one. -/
theorem unpack_of_one_le {x : Float} (h : 1.0 ≤ x) : x.toModel.unpack = .infinity .positive ∨
    ∃ m e hm, x.toModel.unpack = .finite .positive m e hm ∧ (-52 < e ∨ e = -52 ∧ Nat.pow 2 52 ≤ m) := by
  have hone : (1.0 : Float).toModel.unpack = .finite .positive (2 ^ 52) (-52) (by decide) := rfl
  have hle : UnpackedFloat.le (1.0 : Float).toModel.unpack x.toModel.unpack = true :=
    of_decide_eq_true h
  rw [hone] at hle
  cases hx : x.toModel.unpack with
  | notANumber =>
      rw [hx] at hle
      cases hle
  | zero s =>
      rw [hx] at hle
      cases hle
  | infinity s =>
      rw [hx] at hle
      cases s with
      | positive => exact .inl rfl
      | negative => cases hle
  | finite s m e hm =>
      rw [hx] at hle
      cases s with
      | negative => cases hle
      | positive =>
          have horder : ((compare (-52) e).then (compare (2 ^ 52) m)).isLE = true := hle
          refine .inr ⟨m, e, hm, rfl, ?_⟩
          rw [Ordering.isLE_then_iff_or] at horder
          rcases horder with hless | ⟨hequal, hmantissa⟩
          · exact .inl (Int.compare_eq_lt.1 hless)
          · exact .inr ⟨(Int.compare_eq_eq.1 hequal).symm, Nat.isLE_compare.1 hmantissa⟩

/-- The word that a double from one on is, is at least one. -/
theorem one_le_toNat_toUInt64 {x : Float} (h : 1.0 ≤ x) : 1 ≤ x.toUInt64.toNat := by
  have hclamp : ∀ n, 1 ≤ n → 1 ≤ (UInt64.ofNatClamp n).toNat := by
    intro n hn
    by_cases hsize : UInt64.size ≤ n
    · rw [UInt64.toNat_ofNatClamp_of_le hsize]
      decide
    · rwa [UInt64.toNat_ofNatClamp_of_lt (Nat.not_le.1 hsize)]
  refine hclamp _ ?_
  rcases unpack_of_one_le h with hx | ⟨m, e, hm, hx, hlarge⟩
  · rw [hx]
    decide
  · rw [hx]
    show 1 ≤ (roundToInt .positive m e).toNat
    rw [roundToInt_positive, Int.toNat_natCast]
    refine Nat.div_pos ?_ (Nat.two_pow_pos _)
    have hbit : 2 ^ 52 ≤ m := by
      rcases implicit_bit hx with hleast | hbit
      · omega
      · exact hbit
    have hshift : 2 ^ (-e).toNat ≤ 2 ^ 52 := Nat.pow_le_pow_right (by decide) (by omega)
    calc 2 ^ (-e).toNat ≤ 2 ^ 52 := hshift
      _ ≤ m := hbit
      _ ≤ m * 2 ^ e.toNat := Nat.le_mul_of_pos_right _ (Nat.two_pow_pos _)

end Formula.Decimal
