import Stencil.Proofs.Number.Whole

/-! # Adding to a double that is a whole number

How a fraction is written makes no difference to the double nearest to it. So a whole number that
is added to a double which is one itself is added exactly, as long as the sum is at most `2 ^ 53` in
absolute value.
-/
namespace Stencil

variable {num den : Nat}

theorem roundDiv_mul_right {k : Nat} (hk : 0 < k) (num den : Nat) :
    roundDiv (num * k) (den * k) = roundDiv num den := by
  have hdouble : 2 * (num % den * k) = 2 * (num % den) * k := (Nat.mul_assoc 2 _ k).symm
  have hlt : den * k < 2 * (num % den) * k ↔ den < 2 * (num % den) := Nat.mul_lt_mul_right hk
  have heq : 2 * (num % den) * k = den * k ↔ 2 * (num % den) = den := Nat.mul_left_inj (by omega)
  simp only [roundDiv,Nat.mul_div_mul_right _ _ hk,Nat.mul_mod_mul_right,hdouble,hlt,heq]

theorem shiftUp_mul (n k : Nat) (e : Int) : shiftUp (n * k) e = shiftUp n e * k :=
  Nat.mul_right_comm n k _

theorem log2_mul_pow (h : num ≠ 0) (d : Nat) : (num * 2 ^ d).log2 = num.log2 + d := by
  induction d with
  | zero => simp
  | succ d ih =>
    have hne : num * 2 ^ d ≠ 0 := Nat.mul_ne_zero h (Nat.ne_of_gt (Nat.two_pow_pos d))
    rw [Nat.pow_succ,← Nat.mul_assoc,Nat.mul_comm _ 2,Nat.log2_two_mul hne,ih]
    omega

theorem floorLog_mul_pow (hnum : num ≠ 0) (hden : den ≠ 0) (d : Nat) :
    floorLog (num * 2 ^ d) (den * 2 ^ d) = floorLog num den := by
  have hguess : ((num.log2 + d : Nat) : Int) - (den.log2 + d : Nat) = num.log2 - den.log2 := by omega
  simp only [floorLog,log2_mul_pow hnum,log2_mul_pow hden,hguess,shiftUp_mul,
    Nat.mul_le_mul_right_iff (Nat.two_pow_pos d)]

namespace Double

theorem ofFraction_mul_pow (negative : Bool) (num : Nat) (hden : den ≠ 0) (d : Nat) :
    ofFraction negative (num * 2 ^ d) (den * 2 ^ d) = ofFraction negative num den := by
  obtain rfl | hnum := eq_or_ne num 0
  · rw [Nat.zero_mul]
    rfl
  · have hne : num * 2 ^ d ≠ 0 := Nat.mul_ne_zero hnum (Nat.ne_of_gt (Nat.two_pow_pos d))
    simp only [ofFraction,if_neg hnum,if_neg hne,floorLog_mul_pow hnum hden,shiftUp_mul,
      roundDiv_mul_right (Nat.two_pow_pos d)]

theorem exists_scaled_den (negative : Bool) (m : Nat) (e : Int) :
    ∃ d, (Ratio.scaled negative m e).den = 2 ^ d := by
  cases e with
  | ofNat e => exact ⟨0,rfl⟩
  | negSucc e => exact ⟨e + 1,rfl⟩

/-- A double that is a whole number is a fraction in which the denominator cancels. -/
theorem exists_toRatio?_of_toInt? {x : Double} {i : Int} (h : x.toInt? = some i) :
    ∃ d : Nat, x.toRatio? = some ⟨i * (2 ^ d : Nat),2 ^ d⟩ := by
  cases x with
  | finite negative significand exponent =>
    obtain ⟨d,hden⟩ := exists_scaled_den negative significand exponent
    change (if _ then _ else _) = _ at h
    obtain ⟨hmod,hdiv⟩ := Option.ite_none_right_eq_some.mp h
    rw [Option.some.injEq] at hdiv
    have hnum := Int.ediv_mul_cancel (Int.dvd_of_emod_eq_zero hmod)
    rw [hdiv] at hnum
    refine ⟨d,?_⟩
    rw [← hden,hnum]
    rfl
  | infinite negative => cases h
  | nan mark => cases h

theorem toInt?_addInt {x : Double} {i : Int} (hx : x.toInt? = some i) {j : Int}
    (h : (i + j).natAbs ≤ 2 ^ 53) : (x.addInt j).toInt? = some (i + j) := by
  obtain ⟨d,hratio⟩ := exists_toRatio?_of_toInt? hx
  have hpos : 0 < ((2 ^ d : Nat) : Int) := Int.natCast_pos.mpr (Nat.two_pow_pos d)
  have hsum : (⟨i * (2 ^ d : Nat),2 ^ d⟩ : Ratio).add (.ofInt j) =
      ⟨(i + j) * (2 ^ d : Nat),1 * 2 ^ d⟩ := by
    rw [Ratio.add,Ratio.ofInt,Int.add_mul]
    simp
  have hsign : decide ((i + j) * (2 ^ d : Nat) < 0) = decide (i + j < 0) := by
    have hneg := Int.mul_nonneg_iff_of_pos_right (a := i + j) hpos
    exact decide_eq_decide.mpr (by omega)
  have hround : ofRatio ⟨(i + j) * (2 ^ d : Nat),1 * 2 ^ d⟩ =
      ofFraction (decide (i + j < 0)) (i + j).natAbs 1 := by
    rw [ofRatio,hsign,Int.natAbs_mul,Int.natAbs_natCast,ofFraction_mul_pow _ _ Nat.one_ne_zero]
  simp only [addInt,hratio,hsum,hround]
  rw [toInt?_ofFraction_one h,signed_natAbs]

end Double

end Stencil
