import Mathlib.Algebra.Group.Int.Defs
import Mathlib.Algebra.Group.Nat.Defs
import Mathlib.Data.List.TakeWhile
import Stencil.Number.Basic
import Stencil.Proofs.Text.Squash

/-! # Whole numbers in decimal

A whole number of at most `2 ^ 53` in absolute value is a double exactly. So its decimal text
is read as the number itself, although reading goes by way of a double.
-/
namespace Stencil

@[simp] theorem roundDiv_one (n : Nat) : roundDiv n 1 = n := by
  simp [roundDiv,Nat.mod_one]

theorem shiftUp_of_nonpos {e : Int} (h : e ≤ 0) (n : Nat) : shiftUp n e = n := by
  simp [shiftUp,Int.toNat_of_nonpos h]

theorem shiftUp_natCast (n e : Nat) : shiftUp n e = n * 2 ^ e := rfl

theorem floorLog_one {n : Nat} (h : n ≠ 0) : floorLog n 1 = n.log2 := by
  have hone : ((1 : Nat).log2 : Int) = 0 := by decide
  have hpow : 1 * 2 ^ n.log2 ≤ n := by
    rw [Nat.one_mul]
    exact Nat.log2_self_le h
  have hneg : -(n.log2 : Int) ≤ 0 := by omega
  simp only [floorLog,hone,Int.sub_zero,shiftUp_natCast,shiftUp_of_nonpos hneg,if_pos hpow]

/-- The whole number of the given sign and size. -/
def signed (negative : Bool) (n : Nat) : Int := if negative then -n else n

theorem signed_mul (negative : Bool) (m n : Nat) :
    signed negative (m * n) = signed negative m * n := by
  cases negative with
  | false => exact Int.natCast_mul m n
  | true =>
    change -((m * n : Nat) : Int) = -m * n
    rw [Int.natCast_mul,Int.neg_mul]

theorem scaled_neg (negative : Bool) (m d : Nat) :
    Ratio.scaled negative m (-d) = ⟨signed negative m,2 ^ d⟩ := by
  cases d with
  | zero => simp [Ratio.scaled,signed]
  | succ d => rfl

namespace Double

theorem toInt?_finite (negative : Bool) (n d : Nat) :
    (finite negative (n * 2 ^ d) (-d)).toInt? = some (signed negative n) := by
  have hpow : ((2 ^ d : Nat) : Int) ≠ 0 := by
    have := Nat.two_pow_pos d
    omega
  simp only [toInt?,toRatio?,scaled_neg,signed_mul,Int.mul_emod_left,if_true,
    Int.mul_ediv_cancel _ hpow]

/-- Below `2 ^ 53` nothing is rounded away. -/
theorem ofFraction_one {n : Nat} (hpos : n ≠ 0) (h : n < 2 ^ 53) (negative : Bool) :
    ofFraction negative n 1 =
      finite negative (n * 2 ^ (52 - n.log2)) (-(52 - n.log2 : Nat)) := by
  have hlog : n.log2 < 53 := (Nat.log2_lt hpos).mpr h
  have hexponent : max (floorLog n 1 - 52) leastExponent = -(52 - n.log2 : Nat) := by
    rw [floorLog_one hpos,leastExponent]
    omega
  have hbelow : n * 2 ^ (52 - n.log2) < Nat.pow 2 53 :=
    calc n * 2 ^ (52 - n.log2) < 2 ^ (n.log2 + 1) * 2 ^ (52 - n.log2) :=
          Nat.mul_lt_mul_of_pos_right Nat.lt_log2_self (Nat.two_pow_pos _)
      _ = 2 ^ 53 := by rw [← Nat.pow_add]; congr 1; omega
  have hneg : -((52 - n.log2 : Nat) : Int) ≤ 0 := by omega
  have hsmall : ¬greatestExponent < -(52 - n.log2 : Nat) := by
    rw [greatestExponent]
    omega
  simp only [ofFraction,if_neg hpos,hexponent,Int.neg_neg,shiftUp_natCast,shiftUp_of_nonpos hneg,
    roundDiv_one,if_neg (Nat.ne_of_lt hbelow),if_neg hsmall]

theorem toInt?_ofFraction_one {n : Nat} (h : n ≤ 2 ^ 53) (negative : Bool) :
    (ofFraction negative n 1).toInt? = some (signed negative n) := by
  obtain rfl | hpos := Nat.eq_zero_or_pos n
  · cases negative <;> decide +kernel
  obtain rfl | hlt := Nat.eq_or_lt_of_le h
  · cases negative <;> decide +kernel
  · rw [ofFraction_one (Nat.ne_of_gt hpos) hlt,toInt?_finite]

end Double

theorem mem_digits {c : Char} (h : c.isDigit = true) : c ∈ "0123456789".toList := by
  have hall : ∀ code < 58, 48 ≤ code → Char.ofNat code ∈ "0123456789".toList := by decide
  obtain ⟨hlow,hhigh⟩ : 48 ≤ c.toNat ∧ c.toNat ≤ 57 := Char.isDigit_iff_toNat.mp h
  have hmem := hall c.toNat (by omega) hlow
  rwa [Char.ofNat_toNat] at hmem

/-- What a test says of the ten digits it says of every digit. -/
theorem forall_digit {p : Char → Bool} (hall : "0123456789".toList.all p = true) {c : Char}
    (h : c.isDigit = true) : p c = true :=
  List.all_eq_true.mp hall c (mem_digits h)

theorem isBlank_of_isDigit {c : Char} (h : c.isDigit = true) : isBlank c = false :=
  of_decide_eq_true (forall_digit (p := fun c => decide (isBlank c = false)) (by decide) h)

theorem plainDigit_of_isDigit {c : Char} (h : c.isDigit = true) : plainDigit c = c :=
  of_decide_eq_true (forall_digit (p := fun c => decide (plainDigit c = c)) (by decide) h)

theorem toLower_of_isDigit {c : Char} (h : c.isDigit = true) : c.toLower = c :=
  of_decide_eq_true (forall_digit (p := fun c => decide (c.toLower = c)) (by decide) h)

theorem isDigit_of_mem_natText {n : Nat} {c : Char} (h : c ∈ natText n) : c.isDigit = true :=
  Nat.isDigit_of_mem_toDigits (by omega) (by omega) h

theorem exists_natText_cons (n : Nat) : ∃ c r, natText n = c :: r ∧ c.isDigit = true := by
  obtain ⟨c,r,hcons⟩ := List.exists_cons_of_ne_nil (Nat.toDigits_ne_nil : natText n ≠ [])
  exact ⟨c,r,hcons,isDigit_of_mem_natText (hcons ▸ List.mem_cons_self)⟩

theorem natText_ne_of_mem {n : Nat} {t : Text} {c : Char} (hmem : c ∈ t) (hc : c.isDigit = false) :
    natText n ≠ t := by
  rintro rfl
  exact absurd (isDigit_of_mem_natText hmem) (by simp [hc])

theorem withoutUnderscores?_of_notMem {t : Text} (h : '_' ∉ t) (afterDigit : Bool) :
    withoutUnderscores? afterDigit t = some t := by
  induction t generalizing afterDigit with
  | nil => rfl
  | cons c t ih =>
    obtain ⟨hc,ht⟩ := not_or.mp (mt List.mem_cons.mpr h)
    rw [withoutUnderscores?,ih ht]
    · rfl
    · exact fun he => hc he.symm

/-- A decimal numeral: a sign, or none, before digits. -/
def numeral (negative : Bool) (n : Nat) : Text := signText negative ++ natText n

variable {negative : Bool} {n : Nat} {c : Char}

theorem mem_numeral (h : c ∈ numeral negative n) : c = '-' ∨ c.isDigit = true := by
  obtain hsign | hdigit := List.mem_append.mp h
  · cases negative with
    | false => cases hsign
    | true => exact .inl (List.mem_singleton.mp hsign)
  · exact .inr (isDigit_of_mem_natText hdigit)

theorem isBlank_of_mem_numeral (h : c ∈ numeral negative n) : isBlank c = false := by
  obtain rfl | hdigit := mem_numeral h
  · decide
  · exact isBlank_of_isDigit hdigit

theorem map_plainDigit_numeral (negative : Bool) (n : Nat) :
    (numeral negative n).map plainDigit = numeral negative n := by
  refine (List.map_congr_left fun c hc => ?_).trans (List.map_id _)
  obtain rfl | hdigit := mem_numeral hc
  · decide
  · exact plainDigit_of_isDigit hdigit

theorem underscore_notMem_numeral (negative : Bool) (n : Nat) : '_' ∉ numeral negative n := by
  intro h
  obtain he | hdigit := mem_numeral h
  · exact absurd he (by decide)
  · exact absurd hdigit (by decide)

theorem trim_numeral (negative : Bool) (n : Nat) : (numeral negative n).trim = numeral negative n :=
  Text.trim_of_trimmed
    ⟨fun _ hc => isBlank_of_mem_numeral (List.mem_of_mem_head? hc),
      fun _ hc => isBlank_of_mem_numeral (List.mem_of_mem_getLast? hc)⟩

theorem splitSign_numeral (negative : Bool) (n : Nat) :
    splitSign (numeral negative n) = (negative,natText n) := by
  cases negative with
  | true => rfl
  | false =>
    obtain ⟨c,r,hcons,hc⟩ := exists_natText_cons n
    change splitSign (natText n) = (false,natText n)
    rw [hcons,splitSign]
    · rintro _ ⟨⟩
      exact absurd hc (by decide)
    · rintro _ ⟨⟩
      exact absurd hc (by decide)

namespace Double

theorem ofUnsigned?_natText (negative : Bool) (n : Nat) :
    ofUnsigned? negative (natText n) = some (ofDecimal negative n 0) := by
  have hwhole : (natText n).takeWhile Char.isDigit = natText n :=
    List.takeWhile_eq_self_iff.mpr fun c hc => isDigit_of_mem_natText hc
  have hrest : (natText n).dropWhile Char.isDigit = [] :=
    List.dropWhile_eq_nil_iff.mpr fun c hc => isDigit_of_mem_natText hc
  simp only [ofUnsigned?,hwhole,hrest,List.append_nil,natOfText?_natText]
  rfl

theorem ofText?_numeral (negative : Bool) (n : Nat) :
    Double.ofText? (numeral negative n) = some (ofDecimal negative n 0) := by
  have hword : (natText n).map Char.toLower = natText n :=
    (List.map_congr_left fun c hc => toLower_of_isDigit (isDigit_of_mem_natText hc)).trans
      (List.map_id _)
  have hinf : natText n ≠ "inf".toList := natText_ne_of_mem List.mem_cons_self (by decide)
  have hinfinity : natText n ≠ "infinity".toList := natText_ne_of_mem List.mem_cons_self (by decide)
  have hnan : natText n ≠ "nan".toList := natText_ne_of_mem List.mem_cons_self (by decide)
  rw [Double.ofText?,trim_numeral,map_plainDigit_numeral,
    withoutUnderscores?_of_notMem (underscore_notMem_numeral negative n)]
  simp only [splitSign_numeral,hword,hinf,hinfinity,hnan,ofUnsigned?_natText,Option.bind_some,
    or_self,if_false,Option.bind_eq_bind]

theorem ofDecimal_zero (h : n ≤ 2 ^ 53) (negative : Bool) :
    ofDecimal negative n 0 = ofFraction negative n 1 := by
  have hlength : (natText n).length ≤ 16 :=
    (Nat.length_toDigits_le_iff (by omega) (by omega)).mpr (by omega)
  have hhigh : ¬310 < ((natText n).length : Int) + 0 := by omega
  have hlow : ¬((natText n).length : Int) + 0 < -324 := by omega
  by_cases hzero : n = 0
  · rw [ofDecimal,if_pos hzero,hzero]
  · rw [ofDecimal,if_neg hzero,if_neg hhigh,if_neg hlow]
    exact congrArg (ofFraction negative · 1) (Nat.mul_one n)

end Double

theorem intText_eq_numeral (i : Int) : intText i = numeral (decide (i < 0)) i.natAbs := by
  cases i with
  | ofNat n =>
    have hsign : decide (Int.ofNat n < 0) = false := decide_eq_false (by simp)
    rw [hsign]
    rfl
  | negSucc n =>
    rw [decide_eq_true (Int.negSucc_lt_zero n)]
    rfl

theorem signed_natAbs (i : Int) : signed (decide (i < 0)) i.natAbs = i := by
  unfold signed
  by_cases h : i < 0
  · rw [if_pos (decide_eq_true h)]
    omega
  · rw [if_neg (by simp [h])]
    omega

namespace Number

/-- A numeral counts as a whole number if the double that it denotes is one. -/
theorem ofText?_of_toInt? {t : Text} {x : Double} {i : Int} (ht : t.trim ≠ [])
    (hread : Double.ofText? t = some x) (h : x.toInt? = some i) : ofText? t = some (.whole i) := by
  rw [ofText?,if_neg ht,hread]
  cases x with
  | finite negative significand exponent => simp only [ofDouble,h]
  | infinite negative => cases h
  | nan mark => cases h

/-- A whole number of at most `2 ^ 53` in absolute value is read back from its decimal text. -/
theorem ofText?_intText {i : Int} (h : i.natAbs ≤ 2 ^ 53) :
    ofText? (intText i) = some (.whole i) := by
  obtain ⟨c,r,hcons,_⟩ := exists_natText_cons i.natAbs
  have hne : numeral (decide (i < 0)) i.natAbs ≠ [] := by simp [numeral,hcons]
  rw [intText_eq_numeral]
  refine ofText?_of_toInt? (by rwa [trim_numeral]) (Double.ofText?_numeral _ _) ?_
  rw [Double.ofDecimal_zero h,Double.toInt?_ofFraction_one h,signed_natAbs]

end Number

end Stencil
