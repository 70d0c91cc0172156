import TreePattern.Scalar

namespace TreePattern

namespace JsonNumber

def toInt? : JsonNumber → Option Int
  | .natural n => some n.toNat
  | .negative n => some n.toInt
  | .float _ => none

def toBinary64 : JsonNumber → Binary64
  | .natural n => .ofNat false n.toNat
  | .negative n => .ofNat true n.toInt.natAbs
  | .float x => x

end JsonNumber

/-- A document stands for a scalar other than null. Numbers that are integers with 64 bits are
integers, and all others are doubles. -/
inductive Json.StandsFor : Json → Scalar → Prop
  | bool (b : Bool) : StandsFor (.bool b) (.bool b)
  | string (s : String) : StandsFor (.string s) (.str s)
  | int {number : JsonNumber} {n : Int64} :
      number.toInt? = some n.toInt → StandsFor (.number number) (.int n)
  | float {number : JsonNumber} :
      (∀ n : Int64, number.toInt? ≠ some n.toInt) →
      StandsFor (.number number) (.float number.toBinary64)

inductive Json.Denotes : Json → Scalar → Prop
  | null : Denotes .null .null
  | value {value : Json} {scalar : Scalar} : value.StandsFor scalar → Denotes value scalar

namespace Binary64

theorem roundHalfEven_le (num den : Nat) : roundHalfEven num den ≤ num / den + 1 := by
  unfold roundHalfEven
  dsimp only
  split
  · omega
  · split <;> omega

/-- The doubles nearest to the integers with 64 bits are at most `2 ^ 64`. -/
theorem nearestMagnitude_le {n : Nat} (hl : signBit ≤ n) (hu : n < UInt64.size) :
    nearestMagnitude n 1 ≤ 1087 * exponentBit := by
  have hl : 2 ^ 63 ≤ n := hl
  have hu : n < 2 ^ 64 := hu
  have hlog : n.log2 = 63 := (Nat.log2_eq_iff (by omega)).mpr ⟨hl, hu⟩
  have hestimate : ((63 : Nat) : Int) - (Nat.log2 1 : Int) = 63 := rfl
  have hreached : 1 * power 2 63 ≤ n * power 2 (-63) := by
    have hpower : power 2 63 = 2 ^ 63 := rfl
    have hinverse : power 2 (-63) = 1 := rfl
    rw [hpower, hinverse]
    omega
  have hscale : max ((63 : Int) - 52) (-1074) = 11 := rfl
  have hpower : power 2 11 = 2 ^ 11 := rfl
  have hinverse : power 2 (-11) = 1 := rfl
  have hexponent : ((11 : Int) + 1074).toNat = 1085 := rfl
  have hround : roundHalfEven (n * 1) (1 * 2 ^ 11) ≤ 2 ^ 53 := by
    have hle := roundHalfEven_le (n * 1) (1 * 2 ^ 11)
    omega
  have htwo : 1085 * exponentBit + 2 ^ 53 = 1087 * exponentBit := rfl
  unfold nearestMagnitude
  dsimp only
  rw [hlog, hestimate, if_pos (decide_eq_true hreached), hscale, hpower, hinverse, hexponent,
    ← htwo]
  exact Nat.add_le_add_left hround _

theorem isNaN_ofMagnitude {magnitude : Nat} (h : magnitude ≤ infinityBits) :
    (ofMagnitude false magnitude).isNaN = false := by
  have hinfinity : infinityBits = 0x7FF0000000000000 := rfl
  have hsign : signBit = 0x8000000000000000 := rfl
  have hlt : magnitude < signBit := by omega
  have hbits : (ofMagnitude false magnitude).bits.toNat = magnitude := by
    have hmod : magnitude % 2 ^ 64 = magnitude := Nat.mod_eq_of_lt (by omega)
    simpa [ofMagnitude] using hmod
  have hmagnitude : (ofMagnitude false magnitude).magnitude = magnitude := by
    rw [Binary64.magnitude, hbits, Nat.mod_eq_of_lt hlt]
  rw [isNaN, hmagnitude]
  exact decide_eq_false (Nat.not_lt.mpr h)

theorem isNaN_ofNat {n : Nat} (hl : signBit ≤ n) (hu : n < UInt64.size) :
    (ofNat false n).isNaN = false := by
  have hle := nearestMagnitude_le hl hu
  have hbound : 1087 * exponentBit ≤ infinityBits := by decide
  have hpositive : n ≠ 0 := Nat.ne_of_gt (Nat.lt_of_lt_of_le (by decide) hl)
  rw [ofNat, if_neg hpositive]
  exact isNaN_ofMagnitude (Nat.le_trans hle hbound)

theorem eqv_self {x : Binary64} (h : x.isNaN = false) : x.eqv x = true := by
  simp [eqv, h]

end Binary64

namespace Scalar

variable {number : JsonNumber}

theorem ofNumber_eq_int {n : Int64} (h : number.toInt? = some n.toInt) :
    ofNumber number = .int n := by
  cases number with
  | natural k =>
    have hk : (k.toNat : Int) = n.toInt := Option.some.inj h
    have hlt : k.toNat < 2 ^ 63 := by
      have hn := n.toInt_lt
      omega
    have hof : Int64.ofNat k.toNat = n := by
      rw [← Int64.toInt_inj, Int64.toInt_ofNat_of_lt hlt, hk]
    rw [ofNumber, if_pos (UInt64.lt_iff_toNat_lt.mpr hlt), hof]
  | negative k =>
    cases Int64.toInt_inj.mp (Option.some.inj h)
    rfl
  | float x => cases h

theorem ofNumber_eq_float (h : ∀ n : Int64, number.toInt? ≠ some n.toInt) :
    ofNumber number = .float number.toBinary64 := by
  cases number with
  | natural k =>
    rw [ofNumber, if_neg]
    · rfl
    · intro hlt
      apply h (Int64.ofNat k.toNat)
      rw [JsonNumber.toInt?, Int64.toInt_ofNat_of_lt (UInt64.lt_iff_toNat_lt.mp hlt)]
  | negative k => exact absurd rfl (h k)
  | float x => rfl

theorem standsFor_iff {value : Json} {scalar : Scalar} :
    value.StandsFor scalar ↔ value ≠ .null ∧ ofJson? value = some scalar := by
  constructor
  · intro h
    cases h with
    | bool | string => exact ⟨by simp, rfl⟩
    | int h => exact ⟨by simp, congrArg some (ofNumber_eq_int h)⟩
    | float h => exact ⟨by simp, congrArg some (ofNumber_eq_float h)⟩
  · rintro ⟨hne, h⟩
    cases value with
    | null => exact absurd rfl hne
    | bool | string =>
      cases h
      constructor
    | number number =>
      cases h
      by_cases hint : ∃ n : Int64, number.toInt? = some n.toInt
      · obtain ⟨n, hn⟩ := hint
        rw [ofNumber_eq_int hn]
        exact .int hn
      · rw [ofNumber_eq_float (not_exists.mp hint)]
        exact .float (not_exists.mp hint)
    | array | object => cases h

theorem denotes_iff {value : Json} {scalar : Scalar} :
    value.Denotes scalar ↔ ofJson? value = some scalar := by
  constructor
  · intro h
    cases h with
    | null => rfl
    | value h => exact (standsFor_iff.mp h).2
  · intro h
    by_cases hne : value = .null
    · subst hne
      cases h
      exact .null
    · exact .value (standsFor_iff.mpr ⟨hne, h⟩)

theorem eqv_self_of_ofJson? {value : Json} {scalar : Scalar} (h : ofJson? value = some scalar)
    (hn : ∀ x, value = .number (.float x) → x.isNaN = false) : scalar.eqv scalar = true := by
  cases value with
  | null | bool | string =>
    cases h
    simp [eqv]
  | number n =>
    cases h
    cases n with
    | natural n =>
      by_cases hlt : n < 0x8000000000000000
      · simp [ofNumber, hlt, eqv]
      · have hl : Binary64.signBit ≤ n.toNat := by
          simpa [Binary64.signBit] using UInt64.le_iff_toNat_le.mp (UInt64.not_lt.mp hlt)
        simpa [ofNumber, hlt, eqv] using Binary64.eqv_self (Binary64.isNaN_ofNat hl n.toNat_lt)
    | negative n => simp [ofNumber, eqv]
    | float x => exact Binary64.eqv_self (hn x rfl)
  | array | object => cases h

end Scalar

end TreePattern
