import Mathlib.Data.Nat.Digits.Defs
import TreePattern.Cli.Format

namespace TreePattern.Cli

@[simp]
theorem OutputFormat.ofName?_name (format : OutputFormat) : ofName? format.name = some format := by
  cases format <;> rfl

@[simp]
theorem LogFormat.ofAnyCase?_name (format : LogFormat) : ofAnyCase? format.name = some format := by
  cases format <;> decide +kernel

variable {bound n count : ℕ} {digits : List Char}

theorem readDigits_lt (hn : n < bound) (h : readDigits bound n digits = .ok count) :
    count < bound := by
  induction digits generalizing n with
  | nil =>
    cases h
    exact hn
  | cons c rest ih =>
    unfold readDigits at h
    split at h
    · dsimp only at h
      split at h
      · exact ih ‹_› h
      · cases h
    · cases h

theorem readCount_lt {text : String} (h : readCount text = .ok count) : count < UInt64.size := by
  have hzero : 0 < UInt64.size := by decide
  unfold readCount at h
  split at h
  · cases h
  · cases h
  · exact readDigits_lt hzero h
  · exact readDigits_lt hzero h

theorem le_ofDigitChars (n : ℕ) (digits : List Char) : n ≤ Nat.ofDigitChars 10 digits n := by
  induction digits generalizing n with
  | nil => exact Nat.le_refl n
  | cons c rest ih =>
    rw [Nat.ofDigitChars_cons]
    have hle := ih (10 * n + (c.toNat - '0'.toNat))
    omega

theorem readDigits_eq (hdigits : ∀ c ∈ digits, c.isDigit)
    (hlt : Nat.ofDigitChars 10 digits n < bound) :
    readDigits bound n digits = .ok (Nat.ofDigitChars 10 digits n) := by
  induction digits generalizing n with
  | nil => rfl
  | cons c rest ih =>
    rw [Nat.ofDigitChars_cons] at hlt ⊢
    have hext := (le_ofDigitChars _ rest).trans_lt hlt
    simp only [readDigits, hdigits c List.mem_cons_self, if_true, if_pos hext]
    exact ih (fun d hd ↦ hdigits d (.tail _ hd)) hlt

theorem isDigit_of_mem_toString {c : Char} (h : c ∈ (toString count).toList) : c.isDigit := by
  have hlist : (toString count).toList = Nat.toDigits 10 count := Nat.toList_repr
  rw [hlist] at h
  exact Nat.isDigit_of_mem_toDigits (by decide) (by decide) h

/-- A count that fits in 64 bits is read as it is written. -/
theorem readCount_toString (h : count < UInt64.size) : readCount (toString count) = .ok count := by
  have hlist : (toString count).toList = Nat.toDigits 10 count := Nat.toList_repr
  have hvalue : Nat.ofDigitChars 10 (toString count).toList 0 = count := by
    rw [hlist]
    exact Nat.ofDigitChars_toDigits (by decide) (by decide)
  have hread : readDigits UInt64.size 0 (toString count).toList = .ok count := by
    rw [readDigits_eq (fun c hc ↦ isDigit_of_mem_toString hc) (by rwa [hvalue]), hvalue]
  unfold readCount
  split
  · next hnil => exact absurd (hlist.symm.trans hnil) Nat.toDigits_ne_nil
  · next hplus =>
    have hdigit : '+'.isDigit := isDigit_of_mem_toString (by rw [hplus]; exact List.mem_cons_self)
    cases hdigit
  · next hplus =>
    have hdigit : '+'.isDigit := isDigit_of_mem_toString (by rw [hplus]; exact List.mem_cons_self)
    cases hdigit
  · exact hread

end TreePattern.Cli
