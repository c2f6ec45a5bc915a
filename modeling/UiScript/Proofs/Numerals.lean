import Mathlib.Algebra.Group.Nat.Defs
import UiScript.Proofs.Scan.Steps
import UiScript.Value

/-!
# Written numbers are numbers

The text of a finite value without its sign is a number of the script language: digits, and at most one point between
digits (`isNumeral_formatNumber`). Which digits they are does not matter here. An integer that fits a 64-bit word has a
finite value (`isFinite_ofInt`), so it is written in the same way.
-/

namespace UiScript

open Text

/-- The characters of a number without a mistake. -/
def IsNumeral (w : List Char) : Prop := IsNumber w ∧ w.count '.' ≤ 1

/-! ## Digits -/

theorem isDigit_of_isDigit {c : Char} (h : c.isDigit = true) : isDigit c = true := by
  rw [Char.isDigit, Bool.and_eq_true, decide_eq_true_iff, decide_eq_true_iff] at h
  rw [isDigit, Bool.and_eq_true, decide_eq_true_iff, decide_eq_true_iff]
  exact ⟨UInt32.le_iff_toNat_le.mp h.1, UInt32.le_iff_toNat_le.mp h.2⟩

theorem decimalDigits_isDigit (n : Nat) : ∀ c ∈ decimalDigits n, isDigit c = true :=
  fun _ hc => isDigit_of_isDigit (Nat.isDigit_of_mem_toDigits (by decide) (by decide) hc)

theorem decimalDigits_ne_nil (n : Nat) : decimalDigits n ≠ [] := Nat.toDigits_ne_nil

theorem count_point_eq_zero {w : List Char} (h : ∀ c ∈ w, isDigit c = true) : w.count '.' = 0 :=
  List.count_eq_zero.mpr fun hmem => isDigit_ne_point (h _ hmem) rfl

/-- Digits, or digits with a point between them. -/
theorem isNumeral_digits {whole fraction : List Char} (hne : whole ≠ []) (hwhole : ∀ c ∈ whole, isDigit c = true)
    (hfraction : ∀ c ∈ fraction, isDigit c = true) :
    IsNumeral (if fraction.isEmpty then whole else whole ++ '.' :: fraction) := by
  obtain ⟨c, tail, rfl⟩ := List.exists_cons_of_ne_nil hne
  obtain ⟨hc, htail⟩ := List.forall_mem_cons.mp hwhole
  have hnumber : ∀ d, isDigit d = true → isNumberChar d = true := fun d hd => by rw [isNumberChar, hd, Bool.true_or]
  split
  · refine ⟨⟨c, tail, rfl, hc, List.all_eq_true.mpr fun d hd => hnumber d (htail d hd)⟩, ?_⟩
    rw [count_point_eq_zero hwhole]
    exact Nat.zero_le 1
  · refine ⟨⟨c, tail ++ '.' :: fraction, rfl, hc, ?_⟩, ?_⟩
    · rw [List.all_append, List.all_cons, Bool.and_eq_true, Bool.and_eq_true]
      exact ⟨List.all_eq_true.mpr fun d hd => hnumber d (htail d hd), rfl,
        List.all_eq_true.mpr fun d hd => hnumber d (hfraction d hd)⟩
    · have hcount : (c :: (tail ++ '.' :: fraction)).count '.' = 0 + (0 + 1) := by
        rw [← List.cons_append, List.count_append, List.count_cons_self, count_point_eq_zero hwhole,
          count_point_eq_zero hfraction]
      exact Nat.le_of_eq hcount

/-! ## Values -/

namespace Binary64

/-- Both sides of the point are digits, and there is one before it. -/
theorem positional_digits (k : Nat) (p : Int) :
    (positional k p).1 ≠ [] ∧ (∀ c ∈ (positional k p).1, isDigit c = true) ∧
      ∀ c ∈ (positional k p).2, isDigit c = true := by
  have hdigits := decimalDigits_isDigit k
  have hne := decimalDigits_ne_nil k
  have hzeros : ∀ n, ∀ c ∈ List.replicate n '0', isDigit c = true := by
    intro n c hc
    rw [List.eq_of_mem_replicate hc]
    decide
  unfold positional
  dsimp only
  split
  · refine ⟨List.append_ne_nil_of_left_ne_nil hne _, ?_, by simp⟩
    exact List.forall_mem_append.mpr ⟨hdigits, hzeros _⟩
  · split
    · rename_i hplaces
      refine ⟨?_, fun c hc => hdigits c (List.mem_of_mem_take hc), fun c hc => hdigits c (List.mem_of_mem_drop hc)⟩
      rw [List.ne_nil_iff_length_pos, List.length_take]
      omega
    · refine ⟨List.cons_ne_nil _ _, by simp; decide, ?_⟩
      exact List.forall_mem_append.mpr ⟨hzeros _, hdigits⟩

theorem isNumeral_plain (m : Nat) (e : Int) : IsNumeral (plain (finite false m e)).toList := by
  unfold plain
  dsimp only
  split
  · exact ⟨⟨'0', [], rfl, by decide, by decide⟩, by decide⟩
  · obtain ⟨hne, hwhole, hfraction⟩ := positional_digits (shortest .up m e).1 (shortest .up m e).2
    have hnumeral := isNumeral_digits hne hwhole hfraction
    simpa [signText] using hnumeral

theorem log2Ratio_one_le {num k : Nat} (h : num < 2 ^ k) (hnum : num ≠ 0) : log2Ratio num 1 < k := by
  have hlog := (Nat.log2_lt hnum).mpr h
  have hone : Nat.log2 1 = 0 := by decide
  unfold log2Ratio
  dsimp only
  rw [hone]
  split <;> split <;> omega

/-- A ratio is finite if its exponent stays well below the greatest one. -/
theorem isFinite_ofRatio (negative : Bool) {num den : Nat} (h : log2Ratio num den ≤ 1000) :
    (ofRatio negative num den).isFinite = true := by
  unfold ofRatio
  split
  · rfl
  · extract_lets e m
    have he : e + 1 ≤ 971 := by omega
    by_cases hm : m = twoPow 53
    · rw [if_pos hm]
      dsimp only
      rw [if_neg (by omega)]
      rfl
    · rw [if_neg hm]
      dsimp only
      rw [if_neg (by omega)]
      rfl

/-- **Integers that fit a 64-bit word have finite values.** -/
theorem isFinite_ofInt {n : Int} (h : n.natAbs < 2 ^ 64) : (ofInt n).isFinite = true := by
  by_cases hn : n.natAbs = 0
  · rw [ofInt, hn]
    rfl
  · have hlog := log2Ratio_one_le h hn
    exact isFinite_ofRatio _ (by omega)

end Binary64

/-- **The text of a finite value without its sign is a number.** -/
theorem isNumeral_formatNumber {x : Binary64} (h : x.isFinite = true) : IsNumeral (formatNumber x.abs).toList := by
  cases x with
  | nan => cases h
  | infinity negative => cases h
  | finite negative m e =>
    have hplain := Binary64.isNumeral_plain m e
    rw [Binary64.abs, formatNumber]
    split
    · rename_i n _
      split
      · have hnone : ∀ c ∈ ([] : List Char), isDigit c = true := by simp
        have hdigits := isNumeral_digits (decimalDigits_ne_nil n) (decimalDigits_isDigit n) hnone
        simpa [numberText, Binary64.isBelowZero] using hdigits
      · exact hplain
    · exact hplain

end UiScript
