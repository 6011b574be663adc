import DeclSurvey.Text.Basic

/-! # Blank characters

The white space of Unicode: the 25 characters with the property `White_Space`.  Trimming drops
them at both ends of a text. -/

namespace DeclSurvey

namespace Text

/-- Whether a character is white space in Unicode. -/
def isBlank (c : Char) : Bool :=
  let n := c.toNat
  (9 ≤ n && n ≤ 13) || n == 0x20 || n == 0x85 || n == 0xA0 || n == 0x1680 ||
    (0x2000 ≤ n && n ≤ 0x200A) || n == 0x2028 || n == 0x2029 || n == 0x202F || n == 0x205F ||
    n == 0x3000

/-- A text without the white space at its ends. -/
def trim (t : Text) : Text :=
  trimBy isBlank t

@[simp] theorem trim_nil : trim [] = [] := rfl

/-- A letter is not white space. -/
theorem isBlank_eq_false_of_isAlpha {c : Char} (h : c.isAlpha = true) : isBlank c = false := by
  have hn : 65 ≤ c.toNat ∧ c.toNat ≤ 122 := by
    have h : (decide (c.val ≥ 65 ∧ c.val ≤ 90) ||
        (decide (c.val ≥ 97) && decide (c.val ≤ 122))) = true := h
    simp only [Bool.or_eq_true, Bool.and_eq_true, decide_eq_true_eq, ge_iff_le,
      UInt32.le_iff_toNat_le, UInt32.reduceToNat] at h
    show 65 ≤ c.val.toNat ∧ c.val.toNat ≤ 122
    omega
  simp only [isBlank]
  generalize c.toNat = n at hn ⊢
  simp only [Bool.or_eq_false_iff, Bool.and_eq_false_iff, decide_eq_false_iff_not, beq_eq_false_iff_ne]
  omega

end Text

end DeclSurvey
