/-! # Text

Text is a list of characters.  This file holds the searches and cuts that everything else is
made of:

* `occursIn` tells whether one text is a contiguous part of another;
* `replaceAll` replaces every occurrence, found from the left and without overlap;
* `afterPrefix?` and `afterLast` cut behind a mark, `beforeChar` cuts in front of a character;
* `splitChar` and `joinWith` take text apart at a character and put parts together;
* `trimBy` drops characters at both ends, `strip` spaces and semicolons.

The main statements say what these do in terms of append: `occursIn_iff` and
`joinWith_splitChar`. -/

namespace DeclSurvey

/-- Text is the list of its characters. -/
abbrev Text := List Char

namespace Text

/-! ### Searching -/

/-- Whether `part` occurs in a text as a contiguous part. -/
def occursIn (part : Text) : Text → Bool
  | [] => part.isEmpty
  | c :: t => part.isPrefixOf (c :: t) || occursIn part t

theorem occursIn_iff {part t : Text} : occursIn part t = true ↔ part <:+: t := by
  induction t with
  | nil => simp [occursIn]
  | cons c t ih => simp [occursIn, ih, List.infix_cons_iff]

/-- Whether a text starts with an ASCII letter. -/
def startsWithLetter : Text → Bool
  | [] => false
  | c :: _ => c.isAlpha

/-! ### Cutting -/

/-- What follows `mark`, if the text starts with it. -/
def afterPrefix? (mark t : Text) : Option Text :=
  if mark.isPrefixOf t then some (t.drop mark.length) else none

theorem afterPrefix?_eq_some_iff {mark t rest : Text} :
    afterPrefix? mark t = some rest ↔ t = mark ++ rest := by
  constructor
  · intro h
    simp only [afterPrefix?, Option.ite_none_right_eq_some, Option.some.injEq] at h
    obtain ⟨hp, rfl⟩ := h
    exact (List.prefix_iff_eq_append.1 (List.isPrefixOf_iff_prefix.1 hp)).symm
  · rintro rfl
    simp [afterPrefix?]

/-- What follows the last occurrence of `mark`, if there is one. -/
def afterLast? (mark : Text) : Text → Option Text
  | [] => none
  | c :: t =>
    match afterLast? mark t with
    | some rest => some rest
    | none => afterPrefix? mark (c :: t)

/-- What follows the last occurrence of `mark`, and the whole text if there is none. -/
def afterLast (mark t : Text) : Text :=
  (afterLast? mark t).getD t

/-- What precedes the first `c`, and the whole text if there is none. -/
def beforeChar (c : Char) (t : Text) : Text :=
  t.takeWhile (· != c)

/-! ### Replacing -/

/-- `replaceAll` in the middle of its work, with `skip` characters of an occurrence still to
pass over. -/
def replaceFrom (old new : Text) : Nat → Text → Text
  | _, [] => []
  | skip + 1, _ :: t => replaceFrom old new skip t
  | 0, c :: t =>
    if old.isPrefixOf (c :: t) then new ++ replaceFrom old new (old.length - 1) t
    else c :: replaceFrom old new 0 t

/-- Replaces every occurrence of the non-empty text `old` by `new`, from the left and without
overlap. -/
def replaceAll (old new t : Text) : Text :=
  replaceFrom old new 0 t

/-- Removes every occurrence of the non-empty text `old`. -/
def removeAll (old t : Text) : Text :=
  replaceAll old [] t

@[simp] theorem replaceAll_nil (old new : Text) : replaceAll old new [] = [] := rfl

/-! ### Splitting and joining -/

/-- The parts of a text between the occurrences of `sep`; there is always at least one. -/
def splitChar (sep : Char) : Text → List Text
  | [] => [[]]
  | c :: t =>
    if c = sep then [] :: splitChar sep t
    else
      match splitChar sep t with
      | [] => [[c]]
      | part :: parts => (c :: part) :: parts

/-- The parts one after the other with `sep` between them. -/
def joinWith (sep : Text) : List Text → Text
  | [] => []
  | [part] => part
  | part :: next :: parts => part ++ sep ++ joinWith sep (next :: parts)

theorem splitChar_ne_nil (sep : Char) (t : Text) : splitChar sep t ≠ [] := by
  induction t with
  | nil => simp [splitChar]
  | cons c t ih =>
    rw [splitChar]
    split
    · simp
    · split <;> simp

theorem joinWith_cons {sep part : Text} {parts : List Text} (h : parts ≠ []) :
    joinWith sep (part :: parts) = part ++ sep ++ joinWith sep parts := by
  cases parts with
  | nil => exact absurd rfl h
  | cons next parts => rfl

/-- Splitting loses nothing: the parts put together again are the text. -/
theorem joinWith_splitChar (sep : Char) (t : Text) : joinWith [sep] (splitChar sep t) = t := by
  induction t with
  | nil => rfl
  | cons c t ih =>
    rw [splitChar]
    split
    · next h => rw [joinWith_cons (splitChar_ne_nil sep t), ih, h]; rfl
    · split
      · next h => exact absurd h (splitChar_ne_nil sep t)
      · next part parts h =>
        rw [h] at ih
        cases parts with
        | nil => simpa [joinWith] using ih
        | cons next parts => simpa [joinWith] using ih

/-! ### Trimming -/

/-- Drops the characters of a class at the end of a text. -/
def trimEndBy (p : Char → Bool) (t : Text) : Text :=
  (t.reverse.dropWhile p).reverse

/-- Drops the characters of a class at both ends of a text. -/
def trimBy (p : Char → Bool) (t : Text) : Text :=
  trimEndBy p (t.dropWhile p)

/-- Whether a character only surrounds or ends a statement: a space or a semicolon. -/
def isPadding (c : Char) : Bool :=
  c == ' ' || c == ';'

/-- A text without the spaces and semicolons at its ends. -/
def strip (t : Text) : Text :=
  trimBy isPadding t

/-! ### Numbers -/

/-- A number in decimal digits. -/
def ofNat (n : Nat) : Text :=
  Nat.toDigits 10 n

end Text

end DeclSurvey
