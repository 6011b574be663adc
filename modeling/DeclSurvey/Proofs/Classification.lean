import DeclSurvey.Proofs.Text
import DeclSurvey.Source.Line

/-! # Kinds of lines

What the kind of a line says about its text.

* `Signature.detect?_eq_some_iff`: the openings exclude each other, so that looking for them in
  order finds whichever is there;
* `LineKind.ofText_eq_declaration_iff`: a line is a declaration exactly when it starts with an
  opening;
* `LineKind.fits_ofText`: a text passes the test of its kind;
* `LineKind.ofText_eq_namespaceStatement_iff` and `LineKind.ofText_eq_importStatement_iff`: which
  lines are namespace and import statements;
* `LineKind.ofText_eq_method_iff`: which lines are methods;
* `LineKind.isWordLed_ofText`: the kinds that count as word-led are those of texts that start with
  a letter;
* `Line.startsWithLetter_clean`: cleaning keeps the letter that makes a line top-level. -/

namespace DeclSurvey

/-! ### Openings -/

namespace Signature

/-- No opening is the beginning of another one. -/
theorem eq_of_opening_isPrefixOf {s r : Signature} (h : s.opening.isPrefixOf r.opening = true) :
    s = r := by
  cases s <;> cases r <;> first | rfl | (revert h; decide)

/-- A text starts with at most one opening. -/
theorem opening_prefix_unique {s r : Signature} {t : Text} (hs : s.opening <+: t)
    (hr : r.opening <+: t) : s = r := by
  rcases List.prefix_or_prefix_of_prefix hs hr with h | h
  · exact eq_of_opening_isPrefixOf (List.isPrefixOf_iff_prefix.2 h)
  · exact (eq_of_opening_isPrefixOf (List.isPrefixOf_iff_prefix.2 h)).symm

theorem detect?_eq_some_iff {s : Signature} {t : Text} :
    detect? t = some s ↔ s.opening <+: t := by
  constructor
  · intro h
    exact List.isPrefixOf_iff_prefix.1 (by simpa using List.find?_some h)
  · intro h
    -- The search stops somewhere, and wherever it stops is `s`.
    cases hd : detect? t with
    | none =>
      have := List.find?_eq_none.1 hd s (mem_all s)
      exact absurd (List.isPrefixOf_iff_prefix.2 h) this
    | some r =>
      have hr : r.opening <+: t := List.isPrefixOf_iff_prefix.1 (by simpa using List.find?_some hd)
      rw [opening_prefix_unique hr h]

theorem detect?_eq_none_iff {t : Text} : detect? t = none ↔ ∀ s : Signature, ¬ s.opening <+: t := by
  rw [Option.eq_none_iff_forall_not_mem]
  exact forall_congr' fun s => not_congr detect?_eq_some_iff

theorem rank_injective {s r : Signature} (h : s.rank = r.rank) : s = r := by
  cases s <;> cases r <;> first | rfl | (revert h; decide)

theorem startsWithLetter_opening (s : Signature) : Text.startsWithLetter s.opening = true := by
  cases s <;> decide

end Signature

namespace LineKind

/-! ### Kinds of texts -/

theorem startsWithLetter_of_front {mark t : Text} (hmark : Text.startsWithLetter mark = true)
    (h : mark <+: t) : Text.startsWithLetter t = true := by
  obtain ⟨rest, rfl⟩ := h
  cases mark with
  | nil => cases hmark
  | cons c mark => exact hmark

theorem startsWithLetter_of_isMethodText {t : Text} (h : isMethodText t = true) :
    Text.startsWithLetter t = true := by
  have hlead : startsWithAny methodLeads t = true := (Bool.and_eq_true_iff.1 h).2
  cases t with
  | nil => cases hlead
  | cons c t =>
    have hmem : c ∈ methodLeads := by simpa [startsWithAny] using hlead
    have hall : ∀ d ∈ methodLeads, d.isAlpha = true := List.all_eq_true.1 (by decide)
    exact hall c hmem

/-- A text that starts with a letter is neither empty nor a brace. -/
theorem ofText_of_letter {t : Text} (hletter : Text.startsWithLetter t = true)
    (topLevel : Bool) :
    ofText topLevel t =
      match Signature.detect? t with
      | some s => declaration s
      | none =>
        if isMethodText t then method
        else if topLevel && namespaceMark.isPrefixOf t then namespaceStatement
        else if topLevel && importMark.isPrefixOf t then importStatement
        else statement := by
  have hempty : ¬ t.isEmpty = true := by
    intro h
    rw [List.isEmpty_iff.1 h] at hletter
    cases hletter
  have hbrace : ¬ (t == bodyOpenMark) = true := by
    intro h
    rw [eq_of_beq h] at hletter
    exact absurd hletter (by decide)
  unfold ofText
  rw [if_neg hempty, if_neg hbrace]
  cases Signature.detect? t with
  | some s => rfl
  | none => simp only [hletter, if_true]

/-- The first letter of a text can rule out declarations and methods. -/
theorem ofText_of_lead {c : Char} {t : Text} (hc : t.head? = some c) (hletter : c.isAlpha = true)
    (hopening : ∀ s : Signature, s.opening.head? ≠ some c) (hmethod : c ∉ methodLeads) :
    ofText true t =
      if namespaceMark.isPrefixOf t then namespaceStatement
      else if importMark.isPrefixOf t then importStatement
      else statement := by
  obtain ⟨u, rfl⟩ := List.head?_eq_some_iff.1 hc
  have hdetect : Signature.detect? (c :: u) = none := by
    rw [Signature.detect?_eq_none_iff]
    intro s hs
    obtain ⟨rest, hrest⟩ := hs
    apply hopening s
    have hne : s.opening ≠ [] := by cases s <;> decide
    rw [← hc, ← hrest]
    exact (List.head?_append_of_ne_nil _ hne).symm
  have hnot : ¬ isMethodText (c :: u) = true := by
    intro h
    have hlead := (Bool.and_eq_true_iff.1 h).2
    exact hmethod (List.contains_iff_mem.1 hlead)
  have hletter : Text.startsWithLetter (c :: u) = true := hletter
  rw [ofText_of_letter hletter, hdetect]
  simp only [if_neg hnot, Bool.true_and]

/-- A text that starts with no letter has none of the kinds that words have. -/
theorem ofText_of_not_letter {t : Text} (hletter : ¬ Text.startsWithLetter t = true)
    (topLevel : Bool) :
    ofText topLevel t =
      if t.isEmpty then blank
      else if t == bodyOpenMark then bodyOpen
      else if startsWithAny commentLeads t then comment
      else punctuation := by
  have hdetect : Signature.detect? t = none := by
    rw [Signature.detect?_eq_none_iff]
    intro s hs
    exact hletter (startsWithLetter_of_front (Signature.startsWithLetter_opening s) hs)
  have hmethod : ¬ isMethodText t = true := fun h => hletter (startsWithLetter_of_isMethodText h)
  have hmark : ∀ mark : Text, Text.startsWithLetter mark = true →
      ¬ (topLevel && mark.isPrefixOf t) = true := by
    intro mark hmark h
    have hp : mark <+: t := List.isPrefixOf_iff_prefix.1 (Bool.and_eq_true_iff.1 h).2
    exact hletter (startsWithLetter_of_front hmark hp)
  unfold ofText
  rw [hdetect]
  simp only [if_neg hmethod, if_neg (hmark namespaceMark (by decide)),
    if_neg (hmark importMark (by decide)), if_neg hletter]

/-- A line is a declaration exactly when its text starts with an opening. -/
theorem ofText_eq_declaration_iff {topLevel : Bool} {t : Text} {s : Signature} :
    ofText topLevel t = declaration s ↔ s.opening <+: t := by
  by_cases hletter : Text.startsWithLetter t = true
  · rw [ofText_of_letter hletter, ← Signature.detect?_eq_some_iff]
    cases Signature.detect? t with
    | some r => simp
    | none =>
      simp only [reduceCtorEq, iff_false]
      split
      · exact LineKind.noConfusion
      · split
        · exact LineKind.noConfusion
        · split <;> exact LineKind.noConfusion
  · have hnot : ¬ s.opening <+: t := fun h =>
      hletter (startsWithLetter_of_front (Signature.startsWithLetter_opening s) h)
    rw [ofText_of_not_letter hletter]
    simp only [hnot, iff_false]
    split
    · exact LineKind.noConfusion
    · split
      · exact LineKind.noConfusion
      · split <;> exact LineKind.noConfusion

/-- The word-led kinds are those of texts that start with a letter. -/
theorem isWordLed_ofText (topLevel : Bool) (t : Text) :
    (ofText topLevel t).isWordLed = Text.startsWithLetter t := by
  by_cases hletter : Text.startsWithLetter t = true
  · rw [ofText_of_letter hletter, hletter]
    cases Signature.detect? t with
    | some r => rfl
    | none =>
      show LineKind.isWordLed (if _ then _ else _) = true
      split
      · rfl
      · split
        · rfl
        · split <;> rfl
  · rw [ofText_of_not_letter hletter, Bool.eq_false_iff.2 hletter]
    split
    · rfl
    · split
      · rfl
      · split <;> rfl

/-- What a kind says about the text that it is given to. -/
def Fits (topLevel : Bool) (t : Text) : LineKind → Prop
  | blank => t = []
  | bodyOpen => t = bodyOpenMark
  | declaration s => s.opening <+: t
  | method => isMethodText t = true
  | namespaceStatement => topLevel = true ∧ namespaceMark <+: t
  | importStatement => topLevel = true ∧ importMark <+: t
  | statement => Text.startsWithLetter t = true
  | comment => startsWithAny commentLeads t = true
  | punctuation => True

/-- Every text fits its kind: each kind is given behind a test for what it says. -/
theorem fits_ofText (topLevel : Bool) (t : Text) : Fits topLevel t (ofText topLevel t) := by
  unfold ofText
  split
  · next h => exact List.isEmpty_iff.1 h
  · split
    · next h => exact eq_of_beq h
    · cases hdetect : Signature.detect? t with
      | some s => exact Signature.detect?_eq_some_iff.1 hdetect
      | none =>
        show Fits topLevel t (if _ then _ else _)
        split
        · next h => exact h
        · split
          · next h => exact (Bool.and_eq_true_iff.1 h).imp_right List.isPrefixOf_iff_prefix.1
          · split
            · next h => exact (Bool.and_eq_true_iff.1 h).imp_right List.isPrefixOf_iff_prefix.1
            · split
              · next h => exact h
              · split
                · next h => exact h
                · trivial

/-- A namespace statement is a top-level line that starts with the namespace mark. -/
theorem ofText_eq_namespaceStatement_iff {topLevel : Bool} {t : Text} :
    ofText topLevel t = namespaceStatement ↔ topLevel = true ∧ namespaceMark <+: t := by
  constructor
  · intro h
    have hfits := fits_ofText topLevel t
    rwa [h] at hfits
  · intro h
    obtain ⟨rfl, rest, rfl⟩ := h
    have hhead : (namespaceMark ++ rest).head? = some 'n' := rfl
    rw [ofText_of_lead hhead (by decide) (fun s => by cases s <;> decide) (by decide)]
    exact if_pos (List.isPrefixOf_iff_prefix.2 (List.prefix_append namespaceMark rest))

/-- An import statement is a top-level line that starts with the import mark. -/
theorem ofText_eq_importStatement_iff {topLevel : Bool} {t : Text} :
    ofText topLevel t = importStatement ↔ topLevel = true ∧ importMark <+: t := by
  constructor
  · intro h
    have hfits := fits_ofText topLevel t
    rwa [h] at hfits
  · intro h
    obtain ⟨rfl, rest, rfl⟩ := h
    have hhead : (importMark ++ rest).head? = some 'u' := rfl
    have hother : ¬ namespaceMark.isPrefixOf (importMark ++ rest) = true := Bool.false_ne_true
    rw [ofText_of_lead hhead (by decide) (fun s => by cases s <;> decide) (by decide),
      if_neg hother]
    exact if_pos (List.isPrefixOf_iff_prefix.2 (List.prefix_append importMark rest))

theorem isMethodText_of_ofText {topLevel : Bool} {t : Text} (h : ofText topLevel t = method) :
    isMethodText t = true := by
  have hfits := fits_ofText topLevel t
  rwa [h] at hfits

theorem startsWithAny_iff {leads : List Char} {t : Text} :
    startsWithAny leads t = true ↔ ∃ c ∈ leads, t.head? = some c := by
  cases t with
  | nil => simp [startsWithAny]
  | cons c t => simp [startsWithAny]

theorem isMethodText_iff {t : Text} :
    isMethodText t = true ↔
      (functionMark <+: t ∨ ' ' :: functionMark <:+: t) ∧ ∃ c ∈ methodLeads, t.head? = some c := by
  unfold isMethodText
  rw [Bool.and_eq_true, Bool.or_eq_true, List.isPrefixOf_iff_prefix, Text.occursIn_iff,
    startsWithAny_iff]

/-- A line is a method exactly when its text reads as a signature and starts with no opening. -/
theorem ofText_eq_method_iff {topLevel : Bool} {t : Text} :
    ofText topLevel t = method ↔
      (∀ s : Signature, ofText topLevel t ≠ declaration s) ∧ isMethodText t = true := by
  constructor
  · intro h
    refine ⟨fun s => ?_, isMethodText_of_ofText h⟩
    rw [h]
    exact LineKind.noConfusion
  · rintro ⟨hother, hmethod⟩
    have hdetect : Signature.detect? t = none :=
      Signature.detect?_eq_none_iff.2 fun s hs => hother s (ofText_eq_declaration_iff.2 hs)
    rw [ofText_of_letter (startsWithLetter_of_isMethodText hmethod), hdetect]
    exact if_pos hmethod

/-- The signature of a method has the word `function` in it. -/
theorem functionMark_infix_of_isMethodText {t : Text} (h : isMethodText t = true) :
    functionMark <:+: t := by
  rcases Bool.or_eq_true_iff.1 (Bool.and_eq_true_iff.1 h).1 with hprefix | hoccurs
  · exact (List.isPrefixOf_iff_prefix.1 hprefix).isInfix
  · exact (List.suffix_cons ' ' functionMark).isInfix.trans (Text.occursIn_iff.1 hoccurs)

theorem ofText_ne_blank {t : Text} (hletter : Text.startsWithLetter t = true) (topLevel : Bool) :
    ofText topLevel t ≠ blank := by
  intro h
  have hled := isWordLed_ofText topLevel t
  rw [h, hletter] at hled
  cases hled

end LineKind

namespace Line

/-! ### Cleaning -/

/-- Cleaning keeps the letter that makes a line top-level. -/
theorem startsWithLetter_clean {raw : Text} (h : Text.startsWithLetter raw = true) :
    Text.startsWithLetter (clean raw) = true := by
  cases raw with
  | nil => cases h
  | cons c raw =>
    have hc : c.isAlpha = true := h
    have hhead : (Text.trim (c :: raw)).head? = some c :=
      Text.head?_trimBy (Text.isBlank_eq_false_of_isAlpha hc) raw
    obtain ⟨u, hu⟩ : ∃ u, Text.trim (c :: raw) = c :: u := List.head?_eq_some_iff.1 hhead
    have hsemi : (c != ';') = true := by
      rw [bne_iff_ne]
      rintro rfl
      exact absurd hc (by decide)
    unfold clean
    rw [if_pos h, hu, List.filter_cons_of_pos (p := (· != ';')) hsemi]
    exact hc

theorem kind_ofRaw_ne_blank {raw : Text} (h : Text.startsWithLetter raw = true) :
    (ofRaw raw).kind ≠ .blank :=
  LineKind.ofText_ne_blank (startsWithLetter_clean h) _

end Line

end DeclSurvey
