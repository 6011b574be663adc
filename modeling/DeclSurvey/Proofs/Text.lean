import DeclSurvey.Text.Blank
import Mathlib.Data.List.DropRight

/-! # Searching, cutting and joining text

What the operations on text do to texts put together from known parts.

* **Ends**: `trimBy_append_append` trims a text that is known between its ends, and
  `exists_eq_append_trimBy` finds these parts in any text.
* **Occurrences**: `NoStart old a rest` says that no occurrence of `old` in `a ++ rest` starts in
  `a`.  Replacing and searching then pass over `a`.
* **Words**: `joinWith [' '] ws` is split back into `ws`, and a mark with spaces around it occurs
  in it only as one of the words.
* **Characters**: what is cut, replaced, split or joined holds no characters but those of the
  texts that it is made from. -/

namespace DeclSurvey

namespace Text

/-! ### Ends -/

/-- Neither the first nor the last character is in the class. -/
structure EndsClear (p : Char → Bool) (t : Text) : Prop where
  /-- The first character is outside the class. -/
  head : ∀ c ∈ t.head?, p c = false
  /-- The last character is outside the class. -/
  last : ∀ c ∈ t.getLast?, p c = false

theorem isAlpha_head {t : Text} (h : startsWithLetter t = true) {c : Char} (hc : c ∈ t.head?) :
    c.isAlpha = true := by
  obtain ⟨u, rfl⟩ := List.head?_eq_some_iff.1 hc
  exact h

/-- Two texts share no character, as a check of the one against the other. -/
theorem disjoint_of_all {a b : Text} (h : a.all (fun c => !b.contains c) = true) :
    ∀ c ∈ a, c ∉ b := by
  intro c hc hmem
  have hnot := List.all_eq_true.1 h c hc
  rw [List.contains_iff_mem.2 hmem] at hnot
  cases hnot

theorem not_mem_of_class {p : Char → Bool} {c : Char} (hc : p c = false) {t : Text}
    (ht : ∀ d ∈ t, p d = true) : c ∉ t := by
  intro hmem
  rw [ht c hmem] at hc
  cases hc

theorem last_concat {p : Char → Bool} {d : Char} (hd : p d = false) (t : Text) :
    ∀ c ∈ (t ++ [d]).getLast?, p c = false := by
  intro c hc
  rw [List.getLast?_concat] at hc
  have hc : d = c := Option.some.inj hc
  rw [← hc]
  exact hd

theorem dropWhile_of_head {p : Char → Bool} {t : Text} (h : ∀ c ∈ t.head?, p c = false) :
    t.dropWhile p = t := by
  cases t with
  | nil => rfl
  | cons c t =>
    have hc : p c = false := h c rfl
    rw [List.dropWhile_cons_of_neg (by simp [hc])]

/-- Trimming takes off what surrounds a text with clear ends. -/
theorem trimBy_append_append {p : Char → Bool} {t : Text} (ht : EndsClear p t) (front back : Text)
    (hfront : ∀ c ∈ front, p c = true) (hback : ∀ c ∈ back, p c = true) :
    trimBy p (front ++ t ++ back) = t := by
  unfold trimBy trimEndBy
  rw [List.append_assoc, List.dropWhile_append_of_pos hfront]
  -- With nothing between them, front and back are one run of the class.
  have hdrop : (t ++ back).dropWhile p = if t = [] then [] else t ++ back := by
    cases t with
    | nil => simpa using hback
    | cons c t =>
      have hc : p c = false := ht.head c rfl
      rw [if_neg (List.cons_ne_nil c t), List.cons_append,
        List.dropWhile_cons_of_neg (by simp [hc])]
  rw [hdrop]
  split
  · next h => simp [h]
  · rw [List.reverse_append, List.dropWhile_append_of_pos (by simpa using hback),
      dropWhile_of_head (by simpa using ht.last), List.reverse_reverse]

theorem trimBy_of_endsClear {p : Char → Bool} {t : Text} (h : EndsClear p t) : trimBy p t = t := by
  have := trimBy_append_append h [] [] (by simp) (by simp)
  simpa using this

/-- Any text is its trimmed form with characters of the class around it. -/
theorem exists_eq_append_trimBy (p : Char → Bool) (t : Text) :
    ∃ front back, (∀ c ∈ front, p c = true) ∧ (∀ c ∈ back, p c = true) ∧
      t = front ++ trimBy p t ++ back := by
  refine ⟨t.takeWhile p, (t.dropWhile p).rtakeWhile p, ?_, ?_, ?_⟩
  · intro c hc
    exact List.mem_takeWhile_imp hc
  · intro c hc
    exact List.mem_rtakeWhile_imp hc
  · rw [List.append_assoc]
    show t = t.takeWhile p ++ ((t.dropWhile p).rdropWhile p ++ (t.dropWhile p).rtakeWhile p)
    rw [List.rdropWhile_append_rtakeWhile, List.takeWhile_append_dropWhile]

theorem endsClear_trimBy (p : Char → Bool) (t : Text) : EndsClear p (trimBy p t) := by
  have hprefix : trimBy p t <+: t.dropWhile p := List.rdropWhile_prefix p _
  refine ⟨?_, ?_⟩
  · intro c hc
    -- What is trimmed behind leaves the first character as it is.
    obtain ⟨back, hback⟩ := hprefix
    have hhead : (t.dropWhile p).head? = some c := by
      rw [← hback, List.head?_append, Option.mem_def.1 hc]
      rfl
    have hnot := List.head?_dropWhile_not p t
    rw [hhead] at hnot
    exact hnot
  · intro c hc
    have hne : trimBy p t ≠ [] := by
      intro hnil
      rw [hnil] at hc
      cases hc
    have hlast := List.rdropWhile_last_not p (t.dropWhile p) hne
    rw [Option.mem_def, List.getLast?_eq_some_getLast hne, Option.some.injEq] at hc
    rw [← hc]
    exact Bool.eq_false_iff.2 hlast

theorem trimBy_append_of_all {p : Char → Bool} {back : Text} (h : ∀ c ∈ back, p c = true)
    (t : Text) : trimBy p (t ++ back) = trimBy p t := by
  obtain ⟨front, more, hfront, hmore, heq⟩ := exists_eq_append_trimBy p t
  have htrim := trimBy_append_append (endsClear_trimBy p t) front (more ++ back) hfront
    (by simpa [or_imp, forall_and] using ⟨hmore, h⟩)
  rwa [← List.append_assoc, ← heq] at htrim

theorem trimBy_front_append {p : Char → Bool} {front : Text} (h : ∀ c ∈ front, p c = true)
    (t : Text) : trimBy p (front ++ t) = trimBy p t := by
  unfold trimBy
  rw [List.dropWhile_append_of_pos h]

theorem trimBy_isInfix (p : Char → Bool) (t : Text) : trimBy p t <:+: t := by
  obtain ⟨front, back, -, -, heq⟩ := exists_eq_append_trimBy p t
  exact ⟨front, back, heq.symm⟩

/-- Trimming keeps a text with clear ends that stands in front, and the start of what follows. -/
theorem exists_trimBy_append {p : Char → Bool} {a : Text} (hne : a ≠ []) (ha : EndsClear p a)
    (t : Text) : ∃ u, u <+: t ∧ trimBy p (a ++ t) = a ++ u := by
  refine ⟨t.rdropWhile p, List.rdropWhile_prefix p t, ?_⟩
  have hclear : EndsClear p (a ++ t.rdropWhile p) := by
    refine ⟨?_, ?_⟩
    · intro c hc
      rw [List.head?_append_of_ne_nil _ hne] at hc
      exact ha.head c hc
    · intro c hc
      by_cases hnil : t.rdropWhile p = []
      · rw [hnil, List.append_nil] at hc
        exact ha.last c hc
      · rw [List.getLast?_append_of_ne_nil _ hnil, List.getLast?_eq_some_getLast hnil] at hc
        rw [← Option.some.inj hc]
        exact Bool.eq_false_iff.2 (List.rdropWhile_last_not p t hnil)
  have htrim := trimBy_append_append hclear [] (t.rtakeWhile p) (by simp)
    fun c hc => List.mem_rtakeWhile_imp hc
  rwa [List.nil_append, List.append_assoc, List.rdropWhile_append_rtakeWhile] at htrim

/-- Trimming loses only characters of the class. -/
theorem mem_trimBy_iff {p : Char → Bool} {c : Char} (hc : p c = false) (t : Text) :
    c ∈ trimBy p t ↔ c ∈ t := by
  refine ⟨fun h => (trimBy_isInfix p t).subset h, ?_⟩
  obtain ⟨front, back, hfront, hback, heq⟩ := exists_eq_append_trimBy p t
  intro h
  rw [heq, List.mem_append, List.mem_append] at h
  rcases h with (h | h) | h
  · exact absurd h (not_mem_of_class hc hfront)
  · exact h
  · exact absurd h (not_mem_of_class hc hback)

/-- A text that starts outside the class keeps its first character. -/
theorem head?_trimBy {p : Char → Bool} {c : Char} (hc : p c = false) (t : Text) :
    (trimBy p (c :: t)).head? = some c := by
  obtain ⟨front, back, hfront, hback, heq⟩ := exists_eq_append_trimBy p (c :: t)
  -- The first character is kept in front, so nothing is trimmed there.
  have hnil : front = [] := by
    cases front with
    | nil => rfl
    | cons d front =>
      have hd : c = d := (List.cons.inj heq).1
      have := hfront d (by simp)
      rw [← hd, hc] at this
      cases this
  rw [hnil, List.nil_append] at heq
  cases htrim : trimBy p (c :: t) with
  | nil =>
    -- Nor is everything trimmed behind.
    rw [htrim, List.nil_append] at heq
    have := hback c (by simp [← heq])
    rw [hc] at this
    cases this
  | cons d u =>
    rw [htrim] at heq
    rw [(List.cons.inj heq).1]
    rfl

theorem isPadding_eq_false_iff {c : Char} : isPadding c = false ↔ c ≠ ' ' ∧ c ≠ ';' := by
  rw [isPadding, Bool.or_eq_false_iff, beq_eq_false_iff_ne, beq_eq_false_iff_ne]

theorem isBlank_of_isPadding {c : Char} (h : isPadding c = true) : isBlank c = true ∨ c = ';' := by
  simp only [isPadding, Bool.or_eq_true, beq_iff_eq] at h
  rcases h with rfl | rfl
  · exact Or.inl (by decide)
  · exact Or.inr rfl

theorem isPadding_eq_false_of_isAlpha {c : Char} (h : c.isAlpha = true) : isPadding c = false := by
  rw [isPadding_eq_false_iff]
  constructor
  · rintro rfl
    exact absurd h (by decide)
  · rintro rfl
    exact absurd h (by decide)

/-- Trimming keeps a letter in front, if letters are outside the class. -/
theorem startsWithLetter_trimBy {p : Char → Bool} (hp : ∀ c, c.isAlpha = true → p c = false)
    {t : Text} (h : startsWithLetter t = true) : startsWithLetter (trimBy p t) = true := by
  cases t with
  | nil => cases h
  | cons c t =>
    have hc : c.isAlpha = true := h
    obtain ⟨u, hu⟩ := List.head?_eq_some_iff.1 (head?_trimBy (hp c hc) t)
    rw [hu]
    exact hc

/-! ### Occurrences -/

theorem not_infix_of_occursIn {part t : Text} (h : occursIn part t = false) : ¬ part <:+: t := by
  rw [← occursIn_iff, h]
  exact Bool.false_ne_true

/-- No occurrence of `old` in `a ++ rest` starts in `a`. -/
def NoStart (old : Text) : Text → Text → Prop
  | [], _ => True
  | c :: a, rest => ¬ old <+: c :: (a ++ rest) ∧ NoStart old a rest

theorem noStart_append {old a b rest : Text} :
    NoStart old (a ++ b) rest ↔ NoStart old a (b ++ rest) ∧ NoStart old b rest := by
  induction a with
  | nil => simp [NoStart]
  | cons c a ih => simp [NoStart, ih, and_assoc]

/-- An occurrence starts with the first character of what occurs. -/
theorem noStart_of_not_mem {c : Char} {old a : Text} (h : c ∉ a) (rest : Text) :
    NoStart (c :: old) a rest := by
  induction a with
  | nil => trivial
  | cons d a ih =>
    rw [List.mem_cons, not_or] at h
    refine ⟨?_, ih h.2⟩
    intro hp
    exact h.1 (List.cons_prefix_cons.1 hp).1

/-- A text has no occurrence exactly when none starts in it. -/
theorem noStart_nil_iff {old t : Text} (hold : old ≠ []) : NoStart old t [] ↔ ¬ old <:+: t := by
  induction t with
  | nil => simp [NoStart, hold]
  | cons c t ih => simp [NoStart, ih, List.infix_cons_iff]

/-- What does not occur in the whole starts nowhere in its front. -/
theorem noStart_of_not_infix {old a rest : Text} (h : ¬ old <:+: a ++ rest) :
    NoStart old a rest := by
  induction a with
  | nil => trivial
  | cons c a ih =>
    rw [List.cons_append, List.infix_cons_iff, not_or] at h
    exact ⟨h.1, ih h.2⟩

/-- What shares no character with the back of a text occurs in its front. -/
theorem infix_of_infix_append {part a b : Text} (hne : part ≠ []) (h : ∀ c ∈ part, c ∉ b)
    (hocc : part <:+: a ++ b) : part <:+: a := by
  obtain ⟨s, t, heq⟩ := hocc
  rcases List.append_eq_append_iff.1 heq with ⟨u, rfl, -⟩ | ⟨u, hu, rfl⟩
  · exact ⟨s, u, rfl⟩
  · rcases List.eq_nil_or_concat u with rfl | ⟨v, c, rfl⟩
    · exact ⟨s, [], by simpa using hu⟩
    · -- The last character of the part would be in the back.
      have hlast : (s ++ part).getLast? = some c := by rw [hu]; simp
      rw [List.getLast?_append, List.getLast?_eq_some_getLast hne] at hlast
      have hc : part.getLast hne = c := Option.some.inj hlast
      have hmem : c ∈ part := hc ▸ List.getLast_mem hne
      exact absurd (by simp) (h c hmem)

/-- What starts with a character that the front of a text lacks occurs in its back. -/
theorem infix_of_append_infix {c : Char} {part a b : Text} (h : c ∉ a)
    (hocc : c :: part <:+: a ++ b) : c :: part <:+: b := by
  by_contra hnot
  have hback := (noStart_nil_iff (List.cons_ne_nil c part)).2 hnot
  have hwhole : NoStart (c :: part) (a ++ b) [] :=
    noStart_append.2 ⟨noStart_of_not_mem h (b ++ []), hback⟩
  exact (noStart_nil_iff (List.cons_ne_nil c part)).1 hwhole hocc

/-- What lacks a character starts a text only in front of it. -/
theorem prefix_of_prefix_append_cons {c : Char} {part a b : Text} (hc : c ∉ part)
    (h : part <+: a ++ c :: b) : part <+: a := by
  rcases List.prefix_or_prefix_of_prefix h (List.prefix_append a (c :: b)) with hp | ⟨u, rfl⟩
  · exact hp
  · cases u with
    | nil => simp
    | cons d u =>
      have hd : d = c := (List.cons_prefix_cons.1 ((List.prefix_append_right_inj a).1 h)).1
      exact absurd (by simp [hd]) hc

/-- What lacks a character occurs on one of its two sides. -/
theorem infix_append_cons_iff {c : Char} {part a b : Text} (hc : c ∉ part) :
    part <:+: a ++ c :: b ↔ part <:+: a ∨ part <:+: b := by
  constructor
  · intro h
    induction a with
    | nil =>
      rcases List.infix_cons_iff.1 h with hp | hp
      · have hnil : part <+: [] := prefix_of_prefix_append_cons hc hp
        exact Or.inl hnil.isInfix
      · exact Or.inr hp
    | cons d a ih =>
      rcases List.infix_cons_iff.1 h with hp | hp
      · exact Or.inl (prefix_of_prefix_append_cons hc hp).isInfix
      · exact (ih hp).imp_left fun ha => ha.trans (List.suffix_cons d a).isInfix
  · rintro (h | h)
    · exact h.trans (List.prefix_append _ _).isInfix
    · exact h.trans ((List.suffix_cons c b).trans (List.suffix_append a _)).isInfix

/-- What has no character of the class at its ends is not lost by trimming. -/
theorem infix_trimBy_iff {p : Char → Bool} {part : Text} (hpart : EndsClear p part) (t : Text) :
    part <:+: trimBy p t ↔ part <:+: t := by
  refine ⟨fun h => h.trans (trimBy_isInfix p t), ?_⟩
  obtain ⟨front, back, hfront, hback, heq⟩ := exists_eq_append_trimBy p t
  intro h
  rcases List.eq_nil_or_concat part with rfl | ⟨u, d, rfl⟩
  · exact List.nil_infix
  · rw [List.concat_eq_append] at hpart h ⊢
    have hd : p d = false := hpart.last d (by simp)
    have hfit : u ++ [d] <:+: trimBy p t ++ back := by
      obtain ⟨c, v, hcv⟩ := List.exists_cons_of_ne_nil (l := u ++ [d]) (by simp)
      have hc : p c = false := hpart.head c (by rw [hcv]; rfl)
      rw [heq, List.append_assoc, hcv] at h
      rw [hcv]
      exact infix_of_append_infix (not_mem_of_class hc hfront) h
    -- The other end is the same seen from behind.
    rw [← List.reverse_infix] at hfit ⊢
    rw [List.reverse_concat] at hfit ⊢
    rw [List.reverse_append] at hfit
    exact infix_of_append_infix (by simpa using not_mem_of_class hd hback) hfit

/-! ### Replacing -/

theorem replaceFrom_append_of_length (old new a t : Text) :
    replaceFrom old new a.length (a ++ t) = replaceFrom old new 0 t := by
  induction a with
  | nil => rfl
  | cons c a ih => exact ih

/-- Replacing passes over text in which no occurrence starts. -/
theorem replaceAll_append {old a rest : Text} (h : NoStart old a rest) (new : Text) :
    replaceAll old new (a ++ rest) = a ++ replaceAll old new rest := by
  induction a with
  | nil => rfl
  | cons c a ih =>
    have hp : ¬ old.isPrefixOf (c :: (a ++ rest)) = true :=
      fun hp => h.1 (List.isPrefixOf_iff_prefix.1 hp)
    unfold replaceAll at ih ⊢
    rw [List.cons_append, replaceFrom, if_neg hp, ih h.2]
    rfl

theorem replaceAll_of_not_infix {old t : Text} (hold : old ≠ []) (h : ¬ old <:+: t) (new : Text) :
    replaceAll old new t = t := by
  have := replaceAll_append ((noStart_nil_iff hold).2 h) new
  simpa using this

/-- An occurrence in front is replaced, and the search goes on behind it. -/
theorem replaceAll_self_append {old : Text} (hold : old ≠ []) (new t : Text) :
    replaceAll old new (old ++ t) = new ++ replaceAll old new t := by
  cases old with
  | nil => exact absurd rfl hold
  | cons c old =>
    have hp : (c :: old).isPrefixOf (c :: (old ++ t)) = true :=
      List.isPrefixOf_iff_prefix.2 (List.prefix_append (c :: old) t)
    unfold replaceAll
    rw [List.cons_append, replaceFrom, if_pos hp, List.length_cons, Nat.add_sub_cancel,
      replaceFrom_append_of_length]

theorem replaceFrom_nil_sublist (old : Text) (skip : Nat) (t : Text) :
    (replaceFrom old [] skip t).Sublist t := by
  induction t generalizing skip with
  | nil => exact List.Sublist.refl []
  | cons c t ih =>
    cases skip with
    | succ skip => exact (ih skip).cons c
    | zero =>
      rw [replaceFrom]
      split
      · exact (ih (old.length - 1)).cons c
      · exact (ih 0).cons_cons c

/-- Removing only takes characters out. -/
theorem removeAll_sublist (old t : Text) : (removeAll old t).Sublist t :=
  replaceFrom_nil_sublist old 0 t

/-- A text that holds an occurrence loses characters of every class that the occurrence has. -/
theorem countP_removeAll_lt {p : Char → Bool} {old t : Text} (hold : ∃ c ∈ old, p c = true)
    (h : old <:+: t) : (removeAll old t).countP p < t.countP p := by
  have hne : old ≠ [] := by
    rintro rfl
    obtain ⟨c, hc, -⟩ := hold
    cases hc
  induction t with
  | nil => exact absurd (List.infix_nil.1 h) hne
  | cons c t ih =>
    by_cases hp : old <+: c :: t
    · -- The occurrence in front is gone, and behind it nothing is added.
      obtain ⟨u, hu⟩ := hp
      have hpos : 0 < old.countP p := List.countP_pos_iff.2 hold
      have hrest : (removeAll old u).countP p ≤ u.countP p := (removeAll_sublist old u).countP_le
      have hremove : removeAll old (old ++ u) = removeAll old u :=
        replaceAll_self_append hne [] u
      rw [← hu, hremove, List.countP_append]
      omega
    · have hlater : old <:+: t := (List.infix_cons_iff.1 h).resolve_left hp
      have hremove : removeAll old (c :: t) = c :: removeAll old t :=
        replaceAll_append (a := [c]) ⟨hp, trivial⟩ []
      have hlt := ih hlater
      rw [hremove, List.countP_cons, List.countP_cons]
      omega

/-- Removing leaves exactly those texts as they are that hold no occurrence. -/
theorem removeAll_eq_self_iff {old t : Text} (hold : old ≠ []) :
    removeAll old t = t ↔ ¬ old <:+: t := by
  constructor
  · intro h hocc
    obtain ⟨c, hc⟩ := List.exists_mem_of_ne_nil old hold
    have hlt := countP_removeAll_lt (p := fun _ => true) ⟨c, hc, rfl⟩ hocc
    rw [h] at hlt
    exact Nat.lt_irrefl _ hlt
  · intro h
    exact replaceAll_of_not_infix hold h []

/-- A text of which nothing is left ends with an occurrence. -/
theorem suffix_of_removeAll_eq_nil {old : Text} (hold : old ≠ []) (t : Text) (hne : t ≠ [])
    (h : removeAll old t = []) : old <:+ t := by
  -- The first character is gone, so an occurrence starts there; the induction is on what follows.
  have hprefix : old <+: t := by
    cases t with
    | nil => exact absurd rfl hne
    | cons c t =>
      by_contra hp
      rw [← List.isPrefixOf_iff_prefix] at hp
      unfold removeAll replaceAll at h
      rw [replaceFrom, if_neg hp] at h
      cases h
  obtain ⟨u, rfl⟩ := hprefix
  have hu : removeAll old u = [] := by
    rw [← h]
    exact (replaceAll_self_append hold [] u).symm
  by_cases hnil : u = []
  · simp [hnil]
  · have hshorter : u.length < (old ++ u).length := by
      have := List.length_pos_iff.2 hold
      rw [List.length_append]
      omega
    exact (suffix_of_removeAll_eq_nil hold u hnil hu).trans (List.suffix_append old u)
termination_by t.length

/-! ### Cutting -/

theorem beforeChar_append_cons {c : Char} {t : Text} (h : c ∉ t) (rest : Text) :
    beforeChar c (t ++ c :: rest) = t := by
  unfold beforeChar
  rw [List.takeWhile_append_of_pos, List.takeWhile_cons_of_neg (by simp), List.append_nil]
  intro d hd
  simpa using fun heq : d = c => h (heq ▸ hd)

theorem beforeChar_of_not_mem {c : Char} {t : Text} (h : c ∉ t) : beforeChar c t = t := by
  unfold beforeChar
  rw [List.takeWhile_eq_self_iff]
  intro d hd
  simpa using fun heq : d = c => h (heq ▸ hd)

theorem exists_eq_beforeChar_append {c : Char} {t : Text} (h : c ∈ t) :
    ∃ rest, t = beforeChar c t ++ c :: rest := by
  obtain ⟨u, rest, rfl, hu⟩ := List.eq_append_cons_of_mem h
  exact ⟨rest, by rw [beforeChar_append_cons hu]⟩

/-- The first `c` of a text tells what is in front of it and what is behind it. -/
theorem append_cons_injective {c : Char} {u v a b : Text} (hu : c ∉ u) (hv : c ∉ v)
    (h : u ++ c :: a = v ++ c :: b) : u = v ∧ a = b := by
  have hfront : u = v := by
    rw [← beforeChar_append_cons hu a, h, beforeChar_append_cons hv b]
  subst hfront
  exact ⟨rfl, (List.cons.inj (List.append_cancel_left h)).2⟩

theorem not_mem_beforeChar (c : Char) (t : Text) : c ∉ beforeChar c t := by
  intro h
  have hne := List.mem_takeWhile_imp h
  simp at hne

theorem afterLast?_append {mark t rest : Text} (a : Text) (h : afterLast? mark t = some rest) :
    afterLast? mark (a ++ t) = some rest := by
  induction a with
  | nil => exact h
  | cons c a ih => rw [List.cons_append, afterLast?, ih]

theorem afterLast?_of_not_infix {mark t : Text} (h : ¬ mark <:+: t) :
    afterLast? mark t = none := by
  induction t with
  | nil => rfl
  | cons c t ih =>
    rw [List.infix_cons_iff, not_or] at h
    have hp : ¬ mark.isPrefixOf (c :: t) = true := fun hp => h.1 (List.isPrefixOf_iff_prefix.1 hp)
    rw [afterLast?, ih h.2]
    show afterPrefix? mark (c :: t) = none
    rw [afterPrefix?, if_neg hp]

/-- The last occurrence of a mark is the one that no other follows, whatever stands before it. -/
theorem afterLast?_append_mark {c : Char} {mark rest : Text} (a : Text)
    (h : ¬ (c :: mark) <:+: mark ++ rest) :
    afterLast? (c :: mark) (a ++ (c :: mark ++ rest)) = some rest := by
  refine afterLast?_append a ?_
  rw [List.cons_append, afterLast?, afterLast?_of_not_infix h]
  exact afterPrefix?_eq_some_iff.2 rfl

theorem afterLast_append {c : Char} {mark rest : Text} (a : Text)
    (h : ¬ (c :: mark) <:+: mark ++ rest) :
    afterLast (c :: mark) (a ++ c :: mark ++ rest) = rest := by
  unfold afterLast
  rw [List.append_assoc, afterLast?_append_mark a h]
  rfl

/-! ### Words -/

/-- A separator-free text is a single part. -/
theorem splitChar_of_not_mem {sep : Char} {t : Text} (h : sep ∉ t) : splitChar sep t = [t] := by
  induction t with
  | nil => rfl
  | cons c t ih =>
    rw [List.mem_cons, not_or] at h
    rw [splitChar, if_neg (Ne.symm h.1), ih h.2]

/-- A text is split on both sides of any separator on its own. -/
theorem splitChar_append_sep (sep : Char) (a b : Text) :
    splitChar sep (a ++ sep :: b) = splitChar sep a ++ splitChar sep b := by
  induction a with
  | nil =>
    show splitChar sep (sep :: b) = [] :: splitChar sep b
    rw [splitChar, if_pos rfl]
  | cons c a ih =>
    rw [List.cons_append, splitChar, splitChar, ih]
    by_cases hc : c = sep
    · rw [if_pos hc, if_pos hc, List.cons_append]
    · rw [if_neg hc, if_neg hc]
      obtain ⟨part, parts, hparts⟩ := List.exists_cons_of_ne_nil (splitChar_ne_nil sep a)
      rw [hparts]
      rfl

theorem splitChar_append_cons {sep : Char} {t : Text} (h : sep ∉ t) (rest : Text) :
    splitChar sep (t ++ sep :: rest) = t :: splitChar sep rest := by
  rw [splitChar_append_sep, splitChar_of_not_mem h, List.singleton_append]

theorem joinWith_cons_eq_append (sep w : Text) (ws : List Text) :
    joinWith sep (w :: ws) = w ++ if ws = [] then [] else sep ++ joinWith sep ws := by
  cases ws with
  | nil => simp [joinWith]
  | cons v ws => simp [joinWith]

/-- Parts without the separator are found again. -/
theorem splitChar_joinWith {sep : Char} {ws : List Text} (hne : ws ≠ [])
    (h : ∀ w ∈ ws, sep ∉ w) : splitChar sep (joinWith [sep] ws) = ws := by
  induction ws with
  | nil => exact absurd rfl hne
  | cons w ws ih =>
    have hw : sep ∉ w := h w (by simp)
    cases ws with
    | nil => exact splitChar_of_not_mem hw
    | cons v ws =>
      rw [joinWith_cons (List.cons_ne_nil v ws), List.append_assoc, List.singleton_append,
        splitChar_append_cons hw, ih (by simp) fun u hu => h u (by simp [hu])]

/-- Parts without a comma are found again where commas and spaces stand between them, all but the
first with the space in front. -/
theorem splitChar_joinWith_comma {w : Text} {ws : List Text} (h : ∀ v ∈ w :: ws, ',' ∉ v) :
    splitChar ',' (joinWith ", ".toList (w :: ws)) = w :: ws.map (' ' :: ·) := by
  have hw : ',' ∉ w := h w (by simp)
  induction ws generalizing w with
  | nil => exact splitChar_of_not_mem hw
  | cons v ws ih =>
    have htail := ih (fun u hu => h u (List.mem_cons_of_mem w hu)) (h v (by simp))
    rw [joinWith_cons (List.cons_ne_nil v ws), List.append_assoc]
    show splitChar ',' (w ++ ',' :: ' ' :: joinWith ", ".toList (v :: ws)) = _
    rw [splitChar_append_cons hw, splitChar, if_neg (by decide), htail]
    rfl

/-- Texts without commas are told by what they are put together to. -/
theorem joinWith_comma_injective {ws vs : List Text} (hws : ∀ w ∈ ws, w ≠ [] ∧ ',' ∉ w)
    (hvs : ∀ v ∈ vs, v ≠ [] ∧ ',' ∉ v)
    (h : joinWith ", ".toList ws = joinWith ", ".toList vs) : ws = vs := by
  -- Nothing at all is the form of the empty list alone.
  have hne : ∀ (u : Text) (us : List Text), u ≠ [] → joinWith ", ".toList (u :: us) ≠ [] := by
    intro u us hu hnil
    rw [joinWith_cons_eq_append, List.append_eq_nil_iff] at hnil
    exact hu hnil.1
  cases ws with
  | nil =>
    cases vs with
    | nil => rfl
    | cons v vs => exact absurd h.symm (hne v vs (hvs v (by simp)).1)
  | cons w ws =>
    cases vs with
    | nil => exact absurd h (hne w ws (hws w (by simp)).1)
    | cons v vs =>
      have hparts := congrArg (splitChar ',') h
      rw [splitChar_joinWith_comma fun u hu => (hws u hu).2,
        splitChar_joinWith_comma fun u hu => (hvs u hu).2] at hparts
      obtain ⟨hfirst, hrest⟩ := List.cons.inj hparts
      have hspaced : Function.Injective (List.cons ' ') := List.cons_injective
      rw [hfirst, List.map_injective_iff.2 hspaced hrest]

/-- No part holds the separator. -/
theorem length_le_length_joinWith (sep : Text) {parts : List Text} (h : ∀ part ∈ parts, part ≠ []) :
    parts.length ≤ (joinWith sep parts).length := by
  induction parts with
  | nil => exact Nat.le_refl 0
  | cons part parts ih =>
    have hpart : 0 < part.length := List.length_pos_iff.2 (h part List.mem_cons_self)
    have hparts := ih fun p hp => h p (List.mem_cons_of_mem part hp)
    by_cases hnil : parts = []
    · rw [hnil]
      exact hpart
    · rw [joinWith_cons hnil, List.length_append, List.length_append, List.length_cons]
      omega

theorem length_le_length_flatMap {α : Type} {f : α → Text} (h : ∀ a, f a ≠ []) (as : List α) :
    as.length ≤ (as.flatMap f).length := by
  induction as with
  | nil => exact Nat.le_refl 0
  | cons a as ih =>
    have ha : 0 < (f a).length := List.length_pos_iff.2 (h a)
    rw [List.flatMap_cons, List.length_append, List.length_cons]
    omega

theorem sep_not_mem_of_mem_splitChar {sep : Char} {t part : Text}
    (h : part ∈ splitChar sep t) : sep ∉ part := by
  induction t generalizing part with
  | nil =>
    rw [List.mem_singleton.1 h]
    exact List.not_mem_nil
  | cons c t ih =>
    obtain ⟨first, others, hparts⟩ := List.exists_cons_of_ne_nil (splitChar_ne_nil sep t)
    rw [splitChar, hparts] at h
    rw [hparts] at ih
    split at h
    · -- The separator itself starts an empty part.
      rcases List.mem_cons.1 h with rfl | h
      · exact List.not_mem_nil
      · exact ih h
    · next hc =>
      rcases List.mem_cons.1 h with rfl | h
      · rw [List.mem_cons, not_or]
        exact ⟨Ne.symm hc, ih (by simp)⟩
      · exact ih (by simp [h])

theorem mem_joinWith {c : Char} {sep : Text} {ws : List Text} (h : c ∈ joinWith sep ws) :
    c ∈ sep ∨ ∃ w ∈ ws, c ∈ w := by
  induction ws with
  | nil => cases h
  | cons w ws ih =>
    rw [joinWith_cons_eq_append, List.mem_append] at h
    rcases h with h | h
    · exact Or.inr ⟨w, by simp, h⟩
    · split at h
      · cases h
      · rcases List.mem_append.1 h with h | h
        · exact Or.inl h
        · rcases ih h with h | ⟨v, hv, h⟩
          · exact Or.inl h
          · exact Or.inr ⟨v, by simp [hv], h⟩

theorem joinWith_append {sep : Text} {ws vs : List Text} (hw : ws ≠ []) (hv : vs ≠ []) :
    joinWith sep (ws ++ vs) = joinWith sep ws ++ sep ++ joinWith sep vs := by
  induction ws with
  | nil => exact absurd rfl hw
  | cons w ws ih =>
    cases ws with
    | nil =>
      rw [List.singleton_append, joinWith_cons hv]
      rfl
    | cons u ws =>
      have hjoin : joinWith sep (u :: ws ++ vs) = _ := ih (List.cons_ne_nil u ws)
      rw [List.cons_append, joinWith_cons (by simp), hjoin,
        joinWith_cons (List.cons_ne_nil u ws)]
      simp only [List.append_assoc]

/-- A text that does not end with the separator does not end with an empty part. -/
theorem getLast_splitChar_ne_nil {sep : Char} {t part : Text} (hne : t ≠ [])
    (hlast : t.getLast? ≠ some sep) (h : (splitChar sep t).getLast? = some part) : part ≠ [] := by
  rintro rfl
  obtain ⟨parts, hparts⟩ := List.getLast?_eq_some_iff.1 h
  have hjoin := joinWith_splitChar sep t
  rw [hparts] at hjoin
  by_cases hnil : parts = []
  · -- The empty part is the only one, so the text is empty.
    rw [hnil] at hjoin
    exact hne hjoin.symm
  · rw [joinWith_append hnil (by simp)] at hjoin
    apply hlast
    rw [← hjoin]
    show (joinWith [sep] parts ++ [sep] ++ []).getLast? = some sep
    simp

/-- What follows does not continue `word`. -/
def Breaks (word rest : Text) : Prop :=
  ∀ c ∈ rest.head?, c ∉ word

theorem breaks_nil (word : Text) : Breaks word [] := by
  intro c hc
  cases hc

theorem breaks_cons {word : Text} {c : Char} (h : c ∉ word) (rest : Text) :
    Breaks word (c :: rest) := by
  intro d hd
  cases hd
  exact h

/-- The first word of a text is neither longer nor shorter than it looks. -/
theorem eq_of_prefix_append_space {word w rest : Text} (hw : ' ' ∉ w) (hrest : Breaks word rest)
    (h : word ++ [' '] <+: w ++ rest) : w = word := by
  obtain ⟨z, hz⟩ := h
  rw [List.append_assoc, List.singleton_append] at hz
  rcases List.append_eq_append_iff.1 hz with ⟨u, rfl, hu⟩ | ⟨u, rfl, hu⟩
  · -- `w` goes on behind `word`, where there is a space.
    cases u with
    | nil => simp
    | cons c u =>
      obtain ⟨rfl, -⟩ := List.cons.inj hu
      exact absurd (by simp) hw
  · -- `word` goes on behind `w`, where the rest starts.
    cases u with
    | nil => simp
    | cons c u =>
      rw [hu] at hrest
      exact absurd (by simp) (hrest c rfl)

/-- Between words joined by spaces, a word with spaces around it is one of them, and not the
first one. -/
theorem noStart_spaced {word : Text} (hword : ' ' ∉ word) {ws : List Text}
    (hws : ∀ w ∈ ws, ' ' ∉ w) (hne : ∀ w ∈ ws.tail, w ≠ word) {rest : Text}
    (hrest : Breaks word rest) :
    NoStart (' ' :: word ++ [' ']) (joinWith [' '] ws) rest := by
  induction ws with
  | nil => trivial
  | cons w ws ih =>
    have hw : ' ' ∉ w := hws w (by simp)
    cases ws with
    | nil => exact noStart_of_not_mem hw rest
    | cons v ws =>
      -- An occurrence in front of `v` starts in `w` or at the space.
      have htail := ih (fun u hu => hws u (by simp [hu])) fun u hu => hne u (by simp_all)
      rw [joinWith_cons (List.cons_ne_nil v ws), List.append_assoc, noStart_append,
        List.singleton_append]
      refine ⟨noStart_of_not_mem hw _, ?_, htail⟩
      -- An occurrence at the space would make `v` the word looked for.
      intro hp
      have hp : word ++ [' '] <+: joinWith [' '] (v :: ws) ++ rest :=
        (List.cons_prefix_cons.1 hp).2
      rw [joinWith_cons_eq_append, List.append_assoc] at hp
      have hv : v = word := by
        refine eq_of_prefix_append_space (hws v (by simp)) ?_ hp
        split
        · exact hrest
        · exact breaks_cons hword _
      exact hne v (by simp) hv

/-- Words that are not empty and hold no space have no doubled space between them. -/
theorem not_doubled_space_infix_spaced {ws : List Text} (hws : ∀ w ∈ ws, w ≠ [] ∧ ' ' ∉ w) :
    ¬ [' ', ' '] <:+: joinWith [' '] ws := by
  rw [← noStart_nil_iff (by simp)]
  refine noStart_spaced List.not_mem_nil (fun w hw => (hws w hw).2) ?_ (breaks_nil [])
  intro w hw
  exact (hws w (List.mem_of_mem_tail hw)).1

/-- A word followed by a space starts in `w` only if `w` ends with it. -/
theorem noStart_word {word w rest : Text} (hw : ' ' ∉ w) (hrest : Breaks word rest)
    (h : ¬ word <:+ w) : NoStart (word ++ [' ']) w rest := by
  induction w with
  | nil => trivial
  | cons c w ih =>
    rw [List.suffix_cons_iff, not_or] at h
    refine ⟨?_, ih (fun hmem => hw (by simp [hmem])) h.2⟩
    intro hp
    exact h.1 (eq_of_prefix_append_space hw hrest hp).symm

/-- A word followed by a space occurs between words joined by spaces only as the end of one of
them, and not of the last one. -/
theorem not_infix_spaced {word : Text} (hne : word ≠ []) (hword : ' ' ∉ word) {ws : List Text}
    (hws : ∀ w ∈ ws, ' ' ∉ w) (h : ∀ w ∈ ws.dropLast, ¬ word <:+ w) :
    ¬ (word ++ [' ']) <:+: joinWith [' '] ws := by
  rw [← noStart_nil_iff (by simp)]
  induction ws with
  | nil => trivial
  | cons w ws ih =>
    have hw : ' ' ∉ w := hws w (by simp)
    cases ws with
    | nil =>
      -- Behind the last word there is no space to end the occurrence.
      refine noStart_of_not_infix ?_
      intro hocc
      have hmem : ' ' ∈ word ++ [' '] := by simp
      rw [List.append_nil] at hocc
      exact hw (hocc.subset hmem)
    | cons v ws =>
      have hsuffix : ¬ word <:+ w := h w (by simp)
      rw [joinWith_cons (List.cons_ne_nil v ws), List.append_assoc, noStart_append,
        List.singleton_append]
      refine ⟨noStart_word hw (breaks_cons hword _) hsuffix, ?_, ?_⟩
      · -- The word looked for does not start with the space.
        intro hp
        cases word with
        | nil => exact hne rfl
        | cons c word =>
          have hc : c = ' ' := (List.cons_prefix_cons.1 hp).1
          exact hword (by simp [hc])
      · exact ih (fun u hu => hws u (by simp [hu])) fun u hu => h u (by simp_all)

/-- The ends of words joined by spaces are the ends of words. -/
theorem endsClear_spaced {p : Char → Bool} {ws : List Text}
    (h : ∀ w ∈ ws, w ≠ [] ∧ ∀ c ∈ w, p c = false) : EndsClear p (joinWith [' '] ws) := by
  refine ⟨?_, ?_⟩
  · intro c hc
    cases ws with
    | nil => cases hc
    | cons w ws =>
      obtain ⟨hne, hw⟩ := h w (by simp)
      cases w with
      | nil => exact absurd rfl hne
      | cons d w =>
        rw [joinWith_cons_eq_append] at hc
        cases hc
        exact hw c (by simp)
  · intro c hc
    rcases List.eq_nil_or_concat ws with rfl | ⟨vs, w, rfl⟩
    · cases hc
    · -- The last character is that of the last word.
      obtain ⟨hne, hw⟩ := h w (by simp)
      have hlast : (joinWith [' '] (vs ++ [w])).getLast? = w.getLast? := by
        by_cases hvs : vs = []
        · subst hvs
          rfl
        · rw [joinWith_append hvs (List.cons_ne_nil w []), List.getLast?_append]
          show w.getLast?.or _ = _
          rw [List.getLast?_eq_some_getLast hne]
          rfl
      rw [List.concat_eq_append, hlast] at hc
      exact hw c (List.mem_of_getLast? hc)

/-! ### Characters -/

theorem mem_of_mem_replaceFrom {c : Char} {old new t : Text} {skip : Nat}
    (h : c ∈ replaceFrom old new skip t) : c ∈ new ∨ c ∈ t := by
  induction t generalizing skip with
  | nil => cases skip <;> cases h
  | cons d t ih =>
    have hrest : ∀ {k : Nat}, c ∈ replaceFrom old new k t → c ∈ new ∨ c ∈ d :: t := by
      intro k hk
      exact (ih hk).imp_right (List.mem_cons_of_mem d)
    cases skip with
    | succ skip => exact hrest h
    | zero =>
      rw [replaceFrom] at h
      split at h
      · rcases List.mem_append.1 h with h | h
        · exact Or.inl h
        · exact hrest h
      · rcases List.mem_cons.1 h with rfl | h
        · exact Or.inr (by simp)
        · exact hrest h

/-- Replacing brings in the characters of the new text alone. -/
theorem mem_of_mem_replaceAll {c : Char} {old new t : Text} (h : c ∈ replaceAll old new t) :
    c ∈ new ∨ c ∈ t :=
  mem_of_mem_replaceFrom h

theorem mem_of_mem_removeAll {c : Char} {old t : Text} (h : c ∈ removeAll old t) : c ∈ t :=
  (mem_of_mem_replaceAll h).resolve_left List.not_mem_nil

/-- What follows the last occurrence of a mark stands behind it at the end of the text. -/
theorem append_suffix_of_afterLast? {mark t rest : Text} (h : afterLast? mark t = some rest) :
    mark ++ rest <:+ t := by
  induction t with
  | nil => cases h
  | cons c t ih =>
    rw [afterLast?] at h
    cases hrest : afterLast? mark t with
    | some later =>
      rw [hrest] at h
      cases h
      exact (ih hrest).trans (List.suffix_cons c t)
    | none =>
      rw [hrest] at h
      exact ⟨[], (afterPrefix?_eq_some_iff.1 h).symm⟩

theorem afterLast_suffix (mark t : Text) : afterLast mark t <:+ t := by
  unfold afterLast
  cases h : afterLast? mark t with
  | some rest => exact (List.suffix_append mark rest).trans (append_suffix_of_afterLast? h)
  | none => exact List.suffix_rfl

theorem mem_joinWith_of_mem {c : Char} {sep w : Text} {ws : List Text} (hw : w ∈ ws)
    (hc : c ∈ w) : c ∈ joinWith sep ws := by
  induction ws with
  | nil => cases hw
  | cons v ws ih =>
    rw [joinWith_cons_eq_append, List.mem_append]
    rcases List.mem_cons.1 hw with rfl | hw
    · exact Or.inl hc
    · rw [if_neg (List.ne_nil_of_mem hw)]
      exact Or.inr (List.mem_append_right sep (ih hw))

/-- The parts of a text hold no other characters than the text. -/
theorem mem_of_mem_splitChar {c sep : Char} {t part : Text} (hpart : part ∈ splitChar sep t)
    (hc : c ∈ part) : c ∈ t := by
  rw [← joinWith_splitChar sep t]
  exact mem_joinWith_of_mem hpart hc

/-- Lines that are each ended by the separator are found again, with an empty part behind them. -/
theorem splitChar_flatMap_concat {sep : Char} {rows : List Text} (h : ∀ row ∈ rows, sep ∉ row) :
    splitChar sep (rows.flatMap (· ++ [sep])) = rows ++ [[]] := by
  induction rows with
  | nil => rfl
  | cons row rows ih =>
    rw [List.flatMap_cons, List.append_assoc, List.singleton_append,
      splitChar_append_cons (h row (by simp)), ih fun r hr => h r (by simp [hr])]
    rfl

end Text

end DeclSurvey
