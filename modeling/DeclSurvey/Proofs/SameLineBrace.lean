import DeclSurvey.Proofs.Declaration
import DeclSurvey.Proofs.Framing
import DeclSurvey.Proofs.HeadingSpacing

/-! # A brace on the line of the declaration

The body of a declaration may be opened on the line of the declaration itself.  Nothing takes the
brace off that line, so it is one more word at its end, and this file says where the word goes.

* **Texts**: `Text.braced` puts the brace behind a text, and `Text.afterLast?_braced` says what it
  does to the search for a keyword.
* **Tails**: `Heading.ClauseOpen` is a tail whose last clause takes one more word.  Behind any other
  tail the brace leaves parent and interfaces alone (`Heading.clauses_braced_iff`).
* **Heads**: the brace is a word of the head exactly when there are no clauses
  (`Heading.Parts.words_parse_braced`, `Heading.Parts.words_parse_braced_of_bare`).
* `Heading.parse_braced_line`: which declarations are read the same with the brace. -/

namespace DeclSurvey

namespace Text

/-- A text with the mark of an opening body behind it. -/
def braced (t : Text) : Text :=
  t ++ ' ' :: bodyOpenMark

theorem braced_eq (t : Text) : braced t = t ++ [' '] ++ ['\x7b'] := by
  rw [List.append_assoc]
  rfl

theorem cons_braced (c : Char) (t : Text) : c :: braced t = braced (c :: t) := rfl

/-! ### Behind the last mark -/

theorem afterLast?_of_suffix {mark t : Text} (hmark : mark ≠ []) (h : mark <:+ t) :
    afterLast? mark t = some [] := by
  obtain ⟨a, rfl⟩ := h
  cases mark with
  | nil => exact absurd rfl hmark
  | cons c mark =>
    have hshort : ¬ c :: mark <:+: mark ++ [] := by
      intro hocc
      have hle := hocc.length_le
      rw [List.append_nil, List.length_cons] at hle
      omega
    have hlast := afterLast?_append_mark a hshort
    rwa [List.append_nil] at hlast

/-- Unless it completes the mark, one more character stands behind the mark. -/
theorem afterPrefix?_concat {mark t : Text} {c : Char} (h : mark ≠ t ++ [c]) :
    afterPrefix? mark (t ++ [c]) = (afterPrefix? mark t).map (· ++ [c]) := by
  unfold afterPrefix?
  by_cases hp : mark <+: t
  · have hp' : mark <+: t ++ [c] := hp.trans (List.prefix_append t [c])
    rw [if_pos (List.isPrefixOf_iff_prefix.2 hp), if_pos (List.isPrefixOf_iff_prefix.2 hp'),
      List.drop_append_of_le_length hp.length_le]
    rfl
  · have hp' : ¬ mark <+: t ++ [c] := fun hp' => (List.prefix_concat_iff.1 hp').elim h hp
    rw [if_neg (mt List.isPrefixOf_iff_prefix.1 hp), if_neg (mt List.isPrefixOf_iff_prefix.1 hp')]
    rfl

/-- Unless it completes a mark, one more character stands behind the last mark. -/
theorem afterLast?_concat {mark t : Text} {c : Char} (h : ¬ mark <:+ t ++ [c]) :
    afterLast? mark (t ++ [c]) = (afterLast? mark t).map (· ++ [c]) := by
  have hstart : afterPrefix? mark (t ++ [c]) = (afterPrefix? mark t).map (· ++ [c]) :=
    afterPrefix?_concat fun heq => h (heq ▸ List.suffix_rfl)
  induction t with
  | nil =>
    have hne : ¬ mark <+: [] := fun hp => h (List.prefix_nil.1 hp ▸ List.nil_suffix)
    have hnone : afterPrefix? mark [] = none := by
      rw [afterPrefix?, if_neg (mt List.isPrefixOf_iff_prefix.1 hne)]
    rw [hnone] at hstart
    exact hstart
  | cons d t ih =>
    have ht : ¬ mark <:+ t ++ [c] := fun hsuffix => h (hsuffix.trans (List.suffix_cons d _))
    have htail := ih ht (afterPrefix?_concat fun heq => ht (heq ▸ List.suffix_rfl))
    rw [List.cons_append, afterLast?, htail, afterLast?]
    cases afterLast? mark t with
    | some rest => rfl
    | none => exact hstart

section Keyword
variable {word t : Text}

theorem spaced_suffix_concat_iff : ' ' :: (word ++ [' ']) <:+ t ++ [' '] ↔ ' ' :: word <:+ t := by
  rw [← List.cons_append, List.suffix_append_inj_of_length_eq rfl]
  simp

theorem not_spaced_suffix_braced :
    ¬ ' ' :: (word ++ [' ']) <:+ t ++ [' '] ++ ['\x7b'] := by
  have hlen : [' '].length = ['\x7b'].length := rfl
  rw [← List.cons_append, List.suffix_append_inj_of_length_eq hlen]
  rintro ⟨-, heq⟩
  exact absurd heq (by decide)

/-- A keyword at the end of the text takes the brace. -/
theorem afterLast?_braced_of_suffix (h : ' ' :: word <:+ t) :
    afterLast? (' ' :: (word ++ [' '])) (braced t) = some bodyOpenMark := by
  have hlast : afterLast? (' ' :: (word ++ [' '])) (t ++ [' ']) = some [] :=
    afterLast?_of_suffix (List.cons_ne_nil _ _) (spaced_suffix_concat_iff.2 h)
  rw [braced_eq, afterLast?_concat not_spaced_suffix_braced, hlast]
  rfl

/-- Any other text has the brace at its end, where the last keyword has it too. -/
theorem afterLast?_braced (h : ¬ ' ' :: word <:+ t) :
    afterLast? (' ' :: (word ++ [' '])) (braced t) =
      (afterLast? (' ' :: (word ++ [' '])) t).map braced := by
  have hpair : (· ++ ['\x7b']) ∘ (· ++ [' ']) = braced := funext fun u => (braced_eq u).symm
  rw [braced_eq, afterLast?_concat not_spaced_suffix_braced,
    afterLast?_concat (mt spaced_suffix_concat_iff.1 h), Option.map_map, hpair]

/-- The brace can complete a keyword, and brings in no other. -/
theorem infix_braced_iff (hword : '\x7b' ∉ word) :
    word ++ [' '] <:+: braced t ↔ word <:+ t ∨ word ++ [' '] <:+: t := by
  have hmark : '\x7b' ∉ word ++ [' '] := by
    rw [List.mem_append, not_or]
    exact ⟨hword, by decide⟩
  rw [braced_eq, infix_append_cons_iff hmark, List.infix_concat_iff,
    List.suffix_append_inj_of_length_eq rfl, List.infix_nil]
  simp

end Keyword

/-! ### Trimming and cutting -/

/-- A text without `c` that ends a longer one ends what follows the last `c`. -/
theorem suffix_of_suffix_append_cons {c : Char} {part a b : Text} (hc : c ∉ part)
    (h : part <:+ a ++ c :: b) : part <:+ b := by
  rcases List.suffix_or_suffix_of_suffix h (List.suffix_append a (c :: b)) with hle | hle
  · rcases List.suffix_cons_iff.1 hle with heq | hin
    · exact absurd (heq ▸ List.mem_cons_self) hc
    · exact hin
  · exact absurd (hle.mem List.mem_cons_self) hc

theorem beforeChar_braced (t : Text) : beforeChar ' ' (braced t) = beforeChar ' ' t := by
  induction t with
  | nil => rfl
  | cons c t ih =>
    unfold beforeChar braced at ih ⊢
    rw [List.cons_append, List.takeWhile_cons, List.takeWhile_cons, ih]

/-- Trimming stops at the brace, and in front of it leaves a text without white space at its end as
it is. -/
theorem trim_braced {t : Text} (hne : t ≠ []) (hlast : ∀ c ∈ t.getLast?, isBlank c = false) :
    trim (braced t) = braced (trim t) := by
  obtain ⟨front, back, hfront, hback, heq⟩ := exists_eq_append_trimBy isBlank t
  change t = front ++ trim t ++ back at heq
  obtain ⟨c, hc⟩ := Option.ne_none_iff_exists'.1 (mt List.getLast?_eq_none_iff.1 hne)
  have hcfront : c ∉ front := not_mem_of_class (hlast c hc) hfront
  have hcback : c ∉ back := not_mem_of_class (hlast c hc) hback
  have hnil : back = [] := by
    by_contra hne
    rw [heq, List.getLast?_append_of_ne_nil _ hne] at hc
    exact hcback (List.mem_of_getLast? hc)
  rw [hnil, List.append_nil] at heq
  have hkept : trim t ≠ [] := by
    intro hkept
    rw [hkept, List.append_nil] at heq
    exact hcfront (heq ▸ List.mem_of_getLast? hc)
  have hclear : EndsClear isBlank (braced (trim t)) := by
    refine ⟨?_, ?_⟩
    · unfold braced
      rw [List.head?_append_of_ne_nil _ hkept]
      exact (endsClear_trimBy isBlank t).head
    · rw [braced_eq]
      exact last_concat (by decide) _
  have hsplit : braced t = front ++ braced (trim t) := by
    unfold braced
    rw [← List.append_assoc, ← heq]
  calc trim (braced t) = trim (front ++ braced (trim t)) := by rw [hsplit]
    _ = trim (braced (trim t)) := trimBy_front_append hfront _
    _ = braced (trim t) := trimBy_of_endsClear hclear

/-- The last part of a text that is taken apart can be exchanged for another one. -/
theorem exists_last_part (sep : Char) (t : Text) :
    ∃ front last parts, t = front ++ last ∧ sep ∉ last ∧ (∀ c ∈ front.getLast?, c = sep) ∧
      ∀ part, sep ∉ part → splitChar sep (front ++ part) = parts ++ [part] := by
  by_cases h : sep ∈ t
  · obtain ⟨a, b, hab, ha⟩ := List.eq_append_cons_of_mem (List.mem_reverse.2 h)
    refine ⟨b.reverse ++ [sep], a.reverse, splitChar sep b.reverse, ?_, ?_, ?_, ?_⟩
    · rw [← List.reverse_reverse t, hab]
      simp
    · rwa [List.mem_reverse]
    · intro c hc
      rw [List.getLast?_concat] at hc
      exact (Option.some.inj hc).symm
    · intro part hpart
      rw [List.append_assoc, List.singleton_append, splitChar_append_sep,
        splitChar_of_not_mem hpart]
  · refine ⟨[], t, [], rfl, h, by simp, ?_⟩
    intro part hpart
    exact splitChar_of_not_mem hpart

end Text

namespace Heading

open Text

/-! ### Tails -/

/-- A tail whose last clause takes one more word. -/
inductive ClauseOpen (tail : Text) : Prop where
  /-- The last word is the parent keyword. -/
  | parent (h : ' ' :: parentKeyword <:+ ' ' :: tail)
  /-- The last word is the interface keyword. -/
  | interfaces (h : ' ' :: interfacesKeyword <:+ ' ' :: tail)
  /-- The last word ends with the interface keyword and there is no interface list, so the word is
  taken for the start of one. -/
  | lookalike (h : interfacesKeyword <:+ tail) (hnone : ¬ interfacesWord <:+: tail)
  /-- The interface list ends with a comma. -/
  | item (h : tail.getLast? = some ',') (hlist : interfacesWord <:+: tail)

theorem parentOf_braced_iff {tail : Text} (hbrace : '\x7b' ∉ tail) :
    parentOf (braced tail) = parentOf tail ↔ ¬ ' ' :: parentKeyword <:+ ' ' :: tail := by
  constructor
  · intro h hsuffix
    have hread : parentOf (braced tail) = bodyOpenMark := by
      rw [parentOf_eq, parentWord_eq, cons_braced, afterLast?_braced_of_suffix hsuffix]
      rfl
    have hmem : '\x7b' ∈ parentOf tail := by
      rw [← h, hread]
      decide
    exact hbrace ((mem_of_mem_parentOf hmem).resolve_left (by decide))
  · intro h
    rw [parentOf_eq, parentOf_eq, parentWord_eq, cons_braced, afterLast?_braced h]
    cases afterLast? (' ' :: (parentKeyword ++ [' '])) (' ' :: tail) with
    | none => rfl
    | some body => exact beforeChar_braced body

/-- The brace is cut off an item that does not end with white space. -/
theorem interfaceName_braced {item : Text} (hne : item ≠ [])
    (hlast : ∀ c ∈ item.getLast?, isBlank c = false) :
    interfaceName (braced item) = interfaceName item := by
  unfold interfaceName
  rw [trim_braced hne hlast, beforeChar_braced]

section Body
variable {word tail : Text}

theorem clauseBody_braced_of_suffix (h : ' ' :: word <:+ ' ' :: tail) :
    clauseBody (word ++ [' ']) (braced tail) = bodyOpenMark := by
  unfold clauseBody afterLast
  rw [cons_braced, afterLast?_braced_of_suffix h]
  rfl

theorem clauseBody_braced (h : ¬ ' ' :: word <:+ ' ' :: tail) :
    clauseBody (word ++ [' ']) (braced tail) = braced (clauseBody (word ++ [' ']) tail) := by
  unfold clauseBody afterLast
  rw [cons_braced, afterLast?_braced h]
  cases afterLast? (' ' :: (word ++ [' '])) (' ' :: tail) with
  | none => rfl
  | some body => rfl

/-- A clause ends where the tail ends. -/
theorem getLast?_clauseBody (hne : tail ≠ []) (hlast : tail.getLast? ≠ some ' ') :
    (clauseBody (word ++ [' ']) tail).getLast? = tail.getLast? := by
  have hcons : (' ' :: tail).getLast? = tail.getLast? := List.getLast?_append_of_ne_nil [' '] hne
  have hbody : clauseBody (word ++ [' ']) tail ≠ [] := by
    unfold clauseBody afterLast
    cases hrest : afterLast? (' ' :: (word ++ [' '])) (' ' :: tail) with
    | none => simp
    | some body =>
      -- If nothing followed the keyword, the tail would end with the space of the keyword.
      rintro rfl
      obtain ⟨a, ha⟩ := append_suffix_of_afterLast? hrest
      refine hlast ?_
      rw [← hcons, ← ha, List.append_nil, ← List.cons_append, ← List.append_assoc,
        List.getLast?_concat]
  obtain ⟨a, ha⟩ := afterLast_suffix (' ' :: (word ++ [' '])) (' ' :: tail)
  rw [← hcons, ← ha]
  exact (List.getLast?_append_of_ne_nil a hbody).symm

end Body

theorem occursIn_interfaces_braced_iff {tail : Text} :
    occursIn interfacesWord (braced tail) = true ↔
      interfacesKeyword <:+ tail ∨ interfacesWord <:+: tail := by
  rw [occursIn_iff, interfacesWord_eq]
  exact infix_braced_iff (by decide)

/-- The brace is cut off the last item of a list, unless that item is empty. -/
theorem map_interfaceName_braced_iff {body : Text} (hne : body ≠ [])
    (hlast : ∀ c ∈ body.getLast?, isBlank c = false) :
    (splitChar ',' (braced body)).map interfaceName = (splitChar ',' body).map interfaceName ↔
      body.getLast? ≠ some ',' := by
  obtain ⟨front, item, parts, rfl, hcomma, hfront, hparts⟩ := exists_last_part ',' body
  have hbraced : braced (front ++ item) = front ++ braced item := List.append_assoc _ _ _
  have hcomma' : ',' ∉ braced item := by
    unfold braced
    rw [List.mem_append, not_or]
    exact ⟨hcomma, by decide⟩
  rw [hbraced, hparts _ hcomma', hparts _ hcomma, List.map_append, List.map_append,
    List.append_right_inj, List.map_singleton, List.map_singleton, List.singleton_inj]
  by_cases hitem : item = []
  · -- The comma is the last character, and the brace is an item of its own.
    subst hitem
    rw [List.append_nil] at hne ⊢
    refine iff_of_false (by decide) (not_not.2 ?_)
    obtain ⟨c, hc⟩ := Option.ne_none_iff_exists'.1 (mt List.getLast?_eq_none_iff.1 hne)
    rw [hc, hfront c hc]
  · rw [List.getLast?_append_of_ne_nil _ hitem] at hlast ⊢
    refine iff_of_true (interfaceName_braced hitem hlast) ?_
    intro h
    exact hcomma (List.mem_of_getLast? h)

/-- An interface list is read the same with the brace behind it, unless it ends with a comma. -/
theorem interfacesOf_braced_iff_of_list {tail : Text} (hclear : EndsClear isBlank tail)
    (hlist : interfacesWord <:+: tail) (hword : ¬ ' ' :: interfacesKeyword <:+ ' ' :: tail) :
    interfacesOf (braced tail) = interfacesOf tail ↔ tail.getLast? ≠ some ',' := by
  have hne : tail ≠ [] := by
    rintro rfl
    exact absurd (List.infix_nil.1 hlist) (by decide)
  have hspace : tail.getLast? ≠ some ' ' := by
    intro h
    exact absurd (hclear.last ' ' h) (by decide)
  have hbody : (clauseBody interfacesWord tail).getLast? = tail.getLast? := by
    rw [interfacesWord_eq]
    exact getLast?_clauseBody hne hspace
  have hbodyNe : clauseBody interfacesWord tail ≠ [] := by
    intro hnil
    rw [hnil] at hbody
    exact hne (List.getLast?_eq_none_iff.1 hbody.symm)
  have hbraced : clauseBody interfacesWord (braced tail) =
      braced (clauseBody interfacesWord tail) := by
    rw [interfacesWord_eq]
    exact clauseBody_braced hword
  unfold interfacesOf
  rw [if_pos (occursIn_interfaces_braced_iff.2 (Or.inr hlist)), if_pos (occursIn_iff.2 hlist),
    hbraced, map_interfaceName_braced_iff hbodyNe (by rw [hbody]; exact hclear.last), hbody]

theorem interfacesOf_braced_iff {tail : Text} (hclear : EndsClear isBlank tail)
    (hbrace : '\x7b' ∉ tail) :
    interfacesOf (braced tail) = interfacesOf tail ↔
      ¬ ' ' :: interfacesKeyword <:+ ' ' :: tail ∧
      (interfacesKeyword <:+ tail → interfacesWord <:+: tail) ∧
      (interfacesWord <:+: tail → tail.getLast? ≠ some ',') := by
  by_cases hword : ' ' :: interfacesKeyword <:+ ' ' :: tail
  · -- The brace is read as the only interface.
    have hend : interfacesKeyword <:+ tail :=
      suffix_of_suffix_append_cons (a := []) space_not_mem_interfacesKeyword
        ((List.suffix_cons ' ' interfacesKeyword).trans hword)
    have hread : interfacesOf (braced tail) = [bodyOpenMark] := by
      unfold interfacesOf
      rw [if_pos (occursIn_interfaces_braced_iff.2 (Or.inl hend)), interfacesWord_eq,
        clauseBody_braced_of_suffix hword]
      decide
    refine iff_of_false ?_ fun h => h.1 hword
    intro h
    have hmem : bodyOpenMark ∈ interfacesOf tail := by
      rw [← h, hread]
      exact List.mem_singleton_self _
    exact hbrace ((mem_of_mem_interfacesOf hmem (c := '\x7b') (by decide)).resolve_left (by decide))
  · by_cases hlist : interfacesWord <:+: tail
    · rw [interfacesOf_braced_iff_of_list hclear hlist hword]
      tauto
    · have hnone : interfacesOf tail = [] := by
        unfold interfacesOf
        rw [if_neg (mt occursIn_iff.1 hlist)]
      rw [hnone]
      unfold interfacesOf
      by_cases hend : interfacesKeyword <:+ tail
      · rw [if_pos (occursIn_interfaces_braced_iff.2 (Or.inl hend))]
        refine iff_of_false ?_ fun h => hlist (h.2.1 hend)
        rw [List.map_eq_nil_iff]
        exact splitChar_ne_nil _ _
      · rw [if_neg (mt occursIn_interfaces_braced_iff.1 (not_or.2 ⟨hend, hlist⟩))]
        tauto

/-- The clauses are read the same with the brace behind them exactly when none of them is open. -/
theorem clauses_braced_iff {tail : Text} (hclear : EndsClear isBlank tail)
    (hbrace : '\x7b' ∉ tail) :
    (parentOf (braced tail) = parentOf tail ∧ interfacesOf (braced tail) = interfacesOf tail) ↔
      ¬ ClauseOpen tail := by
  rw [parentOf_braced_iff hbrace, interfacesOf_braced_iff hclear hbrace]
  constructor
  · rintro ⟨hparent, hinterfaces, hlookalike, hitem⟩ hopen
    cases hopen with
    | parent h => exact hparent h
    | interfaces h => exact hinterfaces h
    | lookalike h hnone => exact hnone (hlookalike h)
    | item h hlist => exact hitem hlist h
  · intro hopen
    refine ⟨fun h => hopen (.parent h), fun h => hopen (.interfaces h), ?_, ?_⟩
    · intro h
      by_contra hnone
      exact hopen (.lookalike h hnone)
    · intro hlist h
      exact hopen (.item h hlist)

/-! ### The last word of the clauses -/

/-- A word with a space in front of it can only be the last one of the words that are joined. -/
theorem eq_of_spaced_suffix {word w : Text} (hword : ' ' ∉ word) (hw : ' ' ∉ w) (us : List Text)
    (h : ' ' :: word <:+ ' ' :: joinWith [' '] (us ++ [w])) : word = w := by
  have hend : ' ' :: w <:+ ' ' :: joinWith [' '] (us ++ [w]) := by
    by_cases hus : us = []
    · rw [hus]
      exact List.suffix_rfl
    · rw [joinWith_append hus (List.cons_ne_nil w []), List.append_assoc]
      exact ⟨' ' :: joinWith [' '] us, rfl⟩
  rcases List.suffix_or_suffix_of_suffix h hend with hle | hle
  · rcases List.suffix_cons_iff.1 hle with heq | hin
    · exact (List.cons.inj heq).2
    · exact absurd (hin.mem List.mem_cons_self) hw
  · rcases List.suffix_cons_iff.1 hle with heq | hin
    · exact (List.cons.inj heq).2.symm
    · exact absurd (hin.mem List.mem_cons_self) hword

theorem exists_items_eq_concat (i : Text) (is : List Text) :
    ∃ us w, items (i :: is) = us ++ [w] ∧ w ∈ i :: is := by
  induction is generalizing i with
  | nil => exact ⟨[], i, rfl, List.mem_singleton_self i⟩
  | cons j is ih =>
    obtain ⟨us, w, heq, hw⟩ := ih j
    exact ⟨(i ++ [',']) :: us, w, by rw [items, heq]; rfl, List.mem_cons_of_mem i hw⟩

/-- An interface clause is not open: its last word is an interface. -/
theorem not_clauseOpen_of_interfaces {parent : Option Text} {i : Text} {is : List Text}
    (hinterfaces : ∀ j ∈ i :: is, IsWord j) (hcomma : ∀ j ∈ i :: is, ',' ∉ j) :
    ¬ ClauseOpen (joinWith [' '] (clauseWords parent (i :: is))) := by
  obtain ⟨us, w, hitems, hw⟩ := exists_items_eq_concat i is
  have hword := hinterfaces w hw
  have hwords : clauseWords parent (i :: is) =
      parentWords parent ++ interfacesKeyword :: us ++ [w] := by
    rw [clauseWords, interfaceWords, hitems, List.append_assoc]
    rfl
  have hlist : interfacesWord <:+: joinWith [' '] (clauseWords parent (i :: is)) := by
    obtain ⟨front, -, hfront, -⟩ := exists_joinWith_interfaceWords (parentWords parent) i is
    exact ⟨front, _, hfront.symm⟩
  intro hopen
  cases hopen with
  | parent h =>
    rw [hwords] at h
    exact hword.ne_parentKeyword
      (eq_of_spaced_suffix space_not_mem_parentKeyword hword.isItem.space_not_mem _ h).symm
  | interfaces h =>
    rw [hwords] at h
    exact hword.ne_interfacesKeyword
      (eq_of_spaced_suffix space_not_mem_interfacesKeyword hword.isItem.space_not_mem _ h).symm
  | lookalike _ hnone => exact hnone hlist
  | item h _ =>
    have hlast : joinWith [' '] [w] = w := rfl
    rw [hwords, joinWith_append (by simp) (List.cons_ne_nil w []), hlast,
      List.getLast?_append_of_ne_nil _ hword.ne_nil] at h
    exact hcomma w hw (List.mem_of_getLast? h)

/-- A parent clause is open if it is taken for an interface clause, and not otherwise. -/
theorem clauseOpen_parent_iff {p : Text} (hp : IsWord p) :
    ClauseOpen (joinWith [' '] (clauseWords (some p) [])) ↔ interfacesKeyword <:+ p := by
  have hspace := hp.isItem.space_not_mem
  have hnone : ¬ interfacesWord <:+: joinWith [' '] [parentKeyword, p] := by
    rw [interfacesWord_eq]
    refine not_infix_spaced (by decide) space_not_mem_interfacesKeyword ?_ ?_
    · intro w hw
      rcases List.mem_pair.1 hw with rfl | rfl
      · exact space_not_mem_parentKeyword
      · exact hspace
    · intro w hw
      rw [List.mem_singleton.1 hw]
      decide
  have hjoin : joinWith [' '] [parentKeyword, p] = parentKeyword ++ ' ' :: p :=
    List.append_assoc parentKeyword [' '] p
  show ClauseOpen (joinWith [' '] [parentKeyword, p]) ↔ _
  constructor
  · intro hopen
    cases hopen with
    | parent h =>
      exact absurd (eq_of_spaced_suffix space_not_mem_parentKeyword hspace [parentKeyword] h).symm
        hp.ne_parentKeyword
    | interfaces h =>
      exact absurd
        (eq_of_spaced_suffix space_not_mem_interfacesKeyword hspace [parentKeyword] h).symm
        hp.ne_interfacesKeyword
    | lookalike h _ =>
      rw [hjoin] at h
      exact suffix_of_suffix_append_cons space_not_mem_interfacesKeyword h
    | item _ hlist => exact absurd hlist hnone
  · intro h
    refine .lookalike ?_ hnone
    rw [hjoin]
    exact h.trans ((List.suffix_cons ' ' p).trans (List.suffix_append parentKeyword (' ' :: p)))

/-! ### Declarations -/

/-- Two headings are of the same declaration. -/
def SameDeclaration (h k : Heading) : Prop :=
  h.name = k.name ∧ h.keyword = k.keyword ∧ h.parent = k.parent ∧ h.interfaces = k.interfaces

theorem isWord_bodyOpenMark : IsWord bodyOpenMark := by decide

namespace Parts
variable (d : Parts)

theorem isItem_line : ∀ w ∈ d.words ++ clauseWords d.parent d.interfaces, IsItem w :=
  isItem_append_clauseWords (fun _ hw => d.isWord_of_mem_words hw) d.parent_word d.interface_word

theorem tidy_line : tidy d.line = d.head ++ d.clauses := by
  show tidy (joinWith [' '] d.words ++ clauseText d.parent d.interfaces) = _
  rw [append_clauseText d.words_ne_nil, tidy_spaced d.isItem_line, ← append_clauseText d.words_ne_nil]
  rfl

theorem tidy_braced : tidy (braced d.line) = d.head ++ braced d.clauses := by
  have hjoin : braced d.line =
      joinWith [' '] (d.words ++ clauseWords d.parent d.interfaces ++ [bodyOpenMark]) := by
    show braced (joinWith [' '] d.words ++ clauseText d.parent d.interfaces) = _
    rw [append_clauseText d.words_ne_nil, joinWith_append
      (List.append_ne_nil_of_left_ne_nil d.words_ne_nil _) (List.cons_ne_nil _ _), List.append_assoc]
    rfl
  have hitems : ∀ w ∈ d.words ++ clauseWords d.parent d.interfaces ++ [bodyOpenMark], IsItem w := by
    intro w hw
    rcases List.mem_append.1 hw with hw | hw
    · exact d.isItem_line w hw
    · rw [List.mem_singleton.1 hw]
      exact isWord_bodyOpenMark.isItem
  rw [hjoin, tidy_spaced hitems, ← hjoin]
  exact List.append_assoc _ _ _

theorem words_parse_line : (parse d.line).words = d.words :=
  words_parse d.words_ne_nil (fun _ hw => d.isWord_of_mem_words hw)
    (clauseStart_clauseText d.parent_word d.interfaces) d.tidy_line

/-- Without clauses the brace is one more word of the head. -/
theorem words_parse_braced_of_bare (h : d.clauses = []) :
    (parse (braced d.line)).words = d.words ++ [bodyOpenMark] := by
  refine words_parse (by simp) ?_ ClauseStart.none ?_
  · intro w hw
    rcases List.mem_append.1 hw with hw | hw
    · exact d.isWord_of_mem_words hw
    · rw [List.mem_singleton.1 hw]
      exact isWord_bodyOpenMark
  · rw [d.tidy_braced, h, List.append_nil, joinWith_append d.words_ne_nil (List.cons_ne_nil _ _),
      List.append_assoc]
    rfl

/-- What follows the head is the tail, if the head does not come again in it. -/
theorem tail_parse_of_tidy {line rest : Text} (hrest : ClauseStart rest)
    (hline : tidy line = d.head ++ rest) (hhead : ¬ d.head <:+: rest) :
    (parse line).tail = trim rest := by
  have hne : d.head ≠ [] := by
    intro hnil
    rw [hnil] at hhead
    exact hhead List.nil_infix
  have hparse : (parse line).head = d.head := by
    rw [head_parse, hline]
    exact headOf_append (fun _ hw => d.isWord_of_mem_words hw) hrest
  rw [tail_parse (by rwa [hparse]), hparse, hline, tailOf_append hne hhead]

theorem clauses_eq_nil_iff : d.clauses = [] ↔ d.parent = none ∧ d.interfaces = [] := by
  unfold clauses clauseText
  cases d.parent with
  | none =>
    cases d.interfaces with
    | nil => simp
    | cons i is => simp
  | some p => simp

section Clauses
variable {d} (h : d.clauses ≠ [])
include h

theorem clauseStart_braced : ClauseStart (braced d.clauses) :=
  clauseStart_append d.parent_word (breaks_cons space_not_mem_interfacesKeyword _)
    fun hnil => absurd hnil h

/-- Behind clauses the brace does not get into the head. -/
theorem words_parse_braced : (parse (braced d.line)).words = d.words :=
  words_parse d.words_ne_nil (fun _ hw => d.isWord_of_mem_words hw) (clauseStart_braced h)
    d.tidy_braced

theorem isBlank_last_clauses : ∀ c ∈ d.clauses.getLast?, isBlank c = false := by
  have hclear : EndsClear isBlank d.line := by
    show EndsClear isBlank (joinWith [' '] d.words ++ clauseText d.parent d.interfaces)
    rw [append_clauseText d.words_ne_nil]
    exact endsClear_spaced fun w hw =>
      ⟨(d.isItem_line w hw).ne_nil, fun c hc => ((d.isItem_line w hw).clear c hc).1⟩
  have hlast : d.line.getLast? = d.clauses.getLast? := List.getLast?_append_of_ne_nil d.head h
  rw [← hlast]
  exact hclear.last

/-- The brace stands right behind the tail, if the head does not come again in the clauses. -/
theorem tail_parse_braced (hbrace : '\x7b' ∉ d.line) (hhead : ¬ d.head <:+: d.clauses) :
    (parse (braced d.line)).tail = braced (parse d.line).tail := by
  have hclear : EndsClear isBlank d.head :=
    endsClear_spaced fun w hw =>
      ⟨(d.isWord_of_mem_words hw).ne_nil, (d.isWord_of_mem_words hw).not_blank⟩
  have hhead' : ¬ d.head <:+: braced d.clauses := by
    -- The head neither holds the brace nor ends with the space in front of it.
    have hbrace' : '\x7b' ∉ d.head := fun hmem => hbrace (List.mem_append_left _ hmem)
    rw [braced_eq, infix_append_cons_iff hbrace', ← infix_trimBy_iff hclear (d.clauses ++ [' ']),
      trimBy_append_of_all (by simp [isBlank_space]), infix_trimBy_iff hclear]
    rintro (hocc | hnil)
    · exact hhead hocc
    · exact hhead (List.infix_nil.1 hnil ▸ List.nil_infix)
  have hline : (parse d.line).tail = trim d.clauses :=
    d.tail_parse_of_tidy (clauseStart_clauseText d.parent_word d.interfaces) d.tidy_line hhead
  rw [d.tail_parse_of_tidy (clauseStart_braced h) d.tidy_braced hhead', hline,
    trim_braced h (isBlank_last_clauses h)]

/-- If the brace stands right behind the tail, it is seen exactly when a clause is open. -/
theorem sameDeclaration_braced_iff (hbrace : '\x7b' ∉ d.line)
    (htail : (parse (braced d.line)).tail = braced (parse d.line).tail) :
    SameDeclaration (parse (braced d.line)) (parse d.line) ↔ ¬ ClauseOpen (parse d.line).tail := by
  obtain ⟨hkeyword, hname⟩ := keyword_name_of_words_eq (words_parse_braced h)
  obtain ⟨hkeyword', hname'⟩ := keyword_name_of_words_eq d.words_parse_line
  have hmem : '\x7b' ∉ (parse d.line).tail := by
    intro hmem
    have htexts : (parse d.line).tail ∈ (parse d.line).texts := by simp [texts]
    exact hbrace ((mem_of_mem_texts_parse htexts hmem).resolve_left (by decide))
  rw [← clauses_braced_iff (endsClear_tail_parse d.line) hmem]
  unfold SameDeclaration
  rw [hname, hname', hkeyword, hkeyword', (clauses_parse _).1, (clauses_parse _).2,
    (clauses_parse d.line).1, (clauses_parse d.line).2, htail]
  simp

/-- The clauses of a declaration are closed, but for a lone parent that looks like the start of an
interface list. -/
theorem clauseOpen_tail_iff (hhead : ¬ d.head <:+: d.clauses) :
    ClauseOpen (parse d.line).tail ↔
      d.interfaces = [] ∧ ∃ p, d.parent = some p ∧ interfacesKeyword <:+ p := by
  have htail : (parse d.line).tail = joinWith [' '] (clauseWords d.parent d.interfaces) := by
    rw [d.tail_parse_of_tidy (clauseStart_clauseText d.parent_word d.interfaces) d.tidy_line hhead]
    exact trim_clauseText d.parent_word d.interface_word
  have hinterfaces := d.interface_word
  have hcomma := d.interface_comma
  rw [htail]
  cases hi : d.interfaces with
  | cons i is =>
    rw [hi] at hinterfaces hcomma
    exact iff_of_false (not_clauseOpen_of_interfaces hinterfaces hcomma) (by simp)
  | nil =>
    cases hp : d.parent with
    | none => exact absurd (d.clauses_eq_nil_iff.2 ⟨hp, hi⟩) h
    | some p =>
      rw [clauseOpen_parent_iff (d.parent_word p hp)]
      simp

end Clauses

/-- Without clauses the brace is the name, and the name the keyword. -/
theorem name_keyword_braced_of_bare (h : d.clauses = []) :
    (parse (braced d.line)).name = bodyOpenMark ∧ (parse (braced d.line)).keyword = d.name := by
  unfold Heading.name Heading.keyword
  rw [d.words_parse_braced_of_bare h]
  simp [words]

theorem not_sameDeclaration_of_bare (h : d.clauses = []) (hbrace : '\x7b' ∉ d.line) :
    ¬ SameDeclaration (parse (braced d.line)) (parse d.line) := by
  rintro ⟨hname, -⟩
  rw [(d.name_keyword_braced_of_bare h).1,
    (keyword_name_of_words_eq d.words_parse_line).2] at hname
  have hmem : '\x7b' ∈ d.name := by
    rw [← hname]
    decide
  have hword : d.name ∈ d.words := by simp [words]
  exact hbrace (List.mem_append_left _ (mem_joinWith_of_mem hword hmem))

end Parts

/-- A brace on the line of a declaration.  Without clauses it is taken for the name, and the name
for the keyword.  Behind clauses it leaves name and keyword alone, and parent and interfaces as well
unless a clause is open where it stands.  So, if the head does not come again in the clauses, the
declaration is read the same exactly when it has interfaces or a parent whose name does not end with
the keyword of the interface clause. -/
theorem parse_braced_line (d : Parts) (hbrace : '\x7b' ∉ d.line) :
    (d.clauses = [] →
      (parse (braced d.line)).name = bodyOpenMark ∧ (parse (braced d.line)).keyword = d.name) ∧
    (d.clauses ≠ [] →
      (parse (braced d.line)).name = (parse d.line).name ∧
      (parse (braced d.line)).keyword = (parse d.line).keyword ∧
      ((parse (braced d.line)).tail = braced (parse d.line).tail →
        (SameDeclaration (parse (braced d.line)) (parse d.line) ↔
          ¬ ClauseOpen (parse d.line).tail))) ∧
    (¬ d.head <:+: d.clauses →
      (SameDeclaration (parse (braced d.line)) (parse d.line) ↔
        d.interfaces ≠ [] ∨ ∃ p, d.parent = some p ∧ ¬ interfacesKeyword <:+ p)) := by
  refine ⟨d.name_keyword_braced_of_bare, ?_, ?_⟩
  · intro h
    obtain ⟨hkeyword, hname⟩ := keyword_name_of_words_eq (Parts.words_parse_braced h)
    obtain ⟨hkeyword', hname'⟩ := keyword_name_of_words_eq d.words_parse_line
    exact ⟨hname.trans hname'.symm, hkeyword.trans hkeyword'.symm,
      Parts.sameDeclaration_braced_iff h hbrace⟩
  · intro hhead
    by_cases h : d.clauses = []
    · obtain ⟨hparent, hinterfaces⟩ := d.clauses_eq_nil_iff.1 h
      exact iff_of_false (d.not_sameDeclaration_of_bare h hbrace) (by simp [hparent, hinterfaces])
    · rw [Parts.sameDeclaration_braced_iff h hbrace (Parts.tail_parse_braced h hbrace hhead),
        Parts.clauseOpen_tail_iff h hhead]
      rw [d.clauses_eq_nil_iff] at h
      cases hparent : d.parent with
      | none =>
        have hinterfaces : d.interfaces ≠ [] := fun hnil => h ⟨hparent, hnil⟩
        simp [hinterfaces]
      | some p =>
        simp [imp_iff_not_or]

/-- The brace stays out of a line with both clauses. -/
theorem parse_braced_line_polygon :
    SameDeclaration
      (parse ("abstract class Polygon extends Form implements Closed, Convex, Closed ".toList ++
        bodyOpenMark))
      (parse "abstract class Polygon extends Form implements Closed, Convex, Closed".toList) := by
  have hline : Parts.polygon.line =
      "abstract class Polygon extends Form implements Closed, Convex, Closed".toList := by
    decide +kernel
  have hbraced : braced Parts.polygon.line =
      "abstract class Polygon extends Form implements Closed, Convex, Closed ".toList ++
        bodyOpenMark := by
    decide +kernel
  have hbrace : '\x7b' ∉ Parts.polygon.line := by
    rw [hline]
    decide +kernel
  have hhead : ¬ Parts.polygon.head <:+: Parts.polygon.clauses :=
    not_infix_of_occursIn (by decide +kernel)
  obtain ⟨-, -, hsame⟩ := parse_braced_line Parts.polygon hbrace
  rw [← hbraced, ← hline]
  exact (hsame hhead).2 (Or.inl (by decide))

/-- A class with neither parent nor interfaces. -/
def Parts.foo : Parts where
  modifiers := []
  keyword := "class".toList
  name := "Foo".toList
  parent := none
  interfaces := []
  modifier_word := nofun
  keyword_word := Parts.polygon.keyword_word
  name_word := by decide
  parent_word := nofun
  interface_word := nofun
  interface_comma := nofun

/-- A brace behind a declaration without clauses is its name. -/
theorem not_all_braced_lines_same :
    ¬ ∀ d : Parts, '\x7b' ∉ d.line → ',' ∉ d.head →
      SameDeclaration (parse (braced d.line)) (parse d.line) := by
  intro h
  obtain ⟨hname, -⟩ := h Parts.foo (by decide +kernel) (by decide +kernel)
  revert hname
  decide +kernel

end Heading

end DeclSurvey
