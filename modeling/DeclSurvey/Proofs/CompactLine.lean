import DeclSurvey.Proofs.Framing

/-! # What a compact line tells

A compact line shows the tally of an atypical file, and head and qualified name of a typical one.
Head and name are free text, but a qualified name starts with a backslash, and there is none in a
tally; so the line tells which of the two it shows, and the tally can be read off it.

* `Tally.item_injective`: an item of the shown tally tells its keyword and its count;
* `Tally.itemsText_injective`: the shown tally tells its items;
* `Tally.backslash_not_mem_itemsText`: the shown tally holds no backslash;
* `Facts.isAtypical_eq_of_compactLine_eq`, `Facts.tally_eq_of_compactLine_eq`: what equal lines have
  in common. -/

namespace DeclSurvey

/-! ### The shown tally -/

namespace Tally

/-- A keyword with its count, as it is shown. -/
def item (e : Signature × Nat) : Text :=
  e.1.keyword ++ '=' :: Text.ofNat e.2

theorem itemsText_eq (tally : Tally) :
    tally.itemsText = Text.joinWith ", ".toList (tally.map item) :=
  rfl

theorem isAlpha_of_mem_keyword (s : Signature) : ∀ c ∈ s.keyword, c.isAlpha = true := by
  rw [← List.all_eq_true]
  cases s <;> decide

/-- An item is made of letters, digits and an equals sign. -/
theorem not_mem_item {c : Char} (hletter : c.isAlpha = false) (hdigit : c.isDigit = false)
    (hequals : c ≠ '=') (e : Signature × Nat) : c ∉ item e := by
  have hkeyword : c ∉ e.1.keyword :=
    Text.not_mem_of_class hletter (isAlpha_of_mem_keyword e.1)
  have hcount : c ∉ Text.ofNat e.2 := Text.not_mem_ofNat hdigit e.2
  unfold item
  rw [List.mem_append, List.mem_cons]
  rintro (h | h | h)
  · exact hkeyword h
  · exact hequals h
  · exact hcount h

theorem item_injective : Function.Injective item := by
  rintro ⟨s, m⟩ ⟨r, n⟩ h
  -- The first equals sign ends the keyword.
  have hequals : ∀ q : Signature, '=' ∉ q.keyword := fun q =>
    Text.not_mem_of_class (by decide) (isAlpha_of_mem_keyword q)
  obtain ⟨hkeyword, hcount⟩ := Text.append_cons_injective (hequals s) (hequals r) h
  have hs : s = r := Signature.keyword_injective hkeyword
  have hn : m = n := Text.ofNat_injective hcount
  rw [hs, hn]

/-- A tally is told by the text that shows it. -/
theorem itemsText_injective {t u : Tally} (h : t.itemsText = u.itemsText) : t = u := by
  have hitems : ∀ v : Tally, ∀ w ∈ v.map item, w ≠ [] ∧ ',' ∉ w := by
    intro v w hw
    obtain ⟨e, -, rfl⟩ := List.mem_map.1 hw
    exact ⟨by simp [item], not_mem_item (by decide) (by decide) (by decide) e⟩
  rw [itemsText_eq, itemsText_eq] at h
  exact List.map_injective_iff.2 item_injective
    (Text.joinWith_comma_injective (hitems t) (hitems u) h)

theorem backslash_not_mem_itemsText (tally : Tally) : '\\' ∉ tally.itemsText := by
  rw [itemsText_eq]
  intro h
  rcases Text.mem_joinWith h with hsep | ⟨w, hw, hmem⟩
  · exact absurd hsep (by decide)
  · obtain ⟨e, -, rfl⟩ := List.mem_map.1 hw
    exact not_mem_item (by decide) (by decide) (by decide) e hmem

end Tally

/-! ### Compact lines -/

namespace Facts
variable {f g : Facts} {path : Text}

theorem compactLine_of_atypical (h : f.isAtypical = true) :
    f.compactLine path = path ++ (": atypical (".toList ++ f.tally.itemsText ++ [')']) := by
  unfold compactLine
  rw [if_pos h]
  simp only [List.append_assoc]

theorem compactLine_of_typical (h : f.isAtypical = false) :
    f.compactLine path = path ++ (": ".toList ++ f.fullName ++ ' ' :: f.qualifiedName) := by
  unfold compactLine
  rw [if_neg (by simp [h])]
  simp only [List.append_assoc]

/-- The line of an atypical file is not that of a typical one, whatever head and namespace the
latter has: behind the path, only the typical line has a backslash. -/
theorem compactLine_ne (hf : f.isAtypical = true) (hg : g.isAtypical = false) :
    f.compactLine path ≠ g.compactLine path := by
  rw [compactLine_of_atypical hf, compactLine_of_typical hg]
  intro h
  have hbehind := List.append_cancel_left h
  have hmem : '\\' ∈ ": ".toList ++ g.fullName ++ ' ' :: g.qualifiedName := by
    simp [qualifiedName]
  rw [← hbehind, List.mem_append, List.mem_append] at hmem
  rcases hmem with (hmem | hmem) | hmem
  · exact absurd hmem (by decide)
  · exact Tally.backslash_not_mem_itemsText f.tally hmem
  · exact absurd hmem (by decide)

theorem isAtypical_eq_of_compactLine_eq (h : f.compactLine path = g.compactLine path) :
    f.isAtypical = g.isAtypical := by
  cases hf : f.isAtypical <;> cases hg : g.isAtypical
  · rfl
  · exact absurd h.symm (compactLine_ne hg hf)
  · exact absurd h (compactLine_ne hf hg)
  · rfl

theorem tally_eq_of_compactLine_eq (hf : f.isAtypical = true)
    (h : f.compactLine path = g.compactLine path) : f.tally = g.tally := by
  have hg : g.isAtypical = true := by rw [← isAtypical_eq_of_compactLine_eq h, hf]
  rw [compactLine_of_atypical hf, compactLine_of_atypical hg] at h
  -- Path, opening words and closing parenthesis are the same, which leaves the items.
  have hbehind := List.append_cancel_right (List.append_cancel_left h)
  exact Tally.itemsText_injective (List.append_cancel_left hbehind)

/-- The compact line of an atypical file shows the keyword of each signature that opens a line of
it, once and in ascending order, with the number of these lines.  Files that are listed on the same
line are both typical or both atypical, and in the latter case have the same tally. -/
theorem compactLine_unambiguous (path source : Text) :
    ((ofSource source).isAtypical = true →
      (ofSource source).compactLine path =
        path ++ ": atypical (".toList ++
          Text.joinWith ", ".toList
            ((ofSource source).tally.map fun e => e.1.keyword ++ '=' :: Text.ofNat e.2) ++
          [')']) ∧
    ((ofSource source).tally.map (·.1.keyword)).Pairwise (· < ·) ∧
    (∀ s n, (s, n) ∈ (ofSource source).tally ↔ n = Tally.openingLines s source ∧ 0 < n) ∧
    ∀ other : Text,
      (ofSource source).compactLine path = (ofSource other).compactLine path →
      (ofSource source).isAtypical = (ofSource other).isAtypical ∧
      ((ofSource source).isAtypical = true →
        (ofSource source).tally = (ofSource other).tally) := by
  have hordered := ordered_tally source
  refine ⟨?_, ?_, ?_, ?_⟩
  · intro h
    unfold compactLine
    rw [if_pos h]
    rfl
  · rw [List.pairwise_map]
    exact hordered.ascending.imp fun h => (Signature.rank_lt_rank_iff _ _).1 h
  · intro s n
    rw [Tally.mem_iff_count hordered]
    show Tally.count s (Tally.ofLines (classify source)) = n ∧ 0 < n ↔ _
    rw [Tally.count_ofLines, Tally.countP_opens_classify]
    exact and_congr_left fun _ => eq_comm
  · intro other h
    exact ⟨isAtypical_eq_of_compactLine_eq h, fun hf => tally_eq_of_compactLine_eq hf h⟩

/-- A class and an enumeration in either order are listed on the same line, so their files have the
same tally.  A typical file can imitate that line in its head, and is still told from them. -/
theorem compactLine_unambiguous_imitated :
    (ofSource "class A\n\x7b\n\x7d\nenum B\n".toList).tally =
      (ofSource "enum B\nclass A\n".toList).tally ∧
    (ofSource " class A\natypical (class=1, enum=1)\n".toList).fullName =
      "atypical (class=1, enum=1)".toList ∧
    (ofSource "enum B\nclass A\n".toList).compactLine "A.php".toList ≠
      (ofSource " class A\natypical (class=1, enum=1)\n".toList).compactLine "A.php".toList := by
  obtain ⟨-, -, -, hclass⟩ :=
    compactLine_unambiguous "A.php".toList "class A\n\x7b\n\x7d\nenum B\n".toList
  obtain ⟨-, -, -, henum⟩ := compactLine_unambiguous "A.php".toList "enum B\nclass A\n".toList
  refine ⟨(hclass _ (by decide +kernel)).2 (by decide +kernel), by decide +kernel, ?_⟩
  intro h
  have hverdict := (henum _ h).1
  revert hverdict
  decide +kernel

end Facts

end DeclSurvey
