import DeclSurvey.Proofs.Text
import DeclSurvey.Source.Heading

/-! # Reading well-formed declaration lines

A declaration line is written from words: modifiers, keyword and name, then the inheritance
clauses.  This file reads such lines back.

* `IsWord` is a word that cannot be taken for anything else on the line;
* `clauseText` writes the clauses, and `clauseWords` is the same text as words;
* `headOf_append`: the head ends where the first clause starts, whatever the clause holds;
* `parse_append_clauseText`: a whole line is read back.

Everything rests on one view: a line is words joined by single spaces, and a clause keyword with
its two spaces can only be one of these words. -/

namespace DeclSurvey

namespace Heading

/-! ### Words -/

/-- `extends`, without the space behind it. -/
def parentKeyword : Text := "extends".toList

/-- `implements`, without the space behind it. -/
def interfacesKeyword : Text := "implements".toList

/-- A word of a declaration line: no white space, semicolon or clause mark in it, and not a clause
keyword. -/
structure IsWord (w : Text) : Prop where
  /-- A word is not empty. -/
  ne_nil : w ≠ []
  /-- A word has no white space. -/
  not_blank : ∀ c ∈ w, Text.isBlank c = false
  /-- A word has no punctuation of the line. -/
  plain : ∀ c ∈ w, c ≠ ';' ∧ c ≠ clauseMark
  /-- A word is not `extends`. -/
  ne_parentKeyword : w ≠ parentKeyword
  /-- A word is not `implements`. -/
  ne_interfacesKeyword : w ≠ interfacesKeyword

/-- A character that can stand in a word. -/
def isWordChar (c : Char) : Bool :=
  !Text.isBlank c && c != ';' && c != clauseMark

theorem isWordChar_iff {c : Char} :
    isWordChar c = true ↔ Text.isBlank c = false ∧ c ≠ ';' ∧ c ≠ clauseMark := by
  simp [isWordChar, and_assoc]

theorem isWord_iff {w : Text} : IsWord w ↔
    w ≠ [] ∧ w.all isWordChar = true ∧ w ≠ parentKeyword ∧ w ≠ interfacesKeyword := by
  rw [List.all_eq_true]
  constructor
  · intro h
    refine ⟨h.ne_nil, ?_, h.ne_parentKeyword, h.ne_interfacesKeyword⟩
    intro c hc
    exact isWordChar_iff.2 ⟨h.not_blank c hc, h.plain c hc⟩
  · intro h
    obtain ⟨hne, hall, hparent, hinterfaces⟩ := h
    refine ⟨hne, ?_, ?_, hparent, hinterfaces⟩
    · intro c hc
      exact (isWordChar_iff.1 (hall c hc)).1
    · intro c hc
      exact (isWordChar_iff.1 (hall c hc)).2

instance (w : Text) : Decidable (IsWord w) :=
  decidable_of_iff _ isWord_iff.symm

theorem isBlank_space : Text.isBlank ' ' = true := by decide

/-- A text of a declaration line: what a word and an item of the interface list share. -/
structure IsItem (w : Text) : Prop where
  /-- An item is not empty. -/
  ne_nil : w ≠ []
  /-- An item has neither white space nor a semicolon. -/
  clear : ∀ c ∈ w, Text.isBlank c = false ∧ c ≠ ';'

theorem IsWord.isItem {w : Text} (h : IsWord w) : IsItem w :=
  ⟨h.ne_nil, fun c hc => ⟨h.not_blank c hc, (h.plain c hc).1⟩⟩

theorem IsItem.space_not_mem {w : Text} (h : IsItem w) : ' ' ∉ w := by
  intro hmem
  have := (h.clear ' ' hmem).1
  rw [isBlank_space] at this
  cases this

theorem IsItem.not_isPadding {w : Text} (h : IsItem w) : ∀ c ∈ w, Text.isPadding c = false := by
  intro c hc
  rw [Bool.eq_false_iff]
  intro hpad
  obtain ⟨hblank, hsemi⟩ := h.clear c hc
  rcases Text.isBlank_of_isPadding hpad with hb | hs
  · rw [hblank] at hb
    cases hb
  · exact hsemi hs

theorem isItem_of_all {w : Text} (hne : w ≠ []) (h : w.all isWordChar = true) : IsItem w := by
  refine ⟨hne, ?_⟩
  intro c hc
  obtain ⟨hblank, hsemi, -⟩ := isWordChar_iff.1 (List.all_eq_true.1 h c hc)
  exact ⟨hblank, hsemi⟩

theorem isItem_parentKeyword : IsItem parentKeyword :=
  isItem_of_all (by decide) (by decide)

theorem isItem_interfacesKeyword : IsItem interfacesKeyword :=
  isItem_of_all (by decide) (by decide)

theorem space_not_mem_parentKeyword : ' ' ∉ parentKeyword := isItem_parentKeyword.space_not_mem

theorem space_not_mem_interfacesKeyword : ' ' ∉ interfacesKeyword :=
  isItem_interfacesKeyword.space_not_mem

theorem parentWord_eq : parentWord = parentKeyword ++ [' '] := by decide

theorem interfacesWord_eq : interfacesWord = interfacesKeyword ++ [' '] := by decide

theorem spaced_ne_nil {ws : List Text} (hne : ws ≠ []) (h : ∀ w ∈ ws, IsItem w) :
    Text.joinWith [' '] ws ≠ [] := by
  obtain ⟨w, vs, rfl⟩ := List.exists_cons_of_ne_nil hne
  rw [Text.joinWith_cons_eq_append]
  exact List.append_ne_nil_of_left_ne_nil (h w (by simp)).ne_nil _

/-- Items joined by spaces are a tidy line. -/
theorem tidy_spaced {ws : List Text} (h : ∀ w ∈ ws, IsItem w) :
    tidy (Text.joinWith [' '] ws) = Text.joinWith [' '] ws := by
  have hstrip : Text.strip (Text.joinWith [' '] ws) = Text.joinWith [' '] ws :=
    Text.trimBy_of_endsClear
      (Text.endsClear_spaced fun w hw => ⟨(h w hw).ne_nil, (h w hw).not_isPadding⟩)
  unfold tidy
  rw [hstrip]
  refine Text.replaceAll_of_not_infix (by simp) ?_ _
  exact Text.not_doubled_space_infix_spaced fun w hw => ⟨(h w hw).ne_nil, (h w hw).space_not_mem⟩

theorem trim_spaced {ws : List Text} (h : ∀ w ∈ ws, IsItem w) :
    Text.trim (Text.joinWith [' '] ws) = Text.joinWith [' '] ws :=
  Text.trimBy_of_endsClear
    (Text.endsClear_spaced fun w hw => ⟨(h w hw).ne_nil, fun c hc => ((h w hw).clear c hc).1⟩)

/-! ### The head -/

/-- What can follow the head: nothing, or one of the clauses.  A parent clause does not go on with
the keyword of the other clause, as the two would share a space. -/
inductive ClauseStart : Text → Prop where
  /-- There are no clauses. -/
  | none : ClauseStart []
  /-- The interface clause comes first. -/
  | interfaces (body : Text) : ClauseStart (" implements ".toList ++ body)
  /-- The parent clause comes first. -/
  | parent {body : Text} (h : ¬ "implements ".toList <+: body) :
      ClauseStart (" extends ".toList ++ body)

theorem ClauseStart.breaks {rest : Text} (h : ClauseStart rest) {word : Text} (hword : ' ' ∉ word) :
    Text.Breaks word rest := by
  cases h with
  | none => exact Text.breaks_nil word
  | interfaces body => exact Text.breaks_cons hword _
  | parent h => exact Text.breaks_cons hword _

/-- Neither clause keyword starts in words joined by spaces, so marking passes over them. -/
theorem noStart_clause {ws : List Text} (h : ∀ w ∈ ws, IsWord w) {rest : Text} :
    (Text.Breaks parentKeyword rest →
      Text.NoStart (' ' :: parentWord) (Text.joinWith [' '] ws) rest) ∧
    (Text.Breaks interfacesKeyword rest →
      Text.NoStart (' ' :: interfacesWord) (Text.joinWith [' '] ws) rest) := by
  rw [parentWord_eq, interfacesWord_eq]
  constructor
  · intro hrest
    exact Text.noStart_spaced space_not_mem_parentKeyword
      (fun w hw => (h w hw).isItem.space_not_mem)
      (fun w hw => (h w (List.mem_of_mem_tail hw)).ne_parentKeyword) hrest
  · intro hrest
    exact Text.noStart_spaced space_not_mem_interfacesKeyword
      (fun w hw => (h w hw).isItem.space_not_mem)
      (fun w hw => (h w (List.mem_of_mem_tail hw)).ne_interfacesKeyword) hrest

/-- Marking leaves the words in front as they are, and nothing or a mark behind them. -/
theorem markClauses_append {ws : List Text} (h : ∀ w ∈ ws, IsWord w) {rest : Text}
    (hrest : ClauseStart rest) :
    ∃ marked, markClauses (Text.joinWith [' '] ws ++ rest) = Text.joinWith [' '] ws ++ marked ∧
      (marked = [] ∨ ∃ more, marked = clauseMark :: more) := by
  -- Interface keywords are marked first, parent keywords in a second round.
  have hfirst := Text.replaceAll_append
    ((noStart_clause h).2 (hrest.breaks space_not_mem_interfacesKeyword)) [clauseMark]
  have hsecond : ∀ {rest : Text}, Text.Breaks parentKeyword rest →
      Text.replaceAll (' ' :: parentWord) [clauseMark] (Text.joinWith [' '] ws ++ rest) =
        Text.joinWith [' '] ws ++ Text.replaceAll (' ' :: parentWord) [clauseMark] rest :=
    fun hbreaks => Text.replaceAll_append ((noStart_clause h).1 hbreaks) [clauseMark]
  unfold markClauses
  rw [hfirst]
  cases hrest with
  | none =>
    rw [Text.replaceAll_nil, hsecond (Text.breaks_nil parentKeyword)]
    exact ⟨[], rfl, Or.inl rfl⟩
  | interfaces body =>
    have hmark : Text.replaceAll (' ' :: interfacesWord) [clauseMark]
        (" implements ".toList ++ body) = clauseMark :: Text.replaceAll (' ' :: interfacesWord)
          [clauseMark] body :=
      Text.replaceAll_self_append (List.cons_ne_nil _ _) [clauseMark] body
    rw [hmark, hsecond (Text.breaks_cons (by decide) _)]
    -- The second round passes over the mark that the first one has set.
    refine ⟨_, rfl, Or.inr ⟨Text.replaceAll (' ' :: parentWord) [clauseMark]
      (Text.replaceAll (' ' :: interfacesWord) [clauseMark] body), ?_⟩⟩
    exact Text.replaceAll_append (a := [clauseMark]) (Text.noStart_of_not_mem (by decide) _) _
  | @parent body hbody =>
    -- The first round leaves the parent keyword as it is, since the other one does not follow it.
    have hkeep : Text.replaceAll (' ' :: interfacesWord) [clauseMark] (" extends ".toList ++ body) =
        ' ' :: parentWord ++ Text.replaceAll (' ' :: interfacesWord) [clauseMark] body := by
      refine Text.replaceAll_append (a := " extends ".toList) ?_ _
      have hsplit : " extends ".toList = [' '] ++ (parentKeyword ++ [' ']) := by decide
      rw [hsplit, Text.noStart_append, Text.noStart_append]
      refine ⟨⟨?_, trivial⟩, Text.noStart_of_not_mem space_not_mem_parentKeyword _, ?_, trivial⟩
      · intro hp
        have hp := (List.cons_prefix_cons.1 hp).2
        have hi : 'i' = 'e' := (List.cons_prefix_cons.1 hp).1
        exact absurd hi (by decide)
      · intro hp
        exact hbody (List.cons_prefix_cons.1 hp).2
    have hbreaks : Text.Breaks parentKeyword (' ' :: parentWord ++
        Text.replaceAll (' ' :: interfacesWord) [clauseMark] body) :=
      Text.breaks_cons space_not_mem_parentKeyword _
    rw [hkeep, hsecond hbreaks, Text.replaceAll_self_append (List.cons_ne_nil _ _)]
    exact ⟨_, rfl, Or.inr ⟨_, rfl⟩⟩

theorem clauseMark_not_mem_spaced {ws : List Text} (h : ∀ w ∈ ws, IsWord w) :
    clauseMark ∉ Text.joinWith [' '] ws := by
  intro hmem
  rcases Text.mem_joinWith hmem with hmem | ⟨w, hw, hmem⟩
  · exact absurd hmem (by decide)
  · exact ((h w hw).plain clauseMark hmem).2 rfl

/-- The head ends where the first clause starts. -/
theorem headOf_append {ws : List Text} (h : ∀ w ∈ ws, IsWord w) {rest : Text}
    (hrest : ClauseStart rest) :
    headOf (Text.joinWith [' '] ws ++ rest) = Text.joinWith [' '] ws := by
  obtain ⟨marked, hmarked, hstart⟩ := markClauses_append h hrest
  have hmark := clauseMark_not_mem_spaced h
  unfold headOf
  rw [hmarked]
  have hcut : Text.beforeChar clauseMark (Text.joinWith [' '] ws ++ marked) =
      Text.joinWith [' '] ws := by
    rcases hstart with rfl | ⟨more, rfl⟩
    · rw [List.append_nil, Text.beforeChar_of_not_mem hmark]
    · exact Text.beforeChar_append_cons hmark more
  rw [hcut, trim_spaced fun w hw => (h w hw).isItem]

/-! ### The clauses -/

/-- The inheritance clauses as they are written behind the head. -/
def clauseText (parent : Option Text) (interfaces : List Text) : Text :=
  (match parent with
    | none => []
    | some p => " extends ".toList ++ p) ++
  (match interfaces with
    | [] => []
    | i :: is => " implements ".toList ++ Text.joinWith ", ".toList (i :: is))

/-- The items of an interface list: each but the last with its comma. -/
def items : List Text → List Text
  | [] => []
  | [i] => [i]
  | i :: j :: is => (i ++ [',']) :: items (j :: is)

/-- The words of the parent clause. -/
def parentWords : Option Text → List Text
  | none => []
  | some p => [parentKeyword, p]

/-- The words of the interface clause. -/
def interfaceWords : List Text → List Text
  | [] => []
  | i :: is => interfacesKeyword :: items (i :: is)

/-- The words of the clauses. -/
def clauseWords (parent : Option Text) (interfaces : List Text) : List Text :=
  parentWords parent ++ interfaceWords interfaces

theorem items_ne_nil {is : List Text} (h : is ≠ []) : items is ≠ [] := by
  match is with
  | [] => exact absurd rfl h
  | [i] => simp [items]
  | i :: j :: is => simp [items]

theorem joinWith_items (is : List Text) :
    Text.joinWith [' '] (items is) = Text.joinWith ", ".toList is := by
  match is with
  | [] => rfl
  | [i] => rfl
  | i :: j :: is =>
    have ih := joinWith_items (j :: is)
    rw [items, Text.joinWith_cons (items_ne_nil (List.cons_ne_nil j is)), ih,
      Text.joinWith_cons (List.cons_ne_nil j is)]
    show i ++ [','] ++ [' '] ++ _ = i ++ [',', ' '] ++ _
    simp

/-- An item is a word, or a word with its comma, which is no keyword. -/
theorem mem_items {is : List Text} (h : ∀ i ∈ is, IsWord i) :
    ∀ w ∈ items is, IsItem w ∧ w ≠ parentKeyword ∧ w ≠ interfacesKeyword := by
  match is with
  | [] => simp [items]
  | [i] =>
    have hi := h i (by simp)
    intro w hw
    rw [items, List.mem_singleton] at hw
    subst hw
    exact ⟨hi.isItem, hi.ne_parentKeyword, hi.ne_interfacesKeyword⟩
  | i :: j :: is =>
    have hi := (h i (by simp)).isItem
    have ih := mem_items fun k (hk : k ∈ j :: is) => h k (List.mem_cons_of_mem i hk)
    intro w hw
    rw [items, List.mem_cons] at hw
    rcases hw with rfl | hw
    · have hcomma : ',' ∈ i ++ [','] := by simp
      refine ⟨⟨by simp, ?_⟩, ?_, ?_⟩
      · intro c hc
        rcases List.mem_append.1 hc with hc | hc
        · exact hi.clear c hc
        · rw [List.mem_singleton.1 hc]
          decide
      · intro heq
        rw [heq] at hcomma
        exact absurd hcomma (by decide)
      · intro heq
        rw [heq] at hcomma
        exact absurd hcomma (by decide)
    · exact ih w hw

/-- Every item but the last ends with its comma. -/
theorem not_suffix_items {word : Text} (hword : word.getLast? ≠ some ',') (hne : word ≠ [])
    (is : List Text) : ∀ w ∈ (items is).dropLast, ¬ word <:+ w := by
  match is with
  | [] => simp [items]
  | [i] => simp [items]
  | i :: j :: is =>
    have ih := not_suffix_items hword hne (j :: is)
    intro w hw
    rw [items, List.dropLast_cons_of_ne_nil (items_ne_nil (List.cons_ne_nil j is)),
      List.mem_cons] at hw
    rcases hw with rfl | hw
    · intro hsuffix
      obtain ⟨front, hfront⟩ := hsuffix
      have hlast : (front ++ word).getLast? = some ',' := by rw [hfront]; simp
      rw [List.getLast?_append, List.getLast?_eq_some_getLast hne] at hlast
      have hcomma : word.getLast? = some ',' := by
        rw [List.getLast?_eq_some_getLast hne]
        exact hlast
      exact hword hcomma
    · exact ih w hw

theorem interfaceWords_ne_nil (i : Text) (is : List Text) : interfaceWords (i :: is) ≠ [] := by
  simp [interfaceWords]

theorem interfaceWords_cons (i : Text) (is : List Text) :
    ' ' :: Text.joinWith [' '] (interfaceWords (i :: is)) =
      " implements ".toList ++ Text.joinWith ", ".toList (i :: is) := by
  rw [interfaceWords, Text.joinWith_cons (items_ne_nil (List.cons_ne_nil i is)), joinWith_items]
  rfl

/-- The clauses are words joined by spaces, with a space in front of each. -/
theorem clauseText_eq (parent : Option Text) (interfaces : List Text) :
    clauseText parent interfaces =
      if clauseWords parent interfaces = [] then []
      else ' ' :: Text.joinWith [' '] (clauseWords parent interfaces) := by
  cases parent with
  | none =>
    cases interfaces with
    | nil => rfl
    | cons i is => exact (interfaceWords_cons i is).symm
  | some p =>
    cases interfaces with
    | nil =>
      show " extends ".toList ++ p ++ [] = ' ' :: (parentKeyword ++ [' '] ++ p)
      rw [List.append_nil]
      rfl
    | cons i is =>
      have hjoin : Text.joinWith [' '] (clauseWords (some p) (i :: is)) =
          parentKeyword ++ [' '] ++ p ++
            (' ' :: Text.joinWith [' '] (interfaceWords (i :: is))) := by
        show Text.joinWith [' '] ([parentKeyword, p] ++ interfaceWords (i :: is)) = _
        rw [Text.joinWith_append (by simp) (interfaceWords_ne_nil i is), List.append_assoc,
          List.singleton_append]
        rfl
      rw [if_neg (by simp [clauseWords, parentWords]), hjoin, interfaceWords_cons]
      rfl

/-- The clauses can follow the head, and so can clauses with more words behind them. -/
theorem clauseStart_append {parent : Option Text} (hparent : ∀ p ∈ parent, IsWord p)
    {interfaces : List Text} {rest : Text} (hrest : Text.Breaks interfacesKeyword rest)
    (hne : clauseText parent interfaces = [] → rest = []) :
    ClauseStart (clauseText parent interfaces ++ rest) := by
  cases parent with
  | none =>
    cases interfaces with
    | nil =>
      rw [hne rfl]
      exact ClauseStart.none
    | cons i is =>
      unfold clauseText
      rw [List.nil_append, List.append_assoc]
      exact ClauseStart.interfaces _
  | some p =>
    have hp := hparent p rfl
    have hbody : ∀ {rest : Text}, Text.Breaks interfacesKeyword rest →
        ¬ "implements ".toList <+: p ++ rest := by
      intro rest hrest hpre
      exact hp.ne_interfacesKeyword
        (Text.eq_of_prefix_append_space hp.isItem.space_not_mem hrest hpre)
    unfold clauseText
    rw [List.append_assoc, List.append_assoc]
    cases interfaces with
    | nil => exact ClauseStart.parent (hbody hrest)
    | cons i is =>
      exact ClauseStart.parent (hbody (Text.breaks_cons space_not_mem_interfacesKeyword _))

theorem clauseStart_clauseText {parent : Option Text} (hparent : ∀ p ∈ parent, IsWord p)
    (interfaces : List Text) : ClauseStart (clauseText parent interfaces) := by
  have h : ClauseStart (clauseText parent interfaces ++ []) :=
    clauseStart_append hparent (Text.breaks_nil interfacesKeyword) fun _ => rfl
  rwa [List.append_nil] at h

theorem isItem_clauseWords {parent : Option Text} (hparent : ∀ p ∈ parent, IsWord p)
    {interfaces : List Text} (hinterfaces : ∀ i ∈ interfaces, IsWord i) :
    ∀ w ∈ clauseWords parent interfaces, IsItem w := by
  intro w hw
  rcases List.mem_append.1 hw with hw | hw
  · cases parent with
    | none => cases hw
    | some p =>
      rcases List.mem_pair.1 hw with rfl | rfl
      · exact isItem_parentKeyword
      · exact (hparent w rfl).isItem
  · cases interfaces with
    | nil => cases hw
    | cons i is =>
      rcases List.mem_cons.1 hw with rfl | hw
      · exact isItem_interfacesKeyword
      · exact (mem_items hinterfaces w hw).1

/-- A keyword that no later word repeats is the last one of its kind. -/
theorem afterLast_keyword {keyword : Text} (hkeyword : ' ' ∉ keyword) (front : Text)
    {vs : List Text} (hne : vs ≠ []) (h : ∀ w ∈ vs, IsItem w ∧ w ≠ keyword) :
    Text.afterLast (' ' :: (keyword ++ [' ']))
      (front ++ ' ' :: (keyword ++ [' ']) ++ Text.joinWith [' '] vs) = Text.joinWith [' '] vs := by
  refine Text.afterLast_append front ?_
  -- The keyword itself is the first of the words that are searched, so it is not counted.
  rw [← Text.joinWith_cons hne, ← Text.noStart_nil_iff (List.cons_ne_nil _ _)]
  refine Text.noStart_spaced hkeyword ?_ ?_ (Text.breaks_nil keyword)
  · intro w hw
    rcases List.mem_cons.1 hw with rfl | hw
    · exact hkeyword
    · exact (h w hw).1.space_not_mem
  · intro w hw
    exact (h w hw).2

/-- The parent clause is read where it stands. -/
theorem parentOf_cons_cons {p : Text} {vs : List Text}
    (h : ∀ w ∈ p :: vs, IsItem w ∧ w ≠ parentKeyword) :
    parentOf (Text.joinWith [' '] (parentKeyword :: p :: vs)) = p := by
  have hjoin : Text.joinWith [' '] (parentKeyword :: p :: vs) =
      parentWord ++ Text.joinWith [' '] (p :: vs) := by
    rw [Text.joinWith_cons (List.cons_ne_nil p vs), parentWord_eq]
  have hocc : Text.occursIn parentWord (Text.joinWith [' '] (parentKeyword :: p :: vs)) = true := by
    rw [Text.occursIn_iff, hjoin]
    exact (List.prefix_append _ _).isInfix
  have hbody : clauseBody parentWord (Text.joinWith [' '] (parentKeyword :: p :: vs)) =
      Text.joinWith [' '] (p :: vs) := by
    unfold clauseBody
    rw [hjoin, parentWord_eq]
    exact afterLast_keyword space_not_mem_parentKeyword [] (List.cons_ne_nil p vs) h
  have hp : ' ' ∉ p := (h p (by simp)).1.space_not_mem
  unfold parentOf
  rw [if_pos hocc, hbody, Text.joinWith_cons_eq_append]
  split
  · rw [List.append_nil, Text.beforeChar_of_not_mem hp]
  · exact Text.beforeChar_append_cons hp _

theorem parentOf_eq_nil {ws : List Text} (hws : ∀ w ∈ ws, IsItem w)
    (h : ∀ w ∈ ws.dropLast, ¬ parentKeyword <:+ w) : parentOf (Text.joinWith [' '] ws) = [] := by
  have hocc : ¬ Text.occursIn parentWord (Text.joinWith [' '] ws) = true := by
    rw [Text.occursIn_iff, parentWord_eq]
    exact Text.not_infix_spaced (by decide) space_not_mem_parentKeyword
      (fun w hw => (hws w hw).space_not_mem) h
  unfold parentOf
  rw [if_neg hocc]

theorem interfacesOf_eq_nil {ws : List Text} (hws : ∀ w ∈ ws, IsItem w)
    (h : ∀ w ∈ ws.dropLast, ¬ interfacesKeyword <:+ w) :
    interfacesOf (Text.joinWith [' '] ws) = [] := by
  have hocc : ¬ Text.occursIn interfacesWord (Text.joinWith [' '] ws) = true := by
    rw [Text.occursIn_iff, interfacesWord_eq]
    exact Text.not_infix_spaced (by decide) space_not_mem_interfacesKeyword
      (fun w hw => (hws w hw).space_not_mem) h
  unfold interfacesOf
  rw [if_neg hocc]

/-- An item of the list is its name, with or without the space in front of it. -/
theorem interfaceName_word {i : Text} (h : IsWord i) :
    interfaceName i = i ∧ interfaceName (' ' :: i) = i := by
  have hends : Text.EndsClear Text.isBlank (Text.joinWith [' '] [i]) :=
    Text.endsClear_spaced (by simpa using ⟨h.ne_nil, h.not_blank⟩)
  have htrim : Text.trim i = i := Text.trimBy_of_endsClear hends
  have htrim' : Text.trim (' ' :: i) = i := by
    have := Text.trimBy_append_append hends [' '] [] (by simp [isBlank_space]) (by simp)
    rwa [List.append_nil] at this
  have hcut : Text.beforeChar ' ' i = i := Text.beforeChar_of_not_mem h.isItem.space_not_mem
  unfold interfaceName
  rw [htrim', htrim, hcut, htrim]
  exact ⟨rfl, rfl⟩

/-- The interface clause is its keyword and its items, and the keyword has a space before it once
there is one in front of everything. -/
theorem exists_joinWith_interfaceWords (us : List Text) (i : Text) (is : List Text) :
    ∃ front lead : Text,
      Text.joinWith [' '] (us ++ interfaceWords (i :: is)) =
        front ++ interfacesWord ++ Text.joinWith [' '] (items (i :: is)) ∧
      ' ' :: front = lead ++ [' '] := by
  have hclause : Text.joinWith [' '] (interfaceWords (i :: is)) =
      interfacesWord ++ Text.joinWith [' '] (items (i :: is)) := by
    rw [interfaceWords, Text.joinWith_cons (items_ne_nil (List.cons_ne_nil i is)),
      interfacesWord_eq]
  by_cases hus : us = []
  · refine ⟨[], [], ?_, rfl⟩
    rw [hus]
    exact hclause
  · refine ⟨Text.joinWith [' '] us ++ [' '], ' ' :: Text.joinWith [' '] us, ?_, rfl⟩
    rw [Text.joinWith_append hus (interfaceWords_ne_nil i is), hclause, ← List.append_assoc]

/-- The interface clause is read where it stands, whatever is before it. -/
theorem interfacesOf_append {us : List Text} {i : Text} {is : List Text}
    (h : ∀ j ∈ i :: is, IsWord j) (hcomma : ∀ j ∈ i :: is, ',' ∉ j) :
    interfacesOf (Text.joinWith [' '] (us ++ interfaceWords (i :: is))) = i :: is := by
  have hne : items (i :: is) ≠ [] := items_ne_nil (List.cons_ne_nil i is)
  obtain ⟨front, lead, hfront, hlead⟩ := exists_joinWith_interfaceWords us i is
  have hocc : Text.occursIn interfacesWord
      (Text.joinWith [' '] (us ++ interfaceWords (i :: is))) = true := by
    rw [Text.occursIn_iff, hfront]
    exact ⟨front, _, rfl⟩
  have hbody : clauseBody interfacesWord (Text.joinWith [' '] (us ++ interfaceWords (i :: is))) =
      Text.joinWith ", ".toList (i :: is) := by
    unfold clauseBody
    rw [hfront, ← List.cons_append, ← List.cons_append, hlead, ← joinWith_items,
      List.append_assoc lead, List.singleton_append, interfacesWord_eq]
    exact afterLast_keyword space_not_mem_interfacesKeyword lead hne
      fun w hw => ⟨(mem_items h w hw).1, (mem_items h w hw).2.2⟩
  have his : ∀ j ∈ is, IsWord j := fun j hj => h j (by simp [hj])
  have hmap : (is.map (' ' :: ·)).map interfaceName = is := by
    rw [List.map_map]
    calc is.map (interfaceName ∘ (' ' :: ·)) = is.map id :=
          List.map_congr_left fun j hj => (interfaceName_word (his j hj)).2
      _ = is := List.map_id is
  unfold interfacesOf
  rw [if_pos hocc, hbody, Text.splitChar_joinWith_comma hcomma, List.map_cons, hmap,
    (interfaceName_word (h i (by simp))).1]

/-! ### The whole line -/

theorem tailOf_append {head rest : Text} (hne : head ≠ []) (h : ¬ head <:+: rest) :
    tailOf head (head ++ rest) = Text.trim rest := by
  unfold tailOf Text.removeAll
  rw [Text.replaceAll_self_append hne, List.nil_append, Text.replaceAll_of_not_infix hne h]

theorem trim_clauseText {parent : Option Text} (hparent : ∀ p ∈ parent, IsWord p)
    {interfaces : List Text} (hinterfaces : ∀ i ∈ interfaces, IsWord i) :
    Text.trim (clauseText parent interfaces) =
      Text.joinWith [' '] (clauseWords parent interfaces) := by
  have hitems := isItem_clauseWords hparent hinterfaces
  rw [clauseText_eq]
  split
  · next h => rw [h]; rfl
  · have hends := Text.endsClear_spaced (p := Text.isBlank) fun w hw =>
      ⟨(hitems w hw).ne_nil, fun c hc => ((hitems w hw).clear c hc).1⟩
    have := Text.trimBy_append_append hends [' '] [] (by simp [isBlank_space]) (by simp)
    rwa [List.append_nil] at this

theorem parentOf_clauseWords {parent : Option Text} (hparent : ∀ p ∈ parent, IsWord p)
    {interfaces : List Text} (hinterfaces : ∀ i ∈ interfaces, IsWord i) :
    parentOf (Text.joinWith [' '] (clauseWords parent interfaces)) = parent.getD [] := by
  have hitems := isItem_clauseWords hparent hinterfaces
  cases parent with
  | none =>
    -- No word that is followed by another one ends with the keyword.
    refine parentOf_eq_nil hitems ?_
    cases interfaces with
    | nil => simp [clauseWords, parentWords, interfaceWords]
    | cons i is =>
      intro w hw
      have hne : items (i :: is) ≠ [] := items_ne_nil (List.cons_ne_nil i is)
      change w ∈ (interfacesKeyword :: items (i :: is)).dropLast at hw
      rw [List.dropLast_cons_of_ne_nil hne, List.mem_cons] at hw
      rcases hw with rfl | hw
      · decide
      · exact not_suffix_items (by decide) (by decide) _ w hw
  | some p =>
    -- The keyword does not come back behind the parent.
    refine parentOf_cons_cons ?_
    intro w hw
    refine ⟨hitems w (List.mem_cons_of_mem _ hw), ?_⟩
    rcases List.mem_cons.1 hw with rfl | hw
    · exact (hparent w rfl).ne_parentKeyword
    · cases interfaces with
      | nil => cases hw
      | cons i is =>
        rcases List.mem_cons.1 hw with rfl | hw
        · decide
        · exact (mem_items hinterfaces w hw).2.1

theorem interfacesOf_clauseWords {parent : Option Text} (hparent : ∀ p ∈ parent, IsWord p)
    {interfaces : List Text} (hinterfaces : ∀ i ∈ interfaces, IsWord i)
    (hcomma : ∀ i ∈ interfaces, ',' ∉ i) :
    interfacesOf (Text.joinWith [' '] (clauseWords parent interfaces)) = interfaces := by
  cases interfaces with
  | nil =>
    refine interfacesOf_eq_nil (isItem_clauseWords hparent hinterfaces) ?_
    cases parent with
    | none => simp [clauseWords, parentWords, interfaceWords]
    | some p =>
      intro w hw
      rw [List.mem_singleton.1 hw]
      decide
  | cons i is => exact interfacesOf_append hinterfaces hcomma

/-- A declaration line is words joined by spaces. -/
theorem append_clauseText {ws : List Text} (hne : ws ≠ []) (parent : Option Text)
    (interfaces : List Text) :
    Text.joinWith [' '] ws ++ clauseText parent interfaces =
      Text.joinWith [' '] (ws ++ clauseWords parent interfaces) := by
  rw [clauseText_eq]
  split
  · next h => rw [h, List.append_nil, List.append_nil]
  · next h => rw [Text.joinWith_append hne h, List.append_assoc]; rfl

theorem isItem_append_clauseWords {ws : List Text} (hws : ∀ w ∈ ws, IsWord w)
    {parent : Option Text} (hparent : ∀ p ∈ parent, IsWord p)
    {interfaces : List Text} (hinterfaces : ∀ i ∈ interfaces, IsWord i) :
    ∀ w ∈ ws ++ clauseWords parent interfaces, IsItem w := by
  intro w hw
  rcases List.mem_append.1 hw with hw | hw
  · exact (hws w hw).isItem
  · exact isItem_clauseWords hparent hinterfaces w hw

/-- A declaration line written from words is read back, as long as its head does not occur again
in the clauses. -/
theorem parse_append_clauseText {ws : List Text} (hne : ws ≠ []) (hws : ∀ w ∈ ws, IsWord w)
    {parent : Option Text} (hparent : ∀ p ∈ parent, IsWord p)
    {interfaces : List Text} (hinterfaces : ∀ i ∈ interfaces, IsWord i)
    (hcomma : ∀ i ∈ interfaces, ',' ∉ i)
    (hhead : ¬ Text.joinWith [' '] ws <:+: clauseText parent interfaces) :
    parse (Text.joinWith [' '] ws ++ clauseText parent interfaces) =
      { head := Text.joinWith [' '] ws
        tail := Text.joinWith [' '] (clauseWords parent interfaces)
        words := ws
        parent := parent.getD []
        interfaces := interfaces } := by
  have hheadNe : Text.joinWith [' '] ws ≠ [] := by
    intro hnil
    rw [hnil] at hhead
    exact hhead List.nil_infix
  have htidy : tidy (Text.joinWith [' '] ws ++ clauseText parent interfaces) =
      Text.joinWith [' '] ws ++ clauseText parent interfaces := by
    rw [append_clauseText hne]
    exact tidy_spaced (isItem_append_clauseWords hws hparent hinterfaces)
  have hsplit : Text.splitChar ' ' (Text.joinWith [' '] ws) = ws :=
    Text.splitChar_joinWith hne fun w hw => (hws w hw).isItem.space_not_mem
  unfold parse
  simp only [htidy, headOf_append hws (clauseStart_clauseText hparent interfaces)]
  rw [if_neg (by simpa using hheadNe), tailOf_append hheadNe hhead,
    trim_clauseText hparent hinterfaces, parentOf_clauseWords hparent hinterfaces,
    interfacesOf_clauseWords hparent hinterfaces hcomma, hsplit]

end Heading

end DeclSurvey
