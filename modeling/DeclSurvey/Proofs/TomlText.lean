import DeclSurvey.Toml.Document
import DeclSurvey.Proofs.Text
import Mathlib.Data.List.Nodup

/-! # Written TOML is read back

A document with one table, written line by line, and what the reader makes of it.

* **Strings**: `Quoted.written` puts any text between quotes, and `Quoted.string_written` reads it
  back whatever follows.
* **Values**: `Literal` is a value with the way in which it is written; `Document.value_text` reads
  one back.
* **Lines**: `Document.line_margin` and `Document.line_entry` say what one line does, and
  `Document.linesFrom_rows` what all lines of a table do, by induction.
* **Documents**: `Section.parse?_text` says that a table is read back exactly if no key is in it
  twice, and `Document.parse?_open_header` that a header must be closed on its line. -/

namespace DeclSurvey

namespace Toml

/-! ### Strings -/

namespace Quoted

/-- A character as it is written between quotes. -/
def escaped (c : Char) : Text :=
  if c = '"' ∨ c = '\\' then ['\\', c]
  else if isPlain c then [c]
  else ['\\', 'u', '0', '0', Nat.digitChar (c.toNat / 16), Nat.digitChar (c.toNat % 16)]

/-- A text between quotes. -/
def written (t : Text) : Text :=
  '"' :: (t.flatMap escaped ++ ['"'])

theorem written_ne_nil (t : Text) : written t ≠ [] :=
  List.cons_ne_nil _ _

/-- Two digits are enough for the characters that have to be written by their number. -/
theorem charOf?_digits : ∀ n < 128,
    charOf? ['0', '0', Nat.digitChar (n / 16), Nat.digitChar (n % 16)] = some (Char.ofNat n) := by
  decide +kernel

theorem toNat_lt_of_not_isPlain {c : Char} (h : isPlain c = false) : c.toNat < 128 := by
  simp only [isPlain, Bool.or_eq_false_iff, Bool.and_eq_false_iff, decide_eq_false_iff_not,
    bne_eq_false_iff_eq] at h
  omega

/-- A written character is read as that character, whatever follows. -/
theorem basic_escaped (c : Char) (rest : Text) :
    basic (escaped c ++ rest) = push c (basic rest) := by
  unfold escaped
  split
  · next h =>
    rcases h with rfl | rfl
    · simp [basic, escape?]
    · simp [basic, escape?]
  · next h =>
    rw [not_or] at h
    split
    · next hplain => simp [basic, h.1, h.2, hplain]
    · next hplain =>
      have hchar := charOf?_digits c.toNat (toNat_lt_of_not_isPlain (by simpa using hplain))
      rw [Char.ofNat_toNat] at hchar
      simp [basic, hchar]

theorem basic_flatMap_escaped (t rest : Text) :
    basic (t.flatMap escaped ++ '"' :: rest) = some (t, rest) := by
  induction t with
  | nil => rfl
  | cons c t ih =>
    rw [List.flatMap_cons, List.append_assoc, basic_escaped, ih]
    rfl

/-- No written character starts with a quote. -/
theorem exists_escaped_eq (c : Char) : ∃ d u, escaped c = d :: u ∧ d ≠ '"' := by
  unfold escaped
  split
  · exact ⟨_, _, rfl, by decide⟩
  · next h =>
    split
    · exact ⟨_, _, rfl, fun hc => h (Or.inl hc)⟩
    · exact ⟨_, _, rfl, by decide⟩

/-- A written text is read back, unless a third quote follows the two of an empty one. -/
theorem string_written (t : Text) {rest : Text} (h : rest.head? ≠ some '"') :
    string (written t ++ rest) = some (t, rest) := by
  have hbasic : singleLine (written t ++ rest) = some (t, rest) := by
    unfold written
    rw [List.cons_append, List.append_assoc]
    exact basic_flatMap_escaped t rest
  rw [← hbasic]
  unfold string
  -- Three quotes would start a string of several lines: the second one could only be the closing
  -- quote of an empty text, and the third one belong to the rest.
  split
  · next u hquotes =>
    exfalso
    cases t with
    | nil =>
      have hrest : rest = '"' :: u := by simpa [written] using hquotes
      exact h (by rw [hrest]; rfl)
    | cons c t =>
      obtain ⟨d, v, hescaped, hd⟩ := exists_escaped_eq c
      apply hd
      simp only [written, List.flatMap_cons, hescaped, List.cons_append, List.cons.injEq] at hquotes
      exact hquotes.2.1
  · next u hquotes => exact absurd hquotes (by simp [written])
  · rfl

end Quoted

/-! ### Values -/

/-- A value in the way in which it is written. -/
inductive Literal where
  /-- A string in quotes. -/
  | string (t : Text)
  /-- A truth value. -/
  | boolean (b : Bool)
  /-- A list of strings on one line. -/
  | list (ts : List Text)
  /-- A list of strings, each on a line of its own. -/
  | column (ts : List Text)
  deriving DecidableEq, Repr

namespace Literal

/-- The value. -/
def item : Literal → Item
  | string t => .string t
  | boolean b => .boolean b
  | list ts | column ts => .array (ts.map .string)

/-- A string of a list on a line of its own, with the line end in front of it. -/
def columnLine (t : Text) : Text :=
  "\n    ".toList ++ Quoted.written t ++ [',']

/-- How it is written. -/
def text : Literal → Text
  | string t => Quoted.written t
  | boolean true => "true".toList
  | boolean false => "false".toList
  | list ts => '[' :: (Text.joinWith ", ".toList (ts.map Quoted.written) ++ [']'])
  | column ts => '[' :: (ts.flatMap columnLine ++ "\n]".toList)

end Literal

namespace Document

/-! ### Blanks -/

/-- A character at which blanks and empty lines end. -/
def isSolid (c : Char) : Bool :=
  c != ' ' && c != '\t' && c != '\n' && c != '\r' && c != '#'

theorem skipBlanks_solid {c : Char} (h : isSolid c = true) (t : Text) :
    skipBlanks (c :: t) = c :: t := by
  simp only [isSolid, Bool.and_eq_true, bne_iff_ne] at h
  exact List.dropWhile_cons_of_neg (by simp [h])

theorem skipLinesFrom_solid {c : Char} (h : isSolid c = true) (fuel : Nat) (t : Text) :
    skipLinesFrom (fuel + 1) (c :: t) = c :: t := by
  rw [skipLinesFrom, skipBlanks_solid h]
  simp only [isSolid, Bool.and_eq_true, bne_iff_ne] at h
  split <;> simp_all

/-- Spaces and line ends in front of a character are dropped. -/
theorem skipLinesFrom_layout {c : Char} (hc : isSolid c = true) (t : Text) {layout : Text}
    (h : ∀ d ∈ layout, d = ' ' ∨ d = '\n') {fuel : Nat} (hfuel : layout.length < fuel) :
    skipLinesFrom fuel (layout ++ c :: t) = c :: t := by
  induction layout generalizing fuel with
  | nil =>
    obtain ⟨fuel, rfl⟩ := Nat.exists_eq_succ_of_ne_zero (Nat.ne_of_gt hfuel)
    exact skipLinesFrom_solid hc fuel t
  | cons d layout ih =>
    have hrest : ∀ e ∈ layout, e = ' ' ∨ e = '\n' := fun e he => h e (List.mem_cons_of_mem d he)
    obtain ⟨fuel, rfl⟩ := Nat.exists_eq_succ_of_ne_zero (Nat.ne_of_gt (Nat.zero_lt_of_lt hfuel))
    rw [List.length_cons] at hfuel
    rcases h d List.mem_cons_self with rfl | rfl
    · -- A space is dropped together with the blanks behind it.
      have hspace : skipLinesFrom (fuel + 1) (' ' :: layout ++ c :: t) =
          skipLinesFrom (fuel + 1) (layout ++ c :: t) := rfl
      rw [hspace]
      exact ih hrest (by omega)
    · rw [List.cons_append, skipLinesFrom]
      exact ih hrest (by omega)

theorem skipLines_layout {c : Char} (hc : isSolid c = true) (t : Text) {layout : Text}
    (h : ∀ d ∈ layout, d = ' ' ∨ d = '\n') : skipLines (layout ++ c :: t) = c :: t := by
  apply skipLinesFrom_layout hc t h
  rw [List.length_append]
  omega

theorem skipLines_solid {c : Char} (hc : isSolid c = true) (t : Text) :
    skipLines (c :: t) = c :: t :=
  skipLinesFrom_solid hc _ t

/-! ### Values -/

theorem value_string (levels : Nat) (t : Text) {rest : Text} (h : rest.head? ≠ some '"') :
    value levels (Quoted.written t ++ rest) = some (.string t, rest) := by
  have hstring := Quoted.string_written t h
  unfold Quoted.written at hstring ⊢
  rw [List.cons_append] at hstring ⊢
  rw [value.eq_def]
  simp only [true_or, if_true, hstring, Option.map_some]

section Array
variable (levels : Nat) {layout : Text} (hlayout : ∀ d ∈ layout, d = ' ' ∨ d = '\n')
include hlayout

theorem arrayFrom_close (fuel : Nat) (rest : Text) :
    arrayFrom (value levels) (fuel + 1) (layout ++ ']' :: rest) = some ([], rest) := by
  rw [arrayFrom, skipLines_layout (by decide) rest hlayout]
  rfl

/-- A string of a list is read first, and then what follows it decides. -/
theorem arrayFrom_written (fuel : Nat) (t : Text) {c : Char} (hc : isSolid c = true)
    (hquote : c ≠ '"') (rest : Text) :
    arrayFrom (value levels) (fuel + 1) (layout ++ Quoted.written t ++ c :: rest) =
      if c = ']' then some ([.string t], rest)
      else if c = ',' then
        (arrayFrom (value levels) fuel rest).map fun (items, rest) => (.string t :: items, rest)
      else none := by
  have hhead : (c :: rest).head? ≠ some '"' := by simpa using hquote
  have hvalue := value_string levels t hhead
  unfold Quoted.written at hvalue ⊢
  rw [List.cons_append] at hvalue
  rw [List.append_assoc, List.cons_append, arrayFrom, skipLines_layout (by decide) _ hlayout]
  split
  · next heq => cases heq
  · rw [hvalue, Option.bind_eq_bind, Option.bind_some]
    dsimp only
    rw [skipLines_solid hc]
    split
    · next heq => cases heq; rfl
    · next heq =>
      cases heq
      cases arrayFrom (value levels) fuel rest <;> rfl
    · next hclose hcomma =>
      rw [if_neg fun heq => hclose rest (by rw [heq]), if_neg fun heq => hcomma rest (by rw [heq])]

theorem arrayFrom_last (fuel : Nat) (t rest : Text) :
    arrayFrom (value levels) (fuel + 1) (layout ++ Quoted.written t ++ ']' :: rest) =
      some ([.string t], rest) := by
  rw [arrayFrom_written levels hlayout fuel t (by decide) (by decide), if_pos rfl]

theorem arrayFrom_comma {fuel : Nat} {rest rest' : Text} {items : List Item}
    (h : arrayFrom (value levels) fuel rest = some (items, rest')) (t : Text) :
    arrayFrom (value levels) (fuel + 1) (layout ++ Quoted.written t ++ ',' :: rest) =
      some (.string t :: items, rest') := by
  rw [arrayFrom_written levels hlayout fuel t (by decide) (by decide), if_neg (by decide),
    if_pos rfl, h]
  rfl

theorem arrayFrom_joinWith (ts : List Text) (rest : Text) {fuel : Nat}
    (hfuel : ts.length < fuel) :
    arrayFrom (value levels) fuel
        (layout ++ Text.joinWith ", ".toList (ts.map Quoted.written) ++ ']' :: rest) =
      some (ts.map .string, rest) := by
  induction ts generalizing fuel layout with
  | nil =>
    obtain ⟨fuel, rfl⟩ := Nat.exists_eq_succ_of_ne_zero (Nat.ne_of_gt hfuel)
    rw [List.map_nil, Text.joinWith, List.append_nil]
    exact arrayFrom_close levels hlayout fuel rest
  | cons t ts ih =>
    obtain ⟨fuel, rfl⟩ := Nat.exists_eq_succ_of_ne_zero (Nat.ne_of_gt (Nat.zero_lt_of_lt hfuel))
    cases ts with
    | nil => exact arrayFrom_last levels hlayout fuel t rest
    | cons u us =>
      have hcut : layout ++ Text.joinWith ", ".toList ((t :: u :: us).map Quoted.written) ++
            ']' :: rest =
          layout ++ Quoted.written t ++ ',' :: ([' '] ++
            Text.joinWith ", ".toList ((u :: us).map Quoted.written) ++ ']' :: rest) := by
        simp [Text.joinWith]
      rw [hcut]
      exact arrayFrom_comma levels hlayout (ih (by simp) (Nat.lt_of_succ_lt_succ hfuel)) t

end Array

theorem arrayFrom_column (levels : Nat) (ts : List Text) (rest : Text) {fuel : Nat}
    (hfuel : ts.length < fuel) :
    arrayFrom (value levels) fuel (ts.flatMap Literal.columnLine ++ "\n]".toList ++ rest) =
      some (ts.map .string, rest) := by
  induction ts generalizing fuel with
  | nil =>
    obtain ⟨fuel, rfl⟩ := Nat.exists_eq_succ_of_ne_zero (Nat.ne_of_gt hfuel)
    have hnewline : ∀ d ∈ ['\n'], d = ' ' ∨ d = '\n' := by simp
    exact arrayFrom_close levels hnewline fuel rest
  | cons t ts ih =>
    obtain ⟨fuel, rfl⟩ := Nat.exists_eq_succ_of_ne_zero (Nat.ne_of_gt (Nat.zero_lt_of_lt hfuel))
    have hcut : (t :: ts).flatMap Literal.columnLine ++ "\n]".toList ++ rest =
        "\n    ".toList ++ Quoted.written t ++
          ',' :: (ts.flatMap Literal.columnLine ++ "\n]".toList ++ rest) := by
      simp [Literal.columnLine]
    rw [hcut]
    exact arrayFrom_comma levels (by simp) (ih (Nat.lt_of_succ_lt_succ hfuel)) t

theorem value_array {levels : Nat} {t rest : Text} {items : List Item}
    (h : arrayFrom (value levels) (t.length + 1) t = some (items, rest)) :
    value (levels + 1) ('[' :: t) = some (.array items, rest) := by
  rw [value.eq_def]
  simp [h]

/-- A value is read back, unless a quote follows it. -/
theorem value_text (levels : Nat) (l : Literal) {rest : Text} (h : rest.head? ≠ some '"') :
    value (levels + 1) (l.text ++ rest) = some (l.item, rest) := by
  cases l with
  | string t => exact value_string _ t h
  | boolean b =>
    cases b <;>
      simp [Literal.text, Literal.item, value.eq_def, Scalar.word, Text.afterPrefix?]
  | list ts =>
    -- The fuel for the items is the length of the text, and each item is at least one character.
    have hlength : (ts.map Quoted.written).length ≤
        (Text.joinWith ", ".toList (ts.map Quoted.written)).length :=
      Text.length_le_length_joinWith _ (List.forall_mem_map.2 fun t _ => Quoted.written_ne_nil t)
    rw [List.length_map] at hlength
    show value (levels + 1) ('[' :: (_ ++ [']'] ++ rest)) = _
    apply value_array
    rw [List.append_assoc]
    apply arrayFrom_joinWith levels (List.forall_mem_nil _)
    rw [List.length_append]
    omega
  | column ts =>
    have hlength : ts.length ≤ (ts.flatMap Literal.columnLine).length :=
      Text.length_le_length_flatMap (fun t => List.cons_ne_nil _ _) ts
    show value (levels + 1) ('[' :: (_ ++ rest)) = _
    apply value_array
    apply arrayFrom_column
    rw [List.length_append, List.length_append]
    omega

/-! ### Keys -/

/-- A key that can stand without quotes. -/
structure IsBareKey (key : Text) : Prop where
  /-- There is something to read. -/
  ne_nil : key ≠ []
  /-- Its characters need no quotes. -/
  bare : ∀ c ∈ key, isBare c = true

instance (key : Text) : Decidable (IsBareKey key) :=
  decidable_of_iff (key ≠ [] ∧ key.all isBare = true)
    ⟨fun h => ⟨h.1, List.all_eq_true.1 h.2⟩, fun h => ⟨h.ne_nil, List.all_eq_true.2 h.bare⟩⟩

theorem ne_of_isBare {c d : Char} (hc : isBare c = true) (hd : isBare d = false) : c ≠ d := by
  rintro rfl
  rw [hc] at hd
  cases hd

theorem isSolid_of_isBare {c : Char} (h : isBare c = true) : isSolid c = true := by
  have hne : ∀ {d : Char}, isBare d = false → c ≠ d := fun hd => ne_of_isBare h hd
  simp only [isSolid, Bool.and_eq_true, bne_iff_ne]
  exact ⟨⟨⟨⟨hne (by decide), hne (by decide)⟩, hne (by decide)⟩, hne (by decide)⟩, hne (by decide)⟩

theorem keyPart_bare {k : Text} (hkey : IsBareKey k) {e : Char} (hend : isBare e = false)
    (rest : Text) : keyPart (k ++ e :: rest) = some (k, skipBlanks (e :: rest)) := by
  have hstop : ¬ isBare e = true := by simp [hend]
  have htake : (k ++ e :: rest).takeWhile isBare = k := by
    rw [List.takeWhile_append_of_pos hkey.bare, List.takeWhile_cons_of_neg hstop, List.append_nil]
  have hdrop : (k ++ e :: rest).dropWhile isBare = e :: rest := by
    rw [List.dropWhile_append_of_pos hkey.bare, List.dropWhile_cons_of_neg hstop]
  obtain ⟨c, u, rfl⟩ := List.exists_cons_of_ne_nil hkey.ne_nil
  have hc : isBare c = true := hkey.bare c List.mem_cons_self
  unfold keyPart
  rw [List.cons_append, skipBlanks_solid (isSolid_of_isBare hc)]
  rw [List.cons_append] at htake hdrop
  dsimp only
  -- A bare character is neither of the quotes.
  split
  · next heq => exact absurd (List.cons.inj heq).1 (ne_of_isBare hc (by decide))
  · next heq => exact absurd (List.cons.inj heq).1 (ne_of_isBare hc (by decide))
  · rw [htake, hdrop]
    rfl

/-- A bare key is read with the blanks behind it. -/
theorem key_bare {k : Text} (hkey : IsBareKey k) {e d : Char} {rest rest' : Text}
    (hend : isBare e = false) (hskip : skipBlanks (e :: rest) = d :: rest') (hdot : d ≠ '.') :
    key (k ++ e :: rest) = some (([], k), d :: rest') := by
  have hparts : keyFrom depthLimit (k ++ e :: rest) = some ([k], d :: rest') := by
    rw [show depthLimit = 78 + 1 from rfl, keyFrom, keyPart_bare hkey hend, hskip,
      Option.bind_eq_bind, Option.bind_some]
    dsimp only
    split
    · next heq => exact absurd (List.cons.inj heq).1 hdot
    · rfl
  unfold key
  rw [hparts]
  rfl

/-! ### Lines -/

/-- A line that sets nothing. -/
inductive Margin where
  /-- An empty line. -/
  | blank
  /-- A comment. -/
  | comment (t : Text) (plain : t.all Quoted.isPlain = true)

/-- A line of a table. -/
inductive Row where
  /-- A line that sets nothing. -/
  | margin (m : Margin)
  /-- A key with its value. -/
  | entry (key : Text) (bare : IsBareKey key) (value : Literal)

/-- How it is written. -/
def Margin.text : Margin → Text
  | blank => ['\n']
  | comment t _ => '#' :: (t ++ ['\n'])

namespace Row

/-- How it is written. -/
def text : Row → Text
  | margin m => m.text
  | entry key _ value => key ++ (" = ".toList ++ (value.text ++ ['\n']))

/-- What it sets. -/
def entry? : Row → Option (Text × Item)
  | margin _ => none
  | entry key _ value => some (key, value.item)

end Row

/-- A line that sets nothing leaves the document as it is. -/
theorem line_margin (state : State) (m : Margin) (rest : Text) :
    line state (m.text ++ rest) = some (state, rest) := by
  cases m with
  | blank => rfl
  | comment t plain =>
    have hdrop : (t ++ '\n' :: rest).dropWhile Quoted.isPlain = '\n' :: rest := by
      rw [List.dropWhile_append_of_pos (List.all_eq_true.1 plain)]
      exact List.dropWhile_cons_of_neg (by decide)
    have hcut : Margin.text (.comment t plain) ++ rest = '#' :: (t ++ '\n' :: rest) := by
      simp [Margin.text]
    rw [hcut]
    show (endLine? ((t ++ '\n' :: rest).dropWhile Quoted.isPlain)).map (state, ·) = _
    rw [hdrop]
    rfl

/-- The document in the middle of its table. -/
def inTable (name : Text) (entries : Entries) : State :=
  { root := [(name, .table .explicit entries)], current := [name] }

theorem isSome_lookup_iff {entries : Entries} {k : Text} :
    (entries.lookup k).isSome = true ↔ k ∈ entries.map Prod.fst := by
  have hsymm : ∀ entry : Text × Item, (k == entry.1) = true ↔ entry.1 = k :=
    fun entry => beq_iff_eq.trans eq_comm
  simp only [List.lookup_isSome_iff, List.mem_map, hsymm]

theorem set_of_not_mem {entries : Entries} {k : Text} (h : k ∉ entries.map Prod.fst)
    (item : Item) : entries.set k item = entries ++ [(k, item)] := by
  unfold Entries.set Entries.get?
  rw [if_neg fun hsome => h (isSome_lookup_iff.1 hsome)]

/-- A key is added to the table, unless it is there already. -/
theorem within_inTable (name : Text) (entries : Entries) (k : Text) (item : Item) :
    (inTable name entries).root.within (fun style es => es.addValue [] k item style) [name] =
      if k ∈ entries.map Prod.fst then none
      else some (inTable name (entries ++ [(k, item)])).root := by
  have hadd : entries.addValue [] k item .explicit =
      if (entries.lookup k).isSome then none else some (entries.set k item) := rfl
  have hroot : (inTable name entries).root.get? name = some (.table .explicit entries) := by
    simp [inTable, Entries.get?]
  unfold Entries.within
  rw [Entries.descend, hroot]
  simp only [Entries.passable, Entries.descend, hadd]
  by_cases hk : k ∈ entries.map Prod.fst
  · rw [if_pos hk, if_pos (isSome_lookup_iff.2 hk)]
    rfl
  · rw [if_neg hk, if_neg fun hsome => hk (isSome_lookup_iff.1 hsome), set_of_not_mem hk]
    simp [Entries.set, inTable, Entries.get?]

theorem exists_text_eq (l : Literal) : ∃ c u, l.text = c :: u ∧ isSolid c = true := by
  cases l with
  | string t => exact ⟨_, _, rfl, by decide⟩
  | boolean b => cases b <;> exact ⟨_, _, rfl, by decide⟩
  | list ts => exact ⟨_, _, rfl, by decide⟩
  | column ts => exact ⟨_, _, rfl, by decide⟩

theorem keyValue_entry (name : Text) (entries : Entries) {k : Text} (bare : IsBareKey k)
    (l : Literal) (rest : Text) :
    keyValue (inTable name entries) ((Row.entry k bare l).text ++ rest) =
      if k ∈ entries.map Prod.fst then none
      else some (inTable name (entries ++ [(k, l.item)]), rest) := by
  have hcut : (Row.entry k bare l).text ++ rest =
      k ++ " = ".toList ++ (l.text ++ '\n' :: rest) := by
    simp [Row.text]
  have hkey : key (k ++ " = ".toList ++ (l.text ++ '\n' :: rest)) =
      some (([], k), '=' :: ' ' :: (l.text ++ '\n' :: rest)) := by
    rw [List.append_assoc]
    exact key_bare bare (by decide) rfl (by decide)
  have hskip : skipBlanks (' ' :: (l.text ++ '\n' :: rest)) = l.text ++ '\n' :: rest := by
    obtain ⟨c, u, htext, hc⟩ := exists_text_eq l
    rw [htext]
    exact skipBlanks_solid hc _
  have hvalue : value depthLimit (l.text ++ '\n' :: rest) = some (l.item, '\n' :: rest) :=
    value_text 78 l (by simp)
  rw [hcut]
  unfold keyValue
  rw [hkey]
  show (value depthLimit (skipBlanks (' ' :: (l.text ++ '\n' :: rest))) >>= fun _ => _) = _
  rw [hskip, hvalue]
  show ((inTable name entries).root.within
    (fun style es => es.addValue [] k l.item style) [name] >>= fun _ => _) = _
  rw [within_inTable]
  by_cases hk : k ∈ entries.map Prod.fst
  · rw [if_pos hk, if_pos hk]
    rfl
  · rw [if_neg hk, if_neg hk]
    rfl

/-- A line that starts with a character of a bare key sets a key. -/
theorem line_of_isBare {c : Char} (hc : isBare c = true) (state : State) (t : Text) :
    line state (c :: t) = keyValue state (c :: t) := by
  have hne : ∀ {d : Char} {u : Text}, isBare d = false → c :: t ≠ d :: u :=
    fun hd heq => ne_of_isBare hc hd (List.cons.inj heq).1
  unfold line
  rw [skipBlanks_solid (isSolid_of_isBare hc)]
  -- No other kind of line starts with such a character.
  split
  · next heq => cases heq
  · next heq => exact absurd heq (hne (by decide))
  · next heq => exact absurd heq (hne (by decide))
  · next heq => exact absurd heq (hne (by decide))
  · next heq => exact absurd heq (hne (by decide))
  · next heq => exact absurd heq (hne (by decide))
  · rfl

/-- A key is set by its line, unless the table has it already. -/
theorem line_entry (name : Text) (entries : Entries) {k : Text} (bare : IsBareKey k)
    (l : Literal) (rest : Text) :
    line (inTable name entries) ((Row.entry k bare l).text ++ rest) =
      if k ∈ entries.map Prod.fst then none
      else some (inTable name (entries ++ [(k, l.item)]), rest) := by
  rw [← keyValue_entry name entries bare l rest]
  obtain ⟨c, u, rfl⟩ := List.exists_cons_of_ne_nil bare.ne_nil
  exact line_of_isBare (bare.bare c List.mem_cons_self) _ _

/-- A bare name behind a bracket is read as the header of a table. -/
theorem line_bracket (state : State) {name : Text} (bare : IsBareKey name) (rest : Text) :
    line state ('[' :: (name ++ rest)) =
      header state "]".toList Entries.addHeader (name ++ rest) := by
  obtain ⟨c, u, rfl⟩ := List.exists_cons_of_ne_nil bare.ne_nil
  have hc : isBare c = true := bare.bare c List.mem_cons_self
  unfold line
  rw [skipBlanks_solid (by decide)]
  -- The name starts with no second bracket.
  split
  · next heq => cases heq
  · next heq => exact absurd (List.cons.inj heq).1 (by decide)
  · next heq => exact absurd (List.cons.inj heq).1 (by decide)
  · next heq => exact absurd (List.cons.inj heq).1 (by decide)
  · next heq =>
    exact absurd (List.cons.inj (List.cons.inj heq).2).1 (ne_of_isBare hc (by decide))
  · next heq => rw [(List.cons.inj heq).2]
  · next h => exact absurd rfl (h _)

/-- A header opens its table. -/
theorem line_header {name : Text} (bare : IsBareKey name) (rest : Text) :
    line {} ('[' :: (name ++ (']' :: '\n' :: rest))) = some (inTable name [], rest) := by
  have hkey : key (name ++ ']' :: '\n' :: rest) = some (([], name), ']' :: '\n' :: rest) :=
    key_bare bare (by decide) rfl (by decide)
  rw [line_bracket {} bare, header, hkey]
  rfl

/-- A header that its line leaves open is refused. -/
theorem line_open_header (state : State) {name : Text} (bare : IsBareKey name) (rest : Text) :
    line state ('[' :: (name ++ '\n' :: rest)) = none := by
  have hkey : key (name ++ '\n' :: rest) = some (([], name), '\n' :: rest) :=
    key_bare bare (by decide) rfl (by decide)
  rw [line_bracket state bare, header, hkey]
  rfl

/-! ### Runs of lines -/

theorem linesFrom_succ (fuel : Nat) (state : State) {t : Text} (h : t ≠ []) :
    linesFrom (fuel + 1) state t =
      (line state t).bind fun (state, rest) => linesFrom fuel state rest := by
  obtain ⟨c, u, rfl⟩ := List.exists_cons_of_ne_nil h
  rfl

theorem Margin.text_ne_nil (m : Margin) : m.text ≠ [] := by
  cases m <;> exact List.cons_ne_nil _ _

theorem Row.text_ne_nil (r : Row) : r.text ≠ [] := by
  cases r with
  | margin m => exact m.text_ne_nil
  | entry key bare value => exact List.append_ne_nil_of_left_ne_nil bare.ne_nil _

theorem linesFrom_margins (ms : List Margin) (fuel : Nat) (state : State) (rest : Text) :
    linesFrom (fuel + ms.length) state (ms.flatMap Margin.text ++ rest) =
      linesFrom fuel state rest := by
  induction ms with
  | nil => rfl
  | cons m ms ih =>
    rw [List.flatMap_cons, List.append_assoc, List.length_cons, ← Nat.add_assoc,
      linesFrom_succ _ _ (List.append_ne_nil_of_left_ne_nil m.text_ne_nil _), line_margin]
    exact ih

/-- The rest of a table is read to its end if no key is in the table twice. -/
theorem linesFrom_rows (name : Text) (rows : List Row) {entries : Entries}
    (hnodup : (entries.map Prod.fst).Nodup) {fuel : Nat} (hfuel : rows.length ≤ fuel) :
    linesFrom fuel (inTable name entries) (rows.flatMap Row.text) =
      if ((entries ++ rows.filterMap Row.entry?).map Prod.fst).Nodup then
        some (inTable name (entries ++ rows.filterMap Row.entry?))
      else none := by
  -- The table grows from line to line; what is in it so far has no key twice.
  induction rows generalizing entries fuel with
  | nil =>
    rw [List.filterMap_nil, List.append_nil, if_pos hnodup]
    cases fuel <;> rfl
  | cons r rows ih =>
    obtain ⟨fuel, rfl⟩ := Nat.exists_eq_succ_of_ne_zero (Nat.ne_of_gt (Nat.zero_lt_of_lt hfuel))
    have hrest : rows.length ≤ fuel := Nat.le_of_succ_le_succ hfuel
    rw [List.flatMap_cons,
      linesFrom_succ _ _ (List.append_ne_nil_of_left_ne_nil r.text_ne_nil _)]
    cases r with
    | margin m =>
      rw [show (Row.margin m).text = m.text from rfl, line_margin]
      exact ih hnodup hrest
    | entry key bare value =>
      rw [line_entry]
      by_cases hkey : key ∈ entries.map Prod.fst
      · -- The key is there already, and so a key is in the whole table twice.
        have htwice : ¬ ((entries ++ (Row.entry key bare value :: rows).filterMap
            Row.entry?).map Prod.fst).Nodup := by
          rw [List.map_append, List.nodup_append]
          intro h
          exact h.2.2 key hkey key List.mem_cons_self rfl
        rw [if_pos hkey, if_neg htwice]
        rfl
      · have hmore : ((entries ++ [(key, value.item)]).map Prod.fst).Nodup := by
          rw [List.map_append]
          exact List.Nodup.append hnodup (List.nodup_singleton key) (List.disjoint_singleton.2 hkey)
        have hsplit : entries ++ (Row.entry key bare value :: rows).filterMap Row.entry? =
            entries ++ [(key, value.item)] ++ rows.filterMap Row.entry? := by
          simp [Row.entry?]
        rw [if_neg hkey, hsplit]
        exact ih hmore hrest

/-! ### Documents -/

/-- What sets nothing in front of the first header is passed over. -/
theorem parse?_margins (ms : List Margin) (t : Text) :
    ∃ fuel, t.length < fuel ∧
      parse? (ms.flatMap Margin.text ++ '[' :: t) =
        ((line {} ('[' :: t)).bind fun (state, rest) =>
          linesFrom fuel state rest).map (·.root) := by
  have hlength : ms.length ≤ (ms.flatMap Margin.text).length :=
    Text.length_le_length_flatMap Margin.text_ne_nil ms
  -- The first character is a line end, a comment mark or the bracket, but no byte order mark.
  have hmark : Text.afterPrefix? ['\uFEFF'] (ms.flatMap Margin.text ++ '[' :: t) = none := by
    cases ms with
    | nil => rfl
    | cons m ms => cases m <;> rfl
  -- Each of the passed lines takes one unit of fuel and at least one character.
  obtain ⟨fuel, hfuel⟩ := Nat.exists_eq_add_of_le hlength
  refine ⟨fuel + t.length + 1, by omega, ?_⟩
  have htotal : (ms.flatMap Margin.text ++ '[' :: t).length + 1 =
      fuel + t.length + 1 + 1 + ms.length := by
    rw [List.length_append, List.length_cons]
    omega
  unfold parse?
  rw [hmark, Option.getD_none]
  dsimp only
  rw [htotal, linesFrom_margins, linesFrom_succ _ _ (List.cons_ne_nil _ _)]

/-- A document whose first header is left open is refused, whatever follows. -/
theorem parse?_open_header (ms : List Margin) {name : Text} (bare : IsBareKey name) (rest : Text) :
    parse? (ms.flatMap Margin.text ++ '[' :: (name ++ '\n' :: rest)) = none := by
  obtain ⟨fuel, -, hparse⟩ := parse?_margins ms (name ++ '\n' :: rest)
  rw [hparse, line_open_header {} bare rest]
  rfl

end Document

/-- A document with one table. -/
structure Section where
  /-- The lines in front of the header. -/
  preface : List Document.Margin
  /-- The name of the table. -/
  name : Text
  /-- The name stands without quotes. -/
  bare : Document.IsBareKey name
  /-- The lines of the table. -/
  rows : List Document.Row

namespace Section

/-- How it is written. -/
def text (s : Section) : Text :=
  s.preface.flatMap Document.Margin.text ++
    '[' :: (s.name ++ ']' :: '\n' :: s.rows.flatMap Document.Row.text)

/-- What its lines set, in their order. -/
def entries (s : Section) : Entries :=
  s.rows.filterMap Document.Row.entry?

/-- A table is read back if no key is in it twice; otherwise its document is refused. -/
theorem parse?_text (s : Section) :
    Document.parse? s.text =
      if (s.entries.map Prod.fst).Nodup then some [(s.name, .table .explicit s.entries)]
      else none := by
  obtain ⟨fuel, hfuel, hparse⟩ := Document.parse?_margins s.preface
    (s.name ++ ']' :: '\n' :: s.rows.flatMap Document.Row.text)
  have hrows : s.rows.length ≤ fuel := by
    have := Text.length_le_length_flatMap Document.Row.text_ne_nil s.rows
    simp only [List.length_append, List.length_cons] at hfuel
    omega
  have hlines : Document.linesFrom fuel (Document.inTable s.name [])
        (s.rows.flatMap Document.Row.text) =
      if (s.entries.map Prod.fst).Nodup then some (Document.inTable s.name s.entries) else none :=
    Document.linesFrom_rows s.name s.rows (by simp) hrows
  rw [text, hparse, Document.line_header s.bare, Option.bind_some]
  dsimp only
  rw [hlines]
  split <;> rfl

end Section

end Toml

end DeclSurvey
