import DeclSurvey.Proofs.Text
import DeclSurvey.Scan.Settings

/-! # Patterns around a literal

A pattern excludes a path in two ways: it matches the path, or what is plain in it occurs there.
For a literal text, alone or with any directories around it, both ways come to the same: the path
must hold the literal.

* **Matching**: whatever a pattern leaves is the end of a text it was given
  (`exists_suffix_of_mem_rests`), and characters leave what stands behind them
  (`mem_rests_chars_iff`).  So a literal in a matching pattern is in the path
  (`infix_of_accepts`).
* **Reading**: a literal is read as its characters (`exists_parseFrom_append`), with or without
  directories around it (`exists_parse?_surrounded`).
* **Plain part**: without the directories, the literal is left (`Settings.plainPart_surrounded`). -/

namespace DeclSurvey

namespace Pattern

/-! ### Matching -/

theorem Token.suffix_of_mem_rests {token : Token} {t r : Text} (h : r ∈ token.rests t) :
    r <:+ t := by
  have hone : ∀ {p : Char → Bool}, r ∈ Rests.afterOne p t → r <:+ t := by
    intro p hr
    obtain ⟨a, -, rfl⟩ := Rests.mem_afterOne_iff.1 hr
    exact List.suffix_cons a r
  cases token with
  | char c => exact hone h
  | anyChar => exact hone h
  | anyText => exact Rests.mem_suffixes_iff.1 h
  | anyDirectories =>
    rcases List.mem_cons.1 h with rfl | h
    · exact List.suffix_rfl
    · rcases List.mem_cons.1 h with rfl | h
      · exact List.nil_suffix
      · exact Rests.suffix_of_mem_afterEach h
  | oneOf negated ranges => exact hone h

theorem rests_append (p q : Pattern) (ts : List Text) :
    rests (p ++ q) ts = rests q (rests p ts) :=
  List.foldl_append

/-- One token leaves of some texts what it leaves of one of them. -/
theorem mem_step_iff {token : Token} {ts : List Text} {r : Text} :
    r ∈ (ts.flatMap token.rests).eraseDups ↔ ∃ t ∈ ts, r ∈ token.rests t := by
  rw [List.mem_eraseDups, List.mem_flatMap]

/-- A pattern leaves only ends of the texts that it is given. -/
theorem exists_suffix_of_mem_rests {pattern : Pattern} {ts : List Text} {r : Text}
    (h : r ∈ rests pattern ts) : ∃ t ∈ ts, r <:+ t := by
  induction pattern generalizing ts with
  | nil => exact ⟨r, h, List.suffix_rfl⟩
  | cons token pattern ih =>
    obtain ⟨u, hu, hr⟩ := ih h
    obtain ⟨t, ht, hu⟩ := mem_step_iff.1 hu
    exact ⟨t, ht, hr.trans (Token.suffix_of_mem_rests hu)⟩

/-- Characters leave what stands behind them. -/
theorem mem_rests_chars_iff {s r : Text} {ts : List Text} :
    r ∈ rests (s.map .char) ts ↔ s ++ r ∈ ts := by
  induction s generalizing ts with
  | nil => exact Iff.rfl
  | cons c s ih =>
    show r ∈ rests (s.map .char) (ts.flatMap (Token.char c).rests).eraseDups ↔ _
    rw [ih, mem_step_iff]
    constructor
    · rintro ⟨t, ht, hr⟩
      obtain ⟨a, ha, rfl⟩ := Rests.mem_afterOne_iff.1 hr
      rw [beq_iff_eq] at ha
      rwa [ha] at ht
    · intro h
      exact ⟨c :: (s ++ r), h, Rests.mem_afterOne_iff.2 ⟨c, beq_self_eq_true c, rfl⟩⟩

/-- The characters in a pattern that matches a text stand together in that text. -/
theorem infix_of_accepts {front back : Pattern} {s t : Text}
    (h : accepts (front ++ s.map .char ++ back) t = true) : s <:+: t := by
  have hleft : [] ∈ rests back (rests (s.map .char) (rests front [t])) := by
    rw [← rests_append, ← rests_append, ← List.append_assoc]
    exact List.contains_iff_mem.1 h
  -- What is left in front of the last part, of the characters, and of the first part.
  obtain ⟨r, hr, -⟩ := exists_suffix_of_mem_rests hleft
  rw [mem_rests_chars_iff] at hr
  obtain ⟨u, hu, hsuffix⟩ := exists_suffix_of_mem_rests hr
  rw [List.mem_singleton.1 hu] at hsuffix
  exact (List.prefix_append s r).isInfix.trans hsuffix.isInfix

/-! ### Reading -/

/-- The characters that do not stand for themselves in a pattern. -/
def wildcards : List Char := ['*', '?', '[']

theorem parseFrom_cons_of_plain {c : Char} (hc : c ∉ wildcards) (before : Option Char) (t : Text) :
    parseFrom before 0 (c :: t) = (parseFrom (some c) 0 t).map (.char c :: ·) := by
  simp only [wildcards, List.mem_cons, List.not_mem_nil, or_false, not_or] at hc
  obtain ⟨hstar, hquestion, hbracket⟩ := hc
  -- All other ways to read a character are for a wildcard.
  rw [parseFrom] <;> intros <;> contradiction

/-- A literal is read as its characters, whatever the reading starts and goes on with. -/
theorem exists_parseFrom_append {s : Text} (hs : ∀ c ∈ s, c ∉ wildcards) (before : Option Char)
    (t : Text) :
    ∃ last, parseFrom before 0 (s ++ t) = (parseFrom last 0 t).map (s.map .char ++ ·) := by
  induction s generalizing before with
  | nil => exact ⟨before, by simp⟩
  | cons c s ih =>
    obtain ⟨hc, hs⟩ := List.forall_mem_cons.1 hs
    obtain ⟨last, hlast⟩ := ih hs (some c)
    refine ⟨last, ?_⟩
    rw [List.cons_append, parseFrom_cons_of_plain hc, hlast, Option.map_map]
    rfl

section Surrounded
variable {s front back : Text} (hs : ∀ c ∈ s, c ∉ wildcards)
  (hfront : front ∈ [[], "**/".toList]) (hback : back ∈ [[], "/**".toList])
include hs hfront hback

/-- Directories around a literal leave its characters in the pattern. -/
theorem exists_parse?_surrounded :
    ∃ p q : Pattern, parse? (front ++ s ++ back) = some (p ++ s.map .char ++ q) := by
  -- What is behind the literal is read without regard to what is in front of it.
  have hbehind : ∃ q, ∀ before, parseFrom before 0 back = some q := by
    rcases List.mem_pair.1 hback with rfl | rfl
    · exact ⟨[], fun before => rfl⟩
    · exact ⟨[.char '/', .anyDirectories], fun before => rfl⟩
  obtain ⟨q, hq⟩ := hbehind
  have hliteral : ∀ before, parseFrom before 0 (s ++ back) = some (s.map .char ++ q) := by
    intro before
    obtain ⟨last, hlast⟩ := exists_parseFrom_append hs before back
    rw [hlast, hq, Option.map_some]
  rcases List.mem_pair.1 hfront with rfl | rfl
  · exact ⟨[], q, hliteral none⟩
  · refine ⟨[.anyDirectories], q, ?_⟩
    show (parseFrom (some '/') 0 (s ++ back)).map (.anyDirectories :: ·) = _
    rw [hliteral]
    rfl

/-- A path that such a pattern matches holds the literal. -/
theorem infix_of_accepts_surrounded {glob : Pattern} {path : Text}
    (hparse : parse? (front ++ s ++ back) = some glob) (h : glob.accepts path = true) :
    s <:+: path := by
  obtain ⟨p, q, hpq⟩ := exists_parse?_surrounded hs hfront hback
  rw [hparse] at hpq
  rw [Option.some.inj hpq] at h
  exact infix_of_accepts h

end Surrounded

end Pattern

namespace Settings

/-! ### The plain part -/

/-- Without stars in a text, what stands for all below a directory starts only behind it. -/
theorem noStart_below {s rest : Text} (hs : '*' ∉ s) (hrest : '*' ∉ rest.head?) :
    Text.NoStart "/**".toList s rest := by
  induction s with
  | nil => trivial
  | cons c s ih =>
    have htail : '*' ∉ s := fun h => hs (List.mem_cons_of_mem c h)
    refine ⟨?_, ih htail⟩
    rintro ⟨u, hu⟩
    -- A star would be next, in the text or behind it.
    have hnext : s ++ rest = '*' :: '*' :: u := (List.cons.inj hu).2.symm
    cases s with
    | nil =>
      rw [List.nil_append] at hnext
      exact hrest (by rw [hnext]; rfl)
    | cons d s =>
      have hd : d = '*' := (List.cons.inj hnext).1
      exact htail (by simp [hd])

/-- The directories around a literal are dropped, and nothing of the literal. -/
theorem plainPart_surrounded {s front back : Text} (hs : '*' ∉ s)
    (hfront : front ∈ [[], "**/".toList]) (hback : back ∈ [[], "/**".toList]) :
    plainPart (front ++ s ++ back) = s := by
  rw [List.mem_pair] at hfront hback
  have hkept : Text.removeAll "**/".toList (s ++ back) = s ++ back := by
    rw [Text.removeAll_eq_self_iff (by decide)]
    intro hocc
    have hocc := Text.infix_of_append_infix hs hocc
    rcases hback with rfl | rfl <;> exact absurd hocc (by decide)
  have hdropped : Text.removeAll "**/".toList (front ++ s ++ back) = s ++ back := by
    rcases hfront with rfl | rfl
    · exact hkept
    · rw [List.append_assoc, Text.removeAll, Text.replaceAll_self_append (by decide)]
      exact hkept
  have hbelow : Text.NoStart "/**".toList s back := by
    apply noStart_below hs
    rcases hback with rfl | rfl <;> decide
  have hnone : Text.replaceAll "/**".toList [] back = [] := by
    rcases hback with rfl | rfl <;> rfl
  unfold plainPart
  rw [hdropped, Text.removeAll, Text.replaceAll_append hbelow, hnone, List.append_nil]

/-! ### Exclusion -/

/-- A literal excludes the paths that hold it, alone or with any directories in front of it, behind
it or on both sides; where the pattern matches a path, its plain part occurs there. -/
theorem isExcluded_literal_iff (settings : Settings) (s front back path : Text) (hne : s ≠ [])
    (hs : ∀ c ∈ s, c ∉ Pattern.wildcards) (hfront : front ∈ [[], "**/".toList])
    (hback : back ∈ [[], "/**".toList]) :
    (isExcluded { settings with exclude := [front ++ s ++ back] } path = true ↔ s <:+: path) ∧
    ∀ glob, Pattern.parse? (front ++ s ++ back) = some glob → glob.accepts path = true →
      Text.occursIn (plainPart (front ++ s ++ back)) path = true := by
  have hstar : '*' ∉ s := fun h => hs _ h (by decide)
  have hplain : plainPart (front ++ s ++ back) = s := plainPart_surrounded hstar hfront hback
  have hglob : ∀ glob, Pattern.parse? (front ++ s ++ back) = some glob →
      glob.accepts path = true → s <:+: path := fun glob hparse hmatch =>
    Pattern.infix_of_accepts_surrounded hs hfront hback hparse hmatch
  constructor
  · show (excludedBy path (front ++ s ++ back) || false) = true ↔ _
    rw [Bool.or_false, excludedBy, hplain, Bool.or_eq_true, Bool.and_eq_true, Text.occursIn_iff,
      Option.any_eq_true]
    constructor
    · rintro (⟨glob, hparse, hmatch⟩ | ⟨-, hocc⟩)
      · exact hglob glob hparse hmatch
      · exact hocc
    · intro hocc
      exact Or.inr ⟨by simpa using hne, hocc⟩
  · intro glob hparse hmatch
    rw [hplain]
    exact Text.occursIn_iff.2 (hglob glob hparse hmatch)

/-- A file whose name starts like the directory is excluded with it, although the pattern does not
match; a directory in capitals is not. -/
theorem isExcluded_literal_iff_vendor :
    isExcluded { exclude := ["**/vendor/**".toList] } "src/vendored.php".toList = true ∧
    (Pattern.parse? "**/vendor/**".toList).any (·.accepts "src/vendored.php".toList) = false ∧
    ¬ isExcluded { exclude := ["**/vendor/**".toList] } "src/VENDOR/A.php".toList = true := by
  have hpattern : "**/".toList ++ "vendor".toList ++ "/**".toList = "**/vendor/**".toList := by
    decide
  have hiff := fun path => (isExcluded_literal_iff {} "vendor".toList "**/".toList "/**".toList path
    (by decide) (Text.disjoint_of_all (by decide)) (by decide) (by decide)).1
  rw [hpattern] at hiff
  refine ⟨(hiff _).2 (by decide +kernel), by decide +kernel, ?_⟩
  exact fun h => absurd ((hiff _).1 h) (by decide +kernel)

end Settings

end DeclSurvey
