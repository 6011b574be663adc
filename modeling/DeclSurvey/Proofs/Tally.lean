import DeclSurvey.Facts.Basic
import DeclSurvey.Proofs.Classification

/-! # The tally counts declaration lines

The tally is built line by line.  This file says what one more line does to it, and derives what
the tally of a whole file holds:

* `Tally.Ordered`: keywords ascend and no count is zero, the invariant of the fold;
* `Tally.count_addLine`, `Tally.total_addLine`: one line counts once or not at all;
* `Tally.isAtypical_iff`: the three tests of the verdict are one, that the total is not 1. -/

namespace DeclSurvey

namespace Tally

/-! ### The invariant -/

/-- Keywords ascend, and none is listed with a count of zero. -/
structure Ordered (tally : Tally) : Prop where
  /-- Each entry ranks below all entries behind it. -/
  ascending : tally.Pairwise fun a b => a.1.rank < b.1.rank
  /-- Every listed keyword has been seen. -/
  positive : ∀ e ∈ tally, 0 < e.2

theorem ordered_nil : Ordered [] :=
  ⟨List.Pairwise.nil, by simp⟩

theorem ordered_cons {e : Signature × Nat} {tally : Tally} :
    Ordered (e :: tally) ↔ (∀ f ∈ tally, e.1.rank < f.1.rank) ∧ 0 < e.2 ∧ Ordered tally := by
  constructor
  · intro h
    obtain ⟨hasc, hpos⟩ := h
    rw [List.pairwise_cons] at hasc
    exact ⟨hasc.1, hpos e (by simp), hasc.2, fun f hf => hpos f (by simp [hf])⟩
  · intro h
    obtain ⟨hlt, hpos, htail⟩ := h
    refine ⟨List.pairwise_cons.2 ⟨hlt, htail.ascending⟩, ?_⟩
    intro f hf
    rcases List.mem_cons.1 hf with rfl | hf
    · exact hpos
    · exact htail.positive f hf

/-- Counting a line brings in no other keyword. -/
theorem key_of_mem_add {s : Signature} {tally : Tally} {e : Signature × Nat}
    (h : e ∈ add s tally) : e.1 = s ∨ ∃ f ∈ tally, f.1 = e.1 := by
  induction tally with
  | nil =>
    simp only [add, List.mem_singleton] at h
    exact Or.inl (by rw [h])
  | cons f rest ih =>
    obtain ⟨r, n⟩ := f
    unfold add at h
    split at h
    · next heq =>
      rcases List.mem_cons.1 h with rfl | h
      · exact Or.inl heq.symm
      · exact Or.inr ⟨e, by simp [h], rfl⟩
    · split at h
      · rcases List.mem_cons.1 h with rfl | h
        · exact Or.inl rfl
        · exact Or.inr ⟨e, h, rfl⟩
      · rcases List.mem_cons.1 h with rfl | h
        · exact Or.inr ⟨(r, n), by simp, rfl⟩
        · rcases ih h with hs | ⟨g, hg, heq⟩
          · exact Or.inl hs
          · exact Or.inr ⟨g, by simp [hg], heq⟩

theorem ordered_add {tally : Tally} (h : Ordered tally) (s : Signature) :
    Ordered (add s tally) := by
  induction tally with
  | nil => exact ordered_cons.2 ⟨by simp, Nat.one_pos, ordered_nil⟩
  | cons f rest ih =>
    obtain ⟨r, n⟩ := f
    obtain ⟨hlt, hpos, hrest⟩ := ordered_cons.1 h
    unfold add
    -- The signature is the first entry, goes in front of it, or belongs behind it.
    split
    · exact ordered_cons.2 ⟨hlt, Nat.succ_pos n, hrest⟩
    · next hne =>
      split
      · next hrank =>
        refine ordered_cons.2 ⟨?_, Nat.one_pos, h⟩
        intro g hg
        rcases List.mem_cons.1 hg with rfl | hg
        · exact hrank
        · exact Nat.lt_trans hrank (hlt g hg)
      · next hrank =>
        refine ordered_cons.2 ⟨?_, hpos, ih hrest⟩
        intro g hg
        rcases key_of_mem_add hg with hs | ⟨f, hf, heq⟩
        · -- Ranks are unequal for unequal signatures, so `s` ranks above `r`.
          have hne' : r.rank ≠ s.rank := fun heq => hne (Signature.rank_injective heq).symm
          show r.rank < g.1.rank
          rw [hs]
          omega
        · rw [← heq]
          exact hlt f hf

/-! ### What one line adds -/

theorem count_cons (s r : Signature) (n : Nat) (tally : Tally) :
    count s ((r, n) :: tally) = if s = r then n else count s tally := by
  unfold count
  rw [List.lookup_cons]
  by_cases h : s = r
  · simp [h]
  · have hb : (s == r) = false := by simp [h]
    simp [h, hb]

/-- A signature below all that are listed has not been seen. -/
theorem count_eq_zero_of_lt {s : Signature} {tally : Tally}
    (h : ∀ e ∈ tally, s.rank < e.1.rank) : count s tally = 0 := by
  induction tally with
  | nil => rfl
  | cons f rest ih =>
    obtain ⟨r, n⟩ := f
    have hne : s ≠ r := fun heq => Nat.lt_irrefl _ (heq ▸ h (r, n) (by simp))
    rw [count_cons, if_neg hne]
    exact ih fun e he => h e (by simp [he])

/-- One more line with signature `s` counts for `s` alone. -/
theorem count_add {tally : Tally} (h : Ordered tally) (s r : Signature) :
    count r (add s tally) = count r tally + if r = s then 1 else 0 := by
  induction tally with
  | nil =>
    have hzero : count r [] = 0 := rfl
    rw [add, count_cons, hzero, Nat.zero_add]
  | cons f rest ih =>
    obtain ⟨q, n⟩ := f
    obtain ⟨hlt, -, hrest⟩ := ordered_cons.1 h
    unfold add
    split
    · next heq =>
      subst heq
      rw [count_cons, count_cons]
      split <;> rfl
    · next hne =>
      split
      · next hrank =>
        rw [count_cons]
        by_cases hr : r = s
        · -- `s` ranks below everything listed, so it enters with its first count.
          have hzero : count s ((q, n) :: rest) = 0 := by
            apply count_eq_zero_of_lt
            intro e he
            rcases List.mem_cons.1 he with rfl | he
            · exact hrank
            · exact Nat.lt_trans hrank (hlt e he)
          rw [if_pos hr, if_pos hr, hr, hzero]
        · rw [if_neg hr, if_neg hr, Nat.add_zero]
      · rw [count_cons, count_cons, ih hrest]
        by_cases hq : r = q
        · have hqs : r ≠ s := fun h => hne (by rw [← h, hq])
          rw [if_pos hq, if_pos hq, if_neg hqs, Nat.add_zero]
        · rw [if_neg hq, if_neg hq]

/-- The number of lines that a tally stands for. -/
def total : Tally → Nat
  | [] => 0
  | e :: rest => e.2 + total rest

@[simp] theorem total_nil : total [] = 0 := rfl

@[simp] theorem total_cons (e : Signature × Nat) (tally : Tally) :
    total (e :: tally) = e.2 + total tally :=
  rfl

theorem total_add (s : Signature) (tally : Tally) : total (add s tally) = total tally + 1 := by
  induction tally with
  | nil => rfl
  | cons f rest ih =>
    unfold add
    split
    · simp only [total_cons]; omega
    · split
      · simp only [total_cons]; omega
      · simp only [total_cons, ih]; omega

/-- A classified line opens a declaration with signature `s`. -/
def opens (s : Signature) (l : Line) : Bool :=
  l.kind == .declaration s

/-- A classified line opens a declaration. -/
def opensAny (l : Line) : Bool :=
  Signature.all.any fun s => opens s l

theorem opens_iff {s : Signature} {l : Line} : opens s l = true ↔ l.kind = .declaration s := by
  simp [opens]

theorem opensAny_iff {l : Line} : opensAny l = true ↔ ∃ s, l.kind = .declaration s := by
  unfold opensAny
  rw [List.any_eq_true]
  constructor
  · intro h
    obtain ⟨s, -, hs⟩ := h
    exact ⟨s, opens_iff.1 hs⟩
  · intro h
    obtain ⟨s, hs⟩ := h
    exact ⟨s, Signature.mem_all s, opens_iff.2 hs⟩

theorem addLine_of_opens {s : Signature} {l : Line} (h : l.kind = .declaration s)
    (tally : Tally) : addLine tally l = add s tally := by
  simp [addLine, h]

theorem addLine_of_not_opensAny {l : Line} (h : ¬ opensAny l = true) (tally : Tally) :
    addLine tally l = tally := by
  unfold addLine
  split
  · next s hs => exact absurd (opensAny_iff.2 ⟨s, hs⟩) h
  · rfl

theorem ordered_addLine {tally : Tally} (h : Ordered tally) (l : Line) :
    Ordered (addLine tally l) := by
  by_cases hl : opensAny l = true
  · obtain ⟨s, hs⟩ := opensAny_iff.1 hl
    rw [addLine_of_opens hs]
    exact ordered_add h s
  · rw [addLine_of_not_opensAny hl]
    exact h

theorem count_addLine {tally : Tally} (h : Ordered tally) (s : Signature) (l : Line) :
    count s (addLine tally l) = count s tally + if opens s l = true then 1 else 0 := by
  by_cases hl : opensAny l = true
  · obtain ⟨r, hr⟩ := opensAny_iff.1 hl
    have hiff : opens s l = true ↔ s = r := by
      rw [opens_iff, hr, LineKind.declaration.injEq]
      exact eq_comm
    rw [addLine_of_opens hr, count_add h]
    simp only [hiff]
  · have hs : ¬ opens s l = true := fun hs => hl (opensAny_iff.2 ⟨s, opens_iff.1 hs⟩)
    rw [addLine_of_not_opensAny hl, if_neg hs, Nat.add_zero]

theorem total_addLine (tally : Tally) (l : Line) :
    total (addLine tally l) = total tally + if opensAny l = true then 1 else 0 := by
  by_cases hl : opensAny l = true
  · obtain ⟨s, hs⟩ := opensAny_iff.1 hl
    rw [addLine_of_opens hs, total_add, if_pos hl]
  · rw [addLine_of_not_opensAny hl, if_neg hl, Nat.add_zero]

/-! ### What a file adds -/

theorem ordered_foldl {tally : Tally} (h : Ordered tally) (ls : List Line) :
    Ordered (ls.foldl addLine tally) := by
  induction ls generalizing tally with
  | nil => exact h
  | cons l ls ih => exact ih (ordered_addLine h l)

theorem count_foldl {tally : Tally} (h : Ordered tally) (s : Signature) (ls : List Line) :
    count s (ls.foldl addLine tally) = count s tally + ls.countP (opens s) := by
  induction ls generalizing tally with
  | nil => rfl
  | cons l ls ih =>
    rw [List.foldl_cons, ih (ordered_addLine h l), count_addLine h, List.countP_cons]
    omega

theorem total_foldl (tally : Tally) (ls : List Line) :
    total (ls.foldl addLine tally) = total tally + ls.countP opensAny := by
  induction ls generalizing tally with
  | nil => rfl
  | cons l ls ih =>
    rw [List.foldl_cons, ih, total_addLine, List.countP_cons]
    omega

theorem ordered_ofLines (ls : List Line) : Ordered (ofLines ls) :=
  ordered_foldl ordered_nil ls

theorem count_ofLines (s : Signature) (ls : List Line) :
    count s (ofLines ls) = ls.countP (opens s) := by
  have h := count_foldl ordered_nil s ls
  have hzero : count s [] = 0 := rfl
  rwa [hzero, Nat.zero_add] at h

theorem total_ofLines (ls : List Line) : total (ofLines ls) = ls.countP opensAny := by
  have h := total_foldl [] ls
  rwa [total_nil, Nat.zero_add] at h

/-! ### A tally is its counts -/

theorem mem_iff_count {tally : Tally} (h : Ordered tally) {s : Signature} {n : Nat} :
    (s, n) ∈ tally ↔ count s tally = n ∧ 0 < n := by
  induction tally with
  | nil =>
    have hzero : count s [] = 0 := rfl
    rw [hzero]
    constructor
    · intro hmem
      exact absurd hmem List.not_mem_nil
    · intro hcount
      omega
  | cons f rest ih =>
    obtain ⟨r, m⟩ := f
    obtain ⟨hlt, hpos, hrest⟩ := ordered_cons.1 h
    rw [List.mem_cons, count_cons]
    by_cases hs : s = r
    · subst hs
      have hnot : (s, n) ∉ rest := fun hmem => Nat.lt_irrefl _ (hlt (s, n) hmem)
      rw [if_pos rfl]
      constructor
      · intro h
        rcases h with heq | hmem
        · obtain ⟨-, rfl⟩ := Prod.mk.inj heq
          exact ⟨rfl, hpos⟩
        · exact absurd hmem hnot
      · intro h
        rw [h.1]
        exact Or.inl rfl
    · rw [if_neg hs, ← ih hrest]
      constructor
      · intro h
        rcases h with heq | hmem
        · exact absurd (Prod.mk.inj heq).1 hs
        · exact hmem
      · exact Or.inr

/-- Tallies with the same counts are the same. -/
theorem eq_of_count_eq {t u : Tally} (ht : Ordered t) (hu : Ordered u)
    (h : ∀ s, count s t = count s u) : t = u := by
  have hnodup : ∀ {v : Tally}, Ordered v → v.Nodup := by
    intro v hv
    apply hv.ascending.imp
    intro a b hlt heq
    rw [heq] at hlt
    exact Nat.lt_irrefl _ hlt
  -- The counts tell which entries there are, and the order does the rest.
  have hperm : t.Perm u := by
    rw [List.perm_ext_iff_of_nodup (hnodup ht) (hnodup hu)]
    intro e
    obtain ⟨s, n⟩ := e
    rw [mem_iff_count ht, mem_iff_count hu, h s]
  refine hperm.eq_of_pairwise ?_ ht.ascending hu.ascending
  intro a b _ _ hab hba
  exact absurd hab (Nat.lt_asymm hba)

/-- More than one keyword, a keyword that repeats or none: in one word, not one line. -/
theorem isAtypical_iff {tally : Tally} (h : Ordered tally) :
    isAtypical tally = true ↔ total tally ≠ 1 := by
  match tally, h with
  | [], _ => simp
  | [(s, n)], h =>
    have hpos := h.positive (s, n) (by simp)
    simp [isAtypical]
    omega
  | e :: f :: rest, h =>
    -- Two entries make at least two lines.
    have he := h.positive e (by simp)
    have hf := h.positive f (by simp)
    simp [isAtypical]
    omega

/-- A typical tally lists what it has seen, once. -/
theorem eq_singleton {tally : Tally} (h : Ordered tally) (htypical : isAtypical tally = false)
    {s : Signature} (hs : 0 < count s tally) : tally = [(s, 1)] := by
  match tally, h with
  | [], _ => cases htypical
  | [(r, n)], h =>
    have hpos := h.positive (r, n) (by simp)
    have htotal : ¬ total [(r, n)] ≠ 1 := by
      rw [← isAtypical_iff h, htypical]
      exact Bool.false_ne_true
    have hn : n = 1 := by simpa using htotal
    have hmem : (s, count s [(r, n)]) ∈ [(r, n)] := (mem_iff_count h).2 ⟨rfl, hs⟩
    have hsr : s = r := (Prod.mk.inj (List.mem_singleton.1 hmem)).1
    rw [hsr, hn]
  | e :: f :: rest, _ =>
    simp [isAtypical] at htypical

/-! ### The tally of a source text -/

/-- The number of physical lines whose cleaned text starts with the opening of `s`. -/
def openingLines (s : Signature) (source : Text) : Nat :=
  (Text.lines source).countP fun raw => s.opening.isPrefixOf (Line.clean raw)

/-- The number of physical lines whose cleaned text starts with one of the openings. -/
def declarationLines (source : Text) : Nat :=
  (Text.lines source).countP fun raw =>
    Signature.all.any fun s => s.opening.isPrefixOf (Line.clean raw)

theorem opens_ofRaw (s : Signature) (raw : Text) :
    opens s (Line.ofRaw raw) = s.opening.isPrefixOf (Line.clean raw) := by
  rw [Bool.eq_iff_iff, opens_iff, Line.kind_ofRaw, LineKind.ofText_eq_declaration_iff,
    List.isPrefixOf_iff_prefix]

theorem countP_opens_classify (s : Signature) (source : Text) :
    (classify source).countP (opens s) = openingLines s source := by
  unfold classify openingLines
  rw [List.countP_map]
  exact List.countP_congr fun raw _ => by rw [Function.comp_apply, opens_ofRaw]

theorem countP_opensAny_classify (source : Text) :
    (classify source).countP opensAny = declarationLines source := by
  unfold classify declarationLines opensAny
  rw [List.countP_map]
  apply List.countP_congr
  intro raw _
  simp only [Function.comp_apply, opens_ofRaw]

end Tally

theorem Facts.ordered_tally (source : Text) : Tally.Ordered (ofSource source).tally :=
  Tally.ordered_ofLines (classify source)

/-- The tally lists each signature that opens a line of the file, under ascending keywords, with
the number of lines that it opens, and no other one; the file is atypical exactly when the number
of lines with an opening is not 1.  Neither depends on the order of the lines. -/
theorem Facts.tally_ofSource_eq_openings (source : Text) :
    (∀ s n, (s, n) ∈ (ofSource source).tally ↔ n = Tally.openingLines s source ∧ 0 < n) ∧
    ((ofSource source).tally.map (·.1.keyword)).Pairwise (· < ·) ∧
    ((ofSource source).isAtypical = true ↔ Tally.declarationLines source ≠ 1) ∧
    ∀ other : Text, (Text.lines other).Perm (Text.lines source) →
      (ofSource other).tally = (ofSource source).tally ∧
      (ofSource other).isAtypical = (ofSource source).isAtypical := by
  have htally : ∀ t : Text, (ofSource t).tally = Tally.ofLines (classify t) := fun _ => rfl
  have hordered := Tally.ordered_ofLines (classify source)
  refine ⟨?_, ?_, ?_, ?_⟩
  · intro s n
    rw [htally, Tally.mem_iff_count hordered, Tally.count_ofLines, Tally.countP_opens_classify]
    exact and_congr_left fun _ => eq_comm
  · rw [htally, List.pairwise_map]
    exact hordered.ascending.imp fun h => (Signature.rank_lt_rank_iff _ _).1 h
  · show Tally.isAtypical (ofSource source).tally = true ↔ _
    rw [htally, Tally.isAtypical_iff hordered, Tally.total_ofLines,
      Tally.countP_opensAny_classify]
  · intro other hperm
    have heq : (ofSource other).tally = (ofSource source).tally := by
      rw [htally, htally]
      apply Tally.eq_of_count_eq (Tally.ordered_ofLines _) hordered
      intro s
      rw [Tally.count_ofLines, Tally.count_ofLines]
      exact (hperm.map Line.ofRaw).countP_eq (Tally.opens s)
    exact ⟨heq, congrArg Tally.isAtypical heq⟩

end DeclSurvey
