import DeclSurvey.Proofs.HeadAndRest

/-! # Runs of spaces

A text can be seen as the characters other than spaces, with a run of spaces, maybe of length zero,
in front of, between and behind them.  This file changes the lengths of these runs.

* `Text.resizeRuns` changes the length of every run, `Text.runs` lists the lengths;
* `Text.squeeze` leaves one space of each run;
* `Text.replaceAll_doubled_eq`: one pass that puts one space for each two halves the runs, rounding
  up, and does not squeeze them;
* `Text.trimBy_squeeze`: squeezing and trimming do not get in each other's way;
* `Text.nil_mem_splitChar_iff`: an empty word stands where a space is doubled;
* `Text.beforeFirst_squeeze`: a word between spaces is found at the same place in the squeezed
  text. -/

namespace DeclSurvey

namespace Text

/-! ### Runs of spaces -/

/-- `resizeRuns` in the middle of its work, with a run of `n` spaces behind it. -/
def resizeRunsFrom (f : Nat → Nat) : Nat → Text → Text
  | n, [] => List.replicate (f n) ' '
  | n, c :: t =>
    if c = ' ' then resizeRunsFrom f (n + 1) t
    else List.replicate (f n) ' ' ++ c :: resizeRunsFrom f 0 t

/-- The text with `f n` spaces in the place of every maximal run of `n` spaces. -/
def resizeRuns (f : Nat → Nat) (t : Text) : Text :=
  resizeRunsFrom f 0 t

/-- `runs` in the middle of its work, with a run of `n` spaces behind it. -/
def runsFrom : Nat → Text → List Nat
  | n, [] => [n]
  | n, c :: t => if c = ' ' then runsFrom (n + 1) t else n :: runsFrom 0 t

/-- The lengths of the runs of spaces in front of, between and behind the other characters, which
are zero where there is no space. -/
def runs (t : Text) : List Nat :=
  runsFrom 0 t

/-- The text with a single space in the place of every maximal run of spaces. -/
def squeeze (t : Text) : Text :=
  resizeRuns (min 1) t

theorem resizeRunsFrom_space (f : Nat → Nat) (n : Nat) (t : Text) :
    resizeRunsFrom f n (' ' :: t) = resizeRunsFrom f (n + 1) t := by
  rw [resizeRunsFrom, if_pos rfl]

theorem resizeRunsFrom_cons (f : Nat → Nat) (n : Nat) {c : Char} (hc : c ≠ ' ') (t : Text) :
    resizeRunsFrom f n (c :: t) = List.replicate (f n) ' ' ++ c :: resizeRunsFrom f 0 t := by
  rw [resizeRunsFrom, if_neg hc]

theorem runsFrom_space (n : Nat) (t : Text) : runsFrom n (' ' :: t) = runsFrom (n + 1) t := by
  rw [runsFrom, if_pos rfl]

theorem runsFrom_cons (n : Nat) {c : Char} (hc : c ≠ ' ') (t : Text) :
    runsFrom n (c :: t) = n :: runsFrom 0 t := by
  rw [runsFrom, if_neg hc]

/-- Runs that keep their lengths leave the text as it is. -/
theorem resizeRunsFrom_id (n : Nat) (t : Text) :
    resizeRunsFrom id n t = List.replicate n ' ' ++ t := by
  induction t generalizing n with
  | nil => exact (List.append_nil _).symm
  | cons c t ih =>
    by_cases hc : c = ' '
    · subst hc
      rw [resizeRunsFrom_space, ih, List.replicate_succ', List.append_assoc]
      rfl
    · rw [resizeRunsFrom_cons id n hc, ih]
      rfl

theorem resizeRunsFrom_congr {f g : Nat → Nat} {n : Nat} {t : Text}
    (h : ∀ k ∈ runsFrom n t, f k = g k) : resizeRunsFrom f n t = resizeRunsFrom g n t := by
  induction t generalizing n with
  | nil =>
    have hn : f n = g n := h n (by simp [runsFrom])
    rw [resizeRunsFrom, resizeRunsFrom, hn]
  | cons c t ih =>
    by_cases hc : c = ' '
    · subst hc
      rw [runsFrom_space] at h
      rw [resizeRunsFrom_space, resizeRunsFrom_space, ih h]
    · rw [runsFrom_cons n hc] at h
      have hn : f n = g n := h n (by simp)
      rw [resizeRunsFrom_cons f n hc, resizeRunsFrom_cons g n hc, hn,
        ih fun k hk => h k (by simp [hk])]

theorem replicate_infix_replicate_iff {m n : Nat} {c : Char} :
    List.replicate m c <:+: List.replicate n c ↔ m ≤ n := by
  constructor
  · intro h
    simpa using h.length_le
  · intro h
    refine ⟨[], List.replicate (n - m) c, ?_⟩
    rw [List.nil_append, ← List.replicate_add, Nat.add_sub_cancel' h]

/-- How many spaces in a row there are behind a change of lengths. -/
theorem replicate_infix_resizeRunsFrom_iff (m : Nat) (f : Nat → Nat) (n : Nat) (t : Text) :
    List.replicate m ' ' <:+: resizeRunsFrom f n t ↔ ∃ k ∈ runsFrom n t, m ≤ f k := by
  induction t generalizing n with
  | nil =>
    rw [resizeRunsFrom, replicate_infix_replicate_iff]
    simp [runsFrom]
  | cons c t ih =>
    by_cases hc : c = ' '
    · subst hc
      rw [resizeRunsFrom_space, runsFrom_space, ih]
    · have hmem : c ∉ List.replicate m ' ' := fun h => hc (List.eq_of_mem_replicate h)
      rw [resizeRunsFrom_cons f n hc, runsFrom_cons n hc, infix_append_cons_iff hmem,
        replicate_infix_replicate_iff, ih, List.exists_mem_cons_iff]

/-- The runs of a text tell how many spaces in a row there are. -/
theorem replicate_infix_iff (m : Nat) (t : Text) :
    List.replicate m ' ' <:+: t ↔ ∃ k ∈ runs t, m ≤ k := by
  have hruns := replicate_infix_resizeRunsFrom_iff m id 0 t
  rwa [resizeRunsFrom_id] at hruns

theorem not_doubled_infix_squeeze (t : Text) : ¬ [' ', ' '] <:+: squeeze t := by
  intro h
  obtain ⟨k, -, hk⟩ := (replicate_infix_resizeRunsFrom_iff 2 (min 1) 0 t).1 h
  omega

/-! ### One pass over doubled spaces -/

/-- One pass over a run of spaces halves it, rounding up. -/
theorem replaceAll_doubled_replicate {rest : Text} (h : ∀ c ∈ rest.head?, c ≠ ' ') (n : Nat) :
    replaceAll [' ', ' '] [' '] (List.replicate n ' ' ++ rest) =
      List.replicate ((n + 1) / 2) ' ' ++ replaceAll [' ', ' '] [' '] rest := by
  match n with
  | 0 => rfl
  | 1 =>
    -- A single space is not doubled by what follows it.
    refine replaceAll_append (a := [' ']) ⟨?_, trivial⟩ _
    intro hp
    obtain ⟨-, hp⟩ := List.cons_prefix_cons.1 hp
    cases rest with
    | nil => exact absurd (List.prefix_nil.1 hp) (by simp)
    | cons c rest => exact h c rfl (List.cons_prefix_cons.1 hp).1.symm
  | n + 2 =>
    have ih := replaceAll_doubled_replicate h n
    have hhalf : (n + 2 + 1) / 2 = (n + 1) / 2 + 1 := by omega
    have hpair : List.replicate (n + 2) ' ' ++ rest =
        [' ', ' '] ++ (List.replicate n ' ' ++ rest) := rfl
    rw [hpair, replaceAll_self_append (by simp), ih, hhalf]
    rfl

theorem replaceAll_doubled_from (n : Nat) (t : Text) :
    replaceAll [' ', ' '] [' '] (List.replicate n ' ' ++ t) =
      resizeRunsFrom (fun k => (k + 1) / 2) n t := by
  induction t generalizing n with
  | nil =>
    rw [replaceAll_doubled_replicate (by simp), replaceAll_nil, List.append_nil]
    rfl
  | cons c t ih =>
    by_cases hc : c = ' '
    · subst hc
      rw [resizeRunsFrom_space, ← ih (n + 1), List.replicate_succ', List.append_assoc]
      rfl
    · have hhead : ∀ d ∈ (c :: t).head?, d ≠ ' ' := by
        intro d hd
        cases hd
        exact hc
      have hpass : replaceAll [' ', ' '] [' '] (c :: t) =
          c :: replaceAll [' ', ' '] [' '] t :=
        replaceAll_append (a := [c]) (noStart_of_not_mem (by simpa using Ne.symm hc) t) _
      rw [replaceAll_doubled_replicate hhead, hpass, resizeRunsFrom_cons _ n hc, ← ih 0]
      rfl

/-- One pass over doubled spaces halves every run of spaces, rounding up. -/
theorem replaceAll_doubled_eq (t : Text) :
    replaceAll [' ', ' '] [' '] t = resizeRuns (fun k => (k + 1) / 2) t :=
  replaceAll_doubled_from 0 t

/-! ### Squeezing part by part -/

/-- A run ends in front of any other character. -/
theorem resizeRunsFrom_append_cons (f : Nat → Nat) (n : Nat) (a : Text) {c : Char} (hc : c ≠ ' ')
    (b : Text) :
    resizeRunsFrom f n (a ++ c :: b) = resizeRunsFrom f n a ++ c :: resizeRunsFrom f 0 b := by
  induction a generalizing n with
  | nil => exact resizeRunsFrom_cons f n hc b
  | cons d a ih =>
    by_cases hd : d = ' '
    · subst hd
      rw [List.cons_append, resizeRunsFrom_space, resizeRunsFrom_space, ih]
    · rw [List.cons_append, resizeRunsFrom_cons f n hd, resizeRunsFrom_cons f n hd, ih,
        List.append_assoc, List.cons_append]

theorem squeeze_append_cons (a : Text) {c : Char} (hc : c ≠ ' ') (b : Text) :
    squeeze (a ++ c :: b) = squeeze a ++ c :: squeeze b :=
  resizeRunsFrom_append_cons (min 1) 0 a hc b

theorem squeeze_cons {c : Char} (hc : c ≠ ' ') (b : Text) : squeeze (c :: b) = c :: squeeze b :=
  squeeze_append_cons [] hc b

/-- A text without characters of a class at its ends has no spaces there, if the class has them. -/
theorem EndsClear.space {p : Char → Bool} {t : Text} (ht : EndsClear p t) (hspace : p ' ' = true) :
    EndsClear (· == ' ') t := by
  have hne : ∀ {c : Char}, p c = false → (c == ' ') = false := by
    intro c hc
    rw [beq_eq_false_iff_ne]
    rintro rfl
    rw [hspace] at hc
    cases hc
  exact ⟨fun c hc => hne (ht.head c hc), fun c hc => hne (ht.last c hc)⟩

/-- What stands around a text without spaces at its ends is squeezed on its own. -/
theorem squeeze_append_append {t : Text} (hne : t ≠ []) (ht : EndsClear (· == ' ') t)
    (front back : Text) :
    squeeze (front ++ t ++ back) = squeeze front ++ squeeze t ++ squeeze back := by
  have hback : squeeze (t ++ back) = squeeze t ++ squeeze back := by
    rcases List.eq_nil_or_concat t with rfl | ⟨u, d, rfl⟩
    · exact absurd rfl hne
    · have hd : d ≠ ' ' := by simpa using ht.last d (by simp)
      rw [List.concat_eq_append, List.append_assoc, List.singleton_append,
        squeeze_append_cons u hd back, squeeze_append_cons u hd [], List.append_assoc]
      rfl
  cases t with
  | nil => exact absurd rfl hne
  | cons c t =>
    have hc : c ≠ ' ' := by simpa using ht.head c rfl
    rw [squeeze_cons hc] at hback ⊢
    rw [List.append_assoc, List.cons_append, squeeze_append_cons front hc, List.append_assoc,
      ← hback, List.cons_append, squeeze_cons hc]

theorem endsClear_squeeze {p : Char → Bool} {t : Text} (hspace : p ' ' = true)
    (ht : EndsClear p t) : EndsClear p (squeeze t) := by
  have hends := ht.space hspace
  refine ⟨?_, ?_⟩
  · cases t with
    | nil => exact ht.head
    | cons c t =>
      have hc : c ≠ ' ' := by simpa using hends.head c rfl
      rw [squeeze_cons hc]
      exact ht.head
  · rcases List.eq_nil_or_concat t with rfl | ⟨u, d, rfl⟩
    · exact ht.last
    · rw [List.concat_eq_append] at ht hends ⊢
      have hd : d ≠ ' ' := by simpa using hends.last d (by simp)
      rw [squeeze_append_cons u hd]
      exact last_concat (ht.last d (by simp)) (squeeze u)

/-- Squeezing keeps everything but spaces. -/
theorem filter_resizeRunsFrom (f : Nat → Nat) (n : Nat) (t : Text) :
    (resizeRunsFrom f n t).filter (· != ' ') = t.filter (· != ' ') := by
  have hspaces : ∀ k : Nat, (List.replicate k ' ').filter (· != ' ') = [] := by
    intro k
    rw [List.filter_eq_nil_iff]
    intro c hc
    simp [List.eq_of_mem_replicate hc]
  induction t generalizing n with
  | nil => exact hspaces (f n)
  | cons c t ih =>
    by_cases hc : c = ' '
    · subst hc
      rw [resizeRunsFrom_space, ih]
      rfl
    · have hkeep : (c != ' ') = true := by simpa using hc
      rw [resizeRunsFrom_cons f n hc, List.filter_append, hspaces, List.nil_append,
        List.filter_cons_of_pos (p := (· != ' ')) hkeep,
        List.filter_cons_of_pos (p := (· != ' ')) hkeep, ih]

theorem mem_of_mem_squeeze {c : Char} (hc : c ≠ ' ') {t : Text} (h : c ∈ squeeze t) : c ∈ t := by
  have hmem : c ∈ (squeeze t).filter (· != ' ') := List.mem_filter.2 ⟨h, by simpa using hc⟩
  unfold squeeze resizeRuns at hmem
  rw [filter_resizeRunsFrom] at hmem
  exact (List.mem_filter.1 hmem).1

theorem squeeze_of_class {p : Char → Bool} (hspace : p ' ' = true) {t : Text}
    (ht : ∀ c ∈ t, p c = true) : ∀ c ∈ squeeze t, p c = true := by
  intro c hc
  by_cases hblank : c = ' '
  · rw [hblank]
    exact hspace
  · exact ht c (mem_of_mem_squeeze hblank hc)

/-- Spaces are taken off at the ends and squeezed in any order. -/
theorem trimBy_squeeze {p : Char → Bool} (hspace : p ' ' = true) (t : Text) :
    trimBy p (squeeze t) = squeeze (trimBy p t) := by
  obtain ⟨front, back, hfront, hback, heq⟩ := exists_eq_append_trimBy p t
  have hclear := endsClear_trimBy p t
  by_cases hnil : trimBy p t = []
  · -- Nothing is left, so there are only characters of the class.
    have hall : ∀ c ∈ t, p c = true := by
      rw [heq, hnil, List.append_nil]
      simpa [or_imp, forall_and] using ⟨hfront, hback⟩
    rw [hnil]
    exact trimBy_append_of_all (squeeze_of_class hspace hall) []
  · have hsqueeze := squeeze_append_append hnil (hclear.space hspace) front back
    rw [← heq] at hsqueeze
    rw [hsqueeze]
    exact trimBy_append_append (endsClear_squeeze hspace hclear) _ _
      (squeeze_of_class hspace hfront) (squeeze_of_class hspace hback)

/-- Lengths are changed twice as they are changed once. -/
theorem resizeRunsFrom_resizeRunsFrom (f g : Nat → Nat) (n : Nat) (t : Text) :
    resizeRuns g (resizeRunsFrom f n t) = resizeRunsFrom (g ∘ f) n t := by
  have hspaces : ∀ m k : Nat,
      resizeRunsFrom g m (List.replicate k ' ') = List.replicate (g (m + k)) ' ' := by
    intro m k
    induction k generalizing m with
    | zero => rfl
    | succ k ih =>
      rw [List.replicate_succ, resizeRunsFrom_space, ih, Nat.add_right_comm, Nat.add_assoc]
  have hrun : ∀ k : Nat, resizeRunsFrom g 0 (List.replicate k ' ') = List.replicate (g k) ' ' := by
    intro k
    rw [hspaces, Nat.zero_add]
  unfold resizeRuns
  induction t generalizing n with
  | nil => exact hrun (f n)
  | cons c t ih =>
    by_cases hc : c = ' '
    · subst hc
      rw [resizeRunsFrom_space, resizeRunsFrom_space, ih]
    · rw [resizeRunsFrom_cons f n hc, resizeRunsFrom_append_cons g 0 _ hc, hrun, ih,
        resizeRunsFrom_cons (g ∘ f) n hc]
      rfl

/-- A text without doubled spaces has nothing to squeeze. -/
theorem squeeze_eq_self {t : Text} (h : ¬ [' ', ' '] <:+: t) : squeeze t = t := by
  have hid : squeeze t = resizeRunsFrom id 0 t := by
    refine resizeRunsFrom_congr fun k hk => ?_
    have hle : ¬ 2 ≤ k := fun hge => h ((replicate_infix_iff 2 t).2 ⟨k, hk, hge⟩)
    show min 1 k = k
    omega
  rw [hid, resizeRunsFrom_id]
  rfl

/-! ### Empty words -/

/-- Between words there is an empty one exactly where a space is doubled. -/
theorem nil_mem_splitChar_iff {t : Text} (hne : t ≠ []) (ht : EndsClear (· == ' ') t) :
    [] ∈ splitChar ' ' t ↔ [' ', ' '] <:+: t := by
  constructor
  · intro h
    obtain ⟨us, vs, hsplit⟩ := List.append_of_mem h
    have hjoin := joinWith_splitChar ' ' t
    rw [hsplit] at hjoin
    -- The empty word is neither the first nor the last, as there is no space at the ends.
    by_cases hus : us = []
    · rw [hus, List.nil_append, joinWith_cons_eq_append, List.nil_append] at hjoin
      split at hjoin
      · exact absurd hjoin.symm hne
      · rw [← hjoin] at ht
        exact absurd (ht.head ' ' rfl) (by decide)
    · by_cases hvs : vs = []
      · rw [hvs, joinWith_append hus (by simp)] at hjoin
        change joinWith [' '] us ++ [' '] ++ [] = t at hjoin
        rw [List.append_nil] at hjoin
        rw [← hjoin] at ht
        exact absurd (ht.last ' ' (by simp)) (by decide)
      · rw [joinWith_append hus (by simp), joinWith_cons hvs, List.nil_append] at hjoin
        refine ⟨joinWith [' '] us, joinWith [' '] vs, ?_⟩
        rw [← hjoin]
        simp
  · rintro ⟨a, b, rfl⟩
    have hsplit : a ++ [' ', ' '] ++ b = a ++ ' ' :: ([] ++ ' ' :: b) := by simp
    rw [hsplit, splitChar_append_sep, splitChar_append_sep]
    simp [splitChar]

/-! ### A run that has begun -/

theorem replicate_min_one (n : Nat) : List.replicate (min 1 (n + 1)) ' ' = [' '] := by
  have hmin : min 1 (n + 1) = 1 := by omega
  rw [hmin]
  rfl

/-- A run that has begun starts with its one space. -/
theorem exists_squeezed_eq_cons (n : Nat) (t : Text) :
    ∃ u, resizeRunsFrom (min 1) (n + 1) t = ' ' :: u := by
  induction t generalizing n with
  | nil => exact ⟨[], replicate_min_one n⟩
  | cons c t ih =>
    by_cases hc : c = ' '
    · subst hc
      rw [resizeRunsFrom_space]
      exact ih (n + 1)
    · rw [resizeRunsFrom_cons _ _ hc, replicate_min_one]
      exact ⟨_, rfl⟩

/-- A run at the end keeps one space. -/
theorem exists_squeezed_eq_concat (n : Nat) (t : Text) :
    ∃ u, resizeRunsFrom (min 1) n (t ++ [' ']) = u ++ [' '] := by
  induction t generalizing n with
  | nil => exact ⟨[], replicate_min_one n⟩
  | cons c t ih =>
    by_cases hc : c = ' '
    · subst hc
      rw [List.cons_append, resizeRunsFrom_space]
      exact ih (n + 1)
    · obtain ⟨u, hu⟩ := ih 0
      rw [List.cons_append, resizeRunsFrom_cons _ n hc, hu]
      exact ⟨_, by rw [← List.cons_append, ← List.append_assoc]⟩

/-! ### A word between spaces -/

section Spaced
variable {word : Text} (hword : ' ' ∉ word)
include hword

/-- Whether a word between spaces starts in front of a space is seen up to that space. -/
theorem noStart_spaced_iff (a rest : Text) :
    NoStart (' ' :: (word ++ [' '])) a (' ' :: rest) ↔
      ¬ ' ' :: (word ++ [' ']) <:+: a ++ [' '] := by
  induction a with
  | nil =>
    refine iff_of_true trivial ?_
    intro h
    have hlength := h.length_le
    simp at hlength
  | cons c a ih =>
    have hsame : ' ' :: (word ++ [' ']) <+: c :: (a ++ ' ' :: rest) ↔
        ' ' :: (word ++ [' ']) <+: c :: (a ++ [' ']) := by
      rw [List.cons_prefix_cons, List.cons_prefix_cons]
      refine and_congr_right fun _ => ⟨fun hp => ?_, fun hp => ?_⟩
      · have hfront : word ++ [' '] <+: (a ++ [' ']) ++ rest := by simpa using hp
        rcases List.prefix_or_prefix_of_prefix hfront (List.prefix_append _ rest) with hp | hp
        · exact hp
        · -- The word does not reach over the space.
          rcases List.prefix_concat_iff.1 hp with heq | hp
          · exact heq ▸ List.prefix_rfl
          · exact absurd (hp.subset (by simp)) hword
      · exact hp.trans ⟨rest, by simp⟩
    rw [NoStart, hsame, ih, List.cons_append, List.infix_cons_iff, not_or]

/-- A word that a space follows is the same in the squeezed text. -/
theorem prefix_of_prefix_squeeze {t : Text} (h : word ++ [' '] <+: squeeze t) :
    word ++ [' '] <+: t := by
  induction word generalizing t with
  | nil =>
    cases t with
    | nil => exact h
    | cons c t =>
      by_cases hc : c = ' '
      · subst hc
        exact List.prefix_append [' '] t
      · rw [squeeze_cons hc] at h
        exact absurd (List.cons_prefix_cons.1 h).1.symm hc
  | cons d word ih =>
    rw [List.mem_cons, not_or] at hword
    cases t with
    | nil => exact h
    | cons c t =>
      by_cases hc : c = ' '
      · subst hc
        obtain ⟨u, hu⟩ := exists_squeezed_eq_cons 0 t
        change _ <+: resizeRunsFrom (min 1) 0 (' ' :: t) at h
        rw [resizeRunsFrom_space, hu] at h
        exact absurd (List.cons_prefix_cons.1 h).1.symm hword.1
      · rw [squeeze_cons hc, List.cons_append, List.cons_prefix_cons] at h
        rw [List.cons_append, List.cons_prefix_cons]
        exact ⟨h.1, ih hword.2 h.2⟩

/-- A word between spaces is not made by squeezing. -/
theorem infix_of_infix_squeezed (hne : word ≠ []) {n : Nat} {t : Text}
    (h : ' ' :: (word ++ [' ']) <:+: resizeRunsFrom (min 1) n t) :
    ' ' :: (word ++ [' ']) <:+: List.replicate n ' ' ++ t := by
  induction t generalizing n with
  | nil =>
    obtain ⟨d, hd⟩ := List.exists_mem_of_ne_nil word hne
    have hmem : d ∈ List.replicate (min 1 n) ' ' := h.subset (by simp [hd])
    rw [List.eq_of_mem_replicate hmem] at hd
    exact absurd hd hword
  | cons c t ih =>
    by_cases hc : c = ' '
    · subst hc
      rw [resizeRunsFrom_space] at h
      have hlater := ih h
      rwa [List.replicate_succ', List.append_assoc] at hlater
    · rw [resizeRunsFrom_cons _ n hc] at h
      have hlater : ' ' :: (word ++ [' ']) <:+: c :: resizeRunsFrom (min 1) 0 t →
          ' ' :: (word ++ [' ']) <:+: List.replicate n ' ' ++ c :: t := by
        intro hocc
        have hp : ¬ ' ' :: (word ++ [' ']) <+: c :: resizeRunsFrom (min 1) 0 t :=
          fun hp => hc (List.cons_prefix_cons.1 hp).1.symm
        exact (ih ((List.infix_cons_iff.1 hocc).resolve_left hp)).trans
          ((List.suffix_cons c t).trans (List.suffix_append _ _)).isInfix
      cases n with
      | zero => exact hlater h
      | succ n =>
        rw [replicate_min_one] at h
        rcases List.infix_cons_iff.1 h with hp | hocc
        · -- The word stands behind the run, whose last space is the one in front of it.
          have hnext : word ++ [' '] <+: squeeze (c :: t) := by
            rw [squeeze_cons hc]
            exact (List.cons_prefix_cons.1 hp).2
          have hstart : ' ' :: (word ++ [' ']) <+: ' ' :: c :: t :=
            List.cons_prefix_cons.2 ⟨rfl, prefix_of_prefix_squeeze hword hnext⟩
          rw [List.replicate_succ', List.append_assoc]
          exact hstart.isInfix.trans (List.suffix_append _ _).isInfix
        · exact hlater hocc

theorem infix_of_infix_squeeze (hne : word ≠ []) {t : Text}
    (h : ' ' :: (word ++ [' ']) <:+: squeeze t) : ' ' :: (word ++ [' ']) <:+: t :=
  infix_of_infix_squeezed hword hne h

/-- In the squeezed text a word between spaces is cut off where it is in the text, with the space in
front of it as the only one. -/
theorem beforeFirst_squeeze (hne : word ≠ []) {t : Text} (h : ' ' :: (word ++ [' ']) <:+: t) :
    beforeFirst (' ' :: (word ++ [' '])) (squeeze t) ++ [' '] =
      squeeze (beforeFirst (' ' :: (word ++ [' '])) t ++ [' ']) := by
  obtain ⟨rest, ht, hstart⟩ := exists_eq_beforeFirst_append h
  generalize beforeFirst (' ' :: (word ++ [' '])) t = a at ht hstart ⊢
  obtain ⟨a', ha'⟩ : ∃ a', squeeze (a ++ [' ']) = a' ++ [' '] := exists_squeezed_eq_concat 0 a
  obtain ⟨rest', hrest'⟩ : ∃ rest', squeeze (' ' :: rest) = ' ' :: rest' := by
    obtain ⟨u, hu⟩ := exists_squeezed_eq_cons 0 rest
    exact ⟨u, (resizeRunsFrom_space _ 0 rest).trans hu⟩
  have hclear : EndsClear (· == ' ') word := by
    have hnot : ∀ c ∈ word, (c == ' ') = false := by
      intro c hc
      rw [beq_eq_false_iff_ne]
      rintro rfl
      exact hword hc
    exact ⟨fun c hc => hnot c (List.mem_of_mem_head? hc), fun c hc => hnot c (List.mem_of_getLast? hc)⟩
  have hword' : squeeze word = word := by
    refine squeeze_eq_self fun hdouble => hword (hdouble.subset (by simp))
  have hsqueeze : squeeze t = a' ++ (' ' :: (word ++ [' ']) ++ rest') := by
    have hparts : t = a ++ [' '] ++ word ++ ' ' :: rest := by
      rw [ht]
      simp
    rw [hparts, squeeze_append_append hne hclear, ha', hrest', hword']
    simp
  have hfirst : NoStart (' ' :: (word ++ [' '])) a' (' ' :: (word ++ [' ']) ++ rest') := by
    rw [List.cons_append, noStart_spaced_iff hword] at hstart ⊢
    rw [← ha']
    exact fun hocc => hstart (infix_of_infix_squeeze hword hne hocc)
  rw [hsqueeze, beforeFirst_append (List.cons_ne_nil _ _) hfirst, ha']

end Spaced

/-! ### Cuts -/

theorem beforeChar_squeeze {c : Char} (hc : c ≠ ' ') (t : Text) :
    beforeChar c (squeeze t) = squeeze (beforeChar c t) := by
  by_cases hmem : c ∈ t
  · obtain ⟨a, b, rfl, ha⟩ := List.eq_append_cons_of_mem hmem
    have hcut : c ∉ squeeze a := fun h => ha (mem_of_mem_squeeze hc h)
    rw [squeeze_append_cons a hc, beforeChar_append_cons hcut, beforeChar_append_cons ha]
  · rw [beforeChar_of_not_mem hmem, beforeChar_of_not_mem fun h => hmem (mem_of_mem_squeeze hc h)]

theorem resizeRunsFrom_append_spaces (n : Nat) (t : Text) :
    resizeRunsFrom (min 1) n (t ++ [' ', ' ']) = resizeRunsFrom (min 1) n (t ++ [' ']) := by
  induction t generalizing n with
  | nil => exact (replicate_min_one (n + 1)).trans (replicate_min_one n).symm
  | cons c t ih =>
    rw [List.cons_append, List.cons_append]
    by_cases hc : c = ' '
    · subst hc
      rw [resizeRunsFrom_space, resizeRunsFrom_space, ih]
    · rw [resizeRunsFrom_cons _ n hc, resizeRunsFrom_cons _ n hc, ih]

/-- A space behind a text is kept unless there is one already. -/
theorem squeeze_append_space (t : Text) :
    squeeze (t ++ [' ']) = if t.getLast? = some ' ' then squeeze t else squeeze t ++ [' '] := by
  rcases List.eq_nil_or_concat t with rfl | ⟨u, d, rfl⟩
  · rfl
  · rw [List.concat_eq_append, List.getLast?_concat]
    by_cases hd : d = ' '
    · subst hd
      rw [if_pos rfl, List.append_assoc]
      exact resizeRunsFrom_append_spaces 0 u
    · rw [if_neg (by simpa using hd), List.append_assoc, List.singleton_append,
        squeeze_append_cons u hd, squeeze_append_cons u hd, List.append_assoc]
      rfl

/-- Two texts that a space makes one squeezed text are the same up to white space. -/
theorem trim_eq_squeeze_trim {t u : Text} (h : u ++ [' '] = squeeze (t ++ [' '])) :
    trim u = squeeze (trim t) := by
  have hspace : ∀ c ∈ [' '], isBlank c = true := by
    intro c hc
    rw [List.mem_singleton.1 hc]
    decide
  have hu : trim (u ++ [' ']) = trim u := trimBy_append_of_all hspace u
  have ht : trim (t ++ [' ']) = trim t := trimBy_append_of_all hspace t
  have hswap : trim (squeeze (t ++ [' '])) = squeeze (trim (t ++ [' '])) :=
    trimBy_squeeze (by decide) _
  rw [← hu, h, hswap, ht]

/-- Squeezing keeps everything that is not white space. -/
theorem countP_squeeze (t : Text) :
    (squeeze t).countP (fun c => !isBlank c) = t.countP (fun c => !isBlank c) := by
  have hfilter : ∀ u : Text, u.countP (fun c => !isBlank c) =
      (u.filter (· != ' ')).countP (fun c => !isBlank c) := by
    intro u
    rw [List.countP_filter]
    refine List.countP_congr fun c _ => ?_
    simp only [Bool.not_eq_true', Bool.and_eq_true, bne_iff_ne]
    refine ⟨fun h => ⟨h, ?_⟩, fun h => h.1⟩
    rintro rfl
    revert h
    decide
  rw [hfilter, hfilter t]
  exact congrArg _ (filter_resizeRunsFrom (min 1) 0 t)

end Text

end DeclSurvey
