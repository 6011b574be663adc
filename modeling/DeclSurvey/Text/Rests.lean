/-! # Rests of a match

Matching a pattern step by step keeps the list of what a step can leave of a text.  These are the
lists for the common steps, over any alphabet. -/

namespace DeclSurvey

namespace Rests

variable {α : Type}

/-- All that can remain when a start is dropped, from everything down to nothing. -/
def suffixes : List α → List (List α)
  | [] => [[]]
  | a :: l => (a :: l) :: suffixes l

/-- What follows each element of a class. -/
def afterEach (p : α → Bool) : List α → List (List α)
  | [] => []
  | a :: l => if p a then l :: afterEach p l else afterEach p l

/-- What follows the first element, if that is in a class. -/
def afterOne (p : α → Bool) : List α → List (List α)
  | [] => []
  | a :: l => if p a then [l] else []

/-- All that can remain when elements of a class are dropped. -/
def afterRun (p : α → Bool) : List α → List (List α)
  | [] => [[]]
  | a :: l => if p a then (a :: l) :: afterRun p l else [a :: l]

theorem mem_suffixes_iff {l r : List α} : r ∈ suffixes l ↔ r <:+ l := by
  induction l with
  | nil => simp [suffixes]
  | cons a l ih => simp [suffixes, ih, List.suffix_cons_iff]

theorem mem_afterOne_iff {p : α → Bool} {l r : List α} :
    r ∈ afterOne p l ↔ ∃ a, p a = true ∧ l = a :: r := by
  cases l with
  | nil => simp [afterOne]
  | cons a l =>
    rw [afterOne]
    constructor
    · intro h
      split at h
      · next ha => exact ⟨a, ha, by rw [List.mem_singleton.1 h]⟩
      · cases h
    · rintro ⟨b, hb, heq⟩
      obtain ⟨rfl, rfl⟩ := List.cons.inj heq
      rw [if_pos hb]
      exact List.mem_singleton_self l

theorem suffix_of_mem_afterEach {p : α → Bool} {l r : List α} (h : r ∈ afterEach p l) :
    r <:+ l := by
  induction l with
  | nil => cases h
  | cons a l ih =>
    have hl : r ∈ l :: afterEach p l := by
      rw [afterEach] at h
      split at h
      · exact h
      · exact List.mem_cons_of_mem _ h
    rcases List.mem_cons.1 hl with rfl | hl
    · exact List.suffix_cons a _
    · exact (ih hl).trans (List.suffix_cons a l)

end Rests

end DeclSurvey
