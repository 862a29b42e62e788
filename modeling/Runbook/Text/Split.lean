/-!
# Pieces of a text

A text cut at every occurrence of a separator. Joining the pieces again gives the text back.
-/

namespace Runbook

/-- The pieces of a list between separators, empty ones included. -/
def pieces (separator : Char) : List Char → List (List Char)
  | [] => [[]]
  | c :: r =>
    if c = separator then [] :: pieces separator r
    else match pieces separator r with
      | s :: rest => (c :: s) :: rest
      | [] => [[c]]

theorem pieces_ne_nil (separator : Char) (cs : List Char) : pieces separator cs ≠ [] := by
  cases cs with
  | nil => simp [pieces]
  | cons c r =>
    simp only [pieces]
    split
    · simp
    · split <;> simp

/-- The pieces joined by the separator are the text. -/
theorem intercalate_pieces (separator : Char) (cs : List Char) :
    [separator].intercalate (pieces separator cs) = cs := by
  induction cs with
  | nil => rfl
  | cons c r ih =>
    by_cases h : c = separator
    · obtain ⟨s, rest, hs⟩ := List.exists_cons_of_ne_nil (pieces_ne_nil separator r)
      simp_all [pieces, List.intercalate]
    · obtain ⟨s, rest, hs⟩ := List.exists_cons_of_ne_nil (pieces_ne_nil separator r)
      rw [hs] at ih
      simp only [pieces, h, hs, if_false]
      cases rest <;> simp_all [List.intercalate, List.intersperse]

/-- A text without the separator is one piece. -/
theorem pieces_of_not_mem {c : Char} {cs : List Char} (h : c ∉ cs) : pieces c cs = [cs] := by
  induction cs with
  | nil => rfl
  | cons d r ih =>
    simp only [List.mem_cons, not_or] at h
    simp [pieces, Ne.symm h.1, ih h.2]

/-- The pieces on both sides of a separator. -/
theorem pieces_append_cons (separator : Char) (cs ds : List Char) :
    pieces separator (cs ++ separator :: ds) = pieces separator cs ++ pieces separator ds := by
  induction cs with
  | nil => simp [pieces]
  | cons c r ih =>
    rw [List.cons_append, pieces, pieces, ih]
    split
    · rfl
    · obtain ⟨s, rest, hs⟩ := List.exists_cons_of_ne_nil (pieces_ne_nil separator r)
      rw [hs]
      rfl

/-- Texts without the separator are the pieces of what they are joined to. -/
theorem pieces_intercalate {separator : Char} {l : List (List Char)} (hne : l ≠ [])
    (h : ∀ t ∈ l, separator ∉ t) : pieces separator ([separator].intercalate l) = l := by
  induction l with
  | nil => exact absurd rfl hne
  | cons t r ih =>
    obtain ⟨ht, hr⟩ := List.forall_mem_cons.1 h
    cases r with
    | nil => rw [List.intercalate_singleton, pieces_of_not_mem ht]
    | cons t' r =>
      rw [List.intercalate_cons_cons, List.append_assoc, List.singleton_append,
        pieces_append_cons, pieces_of_not_mem ht, ih (List.cons_ne_nil _ _) hr,
        List.singleton_append]

/-- No piece has the separator in it. -/
theorem notMem_of_mem_pieces {separator : Char} {cs t : List Char}
    (h : t ∈ pieces separator cs) : separator ∉ t := by
  induction cs generalizing t with
  | nil =>
    rw [pieces, List.mem_singleton] at h
    rw [h]
    exact List.not_mem_nil
  | cons c r ih =>
    rw [pieces] at h
    split at h
    · obtain rfl | h := List.mem_cons.1 h
      · exact List.not_mem_nil
      · exact ih h
    · next hc =>
      obtain ⟨s, rest, hs⟩ := List.exists_cons_of_ne_nil (pieces_ne_nil separator r)
      rw [hs] at h ih
      obtain rfl | h := List.mem_cons.1 h
      · exact List.not_mem_cons_of_ne_of_not_mem (Ne.symm hc) (ih (.head _))
      · exact ih (.tail _ h)

/-- There is one piece more than there are separators. -/
theorem length_pieces (separator : Char) (cs : List Char) :
    (pieces separator cs).length = cs.count separator + 1 := by
  induction cs with
  | nil => rfl
  | cons c r ih =>
    rw [pieces]
    split
    · next h => rw [h, List.count_cons_self, List.length_cons, ih]
    · next h =>
      obtain ⟨s, rest, hs⟩ := List.exists_cons_of_ne_nil (pieces_ne_nil separator r)
      rw [List.count_cons_of_ne h, ← ih, hs]
      rfl

end Runbook
