import Runbook.Stack

/-!
# The depth of values

How deep the text of a value nests. A value that JSON lacks is displayed, which takes levels of its
own; the point at which a collection holds itself is found at once.
-/

namespace Runbook

variable [Stack]

/-- The levels that the text of a scalar takes. -/
def Scalar.depth : Scalar → Nat
  | null | bool _ | int _ | float _ | str _ | wild _ => 0
  | s => Stack.display (.scalar s)

namespace Value

mutual

/-- The levels that the text of a value takes. -/
def depth : Value → Nat
  | scalar s => s.depth
  | list items => itemsDepth items + 1
  | mapping entries => entriesDepth entries + 1
  | set members => Stack.display (set members)
  | pair a b => max (depth a) (depth b) + 1
  | endless _ => 0

/-- The greatest number of levels among items. -/
def itemsDepth : List Value → Nat
  | [] => 0
  | v :: r => max (depth v) (itemsDepth r)

/-- The greatest number of levels among entries. -/
def entriesDepth : List (Scalar × Value) → Nat
  | [] => 0
  | (_, v) :: r => max (depth v) (entriesDepth r)

end

theorem depth_le_itemsDepth {items : List Value} {v : Value} (h : v ∈ items) :
    v.depth ≤ itemsDepth items := by
  induction items with
  | nil => cases h
  | cons w r ih =>
    rw [itemsDepth]
    obtain rfl | h := List.mem_cons.1 h
    · exact Nat.le_max_left _ _
    · exact Nat.le_trans (ih h) (Nat.le_max_right _ _)

theorem depth_le_entriesDepth {entries : List (Scalar × Value)} {e : Scalar × Value}
    (h : e ∈ entries) : e.2.depth ≤ entriesDepth entries := by
  induction entries with
  | nil => cases h
  | cons f r ih =>
    rw [entriesDepth]
    obtain rfl | h := List.mem_cons.1 h
    · exact Nat.le_max_left _ _
    · exact Nat.le_trans (ih h) (Nat.le_max_right _ _)

theorem entriesDepth_le {entries : List (Scalar × Value)} {n : Nat}
    (h : ∀ e ∈ entries, e.2.depth ≤ n) : entriesDepth entries ≤ n := by
  induction entries with
  | nil => exact Nat.zero_le n
  | cons e r ih =>
    rw [entriesDepth]
    exact Nat.max_le.2 ⟨h e List.mem_cons_self, ih fun f hf => h f (List.mem_cons_of_mem _ hf)⟩

theorem depth_member_le {members : List Scalar} {s : Scalar} (h : s ∈ members) :
    (scalar s).depth ≤ (set members).depth := by
  have hdisplay : Stack.display (scalar s) ≤ Stack.display (set members) := Stack.display_member h
  cases s with
  | null | bool | int | float | str | wild => exact Nat.zero_le _
  | date | moment | bytes => exact hdisplay

end Value
end Runbook
