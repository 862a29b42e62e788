import Runbook.Proofs.Condition.Laws

/-!
# The canonical form of conditions

How a text reads as a condition, said without the search for an operator (`Reads`), and which
conditions there are to be read (`IsCanonical`): those whose written form reads back as they are.

* `ofText_eq_iff`: reading finds the one condition that a text reads as;
* `ofText_canonical`: what is read is canonical, and what is canonical reads back.
-/

namespace Runbook

namespace Comparator

theorem sign_ne_nil (op : Comparator) : op.sign.toList ≠ [] := by
  cases op <;> decide

/-- The comparisons that stand before one in the order of priority are looked for before it. -/
theorem before_eq {op : Comparator} {pre post : List Comparator} (h : all = pre ++ op :: post) :
    op.before = pre := by
  have hnodup : (pre ++ op :: post).Nodup := h ▸ by decide
  have hne : ∀ other ∈ pre, decide (other ≠ op) = true := fun other hother =>
    decide_eq_true ((List.nodup_append.1 hnodup).2.2 other hother op List.mem_cons_self)
  rw [before, h, List.takeWhile_append_of_pos hne]
  simp

/-- Of the comparisons with a property one is looked for first. -/
theorem exists_first (P : Comparator → Prop) :
    (∀ op, ¬ P op) ∨ ∃ op, P op ∧ ∀ other ∈ op.before, ¬ P other := by
  classical
  cases h : all.find? (P ·) with
  | none => exact .inl fun op => by simpa using List.find?_eq_none.1 h op op.mem_all
  | some op =>
    obtain ⟨hop, pre, post, hall, hpre⟩ := List.find?_eq_some_iff_append.1 h
    refine .inr ⟨op, by simpa using hop, fun other hother => ?_⟩
    rw [before_eq hall] at hother
    simpa using hpre other hother

end Comparator

namespace Condition

/-- How a text reads as a condition: as a path if no operator occurs in it, and otherwise as the
comparison with the operator of the highest priority that occurs, parted where that operator occurs
first. -/
inductive Reads (s : String) : Condition → Prop
  | truth (h : ∀ op : Comparator, ¬ op.sign.toList <:+: s.toList) : Reads s (truth (trim s))
  | comparison {op : Comparator} {left right : String}
    (hsplit : s = left ++ op.sign ++ right)
    (hfirst : ¬ op.sign.toList <:+: left.toList ++ op.sign.toList.dropLast)
    (hbefore : ∀ other ∈ op.before, ¬ other.sign.toList <:+: s.toList) :
    Reads s (comparison (trim left) op (trim right))

/-- Whether a condition is made of what can stand where it stands: no operator is found in a path,
and none in an operand where it would be found before the one of the comparison. -/
def IsCanonical : Condition → Prop
  | truth path => IsOperand path
  | comparison left op right => Fits op left ∧ Fits op right ∧ ¬ op.sign.toList <:+: left.toList

theorem ofText_of_without {s : String} (h : ∀ op : Comparator, ¬ op.sign.toList <:+: s.toList) :
    ofText s = truth (trim s) := by
  have hread := readWith_append (fun op (_ : op ∈ Comparator.all) => h op) []
  rwa [List.append_nil] at hread

/-- A condition that is a path asks for the truth of the value there. -/
theorem satisfies_path (c : Context) {path : String} (h : IsOperand path) :
    c.satisfies path = (truth path).holds c.tree := by
  rw [Context.satisfies, ofText_of_without h.without, h.trimmed]

theorem ofText_of_splitFirst? {s : String} {op : Comparator} {left right : List Char}
    (hbefore : ∀ other ∈ op.before, ¬ other.sign.toList <:+: s.toList)
    (hsplit : splitFirst? op.sign.toList s.toList = some (left, right)) :
    ofText s = comparison (trim (.ofList left)) op (trim (.ofList right)) := by
  obtain ⟨after, hall⟩ := op.all_eq
  rw [ofText, hall, readWith_append hbefore, readWith, hsplit]
  simp [trim]

/-- **Reading finds the one condition that a text reads as.** -/
theorem ofText_eq_iff {s : String} {k : Condition} : ofText s = k ↔ Reads s k := by
  constructor
  · rintro rfl
    obtain hnone | ⟨op, hop, hbefore⟩ :=
      Comparator.exists_first fun op => op.sign.toList <:+: s.toList
    · rw [ofText_of_without hnone]
      exact .truth hnone
    · cases hsplit : splitFirst? op.sign.toList s.toList with
      | none => exact absurd hop ((splitFirst?_eq_none_iff _ _).1 hsplit)
      | some parts =>
        obtain ⟨left, right⟩ := parts
        obtain ⟨hs, hfirst⟩ := (splitFirst?_eq_some_iff op.sign_ne_nil).1 hsplit
        rw [ofText_of_splitFirst? hbefore hsplit]
        refine .comparison ?_ (by simpa using hfirst) hbefore
        rw [← String.toList_inj, hs]
        simp
  · intro h
    cases h with
    | truth hnone => exact ofText_of_without hnone
    | @comparison op left right hsplit hfirst hbefore =>
      have hparts : splitFirst? op.sign.toList s.toList = some (left.toList, right.toList) :=
        (splitFirst?_eq_some_iff op.sign_ne_nil).2 ⟨by simp [hsplit], hfirst⟩
      rw [ofText_of_splitFirst? hbefore hparts, String.ofList_toList, String.ofList_toList]

theorem trim_trim (s : String) : trim (trim s) = trim s := by
  simp [trim, trimBy_trimBy]

/-- What occurs in a trimmed text occurs in the text. -/
theorem infix_of_trim {p : List Char} {s : String} (h : p <:+: (trim s).toList) :
    p <:+: s.toList := by
  rw [trim, String.toList_ofList] at h
  exact h.trans (trimBy_isInfix isBlank s.toList)

/-- What a text reads as is canonical. -/
theorem Reads.isCanonical {s : String} {k : Condition} (h : Reads s k) : k.IsCanonical := by
  cases h with
  | truth hnone => exact ⟨trim_trim s, fun op hop => hnone op (infix_of_trim hop)⟩
  | @comparison op left right hsplit hfirst hbefore =>
    have hleft : left.toList <:+: s.toList := ⟨[], (op.sign ++ right).toList, by simp [hsplit]⟩
    have hright : right.toList <:+: s.toList := ⟨(left ++ op.sign).toList, [], by simp [hsplit]⟩
    refine ⟨⟨trim_trim left, fun other hother hop => ?_⟩,
      ⟨trim_trim right, fun other hother hop => ?_⟩, fun hop => ?_⟩
    · exact hbefore other hother ((infix_of_trim hop).trans hleft)
    · exact hbefore other hother ((infix_of_trim hop).trans hright)
    · exact hfirst ((infix_of_trim hop).trans (List.prefix_append _ _).isInfix)

/-- A canonical condition reads back. -/
theorem IsCanonical.ofText_text {k : Condition} (h : k.IsCanonical) : ofText k.text = k := by
  cases k with
  | truth path =>
    have hpath : IsOperand path := h
    rw [text, ofText_of_without hpath.without, hpath.trimmed]
  | comparison left op right => exact Condition.ofText_text h.1 h.2.1 h.2.2

/-- **The canonical form of conditions.** A text reads as exactly one condition, which is canonical;
and a canonical condition, written down, reads as itself. -/
theorem ofText_canonical (s : String) (k : Condition) :
    (ofText s = k ↔ Reads s k) ∧ (ofText s = k → k.IsCanonical) ∧
      (k.IsCanonical → ofText k.text = k) :=
  ⟨ofText_eq_iff, fun h => (ofText_eq_iff.1 h).isCanonical, IsCanonical.ofText_text⟩

/-- An operator of high priority after one of low priority, without blanks around it. -/
theorem ofText_canonical_sample :
    let k : Condition := comparison "a == b" .ge "= c"
    ofText "a == b>=\t= c" = k ∧ k.IsCanonical ∧ ofText "a == b >= = c" = k := by
  intro k
  have h := ofText_canonical "a == b>=\t= c" k
  have hread : ofText "a == b>=\t= c" = k := by decide
  exact ⟨hread, h.2.1 hread, h.2.2 (h.2.1 hread)⟩

end Condition
end Runbook
