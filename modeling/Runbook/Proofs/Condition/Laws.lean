import Runbook.Proofs.Binary64.Place
import Runbook.Proofs.Condition.Text
import Runbook.Proofs.Run.Fault

/-!
# Laws of comparisons

What the comparisons of two or three operands say about each other, at the level of condition texts.
Equality compares texts, and order compares places on the number line, of which NaN has none.

* `satisfies_text`: a comparison text compares the values of its operands;
* `satisfies_laws`: the laws.
-/

namespace Runbook

namespace Condition

/-- Whether a text is that of an operand: without blanks at its ends, and without any operator. -/
structure IsOperand (s : String) : Prop where
  trimmed : trim s = s
  without : ∀ op : Comparator, ¬ op.sign.toList <:+: s.toList

instance (s : String) : Decidable (IsOperand s) :=
  decidable_of_iff (trim s = s ∧ ∀ op ∈ Comparator.all, ¬ op.sign.toList <:+: s.toList)
    ⟨fun h => ⟨h.1, fun op => h.2 op op.mem_all⟩, fun h => ⟨h.trimmed, fun op _ => h.without op⟩⟩

theorem IsOperand.fits {s : String} (h : IsOperand s) (op : Comparator) : Fits op s :=
  ⟨h.trimmed, fun other _ => h.without other⟩

/-- **A comparison text compares the values of its operands.** -/
theorem satisfies_text (c : Context) {l r : String} (hl : IsOperand l) (hr : IsOperand r)
    (op : Comparator) :
    c.satisfies (comparison l op r).text =
      compare op (operand c.tree l) (operand c.tree r) := by
  rw [Context.satisfies, ofText_text (hl.fits op) (hr.fits op) (hl.without op)]
  rfl

/-- Inequality of texts is the negation of their equality, also where a text is missing. -/
theorem compare_ne (a b : Value) : compare .ne a b = (compare .eq a b).map (!·) := by
  unfold compare
  cases a.stringify with
  | error f => rfl
  | ok s =>
    cases b.stringify with
    | error f => rfl
    | ok t =>
      show Except.ok (decide (s ≠ t)) = Except.ok (!decide (s = t))
      rw [decide_not]

/-- Values with texts are equal or not. -/
theorem exists_compare_eq {tree : Value} (htree : tree.IsJson) {l r : String}
    (hl : ¬ tree.LeadsToOverlong l) (hr : ¬ tree.LeadsToOverlong r) :
    ∃ b, compare .eq (operand tree l) (operand tree r) = .ok b := by
  obtain ⟨s, hs⟩ := (failsIff_operand htree l).2 hl
  obtain ⟨t, ht⟩ := (failsIff_operand htree r).2 hr
  refine ⟨decide (s = t), ?_⟩
  simp only [compare, hs, ht]
  rfl

/-- What the comparisons of operands say about each other, given the truth of their texts. -/
structure Lawful (tree : Value) (sat : String → Comparator → String → Except Fault Bool)
    (l m r : String) : Prop where
  /-- Inequality is the negation of equality, also where both fail. -/
  ne : sat l .ne r = (sat l .eq r).map (!·)
  /-- Both have a truth value unless an operand leads to a collection without text. -/
  eq : ¬ tree.LeadsToOverlong l → ¬ tree.LeadsToOverlong r → ∃ b, sat l .eq r = .ok b
  /-- Operands change sides with the operator reversed. -/
  swap : sat l .lt r = sat r .gt l ∧ sat l .le r = sat r .ge l
  /-- No operand is both before and after another. -/
  asymm : ¬ (sat l .lt r = .ok true ∧ sat l .gt r = .ok true)
  /-- Numbers are in order one way or the other. -/
  total : (operand tree l).toNumber ≠ .nan → (operand tree r).toNumber ≠ .nan →
    ∃ b, sat l .lt r = .ok b ∧ sat l .ge r = .ok !b
  /-- What is no number is in no order. -/
  unordered : (operand tree l).toNumber = .nan ∨ (operand tree r).toNumber = .nan →
    ∀ op ∈ [Comparator.lt, .le, .gt, .ge], sat l op r = .ok false
  lt_trans : sat l .lt m = .ok true → sat m .lt r = .ok true → sat l .lt r = .ok true
  le_trans : sat l .le m = .ok true → sat m .le r = .ok true → sat l .le r = .ok true

/-- **The laws of comparisons** hold of all condition texts, in every context of JSON values. -/
theorem satisfies_laws {c : Context} (hc : c.IsJson) {l m r : String} (hl : IsOperand l)
    (hm : IsOperand m) (hr : IsOperand r) :
    Lawful c.tree (fun l op r => c.satisfies (comparison l op r).text) l m r := by
  constructor
  case ne =>
    simp only [satisfies_text c hl hr]
    exact compare_ne _ _
  case eq =>
    simp only [satisfies_text c hl hr]
    exact exists_compare_eq hc.tree
  case swap =>
    simp only [satisfies_text c hl hr, satisfies_text c hr hl]
    exact ⟨rfl, rfl⟩
  case asymm =>
    simp only [satisfies_text c hl hr, compare, Except.ok.injEq]
    rintro ⟨hlt, hgt⟩
    rw [Binary64.not_lt_of_lt hlt] at hgt
    cases hgt
  case total =>
    simp only [satisfies_text c hl hr, compare, Except.ok.injEq]
    intro hnl hnr
    exact ⟨_, rfl, Binary64.le_eq_not_lt hnl hnr⟩
  case unordered =>
    intro hnan op hop
    have hlr := Binary64.unordered_of_nan hnan
    have hrl := Binary64.unordered_of_nan hnan.symm
    simp only [satisfies_text c hl hr]
    simp only [List.mem_cons, List.not_mem_nil, or_false] at hop
    rcases hop with rfl | rfl | rfl | rfl <;> simp only [compare, hlr, hrl]
  case lt_trans =>
    simp only [satisfies_text c hl hm, satisfies_text c hm hr, satisfies_text c hl hr, compare,
      Except.ok.injEq]
    exact Binary64.lt_trans
  case le_trans =>
    simp only [satisfies_text c hl hm, satisfies_text c hm hr, satisfies_text c hl hr, compare,
      Except.ok.injEq]
    exact Binary64.le_trans

/-- A variable, a literal and an infinity. -/
theorem satisfies_laws_sample :
    let c : Context := ⟨[("n", .int 3)], []⟩
    c.IsJson ∧ IsOperand "variables.n" ∧ IsOperand "4.5" ∧ IsOperand "Infinity" ∧
      Lawful c.tree (fun l op r => c.satisfies (comparison l op r).text)
        "variables.n" "4.5" "Infinity" := by
  intro c
  have hn : (Value.int 3).IsJson := .scalar trivial
  have hc : c.IsJson := ⟨by simpa [AreJson, c] using hn, by simp [c]⟩
  have hl : IsOperand "variables.n" := ⟨by decide, fun op => by cases op <;> decide⟩
  have hm : IsOperand "4.5" := ⟨by decide, fun op => by cases op <;> decide⟩
  have hr : IsOperand "Infinity" := ⟨by decide, fun op => by cases op <;> decide⟩
  exact ⟨hc, hl, hm, hr, satisfies_laws hc hl hm hr⟩

end Condition
end Runbook
