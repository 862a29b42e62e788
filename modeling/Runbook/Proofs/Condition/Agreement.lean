import Runbook.Proofs.Condition.Laws
import Runbook.Proofs.Substitution

/-!
# Equality and placeholders

An equality of operands that lead to values is the equality of the texts that their placeholders
become. An operand that leads nowhere and is no number stands for itself, where a placeholder would
become nothing.

* `compare_eq_true_iff`: values are equal when they have one text;
* `satisfies_eq_iff_substitute`: equality of condition texts and substitution.
-/

namespace Runbook

open Placeholder

theorem Context.substitute_ofPath_eq_ok_iff {c : Context} {path : String} (h : IsPath path)
    {v : Value} (hv : c.tree.resolve path = some v) {t : String} :
    c.substitute (.str (ofPath path)) = .ok (.str t) ↔ v.stringify = .ok t := by
  rw [c.substitute_ofPath h, textAt, hv]
  show v.stringify.map Value.str = .ok (Value.str t) ↔ v.stringify = .ok t
  cases v.stringify <;> simp [Except.map]

namespace Condition

/-- Values are equal when they have one text. -/
theorem compare_eq_true_iff {a b : Value} :
    compare .eq a b = .ok true ↔ ∃ t, a.stringify = .ok t ∧ b.stringify = .ok t := by
  unfold compare
  cases a.stringify with
  | error f => simp [bind, Except.bind]
  | ok s =>
    cases b.stringify with
    | error f => simp [bind, Except.bind]
    | ok t =>
      show Except.ok (decide (s = t)) = Except.ok true ↔ _
      simp [eq_comm]

/-- An operand that leads nowhere and is no number is its own text. -/
theorem operand_of_not_number {tree : Value} {t : String} (hpath : tree.resolve t = none)
    (hnumber : parseNumber t = none) : operand tree t = .str t := by
  rw [operand, hpath, hnumber]

/-- **Equality compares what placeholders become.** Two paths that lead to values are equal when
their placeholders become one text, and such a path is equal to a text that leads nowhere and is no
number when its placeholder becomes that text. -/
theorem satisfies_eq_iff_substitute (c : Context) {p : String} (hp : IsPath p) (hop : IsOperand p)
    (hv : (c.tree.resolve p).isSome) :
    (∀ q, IsPath q → IsOperand q → (c.tree.resolve q).isSome →
      (c.satisfies (comparison p .eq q).text = .ok true ↔
        ∃ t, c.substitute (.str (ofPath p)) = .ok (.str t) ∧
          c.substitute (.str (ofPath q)) = .ok (.str t))) ∧
    ∀ t, IsOperand t → parseNumber t = none → c.tree.resolve t = none →
      (c.satisfies (comparison p .eq t).text = .ok true ↔
        c.substitute (.str (ofPath p)) = .ok (.str t)) := by
  obtain ⟨v, hv⟩ := Option.isSome_iff_exists.1 hv
  have hpv : operand c.tree p = v := by rw [operand, hv]
  refine ⟨fun q hq hoq hw => ?_, fun t ht hnumber hnone => ?_⟩
  · obtain ⟨w, hw⟩ := Option.isSome_iff_exists.1 hw
    have hqw : operand c.tree q = w := by rw [operand, hw]
    simp only [satisfies_text c hop hoq, hpv, hqw, compare_eq_true_iff,
      Context.substitute_ofPath_eq_ok_iff hp hv, Context.substitute_ofPath_eq_ok_iff hq hw]
  · have hself : (Value.str t).stringify = .ok t := rfl
    rw [satisfies_text c hop ht, hpv, operand_of_not_number hnone hnumber, compare_eq_true_iff,
      Context.substitute_ofPath_eq_ok_iff hp hv]
    constructor
    · rintro ⟨u, hu, hut⟩
      rw [hself] at hut
      cases hut
      exact hu
    · exact fun h => ⟨t, h, hself⟩

/-- Two variables, a list and the text of one. -/
theorem satisfies_eq_iff_substitute_sample :
    let c : Context := ⟨[("n", .list [.int 1]), ("s", .str "[1]")], []⟩
    (IsPath "variables.n" ∧ IsOperand "variables.n" ∧ (c.tree.resolve "variables.n").isSome) ∧
    (IsPath "variables.s" ∧ IsOperand "variables.s" ∧ (c.tree.resolve "variables.s").isSome) ∧
    (c.satisfies "variables.n == variables.s" = .ok true ↔
      ∃ t, c.substitute (.str "$\x7bvariables.n\x7d") = .ok (.str t) ∧
        c.substitute (.str "$\x7bvariables.s\x7d") = .ok (.str t)) ∧
    (IsOperand "[1]" ∧ parseNumber "[1]" = none ∧ c.tree.resolve "[1]" = none) ∧
    (c.satisfies "variables.n == [1]" = .ok true ↔
      c.substitute (.str "$\x7bvariables.n\x7d") = .ok (.str "[1]")) := by
  intro c
  have hpn : IsPath "variables.n" := by decide
  have hps : IsPath "variables.s" := by decide
  have hn : IsOperand "variables.n" := by decide
  have hs : IsOperand "variables.s" := by decide
  have ht : IsOperand "[1]" := by decide
  have hvn : (c.tree.resolve "variables.n").isSome := rfl
  have hvs : (c.tree.resolve "variables.s").isSome := rfl
  have hnumber : parseNumber "[1]" = none := by decide +kernel
  obtain ⟨hpaths, htexts⟩ := satisfies_eq_iff_substitute c hpn hn hvn
  exact ⟨⟨hpn, hn, hvn⟩, ⟨hps, hs, hvs⟩, hpaths _ hps hs hvs, ⟨ht, hnumber, rfl⟩,
    htexts _ ht hnumber rfl⟩

end Condition
end Runbook
