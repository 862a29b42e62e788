import Runbook.Proofs.Json.Nesting
import Runbook.Proofs.Registry
import Runbook.Proofs.Schema.Acceptance
import Runbook.Proofs.Yaml.Building
import Runbook.Proofs.Yaml.Escape

/-!
# What becomes of a text

A text that is read as a document is a definition or is rejected with problems; one that is not is
unreadable, with few exceptions.

* `Escapes`: the exceptions, as they stand in the text;
* `ofText_outcome`: what becomes of a text;
* `ofText_truth_word`: a word that is no truth value is one of the exceptions.
-/

namespace Runbook

namespace SourceError

variable [Stack]

/-- An error that is no verdict on a text: in YAML an escape of a code point that is too large, more
collections than can be open and a node without a value, and JSON that nests too deep. -/
inductive Escapes (format text : String) : SourceError → Prop
  | character (hformat : format = yamlFormat) (h : Yaml.HasHugeEscape text.toList) :
    Escapes format text (.unbuildable .overflow)
  | nesting (hformat : format = yamlFormat)
    (h : Stack.yaml < Yaml.openings (Yaml.tokensOf text.toList)) :
    Escapes format text (.unbuildable .tooDeep)
  | value {n : Yaml.Node} {e : Yaml.Error} (hformat : format = yamlFormat)
    (hn : Yaml.Node.ofTokens (Yaml.tokensOf text.toList) = .ok (some n))
    (h : n.graph.Offends e) : Escapes format text (.unbuildable e)
  | depth (hformat : format ≠ yamlFormat) (h : Stack.document < Json.nesting text.toList) :
    Escapes format text .tooDeep

end SourceError

open SourceError (Escapes)

/-- A text that is not read as a document is unreadable, or an exception. -/
theorem unreadable_or_escapes [Stack] {format text : String} {e : SourceError}
    (h : documentOfText format text = .error e) :
    (∃ detail, e = .unreadable format detail) ∨ Escapes format text e := by
  unfold documentOfText at h
  split at h
  · next hformat =>
    cases hread : Yaml.read text.toList with
    | ok v => rw [hread] at h; cases h
    | error e' =>
      rw [hread] at h
      by_cases hne : e' = .malformed
      · subst hne
        cases h
        exact .inl ⟨"", rfl⟩
      · have he : .unbuildable e' = e := by
          cases e' with
          | malformed => exact absurd rfl hne
          | _ => exact Except.error.inj h
        subst he
        rcases Yaml.read_eq_error hread hne with hfault | ⟨rfl, hroom⟩ | ⟨n, hn, hoffends⟩
        · obtain ⟨rfl, hhuge⟩ := (Yaml.fault_of_mem_tokensOf hfault).resolve_left hne
          exact .inr (.character hformat hhuge)
        · exact .inr (.nesting hformat hroom)
        · exact .inr (.value hformat hn hoffends)
  · next hformat =>
    cases hread : Json.read .document text.toList with
    | ok v => rw [hread] at h; cases h
    | error stop =>
      rw [hread] at h
      by_cases hstop : stop.cause = .tooDeep
      · simp only [hstop, if_true] at h
        cases h
        exact .inr (.depth hformat (Json.lt_nesting_of_read hread hstop))
      · simp only [hstop, if_false] at h
        cases h
        exact .inl ⟨_, rfl⟩

namespace Definition

section Outcome

variable [Stack]

theorem ofText_of_document {format text : String} {v : Value}
    (h : documentOfText format text = .ok v) : ofText format text = ofSource v := by
  rw [ofText, h]
  rfl

/-- **What becomes of a text.** A text that is read as a document gives its definition or is
rejected with the problems of the document. Any other text is unreadable or one of the exceptions,
and the errors that are no verdict on a text are those of a YAML reader that ends otherwise than on
a malformed text, and of JSON that nests too deep. -/
theorem ofText_outcome (format text : String) :
    (∀ v, documentOfText format text = .ok v →
      (∃ d, ofDocument v = .ok d ∧ ofText format text = .ok d) ∨
        ∃ problems, ofDocument v = .error problems ∧ problems ≠ [] ∧
          ofText format text = .error (.invalid problems)) ∧
    (∀ e, documentOfText format text = .error e → ofText format text = .error e ∧
      ((∃ detail, e = .unreadable format detail) ∨ Escapes format text e)) ∧
    ((∃ e, ofText format text = .error e ∧ e.isVerdict = false) ↔
      (format = yamlFormat ∧ ∃ e, Yaml.read text.toList = .error e ∧ e ≠ .malformed) ∨
      (format ≠ yamlFormat ∧
        ∃ stop, Json.read .document text.toList = .error stop ∧ stop.cause = .tooDeep)) := by
  refine ⟨fun v hv => ?_, fun e he => ⟨?_, unreadable_or_escapes he⟩, ?_⟩
  · rw [ofText_of_document hv]
    unfold ofSource
    by_cases hd : ∃ d, ofDocument v = .ok d
    · obtain ⟨d, hd⟩ := hd
      exact .inl ⟨d, hd, by rw [hd]; rfl⟩
    · obtain ⟨problems, hproblems, hne⟩ := exists_problem hd
      exact .inr ⟨problems, hproblems, hne, by rw [hproblems]; rfl⟩
  · rw [ofText, he]
    rfl
  · have h := Registry.ofText_spec format text.toList
    rwa [String.ofList_toList] at h

end Outcome

/-- The text of a document whose name is tagged as a truth value. -/
def Sample.truthWord : String := "name: !!bool maybe\n"

theorem Sample.documentOfText_truthWord :
    documentOfText yamlFormat truthWord = .error (.unbuildable .badTruthWord) := by
  have h : (match documentOfText yamlFormat truthWord with
      | .ok _ => .tooDeep
      | .error e => e) = SourceError.unbuildable .badTruthWord := by decide +kernel
  revert h
  cases documentOfText yamlFormat truthWord with
  | ok v => nofun
  | error e => exact congrArg Except.error

/-- A document without members is rejected, and the text with the tag is an exception. -/
theorem ofText_outcome_sample :
    documentOfText "json" "\x7b\x7d" = .ok (.mapping []) ∧
      (∃ problems, problems ≠ [] ∧ ofText "json" "\x7b\x7d" = .error (.invalid problems)) ∧
      documentOfText yamlFormat Sample.truthWord = .error (.unbuildable .badTruthWord) ∧
      Escapes yamlFormat Sample.truthWord (.unbuildable .badTruthWord) := by
  have hempty : documentOfText "json" "\x7b\x7d" = .ok (.mapping []) := by cbv
  have hword := Sample.documentOfText_truthWord
  refine ⟨hempty, ?_, hword, ?_⟩
  · rcases (ofText_outcome "json" "\x7b\x7d").1 _ hempty with ⟨d, hd, -⟩ | ⟨problems, -, hne, h⟩
    · cases hd
    · exact ⟨problems, hne, h⟩
  · rcases ((ofText_outcome yamlFormat Sample.truthWord).2.1 _ hword).2 with ⟨_, h⟩ | h
    · cases h
    · exact h

/-- **A word that is no truth value** is neither read nor an error in the text. -/
theorem ofText_truth_word : ∃ e, ofText yamlFormat Sample.truthWord = .error e ∧
    e.isVerdict = false :=
  ⟨_, by rw [ofText, Sample.documentOfText_truthWord]; rfl, rfl⟩

end Definition
end Runbook
