import Runbook.Proofs.Saving
import Runbook.Proofs.Schema.Acceptance

/-!
# The names that can be saved under

A document may give its workflow a name of letters, digits and hyphens. Something can be saved under
the same names and, besides, under such a name with one line feed after it.

* `exists_ofDocument_renamed`: the names that a document may give;
* `isFileName_iff`: the names that can be saved under;
* `save_refused_iff`: the name of a valid definition is refused exactly if it is none of these.
-/

namespace Runbook

/-! ### The name in a document -/

/-- A definition under another name. -/
def Definition.renamed (d : Definition) (name : String) : Definition :=
  { d with name := name }

namespace Definition

variable {d d' : Definition} {name : String}

theorem Valid.renamed (h : d.Valid) (hname : Schema.IsWorkflowName name) :
    (d.renamed name).Valid :=
  { h with name := Schema.isWorkflowName_iff.2 hname }

theorem isWorkflowName_of_ofDocument (h : ofDocument (.ofFields d.fields) = .ok d') :
    Schema.IsWorkflowName d.name := by
  obtain ⟨m, hm, hworkflow⟩ := workflow_of_ofDocument h
  obtain rfl := Value.mapping.inj hm
  obtain ⟨v, hv, hread⟩ := Schema.required_ok (Schema.workflow_eq_ok.1 hworkflow).name
  rw [Value.lookup_fields, (Schema.get?_definition d).1] at hv
  obtain rfl := Option.some.inj hv
  have hmatches := Schema.matching_ok hread
  -- what is read from a text is that text
  have hsame : d'.name = d.name := by
    by_cases hne : d.name = ""
    · rw [hne] at hread
      cases hread
    · rw [Schema.someText_str hne] at hread
      change Schema.matching _ _ = _ at hread
      unfold Schema.matching at hread
      split at hread
      · exact (Schema.Checked.ok.inj hread).symm
      · cases hread
  rw [hsame] at hmatches
  exact Schema.isWorkflowName_iff.1 hmatches

/-- A document is accepted under the names of workflows and no others. -/
theorem exists_ofDocument_renamed (h : d.Valid) :
    (∃ d', ofDocument (.ofFields (d.renamed name).fields) = .ok d') ↔
      Schema.IsWorkflowName name :=
  ⟨fun ⟨_, hd'⟩ => isWorkflowName_of_ofDocument hd',
    fun hname => ⟨_, ofDocument_fields (h.renamed hname)⟩⟩

end Definition

/-! ### The name of a file -/

/-- The name of a workflow does not end in a line feed. -/
theorem Schema.not_isWorkflowName_append (s : String) : ¬ IsWorkflowName (s ++ "\n") := by
  rw [← isWorkflowName_iff, Pattern.matches, String.toList_append]
  cases s.toList with
  | nil => decide
  | cons c r =>
    have hend : isNameStart '\n' = false := by decide
    simp [isWorkflowName, List.all_append, hend]

namespace Registry

variable {d : Definition} {name : String}

/-- A line feed at the end of a name is dropped before the name is looked at. -/
theorem isFileName_append (s : String) : isFileName (s ++ "\n") ↔ Schema.IsWorkflowName s := by
  rw [← Schema.isWorkflowName_iff]
  simp [isFileName, dropLineEnd, Schema.Pattern.matches]

theorem isFileName_of_not_append (h : ∀ s, name ≠ s ++ "\n") :
    isFileName name ↔ Schema.IsWorkflowName name := by
  have hlast : name.toList.getLast? ≠ some '\n' := by
    intro hlast
    obtain ⟨cs, hcs⟩ := List.getLast?_eq_some_iff.1 hlast
    exact h (String.ofList cs) (String.toList_injective (by simp [hcs]))
  rw [isFileName, dropLineEnd, if_neg hlast, ← Schema.isWorkflowName_iff]
  rfl

/-- Something can be saved under the name of a workflow, with or without a line feed after it. -/
theorem isFileName_iff :
    isFileName name ↔
      Schema.IsWorkflowName name ∨ ∃ s, name = s ++ "\n" ∧ Schema.IsWorkflowName s := by
  by_cases h : ∃ s, name = s ++ "\n"
  · obtain ⟨s, rfl⟩ := h
    have hinj : ∀ s', s ++ "\n" = s' ++ "\n" → s = s' := fun s' he => by simpa using he
    rw [isFileName_append]
    constructor
    · exact fun hs => .inr ⟨s, rfl, hs⟩
    · rintro (hs | ⟨s', he, hs'⟩)
      · exact absurd hs (Schema.not_isWorkflowName_append s)
      · exact hinj s' he ▸ hs'
  · have hnot : ∀ s, name ≠ s ++ "\n" := fun s he => h ⟨s, he⟩
    rw [isFileName_of_not_append hnot]
    exact (or_iff_left fun ⟨s, he, _⟩ => hnot s he).symm

/-- Only the checks before blame the name or the document. -/
theorem writeIn_ne_invalid (t : FileTree) (directory : FilePath) (name : String)
    (d : Definition) (problems : List Schema.Problem) :
    (writeIn t directory name d).2 ≠ .error (.invalid problems) := by
  unfold writeIn
  split
  · simp
  split
  · simp
  split
  · simp
  split <;> simp

theorem save_refused_iff (r : Registry) (t : FileTree) (directory : Option FilePath) :
    (r.save t name (.ok d) directory).2 = .error (.invalid [.ofFileName name]) ↔
      ¬ isFileName name := by
  unfold save
  split
  · next h => simpa using h
  · next h =>
    refine ⟨fun he => absurd he (writeIn_ne_invalid _ _ _ _ _), fun hname => ?_⟩
    exact absurd (by simpa using hname) h

/-- **The names that can be saved under.** A valid definition is read back from its document under
the names of workflows only. Under these, and under each of them with one line feed after it, it
gets past the check of the name when it is saved, whatever the registry, its files and the
directory; under any other text it does not. -/
theorem save_accepts_name_iff (hd : d.Valid) (r : Registry) (t : FileTree)
    (directory : Option FilePath) (name : String) :
    ((∃ d', Definition.ofDocument (.ofFields (d.renamed name).fields) = .ok d') ↔
      Schema.IsWorkflowName name) ∧
    ((r.save t name (.ok d) directory).2 ≠ .error (.invalid [.ofFileName name]) ↔
      Schema.IsWorkflowName name ∨ ∃ s, name = s ++ "\n" ∧ Schema.IsWorkflowName s) := by
  refine ⟨Definition.exists_ofDocument_renamed hd, ?_⟩
  rw [ne_eq, save_refused_iff, not_not, isFileName_iff]

theorem Sample.isWorkflowName_memo : Schema.IsWorkflowName "memo" :=
  Schema.isWorkflowName_iff.1 (by decide)

theorem Sample.valid_due : (memo due).Valid :=
  Definition.valid_of_ofDocument ofDocument_due

/-- The note with a date gets past the check under its name with a line feed after it. -/
theorem save_accepts_name_iff_sample : (Sample.memo Sample.due).Valid ∧
    (Sample.registry.save .empty "memo\n" (.ok (Sample.memo Sample.due)) none).2 ≠
      .error (.invalid [.ofFileName "memo\n"]) :=
  ⟨Sample.valid_due,
    (save_accepts_name_iff Sample.valid_due Sample.registry .empty none "memo\n").2.2
      (.inr ⟨"memo", rfl, Sample.isWorkflowName_memo⟩)⟩

/-- Getting past the check of the name is not the same as being accepted as the name in a
document. -/
theorem save_accepts_line_feed : ¬ ∀ (r : Registry) (t : FileTree) (directory : Option FilePath)
    (d : Definition) (name : String), d.Valid →
    ((r.save t name (.ok d) directory).2 ≠ .error (.invalid [.ofFileName name]) ↔
      ∃ d', Definition.ofDocument (.ofFields (d.renamed name).fields) = .ok d') := by
  intro h
  have hmemo := h Sample.registry .empty none _ "memo\n" Sample.valid_due
  rw [ne_eq, save_refused_iff, not_not, Definition.exists_ofDocument_renamed Sample.valid_due]
    at hmemo
  exact Schema.not_isWorkflowName_append "memo"
    (hmemo.1 ((isFileName_append "memo").2 Sample.isWorkflowName_memo))

end Registry
end Runbook
