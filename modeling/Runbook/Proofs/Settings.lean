import Runbook.Settings.Load
import Mathlib.Data.List.Basic

/-!
# The variables that settings are read from

A setting is read under its full and its short name, each in any capitalisation, from the
environment and from the environment file; a value of the file is made from the variables that it
refers to. Nothing else about the variables matters (`load_agree`).
-/

namespace Runbook

/-! ### References between variables -/

namespace EnvFile

/-- The variables that a value refers to. -/
def references (cs : List Char) : List String :=
  match cs with
  | [] => []
  | c :: r =>
    match reference? (c :: r) with
    | some (name, _, rest) =>
      if _h : rest.length < (c :: r).length then String.ofList name :: references rest else []
    | none => references r
termination_by cs.length
decreasing_by
  · assumption
  · exact Nat.lt_succ_self _

/-- Only the variables that a value refers to are looked up. -/
theorem expand_congr {lookup lookup' : String → Option (Option String)} {cs : List Char}
    (h : ∀ n ∈ references cs, lookup n = lookup' n) : expand lookup cs = expand lookup' cs := by
  fun_induction references cs with
  | case1 => rw [expand, expand]
  | case2 c r name default rest href hshort ih =>
    obtain ⟨hname, hrest⟩ := List.forall_mem_cons.1 h
    rw [expand, expand, href]
    simp only [dif_pos hshort, hname, ih hrest]
  | case3 c r name default rest href hshort =>
    rw [expand, expand, href]
    simp only [dif_neg hshort]
  | case4 c r href ih =>
    rw [expand, expand, href]
    simp only [ih h]

variable {relevant : String → Bool}

/-- Whether the variables that values of relevant variables refer to are relevant. -/
def IsClosed (relevant : String → Bool) (bindings : List (String × Option String)) : Prop :=
  ∀ b ∈ bindings, relevant b.1 → ∀ v ∈ b.2, ∀ n ∈ references v.toList, relevant n

/-- The relevant variables of a file come from its relevant lines and the relevant variables of the
environment. -/
theorem expandAll_filter {bindings : List (String × Option String)} (h : IsClosed relevant bindings)
    (env : Table String String) (done : Table String (Option String)) :
    (expandAll env done bindings).filter (fun e => relevant e.1) =
      expandAll (env.filter fun e => relevant e.1) (done.filter fun e => relevant e.1)
        (bindings.filter fun b => relevant b.1) := by
  induction bindings generalizing done with
  | nil => rfl
  | cons b r ih =>
    obtain ⟨name, value⟩ := b
    obtain ⟨hb, hr⟩ := List.forall_mem_cons.1 h
    rw [expandAll, ih hr, Table.filter_set, List.filter_cons]
    cases hname : relevant name with
    | false => rfl
    | true =>
      simp only [if_true]
      rw [expandAll]
      -- the references of the value are looked up in what is left
      have hvalue : ∀ v ∈ value, expand (fun n => (done.get? n).or ((env.get? n).map some))
          v.toList = expand (fun n => (Table.get? (done.filter fun e => relevant e.1) n).or
            ((Table.get? (env.filter fun e => relevant e.1) n).map some)) v.toList := by
        intro v hv
        refine expand_congr fun n hn => ?_
        rw [Table.get?_filter (hb hname v hv n hn), Table.get?_filter (hb hname v hv n hn)]
      cases value with
      | none => rfl
      | some v => simp only [Option.map_some, hvalue v rfl]

end EnvFile

/-! ### The names of settings -/

namespace Settings

/-- The names that settings are read from, in lower case. -/
def ownNames : List String :=
  ["workflows_custom_dir", "custom_dir", "workflows_save_dir", "save_dir",
    "workflows_output_summary_length", "output_summary_length", "workflows_log_level", "log_level"]

/-- Whether a name is one of a setting, in any capitalisation. -/
def IsOwn (name : String) : Prop := lowerCase name ∈ ownNames

instance : DecidablePred IsOwn :=
  fun name => inferInstanceAs (Decidable (lowerCase name ∈ ownNames))

/-- The lines of the environment file. -/
def Sources.bindings (s : Sources) : List (String × Option String) :=
  match s.envFile with
  | some text => EnvFile.lines (unifyLineEnds text.toList)
  | none => []

theorem Sources.fileVariables_eq (s : Sources) :
    s.fileVariables = EnvFile.expandAll s.environment [] s.bindings := by
  rw [fileVariables, bindings]
  cases s.envFile with
  | none => rfl
  | some text => simp only [EnvFile.read, String.toList_ofList]

variable {s s' : Sources} {relevant : String → Bool}

/-! ### What is read -/

/-- Only the values of its own names count for a setting. -/
theorem find?_congr {full short : String} (harguments : s.arguments = s'.arguments)
    (henvironment : ∀ name ∈ ownNames, valueOf s.environment name = valueOf s'.environment name)
    (hfile : ∀ name ∈ ownNames, valueOf s.fileVariables name = valueOf s'.fileVariables name)
    (hfull : IsOwn full) (hshort : IsOwn short) :
    s.find? s.fileVariables full short = s'.find? s'.fileVariables full short := by
  simp only [Sources.find?, harguments, henvironment _ hfull, henvironment _ hshort,
    hfile _ hfull, hfile _ hshort]

/-- Only the values of the names of settings count. -/
theorem load_congr (harguments : s.arguments = s'.arguments)
    (henvironment : ∀ name ∈ ownNames, valueOf s.environment name = valueOf s'.environment name)
    (hfile : ∀ name ∈ ownNames, valueOf s.fileVariables name = valueOf s'.fileVariables name) :
    load s = load s' := by
  have hread : ∀ {α : Type} (full short : String) (default : α)
      (parse : Value → Except Complaint α), IsOwn full → IsOwn short →
      s.read s.fileVariables full short default parse =
        s'.read s'.fileVariables full short default parse := by
    intro α full short default parse hfull hshort
    rw [Sources.read, Sources.read,
      find?_congr harguments henvironment hfile hfull hshort]
  simp only [load, hread "WORKFLOWS_CUSTOM_DIR" "custom_dir" _ _ (by decide) (by decide),
    hread "WORKFLOWS_SAVE_DIR" "save_dir" _ _ (by decide) (by decide),
    hread "WORKFLOWS_OUTPUT_SUMMARY_LENGTH" "output_summary_length" _ _ (by decide) (by decide),
    hread "WORKFLOWS_LOG_LEVEL" "log_level" _ _ (by decide) (by decide)]

/-- What two sources agree on: the arguments, and the relevant variables of the environments and of
the environment files. -/
structure Sources.Agree (relevant : String → Bool) (s s' : Sources) : Prop where
  arguments : s.arguments = s'.arguments
  environment : s.environment.filter (fun e => relevant e.1) =
    s'.environment.filter fun e => relevant e.1
  bindings : s.bindings.filter (fun b => relevant b.1) = s'.bindings.filter fun b => relevant b.1

theorem isClosed_of_agree (h : s.Agree relevant s') (hs : EnvFile.IsClosed relevant s.bindings) :
    EnvFile.IsClosed relevant s'.bindings := by
  intro b hb hrelevant
  have hmem : b ∈ s'.bindings.filter fun b => relevant b.1 := List.mem_filter.2 ⟨hb, hrelevant⟩
  rw [← h.bindings] at hmem
  exact hs b (List.mem_filter.1 hmem).1 hrelevant

theorem fileVariables_agree (h : s.Agree relevant s')
    (hs : EnvFile.IsClosed relevant s.bindings) :
    s.fileVariables.filter (fun e => relevant e.1) =
      s'.fileVariables.filter fun e => relevant e.1 := by
  rw [Sources.fileVariables_eq, Sources.fileVariables_eq, EnvFile.expandAll_filter hs,
    EnvFile.expandAll_filter (isClosed_of_agree h hs), h.environment, h.bindings]

/-- The last value of a name is that of a relevant variable. -/
theorem valueOf_filter {α : Type} {name : String} (h : ∀ n, lowerCase n = name → relevant n)
    (table : Table String α) :
    valueOf (table.filter fun e => relevant e.1) name = valueOf table name := by
  rw [valueOf, valueOf, ← List.filter_reverse, List.find?_filter]
  congr 2
  funext e
  by_cases he : lowerCase e.1 = name
  · simp [he, h e.1 he]
  · simp [he]

theorem load_agree (hown : ∀ n, IsOwn n → relevant n)
    (hs : EnvFile.IsClosed relevant s.bindings) (h : s.Agree relevant s') : load s = load s' := by
  have hrelevant : ∀ name ∈ ownNames, ∀ n, lowerCase n = name → relevant n := by
    rintro name hname n rfl
    exact hown n hname
  refine load_congr h.arguments (fun name hname => ?_) fun name hname => ?_
  · rw [← valueOf_filter (hrelevant name hname) s.environment, h.environment,
      valueOf_filter (hrelevant name hname)]
  · rw [← valueOf_filter (hrelevant name hname) s.fileVariables, fileVariables_agree h hs,
      valueOf_filter (hrelevant name hname)]

/-! ### Names that count -/

/-- The sources with nothing but a variable of the environment. -/
def Sources.only (name value : String) : Sources :=
  ⟨[], [(name, value)], none⟩

/-- A variable may be given in any capitalisation. -/
theorem load_only {name name' : String} (h : lowerCase name = lowerCase name') (value : String) :
    load (.only name value) = load (.only name' value) := by
  refine load_congr rfl (fun n _ => ?_) fun n _ => rfl
  simp only [Sources.only, valueOf, List.reverse_singleton, List.find?_singleton, h]
  split <;> rfl

/-- Whether all settings but the level have their defaults. -/
def isUnset : Except (List Problem) Settings → Bool
  | .ok s => s.customDir = none && s.saveDir = .ofText "workflows" && s.summaryLength = 500
  | .error _ => false

theorem isUnset_load_own : ∀ name ∈ ownNames, isUnset (load (.only name "-")) = false := by
  decide +kernel

/-- Every name of a setting counts: a dash is a path, and neither a length nor a level. -/
theorem load_only_ne {name : String} (h : IsOwn name) :
    load (.only name "-") ≠ load ⟨[], [], none⟩ := by
  intro hsame
  have hlower : ∀ n ∈ ownNames, n = lowerCase n := by decide
  have hunset := isUnset_load_own _ h
  rw [← load_only (hlower _ h), hsame] at hunset
  exact absurd hunset (by decide)

/-- **What settings depend on.** Take any selection of variables. Two sources with the same
arguments, which agree on the selected variables and in whose environment files these refer to no
others, always give the same settings or the same complaints exactly if every variable is selected
that is named like a setting: by its full or its short name, in any capitalisation. -/
theorem load_depends (relevant : String → Bool) :
    (∀ s s' : Sources, EnvFile.IsClosed relevant s.bindings → s.Agree relevant s' →
      load s = load s') ↔ ∀ name, IsOwn name → relevant name := by
  refine ⟨fun h name hname => ?_, fun hown s s' => load_agree hown⟩
  by_contra hnot
  -- a variable that is not selected may be there or not
  have hagree : (Sources.only name "-").Agree relevant ⟨[], [], none⟩ :=
    ⟨rfl, by simp [Sources.only, hnot], rfl⟩
  exact load_only_ne hname (h _ _ nofun hagree)

/-- A file in which a setting refers to another variable. -/
def Sample.sources (environment : Table String String) : Sources :=
  ⟨[], environment, some "WORKFLOWS_SAVE_DIR=$\x7bBASE\x7d/saved"⟩

/-- Whether a variable is one of a setting or the one that the file refers to. -/
def Sample.isBased (name : String) : Bool := name = "BASE" || IsOwn name

theorem Sample.bindings_sources (environment : Table String String) :
    (sources environment).bindings = [("WORKFLOWS_SAVE_DIR", some "$\x7bBASE\x7d/saved")] := by
  have hlines : EnvFile.lines (unifyLineEnds "WORKFLOWS_SAVE_DIR=$\x7bBASE\x7d/saved".toList) =
      [("WORKFLOWS_SAVE_DIR", some "$\x7bBASE\x7d/saved")] := by decide +kernel
  exact hlines

theorem Sample.isClosed_sources (environment : Table String String) :
    EnvFile.IsClosed isBased (sources environment).bindings := by
  have hreferences : EnvFile.references "$\x7bBASE\x7d/saved".toList = ["BASE"] := by
    decide +kernel
  rw [bindings_sources]
  intro b hb _ v hv n hn
  obtain rfl := List.mem_singleton.1 hb
  obtain rfl := Option.some.inj hv
  rw [hreferences] at hn
  obtain rfl := List.mem_singleton.1 hn
  decide

/-- Neither the other variables nor their order make a difference. -/
theorem load_depends_sample :
    EnvFile.IsClosed Sample.isBased
      (Sample.sources [("BASE", "/srv"), ("HOME", "/root")]).bindings ∧
    load (Sample.sources [("BASE", "/srv"), ("HOME", "/root")]) =
      load (Sample.sources [("PATH", "/bin"), ("BASE", "/srv")]) := by
  have hclosed := Sample.isClosed_sources [("BASE", "/srv"), ("HOME", "/root")]
  refine ⟨hclosed, (load_depends Sample.isBased).2 (fun n hn => ?_) _ _ hclosed ⟨rfl, ?_, ?_⟩⟩
  · simp [Sample.isBased, hn]
  · decide
  · rw [Sample.bindings_sources, Sample.bindings_sources]

/-- The four full names are not all that counts: a short name does, too. -/
theorem load_short_name : ¬ ∀ s s' : Sources, s.arguments = s'.arguments →
    s.envFile = s'.envFile →
    (∀ name ∈ ["WORKFLOWS_CUSTOM_DIR", "WORKFLOWS_SAVE_DIR", "WORKFLOWS_OUTPUT_SUMMARY_LENGTH",
      "WORKFLOWS_LOG_LEVEL"], s.environment.get? name = s'.environment.get? name) →
    load s = load s' := by
  intro h
  have hsame := h (.only "LOG_LEVEL" "debug") ⟨[], [], none⟩ rfl rfl (by decide)
  have hlevel := congrArg (fun outcome => outcome.toOption.map Settings.logLevel) hsame
  exact absurd hlevel (by decide)

end Settings
end Runbook
