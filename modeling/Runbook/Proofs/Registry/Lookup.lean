import Runbook.Proofs.Registry

/-!
# Looking up what is listed

A look-up and a listing go through the built-in workflows and the files of the directory each on
their own. They return under the same condition (`exists_list_iff`), and then what is found under a
name is what is listed first under it (`find?_list`): a built-in workflow, or else the one from the
first file in the order of paths (`find?_filterMap_eq_some_iff`).
-/

namespace Runbook

namespace Registry

variable {r : Registry} {t : FileTree} {directory p : FilePath} {name : String}

/-! ### The order of paths -/

/-- The first in a list whose elements come in the order of their keys is the one with the least
key. -/
theorem find?_filterMap_eq_some_iff {α β : Type} {key : α → String} {f : α → Option β}
    {test : β → Bool} {l : List α} (hl : l.Pairwise fun a b => a = b ∨ key a < key b) {b : β} :
    (l.filterMap f).find? test = some b ↔
      ∃ a ∈ l, f a = some b ∧ test b ∧ ∀ a' ∈ l, key a' < key a → ∀ b' ∈ f a', ¬ test b' := by
  induction l with
  | nil => simp
  | cons a r ih =>
    obtain ⟨ha, hr⟩ := List.pairwise_cons.1 hl
    have ih := ih hr
    by_cases hfirst : ∃ b₁ ∈ f a, test b₁
    · obtain ⟨b₁, hb₁, htest⟩ := hfirst
      rw [List.filterMap_cons_some hb₁, List.find?_cons_of_pos htest]
      constructor
      · rintro ⟨⟩
        refine ⟨a, List.mem_cons_self, hb₁, htest, fun a' ha' hlt => ?_⟩
        rcases List.mem_cons.1 ha' with rfl | ha'
        · exact absurd hlt (String.lt_irrefl _)
        rcases ha a' ha' with rfl | hgt
        · exact absurd hlt (String.lt_irrefl _)
        · exact absurd hlt (String.lt_asymm hgt)
      · rintro ⟨a', ha', hb, -, hleast⟩
        have hsame : a = a' := by
          rcases List.mem_cons.1 ha' with rfl | ha'
          · rfl
          exact (ha a' ha').resolve_right fun hlt =>
            hleast a List.mem_cons_self hlt b₁ hb₁ htest
        rw [← hsame] at hb
        exact hb₁.symm.trans hb
    · have hskip : ((a :: r).filterMap f).find? test = (r.filterMap f).find? test := by
        cases hfa : f a with
        | none => rw [List.filterMap_cons_none hfa]
        | some b₁ =>
          rw [List.filterMap_cons_some hfa, List.find?_cons_of_neg]
          exact fun htest => hfirst ⟨b₁, hfa, htest⟩
      rw [hskip, ih]
      constructor
      · rintro ⟨a', ha', hb, htest, hleast⟩
        refine ⟨a', List.mem_cons_of_mem _ ha', hb, htest, ?_⟩
        refine List.forall_mem_cons.2 ⟨fun _ b' hb' htest' => hfirst ⟨b', hb', htest'⟩, hleast⟩
      · rintro ⟨a', ha', hb, htest, hleast⟩
        obtain rfl | ha' := List.mem_cons.1 ha'
        · exact absurd ⟨b, hb, htest⟩ hfirst
        · exact ⟨a', ha', hb, htest, fun a'' h => hleast a'' (List.mem_cons_of_mem _ h)⟩

/-- The candidates come in the order of their names. -/
theorem pairwise_candidates (r : Registry) (t : FileTree) :
    (r.candidates t).Pairwise fun p q => p = q ∨ p.name < q.name := by
  unfold candidates
  split
  · exact .nil
  split
  · exact .nil
  split
  · next directory _ place _ _ =>
    refine (List.pairwise_map.2 ?_).filter _
    refine (FileTree.pairwise_children t place).imp fun {a b} hab => ?_
    by_cases he : a.1 = b.1
    · exact .inl (by rw [he])
    · refine .inr ?_
      rw [FilePath.name_child, FilePath.name_child]
      exact String.not_le.1 fun hba => he (String.le_antisymm hab hba)
  · exact .nil

/-! ### Names -/

theorem find?_name_of_mem {l : List Definition} (hl : (l.map Definition.name).Nodup)
    {d : Definition} (h : d ∈ l) : l.find? (fun b => b.name = d.name) = some d := by
  cases hfind : l.find? fun b => b.name = d.name with
  | none => simpa using List.find?_eq_none.1 hfind d h
  | some b =>
    have hname : b.name = d.name := by simpa using List.find?_some hfind
    rw [List.inj_on_of_nodup_map hl (List.mem_of_find?_eq_some hfind) h hname]

theorem nodup_builtIns : (Catalog.builtIns.map Definition.name).Nodup := by
  decide

/-- The first entry of a name in a list of entries is that of the first definition of the name. -/
theorem find?_summary (l : List Definition) (origin : Origin) (name : String) :
    (l.map (·.summary origin)).find? (fun s => s.name = name) =
      (l.find? fun d => d.name = name).map (·.summary origin) := by
  rw [List.find?_map]
  rfl

/-! ### When there is a listing -/

/-- What is in the directory can be looked up, and loading it ends in no error that is not a verdict
on the file. -/
structure Loadable [Stack] (r : Registry) (t : FileTree) : Prop where
  directory : r.Reachable t
  paths : ∀ p ∈ r.candidates t, t.find? p ≠ .error .nameTooLong
  files : ∀ p ∈ r.candidates t, t.isFile p = .ok true →
    ∀ e, t.load p = .error e → e.isVerdict

theorem exists_file_of_isFile (h : t.isFile p = .ok true) :
    ∃ content, t.find? p = .ok (some (.file content)) := by
  unfold FileTree.isFile at h
  split at h
  · next content hfind => exact ⟨content, hfind⟩
  · cases h
  · cases h

variable [Stack]

/-- The path of a directory has to be short enough to be looked up. -/
theorem reachable_of_customs {definitions : List Definition}
    (h : r.customs t = .ok definitions) : r.Reachable t := by
  intro directory hdir hlong
  have hdirectory : t.isDirectory directory = .error .nameTooLong := by
    rw [FileTree.isDirectory, FileTree.find?, hlong]
    rfl
  simp only [customs, hdir, hdirectory] at h
  cases h

theorem loadable_iff :
    r.Loadable t ↔ r.Reachable t ∧ ∀ p ∈ r.candidates t, ¬ Breaks t p := by
  constructor
  · refine fun h => ⟨h.directory, fun p hp hbreaks => ?_⟩
    have hno : ∀ content, t.find? p ≠ .ok (some (.file content)) := by
      intro content hfind
      have hformat := isSome_formatOf?_of_mem_candidates hp
      obtain ⟨e, he, hverdict⟩ := (breaks_iff hformat hfind).1 hbreaks
      rw [h.files p hp (FileTree.isFile_of_find? hfind) e he] at hverdict
      cases hverdict
    cases hbreaks with
    | path hlong => exact h.paths p hp hlong
    | bytes hfind _ | value hfind _ _ _ _ | depth hfind _ _ _ _ _ => exact hno _ hfind
  · rintro ⟨hr, h⟩
    refine ⟨hr, fun p hp hlong => h p hp (.path hlong), fun p hp hfile e he => ?_⟩
    obtain ⟨content, hfind⟩ := exists_file_of_isFile hfile
    by_contra hverdict
    have hformat := isSome_formatOf?_of_mem_candidates hp
    exact h p hp ((breaks_iff hformat hfind).2 ⟨e, he, by simpa using hverdict⟩)

theorem Loadable.customs_eq (h : r.Loadable t) :
    r.customs t = .ok ((r.candidates t).filterMap (loaded t)) :=
  customs_of_not_breaks h.directory (loadable_iff.1 h).2

theorem loadable_of_customs {definitions : List Definition}
    (h : r.customs t = .ok definitions) : r.Loadable t := by
  have hr := reachable_of_customs h
  refine loadable_iff.2 ⟨hr, fun p hp hbreaks => ?_⟩
  obtain ⟨e, -, he⟩ := customs_of_breaks hr ⟨p, hp, hbreaks⟩
  rw [h] at he
  cases he

theorem list_eq_ok_iff {l : List Summary} :
    r.list t = .ok l ↔ ∃ definitions, r.customs t = .ok definitions ∧
      l = Catalog.builtIns.map (·.summary .builtIn) ++ definitions.map (·.summary .custom) := by
  rw [list]
  cases r.customs t with
  | error e => simp [bind, Except.bind]
  | ok definitions => simp [bind, Except.bind, pure, Except.pure, eq_comm]

/-- There is a listing exactly when all that is in the directory can be loaded. -/
theorem exists_list_iff : (∃ l, r.list t = .ok l) ↔ r.Loadable t := by
  constructor
  · rintro ⟨l, hl⟩
    obtain ⟨definitions, hcustoms, -⟩ := list_eq_ok_iff.1 hl
    exact loadable_of_customs hcustoms
  · exact fun h => ⟨_, list_eq_ok_iff.2 ⟨_, h.customs_eq, rfl⟩⟩

/-! ### What is found -/

/-- A built-in workflow is found under its name whatever the files are. -/
theorem find?_of_mem_builtIns {d : Definition} (h : d ∈ Catalog.builtIns) :
    r.find? t d.name = .ok (some d) := by
  rw [find?, find?_name_of_mem nodup_builtIns h]

/-- A built-in workflow is found before any custom one. -/
theorem find?_of_customs {definitions : List Definition} (h : r.customs t = .ok definitions) :
    r.find? t name = .ok ((Catalog.builtIns ++ definitions).find? fun d => d.name = name) := by
  rw [find?, h, List.find?_append]
  cases Catalog.builtIns.find? fun d => d.name = name <;> rfl

theorem require_eq {found : Option Definition} (h : r.find? t name = .ok found) :
    r.require t name = found.elim (.error (.notFound name)) .ok := by
  rw [require, h]
  cases found <;> rfl

/-- **Looking up what is listed.** A built-in workflow is found under its name whatever the files
are. There is a listing exactly when all that is in the directory can be loaded. Then what is found
under a name is the workflow of the first entry with that name, nothing if there is none; and if no
built-in workflow has the name, it is the one from the first file, in the order of names, that holds
a workflow of that name. A workflow that is required is that one, or said not to be found. -/
theorem find?_list (r : Registry) (t : FileTree) :
    (∀ d ∈ Catalog.builtIns, r.find? t d.name = .ok (some d)) ∧
    ((∃ l, r.list t = .ok l) ↔ r.Loadable t) ∧
    ∀ l, r.list t = .ok l → ∀ name, ∃ found, r.find? t name = .ok found ∧
      (found = none ↔ ∀ s ∈ l, s.name ≠ name) ∧
      (∀ d, found = some d → ∃ origin,
        l.find? (fun s => s.name = name) = some (d.summary origin)) ∧
      ((∀ b ∈ Catalog.builtIns, b.name ≠ name) → ∀ d, found = some d ↔
        ∃ p ∈ r.candidates t, loaded t p = some d ∧ d.name = name ∧
          ∀ q ∈ r.candidates t, q.name < p.name → ∀ b, loaded t q = some b → b.name ≠ name) ∧
      r.require t name = found.elim (.error (.notFound name)) .ok := by
  refine ⟨fun d => find?_of_mem_builtIns, exists_list_iff, fun l hl name => ?_⟩
  obtain ⟨definitions, hcustoms, rfl⟩ := list_eq_ok_iff.1 hl
  have hfind : r.find? t name = _ := find?_of_customs hcustoms
  have hentry : (Catalog.builtIns.map (·.summary .builtIn) ++
      definitions.map (·.summary .custom)).find? (fun s => s.name = name) =
      ((Catalog.builtIns.find? fun d => d.name = name).map (·.summary .builtIn)).or
        ((definitions.find? fun d => d.name = name).map (·.summary .custom)) := by
    rw [List.find?_append, find?_summary, find?_summary]
  have hdefinitions : definitions = (r.candidates t).filterMap (loaded t) :=
    Except.ok.inj (hcustoms.symm.trans (loadable_of_customs hcustoms).customs_eq)
  refine ⟨_, hfind, ?_, ?_, ?_, require_eq hfind⟩
  · simp [List.find?_eq_none, or_imp, forall_and, Definition.summary]
  · intro d hd
    rw [hentry]
    rw [List.find?_append] at hd
    cases hbuiltIn : Catalog.builtIns.find? fun d => d.name = name with
    | some b =>
      rw [hbuiltIn] at hd
      obtain rfl := Option.some.inj hd
      exact ⟨.builtIn, rfl⟩
    | none =>
      rw [hbuiltIn, Option.none_or] at hd
      exact ⟨.custom, by rw [hd]; rfl⟩
  · intro hother d
    have hnone : Catalog.builtIns.find? (fun d => d.name = name) = none := by simpa using hother
    rw [List.find?_append, hnone, Option.none_or, hdefinitions,
      find?_filterMap_eq_some_iff (pairwise_candidates r t)]
    simp

end Registry

namespace Registry

variable {p : FilePath}

/-- The text of a workflow with a description. -/
def Sample.note (description : String) : String :=
  "\x7b\"name\": \"memo\", \"description\": \"" ++ description ++ "\", \"steps\": [" ++
    "\x7b\"id\": \"s\", \"name\": \"n\", \"tool\": \"t\", \"parameters\": \x7b\x7d\x7d]\x7d"

/-- A directory with two files that hold workflows of the same name. -/
def Sample.twice : FileTree :=
  ⟨[(["w"], .directory), (["b.json", "w"], .file (encodeUtf8 (note "From the second"))),
    (["a.json", "w"], .file (encodeUtf8 (note "From the first")))]⟩

theorem Sample.eq_of_mem_twice (h : p ∈ registry.candidates twice) :
    p = ⟨0, ["w", "a.json"]⟩ ∨ p = ⟨0, ["w", "b.json"]⟩ := by
  have hl : twice.locate ⟨0, ["w"]⟩ = .ok ["w"] := rfl
  obtain ⟨name, rfl, hname⟩ := exists_of_mem_candidates rfl hl h
  have hkeys : twice.nodes.keys = [["w"], ["b.json", "w"], ["a.json", "w"]] := rfl
  rw [hkeys] at hname
  obtain rfl | rfl : name = "b.json" ∨ name = "a.json" := by simpa using hname
  · exact .inr rfl
  · exact .inl rfl

theorem Sample.first_mem_twice : ⟨0, ["w", "a.json"]⟩ ∈ registry.candidates twice := by
  have hl : twice.locate ⟨0, ["w"]⟩ = .ok ["w"] := rfl
  exact mem_candidates rfl hl (by decide +kernel) (.tail _ (.tail _ (.head _))) (by decide +kernel)

set_option maxRecDepth 10000 in
theorem Sample.loaded_first : (loaded twice ⟨0, ["w", "a.json"]⟩).any fun d =>
    d.name = "memo" && d.description = "From the first" := by
  decide +kernel

set_option maxRecDepth 10000 in
theorem Sample.isSome_loaded_second : (loaded twice ⟨0, ["w", "b.json"]⟩).isSome := by
  decide +kernel

theorem Sample.loadable_twice : registry.Loadable twice where
  directory := by
    have hl : twice.locate ⟨0, ["w"]⟩ = .ok ["w"] := rfl
    exact reachable_of_locate rfl hl
  paths p hp := by
    obtain rfl | rfl := eq_of_mem_twice hp <;> decide +kernel
  files p hp hfile e he := by
    have hsome : (loaded twice p).isSome := by
      obtain rfl | rfl := eq_of_mem_twice hp
      · exact Option.isSome_of_any loaded_first
      · exact isSome_loaded_second
    rw [loaded, if_pos hfile, he] at hsome
    cases hsome

/-- The file that comes first in order wins, although it is listed last in the tree. -/
theorem find?_list_sample : Sample.registry.Loadable Sample.twice ∧
    ∃ d, Sample.registry.find? Sample.twice "memo" = .ok (some d) ∧
      d.description = "From the first" := by
  obtain ⟨-, hlist, hlookup⟩ := find?_list Sample.registry Sample.twice
  obtain ⟨l, hl⟩ := hlist.2 Sample.loadable_twice
  obtain ⟨found, hfind, -, -, hfirst, -⟩ := hlookup l hl "memo"
  have hloaded := Sample.loaded_first
  obtain ⟨d, hd⟩ : ∃ d, loaded Sample.twice ⟨0, ["w", "a.json"]⟩ = some d :=
    Option.isSome_iff_exists.1 (Option.isSome_of_any hloaded)
  rw [hd, Option.any_some, Bool.and_eq_true, decide_eq_true_eq, decide_eq_true_eq] at hloaded
  refine ⟨Sample.loadable_twice, d, ?_, hloaded.2⟩
  rw [hfind, (hfirst (by decide) d).2 ⟨_, Sample.first_mem_twice, hd, hloaded.1, ?_⟩]
  intro q hq hlt
  obtain rfl | rfl := Sample.eq_of_mem_twice hq <;> exact absurd hlt (by decide)

end Registry
end Runbook
