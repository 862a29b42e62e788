import Runbook.Proofs.Files.Growth
import Runbook.Proofs.Registry.Lookup
import Runbook.Proofs.Saving

/-!
# What saving does to files

Saving makes directories and then writes at most one file; it fails exactly if nothing is to be
saved or a file operation fails (`save_error_iff`). What a tree keeps when something is put into it
(`Keeps`) it keeps over all these steps: its files, its directories, the ways to them, and the
workflows that are listed from each directory (`list_eq_workflowsIn`).
-/

namespace Runbook

/-- Whether a definition has a document that can be written. -/
def Definition.CanBeDumped (d : Definition) : Prop :=
  ∃ document, d.document = .ok document ∧ Yaml.isWritable document

/-- The definition in what stands under a name; none if it is no file or the file holds none. -/
def FileNode.definition? [Stack] (name : String) : FileNode → Option Definition
  | .directory => none
  | .file bytes => do
    let format ← formatOf? (FilePath.lowerExtension ⟨0, [name]⟩)
    let text ← decodeUtf8? bytes
    (Definition.ofText format (String.ofList (unifyLineEnds text.toList))).toOption

namespace FileTree

variable [Stack] {t t' t'' : FileTree} {p q : Place} {n : FileNode} {changed : Option Place}

/-- The workflows directly inside a directory, with the names of their files, in their order. -/
def workflowsIn (t : FileTree) (directory : Place) : List (String × Definition) :=
  (t.children directory).filterMap fun e => (e.2.definition? e.1).map fun d => (e.1, d)

/-- A workflow is in a file. -/
theorem WellFormed.of_mem_workflowsIn (h : t.WellFormed) {e : String × Definition}
    (he : e ∈ t.workflowsIn q) : ∃ bytes, t.file? (e.1 :: q) = some bytes := by
  obtain ⟨⟨name, m⟩, hchild, hd⟩ := List.mem_filterMap.1 he
  obtain ⟨d, hd, rfl⟩ := Option.map_eq_some_iff.1 hd
  obtain ⟨-, -, -, hnode⟩ := h.of_mem_children hchild
  cases m with
  | directory => cases hd
  | file bytes => exact ⟨bytes, by rw [file?, hnode]⟩

theorem workflowsIn_put_filter (h : t.Distinct) (p q : Place) (n : FileNode) :
    ((t.put p n).workflowsIn q).filter (fun e => e.1 :: q ≠ p) =
      (t.workflowsIn q).filter fun e => e.1 :: q ≠ p := by
  have hselect : ∀ u : FileTree, (u.workflowsIn q).filter (fun e => e.1 :: q ≠ p) =
      ((u.children q).filter fun e => e.1 :: q ≠ p).filterMap fun e =>
        (e.2.definition? e.1).map fun d => (e.1, d) := by
    intro u
    rw [workflowsIn, List.filter_filterMap, List.filterMap_filter]
    refine List.filterMap_congr fun e _ => ?_
    cases e.2.definition? e.1 <;> simp [Option.filter]
  rw [hselect, hselect, children_put_filter h]

/-! ### What is kept -/

/-- What of a tree is the same in another one, but for the file at a place if one is given. -/
structure Keeps (t t' : FileTree) (changed : Option Place) : Prop where
  files : ∀ q, some q ≠ changed → t'.file? q = t.file? q
  directories : ∀ q, t.node? q = some .directory → t'.node? q = some .directory
  paths : ∀ d q, t.locate d = .ok q → t'.locate d = .ok q
  workflows : ∀ q, (t'.workflowsIn q).filter (fun e => some (e.1 :: q) ≠ changed) =
    (t.workflowsIn q).filter fun e => some (e.1 :: q) ≠ changed

theorem keeps_refl (t : FileTree) : Keeps t t none :=
  ⟨fun _ _ => rfl, fun _ h => h, fun _ _ h => h, fun _ => rfl⟩

/-- What is put where no directory is changes at most what stands there. -/
theorem keeps_put (h : t.WellFormed) (hp : t.node? p ≠ some .directory) (n : FileNode) :
    Keeps t (t.put p n) (some p) where
  files _ hq := file?_put_of_ne fun he => hq (congrArg some he)
  directories _ hq := (node?_put_of_ne (ne_of_node? hp hq)).trans hq
  paths _ _ hl := locate_put hp hl
  workflows q := by simpa using workflowsIn_put_filter h.distinct p q n

namespace Keeps

theorem workflowsIn_eq (h : Keeps t t' none) (q : Place) : t'.workflowsIn q = t.workflowsIn q := by
  simpa using h.workflows q

theorem trans (h : Keeps t t' none) (h' : Keeps t' t'' changed) : Keeps t t'' changed where
  files q hq := (h'.files q hq).trans (h.files q nofun)
  directories q hq := h'.directories q (h.directories q hq)
  paths d q hl := h'.paths d q (h.paths d q hl)
  workflows q := by rw [h'.workflows, h.workflowsIn_eq]

/-- Nothing is changed where there is no file, neither before nor after. -/
theorem of_no_file (h : Keeps t t' (some p)) (ht : t.WellFormed) (ht' : t'.WellFormed)
    (hbefore : t.file? p = none) (hafter : t'.file? p = none) : Keeps t t' none where
  files q _ := by
    by_cases hq : q = p
    · rw [hq, hbefore, hafter]
    · exact h.files q (by simpa using hq)
  directories := h.directories
  paths := h.paths
  workflows q := by
    have hall : ∀ u : FileTree, u.WellFormed → u.file? p = none →
        (u.workflowsIn q).filter (fun e => some (e.1 :: q) ≠ some p) = u.workflowsIn q := by
      intro u hu hnone
      refine List.filter_eq_self.2 fun e he => decide_eq_true fun heq => ?_
      obtain ⟨bytes, hbytes⟩ := hu.of_mem_workflowsIn he
      rw [Option.some.inj heq, hnone] at hbytes
      cases hbytes
    have hworkflows := h.workflows q
    rw [hall t' ht' hafter, hall t ht hbefore] at hworkflows
    rw [hworkflows]

end Keeps

/-- Making directories changes nothing about what was there. -/
theorem Grown.keeps (h : Grown t t') (ht : t.WellFormed) : Keeps t t' none := by
  induction h with
  | refl => exact keeps_refl t
  | @make t' p h hnew hin ih =>
    have ht' := h.wellFormed ht
    have hfree : t'.node? p ≠ some .directory := by simp [hnew]
    refine ih.trans ((keeps_put ht' hfree .directory).of_no_file ht' (ht'.put hfree hin _) ?_ ?_)
    · rw [file?, hnew]
    · rw [file?, node?_put_self hin.given]

end FileTree

namespace Registry

variable {r : Registry} {t t' : FileTree} {directory p : FilePath} {place : Place}

/-! ### Saving -/

variable {name : String} {given : Except (List Schema.Problem) Definition}
  {target : Option FilePath}

/-- Whether nothing is to be saved: the name is refused, the document is not valid or the definition
cannot be dumped. -/
def IsRefused (name : String) (given : Except (List Schema.Problem) Definition) : Prop :=
  ¬ isFileName name ∨ (∃ problems, given = .error problems) ∨ ∃ d, given = .ok d ∧ ¬ d.CanBeDumped

/-- Whether a file operation fails: making the directory, or writing the file in it. -/
def IsBlocked (r : Registry) (t : FileTree) (name : String) (target : Option FilePath) : Prop :=
  ∃ e, (t.makeDirectories (r.target target)).2 = .error e ∨ ∀ bytes,
    (t.makeDirectories (r.target target)).1.write (fileIn (r.target target) name) bytes = .error e

theorem not_refused_of_save_ok (h : r.save t name given target = (t', .ok p)) :
    ¬ IsRefused name given ∧ ¬ r.IsBlocked t name target := by
  obtain ⟨hname, rfl, d, t₀, document, rfl, hmade, hdocument, hwritable, hwritten⟩ := save_ok h
  constructor
  · rintro (hno | ⟨problems, hno⟩ | ⟨d', hd', hno⟩)
    · exact hno hname
    · cases hno
    · obtain rfl := Except.ok.inj hd'
      exact hno ⟨document, hdocument, hwritable⟩
  · rw [IsBlocked, hmade]
    rintro ⟨e, he | he⟩
    · cases he
    · rw [he] at hwritten
      cases hwritten

theorem save_of_not_refused (h : ¬ IsRefused name given) (hfree : ¬ r.IsBlocked t name target) :
    ∃ t' p, r.save t name given target = (t', .ok p) := by
  simp only [IsRefused, not_or, not_not, not_exists] at h
  obtain ⟨hname, hgiven, hdump⟩ := h
  cases given with
  | error problems => exact absurd rfl (hgiven problems)
  | ok d =>
    obtain ⟨document, hdocument, hwritable⟩ : d.CanBeDumped := by
      by_contra hnot
      exact hdump d ⟨rfl, hnot⟩
    rw [save, if_neg (by simpa using hname)]
    simp only [writeIn]
    rw [IsBlocked] at hfree
    rcases hmade : t.makeDirectories (r.target target) with ⟨t₀, e | _⟩
    · rw [hmade] at hfree
      exact absurd ⟨e, .inl rfl⟩ hfree
    · rw [hmade] at hfree
      simp only [hdocument, hwritable]
      cases hwritten :
        t₀.write (fileIn (r.target target) name) (encodeUtf8 (Yaml.write document)) with
      | error e =>
        exact absurd ⟨e, .inr fun bytes => FileTree.write_error hwritten bytes⟩ hfree
      | ok t' => exact ⟨t', _, rfl⟩

/-- A save fails if nothing is to be saved or a file operation fails, and only then. -/
theorem save_error_iff : (∃ e, (r.save t name given target).2 = .error e) ↔
    IsRefused name given ∨ r.IsBlocked t name target := by
  constructor
  · rintro ⟨e, he⟩
    by_contra hnot
    obtain ⟨hrefused, hblocked⟩ := not_or.1 hnot
    obtain ⟨t', p, hok⟩ := save_of_not_refused hrefused hblocked
    rw [hok] at he
    cases he
  · intro h
    cases hsave : r.save t name given target with
    | mk t' outcome =>
    cases outcome with
    | error e => exact ⟨e, rfl⟩
    | ok p =>
      obtain ⟨hrefused, hblocked⟩ := not_refused_of_save_ok hsave
      exact absurd h (not_or.2 ⟨hrefused, hblocked⟩)

/-- A save that fails leaves the tree as it was, or with the directories that were made for it. -/
theorem save_error {e : SaveError} (h : r.save t name given target = (t', .error e)) :
    t' = t ∨ t' = (t.makeDirectories (r.target target)).1 := by
  unfold save at h
  split at h
  · exact .inl (Prod.mk.inj h).1.symm
  split at h
  · exact .inl (Prod.mk.inj h).1.symm
  right
  unfold writeIn at h
  split at h
  · next hmade =>
    rw [hmade]
    exact (Prod.mk.inj h).1.symm
  next hmade =>
  rw [hmade]
  split at h
  · exact (Prod.mk.inj h).1.symm
  split at h
  · exact (Prod.mk.inj h).1.symm
  split at h
  · exact (Prod.mk.inj h).1.symm
  · cases h

/-- A save that fails has at most made directories. -/
theorem grown_of_save_error (ht : t.WellFormed) {e : SaveError}
    (h : r.save t name given target = (t', .error e)) : t.Grown t' := by
  rcases save_error h with rfl | rfl
  · exact .refl
  · exact ht.grown_makeDirectories _

/-! ### Listing a directory -/

variable [Stack]

/-- What is loaded is what is in the file. -/
theorem loaded_child {name : String} {n : FileNode}
    (hformat : (formatOf? (directory.child name).lowerExtension).isSome)
    (h : t.find? (directory.child name) = .ok (some n)) :
    loaded t (directory.child name) = n.definition? name := by
  obtain ⟨format, hformat⟩ := Option.isSome_iff_exists.1 hformat
  cases n with
  | directory =>
    have hfile : t.isFile (directory.child name) = .ok false := by rw [FileTree.isFile, h]
    rw [loaded, hfile]
    rfl
  | file bytes =>
    rw [loaded, if_pos (FileTree.isFile_of_find? h), load_of_file hformat h, FileNode.definition?,
      ← FilePath.lowerExtension_child directory, hformat]
    cases decodeUtf8? bytes with
    | none => rfl
    | some text =>
      simp only [bind, Option.bind]
      cases Definition.ofText format (String.ofList (unifyLineEnds text.toList)) <;> rfl

/-- What can be loaded from a directory is what is in its files. -/
theorem filterMap_loaded (ht : t.WellFormed) (hl : t.locate directory = .ok place)
    (hshort : ∀ q ∈ pathsIn t directory place, t.find? q ≠ .error .nameTooLong) :
    (pathsIn t directory place).filterMap (loaded t) = (t.workflowsIn place).map Prod.snd := by
  rw [FileTree.workflowsIn, List.map_filterMap, pathsIn, List.filterMap_filter,
    List.filterMap_map]
  refine List.filterMap_congr fun e he => ?_
  rw [Function.comp_apply, Option.map_map]
  split
  · next hformat =>
    have hmem : directory.child e.1 ∈ pathsIn t directory place :=
      List.mem_filter.2 ⟨List.mem_map_of_mem he, hformat⟩
    rw [loaded_child hformat (ht.find?_child hl he (hshort _ hmem))]
    exact Option.map_id'.symm
  · next hformat =>
    rw [FilePath.lowerExtension_child, Bool.not_eq_true, Option.isSome_eq_false_iff,
      Option.isNone_iff_eq_none] at hformat
    cases hn : e.2 with
    | directory => rfl
    | file bytes =>
      rw [FileNode.definition?, hformat]
      rfl

/-- A listing consists of the built-in workflows and those in the directory. -/
theorem list_eq_workflowsIn (ht : t.WellFormed) (hdir : r.customDir = some directory)
    (hl : t.locate directory = .ok place) (hplace : t.node? place = some .directory)
    {l : List Summary} (h : r.list t = .ok l) :
    l = Catalog.builtIns.map (·.summary .builtIn) ++
      ((t.workflowsIn place).map Prod.snd).map (·.summary .custom) := by
  obtain ⟨definitions, hcustoms, rfl⟩ := list_eq_ok_iff.1 h
  have hloadable := loadable_of_customs hcustoms
  obtain rfl := Except.ok.inj (hcustoms.symm.trans hloadable.customs_eq)
  have hcandidates : r.candidates t = pathsIn t directory place := by
    simp only [candidates, hdir, hl, if_pos hplace]
  have hshort := hloadable.paths
  rw [hcandidates] at hshort ⊢
  rw [filterMap_loaded ht hl hshort]

/-! ### What a save changes -/

/-- What a save that succeeds wrote, and where. -/
structure Saved (r : Registry) (t t' : FileTree) (name : String) (d : Definition)
    (target : Option FilePath) (place : Place) : Prop where
  directory : t'.locate (r.target target) = .ok place ∧ t'.node? place = some .directory
  file : t'.locate (fileIn (r.target target) name) = .ok ((name ++ ".yaml") :: place)
  content : ∃ document, d.document = .ok document ∧ Yaml.isWritable document ∧
    t'.file? ((name ++ ".yaml") :: place) = some (encodeUtf8 (Yaml.write document))
  rest : t.Keeps t' (some ((name ++ ".yaml") :: place))

theorem saved_of_save_ok (ht : t.WellFormed) (h : r.save t name given target = (t', .ok p)) :
    t'.WellFormed ∧ p = fileIn (r.target target) name ∧
      ∃ d place, given = .ok d ∧ r.Saved t t' name d target place := by
  obtain ⟨-, rfl, d, t₀, document, rfl, hmade, hdocument, hwritable, hwritten⟩ := save_ok h
  have hgrown := ht.grown_makeDirectories (r.target target)
  rw [hmade] at hgrown
  have ht₀ := hgrown.wellFormed ht
  obtain ⟨place, hl, hplace⟩ := FileTree.makeDirectories_ok hmade
  obtain ⟨q, hq, hfree, rfl⟩ := FileTree.write_ok hwritten
  obtain rfl := FileTree.eq_of_locate_child hl (append_yaml_ne name) hq
  have hkeeps := FileTree.keeps_put ht₀ hfree (.file (encodeUtf8 (Yaml.write document)))
  refine ⟨ht₀.put hfree (ht₀.isInside_of_locate hq hfree) _, rfl, d, place, rfl, ?_⟩
  exact
    { directory := ⟨hkeeps.paths _ _ hl, hkeeps.directories _ hplace⟩
      file := hkeeps.paths _ _ hq
      content := ⟨document, hdocument, hwritable, FileTree.file?_put_self hfree⟩
      rest := (hgrown.keeps ht).trans hkeeps }

/-- **What a save changes.** It fails exactly if nothing is to be saved, for its name, its document
or its definition, or if a file operation fails. Whenever it fails, every file is as it was, and
nothing that was in a directory is gone. If it succeeds, it wrote the document of the definition to
the file of the name directly inside of the directory, and the rest is as it was: every other file,
and from each directory the same workflows, in their order, but for the one in that file. A listing
of the tree before or after shows the built-in workflows and those in the directory. -/
theorem save_frame {outcome : Except SaveError FilePath} (ht : t.WellFormed)
    (h : r.save t name given target = (t', outcome)) :
    ((∃ e, outcome = .error e) ↔ IsRefused name given ∨ r.IsBlocked t name target) ∧
    (∀ e, outcome = .error e → t.Keeps t' none) ∧
    (∀ p, outcome = .ok p → p = fileIn (r.target target) name ∧
      ∃ d place, given = .ok d ∧ r.Saved t t' name d target place) ∧
    t'.WellFormed ∧
    ∀ u ∈ [t, t'], ∀ (r' : Registry) (directory : FilePath) (place : Place) (l : List Summary),
      r'.customDir = some directory → u.locate directory = .ok place →
      u.node? place = some .directory → r'.list u = .ok l →
      l = Catalog.builtIns.map (·.summary .builtIn) ++
        ((u.workflowsIn place).map Prod.snd).map (·.summary .custom) := by
  have hafter : t'.WellFormed := by
    cases outcome with
    | error e => exact (grown_of_save_error ht h).wellFormed ht
    | ok p => exact (saved_of_save_ok ht h).1
  refine ⟨?_, ?_, ?_, hafter, fun u hu r' directory place l hdir hl hplace hlist => ?_⟩
  · rw [← save_error_iff, h]
  · rintro e rfl
    exact (grown_of_save_error ht h).keeps ht
  · rintro p rfl
    exact (saved_of_save_ok ht h).2
  · have hwellFormed : u.WellFormed := by
      obtain rfl | hu := List.mem_cons.1 hu
      · exact ht
      · exact List.mem_singleton.1 hu ▸ hafter
    exact list_eq_workflowsIn hwellFormed hdir hl hplace hlist

end Registry

namespace Registry

/-- The tree in which a workflow was saved again under another name. -/
def Sample.copied : FileTree :=
  (registry.save (saved due) "copy" (.ok (memo due)) none).1

/-- The file of a workflow is as it was when the workflow is saved again under another name. -/
theorem save_frame_sample : FileTree.empty.WellFormed ∧
    Sample.registry.save .empty "memo" (.ok (Sample.memo Sample.due)) none =
      (Sample.saved Sample.due, .ok ⟨0, ["w", "memo.yaml"]⟩) ∧
    Sample.registry.save (Sample.saved Sample.due) "copy" (.ok (Sample.memo Sample.due)) none =
      (Sample.copied, .ok ⟨0, ["w", "copy.yaml"]⟩) ∧
    Sample.copied.file? ["memo.yaml", "w"] =
      (Sample.saved Sample.due).file? ["memo.yaml", "w"] := by
  obtain ⟨-, -, -, hwellFormed, -⟩ := save_frame FileTree.wellFormed_empty Sample.save_due
  have hsave : Sample.registry.save (Sample.saved Sample.due) "copy"
      (.ok (Sample.memo Sample.due)) none =
      (Sample.copied, .ok ⟨0, ["w", "copy.yaml"]⟩) := rfl
  obtain ⟨-, -, hok, -⟩ := save_frame hwellFormed hsave
  obtain ⟨-, d, place, -, hsaved⟩ := hok _ rfl
  refine ⟨FileTree.wellFormed_empty, Sample.save_due, hsave, hsaved.rest.files _ fun he => ?_⟩
  exact absurd (List.cons.inj (Option.some.inj he)).1 (by decide)

end Registry
end Runbook
