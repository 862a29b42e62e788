import Runbook.Proofs.Files
import Runbook.Registry

/-!
# Listing the workflows of a directory

A listing passes over what holds no definition, and ends on what keeps the question from being
answered: bytes that are no text, a YAML text whose values cannot be built, a JSON text that nests
too deep and a path that is too long to be looked up.
-/

namespace Runbook

/-! ### Paths and files -/

@[simp] theorem FilePath.name_child (directory : FilePath) (name : String) :
    (directory.child name).name = name := by
  simp [child, FilePath.name]

/-- The extension of a path is that of its last name. -/
theorem FilePath.lowerExtension_child (directory : FilePath) (name : String) :
    (directory.child name).lowerExtension = lowerExtension ⟨0, [name]⟩ := by
  rw [lowerExtension, extension, name_child]
  rfl

theorem FileTree.isFile_of_find? {t : FileTree} {p : FilePath} {content : List UInt8}
    (h : t.find? p = .ok (some (.file content))) : t.isFile p = .ok true := by
  rw [isFile, h]

namespace Registry

variable {r : Registry} {t : FileTree} {directory p : FilePath} {place : Place}

/-- What ends a listing at a path that has a known extension. -/
inductive Breaks [Stack] (t : FileTree) (p : FilePath) : Prop
  | path (h : t.find? p = .error .nameTooLong)
  | bytes {content : List UInt8} (h : t.find? p = .ok (some (.file content)))
      (htext : decodeUtf8? content = none)
  | value {content : List UInt8} {text : String} {e : Yaml.Error}
      (h : t.find? p = .ok (some (.file content))) (htext : decodeUtf8? content = some text)
      (hformat : formatOf? p.lowerExtension = some yamlFormat)
      (hread : Yaml.read (unifyLineEnds text.toList) = .error e) (he : e ≠ .malformed)
  | depth {content : List UInt8} {text format : String} {stop : Json.Stop}
      (h : t.find? p = .ok (some (.file content))) (htext : decodeUtf8? content = some text)
      (hformat : formatOf? p.lowerExtension = some format) (hjson : format ≠ yamlFormat)
      (hread : Json.read .document (unifyLineEnds text.toList) = .error stop)
      (hstop : stop.cause = .tooDeep)

/-- The definition in a file; none if there is no file or it holds none. -/
def loaded [Stack] (t : FileTree) (p : FilePath) : Option Definition :=
  if t.isFile p = .ok true then (t.load p).toOption else none

/-- The paths whose files may hold custom workflows. -/
def candidates (r : Registry) (t : FileTree) : List FilePath :=
  match r.customDir with
  | none => []
  | some directory =>
    match t.locate directory with
    | .error _ => []
    | .ok place => if t.node? place = some .directory then pathsIn t directory place else []

/-- Whether the path of the directory, if there is one, is short enough to be looked up. -/
def Reachable (r : Registry) (t : FileTree) : Prop :=
  ∀ directory, r.customDir = some directory → t.locate directory ≠ .error .nameTooLong

/-! ### The candidates -/

theorem child_inj {a b : String} (h : directory.child a = directory.child b) : a = b := by
  simpa [FilePath.child] using h

/-- Without the path of something new, the paths of a directory are those from before. -/
theorem pathsIn_put {name : String} {n : FileNode} (hdistinct : t.Distinct)
    (h : t.node? (name :: place) = none) :
    (pathsIn (t.put (name :: place) n) directory place).filter (· ≠ directory.child name) =
      pathsIn t directory place := by
  rw [pathsIn, pathsIn, ← FileTree.children_put (n := n) hdistinct h, List.filter_comm]
  congr 1
  rw [List.filter_map]
  congr 1
  refine List.filter_congr fun e _ => ?_
  have : directory.child e.1 = directory.child name ↔ e.1 = name :=
    ⟨child_inj, fun h => by rw [h]⟩
  simp [this]

theorem reachable_of_locate (hdir : r.customDir = some directory)
    (hl : t.locate directory = .ok place) : r.Reachable t := by
  intro d hd
  rw [hdir] at hd
  cases hd
  rw [hl]
  exact nofun

theorem isSome_formatOf?_of_mem_candidates (h : p ∈ r.candidates t) :
    (formatOf? p.lowerExtension).isSome := by
  unfold candidates at h
  split at h
  · simp at h
  split at h
  · simp at h
  split at h
  · exact (List.mem_filter.1 h).2
  · simp at h

/-- What is in the directory of a registry and has a known extension is a candidate. -/
theorem mem_candidates (hdir : r.customDir = some directory) (hl : t.locate directory = .ok place)
    (hd : t.node? place = some .directory) {name : String} {n : FileNode}
    (hn : (name :: place, n) ∈ t.nodes)
    (hformat : (formatOf? (directory.child name).lowerExtension).isSome) :
    directory.child name ∈ r.candidates t := by
  simp only [candidates, hdir, hl, if_pos hd]
  have he : (name, n) ∈ t.children place :=
    FileTree.mem_children.2 (FileTree.mem_entriesIn.2 hn)
  exact List.mem_filter.2 ⟨List.mem_map.2 ⟨_, he, rfl⟩, hformat⟩

/-- A candidate is what is in the directory under a name. -/
theorem exists_of_mem_candidates (hdir : r.customDir = some directory)
    (hl : t.locate directory = .ok place) (h : p ∈ r.candidates t) :
    ∃ name, p = directory.child name ∧ name :: place ∈ t.nodes.keys := by
  simp only [candidates, hdir, hl] at h
  split at h
  · obtain ⟨e, he, rfl⟩ := List.mem_map.1 (List.mem_filter.1 h).1
    have hn := FileTree.mem_entriesIn.1 (FileTree.mem_children.1 he)
    exact ⟨e.1, rfl, List.mem_map.2 ⟨_, hn, rfl⟩⟩
  · simp at h

section Gather

variable {α β ε : Type} {f : α → Except ε (Option β)}

/-- What the elements of a list give, if none of them fails. -/
def gather (f : α → Except ε (Option β)) (l : List α) : Except ε (List β) :=
  (l.mapM f).map (List.filterMap id)

theorem gather_cons (a : α) (l : List α) :
    gather f (a :: l) = (f a).bind fun b => (gather f l).map (b.toList ++ ·) := by
  rw [gather, gather, List.mapM_cons]
  rcases f a with _ | b
  · rfl
  rcases l.mapM f with _ | bs
  · rfl
  cases b <;> rfl

theorem gather_congr {g : α → Except ε (Option β)} {l : List α} (h : ∀ a ∈ l, f a = g a) :
    gather f l = gather g l := by
  induction l with
  | nil => rfl
  | cons a r ih =>
    rw [gather_cons, gather_cons, h a List.mem_cons_self,
      ih fun b hb => h b (List.mem_cons_of_mem _ hb)]

theorem gather_of_ok {g : α → Option β} {l : List α} (h : ∀ a ∈ l, f a = .ok (g a)) :
    gather f l = .ok (l.filterMap g) := by
  induction l with
  | nil => rfl
  | cons a r ih =>
    rw [gather_cons, h a List.mem_cons_self, ih fun b hb => h b (List.mem_cons_of_mem _ hb)]
    cases hg : g a <;> simp [Except.bind, Except.map, hg]

/-- Elements that give nothing can be left out. -/
theorem gather_filter (keep : α → Bool) {l : List α}
    (h : ∀ a ∈ l, keep a = false → f a = .ok none) : gather f l = gather f (l.filter keep) := by
  induction l with
  | nil => rfl
  | cons a r ih =>
    have ih := ih fun b hb => h b (List.mem_cons_of_mem _ hb)
    cases ha : keep a with
    | false =>
      rw [List.filter_cons_of_neg (by simp [ha]), ← ih, gather_cons, h a List.mem_cons_self ha]
      cases gather f r <;> rfl
    | true => rw [List.filter_cons_of_pos ha, gather_cons, gather_cons, ih]

end Gather

/-! ### One file -/

/-- A document that was read can be refused only for what it says. -/
theorem isVerdict_of_ofSource {v : Value} {e : SourceError} (h : Definition.ofSource v = .error e) :
    e.isVerdict = true := by
  unfold Definition.ofSource at h
  cases hd : Definition.ofDocument v with
  | ok d => simp [hd, Except.mapError] at h
  | error problems =>
    simp only [hd, Except.mapError, Except.error.injEq] at h
    rw [← h]
    rfl

theorem isFile_congr {t' : FileTree} (h : t'.find? p = t.find? p) : t'.isFile p = t.isFile p := by
  rw [FileTree.isFile, FileTree.isFile, h]

variable [Stack]

theorem load_of_file {format : String} {content : List UInt8}
    (hformat : formatOf? p.lowerExtension = some format)
    (h : t.find? p = .ok (some (.file content))) :
    t.load p = match decodeUtf8? content with
      | none => .error .notText
      | some text =>
        (Definition.ofText format (String.ofList (unifyLineEnds text.toList))).mapError
          .source := by
  have hread : t.read p = .ok content := by
    simp only [FileTree.read, h, bind, Except.bind, pure, Except.pure]
  unfold FileTree.load
  simp only [hformat, hread, bind, Except.bind, Except.mapError]
  cases decodeUtf8? content with
  | none => rfl
  | some text => rfl

/-- A text that holds no definition is at fault for that unless its values cannot be built or it
nests too deep. -/
theorem ofText_spec (format : String) (s : List Char) :
    (∃ e, Definition.ofText format (String.ofList s) = .error e ∧ e.isVerdict = false) ↔
      (format = yamlFormat ∧ ∃ e, Yaml.read s = .error e ∧ e ≠ .malformed) ∨
      (format ≠ yamlFormat ∧
        ∃ stop, Json.read .document s = .error stop ∧ stop.cause = .tooDeep) := by
  rw [Definition.ofText, documentOfText, String.toList_ofList]
  have hsource : ∀ v, ¬ ∃ e, Definition.ofSource v = .error e ∧ e.isVerdict = false := by
    rintro v ⟨e, he, hverdict⟩
    rw [isVerdict_of_ofSource he] at hverdict
    cases hverdict
  by_cases hf : format = yamlFormat
  · rw [if_pos hf]
    cases hread : Yaml.read s with
    | ok v =>
      have := hsource v
      simp only [bind, Except.bind]
      simpa [hf] using this
    | error e => cases e <;> simp [bind, Except.bind, SourceError.isVerdict, hf]
  · rw [if_neg hf]
    cases hread : Json.read .document s with
    | ok v =>
      have := hsource v
      simp only [bind, Except.bind]
      simpa [hf] using this
    | error stop =>
      by_cases hs : stop.cause = .tooDeep <;>
        simp [bind, Except.bind, SourceError.isVerdict, hf, hs]

/-- A file breaks the listing if it holds no definition without being at fault for that. -/
theorem breaks_iff {content : List UInt8} (hformat : (formatOf? p.lowerExtension).isSome)
    (h : t.find? p = .ok (some (.file content))) :
    Breaks t p ↔ ∃ e, t.load p = .error e ∧ e.isVerdict = false := by
  obtain ⟨format, hformat⟩ := Option.isSome_iff_exists.1 hformat
  rw [load_of_file hformat h]
  constructor
  · intro hbreaks
    cases hbreaks with
    | path h' => rw [h] at h'; cases h'
    | bytes h' htext =>
      rw [h] at h'; cases h'
      exact ⟨.notText, by rw [htext], rfl⟩
    | value h' htext hformat' hread hne =>
      rw [h] at h'; cases h'
      rw [hformat] at hformat'; cases hformat'
      obtain ⟨e, he, hverdict⟩ := (ofText_spec _ _).2 (.inl ⟨rfl, _, hread, hne⟩)
      exact ⟨.source e, by simp only [htext, he, Except.mapError], hverdict⟩
    | depth h' htext hformat' hf hread hstop =>
      rw [h] at h'; cases h'
      rw [hformat] at hformat'; cases hformat'
      obtain ⟨e, he, hverdict⟩ := (ofText_spec _ _).2 (.inr ⟨hf, _, hread, hstop⟩)
      exact ⟨.source e, by simp only [htext, he, Except.mapError], hverdict⟩
  · rintro ⟨e, he, hverdict⟩
    cases htext : decodeUtf8? content with
    | none => exact .bytes h htext
    | some text =>
      cases hof : Definition.ofText format (String.ofList (unifyLineEnds text.toList)) with
      | ok d => simp [htext, hof, Except.mapError] at he
      | error e' =>
        simp only [htext, hof, Except.mapError, Except.error.injEq] at he
        rw [← he] at hverdict
        rcases (ofText_spec _ _).1 ⟨e', hof, hverdict⟩ with
          ⟨rfl, e'', hread, hne⟩ | ⟨hf, stop, hread, hstop⟩
        · exact .value h htext hformat hread hne
        · exact .depth h htext hformat hf hread hstop

/-- What is no file and can be looked up is passed over. -/
theorem definitionAt_of_not_isFile (h : t.isFile p = .ok false) :
    ¬ Breaks t p ∧ definitionAt t p = .ok (loaded t p) := by
  constructor
  · intro hbreaks
    unfold FileTree.isFile at h
    cases hbreaks with
    | path h' => simp [h'] at h
    | bytes h' | value h' | depth h' => simp [h'] at h
  · rw [definitionAt, loaded, h]
    rfl

/-- What is at a path is what was loaded from it, unless it ends the listing. -/
theorem definitionAt_spec (hformat : (formatOf? p.lowerExtension).isSome) :
    (¬ Breaks t p → definitionAt t p = .ok (loaded t p)) ∧
      (Breaks t p → ∃ e, e.isVerdict = false ∧ definitionAt t p = .error e) := by
  have hpassed : t.isFile p = .ok false → (¬ Breaks t p → definitionAt t p = .ok (loaded t p)) ∧
      (Breaks t p → ∃ e, e.isVerdict = false ∧ definitionAt t p = .error e) := by
    intro h
    obtain ⟨hnot, hdefinition⟩ := definitionAt_of_not_isFile h
    exact ⟨fun _ => hdefinition, fun hbreaks => absurd hbreaks hnot⟩
  cases hfind : t.find? p with
  | error e =>
    by_cases he : e = .nameTooLong
    · subst he
      have hfile : t.isFile p = .error .nameTooLong := by rw [FileTree.isFile, hfind]
      refine ⟨fun h => absurd (.path hfind) h, fun _ => ⟨.directory .nameTooLong, rfl, ?_⟩⟩
      rw [definitionAt, hfile]
      rfl
    · refine hpassed ?_
      rw [FileTree.isFile, hfind]
      cases e <;> first | rfl | exact absurd rfl he
  | ok node =>
    rcases node with _ | ⟨content⟩ | _
    · exact hpassed (by rw [FileTree.isFile, hfind])
    · have hfile := FileTree.isFile_of_find? hfind
      have hkeep : definitionAt t p = keep (t.load p) := by
        simp only [definitionAt, hfile, Except.mapError, bind, Except.bind, if_true]
      have hbreaks := breaks_iff hformat hfind
      rw [hkeep, loaded, if_pos hfile]
      generalize t.load p = x at hbreaks
      rw [hbreaks]
      cases x with
      | ok d => simp [keep, Except.toOption]
      | error e => cases he : e.isVerdict <;> simp [keep, Except.toOption, he]
    · exact hpassed (by rw [FileTree.isFile, hfind])

/-! ### All files -/

theorem definitionsIn_eq (hl : t.locate directory = .ok place) :
    definitionsIn t directory = gather (definitionAt t) (pathsIn t directory place) := by
  simp only [definitionsIn, hl, gather, Except.mapError, bind, Except.bind, pure, Except.pure]
  cases (pathsIn t directory place).mapM (definitionAt t) <;> rfl

theorem gather_definitionAt_of_breaks {paths : List FilePath}
    (hformat : ∀ p ∈ paths, (formatOf? p.lowerExtension).isSome) (h : ∃ p ∈ paths, Breaks t p) :
    ∃ e, e.isVerdict = false ∧ gather (definitionAt t) paths = .error e := by
  induction paths with
  | nil => simp at h
  | cons p r ih =>
    have ih := ih fun q hq => hformat q (List.mem_cons_of_mem _ hq)
    obtain ⟨hkeeps, hbreaks⟩ := definitionAt_spec (t := t) (hformat p List.mem_cons_self)
    rw [gather_cons]
    by_cases hp : Breaks t p
    · obtain ⟨e, he, hdefinition⟩ := hbreaks hp
      exact ⟨e, he, by rw [hdefinition]; rfl⟩
    · obtain ⟨q, hq, hb⟩ := h
      obtain rfl | hq := List.mem_cons.1 hq
      · exact absurd hb hp
      obtain ⟨e, he, hrest⟩ := ih ⟨q, hq, hb⟩
      exact ⟨e, he, by rw [hkeeps hp, hrest]; rfl⟩

/-- The custom workflows are what the candidates give. -/
theorem customs_eq (hr : r.Reachable t) :
    r.customs t = gather (definitionAt t) (r.candidates t) := by
  cases hdir : r.customDir with
  | none => 
    simp only [candidates, customs, hdir]
    rfl
  | some directory =>
    cases hl : t.locate directory with
    | error e =>
      have hne : e ≠ .nameTooLong := fun h => hr directory hdir (h ▸ hl)
      have hdirectory : t.isDirectory directory = .ok false := by
        rw [FileTree.isDirectory, FileTree.find?, hl]
        cases e <;> first | rfl | exact absurd rfl hne
      simp only [candidates, customs, hdir, hl, hdirectory]
      rfl
    | ok place =>
      have hdirectory : t.isDirectory directory = .ok (t.node? place = some .directory) := by
        rw [FileTree.isDirectory, FileTree.find?, hl]
        rfl
      by_cases hd : t.node? place = some .directory
      · simp only [candidates, customs, hdir, hl, hdirectory, hd, definitionsIn_eq hl,
          Except.mapError, bind, Except.bind, decide_true, if_true]
      · simp only [candidates, customs, hdir, hl, hdirectory, hd, if_false]
        rfl

theorem customs_of_not_breaks (hr : r.Reachable t) (h : ∀ p ∈ r.candidates t, ¬ Breaks t p) :
    r.customs t = .ok ((r.candidates t).filterMap (loaded t)) := by
  rw [customs_eq hr]
  exact gather_of_ok fun p hp =>
    (definitionAt_spec (isSome_formatOf?_of_mem_candidates hp)).1 (h p hp)

theorem customs_of_breaks (hr : r.Reachable t) (h : ∃ p ∈ r.candidates t, Breaks t p) :
    ∃ e, e.isVerdict = false ∧ r.customs t = .error e := by
  rw [customs_eq hr]
  exact gather_definitionAt_of_breaks (fun p hp => isSome_formatOf?_of_mem_candidates hp) h

/-! ### Something new in the directory -/

section Congruence

variable {t' : FileTree} (h : t'.find? p = t.find? p)
include h

theorem load_congr : t'.load p = t.load p := by
  have hread : t'.read p = t.read p := by rw [FileTree.read, FileTree.read, h]
  unfold FileTree.load
  rw [hread]

theorem definitionAt_congr : definitionAt t' p = definitionAt t p := by
  rw [definitionAt, definitionAt, isFile_congr h, load_congr h]

end Congruence

/-- Something new in the directory that gives no definition and does not end the listing changes
nothing. -/
theorem customs_put {name : String} {n : FileNode} (hdistinct : t.Distinct)
    (hdir : r.customDir = some directory) (hl : t.locate directory = .ok place)
    (h : t.node? (name :: place) = none) (hname : name ≠ "..")
    (hnew : ¬ Breaks (t.put (name :: place) n) (directory.child name) ∧
      loaded (t.put (name :: place) n) (directory.child name) = none) :
    r.customs (t.put (name :: place) n) = r.customs t := by
  have hfree : t.node? (name :: place) ≠ some .directory := by simp [h]
  have hl' := FileTree.locate_put (n := n) hfree hl
  have hplace : (t.put (name :: place) n).node? place = t.node? place :=
    FileTree.node?_put_of_ne fun he => by simpa using congrArg List.length he
  rw [customs_eq (reachable_of_locate hdir hl), customs_eq (reachable_of_locate hdir hl')]
  simp only [candidates, hdir, hl, hl', hplace]
  split
  · rw [gather_filter (· ≠ directory.child name), pathsIn_put hdistinct h]
    · refine gather_congr fun p hp => definitionAt_congr ?_
      obtain ⟨e, he, rfl⟩ := List.mem_map.1 (List.mem_filter.1 hp).1
      have hother := FileTree.ne_of_mem_entriesIn h (FileTree.mem_children.1 he)
      exact FileTree.find?_child_put h hname hother hl
    · intro p hp hkeep
      obtain rfl : p = directory.child name := by simpa using hkeep
      rw [(definitionAt_spec (List.mem_filter.1 hp).2).1 hnew.1, hnew.2]
  · rfl

/-! ### The listing and the look-up -/

/-- **Listing.** The path of the directory can be looked up. Unless one of its files breaks the
listing, the workflows are the built-in ones and what is loaded from the files in order of path, the
first of a name is found, and a name that is required is at most not found. If one breaks it, the
listing and every look-up but that of a built-in name end with an error that is no verdict on a
file. Something new in the directory changes nothing if it neither breaks the listing nor holds a
definition. -/
theorem list_spec (hr : r.Reachable t) :
    ((∀ p ∈ r.candidates t, ¬ Breaks t p) →
      r.list t = .ok (Catalog.builtIns.map (·.summary .builtIn) ++
        ((r.candidates t).filterMap (loaded t)).map (·.summary .custom)) ∧
      ∀ name, r.find? t name = .ok ((Catalog.builtIns ++
          (r.candidates t).filterMap (loaded t)).find? fun d => d.name = name) ∧
        ∀ e, r.require t name = .error e → e = .notFound name) ∧
    ((∃ p ∈ r.candidates t, Breaks t p) →
      ∃ e, e.isVerdict = false ∧ r.list t = .error e ∧
        ∀ name, r.find? t name =
          match Catalog.builtIns.find? fun d => d.name = name with
          | some d => .ok (some d)
          | none => .error e) ∧
    (∀ directory place name n, t.Distinct → r.customDir = some directory →
      t.locate directory = .ok place → t.node? (name :: place) = none → name ≠ ".." →
      ¬ Breaks (t.put (name :: place) n) (directory.child name) →
      loaded (t.put (name :: place) n) (directory.child name) = none →
      r.list (t.put (name :: place) n) = r.list t ∧
        ∀ other, r.find? (t.put (name :: place) n) other = r.find? t other) := by
  refine ⟨fun h => ?_, fun h => ?_, ?_⟩
  · have hcustoms := customs_of_not_breaks hr h
    have hfind : ∀ name, r.find? t name = .ok ((Catalog.builtIns ++
        (r.candidates t).filterMap (loaded t)).find? fun d => d.name = name) := by
      intro name
      rw [find?, hcustoms, List.find?_append]
      cases Catalog.builtIns.find? fun d => d.name = name <;> rfl
    refine ⟨by rw [list, hcustoms]; rfl, fun name => ⟨hfind name, fun e he => ?_⟩⟩
    rw [require, hfind name] at he
    revert he
    simp only [Except.mapError, bind, Except.bind]
    split
    · exact nofun
    · intro he
      cases he
      rfl
  · obtain ⟨e, he, hcustoms⟩ := customs_of_breaks hr h
    refine ⟨e, he, by rw [list, hcustoms]; rfl, fun name => ?_⟩
    rw [find?, hcustoms]
    rfl
  · intro directory place name n hdistinct hdir hl hfresh hname hnew hnone
    have hcustoms := customs_put hdistinct hdir hl hfresh hname ⟨hnew, hnone⟩
    exact ⟨by rw [list, list, hcustoms], fun other => by rw [find?, find?, hcustoms]⟩

end Registry

namespace Registry

/-- A registry with a directory in the working directory. -/
def Sample.registry : Registry := ⟨some ⟨0, ["w"]⟩, ⟨0, ["saved"]⟩⟩

/-- A directory with a file of one byte that is no text. -/
def Sample.tree : FileTree := ⟨[(["w"], .directory), (["bad.yaml", "w"], .file [0xff])]⟩

theorem Sample.reachable : registry.Reachable tree := by
  have hl : tree.locate ⟨0, ["w"]⟩ = .ok ["w"] := rfl
  exact reachable_of_locate rfl hl

theorem Sample.breaks : ∃ p ∈ registry.candidates tree, Breaks tree p :=
  ⟨_, mem_candidates rfl rfl (by decide +kernel) (.tail _ (.head _)) (by decide +kernel),
    .bytes rfl (by decide +kernel)⟩

/-- A file that is no text ends the listing and the look-up of a built-in name does not read it. -/
theorem list_spec_sample : Sample.registry.Reachable Sample.tree ∧
    ∃ e, Sample.registry.list Sample.tree = .error e ∧
      Sample.registry.find? Sample.tree "full-o11y-setup" = .ok (some Catalog.fullSetup) := by
  obtain ⟨e, -, hlist, hfind⟩ := (list_spec Sample.reachable).2.1 Sample.breaks
  refine ⟨Sample.reachable, e, hlist, ?_⟩
  rw [hfind]
  rfl

/-- Not every content of a directory can be listed. -/
theorem list_undecodable :
    ¬ ∃ summaries, Sample.registry.list Sample.tree = .ok summaries := by
  obtain ⟨e, -, hcustoms⟩ := customs_of_breaks Sample.reachable Sample.breaks
  rintro ⟨summaries, hlist⟩
  rw [list, hcustoms] at hlist
  cases hlist

end Registry
end Runbook
