import Runbook.Proofs.Registry
import Runbook.Proofs.Schema.Document
import Runbook.Proofs.Yaml.Legible

/-!
# Saved workflows are found again

What is saved is the plain form of a definition. It is found under its name as long as its texts can
be read back and nothing else in the directory keeps the question from being answered.
-/

namespace Runbook

/-! ### Texts in files -/

theorem unifyLineEnds_eq {cs : List Char} (h : ∀ c ∈ cs, c ≠ '\r') : unifyLineEnds cs = cs := by
  fun_induction unifyLineEnds cs with
  | case1 => rfl
  | case2 r ih => exact absurd rfl (h '\r' List.mem_cons_self)
  | case3 c r _ ih =>
    rw [if_neg (h c List.mem_cons_self), ih fun d hd => h d (List.mem_cons_of_mem _ hd)]

theorem decodeUtf8?_encodeUtf8 (s : String) : decodeUtf8? (encodeUtf8 s) = some s :=
  dif_pos s.isValidUTF8

theorem unifyLineEnds_write (v : Value) :
    unifyLineEnds (Yaml.write v).toList = (Yaml.write v).toList := by
  refine unifyLineEnds_eq fun c hc he => ?_
  have hlegal := Yaml.isLegal_write v c hc
  rw [he] at hlegal
  exact absurd hlegal (by decide)

/-! ### Names of files -/

theorem FilePath.extensionOf_yaml {cs : List Char} (h : cs ≠ []) :
    extensionOf (cs ++ ".yaml".toList) = ".yaml".toList := by
  have hafter : (cs ++ ".yaml".toList).reverse.takeWhile (· ≠ '.') = "lmay".toList := by
    simp
  have hlength : 0 < cs.length := List.length_pos_iff.2 h
  rw [extensionOf, hafter]
  simp
  omega

theorem append_yaml_ne (name : String) : name ++ ".yaml" ≠ ".." := by
  intro he
  have hlength := congrArg String.length he
  rw [String.length_append] at hlength
  exact absurd hlength (Nat.ne_of_gt (Nat.lt_add_left _ (by decide)))

namespace Registry

theorem lowerExtension_fileIn (directory : FilePath) {name : String} (h : name ≠ "") :
    (fileIn directory name).lowerExtension = ".yaml" := by
  rw [FilePath.lowerExtension, FilePath.extension, fileIn, FilePath.name_child,
    String.toList_append, FilePath.extensionOf_yaml (by simpa using h)]
  decide +kernel

variable {r : Registry} {t t' : FileTree} {directory p : FilePath} {d d' : Definition}

/-! ### Saving -/

/-- What is saved is the document of the definition, in the directory that it is saved in. -/
theorem save_ok {name : String} {given : Except (List Schema.Problem) Definition}
    {directory : Option FilePath} (h : r.save t name given directory = (t', .ok p)) :
    isFileName name ∧ p = fileIn (r.target directory) name ∧ ∃ d t₀ document, given = .ok d ∧
      t.makeDirectories (r.target directory) = (t₀, .ok ()) ∧ d.document = .ok document ∧
      Yaml.isWritable document ∧ t₀.write p (encodeUtf8 (Yaml.write document)) = .ok t' := by
  unfold save at h
  split at h
  · cases h
  next hname =>
  split at h
  · cases h
  next d =>
  unfold writeIn at h
  split at h
  · cases h
  next t₀ hmade =>
  split at h
  · cases h
  next document hdocument =>
  split at h
  · cases h
  next hwritable =>
  split at h
  · cases h
  next hwritten =>
  obtain ⟨rfl, hp⟩ := Prod.mk.inj h
  obtain rfl := Except.ok.inj hp
  exact ⟨by simpa using hname, rfl, d, t₀, document, rfl, hmade, hdocument,
    by simpa using hwritable, hwritten⟩

theorem target_none (hdir : r.customDir = some directory) : r.target none = directory := by
  simp [target, hdir]

/-! ### Finding -/

variable [Stack]

/-- A file that holds what is written for the document of a definition holds the definition. -/
theorem loaded_of_file {document : Value} (hformat : formatOf? p.lowerExtension = some yamlFormat)
    (h : t.find? p = .ok (some (.file (encodeUtf8 (Yaml.write document)))))
    (hread : Yaml.read (Yaml.write document).toList = .ok document)
    (hd : Definition.ofDocument document = .ok d) : ¬ Breaks t p ∧ loaded t p = some d := by
  have hload : t.load p = .ok d := by
    rw [load_of_file hformat h, decodeUtf8?_encodeUtf8]
    simp only [unifyLineEnds_write, String.ofList_toList, Definition.ofText, documentOfText, hread,
      if_true, bind, Except.bind, Definition.ofSource, hd, Except.mapError]
  constructor
  · rw [breaks_iff (by simp [hformat]) h, hload]
    rintro ⟨e, he, -⟩
    cases he
  · rw [loaded, if_pos (FileTree.isFile_of_find? h), hload]
    rfl

/-- The workflow of a name is the one that a candidate holds, if no other does and none breaks the
listing. -/
theorem find?_of_loaded (hr : r.Reachable t) (hbuiltIn : ∀ b ∈ Catalog.builtIns, b.name ≠ d.name)
    (hp : p ∈ r.candidates t) (hbreaks : ¬ Breaks t p) (hd : loaded t p = some d)
    (hothers : ∀ q ∈ r.candidates t, q ≠ p → ¬ Breaks t q ∧ ∀ b ∈ loaded t q, b.name ≠ d.name) :
    r.find? t d.name = .ok (some d) := by
  have hnone : Catalog.builtIns.find? (fun b => b.name = d.name) = none := by
    simpa using hbuiltIn
  have hnot : ∀ q ∈ r.candidates t, ¬ Breaks t q := by
    intro q hq
    by_cases he : q = p
    · exact he ▸ hbreaks
    · exact (hothers q hq he).1
  rw [find?, hnone, customs_of_not_breaks hr hnot]
  refine congrArg Except.ok ?_
  have hmem : d ∈ (r.candidates t).filterMap (loaded t) := List.mem_filterMap.2 ⟨p, hp, hd⟩
  cases hfind : ((r.candidates t).filterMap (loaded t)).find? fun b => b.name = d.name with
  | none => exact absurd (by simp) (List.find?_eq_none.1 hfind d hmem)
  | some b =>
    obtain ⟨q, hq, hb⟩ := List.mem_filterMap.1 (List.mem_of_find?_eq_some hfind)
    have hname : b.name = d.name := by simpa using List.find?_some hfind
    by_cases he : q = p
    · rw [he, hd] at hb
      exact hfind.trans hb.symm
    · exact absurd hname ((hothers q hq he).2 b hb)

end Registry

namespace Definition

variable {d : Definition}

/-- Whether the texts of a definition can be read back from its document. -/
def isLegible (d : Definition) : Bool :=
  Yaml.haveLegible 0 (d.fields.map fun e => (.str e.1, e.2))

theorem isPlain_fields (hd : d.Valid) (hform : d.IsForm) (h : d.isLegible) :
    (Value.ofFields d.fields).isPlain := by
  obtain ⟨hkeys, hvalues⟩ := (isForm_fields hd hform).of_fields
  exact Value.isPlain_ofFields (fun e he =>
    Yaml.isPlain_of_isLegible (hvalues e he) (Yaml.isLegible_of_haveLegible h e he)) hkeys

/-- A definition of plain forms whose texts can be read back is made of JSON values. -/
theorem isPlain_of_isLegible (hd : d.Valid) (hform : d.IsForm) (h : d.isLegible) : d.IsPlain := by
  have hplain := isPlain_fields hd hform h
  obtain ⟨hparameters, hdefaults⟩ := hasPart_of_ofDocument (ofDocument_fields hd)
  refine ⟨fun s hs e he => Value.isPlain_of_hasPart hplain (hparameters s hs e he),
    fun t ht e he v hv => Value.isPlain_of_hasPart hplain (hdefaults e ?_ v hv)⟩
  rwa [declared, Option.mem_def.1 ht]

end Definition

namespace Registry

variable [Stack] {r : Registry} {t t' : FileTree} {directory p : FilePath} {d d' : Definition}

/-- What was saved is found in plain form. -/
theorem find?_of_plain (hd : d.Valid) (hplain : d.plain = .ok d') (hlegible : d'.isLegible)
    (hbuiltIn : ∀ b ∈ Catalog.builtIns, b.name ≠ d.name) (hdir : r.customDir = some directory)
    (hsave : r.save t d.name (.ok d) none = (t', .ok p))
    (hothers : ∀ q ∈ r.candidates t', q ≠ p →
      ¬ Breaks t' q ∧ ∀ b ∈ loaded t' q, b.name ≠ d.name) :
    r.find? t' d.name = .ok (some d') := by
  obtain ⟨-, rfl, _, t₀, document, ⟨⟩, hmade, hdocument, hwritable, hwritten⟩ := save_ok hsave
  rw [target_none hdir] at *
  obtain ⟨hform, hshallow⟩ := Definition.isForm_of_plain hplain
  obtain ⟨hname, hvalid⟩ := Definition.valid_of_plain hplain
  have hd' := hvalid hd
  have he : document = .ofFields d'.fields := by
    rw [Definition.document_eq, hplain] at hdocument
    exact (Except.ok.inj hdocument).symm
  subst he
  have hroom := (Definition.levels_fields hshallow).trans
    (Nat.le_trans (Nat.add_le_add_left (by decide) _) Stack.document_le_yaml)
  have hfields := Definition.isPlain_fields hd' hform hlegible
  have hread := Yaml.read_write_fields hfields hwritable
    (by simp [Definition.fields]) hroom hlegible
  have hnonempty : d.name ≠ "" := by
    intro he
    have hmatches := hd.name
    rw [he] at hmatches
    cases hmatches
  have hformat : formatOf? (fileIn directory d.name).lowerExtension = some yamlFormat := by
    rw [lowerExtension_fileIn directory hnonempty]
    rfl
  obtain ⟨place, hl, hplace⟩ := FileTree.makeDirectories_ok hmade
  obtain ⟨hl, hplace, hfile, hmem⟩ := FileTree.child_of_write hl hplace (append_yaml_ne _) hwritten
  have hcandidate : fileIn directory d.name ∈ r.candidates t' :=
    mem_candidates hdir hl hplace hmem (by rw [← fileIn, hformat]; rfl)
  have hof := Definition.ofDocument_fields hd'
  obtain ⟨hbreaks, hloaded⟩ := loaded_of_file hformat hfile hread hof
  have hothers' : ∀ q ∈ r.candidates t', q ≠ fileIn directory d.name →
      ¬ Breaks t' q ∧ ∀ b ∈ loaded t' q, b.name ≠ d'.name := hname ▸ hothers
  rw [← hname] at hbuiltIn ⊢
  exact find?_of_loaded (reachable_of_locate hdir hl) hbuiltIn hcandidate hbreaks hloaded hothers'

/-- **Saving and finding.** A workflow that was read from a document, whose name no built-in one
has, and which was saved in the directory of the registry, is found under its name: with all values
in plain form, so as it was exactly if its values are JSON values. Two things can come between: a
text that is not read back as it is written, and something else in the directory that ends the
listing or has the name. -/
theorem find?_save {v : Value} (hd : Definition.ofDocument v = .ok d)
    (hlegible : ∀ d' : Definition, d.plain = .ok d' → d'.isLegible)
    (hbuiltIn : ∀ b ∈ Catalog.builtIns, b.name ≠ d.name) (hdir : r.customDir = some directory)
    (hsave : r.save t d.name (.ok d) none = (t', .ok p))
    (hothers : ∀ q ∈ r.candidates t', q ≠ p →
      ¬ Breaks t' q ∧ ∀ b ∈ loaded t' q, b.name ≠ d.name) :
    ∃ d', d.plain = .ok d' ∧ r.find? t' d.name = .ok (some d') ∧ (d' = d ↔ d.IsPlain) := by
  obtain ⟨-, -, _, -, document, ⟨⟩, -, hdocument, -⟩ := save_ok hsave
  rw [Definition.document_eq] at hdocument
  obtain ⟨d', hplain, -⟩ := map_eq_ok hdocument
  refine ⟨d', hplain, ?_, ?_, fun h => ?_⟩
  · exact find?_of_plain (Definition.valid_of_ofDocument hd) hplain (hlegible d' hplain) hbuiltIn
      hdir hsave hothers
  · rintro rfl
    exact Definition.isPlain_of_isLegible (Definition.valid_of_ofDocument hd)
      (Definition.isForm_of_plain hplain).1 (hlegible d' hplain)
  · exact ((Definition.plain_iff h.isForm).1 hplain).1

end Registry

namespace Registry

variable {p : FilePath} {d' : Definition}

/-- A workflow whose only step has a parameter with a value. -/
def Sample.memo (v : Value) : Definition :=
  ⟨"memo", "A memo", none, none, [⟨"note", "Note", "write", [("due", v)], none, none, none⟩]⟩

/-- The tree in which such a workflow was saved. -/
def Sample.saved (v : Value) : FileTree :=
  (registry.save .empty "memo" (.ok (memo v)) none).1

/-- The last day of a month. -/
def Sample.due : Value := .scalar (.date ⟨2024, 1, 31⟩)

theorem Sample.eq_of_mem_candidates (hp : p ∈ registry.candidates (saved due)) :
    p = ⟨0, ["w", "memo.yaml"]⟩ := by
  have hl : (saved due).locate ⟨0, ["w"]⟩ = .ok ["w"] := rfl
  obtain ⟨name, rfl, hname⟩ := exists_of_mem_candidates rfl hl hp
  have hkeys : (saved due).nodes.keys = [["w"], ["memo.yaml", "w"]] := rfl
  rw [hkeys] at hname
  obtain rfl : name = "memo.yaml" := by simpa using hname
  rfl

theorem Sample.isLegible_due (h : (memo due).plain = .ok d') : d'.isLegible := by
  have hplain : (memo due).plain = .ok (memo (.scalar (.str "2024-01-31"))) := rfl
  obtain rfl := Except.ok.inj (hplain.symm.trans h)
  rfl

theorem Sample.ofDocument_due :
    Definition.ofDocument (.ofFields (memo due).fields) = .ok (memo due) := rfl

theorem Sample.save_due : registry.save .empty "memo" (.ok (memo due)) none =
    (saved due, .ok ⟨0, ["w", "memo.yaml"]⟩) := rfl

/-- A workflow with a date is found with the text of the date. -/
theorem find?_save_sample :
    Sample.registry.save .empty "memo" (.ok (Sample.memo Sample.due)) none =
      (Sample.saved Sample.due, .ok ⟨0, ["w", "memo.yaml"]⟩) ∧
    Sample.registry.find? (Sample.saved Sample.due) "memo" =
      .ok (some (Sample.memo (.scalar (.str "2024-01-31")))) := by
  obtain ⟨d', hplain, hfind, -⟩ := find?_save Sample.ofDocument_due (fun _ => Sample.isLegible_due)
    (by decide) rfl Sample.save_due fun q hq hne => absurd (Sample.eq_of_mem_candidates hq) hne
  obtain rfl := Except.ok.inj hplain
  exact ⟨Sample.save_due, hfind⟩

/-- Not every workflow is found as it was saved: a date comes back as its text. -/
theorem find?_save_date : ¬ ∀ (r : Registry) (t t' : FileTree) (directory p : FilePath)
    (v : Value) (d : Definition), Definition.ofDocument v = .ok d →
    (∀ b ∈ Catalog.builtIns, b.name ≠ d.name) → r.customDir = some directory →
    r.save t d.name (.ok d) none = (t', .ok p) → (∀ q ∈ r.candidates t', q = p) →
    r.find? t' d.name = .ok (some d) := by
  intro h
  have hplain : (Sample.memo Sample.due).plain =
    .ok (Sample.memo (.scalar (.str "2024-01-31"))) := rfl
  have hvalid := Definition.valid_of_ofDocument Sample.ofDocument_due
  have hfound := find?_of_plain hvalid hplain (Sample.isLegible_due hplain) (by decide) rfl
    Sample.save_due fun q hq hne => absurd (Sample.eq_of_mem_candidates hq) hne
  have hsame := h Sample.registry .empty _ _ _ _ _ Sample.ofDocument_due (by decide) rfl
    Sample.save_due fun q => Sample.eq_of_mem_candidates
  rw [hfound] at hsame
  cases hsame

end Registry
end Runbook
