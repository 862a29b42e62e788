import Runbook.Proofs.Files

/-!
# Growing file trees

In a tree that is well formed everything stands in a directory, under a name that a path can lead
to. Paths lead into directories, so what is put where one leads keeps the tree well formed. Making
directories is a run of such steps (`Grown`).
-/

namespace Runbook

/-! ### Characters of paths -/

/-- What a separator does not hold comes from between the separators. -/
theorem mem_intercalate {α : Type} {a : α} {separator : List α} (h : a ∉ separator)
    (l : List (List α)) : a ∈ separator.intercalate l ↔ ∃ x ∈ l, a ∈ x := by
  induction l with
  | nil => simp
  | cons x r ih =>
    cases r with
    | nil => simp [List.intercalate_singleton]
    | cons y r =>
      rw [List.intercalate_cons_cons, List.append_assoc, List.mem_append, List.mem_append,
        or_iff_right h, ih, List.exists_mem_cons_iff _ x]

/-- A character that stands for nothing in a path stands in one of its names. -/
theorem FilePath.mem_text {p : FilePath} {c : Char} (hslash : c ≠ '/') (hdot : c ≠ '.') :
    c ∈ p.text.toList ↔ ∃ name ∈ p.names, c ∈ name.toList := by
  have hbody : c ∈ (String.ofList (List.replicate p.root '/') ++ "/".intercalate p.names).toList ↔
      ∃ name ∈ p.names, c ∈ name.toList := by
    rw [String.toList_append, String.toList_ofList, String.toList_intercalate, List.mem_append,
      mem_intercalate (by simpa using hslash)]
    simp [hslash]
  unfold text
  simp only
  split
  · next hempty =>
    rw [hempty] at hbody
    rw [← hbody]
    simp [hdot]
  · exact hbody

namespace FileTree

variable {t t' : FileTree} {p q place : Place} {n : FileNode} {d : FilePath}

/-- The bytes of the file at a place. -/
def file? (t : FileTree) (p : Place) : Option (List UInt8) :=
  match t.node? p with
  | some (.file bytes) => some bytes
  | _ => none

/-- Whether a place is one inside of a directory, under a name that things can have. -/
structure IsInside (t : FileTree) (p : Place) : Prop where
  given : p.isGiven = false
  around : ∃ name around, p = name :: around ∧ name ≠ ".." ∧ '\x00' ∉ name.toList ∧
    t.node? around = some .directory

/-- Nothing stands at a place twice, and everything stands in a directory. -/
structure WellFormed (t : FileTree) : Prop where
  distinct : t.Distinct
  inside : ∀ p ∈ t.nodes.keys, t.IsInside p

theorem wellFormed_empty : empty.WellFormed :=
  ⟨distinct_empty, by simp [empty, Table.keys]⟩

/-! ### One step -/

/-- What stood in a directory still does when something is put where no directory is. -/
theorem IsInside.put (hq : t.IsInside q) (hp : t.node? p ≠ some .directory) (n : FileNode) :
    (t.put p n).IsInside q := by
  obtain ⟨hgiven, name, around, rfl, hname, hnull, haround⟩ := hq
  exact ⟨hgiven, name, around, rfl, hname, hnull,
    (node?_put_of_ne (ne_of_node? hp haround)).trans haround⟩

theorem WellFormed.put (h : t.WellFormed) (hp : t.node? p ≠ some .directory) (hin : t.IsInside p)
    (n : FileNode) : (t.put p n).WellFormed := by
  refine ⟨h.distinct.put p n, fun q hq => IsInside.put ?_ hp n⟩
  rw [FileTree.put, Table.keys_set] at hq
  split at hq
  · exact h.inside q hq
  · rcases List.mem_append.1 hq with hq | hq
    · exact h.inside q hq
    · obtain rfl := List.mem_singleton.1 hq
      exact hin

theorem isGiven_up (h : q.isGiven) : q.up.isGiven := by
  unfold Place.up
  split
  · rfl
  · simpa [Place.isGiven] using h
  · rfl
  · next name r hdots hroot =>
    -- a given place starts with two dots or is the root
    rw [Place.isGiven, Bool.or_eq_true, List.all_cons, Bool.and_eq_true, decide_eq_true_eq,
      decide_eq_true_eq] at h
    rcases h with h | h
    · exact absurd h.1 hdots
    · exact (hroot (List.cons.inj h).1 (List.cons.inj h).2).elim

theorem mem_keys_of_node? (h : t.node? p = some n) (hgiven : p.isGiven = false) :
    p ∈ t.nodes.keys := by
  rw [node?, hgiven] at h
  exact List.mem_map.2 ⟨_, Table.mem_of_get? h, rfl⟩

/-- Two dots lead from a directory to a directory. -/
theorem WellFormed.node?_up (h : t.WellFormed) (hq : t.node? q = some .directory) :
    t.node? q.up = some .directory := by
  cases hgiven : q.isGiven with
  | true => exact if_pos (isGiven_up hgiven)
  | false =>
    obtain ⟨-, name, around, rfl, hname, -, haround⟩ := h.inside q (mem_keys_of_node? hq hgiven)
    have hup : Place.up (name :: around) = around := by
      unfold Place.up
      split
      · contradiction
      · next he => exact absurd (List.cons.inj he).1 hname
      · next he =>
        rw [he] at hgiven
        cases hgiven
      · next he => exact (List.cons.inj he).2.symm
    rw [hup]
    exact haround

/-- A way that ends where no directory is ends in a directory. -/
theorem WellFormed.isInside_of_walk (h : t.WellFormed) {names : List String}
    (hq : t.node? q = some .directory) (hw : t.walk q names = .ok p)
    (hnames : ∀ name ∈ names, '\x00' ∉ name.toList) (hp : t.node? p ≠ some .directory) :
    t.IsInside p := by
  induction names generalizing q with
  | nil =>
    obtain rfl := Except.ok.inj hw
    exact absurd hq hp
  | cons name r ih =>
    obtain ⟨hname, hr⟩ := List.forall_mem_cons.1 hnames
    rw [walk, hq] at hw
    simp only at hw
    split at hw
    · cases hw
    by_cases hup : name = ".."
    · rw [if_pos hup] at hw
      exact ih (h.node?_up hq) hw hr
    · rw [if_neg hup] at hw
      by_cases hnext : t.node? (name :: q) = some .directory
      · exact ih hnext hw hr
      · -- what is no directory ends the way
        cases r with
        | nil =>
          obtain rfl := Except.ok.inj hw
          exact ⟨isGiven_of_node? hp, name, q, rfl, hup, hname, hq⟩
        | cons name' r' =>
          rw [walk] at hw
          split at hw
          · cases hw
          · cases hw
          · next hdirectory => exact absurd hdirectory hnext

theorem WellFormed.isInside_of_locate (h : t.WellFormed) (hl : t.locate d = .ok p)
    (hp : t.node? p ≠ some .directory) : t.IsInside p := by
  unfold locate at hl
  split at hl
  · cases hl
  next hnull =>
  split at hl
  · cases hl
  refine h.isInside_of_walk ?_ hl (fun name hname hmem => hnull (List.contains_iff_mem.2 ?_)) hp
  · split <;> rfl
  · exact (FilePath.mem_text (by decide) (by decide)).2 ⟨name, hname, hmem⟩

theorem file?_put_of_ne (h : q ≠ p) : (t.put p n).file? q = t.file? q := by
  rw [file?, file?, node?_put_of_ne h]

theorem file?_put_self {bytes : List UInt8} (h : t.node? p ≠ some .directory) :
    (t.put p (.file bytes)).file? p = some bytes := by
  rw [file?, node?_put_self (isGiven_of_node? h)]

/-- What is inside a directory stands at the place of its name. -/
theorem WellFormed.of_mem_children (h : t.WellFormed) {e : String × FileNode}
    (he : e ∈ t.children q) :
    e.1 ≠ ".." ∧ '\x00' ∉ e.1.toList ∧ t.node? q = some .directory ∧
      t.node? (e.1 :: q) = some e.2 := by
  have hmem := mem_entriesIn.1 (mem_children.1 he)
  obtain ⟨hgiven, name, around, hp, hname, hnull, haround⟩ :=
    h.inside _ (List.mem_map.2 ⟨_, hmem, rfl⟩)
  obtain ⟨rfl, rfl⟩ := List.cons.inj hp
  refine ⟨hname, hnull, haround, ?_⟩
  rw [node?, hgiven]
  exact (Table.get?_eq_some_iff h.distinct).2 hmem

/-- What is inside a directory is found there, if its path and its name are short enough. -/
theorem WellFormed.find?_child (h : t.WellFormed) (hl : t.locate d = .ok q)
    {e : String × FileNode} (he : e ∈ t.children q)
    (hlong : t.find? (d.child e.1) ≠ .error .nameTooLong) :
    t.find? (d.child e.1) = .ok (some e.2) := by
  obtain ⟨hname, hnull, hq, hnode⟩ := h.of_mem_children he
  have hnull' : ¬ (d.child e.1).text.toList.contains '\x00' := by
    intro hmem
    obtain ⟨name, hin, hmem⟩ :=
      (FilePath.mem_text (by decide) (by decide)).1 (List.contains_iff_mem.1 hmem)
    rcases List.mem_append.1 hin with hin | hin
    · -- the path of the directory has no null character
      unfold locate at hl
      split at hl
      · cases hl
      next hnone =>
      refine hnone (List.contains_iff_mem.2 ?_)
      exact (FilePath.mem_text (by decide) (by decide)).2 ⟨name, hin, hmem⟩
    · obtain rfl := List.mem_singleton.1 hin
      exact hnull hmem
  rw [find?, locate_child hl, if_neg hnull', walk_singleton, hq] at hlong ⊢
  simp only [if_neg hname] at hlong ⊢
  split
  · next hpath => exact absurd (by rw [if_pos hpath]; rfl) hlong
  next hpath =>
  rw [if_neg hpath] at hlong
  split
  · next hlimit => exact absurd (by rw [if_pos hlimit]; rfl) hlong
  · exact congrArg Except.ok hnode

/-! ### Runs of steps -/

/-- A tree to which directories were added, one after another, each in a directory. -/
inductive Grown (t : FileTree) : FileTree → Prop
  | refl : Grown t t
  | make {t' : FileTree} {p : Place} (h : Grown t t') (hnew : t'.node? p = none)
      (hin : t'.IsInside p) : Grown t (t'.put p .directory)

namespace Grown

theorem trans {t'' : FileTree} (h : Grown t t') (h' : Grown t' t'') : Grown t t'' := by
  induction h' with
  | refl => exact h
  | make _ hnew hin ih => exact ih.make hnew hin

theorem wellFormed (h : Grown t t') (ht : t.WellFormed) : t'.WellFormed := by
  induction h with
  | refl => exact ht
  | make _ hnew hin ih => exact ih.put (by simp [hnew]) hin .directory

end Grown

theorem WellFormed.grown_of_makeDirectory (h : t.WellFormed)
    (hmade : t.makeDirectory d = .ok t') : Grown t t' := by
  unfold makeDirectory at hmade
  cases hl : t.locate d with
  | error e =>
    rw [hl] at hmade
    cases hmade
  | ok p =>
    simp only [hl, bind, Except.bind] at hmade
    split at hmade
    · cases hmade
    · next hnew =>
      have hnew : t.node? p = none := by simpa using hnew
      obtain rfl := Except.ok.inj hmade
      exact Grown.refl.make hnew (h.isInside_of_locate hl (by simp [hnew]))

theorem WellFormed.grown_of_ensureDirectory (h : t.WellFormed)
    (hmade : t.ensureDirectory d = .ok t') : Grown t t' := by
  unfold ensureDirectory at hmade
  split at hmade
  · next hok =>
    obtain rfl := Except.ok.inj hmade
    exact h.grown_of_makeDirectory hok
  · split at hmade
    · obtain rfl := Except.ok.inj hmade
      exact .refl
    · cases hmade

/-- Making a directory and those around it only adds directories, also when it fails on the way. -/
theorem WellFormed.grown_makeNames (h : t.WellFormed) (root : Nat) (names : List String) :
    Grown t (t.makeNames root names).1 := by
  induction names generalizing t with
  | nil =>
    rw [makeNames]
    split
    · next hmade => exact h.grown_of_ensureDirectory hmade
    · exact .refl
  | cons name around ih =>
    rw [makeNames]
    split
    · next hmade => exact h.grown_of_ensureDirectory hmade
    · have haround := ih h
      split
      · next t₁ hmade =>
        rw [hmade] at haround
        split
        · next hmade' =>
          exact haround.trans ((haround.wellFormed h).grown_of_ensureDirectory hmade')
        · exact haround
      · exact haround
    · exact .refl

theorem WellFormed.grown_makeDirectories (h : t.WellFormed) (d : FilePath) :
    Grown t (t.makeDirectories d).1 :=
  h.grown_makeNames _ _

end FileTree
end Runbook
