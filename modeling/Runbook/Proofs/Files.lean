import Runbook.Files.Tree
import Mathlib.Data.List.Nodup

/-!
# What file operations leave alone

Something new at a place where nothing was changes neither what stands elsewhere nor where a path
leads that led somewhere before. In the directory around it, the new name comes to its place in the
order and the others keep theirs.
-/

namespace Runbook

namespace FileTree

/-- Whether nothing stands at a place twice. -/
def Distinct (t : FileTree) : Prop := t.nodes.keys.Nodup

theorem distinct_empty : empty.Distinct := List.nodup_nil

theorem Distinct.put {t : FileTree} (h : t.Distinct) (p : Place) (n : FileNode) :
    (t.put p n).Distinct :=
  Table.nodup_keys_set h p n

variable {t : FileTree} {p q place : Place} {n : FileNode}

/-! ### What stands at a place -/

theorem node?_put_self (h : p.isGiven = false) : (t.put p n).node? p = some n := by
  rw [node?, h]
  exact Table.get?_set_self ..

theorem node?_put_of_ne (h : q ≠ p) : (t.put p n).node? q = t.node? q := by
  unfold node?
  split
  · rfl
  · exact Table.get?_set_of_ne _ _ (Ne.symm h)

theorem isGiven_of_node? (h : t.node? p ≠ some .directory) : p.isGiven = false := by
  rw [← Bool.not_eq_true]
  exact fun hp => h (if_pos hp)

theorem ne_of_node? (h : t.node? p ≠ some .directory) (hq : t.node? q = some .directory) :
    q ≠ p := by
  rintro rfl
  exact h hq

/-! ### Where a path leads -/

theorem walk_append (a b : List String) :
    t.walk p (a ++ b) = (t.walk p a).bind fun q => t.walk q b := by
  induction a generalizing p with
  | nil => rfl
  | cons name r ih =>
    rw [List.cons_append, walk, walk]
    split <;> try rfl
    split
    · rfl
    · exact ih

/-- What is put where no directory is is not on a way that leads somewhere. -/
theorem walk_put {names : List String} (h : t.node? p ≠ some .directory)
    (hw : t.walk q names = .ok place) : (t.put p n).walk q names = .ok place := by
  induction names generalizing q with
  | nil => exact hw
  | cons name r ih =>
    rw [walk] at hw ⊢
    cases hq : t.node? q with
    | none => simp [hq] at hw
    | some m =>
      rw [hq] at hw
      cases m with
      | file bytes => simp at hw
      | directory =>
        rw [node?_put_of_ne (ne_of_node? h hq), hq]
        simp only at hw ⊢
        split at hw
        · simp at hw
        · next hsize => rw [if_neg hsize]; exact ih hw

theorem locate_put {d : FilePath} (h : t.node? p ≠ some .directory)
    (hl : t.locate d = .ok place) : (t.put p n).locate d = .ok place := by
  unfold locate at hl ⊢
  split at hl
  · cases hl
  split at hl
  · cases hl
  next hnull hlong =>
    rw [if_neg hnull, if_neg hlong]
    exact walk_put h hl

/-- The way to what is inside a directory is the way to the directory and one name. -/
theorem locate_child {d : FilePath} (hl : t.locate d = .ok place) (name : String) :
    t.locate (d.child name) =
      if (d.child name).text.toList.contains '\x00' then .error .nullCharacter
      else if pathLimit ≤ (d.child name).text.utf8ByteSize then .error .nameTooLong
      else t.walk place [name] := by
  have hw : t.walk (if d.root = 0 then [] else ["/"]) d.names = .ok place := by
    unfold locate at hl
    split at hl
    · cases hl
    split at hl
    · cases hl
    exact hl
  rw [locate]
  congr 2
  change t.walk _ (d.names ++ [name]) = _
  rw [walk_append]
  exact congrArg (fun x => Except.bind x fun q => t.walk q [name]) hw

theorem walk_singleton (name : String) :
    t.walk place [name] = match t.node? place with
      | none => .error .missing
      | some (.file _) => .error .notDirectory
      | some .directory =>
        if nameLimit < name.utf8ByteSize then .error .nameTooLong
        else .ok (if name = ".." then place.up else name :: place) := by
  unfold walk
  cases t.node? place with
  | none => rfl
  | some m => cases m <;> rfl

/-- What is inside a directory is at the place of its name. -/
theorem eq_of_locate_child {d : FilePath} {name : String} (hl : t.locate d = .ok place)
    (hname : name ≠ "..") (h : t.locate (d.child name) = .ok p) : p = name :: place := by
  rw [locate_child hl, walk_singleton, if_neg hname] at h
  split at h
  · cases h
  split at h
  · cases h
  split at h
  · cases h
  · cases h
  split at h
  · cases h
  · exact (Except.ok.inj h).symm

/-- The place around a place is not inside of it. -/
theorem up_ne_cons {name : String} (h : name ≠ "..") : Place.up place ≠ name :: place := by
  unfold Place.up
  split
  · simpa using Ne.symm h
  · simpa using fun hname => absurd hname.symm h
  · simp
  · next r _ _ =>
    intro he
    have := congrArg List.length he
    simp at this
    omega

/-- Something new in a directory changes nothing about the rest of it. -/
theorem find?_child_put {d : FilePath} {name other : String} (h : t.node? (name :: place) = none)
    (hname : name ≠ "..") (hother : other ≠ name) (hl : t.locate d = .ok place) :
    (t.put (name :: place) n).find? (d.child other) = t.find? (d.child other) := by
  have hplace : place ≠ name :: place := fun he => by simpa using congrArg List.length he
  have hnode : ∀ q, q = (if other = ".." then place.up else other :: place) →
      (t.put (name :: place) n).node? q = t.node? q := by
    rintro q rfl
    refine node?_put_of_ne ?_
    split
    · exact up_ne_cons hname
    · simpa using hother
  rw [find?, find?, locate_child hl, locate_child (locate_put (by simp [h]) hl)]
  split
  · rfl
  split
  · rfl
  rw [walk_singleton, walk_singleton, node?_put_of_ne hplace]
  cases t.node? place with
  | none => rfl
  | some m =>
    cases m with
    | file bytes => rfl
    | directory =>
      simp only
      split
      · rfl
      · exact congrArg Except.ok (hnode _ rfl)

/-! ### Making directories and writing files -/

theorem ensureDirectory_ok {t' : FileTree} {d : FilePath} (h : t.ensureDirectory d = .ok t') :
    ∃ place, t'.locate d = .ok place ∧ t'.node? place = some .directory := by
  unfold ensureDirectory makeDirectory at h
  cases hl : t.locate d with
  | error e => simp [hl, find?, bind, Except.bind, Except.map, Except.toOption] at h
  | ok place =>
    simp only [hl, find?, bind, Except.bind, Except.map, Except.toOption] at h
    by_cases hd : t.node? place = some .directory
    · have he : t = t' := by simpa [hd, throw, throwThe, MonadExceptOf.throw] using h
      exact ⟨place, he ▸ hl, he ▸ hd⟩
    · cases hn : t.node? place with
      | some m => simp_all
      | none =>
        have he : t.put place .directory = t' := by simpa [hn, pure, Except.pure] using h
        subst he
        exact ⟨place, locate_put hd hl, node?_put_self (isGiven_of_node? hd)⟩

theorem makeNames_ok {t' : FileTree} {root : Nat} {names : List String}
    (h : t.makeNames root names = (t', .ok ())) :
    ∃ t₀ : FileTree, t₀.ensureDirectory ⟨root, names.reverse⟩ = .ok t' := by
  cases names with
  | nil =>
    rw [makeNames] at h
    split at h
    · next hmade => exact ⟨t, hmade.trans (congrArg Except.ok (Prod.mk.inj h).1)⟩
    · cases h
  | cons name around =>
    rw [makeNames] at h
    split at h
    · next hmade => exact ⟨t, hmade.trans (congrArg Except.ok (Prod.mk.inj h).1)⟩
    · split at h
      · next t₀ _ =>
        split at h
        · next hmade => exact ⟨t₀, hmade.trans (congrArg Except.ok (Prod.mk.inj h).1)⟩
        · cases h
      · next hfailed => exact absurd h fun h => hfailed _ h
    · cases h

/-- A directory that was made is there. -/
theorem makeDirectories_ok {t' : FileTree} {d : FilePath}
    (h : t.makeDirectories d = (t', .ok ())) :
    ∃ place, t'.locate d = .ok place ∧ t'.node? place = some .directory := by
  obtain ⟨t₀, hmade⟩ := makeNames_ok h
  rw [List.reverse_reverse] at hmade
  exact ensureDirectory_ok hmade

/-- What was written stands at its place. -/
theorem write_ok {t' : FileTree} {d : FilePath} {bytes : List UInt8}
    (h : t.write d bytes = .ok t') : ∃ place, t.locate d = .ok place ∧
      t.node? place ≠ some .directory ∧ t' = t.put place (.file bytes) := by
  unfold write at h
  cases hl : t.locate d with
  | error e => simp [hl, bind, Except.bind] at h
  | ok place =>
    simp only [hl, bind, Except.bind] at h
    split at h
    · cases h
    · next hd => exact ⟨place, rfl, hd, (Except.ok.inj h).symm⟩

/-- Whether a file can be written does not depend on what is written. -/
theorem write_error {d : FilePath} {bytes : List UInt8} {e : FileError}
    (h : t.write d bytes = .error e) (other : List UInt8) : t.write d other = .error e := by
  unfold write at h ⊢
  cases hl : t.locate d with
  | error e' =>
    rw [hl] at h
    exact h
  | ok place =>
    simp only [hl, bind, Except.bind] at h ⊢
    split at h
    · next hd => rwa [if_pos hd]
    · cases h

/-- What was written in a directory is inside of it. -/
theorem child_of_write {t' : FileTree} {d : FilePath} {name : String} {bytes : List UInt8}
    (hl : t.locate d = .ok place) (hd : t.node? place = some .directory) (hname : name ≠ "..")
    (h : t.write (d.child name) bytes = .ok t') :
    t'.locate d = .ok place ∧ t'.node? place = some .directory ∧
      t'.find? (d.child name) = .ok (some (.file bytes)) ∧
      (name :: place, .file bytes) ∈ t'.nodes := by
  obtain ⟨q, hq, hfree, rfl⟩ := write_ok h
  obtain rfl := eq_of_locate_child hl hname hq
  have hnode := node?_put_self (t := t) (n := .file bytes) (isGiven_of_node? hfree)
  refine ⟨locate_put hfree hl, ?_, ?_, ?_⟩
  · rw [node?_put_of_ne fun he => by simpa using congrArg List.length he]
    exact hd
  · rw [find?, locate_put hfree hq]
    exact congrArg Except.ok hnode
  · exact Table.mem_of_get? (Table.get?_set_self ..)

/-! ### What is inside a directory -/

/-- The entries for what is directly inside a directory, in the order in which they came. -/
def entriesIn (t : FileTree) (directory : Place) : List (String × FileNode) :=
  t.nodes.filterMap fun (p, n) => match p with
    | name :: around => if around = directory then some (name, n) else none
    | [] => none

theorem children_eq (t : FileTree) (directory : Place) :
    t.children directory = (t.entriesIn directory).mergeSort fun a b => a.1 ≤ b.1 := rfl

theorem mem_entriesIn {directory : Place} {e : String × FileNode} :
    e ∈ t.entriesIn directory ↔ (e.1 :: directory, e.2) ∈ t.nodes := by
  obtain ⟨name, n⟩ := e
  refine List.mem_filterMap.trans ⟨?_, fun h => ⟨_, h, by simp⟩⟩
  rintro ⟨⟨p, m⟩, hp, he⟩
  cases p with
  | nil => simp at he
  | cons name' around =>
    simp only [Option.ite_none_right_eq_some, Option.some.injEq, Prod.mk.injEq] at he
    obtain ⟨rfl, rfl, rfl⟩ := he
    exact hp

theorem ne_of_mem_entriesIn {name : String} (h : t.node? (name :: place) = none)
    {e : String × FileNode} (he : e ∈ t.entriesIn place) : e.1 ≠ name := by
  rintro rfl
  have hkey : e.1 :: place ∈ t.nodes.keys := List.mem_map.2 ⟨_, mem_entriesIn.1 he, rfl⟩
  have hfree : t.node? (e.1 :: place) ≠ some .directory := by simp [h]
  rw [node?, isGiven_of_node? hfree] at h
  exact Table.get?_eq_none_iff.1 h hkey

/-- What is directly inside a directory goes by its name. -/
theorem Distinct.eq_of_mem_entriesIn (h : t.Distinct) {directory : Place}
    {a b : String × FileNode} (ha : a ∈ t.entriesIn directory) (hb : b ∈ t.entriesIn directory)
    (hab : a.1 = b.1) : a = b := by
  have hkey := List.inj_on_of_nodup_map h (mem_entriesIn.1 ha) (mem_entriesIn.1 hb) (by simp [hab])
  exact Prod.ext hab (Prod.mk.inj hkey).2

theorem pairwise_children (t : FileTree) (directory : Place) :
    (t.children directory).Pairwise fun a b => a.1 ≤ b.1 := by
  have htrans : ∀ a b c : String × FileNode, decide (a.1 ≤ b.1) = true →
      decide (b.1 ≤ c.1) = true → decide (a.1 ≤ c.1) = true := by
    intro a b c hab hbc
    simp only [decide_eq_true_eq] at *
    exact String.le_trans hab hbc
  have htotal : ∀ a b : String × FileNode,
      (decide (a.1 ≤ b.1) || decide (b.1 ≤ a.1)) = true := by
    intro a b
    simpa using String.le_total a.1 b.1
  rw [children_eq]
  exact (List.pairwise_mergeSort htrans htotal _).imp of_decide_eq_true

theorem mem_children {directory : Place} {e : String × FileNode} :
    e ∈ t.children directory ↔ e ∈ t.entriesIn directory :=
  (List.mergeSort_perm _ _).mem_iff

/-- What is inside a directory, but for a place, is what is inside of it when the place is empty. -/
theorem entriesIn_filter (t : FileTree) (p q : Place) :
    (t.entriesIn q).filter (fun e => e.1 :: q ≠ p) =
      entriesIn ⟨t.nodes.filter fun e => e.1 ≠ p⟩ q := by
  rw [entriesIn, entriesIn, List.filter_filterMap, List.filterMap_filter]
  refine List.filterMap_congr fun e _ => ?_
  obtain ⟨_ | ⟨name, around⟩, m⟩ := e
  · simp
  · by_cases haround : around = q
    · subst haround
      by_cases hp : name :: around = p <;> simp [hp, Option.filter]
    · simp [haround]

theorem entriesIn_put_filter :
    ((t.put p n).entriesIn q).filter (fun e => e.1 :: q ≠ p) =
      (t.entriesIn q).filter fun e => e.1 :: q ≠ p := by
  rw [entriesIn_filter, entriesIn_filter, put, Table.filter_set fun k => decide (k ≠ p)]
  simp

/-- Apart from the place where something was put, what is inside of any directory stands there in
the same order. -/
theorem children_put_filter (h : t.Distinct) (p q : Place) (n : FileNode) :
    ((t.put p n).children q).filter (fun e => e.1 :: q ≠ p) =
      (t.children q).filter fun e => e.1 :: q ≠ p := by
  have hsort : ∀ u : FileTree, ((u.children q).filter fun e => e.1 :: q ≠ p).Perm
      ((u.entriesIn q).filter fun e => e.1 :: q ≠ p) := by
    intro u
    rw [children_eq]
    exact (List.mergeSort_perm _ _).filter _
  have hperm : (((t.put p n).children q).filter fun e => e.1 :: q ≠ p).Perm
      ((t.children q).filter fun e => e.1 :: q ≠ p) := by
    have hnew := hsort (t.put p n)
    rw [entriesIn_put_filter] at hnew
    exact hnew.trans (hsort t).symm
  refine hperm.eq_of_pairwise ?_ ((pairwise_children _ _).filter _)
    ((pairwise_children _ _).filter _)
  intro a b ha hb hab hba
  have hin : ∀ e, e ∈ (t.children q).filter (fun e => e.1 :: q ≠ p) → e ∈ t.entriesIn q :=
    fun e he => mem_children.1 (List.mem_filter.1 he).1
  exact h.eq_of_mem_entriesIn (hin a (hperm.mem_iff.1 ha)) (hin b hb) (String.le_antisymm hab hba)

/-- Without the name of something new the order of the others is the same. -/
theorem children_put {name : String} (hdistinct : t.Distinct) (h : t.node? (name :: place) = none) :
    ((t.put (name :: place) n).children place).filter (·.1 ≠ name) = t.children place := by
  have hfilter := children_put_filter hdistinct (name :: place) place n
  simp only [ne_eq, List.cons.injEq, and_true] at hfilter
  refine hfilter.trans (List.filter_eq_self.2 fun e he => decide_eq_true ?_)
  exact ne_of_mem_entriesIn h (mem_children.1 he)

end FileTree
end Runbook
