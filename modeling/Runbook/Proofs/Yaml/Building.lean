import Mathlib.Logic.Relation
import Runbook.Proofs.Yaml.Fault
import Runbook.Proofs.Yaml.Rejection

/-!
# Faults of graphs

While values are built the graph changes: mappings take over entries, and keys become texts. But no
node leads to another one then that it did not lead to before, in one step or in several. So what
goes wrong can be found in the graph of the document.

* `Graph.Evolves`: how a graph can change;
* `Graph.Offends`: where a graph has no value for another reason than being malformed;
* `read_eq_error`: where the faults of a text come from.
-/

namespace Runbook
namespace Yaml

namespace Graph

open Relation (ReflTransGen TransGen)

variable {g g' g'' : Graph} {i j : Nat} {e : Error} {text : Text}

/-! ### Ways through a graph -/

/-- The nodes that a mapping leads to: a mapping that it takes over entries of, or each item of a
sequence of those, and its text. -/
inductive Step (g : Graph) (i : Nat) : Nat → Prop
  | merge {entry : Nat × Nat} (h : entry ∈ g.entries i) (hkey : g.tag entry.1 = .merge) :
    Step g i entry.2
  | item {entry : Nat × Nat} {tag : Tag} {items : List Nat} {j : Nat} (h : entry ∈ g.entries i)
    (hkey : g.tag entry.1 = .merge) (hcell : g.cell entry.2 = .sequence tag items)
    (hj : j ∈ items) : Step g i j
  | text {entry : Nat × Nat} (h : entry ∈ g.entries i) (hkey : g.tag entry.1 = .value) :
    Step g i entry.2

/-- Whether so many steps can be made from a node on. -/
def Leads (g : Graph) : Nat → Nat → Prop
  | 0, _ => True
  | n + 1, i => ∃ j, g.Step i j ∧ g.Leads n j

/-- The texts that can stand for a node: that of a scalar, and those under the keys of a mapping for
them. -/
inductive OwnText (g : Graph) : Nat → Text → Prop
  | scalar {i : Nat} {tag : Tag} {text : Text} (h : g.cell i = .scalar tag text) :
    OwnText g i text
  | mapping {i : Nat} {entry : Nat × Nat} {text : Text} (h : entry ∈ g.entries i)
    (hkey : g.tag entry.1 = .value) (htext : OwnText g entry.2 text) : OwnText g i text

/-- Whether a graph has no value for another reason than being malformed: a tag rejects the text of
its node, a mapping whose text is a date, or more steps can be made than there is room for. -/
inductive Offends [Stack] (g : Graph) : Error → Prop
  | text {i : Nat} {text : Text} {e : Error} (htext : g.OwnText i text)
    (h : (g.tag i).Rejects text.string e) : Offends g e
  | nested {i : Nat} {text : Text} (hmapping : (g.cell i).isMapping) (htag : g.tag i = .timestamp)
    (htext : g.OwnText i text) : Offends g .nestedTimestamp
  | chain {i : Nat} (h : g.Leads (Stack.chain + 1) i) : Offends g .tooDeep

theorem Leads.pred {n : Nat} (h : g.Leads (n + 1) i) : g.Leads n i := by
  induction n generalizing i with
  | zero => trivial
  | succ n ih =>
    obtain ⟨j, hstep, hj⟩ := h
    exact ⟨j, hstep, ih hj⟩

/-- Steps before others only make the way longer. -/
theorem Leads.of_reaches {n : Nat} (hreach : ReflTransGen g.Step i j) (h : g.Leads n j) :
    g.Leads n i := by
  induction hreach using ReflTransGen.head_induction_on with
  | refl => exact h
  | head hstep _ ih => exact Leads.pred ⟨_, hstep, ih⟩

theorem Leads.of_steps {n : Nat} (hsteps : TransGen g.Step i j) (h : g.Leads n j) :
    g.Leads (n + 1) i := by
  obtain ⟨k, hstep, hreach⟩ := TransGen.head'_iff.1 hsteps
  exact ⟨k, hstep, h.of_reaches hreach⟩

/-! ### Changes -/

/-- Whether two nodes differ in their tags at most, or in their entries. -/
inductive Like : Cell → Cell → Prop
  | scalar (tag tag' : Tag) (text : Text) : Like (.scalar tag text) (.scalar tag' text)
  | sequence (tag tag' : Tag) (items : List Nat) : Like (.sequence tag items) (.sequence tag' items)
  | mapping (tag tag' : Tag) (entries entries' : List (Nat × Nat)) :
    Like (.mapping tag entries) (.mapping tag' entries')

theorem Like.refl (c : Cell) : Like c c := by
  cases c <;> constructor

theorem Like.trans {a b c : Cell} (hab : Like a b) (hbc : Like b c) : Like a c := by
  cases hab <;> cases hbc <;> constructor

theorem Like.isMapping {a b : Cell} (h : Like a b) : a.isMapping = b.isMapping := by
  cases h <;> rfl

/-- How a graph can change: keys for the text of a mapping become texts, and the entries that a
mapping takes over are those of one that it leads to. None of these is under a key for its text. -/
structure Evolves (g g' : Graph) : Prop where
  like : ∀ i, Like (g.cell i) (g'.cell i)
  tag : ∀ i, g'.tag i = g.tag i ∨ g.tag i = .value ∧ g'.tag i = .str
  own : ∀ i, ∀ entry ∈ g'.entries i, g'.tag entry.1 = .value → entry ∈ g.entries i
  taken : ∀ i, ∀ entry ∈ g'.entries i, g'.tag entry.1 = .merge →
    ∃ j, ReflTransGen g.Step i j ∧ entry ∈ g.entries j

namespace Evolves

theorem refl (g : Graph) : Evolves g g where
  like i := .refl (g.cell i)
  tag _ := .inl rfl
  own _ _ h _ := h
  taken i _ h _ := ⟨i, .refl, h⟩

theorem tag_eq (h : Evolves g g') {tag : Tag} (hi : g'.tag i = tag) (hne : tag ≠ .str) :
    g.tag i = tag := by
  obtain he | ⟨-, he⟩ := h.tag i
  · rw [← he, hi]
  · exact absurd (hi.symm.trans he) hne

/-- No key begins to stand for a text. -/
theorem tag_ne (h : Evolves g g') (hi : g.tag i ≠ .value) : g'.tag i ≠ .value :=
  fun he => hi (h.tag_eq he nofun)

theorem cell_sequence (h : Evolves g g') {tag : Tag} {items : List Nat}
    (hi : g'.cell i = .sequence tag items) : ∃ tag, g.cell i = .sequence tag items := by
  have hlike := h.like i
  rw [hi] at hlike
  generalize g.cell i = c at hlike
  cases hlike with
  | sequence tag _ _ => exact ⟨tag, rfl⟩

/-- What a node leads to it also led to before, maybe in several steps. -/
theorem step (h : Evolves g g') (hstep : g'.Step i j) : TransGen g.Step i j := by
  cases hstep with
  | merge hentry hkey =>
    obtain ⟨k, hreach, hentry⟩ := h.taken i _ hentry hkey
    exact .tail' hreach (.merge hentry (h.tag_eq hkey nofun))
  | item hentry hkey hcell hj =>
    obtain ⟨k, hreach, hentry⟩ := h.taken i _ hentry hkey
    obtain ⟨tag, hcell⟩ := h.cell_sequence hcell
    exact .tail' hreach (.item hentry (h.tag_eq hkey nofun) hcell hj)
  | text hentry hkey =>
    exact .single (.text (h.own i _ hentry hkey) (h.tag_eq hkey nofun))

theorem reaches (h : Evolves g g') (hreach : ReflTransGen g'.Step i j) :
    ReflTransGen g.Step i j := by
  induction hreach with
  | refl => exact .refl
  | tail _ hstep ih => exact ih.trans (h.step hstep).to_reflTransGen

theorem trans (h : Evolves g g') (h' : Evolves g' g'') : Evolves g g'' where
  like i := (h.like i).trans (h'.like i)
  tag i := by
    obtain he | ⟨he, he'⟩ := h'.tag i
    · rw [he]
      exact h.tag i
    · exact .inr ⟨h.tag_eq he nofun, he'⟩
  own i entry hentry hkey := h.own i entry (h'.own i entry hentry hkey) (h'.tag_eq hkey nofun)
  taken i entry hentry hkey := by
    obtain ⟨j, hj, hentry⟩ := h'.taken i entry hentry hkey
    obtain ⟨k, hk, hentry⟩ := h.taken j entry hentry (h'.tag_eq hkey nofun)
    exact ⟨k, (h.reaches hj).trans hk, hentry⟩

theorem leads (h : Evolves g g') {n : Nat} (hlead : g'.Leads n i) : g.Leads n i := by
  induction n generalizing i with
  | zero => trivial
  | succ n ih =>
    obtain ⟨j, hstep, hj⟩ := hlead
    exact (ih hj).of_steps (h.step hstep)

theorem ownText (h : Evolves g g') (htext : g'.OwnText i text) : g.OwnText i text := by
  induction htext with
  | @scalar i tag text hi =>
    have hlike := h.like i
    rw [hi] at hlike
    generalize hc : g.cell i = c at hlike
    cases hlike with
    | scalar tag _ _ => exact .scalar hc
  | mapping hentry hkey _ ih =>
    exact .mapping (h.own _ _ hentry hkey) (h.tag_eq hkey nofun) ih

/-- What goes wrong in a changed graph was wrong before. -/
theorem offends [Stack] (h : Evolves g g') (ho : g'.Offends e) : g.Offends e := by
  cases ho with
  | text htext hreject =>
    refine .text (h.ownText htext) ?_
    rw [h.tag_eq rfl (by rintro he; rw [he] at hreject; cases hreject)]
    exact hreject
  | nested hmapping htag htext =>
    exact .nested (by rwa [(h.like _).isMapping]) (h.tag_eq htag nofun) (h.ownText htext)
  | chain hlead => exact .chain (h.leads hlead)

end Evolves

/-! ### Changing a node -/

theorem cell_set (g : Graph) (i k : Nat) (c : Cell) :
    Graph.cell (g.set i c) k = if i = k ∧ i < g.length then c else g.cell k := by
  simp only [cell, List.getD_eq_getElem?_getD, List.getElem?_set]
  split_ifs <;> grind

theorem tag_setEntries (g : Graph) (i k : Nat) (entries : List (Nat × Nat)) :
    (g.setEntries i entries).tag k = g.tag k := by
  rw [setEntries, tag, cell_set]
  split
  · next h => rw [← h.1]; rfl
  · rfl

theorem entries_setEntries {entries : List (Nat × Nat)} {k : Nat} {entry : Nat × Nat}
    (h : entry ∈ (g.setEntries i entries).entries k) :
    k = i ∧ entry ∈ entries ∨ entry ∈ g.entries k := by
  rw [setEntries, Graph.entries, cell_set] at h
  split at h
  · next hi => exact .inl ⟨hi.1.symm, h⟩
  · exact .inr h

/-- A mapping may have other entries that it had already, or took over. -/
theorem Evolves.setEntries (h : Evolves g g') (hmapping : (g.cell i).isMapping)
    {entries : List (Nat × Nat)}
    (hown : ∀ entry ∈ entries, g'.tag entry.1 = .value → entry ∈ g.entries i)
    (htaken : ∀ entry ∈ entries, g'.tag entry.1 = .merge →
      ∃ j, ReflTransGen g.Step i j ∧ entry ∈ g.entries j) :
    Evolves g (g'.setEntries i entries) where
  like k := by
    have hlike := h.like k
    rw [Graph.setEntries, cell_set]
    split
    · next hk =>
      obtain ⟨rfl, -⟩ := hk
      cases hc : g.cell i with
      | mapping _ _ => constructor
      | _ =>
        rw [hc] at hmapping
        cases hmapping
    · exact hlike
  tag k := by
    rw [tag_setEntries]
    exact h.tag k
  own k entry hentry hkey := by
    rw [tag_setEntries] at hkey
    obtain ⟨rfl, hmem⟩ | hmem := entries_setEntries hentry
    · exact hown entry hmem hkey
    · exact h.own k entry hmem hkey
  taken k entry hentry hkey := by
    rw [tag_setEntries] at hkey
    obtain ⟨rfl, hmem⟩ | hmem := entries_setEntries hentry
    · exact htaken entry hmem hkey
    · exact h.taken k entry hmem hkey

/-- A settled key stands for no text. -/
theorem tag_settleKey_ne (g : Graph) (entry : Nat × Nat) :
    (g.settleKey entry).tag entry.1 ≠ .value := by
  unfold settleKey
  split
  · next h =>
    rw [tag, cell_set]
    split
    · cases g.cell entry.1 <;> exact nofun
    · next hi =>
      -- there is no such node
      have hcell : g.cell entry.1 = .scalar .null (.str "") := by
        rw [cell, List.getD_eq_getElem?_getD, List.getElem?_eq_none (by simpa using hi)]
        rfl
      rw [hcell]
      exact nofun
  · next h => exact fun he => h (by simpa [isText] using he)

theorem entries_settleKey (g : Graph) (entry : Nat × Nat) (k : Nat) :
    (g.settleKey entry).entries k = g.entries k := by
  unfold settleKey
  split
  · rw [entries, cell_set]
    split
    · next h =>
      rw [entries, ← h.1]
      cases g.cell entry.1 <;> rfl
    · rfl
  · rfl

theorem evolves_settleKey (g : Graph) (entry : Nat × Nat) : Evolves g (g.settleKey entry) := by
  have htag : ∀ k, (g.settleKey entry).tag k = g.tag k ∨
      g.tag k = .value ∧ (g.settleKey entry).tag k = .str := by
    intro k
    unfold settleKey
    split
    · next h =>
      rw [tag, cell_set]
      split
      · next hk =>
        obtain ⟨rfl, -⟩ := hk
        refine .inr ⟨by simpa [isText] using h, ?_⟩
        cases g.cell entry.1 <;> rfl
      · exact .inl rfl
    · exact .inl rfl
  refine ⟨fun k => ?_, htag, fun k e he _ => ?_, fun k e he _ => ⟨k, .refl, ?_⟩⟩
  · unfold settleKey
    split
    · rw [cell_set]
      split
      · next h =>
        rw [← h.1]
        cases g.cell entry.1 <;> constructor
      · exact .refl _
    · exact .refl _
  · rwa [entries_settleKey] at he
  · rwa [entries_settleKey] at he

/-- Settling keys leaves entries, and none of the keys stands for a text then. -/
theorem evolves_foldl_settleKey (l : List (Nat × Nat)) (g : Graph) :
    Evolves g (l.foldl settleKey g) ∧ (∀ k, (l.foldl settleKey g).entries k = g.entries k) ∧
      ∀ entry ∈ l, (l.foldl settleKey g).tag entry.1 ≠ .value := by
  induction l generalizing g with
  | nil => exact ⟨.refl g, fun _ => rfl, by simp⟩
  | cons entry r ih =>
    obtain ⟨hevolves, hentries, htags⟩ := ih (g.settleKey entry)
    rw [List.foldl_cons]
    refine ⟨(evolves_settleKey g entry).trans hevolves, fun k => ?_, ?_⟩
    · rw [hentries, entries_settleKey]
    · exact List.forall_mem_cons.2 ⟨hevolves.tag_ne (tag_settleKey_ne g entry), htags⟩

/-! ### Taking over entries -/

/-- What goes wrong where a node needs more room for steps than there is. -/
def Strays (g : Graph) (n i : Nat) (e : Error) : Prop :=
  e = .malformed ∨ e = .tooDeep ∧ g.Leads n i

theorem Strays.of_evolves {n : Nat} (hevolves : Evolves g g') (h : g'.Strays n i e) :
    g.Strays n i e :=
  h.imp_right fun ⟨he, hlead⟩ => ⟨he, hevolves.leads hlead⟩

/-- Whether no key of a mapping stands for its text. -/
def Settled (g : Graph) (i : Nat) : Prop :=
  ∀ entry ∈ g.entries i, g.tag entry.1 ≠ .value

/-- Whether a function lets mappings take over entries and settles their keys, where so many steps
are too many. -/
def Merges (n : Nat) (merged : Nat → Graph → Except Error Graph) : Prop :=
  ∀ i g, (g.cell i).isMapping →
    Yields (g.Strays n i) (fun g' => Evolves g g' ∧ g'.Settled i) (merged i g)

/-- Entries that a mapping is about to take over, in a graph that changed meanwhile. -/
structure Taking (g : Graph) (i : Nat) (s : List (Nat × Nat) × Graph) : Prop where
  evolves : Evolves g s.2
  tag : ∀ entry ∈ s.1, s.2.tag entry.1 ≠ .value
  taken : ∀ entry ∈ s.1, s.2.tag entry.1 = .merge →
    ∃ j, ReflTransGen g.Step i j ∧ entry ∈ g.entries j

theorem Taking.of_evolves {taken : List (Nat × Nat)} (h : Taking g i (taken, g'))
    (hevolves : Evolves g' g'') : Taking g i (taken, g'') where
  evolves := h.evolves.trans hevolves
  tag entry hentry := hevolves.tag_ne (h.tag entry hentry)
  taken entry hentry hkey := h.taken entry hentry (hevolves.tag_eq hkey nofun)

theorem Taking.append {taken more : List (Nat × Nat)} (h : Taking g i (taken, g'))
    (hmore : Taking g i (more, g')) : Taking g i (taken ++ more, g') where
  evolves := h.evolves
  tag entry hentry := (List.mem_append.1 hentry).elim (h.tag entry) (hmore.tag entry)
  taken entry hentry := (List.mem_append.1 hentry).elim (h.taken entry) (hmore.taken entry)

/-- The entries of a settled mapping can be taken over. -/
theorem taking_entries (h : Evolves g g') (hsteps : TransGen g.Step i j) (hj : g'.Settled j) :
    Taking g i (g'.entries j, g') where
  evolves := h
  tag := hj
  taken entry hentry hkey := by
    obtain ⟨k, hreach, hentry⟩ := h.taken j entry hentry hkey
    exact ⟨k, hsteps.to_reflTransGen.trans hreach, hentry⟩

section Merges

variable {n : Nat} {merged : Nat → Graph → Except Error Graph} (hmerged : Merges n merged)
include hmerged

theorem taking_takeAll (h : Evolves g g') {items : List Nat}
    (hitems : ∀ j ∈ items, TransGen g.Step i j) :
    Yields (g.Strays (n + 1) i) (fun s => Taking g i s ∧ Evolves g' s.2)
      (takeAll merged g' items) := by
  refine Yields.foldlM ?_ ⟨⟨h, by simp, by simp⟩, .refl g'⟩
  rintro ⟨taken, g₁⟩ ⟨htaking, hevolves⟩ j hj
  dsimp only
  split
  · next hmapping =>
    have hsteps := hitems j hj
    have hstrays : ∀ e, g₁.Strays n j e → g.Strays (n + 1) i e := fun e he =>
      (he.of_evolves htaking.evolves).imp_right fun ⟨he, hlead⟩ => ⟨he, hlead.of_steps hsteps⟩
    have hmerge := (hmerged j g₁ hmapping).mono hstrays fun _ h => h
    refine hmerge.bind fun g₂ ⟨hevolves₂, hsettled⟩ => yields_ok ⟨?_, hevolves.trans hevolves₂⟩
    have htaken := htaking.of_evolves hevolves₂
    exact (taking_entries htaken.evolves hsteps hsettled).append htaken
  · exact yields_error (.inl rfl)

theorem taking_takeNext (hmapping : (g.cell i).isMapping) {s : List (Nat × Nat) × Graph}
    (h : Taking g i s) : Yields (g.Strays (n + 1) i) (Taking g i) (takeNext merged i s) := by
  obtain ⟨taken, g'⟩ := s
  unfold takeNext
  dsimp only
  split
  · exact yields_ok h
  next entry hfind =>
  have hentry := List.mem_of_find?_eq_some hfind
  have hkey : g'.tag entry.1 = .merge := by simpa [isMerge] using List.find?_some hfind
  obtain ⟨k, hreach, hown⟩ := h.evolves.taken i entry hentry hkey
  have hkey' := h.evolves.tag_eq hkey nofun
  have hless : Evolves g' (g'.setEntries i ((g'.entries i).eraseP g'.isMerge)) := by
    refine (Evolves.refl g').setEntries (by rwa [← (h.evolves.like i).isMapping])
      (fun e he _ => List.mem_of_mem_eraseP he) fun e he _ => ⟨i, .refl, List.mem_of_mem_eraseP he⟩
  generalize g'.setEntries i ((g'.entries i).eraseP g'.isMerge) = g₁ at hless
  have hg₁ := h.evolves.trans hless
  have hmore : ∀ s, Taking g i s ∧ Evolves g₁ s.2 → Taking g i (taken ++ s.1, s.2) :=
    fun s hs => (h.of_evolves (hless.trans hs.2)).append hs.1
  split
  · next hcell =>
    have hitems : ∀ j ∈ [entry.2], TransGen g.Step i j :=
      List.forall_mem_singleton.2 (.tail' hreach (.merge hown hkey'))
    have hall := taking_takeAll hmerged hg₁ hitems
    exact hall.bind fun s hs => yields_ok (hmore s hs)
  · next hcell =>
    obtain ⟨tag, hcell⟩ := hg₁.cell_sequence hcell
    have hall := taking_takeAll hmerged hg₁ fun j hj =>
      TransGen.tail' hreach (.item hown hkey' hcell hj)
    exact hall.bind fun s hs => yields_ok (hmore s hs)
  · exact yields_error (.inl rfl)

theorem merges_mergeWith : Merges (n + 1) (mergeWith merged) := by
  intro i g hmapping
  unfold mergeWith
  have hstart : Taking g i ([], g) := ⟨.refl g, by simp, by simp⟩
  refine (Yields.foldlM (fun s hs _ _ => taking_takeNext hmerged hmapping hs) hstart).bind ?_
  rintro ⟨taken, g₁⟩ htaking
  obtain ⟨hevolves, hentries, htags⟩ := evolves_foldl_settleKey (g₁.entries i) g₁
  dsimp only
  generalize (g₁.entries i).foldl settleKey g₁ = g₂ at *
  have htaken := htaking.of_evolves hevolves
  have hsettled : g₂.Settled i := by
    intro entry hentry
    rw [hentries] at hentry
    exact htags entry hentry
  refine yields_ok ?_
  split
  · exact ⟨htaken.evolves, hsettled⟩
  · have hnone : ∀ entry ∈ taken ++ g₂.entries i, g₂.tag entry.1 ≠ .value := fun entry hentry =>
      (List.mem_append.1 hentry).elim (htaken.tag entry) (hsettled entry)
    refine ⟨htaken.evolves.setEntries hmapping (fun entry hentry hkey =>
      absurd hkey (hnone entry hentry)) fun entry hentry hkey => ?_, fun entry hentry => ?_⟩
    · exact (List.mem_append.1 hentry).elim (fun h => htaken.taken entry h hkey) fun h =>
        htaken.evolves.taken i entry h hkey
    · rw [tag_setEntries]
      obtain ⟨-, hentry⟩ | hentry := entries_setEntries hentry
      · exact hnone entry hentry
      · exact hsettled entry hentry

end Merges

/-- **Taking over entries** changes a graph as it can change, and fails where a way is too long. -/
theorem merges_merge (room : Nat) : Merges (room + 1) (merge room) := by
  induction room with
  | zero => exact merges_mergeWith fun _ _ _ => yields_error (.inr ⟨rfl, trivial⟩)
  | succ room ih => exact merges_mergeWith ih

/-! ### Values -/

theorem text_of_find? {tag : Tag} {own : List (Nat × Nat)} {entry : Nat × Nat}
    (hcell : g.cell i = .mapping tag own) (h : own.find? g.isText = some entry) :
    entry ∈ g.entries i ∧ g.tag entry.1 = .value := by
  rw [entries, hcell]
  exact ⟨List.mem_of_find?_eq_some h, by simpa [isText] using List.find?_some h⟩

/-- A node has a text of its own, or a way is too long. -/
theorem ownText_text (g : Graph) (room i : Nat) :
    Yields (g.Strays (room + 1) i) (g.OwnText i) (g.text room i) := by
  induction room generalizing i with
  | zero =>
    unfold text
    split
    · next hcell => exact yields_ok (.scalar hcell)
    · exact yields_error (.inl rfl)
    · next hcell =>
      split
      · exact yields_error (.inl rfl)
      · next hfind =>
        obtain ⟨hentry, hkey⟩ := text_of_find? hcell hfind
        exact yields_error (.inr ⟨rfl, _, .text hentry hkey, trivial⟩)
  | succ room ih =>
    unfold text
    split
    · next hcell => exact yields_ok (.scalar hcell)
    · exact yields_error (.inl rfl)
    · next hcell =>
      split
      · exact yields_error (.inl rfl)
      · next hfind =>
        obtain ⟨hentry, hkey⟩ := text_of_find? hcell hfind
        exact (ih _).mono (fun e he => he.imp_right fun ⟨he, hlead⟩ =>
          ⟨he, _, .text hentry hkey, hlead⟩) fun _ h => .mapping hentry hkey h

variable [Stack]

/-- Whether an error is no more than malformed, or where a graph offends. -/
def Blames (g : Graph) (e : Error) : Prop :=
  e = .malformed ∨ g.Offends e

theorem Strays.blames (h : g.Strays (Stack.chain + 1) i e) : g.Blames e :=
  h.imp_right fun ⟨he, hlead⟩ => he ▸ .chain hlead

theorem blames_scalarOf (htext : g.OwnText i text) {e : Error}
    (h : scalarOf (g.tag i) text = .error e) : g.Blames e := by
  by_cases hne : e = .malformed
  · exact .inl hne
  · exact .inr (.text htext ((scalarOf_eq_error_iff hne).1 h))

theorem blames_scalar (g : Graph) (i : Nat) :
    Yields g.Blames (fun _ => True) (g.scalar i) := by
  unfold scalar
  split
  · next tag text hcell =>
    have htag : g.tag i = tag := by rw [Graph.tag, hcell]; rfl
    exact ⟨fun e he => blames_scalarOf (.scalar hcell) (by rwa [htag]), fun _ _ => trivial⟩
  · exact yields_error (.inl rfl)
  · next tag entries hcell =>
    have htag : g.tag i = tag := by rw [Graph.tag, hcell]; rfl
    have hmapping : (g.cell i).isMapping := by rw [hcell]; rfl
    have htext : Yields g.Blames (g.OwnText i) (g.text Stack.chain i) :=
      (ownText_text g Stack.chain i).mono (fun _ he => he.blames) fun _ h => h
    split
    · exact yields_error (.inl rfl)
    · exact yields_error (.inl rfl)
    · exact yields_error (.inl rfl)
    · refine htext.bind fun text htext => ?_
      split
      · next h => exact yields_error (.inr (.nested hmapping (htag.trans h) htext))
      · exact ⟨fun e he => blames_scalarOf htext (by rwa [htag]), fun _ _ => trivial⟩

end Graph

namespace Site

variable [Stack] {g : Graph}

open Yaml.Graph (Evolves)

/-- Whether a step of building values fails only as malformed or where a graph offends, and changes
the graph only as it can change. -/
def Builds (g : Graph) (x : Except Error Site) : Prop :=
  Yields g.Blames (fun s => Evolves g s.graph) x

theorem builds_build (i : Nat) {s : Site} (hs : Evolves g s.graph) : Builds g (s.build i) := by
  unfold build
  split
  · exact yields_ok hs
  · extract_lets s'
    split
    · exact yields_ok hs
    · have hscalar := (Graph.blames_scalar s.graph i).mono
        (fun e he => he.imp_right hs.offends) fun _ h => h
      refine hscalar.bind fun x _ => ?_
      split
      · exact yields_ok hs
      · exact yields_ok hs

theorem builds_buildEntry (e : Nat × Nat) {s : Site} (hs : Evolves g s.graph) :
    Builds g (s.buildEntry e) := by
  refine Yields.bind (builds_build e.1 hs) fun s hs => ?_
  split
  · exact yields_error (.inl rfl)
  · exact builds_build e.2 hs

theorem builds_buildPair (i : Nat) {s : Site} (hs : Evolves g s.graph) :
    Builds g (s.buildPair i) := by
  unfold buildPair
  split
  · exact Yields.bind (builds_build _ hs) fun s hs => builds_build _ hs
  · exact yields_error (.inl rfl)

theorem builds_foldlM {α : Type} {f : Site → α → Except Error Site}
    (hf : ∀ a s, Evolves g s.graph → Builds g (f s a)) (l : List α) {s : Site}
    (hs : Evolves g s.graph) : Builds g (l.foldlM f s) :=
  Yields.foldlM (fun s hs a _ => hf a s hs) hs

/-- The parts of a mapping are built when it has taken over entries. -/
theorem builds_entries (i : Nat) {s : Site} (hs : Evolves g s.graph)
    (hmapping : (s.graph.cell i).isMapping) : Builds g (do
      let g ← s.graph.merge Stack.chain i
      (g.entries i).foldlM buildEntry { s with graph := g }) := by
  have hmerge := (Graph.merges_merge Stack.chain i s.graph hmapping).mono
    (fun _ he => he.blames.imp_right hs.offends) fun _ h => hs.trans h.1
  exact hmerge.bind fun g' hg' => builds_foldlM (fun e s => builds_buildEntry e) _ hg'

theorem builds_fill (i : Nat) {s : Site} (hs : Evolves g s.graph) : Builds g (s.fill i) := by
  unfold fill
  split
  · exact builds_foldlM (fun i s => builds_build i) _ hs
  · exact builds_foldlM (fun i s => builds_buildPair i) _ hs
  · exact builds_foldlM (fun i s => builds_buildPair i) _ hs
  · next hcell => exact builds_entries i hs (by rw [hcell]; rfl)
  · next hcell => exact builds_entries i hs (by rw [hcell]; rfl)
  · exact yields_error (.inl rfl)

theorem builds_fillAll (fuel : Nat) {s : Site} (hs : Evolves g s.graph) :
    Builds g (s.fillAll fuel) := by
  induction fuel generalizing s with
  | zero => exact yields_ok hs
  | succ fuel ih =>
    unfold fillAll
    split
    · exact yields_ok hs
    · exact Yields.bind (builds_fill _ hs) fun s hs => ih hs

end Site

variable [Stack] {e : Error}

/-- A graph without a value is malformed or offends. -/
theorem Graph.value_eq_error {g : Graph} (h : g.value = .error e) : g.Blames e := by
  have hvalue : Yields g.Blames (fun _ => True) g.value := by
    unfold value
    refine Yields.bind (Site.builds_build 0 (Evolves.refl g)) fun s hs => ?_
    exact Yields.bind (Site.builds_fillAll g.length hs) fun s _ => yields_ok trivial
  exact hvalue.error e h

/-- **Where the faults of a text come from**, malformed texts aside: a place from which it cannot be
read on, more collections than can be open, or a node of its graph that offends. -/
theorem read_eq_error {cs : List Char} (h : read cs = .error e) (hne : e ≠ .malformed) :
    .fault e ∈ tokensOf cs ∨ (e = .tooDeep ∧ Stack.yaml < openings (tokensOf cs)) ∨
      ∃ n, Node.ofTokens (tokensOf cs) = .ok (some n) ∧ n.graph.Offends e := by
  unfold read at h
  split at h
  · exact absurd (Except.error.inj h).symm hne
  · cases hn : Node.ofTokens (tokensOf cs) with
    | error e' =>
      rw [hn] at h
      cases h
      exact (Node.ofTokens_eq_error hn).resolve_left hne |>.imp_right .inl
    | ok o =>
      rw [hn] at h
      cases o with
      | none => cases h
      | some n => exact .inr (.inr ⟨n, rfl, (Graph.value_eq_error h).resolve_left hne⟩)

end Yaml
end Runbook
