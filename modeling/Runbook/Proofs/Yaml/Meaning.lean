import Runbook.Proofs.Value.Plain
import Runbook.Proofs.Yaml.Legal
import Runbook.Proofs.Yaml.Node
import Runbook.Proofs.Yields
import Runbook.Yaml.Meaning

/-!
# The value of a written document

The node of a value that is plain and kept stands for the value.
-/

namespace Runbook
namespace Yaml

open Value (isPlain arePlain havePlain)

/-! ### The entries of a mapping -/

theorem putEntry_append {k : Scalar} {v : Value} {es : List (Scalar × Value)}
    (h : ∀ e ∈ es, e.1.sameKey k = false) : putEntry k v es = es ++ [(k, v)] := by
  induction es with
  | nil => rfl
  | cons e r ih =>
    rw [putEntry, h e List.mem_cons_self, ih fun e he => h e (List.mem_cons_of_mem _ he)]
    rfl

theorem foldl_putEntry (acc : List (Scalar × Value)) {es : List (Scalar × Value)}
    (hplain : havePlain es) (h : ((acc ++ es).map Prod.fst).Nodup)
    (hacc : ∀ e ∈ acc, ∃ key, e.1 = .str key) :
    es.foldl (fun acc e => putEntry e.1 e.2 acc) acc = acc ++ es := by
  induction es generalizing acc with
  | nil => simp
  | cons e r ih =>
    obtain ⟨k, v⟩ := e
    cases k with
    | str key =>
      rw [havePlain, Bool.and_eq_true] at hplain
      have hfresh : ∀ e ∈ acc, e.1.sameKey (.str key) = false := by
        intro e he
        obtain ⟨key', hkey'⟩ := hacc e he
        have hne : e.1 ≠ .str key := by
          rw [List.map_append, List.nodup_append] at h
          exact h.2.2 e.1 (List.mem_map_of_mem he) (.str key) (by simp)
        rw [hkey'] at hne ⊢
        simpa [Scalar.sameKey, Scalar.place?] using hne
      rw [List.foldl_cons, putEntry_append hfresh, ih _ hplain.2 (by simpa using h) ?_]
      · simp
      · intro e he
        rcases List.mem_append.1 he with he | he
        · exact hacc e he
        · exact ⟨key, by rw [List.mem_singleton.1 he]⟩
    | _ => simp [havePlain] at hplain

/-- Entries under distinct text keys write themselves. -/
theorem entriesOf_of_plain {es : List (Scalar × Value)} (hplain : havePlain es)
    (h : (es.map Prod.fst).Nodup) : entriesOf es = es :=
  foldl_putEntry [] hplain h (by simp)

/-! ### The graph of a value -/

theorem Graph.cell_append {pre post : List Cell} {c : Cell} {i : Nat} (h : pre.length = i) :
    Graph.cell (pre ++ c :: post) i = c := by
  simp [Graph.cell, ← h]

mutual

/-- Whether a graph holds a value at a place, and all parts of collections at later places. -/
def Shows (g : Graph) (i : Nat) : Value → Prop
  | .scalar s => ∃ tag text, g.cell i = .scalar tag text ∧ tag.isCollection = false ∧
    scalarOf tag text = .ok s
  | .list vs => ∃ items, g.cell i = .sequence .seq items ∧ ShowsItems g i items vs
  | .mapping es => ∃ entries, g.cell i = .mapping .map entries ∧ ShowsEntries g i entries es
  | _ => False

/-- The same for items, which come after a place. -/
def ShowsItems (g : Graph) (i : Nat) (items : List Nat) : List Value → Prop
  | [] => items = []
  | v :: r => ∃ j js, items = j :: js ∧ i < j ∧ Shows g j v ∧ ShowsItems g i js r

/-- The same for entries, whose keys are texts. -/
def ShowsEntries (g : Graph) (i : Nat) (entries : List (Nat × Nat)) :
    List (Scalar × Value) → Prop
  | [] => entries = []
  | (s, v) :: r => ∃ k j es, entries = (k, j) :: es ∧
    (∃ key, g.cell k = .scalar .str (.str key) ∧ s = .str key) ∧ i < j ∧ Shows g j v ∧
      ShowsEntries g i es r

end

theorem ofScalar_of_isWord {s : Scalar} {text : String} (h : isWord s)
    (hw : wordOf? s = some text) : Node.ofScalar s = .scalar (Tag.ofPlain text) (.str text) := by
  cases s with
  | str text => cases h
  | _ => simp [Node.ofScalar, hw]

theorem exists_ofScalar {s : Scalar} {opened : Bool} {n : Nat} (h : isKept opened n (.scalar s)) :
    ∃ tag text, Node.ofScalar s = .scalar tag text ∧ tag.isCollection = false ∧
      scalarOf tag text = .ok s := by
  rcases str_or_isWord h with ⟨text, rfl⟩ | hword
  · exact ⟨_, _, rfl, rfl, rfl⟩
  · obtain ⟨w, hw, -, -, hcollection, hvalue⟩ := exists_word hword
    exact ⟨_, _, ofScalar_of_isWord hword hw, hcollection, hvalue⟩

mutual

/-- The part of a graph for a value that is kept holds the value. -/
theorem lay_ofValue {opened : Bool} {n : Nat} (start : Nat) (names : Table String Nat) :
    (v : Value) → isKept opened n v → ∃ cells, (Node.ofValue v).lay start names =
      (start, cells, names) ∧
        ∀ pre post, pre.length = start → Shows (pre ++ (cells ++ post)) start v
  | .scalar s, h => by
    obtain ⟨tag, text, hnode, htag, hvalue⟩ := exists_ofScalar h
    refine ⟨[.scalar tag text], by rw [Node.ofValue, hnode, Node.lay], fun pre post hpre => ?_⟩
    exact ⟨tag, text, Graph.cell_append hpre, htag, hvalue⟩
  | .list vs, h => by
    rw [isKept] at h
    obtain ⟨places, cells, hlay, hshows⟩ := layItems_ofItems (start + 1) names vs h
    refine ⟨.sequence .seq places :: cells, by rw [Node.ofValue, Node.lay, hlay],
      fun pre post hpre => ⟨places, Graph.cell_append hpre, ?_⟩⟩
    have hitems := hshows start (pre ++ [.sequence .seq places]) post (by simp [hpre])
      (Nat.lt_succ_self start)
    rwa [List.append_assoc] at hitems
  | .mapping es, h => by
    rw [isKept] at h
    obtain ⟨places, cells, hlay, hshows⟩ := layEntries_ofEntries (start + 1) names es h
    refine ⟨.mapping .map places :: cells, by rw [Node.ofValue, Node.lay, hlay],
      fun pre post hpre => ⟨places, Graph.cell_append hpre, ?_⟩⟩
    have hentries := hshows start (pre ++ [.mapping .map places]) post (by simp [hpre])
      (Nat.lt_succ_self start)
    rwa [List.append_assoc] at hentries
  | .set _, h => by cases h
  | .pair _ _, h => by cases h
  | .endless _, h => by cases h

/-- The same for items. -/
theorem layItems_ofItems {n : Nat} (start : Nat) (names : Table String Nat) :
    (vs : List Value) → areKept n vs → ∃ places cells, Node.layItems start names
      (Node.ofItems vs) = (places, cells, names) ∧ ∀ i pre post, pre.length = start → i < start →
        ShowsItems (pre ++ (cells ++ post)) i places vs
  | [], _ => ⟨[], [], by rw [Node.ofItems, Node.layItems], fun _ _ _ _ _ => rfl⟩
  | v :: r, h => by
    rw [areKept, Bool.and_eq_true] at h
    obtain ⟨cells, hv, hshows⟩ := lay_ofValue start names v h.1
    obtain ⟨places, more, hr, hmore⟩ := layItems_ofItems (start + cells.length) names r h.2
    refine ⟨start :: places, cells ++ more, by rw [Node.ofItems, Node.layItems, hv]; simp [hr],
      fun i pre post hpre hi => ⟨start, places, rfl, hi, ?_, ?_⟩⟩
    · rw [List.append_assoc]
      exact hshows pre (more ++ post) hpre
    · have hitems := hmore i (pre ++ cells) post (by simp [hpre]) (Nat.lt_add_right _ hi)
      simpa using hitems

/-- The same for entries. -/
theorem layEntries_ofEntries {n : Nat} (start : Nat) (names : Table String Nat) :
    (es : List (Scalar × Value)) → haveKept n es → ∃ places cells, Node.layEntries start names
      (Node.ofEntries es) = (places, cells, names) ∧
        ∀ i pre post, pre.length = start → i < start →
          ShowsEntries (pre ++ (cells ++ post)) i places es
  | [], _ => ⟨[], [], by rw [Node.ofEntries, Node.layEntries], fun _ _ _ _ _ => rfl⟩
  | (.str key, v) :: r, h => by
    rw [haveKept, Bool.and_eq_true, Bool.and_eq_true] at h
    obtain ⟨⟨-, hvalue⟩, hr⟩ := h
    obtain ⟨cells, hv, hshows⟩ := lay_ofValue (start + 1) names v hvalue
    obtain ⟨places, more, hrest, hmore⟩ :=
      layEntries_ofEntries (start + 1 + cells.length) names r hr
    have hkey : (Node.ofScalar (.str key)).lay start names =
        (start, [.scalar .str (.str key)], names) := by rw [Node.ofScalar, Node.lay]
    refine ⟨(start, start + 1) :: places, .scalar .str (.str key) :: (cells ++ more), ?_,
      fun i pre post hpre hi => ⟨start, start + 1, places, rfl,
        ⟨key, Graph.cell_append hpre, rfl⟩, Nat.lt_succ_of_lt hi, ?_, ?_⟩⟩
    · rw [Node.ofEntries, Node.layEntries, hkey]
      simp [hv, hrest]
    · have hshows := hshows (pre ++ [.scalar .str (.str key)]) (more ++ post) (by simp [hpre])
      simpa using hshows
    · have hentries := hmore i (pre ++ .scalar .str (.str key) :: cells) post
        (by simp [hpre]; omega) (by omega)
      simpa using hentries

end

/-! ### Building the value -/

namespace Graph

variable {g : Graph} {i : Nat}

/-- The keys of a mapping that holds entries are texts. -/
theorem tag_of_showsEntries {entries : List (Nat × Nat)} {es : List (Scalar × Value)}
    (h : ShowsEntries g i entries es) : ∀ e ∈ entries, g.tag e.1 = .str := by
  induction es generalizing entries with
  | nil =>
    obtain rfl := h
    simp
  | cons x r ih =>
    obtain ⟨k, j, rest, rfl, ⟨text, hk, -⟩, -, -, hr⟩ := h
    exact List.forall_mem_cons.2 ⟨by rw [tag, hk]; rfl, ih hr⟩

/-- A mapping all keys of which are texts takes over no entries. -/
theorem mergeWith_of_str (merged : Nat → Graph → Except Error Graph)
    (h : ∀ e ∈ g.entries i, g.tag e.1 = .str) : g.mergeWith merged i = .ok g := by
  have hnext : takeNext merged i ([], g) = .ok ([], g) := by
    have hnone : (g.entries i).find? g.isMerge = none :=
      List.find?_eq_none.2 fun e he => by simp [isMerge, h e he]
    simp only [takeNext, hnone]
  have htaken : ∀ l : List (Nat × Nat),
      l.foldlM (fun s _ => takeNext merged i s) ([], g) = .ok ([], g) := by
    intro l
    induction l with
    | nil => rfl
    | cons e r ih =>
      rw [List.foldlM_cons, hnext]
      exact ih
  have hsettled : ∀ l ⊆ g.entries i, l.foldl settleKey g = g := by
    intro l
    induction l with
    | nil => simp
    | cons e r ih =>
      intro hl
      have hkey : g.settleKey e = g :=
        if_neg (by simp [isText, h e (hl List.mem_cons_self)])
      rw [List.foldl_cons, hkey]
      exact ih fun _ he => hl (List.mem_cons_of_mem _ he)
  rw [mergeWith, htaken]
  exact congrArg Except.ok (hsettled _ (List.Subset.refl _))

theorem merge_of_str (room : Nat) (h : ∀ e ∈ g.entries i, g.tag e.1 = .str) :
    g.merge room i = .ok g := by
  cases room <;> exact mergeWith_of_str _ h

end Graph

namespace Site

variable [Stack] {g : Graph} {s : Site} {i : Nat} {v : Value}

/-- Whether the graph of a site is some graph, in which a value stands at each place that waits. -/
structure Holds (g : Graph) (s : Site) : Prop where
  graph : s.graph = g
  scalars : s.scalars = []
  waiting : ∀ i ∈ s.waiting, (g.tag i).isCollection ∧ ∃ v, Shows g i v

theorem holds_build (hs : s.Holds g) (h : Shows g i v) :
    Yields (fun _ => False) (Holds g) (s.build i) := by
  unfold build
  split
  · exact yields_ok hs
  · extract_lets s'
    have hs' : s'.Holds g := ⟨hs.graph, hs.scalars, hs.waiting⟩
    clear_value s'
    obtain ⟨rfl, hscalars, hwaiting⟩ := hs'
    split
    · next hcollection =>
      refine yields_ok ⟨rfl, hscalars, fun j hj => ?_⟩
      obtain hj | hj := List.mem_append.1 hj
      · exact hwaiting j hj
      · obtain rfl := List.mem_singleton.1 hj
        exact ⟨hcollection, v, h⟩
    · next hcollection =>
      cases v with
      | scalar x =>
        obtain ⟨tag, text, hcell, -, hvalue⟩ := h
        simp only [Graph.scalar, hcell, hvalue, Cell.isMapping]
        exact yields_ok ⟨rfl, hscalars, hwaiting⟩
      | list vs =>
        obtain ⟨items, hcell, -⟩ := h
        exact absurd (by rw [Graph.tag, hcell]; rfl) hcollection
      | mapping es =>
        obtain ⟨entries, hcell, -⟩ := h
        exact absurd (by rw [Graph.tag, hcell]; rfl) hcollection
      | _ => cases h

theorem holds_buildItems {items : List Nat} {vs : List Value} (hs : s.Holds g)
    (h : ShowsItems g i items vs) :
    Yields (fun _ => False) (Holds g) (items.foldlM build s) := by
  induction vs generalizing items s with
  | nil =>
    obtain rfl := h
    exact yields_ok hs
  | cons v r ih =>
    obtain ⟨j, js, rfl, -, hv, hr⟩ := h
    rw [List.foldlM_cons]
    exact (holds_build hs hv).bind fun s hs => ih hs hr

theorem holds_buildEntries {entries : List (Nat × Nat)} {es : List (Scalar × Value)}
    (hs : s.Holds g) (h : ShowsEntries g i entries es) :
    Yields (fun _ => False) (Holds g) (entries.foldlM buildEntry s) := by
  induction es generalizing entries s with
  | nil =>
    obtain rfl := h
    exact yields_ok hs
  | cons e r ih =>
    obtain ⟨k, j, rest, rfl, ⟨key, hk, -⟩, -, hv, hr⟩ := h
    have hkey : Shows g k (.str key) := ⟨.str, .str key, hk, rfl, rfl⟩
    rw [List.foldlM_cons]
    refine Yields.bind ?_ fun s hs => ih hs hr
    refine (holds_build hs hkey).bind fun s hs => ?_
    have htag : (s.graph.tag k).isCollection = false := by
      rw [hs.graph, Graph.tag, hk]
      rfl
    simp only [htag]
    exact holds_build hs hv

theorem holds_fill (hs : s.Holds g) (hcollection : (g.tag i).isCollection) (h : Shows g i v) :
    Yields (fun _ => False) (Holds g) (s.fill i) := by
  obtain ⟨rfl, hscalars, hwaiting⟩ := hs
  cases v with
  | scalar x =>
    obtain ⟨tag, text, hcell, htag, -⟩ := h
    rw [Graph.tag, hcell, Cell.tag, htag] at hcollection
    cases hcollection
  | list vs =>
    obtain ⟨items, hcell, hitems⟩ := h
    simp only [fill, hcell]
    exact holds_buildItems ⟨rfl, hscalars, hwaiting⟩ hitems
  | mapping es =>
    obtain ⟨entries, hcell, hentries⟩ := h
    have hkeys := Graph.tag_of_showsEntries hentries
    have hown : s.graph.entries i = entries := by rw [Graph.entries, hcell]; rfl
    rw [← hown] at hkeys hentries
    simp only [fill, hcell]
    rw [Graph.merge_of_str _ hkeys]
    exact holds_buildEntries ⟨rfl, hscalars, hwaiting⟩ hentries
  | _ => cases h

theorem holds_fillAll (fuel : Nat) (hs : s.Holds g) :
    Yields (fun _ => False) (Holds g) (s.fillAll fuel) := by
  induction fuel generalizing s with
  | zero => exact yields_ok hs
  | succ fuel ih =>
    rw [fillAll]
    split
    · exact yields_ok hs
    · next i rest hwaiting =>
      have hrest : ∀ j ∈ rest, (g.tag j).isCollection ∧ ∃ v, Shows g j v := fun j hj =>
        hs.waiting j (hwaiting ▸ List.mem_cons_of_mem _ hj)
      obtain ⟨hcollection, v, hv⟩ := hs.waiting i (hwaiting ▸ List.mem_cons_self)
      have hs' : Holds g { s with waiting := rest } := ⟨hs.graph, hs.scalars, hrest⟩
      exact (holds_fill hs' hcollection hv).bind fun s hs => ih hs

/-! ### The value that was built -/

end Site

section Value

variable {g : Graph} {s : Site} {i fuel : Nat} {above : List Nat}

theorem scalarAt_of_cell (hs : s.scalars = []) {tag : Tag} {text : Text} {x : Scalar}
    (h : s.graph.cell i = .scalar tag text) (hx : scalarOf tag text = .ok x) :
    s.scalarAt i = x := by
  simp [Site.scalarAt, hs, h, hx, Except.toOption]

theorem lt_length_of_isCollection (h : (g.tag i).isCollection) : i < g.length := by
  refine Nat.lt_of_not_le fun hle => ?_
  have hcell : g.cell i = .scalar .null (.str "") := by
    rw [Graph.cell, List.getD_eq_getElem?_getD, List.getElem?_eq_none hle]
    rfl
  rw [Graph.tag, hcell] at h
  cases h

theorem contains_of_lt (h : ∀ a ∈ above, a < i) : above.contains i = false := by
  rw [List.contains_eq_any_beq, List.any_eq_false]
  intro a ha
  simpa using (h a ha).ne'

theorem lt_of_mem_cons (h : ∀ a ∈ above, a < i) : ∀ a ∈ i :: above, a < i + 1 :=
  List.forall_mem_cons.2 ⟨Nat.lt_succ_self i, fun a ha => Nat.lt_succ_of_lt (h a ha)⟩

mutual

/-- What was built at a place where a graph holds a plain value is this value, if there is fuel for
the places that come after. -/
theorem value_of_shows (hs : s.Holds g) : (v : Value) → {i fuel : Nat} → {above : List Nat} →
    isPlain v → Shows g i v → (∀ a ∈ above, a < i) → g.length < fuel + i → 0 < fuel →
      s.value fuel above i = v
  | .scalar x, i, fuel + 1, above, _, h, habove, _, _ => by
    obtain ⟨tag, text, hcell, htag, hvalue⟩ := h
    rw [← hs.graph] at hcell
    rw [Site.value, contains_of_lt habove, hcell]
    exact congrArg Value.scalar (scalarAt_of_cell hs.scalars hcell hvalue)
  | .list vs, i, fuel + 1, above, hplain, h, habove, hfuel, _ => by
    obtain ⟨items, hcell, hitems⟩ := h
    have hi : i < g.length := lt_length_of_isCollection (by rw [Graph.tag, hcell]; rfl)
    rw [isPlain] at hplain
    rw [Site.value, contains_of_lt habove, hs.graph, hcell]
    exact congrArg Value.list (values_of_showsItems hs vs hplain hitems
      (lt_of_mem_cons habove) (by omega) (by omega))
  | .mapping es, i, fuel + 1, above, hplain, h, habove, hfuel, _ => by
    obtain ⟨entries, hcell, hentries⟩ := h
    have hi : i < g.length := lt_length_of_isCollection (by rw [Graph.tag, hcell]; rfl)
    rw [isPlain, Bool.and_eq_true, decide_eq_true_eq] at hplain
    have hown := values_of_showsEntries hs es hplain.1 hentries
      (lt_of_mem_cons habove) (show g.length < fuel + (i + 1) by omega) (by omega)
    rw [Site.value, contains_of_lt habove, hs.graph, hcell]
    simp only [hown]
    exact congrArg Value.mapping (entriesOf_of_plain hplain.1 hplain.2)
  | .set _, _, _ + 1, _, h, _, _, _, _ => by cases h
  | .pair _ _, _, _ + 1, _, h, _, _, _, _ => by cases h
  | .endless _, _, _ + 1, _, h, _, _, _, _ => by cases h

/-- The same for items. -/
theorem values_of_showsItems (hs : s.Holds g) : (vs : List Value) → {i fuel : Nat} →
    {above items : List Nat} → arePlain vs → ShowsItems g i items vs →
      (∀ a ∈ above, a < i + 1) → g.length < fuel + (i + 1) → 0 < fuel →
        items.map (s.value fuel above) = vs
  | [], _, _, _, _, _, h, _, _, _ => by
    obtain rfl := h
    rfl
  | v :: r, i, fuel, above, _, hplain, h, habove, hfuel, hpos => by
    obtain ⟨j, js, rfl, hj, hv, hr⟩ := h
    rw [arePlain, Bool.and_eq_true] at hplain
    rw [List.map_cons, values_of_showsItems hs r hplain.2 hr habove hfuel hpos,
      value_of_shows hs v hplain.1 hv (fun a ha => Nat.lt_of_lt_of_le (habove a ha) hj)
        (by omega) hpos]

/-- The same for entries. -/
theorem values_of_showsEntries (hs : s.Holds g) : (es : List (Scalar × Value)) →
    {i fuel : Nat} → {above : List Nat} → {entries : List (Nat × Nat)} → havePlain es →
      ShowsEntries g i entries es → (∀ a ∈ above, a < i + 1) → g.length < fuel + (i + 1) →
        0 < fuel → entries.map (fun e => (s.scalarAt e.1, s.value fuel above e.2)) = es
  | [], _, _, _, _, _, h, _, _, _ => by
    obtain rfl := h
    rfl
  | (key, v) :: r, i, fuel, above, _, hplain, h, habove, hfuel, hpos => by
    obtain ⟨k, j, rest, rfl, ⟨key, hk, rfl⟩, hj, hv, hr⟩ := h
    rw [havePlain, Bool.and_eq_true] at hplain
    rw [← hs.graph] at hk
    rw [List.map_cons, values_of_showsEntries hs r hplain.2 hr habove hfuel hpos,
      value_of_shows hs v hplain.1 hv (fun a ha => Nat.lt_of_lt_of_le (habove a ha) hj)
        (by omega) hpos, scalarAt_of_cell hs.scalars hk rfl, Scalar.ofText]

end

end Value

/-- A graph has the plain value that it holds at the place 0. -/
theorem Graph.value_of_shows [Stack] {g : Graph} {v : Value} (hplain : v.isPlain)
    (h : Shows g 0 v) : g.value = .ok v := by
  have hs : Site.Holds g ⟨g, [], [], []⟩ := ⟨rfl, rfl, by simp⟩
  obtain ⟨s, hbuilt, hs⟩ := (Site.holds_build hs h).exists_ok
  obtain ⟨s', hfilled, hs'⟩ := (Site.holds_fillAll g.length hs).exists_ok
  have hvalue : s'.value (g.length + 1) [] 0 = v :=
    Yaml.value_of_shows hs' v hplain h (by simp) (by omega) (by omega)
  rw [Graph.value, hbuilt]
  show (s.fillAll g.length >>= fun s => pure (s.value (g.length + 1) [] 0)) = .ok v
  rw [hfilled]
  exact congrArg Except.ok hvalue

/-- The graph of a mapping that is kept holds the mapping. -/
theorem shows_graph_ofValue {es : List (Scalar × Value)} (h : haveKept 0 es) :
    Shows (Node.ofValue (.mapping es)).graph 0 (.mapping es) := by
  obtain ⟨places, cells, hlay, hshows⟩ := layEntries_ofEntries 1 [] es h
  have hgraph : (Node.ofValue (.mapping es)).graph = .mapping .map places :: cells := by
    rw [Node.graph, Node.ofValue, Node.lay, hlay]
  have hentries := hshows 0 [.mapping .map places] [] rfl Nat.one_pos
  rw [List.append_nil] at hentries
  rw [hgraph]
  exact ⟨places, rfl, hentries⟩

/-- A mapping that is plain and kept is read back from what is written for it, if there is room. -/
theorem read_write [Stack] {es : List (Scalar × Value)} (hplain : (Value.mapping es).isPlain)
    (hkept : haveKept 0 es) (hne : es ≠ []) (hroom : (Value.mapping es).levels ≤ Stack.yaml) :
    read (write (.mapping es)).toList = .ok (.mapping es) := by
  have hallowed : (write (.mapping es)).toList.all isAllowed = true := by
    refine List.all_eq_true.2 fun c hc => ?_
    have hlegal := isLegal_write (.mapping es) c hc
    rw [isLegal, Bool.and_eq_true] at hlegal
    exact hlegal.1
  rw [read, hallowed, ofTokens_write hkept hne hroom]
  exact Graph.value_of_shows hplain (shows_graph_ofValue hkept)

end Yaml
end Runbook
