import Runbook.Proofs.Value.Writable
import Runbook.Run.Step
import Runbook.Seed
import Runbook.Source

/-!
# Parameters filled from defaults

Before any step of a workflow runs, its parameters can mention the declared defaults alone. Whether
their placeholders can be replaced is a matter of the values that the paths lead to, and of the room
that the stack has. A default can be any value of a document, those without text included, and nest
deeper than the document, whose parts may be shared.

* `hasDefault_of_mem_seedVariables`: the variables at the start are declared defaults;
* `fits_of_depth_le`: where the stack has room for bounded nesting;
* `returns_substituteTable_seed`: the steps whose parameters are filled;
* `not_returns_dated_key`: a default with a date as a key is accepted, and has no text.
-/

namespace Runbook

/-! ### Parts that paths lead to -/

namespace Value

theorem isUnwritable_ofFields {fields : List (String × Value)} :
    (ofFields fields).IsUnwritable ↔ ∃ e ∈ fields, e.2.IsUnwritable := by
  rw [ofFields, isUnwritable_mapping]
  constructor
  · rintro ⟨_, hentry, hun⟩
    obtain ⟨e, he, rfl⟩ := List.mem_map.1 hentry
    exact ⟨e, he, hun.resolve_left not_false⟩
  · rintro ⟨e, he, hun⟩
    exact ⟨_, List.mem_map.2 ⟨e, he, rfl⟩, .inr hun⟩

/-- A path into a value that can be part of JSON text leads to no value without text. -/
theorem not_leadsToTextless {tree : Value} (h : ¬ tree.IsUnwritable) (path : String) :
    ¬ tree.LeadsToTextless path := by
  rintro ⟨v, hv, htext⟩
  have hpart : ¬ v.IsUnwritable :=
    follow_inherits (p := fun v => ¬ v.IsUnwritable) (fun he h hun => h (.member he hun)) h hv
  exact hpart htext.isUnwritable

/-! ### Room -/

section Room

variable [Stack] {tree : Value}

/-- A path leads to nothing that nests deeper. -/
theorem depth_le_of_resolve {path : String} {w : Value} (h : tree.resolve path = some w) :
    w.depth ≤ tree.depth := by
  refine follow_inherits (p := fun v => v.depth ≤ tree.depth) (fun he h => ?_) (Nat.le_refl _) h
  exact (depth_le_entriesDepth he).trans ((Nat.le_succ _).trans h)

variable {m : Nat}

mutual

/-- **The stack has room for bounded nesting**: for a value that nests no deeper than a bound, if it
can be walked so deep, and if at each level there is room for all of the tree. -/
theorem fits_of_depth_le (hm : m ≤ Stack.walk) (htext : ∀ k ≤ m, tree.depth ≤ Stack.text k)
    (k : Nat) : (v : Value) → k + v.depth ≤ m → tree.fits k v = true
  | scalar s, h => by
    have hk : k ≤ m := (Nat.le_add_right _ _).trans h
    rw [fits]
    split
    · rw [List.all_eq_true]
      rintro (c | inside) -
      · rfl
      · rw [Placeholder.Piece.fits]
        split
        · next w hw => exact decide_eq_true ((depth_le_of_resolve hw).trans (htext k hk))
        · rfl
    · rfl
  | list items, h => by
    rw [depth] at h
    rw [fits, Bool.and_eq_true, decide_eq_true_eq]
    exact ⟨by omega, itemsFit_of_depth_le hm htext (k + 1) items (by omega)⟩
  | mapping entries, h => by
    rw [depth] at h
    rw [fits, Bool.and_eq_true, decide_eq_true_eq]
    exact ⟨by omega, entriesFit_of_depth_le hm htext (k + 1) entries (by omega)⟩
  | set _, _ => rfl
  | pair _ _, _ => rfl
  | endless _, _ => rfl

theorem itemsFit_of_depth_le (hm : m ≤ Stack.walk) (htext : ∀ k ≤ m, tree.depth ≤ Stack.text k)
    (k : Nat) : (items : List Value) → k + itemsDepth items ≤ m → itemsFit tree k items = true
  | [], _ => rfl
  | v :: r, h => by
    rw [itemsDepth] at h
    rw [itemsFit, Bool.and_eq_true]
    exact ⟨fits_of_depth_le hm htext k v (by omega), itemsFit_of_depth_le hm htext k r (by omega)⟩

theorem entriesFit_of_depth_le (hm : m ≤ Stack.walk) (htext : ∀ k ≤ m, tree.depth ≤ Stack.text k)
    (k : Nat) : (entries : List (Scalar × Value)) → k + entriesDepth entries ≤ m →
      entriesFit tree k entries = true
  | [], _ => rfl
  | (_, v) :: r, h => by
    rw [entriesDepth] at h
    rw [entriesFit, Bool.and_eq_true]
    exact ⟨fits_of_depth_le hm htext k v (by omega), entriesFit_of_depth_le hm htext k r (by omega)⟩

end

end Room

end Value

/-! ### Variables at the start -/

/-- Whether a value is the default of a declared variable. -/
def Definition.HasDefault (d : Definition) (v : Value) : Prop :=
  ∃ e ∈ d.declared, e.2.default = some v

/-- Without variables supplied, a run starts with defaults alone. -/
theorem hasDefault_of_mem_seedVariables {d : Definition} {e : String × Value}
    (h : e ∈ seedVariables d [] []) : d.HasDefault e.2 := by
  rcases mem_of_mem_seedVariables h with hnone | hnone | h
  · cases hnone
  · cases hnone
  · exact h

namespace Context

/-- Defaults that can be part of JSON text make a tree that can. -/
theorem not_isUnwritable_seed {d : Definition} (h : ∀ v, d.HasDefault v → ¬ v.IsUnwritable) :
    ¬ (empty.seed d []).tree.IsUnwritable := by
  rw [tree, Value.isUnwritable_ofFields]
  simp only [List.mem_cons, List.not_mem_nil, or_false, exists_eq_or_imp, exists_eq_left,
    Value.isUnwritable_ofFields]
  rintro (⟨e, he, hun⟩ | ⟨e, he, -⟩)
  · exact h e.2 (hasDefault_of_mem_seedVariables he) hun
  · cases he

variable [Stack]

/-- Whether a value can be filled: its placeholders can be replaced, and the stack has room. -/
structure CanFill (c : Context) (v : Value) : Prop where
  filled : c.tree.CanFill v
  fits : c.tree.fits 0 v = true

theorem returns_fill (c : Context) (v : Value) : Returns (c.fill v) ↔ c.CanFill v := by
  have hsubstitute : Returns (c.substitute v) ↔ c.tree.CanFill v :=
    Value.returns_substitute c.tree v
  unfold fill
  split
  · next hfits => exact hsubstitute.trans ⟨fun h => ⟨h, hfits⟩, CanFill.filled⟩
  · next hfits => exact iff_of_false (not_returns_error _) fun h => hfits h.fits

theorem returns_substituteTable (c : Context) (t : Table String Value) :
    Returns (c.substituteTable t) ↔ ∀ e ∈ t, c.CanFill e.2 := by
  induction t with
  | nil => exact iff_of_true (returns_ok _) nofun
  | cons e t ih =>
    rw [List.forall_mem_cons]
    exact returns_bind (c.returns_fill e.2) fun first => (returns_bind_ok _).trans ih

/-- The tree of the context at the start nests two levels deeper than the defaults. -/
theorem depth_tree_seed_le {d : Definition} {n : Nat} (h : ∀ v, d.HasDefault v → v.depth ≤ n) :
    (empty.seed d []).tree.depth ≤ n + 2 := by
  have hvars : (Value.ofFields (empty.seed d []).vars).depth ≤ n + 1 := by
    refine Nat.succ_le_succ (Value.entriesDepth_le fun e he => ?_)
    obtain ⟨x, hx, rfl⟩ := List.mem_map.1 he
    exact h x.2 (hasDefault_of_mem_seedVariables hx)
  refine Nat.succ_le_succ (Value.entriesDepth_le fun e he => ?_)
  obtain ⟨x, hx, rfl⟩ := List.mem_map.1 he
  simp only [List.mem_cons, List.not_mem_nil, or_false] at hx
  rcases hx with rfl | rfl
  · exact hvars
  · exact Nat.succ_le_succ (Nat.zero_le n)

end Context

namespace Definition

/-- **The steps whose parameters are filled from defaults.** With the defaults as the only
variables, a step is filled only if all placeholders of its parameters can be replaced and the stack
has room. The converse is stated for defaults that do not hold themselves, since paths do not go on
beyond that point. When all defaults can be part of JSON text, so can what any path leads to; if
moreover neither they nor the parameters nest deeper than the stack has room for, only parameters
that hold themselves are not filled. -/
theorem returns_substituteTable_seed [Stack] (d : Definition) :
    let c := Context.empty.seed d []
    (∀ s ∈ d.steps, Returns (c.substituteTable s.parameters) →
      ∀ e ∈ s.parameters, c.CanFill e.2) ∧
    ((∀ v, d.HasDefault v → ¬ v.IsBottomless) →
      ∀ s ∈ d.steps, (∀ e ∈ s.parameters, c.CanFill e.2) →
        Returns (c.substituteTable s.parameters)) ∧
    ∀ n m, m ≤ Stack.walk → (∀ k ≤ m, n + 2 ≤ Stack.text k) →
      (∀ v, d.HasDefault v → ¬ v.IsUnwritable ∧ v.depth ≤ n) →
      ∀ s ∈ d.steps, (∀ e ∈ s.parameters, ¬ e.2.IsBottomless ∧ e.2.depth ≤ m) →
        Returns (c.substituteTable s.parameters) := by
  intro c
  refine ⟨fun s _ h => (c.returns_substituteTable s.parameters).1 h,
    fun _ s _ h => (c.returns_substituteTable s.parameters).2 h, fun n m hm htext hd s _ h => ?_⟩
  apply (c.returns_substituteTable s.parameters).2
  intro e he
  have htree : ¬ c.tree.IsUnwritable := Context.not_isUnwritable_seed fun v hv => (hd v hv).1
  have hdepth : c.tree.depth ≤ n + 2 := Context.depth_tree_seed_le fun v hv => (hd v hv).2
  obtain ⟨hgrounded, hshallow⟩ := h e he
  exact ⟨⟨hgrounded, fun path _ => Value.not_leadsToTextless htree path⟩,
    Value.fits_of_depth_le hm (fun k hk => hdepth.trans (htext k hk)) 0 e.2 (by omega)⟩

/-- A workflow with a date, a set of dates and a mapping from a truth value as defaults, and a step
that mentions them all. -/
def Sample.dated : Definition :=
  ⟨"dated", "Dates", none,
    some [("day", ⟨"A day", .object, some (.scalar (.date ⟨2024, 1, 31⟩)), none⟩),
      ("days", ⟨"Days", .object, some (.set [.date ⟨2024, 2, 29⟩]), none⟩),
      ("flags", ⟨"Flags", .object, some (.mapping [(.bool true, .null)]), none⟩)],
    [⟨"only", "Only", "make",
      [("p", .str "$\x7bvariables.day\x7d $\x7bvariables.days\x7d $\x7bvariables\x7d")],
      none, none, none⟩]⟩

/-- No default of the sample holds itself or a part without text, nor nests deep, so its step is
filled. -/
theorem returns_substituteTable_seed_sample :
    (∀ v, Sample.dated.HasDefault v → ¬ v.IsBottomless ∧ ¬ v.IsUnwritable ∧ v.depth ≤ 4) ∧
      ∀ s ∈ Sample.dated.steps,
        (∀ e ∈ s.parameters, ¬ e.2.IsBottomless ∧ e.2.depth ≤ 0) ∧
        (∀ e ∈ s.parameters, (Context.empty.seed Sample.dated []).CanFill e.2) ∧
        Returns ((Context.empty.seed Sample.dated []).substituteTable s.parameters) := by
  have hdefaults : ∀ v, Sample.dated.HasDefault v →
      ¬ v.IsBottomless ∧ ¬ v.IsUnwritable ∧ v.depth ≤ 4 := by
    rintro v ⟨e, he, hv⟩
    simp only [Sample.dated, declared, Option.getD_some, List.mem_cons, List.not_mem_nil,
      or_false] at he
    rcases he with rfl | rfl | rfl <;> cases hv
    · refine ⟨?_, Value.isUnwritable_scalar.not.2 not_false, by decide⟩
      rintro ⟨⟩
    · refine ⟨?_, Value.isUnwritable_set.not.2 (by simp [Scalar.IsLong]), by decide⟩
      rintro ⟨⟩
    · refine ⟨?_, Value.isUnwritable_mapping.not.2 ?_, by decide⟩
      · rintro (_ | _ | ⟨hmem, h⟩)
        cases List.mem_singleton.1 hmem
        cases h
      · simp [Scalar.IsUnwritableKey, Scalar.IsLong, Value.isUnwritable_scalar]
  have hgrounded : ∀ s ∈ Sample.dated.steps, ∀ e ∈ s.parameters,
      ¬ e.2.IsBottomless ∧ e.2.depth ≤ 0 := by
    simp only [Sample.dated, List.mem_singleton, forall_eq]
    refine ⟨?_, by decide⟩
    rintro ⟨⟩
  obtain ⟨hfill, hreturns, htextual⟩ := returns_substituteTable_seed Sample.dated
  refine ⟨hdefaults, fun s hs => ?_⟩
  have hcan : ∀ e ∈ s.parameters, (Context.empty.seed Sample.dated []).CanFill e.2 := by
    refine hfill s hs (htextual 4 0 (Nat.zero_le _) (fun k hk => ?_) (fun v hv => ?_) s hs
      (hgrounded s hs))
    · obtain rfl := Nat.le_zero.1 hk
      decide
    · exact (hdefaults v hv).2
  exact ⟨hgrounded s hs, hcan, hreturns (fun v hv => (hdefaults v hv).1) s hs hcan⟩

/-- The text of a workflow whose variable has a mapping from a date as default. -/
def Sample.datedKey : String :=
  "name: wf\ndescription: d\nvariables:\n  v: \x7bdescription: d, type: object, default: " ++
    "\x7b2024-01-01: 1\x7d\x7d\nsteps:\n- \x7bid: s, name: n, tool: t, parameters: " ++
    "\x7bp: \"$\x7bvariables.v\x7d\"\x7d\x7d\n"

set_option maxRecDepth 10000 in
/-- **A default with a date as a key** is accepted, and the step that mentions it is not filled. -/
theorem not_returns_dated_key : ∃ d, ofText yamlFormat Sample.datedKey = .ok d ∧
    ∃ s ∈ d.steps, ¬ Returns ((Context.empty.seed d []).substituteTable s.parameters) := by
  have h : ((ofText yamlFormat Sample.datedKey).toOption.any fun d => d.steps.any fun s =>
      !((Context.empty.seed d []).substituteTable s.parameters).toBool) = true := by
    decide +kernel
  obtain ⟨d, hd, h⟩ := exists_ok_of_any h
  obtain ⟨s, hs, h⟩ := List.any_eq_true.1 h
  exact ⟨d, hd, s, hs, not_returns_of_toBool h⟩

end Definition
end Runbook
