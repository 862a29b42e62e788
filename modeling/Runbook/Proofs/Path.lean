import Runbook.Context
import Runbook.Proofs.Schema.Document

/-!
# Paths

A path with a dot in it is followed in two parts, the second from where the first leads to
(`resolve_append_dot`). So a path to a variable leads to the value in the table of variables, and a
path into the output of a step to what the rest of the path leads to in that output.

* `IsPathOf`, `Reaches`: the keys that a path is made of, and what keys lead to;
* `resolve_exact`: where paths lead;
* `resolve_variable`, `resolve_output`: the two paths into a context.
-/

namespace Runbook

theorem pathKeys_append_dot (a b : String) :
    pathKeys (a ++ "." ++ b) = pathKeys a ++ pathKeys b := by
  have hlist : (a ++ "." ++ b).toList = a.toList ++ '.' :: b.toList := by simp
  rw [pathKeys, hlist, pieces_append_cons, List.map_append, ← pathKeys, ← pathKeys]

theorem pathKeys_of_not_mem {key : String} (h : '.' ∉ key.toList) : pathKeys key = [key] := by
  rw [pathKeys, pieces_of_not_mem h, List.map_singleton, String.ofList_toList]

/-- Whether a path is made of keys: they have no dots, and joined by dots they are the path. -/
structure IsPathOf (path : String) (keys : List String) : Prop where
  ne_nil : keys ≠ []
  noDot : ∀ key ∈ keys, '.' ∉ key.toList
  joined : ".".intercalate keys = path

/-- **The keys that a path names** are the only ones that it is made of. -/
theorem isPathOf_iff {path : String} {keys : List String} :
    IsPathOf path keys ↔ pathKeys path = keys := by
  have htexts (keys : List String) :
      (".".intercalate keys).toList = ['.'].intercalate (keys.map String.toList) :=
    String.toList_intercalate
  constructor
  · rintro ⟨hne, hdot, rfl⟩
    have hne : keys.map String.toList ≠ [] := mt List.map_eq_nil_iff.1 hne
    have hdot : ∀ t ∈ keys.map String.toList, '.' ∉ t := List.forall_mem_map.2 hdot
    rw [pathKeys, htexts, pieces_intercalate hne hdot, List.map_map]
    simp [Function.comp_def]
  · rintro rfl
    refine ⟨mt List.map_eq_nil_iff.1 (pieces_ne_nil _ _), fun key hkey => ?_, ?_⟩
    · obtain ⟨t, ht, rfl⟩ := List.mem_map.1 hkey
      rw [String.toList_ofList]
      exact notMem_of_mem_pieces ht
    · rw [← String.toList_inj, htexts, pathKeys, List.map_map]
      simpa [Function.comp_def] using intercalate_pieces '.' path.toList

theorem Table.get?_map {κ α β : Type} [BEq κ] (f : α → β) (t : Table κ α) (key : κ) :
    get? (t.map fun e => (e.1, f e.2)) key = (get? t key).map f := by
  induction t with
  | nil => rfl
  | cons e t ih =>
    rw [List.map_cons, get?, get?, ih]
    split <;> rfl

namespace Value

theorem follow_append (v : Value) (keys more : List String) :
    v.follow (keys ++ more) = (v.follow keys).bind fun w => w.follow more := by
  induction keys generalizing v with
  | nil => rfl
  | cons key keys ih =>
    rw [List.cons_append, follow, follow, Option.bind_assoc]
    exact congrArg _ (funext fun w => ih w)

/-- **A path with a dot is followed in two parts.** -/
theorem resolve_append_dot (v : Value) (a b : String) :
    v.resolve (a ++ "." ++ b) = (v.resolve a).bind fun w => w.resolve b := by
  rw [resolve, pathKeys_append_dot, follow_append]
  rfl

/-- A path without dots is a key. -/
theorem resolve_of_not_mem (v : Value) {key : String} (h : '.' ∉ key.toList) :
    v.resolve key = v.member? key := by
  rw [resolve, pathKeys_of_not_mem h, follow]
  cases v.member? key <;> rfl

/-! ### Where paths lead -/

/-- Whether a mapping of some entries has a member under a key: the first entry with the key. -/
def HasMember (entries : List (Scalar × Value)) (key : String) (v : Value) : Prop :=
  ∃ before after, entries = before ++ (.str key, v) :: after ∧ ∀ e ∈ before, e.1 ≠ .str key

theorem lookup_eq_some_iff {entries : List (Scalar × Value)} {key : String} {v : Value} :
    lookup entries key = some v ↔ HasMember entries key v := by
  have hfind : lookup entries key = (entries.find? (·.1 = .str key)).map Prod.snd := by
    induction entries with
    | nil => rfl
    | cons e r ih =>
      rw [lookup, List.find?_cons]
      by_cases hkey : e.1 = .str key <;> simp [hkey, ih]
  rw [hfind, Option.map_eq_some_iff]
  constructor
  · rintro ⟨⟨k, v⟩, he, rfl⟩
    obtain ⟨hkey, before, after, rfl, hbefore⟩ := List.find?_eq_some_iff_append.1 he
    obtain rfl : k = .str key := of_decide_eq_true hkey
    exact ⟨before, after, rfl, fun e he => by simpa using hbefore e he⟩
  · rintro ⟨before, after, rfl, hbefore⟩
    refine ⟨(.str key, v), List.find?_eq_some_iff_append.2 ⟨by simp, before, after, rfl, ?_⟩, rfl⟩
    exact fun e he => by simpa using hbefore e he

/-- What keys lead to from a value, one after the other through nested mappings. -/
inductive Reaches : Value → List String → Value → Prop
  | here (v : Value) : Reaches v [] v
  | member {entries : List (Scalar × Value)} {key : String} {keys : List String} {v w : Value}
    (h : HasMember entries key v) (hw : Reaches v keys w) :
    Reaches (mapping entries) (key :: keys) w

theorem follow_eq_some_iff {v w : Value} {keys : List String} :
    v.follow keys = some w ↔ v.Reaches keys w := by
  induction keys generalizing v with
  | nil =>
    constructor
    · rintro ⟨⟩
      exact .here _
    · rintro ⟨⟩
      rfl
  | cons key keys ih =>
    rw [follow, Option.bind_eq_some_iff]
    constructor
    · rintro ⟨u, hu, hw⟩
      cases v with
      | mapping entries => exact .member (lookup_eq_some_iff.1 hu) (ih.1 hw)
      | _ => cases hu
    · intro h
      cases h with
      | member hu hw => exact ⟨_, lookup_eq_some_iff.2 hu, ih.2 hw⟩

/-- A path leads to what its keys lead to. -/
theorem resolve_eq_some_iff {v w : Value} {path : String} :
    v.resolve path = some w ↔ ∃ keys, IsPathOf path keys ∧ v.Reaches keys w := by
  rw [resolve, follow_eq_some_iff]
  constructor
  · exact fun h => ⟨_, isPathOf_iff.2 rfl, h⟩
  · rintro ⟨keys, hkeys, h⟩
    rwa [isPathOf_iff.1 hkeys]

/-- **Where paths lead.** A path with a dot is followed in two parts, and leads nowhere if its first
part does. A path is made of keys in one way, and leads where these lead, one after the other,
through nested mappings. What keys without dots lead to, a null included, is found at the path that
joins them. -/
theorem resolve_exact (v : Value) :
    (∀ p q w, v.resolve p = some w → v.resolve (p ++ "." ++ q) = w.resolve q) ∧
      (∀ p q, v.resolve p = none → v.resolve (p ++ "." ++ q) = none) ∧
      (∀ path, ∃! keys, IsPathOf path keys) ∧
      (∀ path w, v.resolve path = some w ↔ ∃ keys, IsPathOf path keys ∧ v.Reaches keys w) ∧
      ∀ keys w, keys ≠ [] → (∀ key ∈ keys, '.' ∉ key.toList) → v.Reaches keys w →
        v.resolve (".".intercalate keys) = some w := by
  refine ⟨fun p q w h => ?_, fun p q h => ?_, fun path => ?_, fun path w => resolve_eq_some_iff,
    fun keys w hne hdot h => ?_⟩
  · rw [resolve_append_dot, h, Option.bind_some]
  · rw [resolve_append_dot, h, Option.bind_none]
  · exact ⟨pathKeys path, isPathOf_iff.2 rfl, fun keys h => (isPathOf_iff.1 h).symm⟩
  · exact resolve_eq_some_iff.2 ⟨keys, ⟨hne, hdot, rfl⟩, h⟩

/-- A path through an empty key to nothing at all, which is not the same as no value. -/
theorem resolve_exact_sample :
    let v := ofFields [("a", ofFields [("", ofFields [("b", null)])]), ("c", int 1)]
    v.resolve "a." = some (ofFields [("b", null)]) ∧ v.resolve ("a." ++ "." ++ "b") = some null ∧
      v.resolve "c.d" = none ∧ v.resolve ("c.d" ++ "." ++ "e") = none ∧
      v.Reaches ["a", "", "b"] null ∧ v.resolve (".".intercalate ["a", "", "b"]) = some null := by
  intro v
  obtain ⟨hsome, hnone, -, hleads, hjoined⟩ := resolve_exact v
  have hfirst : v.resolve "a." = some (ofFields [("b", null)]) := rfl
  have hstray : v.resolve "c.d" = none := rfl
  have hreaches : v.Reaches ["a", "", "b"] null :=
    .member ⟨[], _, rfl, by simp⟩ (.member ⟨[], _, rfl, by simp⟩ (.member ⟨[], _, rfl, by simp⟩
      (.here null)))
  exact ⟨hfirst, hsome _ "b" _ hfirst, hstray, hnone _ "e" hstray, hreaches,
    hjoined _ _ (by simp) (by decide) hreaches⟩

theorem member?_ofFields (fields : List (String × Value)) (key : String) :
    (ofFields fields).member? key = Table.get? fields key :=
  lookup_fields fields key

end Value

/-- The path of a variable. -/
def variablePath (x : String) : String := "variables." ++ x

/-- What stands before the rest of a path into the output of a step. -/
def outputStem (id : String) : String := "steps." ++ id ++ ".output."

/-- A path into the output of a step. -/
def outputPath (id path : String) : String := outputStem id ++ path

namespace Context

variable (c : Context)

/-- The path of a variable leads to its value. -/
theorem resolve_variable {x : String} (h : '.' ∉ x.toList) :
    c.tree.resolve (variablePath x) = c.vars.get? x := by
  have hpath : variablePath x = "variables" ++ "." ++ x := rfl
  rw [hpath, Value.resolve_append_dot, Value.resolve_of_not_mem _ (by decide)]
  show ((Value.ofFields c.vars).resolve x) = _
  rw [Value.resolve_of_not_mem _ h, Value.member?_ofFields]

/-- A path into the output of a step leads where its rest leads in the output. -/
theorem resolve_output {id : String} (h : '.' ∉ id.toList) (path : String) :
    c.tree.resolve (outputPath id path) =
      (c.steps.get? id).bind fun r => r.output.value.resolve path := by
  have hpath : outputPath id path = "steps" ++ "." ++ id ++ "." ++ "output" ++ "." ++ path := by
    simp [outputPath, outputStem, ← String.toList_inj]
  have hsteps : c.tree.resolve "steps" =
      some (.ofFields (c.steps.map fun e => (e.1, e.2.value))) := by
    rw [Value.resolve_of_not_mem _ (by decide)]
    rfl
  have houtput (r : Record) : r.value.resolve "output" = some r.output.value := by
    rw [Value.resolve_of_not_mem _ (by decide)]
    rfl
  rw [hpath, Value.resolve_append_dot, Value.resolve_append_dot, Value.resolve_append_dot, hsteps,
    Option.bind_some, Value.resolve_of_not_mem _ h, Value.member?_ofFields, Table.get?_map]
  cases c.steps.get? id with
  | none => rfl
  | some r => simp [houtput]

end Context
end Runbook
