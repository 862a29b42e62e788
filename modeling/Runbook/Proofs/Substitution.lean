import Runbook.Proofs.Placeholder
import Runbook.Proofs.Value.Plain

/-!
# Substitution

What replacing the placeholders of a whole value leaves as it is and what it changes (`Filled`):
lists keep their items in order, mappings their keys, and the texts become what their cuts are woven
into.

* `substitute_eq_ok_iff`: substitution fills a value;
* `substitute_exact`: so it does in a context, and the cuts of the texts depend on nothing else;
* `substitute_ofPath`: a placeholder alone becomes the text of the value at its path.
-/

namespace Runbook

open Placeholder

namespace Value

/-- Whether a value has no text to look for placeholders in: it is neither a text nor a list or a
mapping. -/
def IsLeaf : Value → Prop
  | scalar s => s.text? = none
  | list _ | mapping _ | endless _ => False
  | set _ | pair _ _ => True

/-- Whether a value is what another one becomes in a tree. -/
inductive Filled (tree : Value) : Value → Value → Prop
  | text {s : Scalar} {t r : String} (hs : s.text? = some t) (h : Replaced tree t r) :
    Filled tree (scalar s) (str r)
  | leaf {v : Value} (h : v.IsLeaf) : Filled tree v v
  | list {items filled : List Value} (hlength : items.length = filled.length)
    (h : ∀ p ∈ items.zip filled, Filled tree p.1 p.2) : Filled tree (list items) (list filled)
  | mapping {entries filled : List (Scalar × Value)}
    (hkeys : entries.map Prod.fst = filled.map Prod.fst)
    (h : ∀ p ∈ entries.zip filled, Filled tree p.1.2 p.2.2) :
    Filled tree (mapping entries) (mapping filled)

theorem substitute_text {s : Scalar} {t : String} (hs : s.text? = some t) (tree : Value) :
    substitute tree (scalar s) = (substituteText tree t).map str := by
  rw [substitute, hs]

theorem substitute_str (tree : Value) (s : String) :
    substitute tree (str s) = (substituteText tree s).map str :=
  substitute_text rfl tree

theorem substitute_leaf {v : Value} (h : v.IsLeaf) (tree : Value) :
    substitute tree v = .ok v := by
  cases v with
  | scalar s =>
    rw [IsLeaf] at h
    rw [substitute, h]
  | list items => exact h.elim
  | mapping entries => exact h.elim
  | set members => rfl
  | pair first second => rfl
  | endless isMapping => exact h.elim

theorem filled_leaf_iff {tree v w : Value} (h : v.IsLeaf) : Filled tree v w ↔ v = w := by
  constructor
  · intro hf
    cases hf with
    | leaf _ => rfl
    | text hs _ => cases hs.symm.trans h
    | list _ _ => exact h.elim
    | mapping _ _ => exact h.elim
  · rintro rfl
    exact .leaf h

theorem substitute_leaf_eq_ok_iff {tree v w : Value} (h : v.IsLeaf) :
    substitute tree v = .ok w ↔ Filled tree v w := by
  rw [substitute_leaf h, Except.ok.injEq, filled_leaf_iff h]

mutual

/-- **Substitution fills a value.** -/
theorem substitute_eq_ok_iff (tree : Value) :
    (v w : Value) → (substitute tree v = .ok w ↔ Filled tree v w)
  | .scalar s, w => by
    cases hs : s.text? with
    | some t =>
      rw [substitute_text hs]
      constructor
      · intro h
        obtain ⟨r, hr, rfl⟩ := map_eq_ok h
        exact .text hs (substituteText_eq_ok_iff.1 hr)
      · intro h
        cases h with
        | text hs' h =>
          obtain rfl := Option.some.inj (hs.symm.trans hs')
          rw [substituteText_eq_ok_iff.2 h]
          rfl
        | leaf h => cases hs.symm.trans h
    | none => exact substitute_leaf_eq_ok_iff hs
  | .list items, w => by
    rw [substitute]
    constructor
    · intro h
      obtain ⟨filled, hfilled, rfl⟩ := map_eq_ok h
      obtain ⟨hlength, h⟩ := (substituteItems_eq_ok_iff tree items filled).1 hfilled
      exact .list hlength h
    · intro h
      cases h with
      | leaf h => exact h.elim
      | @list _ filled hlength h =>
        rw [(substituteItems_eq_ok_iff tree items filled).2 ⟨hlength, h⟩]
        rfl
  | .mapping entries, w => by
    rw [substitute]
    constructor
    · intro h
      obtain ⟨filled, hfilled, rfl⟩ := map_eq_ok h
      obtain ⟨hkeys, h⟩ := (substituteEntries_eq_ok_iff tree entries filled).1 hfilled
      exact .mapping hkeys h
    · intro h
      cases h with
      | leaf h => exact h.elim
      | @mapping _ filled hkeys h =>
        rw [(substituteEntries_eq_ok_iff tree entries filled).2 ⟨hkeys, h⟩]
        rfl
  | .set _, _ => substitute_leaf_eq_ok_iff trivial
  | .pair _ _, _ => substitute_leaf_eq_ok_iff trivial
  | .endless _, w => by
    rw [substitute]
    constructor
    · intro h
      cases h
    · intro h
      cases h with
      | leaf h => exact h.elim

/-- The same for items. -/
theorem substituteItems_eq_ok_iff (tree : Value) :
    (items filled : List Value) → (substituteItems tree items = .ok filled ↔
      items.length = filled.length ∧ ∀ p ∈ items.zip filled, Filled tree p.1 p.2)
  | [], filled => by
    rw [substituteItems, Except.ok.injEq]
    cases filled <;> simp
  | v :: r, filled => by
    rw [substituteItems]
    constructor
    · intro h
      obtain ⟨w, hw, h⟩ := bind_eq_ok h
      obtain ⟨ws, hws, h⟩ := bind_eq_ok h
      obtain rfl := Except.ok.inj h
      obtain ⟨hlength, hr⟩ := (substituteItems_eq_ok_iff tree r ws).1 hws
      exact ⟨congrArg Nat.succ hlength,
        List.forall_mem_cons.2 ⟨(substitute_eq_ok_iff tree v w).1 hw, hr⟩⟩
    · rintro ⟨hlength, h⟩
      cases filled with
      | nil => cases hlength
      | cons w ws =>
        obtain ⟨hv, hr⟩ := List.forall_mem_cons.1 h
        rw [(substitute_eq_ok_iff tree v w).2 hv,
          (substituteItems_eq_ok_iff tree r ws).2 ⟨Nat.succ.inj hlength, hr⟩]
        rfl

/-- The same for entries, whose keys stay as they are. -/
theorem substituteEntries_eq_ok_iff (tree : Value) :
    (entries filled : List (Scalar × Value)) → (substituteEntries tree entries = .ok filled ↔
      entries.map Prod.fst = filled.map Prod.fst ∧
        ∀ p ∈ entries.zip filled, Filled tree p.1.2 p.2.2)
  | [], filled => by
    rw [substituteEntries, Except.ok.injEq]
    cases filled <;> simp
  | (k, v) :: r, filled => by
    rw [substituteEntries]
    constructor
    · intro h
      obtain ⟨w, hw, h⟩ := bind_eq_ok h
      obtain ⟨ws, hws, h⟩ := bind_eq_ok h
      obtain rfl := Except.ok.inj h
      obtain ⟨hkeys, hr⟩ := (substituteEntries_eq_ok_iff tree r ws).1 hws
      exact ⟨congrArg (k :: ·) hkeys,
        List.forall_mem_cons.2 ⟨(substitute_eq_ok_iff tree v w).1 hw, hr⟩⟩
    · rintro ⟨hkeys, h⟩
      cases filled with
      | nil => cases hkeys
      | cons e ws =>
        obtain ⟨k', w⟩ := e
        obtain ⟨rfl, hrest⟩ := List.cons.inj hkeys
        obtain ⟨hv, hr⟩ := List.forall_mem_cons.1 h
        rw [(substitute_eq_ok_iff tree v w).2 hv,
          (substituteEntries_eq_ok_iff tree r ws).2 ⟨hrest, hr⟩]
        rfl

end

end Value

namespace Context

/-- A placeholder alone becomes the text of the value at its path, or nothing. -/
theorem substitute_ofPath (c : Context) {path : String} (h : IsPath path) :
    c.substitute (.str (ofPath path)) = (textAt c.tree path).map .str := by
  rw [substitute, Value.substitute_str, substituteText_ofPath c.tree h]

/-- **Substitution is a single pass from left to right.** It keeps the shape of a value and fills
its texts; every text has one cut at its placeholders, which does not depend on the context, and a
text without placeholders stays as it is. -/
theorem substitute_exact (c : Context) :
    (∀ v w, c.substitute v = .ok w ↔ Value.Filled c.tree v w) ∧
      (∀ s : String, ∃! cut : List (List Char × List Char) × List Char,
        Cut s.toList cut.1 cut.2) ∧
      ∀ s : String, (∀ v, v <:+ s.toList → ¬ Starts v) → c.substitute (.str s) = .ok (.str s) := by
  refine ⟨Value.substitute_eq_ok_iff c.tree, fun s => ?_, fun s h => ?_⟩
  · obtain ⟨parts, last, hcut⟩ := exists_cut s.toList
    refine ⟨(parts, last), hcut, fun cut h => ?_⟩
    obtain ⟨hparts, hlast⟩ := h.unique hcut
    exact Prod.ext hparts hlast
  · exact (Value.substitute_eq_ok_iff _ _ _).2 (.text rfl (replaced_self c.tree h))

/-- A value that looks like a placeholder, a path that leads nowhere and an empty pair of braces. -/
theorem substitute_exact_sample :
    let c : Context := ⟨[("a", .str "$\x7bvariables.b\x7d"), ("b", .int 1)], []⟩
    let v := Value.list [.str "x$\x7b variables.a \x7d$\x7b\x7d$\x7bvariables.c\x7d"]
    let w := Value.list [.str "x$\x7bvariables.b\x7d$\x7b\x7d"]
    (c.substitute v = .ok w ∧ Value.Filled c.tree v w) ∧
      (∀ v, v <:+ "$\x7b\x7d".toList → ¬ Starts v) ∧
      c.substitute (.str "$\x7b\x7d") = .ok (.str "$\x7b\x7d") := by
  intro c v w
  obtain ⟨hfilled, -, hplain⟩ := substitute_exact c
  have htext : substituteText c.tree "x$\x7b variables.a \x7d$\x7b\x7d$\x7bvariables.c\x7d" =
      .ok "x$\x7bvariables.b\x7d$\x7b\x7d" := by decide +kernel
  have hsub : c.substitute v = .ok w := by
    rw [substitute, Value.substitute, Value.substituteItems, Value.substitute_str, htext]
    rfl
  have hnone : ∀ v, v <:+ "$\x7b\x7d".toList → ¬ Starts v := by
    simp only [← List.mem_tails, ← opening?_eq_none_iff]
    decide
  exact ⟨⟨hsub, (hfilled v w).1 hsub⟩, hnone, hplain _ hnone⟩

end Context
end Runbook
