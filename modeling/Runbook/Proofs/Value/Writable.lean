import Runbook.Proofs.Fault
import Runbook.Proofs.Substitution
import Runbook.Proofs.Value.Part

/-!
# Values without text

A collection becomes JSON text in a placeholder, and any value can be part of it: what JSON lacks is
displayed. Yet some parts have no text, and then the whole collection has none: an integer of more
than `numeralLimit` digits, a key that is a date, a moment or bytes, and the point at which a
collection holds itself. The text of a parameter in a plan lacks even more: there nothing is
displayed, and what JSON lacks is refused.

* `Style.Lacks.returns_text`: the values that have a text in a style, given the parts without one;
* `returns_text`, `returns_stringify`: the values that have a text in a placeholder;
* `returns_spacedText`: the values that have one in a plan;
* `returns_substitute`: the values whose placeholders can be replaced.
-/

namespace Runbook

/-! ### Computations that return -/

/-- Whether a computation returns. -/
def Returns {α : Type} (x : Except Fault α) : Prop := ∃ a, x = .ok a

section Returns

variable {α β γ : Type} {x : Except Fault α} {p q : Prop}

theorem returns_ok (a : α) : Returns (.ok a : Except Fault α) := ⟨a, rfl⟩

theorem not_returns_error (f : Fault) : ¬ Returns (.error f : Except Fault α) := by
  rintro ⟨a, ha⟩
  cases ha

theorem FailsIff.returns_iff {f : Fault} (h : FailsIff x f p) : Returns x ↔ ¬ p := by
  constructor
  · rintro ⟨a, ha⟩ hp
    rw [h.1 hp] at ha
    cases ha
  · exact h.2

/-- Two computations in a row return when both do. -/
theorem returns_bind {g : α → Except Fault β} (hx : Returns x ↔ p) (hg : ∀ a, Returns (g a) ↔ q) :
    Returns (x >>= g) ↔ p ∧ q := by
  cases x with
  | error f =>
    have hp : ¬ p := fun hp => not_returns_error f (hx.2 hp)
    exact iff_of_false (not_returns_error f) fun h => hp h.1
  | ok a =>
    have hp : p := hx.1 (returns_ok a)
    exact (hg a).trans (by simp [hp])

theorem returns_map (g : α → β) : Returns (x.map g) ↔ Returns x := by
  cases x with
  | error f => exact iff_of_false (not_returns_error f) (not_returns_error f)
  | ok a => exact iff_of_true (returns_ok _) (returns_ok a)

/-- A computation followed by one that always returns. -/
theorem returns_bind_ok (g : α → β) : Returns (x >>= fun a => .ok (g a)) ↔ Returns x := by
  cases x with
  | error f => exact iff_of_false (not_returns_error f) (not_returns_error f)
  | ok a => exact iff_of_true (returns_ok _) (returns_ok a)

theorem returns_mapM {g : α → Except Fault β} {l : List α} :
    Returns (l.mapM g) ↔ ∀ a ∈ l, Returns (g a) := by
  induction l with
  | nil => exact iff_of_true (returns_ok _) nofun
  | cons a r ih =>
    rw [List.mapM_cons, List.forall_mem_cons]
    exact returns_bind Iff.rfl fun first => (returns_bind_ok _).trans ih

theorem not_returns_of_toBool (h : (!x.toBool) = true) : ¬ Returns x := by
  rintro ⟨a, rfl⟩
  cases h

end Returns

/-- A computation that is seen to return something of a kind. -/
theorem exists_ok_of_any {ε α : Type} {x : Except ε α} {p : α → Bool}
    (h : x.toOption.any p = true) : ∃ a, x = .ok a ∧ p a = true := by
  cases x with
  | error e => cases h
  | ok a => exact ⟨a, rfl, h⟩

/-! ### Parts without text -/

/-- Whether a scalar is an integer of more than `numeralLimit` digits. -/
def Scalar.IsLong : Scalar → Prop
  | int n => pow10 numeralLimit ≤ n.natAbs
  | _ => False

/-- Whether a scalar cannot be a key of JSON text. -/
def Scalar.IsUnwritableKey : Scalar → Prop
  | date _ | moment _ | bytes _ => True
  | s => s.IsLong

theorem Scalar.IsLong.isUnwritableKey {s : Scalar} (h : s.IsLong) : s.IsUnwritableKey := by
  cases s with
  | int n => exact h
  | _ => exact h.elim

namespace Value

/-- Whether a value cannot be part of JSON text. -/
inductive IsUnwritable : Value → Prop
  | scalar {s : Scalar} (h : s.IsLong) : IsUnwritable (scalar s)
  | item {items : List Value} {v : Value} (hv : v ∈ items) (h : IsUnwritable v) :
    IsUnwritable (list items)
  | key {entries : List (Scalar × Value)} {e : Scalar × Value} (he : e ∈ entries)
    (h : e.1.IsUnwritableKey) : IsUnwritable (mapping entries)
  | member {entries : List (Scalar × Value)} {e : Scalar × Value} (he : e ∈ entries)
    (h : IsUnwritable e.2) : IsUnwritable (mapping entries)
  | element {members : List Scalar} {s : Scalar} (hs : s ∈ members) (h : s.IsLong) :
    IsUnwritable (set members)
  | first {a b : Value} (h : IsUnwritable a) : IsUnwritable (pair a b)
  | second {a b : Value} (h : IsUnwritable b) : IsUnwritable (pair a b)
  | endless (isMapping : Bool) : IsUnwritable (endless isMapping)

section Iff

variable {s : Scalar} {items : List Value} {entries : List (Scalar × Value)}
  {members : List Scalar} {a b : Value}

theorem isUnwritable_scalar : (scalar s).IsUnwritable ↔ s.IsLong := by
  refine ⟨fun h => ?_, .scalar⟩
  cases h with
  | scalar h => exact h

theorem isUnwritable_list : (list items).IsUnwritable ↔ ∃ v ∈ items, v.IsUnwritable := by
  refine ⟨fun h => ?_, fun ⟨v, hv, h⟩ => .item hv h⟩
  cases h with
  | item hv h => exact ⟨_, hv, h⟩

theorem isUnwritable_mapping : (mapping entries).IsUnwritable ↔
    ∃ e ∈ entries, e.1.IsUnwritableKey ∨ e.2.IsUnwritable := by
  constructor
  · intro h
    cases h with
    | key he h => exact ⟨_, he, .inl h⟩
    | member he h => exact ⟨_, he, .inr h⟩
  · rintro ⟨e, he, h | h⟩
    · exact .key he h
    · exact .member he h

theorem isUnwritable_set : (set members).IsUnwritable ↔ ∃ s ∈ members, s.IsLong := by
  refine ⟨fun h => ?_, fun ⟨s, hs, h⟩ => .element hs h⟩
  cases h with
  | element hs h => exact ⟨_, hs, h⟩

theorem isUnwritable_pair : (pair a b).IsUnwritable ↔ a.IsUnwritable ∨ b.IsUnwritable := by
  constructor
  · intro h
    cases h with
    | first h => exact .inl h
    | second h => exact .inr h
  · rintro (h | h)
    · exact .first h
    · exact .second h

end Iff

end Value

/-! ### JSON text -/

theorem Scalar.exceeds_iff (s : Scalar) : s.exceeds numeralLimit = true ↔ s.IsLong := by
  cases s with
  | int n =>
    rw [exceeds, decide_eq_true_eq, IsLong, ← Nat.not_le, digitCount,
      Json.length_toDigits_le_iff (by decide), Nat.not_lt]
  | _ => simp [exceeds, IsLong]

theorem Value.returns_displayWithin (v : Value) :
    Returns (v.displayWithin (some numeralLimit)) ↔ ¬ v.exceeds numeralLimit = true := by
  rw [displayWithin, Option.any_some]
  split
  · next h => exact iff_of_false (not_returns_error _) (not_not_intro h)
  · next h => exact iff_of_true (returns_ok _) h

namespace Json

theorem returns_scalarText (s : Scalar) : Returns (scalarText .compact s) ↔ ¬ s.IsLong := by
  cases s with
  | int n => exact (failsIff_intText n).returns_iff
  | _ => exact iff_of_true (returns_ok _) not_false

theorem returns_keyText (s : Scalar) : Returns (keyText .compact s) ↔ ¬ s.IsUnwritableKey := by
  cases s with
  | int n => exact returns_scalarText (.int n)
  | date d => exact iff_of_false (not_returns_error _) (not_not_intro trivial)
  | moment t => exact iff_of_false (not_returns_error _) (not_not_intro trivial)
  | bytes b => exact iff_of_false (not_returns_error _) (not_not_intro trivial)
  | _ => exact iff_of_true (returns_ok _) not_false

theorem returns_foreign_set (members : List Scalar) :
    Returns (foreign .compact (.set members)) ↔ ¬ (Value.set members).IsUnwritable := by
  have hexceeds : (Value.set members).exceeds numeralLimit = true ↔
      (Value.set members).IsUnwritable := by
    rw [Value.exceeds, List.any_eq_true, Value.isUnwritable_set]
    simp only [Scalar.exceeds_iff]
  rw [← hexceeds, ← Value.returns_displayWithin]
  exact returns_map _

/-- The values that lack a text in a style, told from their parts. -/
structure Style.Lacks (style : Style) (p : Value → Prop) : Prop where
  scalar : ∀ s, Returns (scalarText style s) ↔ ¬ p (.scalar s)
  key : ∀ s, Returns (keyText style s) ↔ ¬ s.IsUnwritableKey
  list : ∀ items, p (.list items) ↔ ∃ v ∈ items, p v
  mapping : ∀ entries, p (.mapping entries) ↔ ∃ e ∈ entries, e.1.IsUnwritableKey ∨ p e.2
  set : ∀ members, Returns (foreign style (.set members)) ↔ ¬ p (.set members)
  pair : ∀ a b, p (.pair a b) ↔ p a ∨ p b
  endless : ∀ isMapping, p (.endless isMapping)

section Lacks

variable {style : Style} {p : Value → Prop}

mutual

/-- **The values that have a text in a style.** -/
theorem Style.Lacks.returns_text (hp : style.Lacks p) :
    (v : Value) → (Returns (text style v) ↔ ¬ p v)
  | .scalar s => hp.scalar s
  | .list items => by
    rw [hp.list, text]
    refine (returns_bind_ok _).trans ((hp.returns_itemsText items).trans ?_)
    simp
  | .mapping entries => by
    rw [hp.mapping, text]
    refine (returns_bind_ok _).trans ((hp.returns_entriesText entries).trans ?_)
    simp
  | .set members => hp.set members
  | .pair a b => by
    rw [hp.pair, not_or, text]
    exact returns_bind (hp.returns_text a) fun first =>
      (returns_bind_ok _).trans (hp.returns_text b)
  | .endless isMapping => iff_of_false (not_returns_error _) (not_not_intro (hp.endless isMapping))

theorem Style.Lacks.returns_itemsText (hp : style.Lacks p) : (items : List Value) →
    (Returns (itemsText style items) ↔ ∀ v ∈ items, ¬ p v)
  | [] => iff_of_true (returns_ok _) (by simp)
  | [v] => by
    rw [List.forall_mem_singleton]
    exact hp.returns_text v
  | v :: w :: r => by
    rw [List.forall_mem_cons]
    exact returns_bind (hp.returns_text v) fun first =>
      (returns_bind_ok _).trans (hp.returns_itemsText (w :: r))

theorem Style.Lacks.returns_entriesText (hp : style.Lacks p) : (entries : List (Scalar × Value)) →
    (Returns (entriesText style entries) ↔ ∀ e ∈ entries, ¬ e.1.IsUnwritableKey ∧ ¬ p e.2)
  | [] => iff_of_true (returns_ok _) (by simp)
  | [(k, v)] => by
    rw [List.forall_mem_singleton]
    exact returns_bind (hp.key k) fun key => (returns_bind_ok _).trans (hp.returns_text v)
  | (k, v) :: e :: r => by
    rw [List.forall_mem_cons, and_assoc]
    exact returns_bind (hp.key k) fun key => returns_bind (hp.returns_text v) fun value =>
      (returns_bind_ok _).trans (hp.returns_entriesText (e :: r))

end

end Lacks

/-- The values that can be part of the text of a collection in a placeholder. -/
theorem returns_text (v : Value) : Returns (text .compact v) ↔ ¬ v.IsUnwritable := by
  have hlacks : Style.compact.Lacks Value.IsUnwritable :=
    { scalar := fun s => (returns_scalarText s).trans (not_congr Value.isUnwritable_scalar.symm)
      key := returns_keyText
      list := fun _ => Value.isUnwritable_list
      mapping := fun _ => Value.isUnwritable_mapping
      set := returns_foreign_set
      pair := fun _ _ => Value.isUnwritable_pair
      endless := .endless }
  exact hlacks.returns_text v

end Json

/-! ### Text in plans -/

namespace Value

/-- Whether the text of a parameter in a plan cannot have a value as part, whatever the value holds:
an integer of more than `numeralLimit` digits, a mapping with a key that JSON lacks, the point at
which a collection holds itself, and all that is not of JSON but pairs. -/
def IsRefused : Value → Prop
  | scalar s => s.IsLong ∨ s.IsForeign
  | mapping entries => ∃ e ∈ entries, e.1.IsUnwritableKey
  | set _ | endless _ => True
  | list _ | pair _ _ => False

/-- Whether a value has no text in a plan: something refused is part of it. -/
def IsUnprintable (v : Value) : Prop :=
  ∃ w, v.HasPart w ∧ w.IsRefused

section Iff

variable {s : Scalar} {items : List Value} {entries : List (Scalar × Value)}
  {members : List Scalar} {a b v w : Value}

theorem IsUnprintable.of_hasPart (h : v.HasPart w) (hw : w.IsUnprintable) : v.IsUnprintable := by
  obtain ⟨u, hu, hrefused⟩ := hw
  exact ⟨u, h.trans hu, hrefused⟩

theorem isUnprintable_scalar : (scalar s).IsUnprintable ↔ s.IsLong ∨ s.IsForeign := by
  constructor
  · rintro ⟨w, hw, h⟩
    cases hw
    exact h
  · exact fun h => ⟨_, .self _, h⟩

theorem isUnprintable_list : (list items).IsUnprintable ↔ ∃ v ∈ items, v.IsUnprintable := by
  constructor
  · rintro ⟨w, hw, h⟩
    cases hw with
    | self => exact h.elim
    | item hv hw => exact ⟨_, hv, w, hw, h⟩
  · rintro ⟨v, hv, h⟩
    exact .of_hasPart (.item hv (.self v)) h

theorem isUnprintable_mapping : (mapping entries).IsUnprintable ↔
    ∃ e ∈ entries, e.1.IsUnwritableKey ∨ e.2.IsUnprintable := by
  constructor
  · rintro ⟨w, hw, h⟩
    cases hw with
    | self =>
      obtain ⟨e, he, h⟩ := h
      exact ⟨e, he, .inl h⟩
    | member he hw => exact ⟨_, he, .inr ⟨w, hw, h⟩⟩
  · rintro ⟨e, he, h | h⟩
    · exact ⟨_, .self _, e, he, h⟩
    · exact .of_hasPart (.member he (.self e.2)) h

theorem isUnprintable_pair : (pair a b).IsUnprintable ↔ a.IsUnprintable ∨ b.IsUnprintable := by
  constructor
  · rintro ⟨w, hw, h⟩
    cases hw with
    | self => exact h.elim
    | first hw => exact .inl ⟨w, hw, h⟩
    | second hw => exact .inr ⟨w, hw, h⟩
  · rintro (h | h)
    · exact .of_hasPart (.first (.self a)) h
    · exact .of_hasPart (.second (.self b)) h

theorem isUnprintable_of_isRefused (h : v.IsRefused) : v.IsUnprintable :=
  ⟨v, .self v, h⟩

end Iff

/-- What cannot be part of the text of a placeholder cannot be part of one in a plan either. -/
theorem IsUnwritable.isUnprintable {v : Value} (h : v.IsUnwritable) : v.IsUnprintable := by
  induction h with
  | scalar h => exact isUnprintable_scalar.2 (.inl h)
  | item hv _ ih => exact isUnprintable_list.2 ⟨_, hv, ih⟩
  | key he h => exact isUnprintable_mapping.2 ⟨_, he, .inl h⟩
  | member he _ ih => exact isUnprintable_mapping.2 ⟨_, he, .inr ih⟩
  | element _ _ => exact isUnprintable_of_isRefused trivial
  | first _ ih => exact isUnprintable_pair.2 (.inl ih)
  | second _ ih => exact isUnprintable_pair.2 (.inr ih)
  | endless _ => exact isUnprintable_of_isRefused trivial

end Value

namespace Json

/-- Scalars of JSON are written alike in plans and in placeholders; others are refused. -/
theorem returns_spacedScalarText (s : Scalar) :
    Returns (scalarText .spaced s) ↔ ¬ (Value.scalar s).IsUnprintable := by
  rw [Value.isUnprintable_scalar]
  cases s with
  | date d => exact iff_of_false (not_returns_error _) (not_not_intro (.inr trivial))
  | moment t => exact iff_of_false (not_returns_error _) (not_not_intro (.inr trivial))
  | bytes b => exact iff_of_false (not_returns_error _) (not_not_intro (.inr trivial))
  | int n => exact (returns_scalarText (.int n)).trans (by simp [Scalar.IsForeign])
  | _ => exact iff_of_true (returns_ok _) (by simp [Scalar.IsLong, Scalar.IsForeign])

/-- **The values that have a text in a plan.** -/
theorem returns_spacedText (v : Value) : Returns (text .spaced v) ↔ ¬ v.IsUnprintable := by
  have hkey : ∀ s, keyText .spaced s = keyText .compact s := by
    intro s
    cases s <;> rfl
  have hlacks : Style.spaced.Lacks Value.IsUnprintable :=
    { scalar := returns_spacedScalarText
      key := fun s => hkey s ▸ returns_keyText s
      list := fun _ => Value.isUnprintable_list
      mapping := fun _ => Value.isUnprintable_mapping
      set := fun _ => iff_of_false (not_returns_error _)
        (not_not_intro (Value.isUnprintable_of_isRefused trivial))
      pair := fun _ _ => Value.isUnprintable_pair
      endless := fun _ => Value.isUnprintable_of_isRefused trivial }
  exact hlacks.returns_text v

end Json

/-! ### Text -/

namespace Value

/-- Whether a value has no text. A scalar on its own has one; a pair is displayed, which dates as
keys and collections that hold themselves do not prevent. -/
def LacksText : Value → Prop
  | scalar _ => False
  | pair a b => (pair a b).exceeds numeralLimit = true
  | v => v.IsUnwritable

theorem returns_stringify (v : Value) : Returns v.stringify ↔ ¬ v.LacksText := by
  cases v with
  | scalar s => cases s <;> exact iff_of_true (returns_ok _) not_false
  | list items => exact Json.returns_text (list items)
  | mapping entries => exact Json.returns_text (mapping entries)
  | set members => exact (returns_map _).symm.trans (Json.returns_foreign_set members)
  | pair a b => exact returns_displayWithin (pair a b)
  | endless isMapping => exact Json.returns_text (endless isMapping)

mutual

theorem isUnwritable_of_exceeds : (v : Value) → v.exceeds numeralLimit = true → v.IsUnwritable
  | scalar s, h => .scalar (s.exceeds_iff.1 h)
  | list items, h => isUnwritable_list.2 (exists_of_itemsExceed items h)
  | mapping entries, h => isUnwritable_mapping.2 (exists_of_entriesExceed entries h)
  | set members, h => by
    obtain ⟨s, hs, h⟩ := List.any_eq_true.1 h
    exact .element hs (s.exceeds_iff.1 h)
  | pair a b, h => by
    rcases Bool.or_eq_true_iff.1 h with h | h
    · exact .first (isUnwritable_of_exceeds a h)
    · exact .second (isUnwritable_of_exceeds b h)
  | endless isMapping, _ => .endless isMapping

theorem exists_of_itemsExceed : (items : List Value) → itemsExceed numeralLimit items = true →
    ∃ v ∈ items, v.IsUnwritable
  | [], h => absurd h Bool.false_ne_true
  | v :: r, h => by
    rw [List.exists_mem_cons_iff]
    exact (Bool.or_eq_true_iff.1 h).imp (isUnwritable_of_exceeds v) (exists_of_itemsExceed r)

theorem exists_of_entriesExceed : (entries : List (Scalar × Value)) →
    entriesExceed numeralLimit entries = true →
      ∃ e ∈ entries, e.1.IsUnwritableKey ∨ e.2.IsUnwritable
  | [], h => absurd h Bool.false_ne_true
  | (k, v) :: r, h => by
    rw [List.exists_mem_cons_iff]
    rcases Bool.or_eq_true_iff.1 h with h | h
    · refine .inl ((Bool.or_eq_true_iff.1 h).imp (fun hk => ?_) (isUnwritable_of_exceeds v))
      exact (k.exceeds_iff.1 hk).isUnwritableKey
    · exact .inr (exists_of_entriesExceed r h)

end

/-- A value without text cannot be part of JSON text. -/
theorem LacksText.isUnwritable {v : Value} (h : v.LacksText) : v.IsUnwritable := by
  cases v with
  | scalar s => exact h.elim
  | pair a b => exact isUnwritable_of_exceeds _ h
  | list items => exact h
  | mapping entries => exact h
  | set members => exact h
  | endless isMapping => exact h

/-! ### Placeholders -/

/-- Whether a path leads to a value without text. -/
def LeadsToTextless (tree : Value) (path : String) : Prop :=
  ∃ v, tree.resolve path = some v ∧ v.LacksText

/-- Whether a value holds itself in a list or a mapping. -/
inductive IsBottomless : Value → Prop
  | endless (isMapping : Bool) : IsBottomless (endless isMapping)
  | item {items : List Value} {v : Value} (hv : v ∈ items) (h : IsBottomless v) :
    IsBottomless (list items)
  | member {entries : List (Scalar × Value)} {e : Scalar × Value} (he : e ∈ entries)
    (h : IsBottomless e.2) : IsBottomless (mapping entries)

/-- Whether all placeholders of a value can be replaced: it does not hold itself, and none of its
placeholders leads to a value without text. -/
structure CanFill (tree v : Value) : Prop where
  grounded : ¬ v.IsBottomless
  textual : ∀ path, v.Mentions path → ¬ tree.LeadsToTextless path

section Fill

variable {tree : Value}

theorem canFill_text {s : Scalar} {t : String} (hs : s.text? = some t) : CanFill tree (scalar s) ↔
    ∀ inside, .path inside ∈ Placeholder.pieces t.toList →
      ¬ tree.LeadsToTextless (String.ofList (trimBy isBlank inside)) := by
  constructor
  · intro h inside hinside
    exact h.textual _ (.text hs hinside)
  · refine fun h => ⟨nofun, fun path hpath => ?_⟩
    cases hpath with
    | text hs' hinside =>
      obtain rfl := Option.some.inj (hs'.symm.trans hs)
      exact h _ hinside

theorem canFill_list {items : List Value} :
    CanFill tree (list items) ↔ ∀ v ∈ items, CanFill tree v := by
  constructor
  · intro h v hv
    exact ⟨fun hb => h.grounded (.item hv hb), fun path hpath => h.textual path (.item hv hpath)⟩
  · refine fun h => ⟨fun hb => ?_, fun path hpath => ?_⟩
    · cases hb with
      | item hv hb => exact (h _ hv).grounded hb
    · cases hpath with
      | item hv hpath => exact (h _ hv).textual path hpath

theorem canFill_mapping {entries : List (Scalar × Value)} :
    CanFill tree (mapping entries) ↔ ∀ e ∈ entries, CanFill tree e.2 := by
  constructor
  · intro h e he
    exact ⟨fun hb => h.grounded (.member he hb),
      fun path hpath => h.textual path (.member he hpath)⟩
  · refine fun h => ⟨fun hb => ?_, fun path hpath => ?_⟩
    · cases hb with
      | member he hb => exact (h _ he).grounded hb
    · cases hpath with
      | member he hpath => exact (h _ he).textual path hpath

theorem canFill_of_isLeaf {v : Value} (h : v.IsLeaf) : CanFill tree v := by
  refine ⟨fun hb => ?_, fun path hpath => ?_⟩
  · cases hb <;> exact h.elim
  · cases hpath with
    | text hs _ => cases hs.symm.trans h
    | item _ _ => exact h.elim
    | member _ _ => exact h.elim

end Fill

end Value

namespace Placeholder

theorem returns_pieceFill (tree : Value) (p : Piece) : Returns (p.fill tree) ↔
    ∀ inside, p = .path inside →
      ¬ tree.LeadsToTextless (String.ofList (trimBy isBlank inside)) := by
  cases p with
  | char c => exact iff_of_true (returns_ok _) nofun
  | path inside =>
    have hpath : Returns (Piece.fill tree (.path inside)) ↔
        ¬ tree.LeadsToTextless (String.ofList (trimBy isBlank inside)) := by
      simp only [Piece.fill, Value.LeadsToTextless]
      cases tree.resolve (String.ofList (trimBy isBlank inside)) with
      | some v => exact v.returns_stringify.trans (by simp)
      | none => exact iff_of_true (returns_ok _) (by simp)
    exact hpath.trans (by simp)

theorem returns_fill (tree : Value) (acc : String) (ps : List Piece) :
    Returns (fill tree acc ps) ↔ ∀ inside, .path inside ∈ ps →
      ¬ tree.LeadsToTextless (String.ofList (trimBy isBlank inside)) := by
  induction ps generalizing acc with
  | nil => exact iff_of_true (returns_ok _) nofun
  | cons p r ih =>
    refine (returns_bind (returns_pieceFill tree p) fun s => ih (acc ++ s)).trans ?_
    simp only [List.mem_cons, or_imp, forall_and, eq_comm]

end Placeholder

namespace Value

mutual

/-- **The values whose placeholders can be replaced.** -/
theorem returns_substitute (tree : Value) :
    (v : Value) → (Returns (substitute tree v) ↔ CanFill tree v)
  | scalar s => by
    rw [substitute]
    split
    · next t hs =>
      rw [canFill_text hs]
      exact (returns_map _).trans (Placeholder.returns_fill tree "" _)
    · next hs => exact iff_of_true (returns_ok _) (canFill_of_isLeaf hs)
  | list items => by
    rw [canFill_list]
    exact (returns_map _).trans (returns_substituteItems tree items)
  | mapping entries => by
    rw [canFill_mapping]
    exact (returns_map _).trans (returns_substituteEntries tree entries)
  | set members => iff_of_true (returns_ok _) (canFill_of_isLeaf trivial)
  | pair a b => iff_of_true (returns_ok _) (canFill_of_isLeaf trivial)
  | endless isMapping =>
    iff_of_false (not_returns_error _) fun h => h.grounded (.endless isMapping)

theorem returns_substituteItems (tree : Value) :
    (items : List Value) →
      (Returns (substituteItems tree items) ↔ ∀ v ∈ items, CanFill tree v)
  | [] => iff_of_true (returns_ok _) (by simp)
  | v :: r => by
    rw [List.forall_mem_cons]
    exact returns_bind (returns_substitute tree v) fun first =>
      (returns_bind_ok _).trans (returns_substituteItems tree r)

theorem returns_substituteEntries (tree : Value) :
    (entries : List (Scalar × Value)) →
      (Returns (substituteEntries tree entries) ↔ ∀ e ∈ entries, CanFill tree e.2)
  | [] => iff_of_true (returns_ok _) (by simp)
  | (k, v) :: r => by
    rw [List.forall_mem_cons]
    exact returns_bind (returns_substitute tree v) fun first =>
      (returns_bind_ok _).trans (returns_substituteEntries tree r)

end

end Value
end Runbook
