import Runbook.Condition
import Runbook.Placeholder
import Runbook.Proofs.Json.Value

/-!
# Faults of conditions and placeholders

When the evaluation of a condition or the replacement of placeholders fails in a tree of JSON
values:

* `failsIff_truth`: a path on its own fails when it leads to an integer beyond every binary64
  number;
* `failsIff_comparison`: a comparison of texts fails when an operand leads to a collection that an
  integer of more than `numeralLimit` digits is part of;
* `failsIff_substitute`: so does a placeholder;
* `failsAmong_judge`, `failsAmong_fill`: what the stack has no room for fails too.
-/

namespace Runbook

namespace Value

/-- Whether a path leads to a collection without text. -/
def LeadsToOverlong (tree : Value) (path : String) : Prop :=
  ∃ v, tree.resolve path = some v ∧ v.IsOverlong

/-- Whether a text of a value has a placeholder with a path. -/
inductive Mentions : Value → String → Prop
  | text {s : Scalar} {t : String} {inside : List Char} (hs : s.text? = some t)
    (h : .path inside ∈ Placeholder.pieces t.toList) :
    Mentions (scalar s) (String.ofList (trimBy isBlank inside))
  | item {items : List Value} {v : Value} {path : String} (hv : v ∈ items) (h : Mentions v path) :
    Mentions (list items) path
  | member {entries : List (Scalar × Value)} {e : Scalar × Value} {path : String}
    (he : e ∈ entries) (h : Mentions e.2 path) : Mentions (mapping entries) path

/-- Whether a placeholder of a value leads to a collection without text. -/
def MentionsOverlong (tree v : Value) : Prop :=
  ∃ path, v.Mentions path ∧ tree.LeadsToOverlong path

end Value

namespace Condition

/-- Whether a condition asks for the truth of an integer beyond every binary64 number. -/
def IsHuge (tree : Value) : Condition → Prop
  | truth path => ∃ v, tree.resolve path = some v ∧ v.IsHuge
  | comparison _ _ _ => False

/-- Whether a condition compares the text of a collection without text. -/
def IsOverlong (tree : Value) : Condition → Prop
  | truth _ => False
  | comparison left op right =>
    (op = .eq ∨ op = .ne) ∧ (tree.LeadsToOverlong left ∨ tree.LeadsToOverlong right)

/-- The value of an operand is one of JSON, and without text when its path leads to such a value. -/
theorem failsIff_operand {tree : Value} (h : tree.IsJson) (text : String) :
    FailsIff (operand tree text).stringify .tooLong (tree.LeadsToOverlong text) := by
  unfold operand Value.LeadsToOverlong
  cases hr : tree.resolve text with
  | some v => exact (Value.failsIff_stringify (h.resolve hr)).of_iff (by simp)
  | none =>
    cases parseNumber text with
    | some x => exact .ok (by simp)
    | none => exact .ok (by simp)

/-- **A path on its own** fails when it leads to an integer beyond every binary64 number. -/
theorem failsIff_truth (tree : Value) (path : String) :
    FailsIff (holds tree (truth path)) .tooLarge (IsHuge tree (truth path)) := by
  simp only [holds, IsHuge]
  cases tree.resolve path with
  | some v => exact (Value.failsIff_isTruthy v).of_iff (by simp)
  | none => exact .ok (by simp)

/-- **A comparison** fails when it compares the text of a collection without text. -/
theorem failsIff_comparison {tree : Value} (h : tree.IsJson) (left : String) (op : Comparator)
    (right : String) :
    FailsIff (holds tree (comparison left op right)) .tooLong
      (IsOverlong tree (comparison left op right)) := by
  have htexts (g : String → String → Bool) := (failsIff_operand h left).bind fun a =>
    (failsIff_operand h right).bind fun b => FailsIff.ok (a := g a b) not_false
  unfold holds IsOverlong compare
  cases op with
  | eq => exact (htexts fun a b => a = b).of_iff (by simp)
  | ne => exact (htexts fun a b => a ≠ b).of_iff (by simp)
  | ge => exact .ok (by simp)
  | le => exact .ok (by simp)
  | gt => exact .ok (by simp)
  | lt => exact .ok (by simp)

end Condition

/-! ### Placeholders -/

namespace Placeholder

theorem failsIff_pieceFill {tree : Value} (h : tree.IsJson) (p : Piece) :
    FailsIff (p.fill tree) .tooLong (∃ inside, p = .path inside ∧
      tree.LeadsToOverlong (String.ofList (trimBy isBlank inside))) := by
  cases p with
  | char c => exact .ok (by simp)
  | path inside =>
    have hpath : FailsIff (Piece.fill tree (.path inside)) .tooLong
        (tree.LeadsToOverlong (String.ofList (trimBy isBlank inside))) := by
      simp only [Piece.fill, Value.LeadsToOverlong]
      cases hr : tree.resolve (String.ofList (trimBy isBlank inside)) with
      | some v => exact (Value.failsIff_stringify (h.resolve hr)).of_iff (by simp)
      | none => exact .ok (by simp)
    exact hpath.of_iff (by simp)

theorem failsIff_fill {tree : Value} (h : tree.IsJson) (acc : String) (ps : List Piece) :
    FailsIff (fill tree acc ps) .tooLong (∃ inside, .path inside ∈ ps ∧
      tree.LeadsToOverlong (String.ofList (trimBy isBlank inside))) := by
  induction ps generalizing acc with
  | nil => exact .ok (by simp)
  | cons p r ih =>
    refine ((failsIff_pieceFill h p).bind fun s => ih (acc ++ s)).of_iff ?_
    simp only [List.mem_cons, or_and_right, exists_or, eq_comm]

end Placeholder

namespace Value

theorem failsIff_substituteText {tree : Value} (h : tree.IsJson) {s : Scalar} {t : String}
    (hs : s.text? = some t) :
    FailsIff (substituteText tree t) .tooLong (MentionsOverlong tree (scalar s)) := by
  refine (Placeholder.failsIff_fill h "" _).of_iff ?_
  constructor
  · rintro ⟨inside, hmem, hlong⟩
    exact ⟨_, .text hs hmem, hlong⟩
  · rintro ⟨path, hmem, hlong⟩
    cases hmem with
    | text hs' hmem =>
      obtain rfl := Option.some.inj (hs'.symm.trans hs)
      exact ⟨_, hmem, hlong⟩

theorem failsIff_substituteItems {tree : Value} {items : List Value}
    (h : ∀ v ∈ items, FailsIff (substitute tree v) .tooLong (MentionsOverlong tree v)) :
    FailsIff (substituteItems tree items) .tooLong (∃ v ∈ items, MentionsOverlong tree v) :=
  .list (by rw [substituteItems]) (fun v r => by rw [substituteItems]) h

theorem failsIff_substituteEntries {tree : Value} {entries : List (Scalar × Value)}
    (h : ∀ e ∈ entries, FailsIff (substitute tree e.2) .tooLong (MentionsOverlong tree e.2)) :
    FailsIff (substituteEntries tree entries) .tooLong
      (∃ e ∈ entries, MentionsOverlong tree e.2) :=
  .list (by rw [substituteEntries]) (fun e r => by rw [substituteEntries]) h

/-- **Replacing placeholders** fails when one leads to a collection without text. -/
theorem failsIff_substitute {tree v : Value} (htree : tree.IsJson) (h : v.IsJson) :
    FailsIff (substitute tree v) .tooLong (MentionsOverlong tree v) := by
  induction h with
  | @scalar s _ =>
    rw [substitute]
    split
    · next t hs => exact (failsIff_substituteText htree hs).map str
    · next hs =>
      refine .ok ?_
      rintro ⟨path, hpath, -⟩
      cases hpath with
      | text hs' _ => cases hs'.symm.trans hs
  | @list items h ih =>
    refine ((failsIff_substituteItems ih).map list).of_iff ?_
    constructor
    · rintro ⟨v, hv, path, hpath, hlong⟩
      exact ⟨path, .item hv hpath, hlong⟩
    · rintro ⟨path, hpath, hlong⟩
      cases hpath with
      | item hv hpath => exact ⟨_, hv, path, hpath, hlong⟩
  | @mapping entries hk hv ih =>
    refine ((failsIff_substituteEntries ih).map mapping).of_iff ?_
    constructor
    · rintro ⟨e, he, path, hpath, hlong⟩
      exact ⟨path, .member he hpath, hlong⟩
    · rintro ⟨path, hpath, hlong⟩
      cases hpath with
      | member he hpath => exact ⟨_, he, path, hpath, hlong⟩

end Value

/-! ### Room -/

/-- Whether a computation fails exactly under a condition, and then with one of some faults. -/
def FailsAmong {α : Type} (x : Except Fault α) (faults : List Fault) (p : Prop) : Prop :=
  (p → ∃ f ∈ faults, x = .error f) ∧ (¬ p → ∃ a, x = .ok a)

namespace FailsAmong

variable {α β : Type} {x : Except Fault α} {f : Fault} {faults : List Fault} {p q : Prop}

theorem of_failsIff (h : FailsIff x f p) (hf : f ∈ faults) : FailsAmong x faults p :=
  ⟨fun hp => ⟨f, hf, h.1 hp⟩, h.2⟩

theorem of_iff (h : FailsAmong x faults p) (hpq : p ↔ q) : FailsAmong x faults q :=
  ⟨fun hq => h.1 (hpq.2 hq), fun hq => h.2 fun hp => hq (hpq.1 hp)⟩

/-- A computation in front of which something is asked. -/
theorem guard (h : FailsAmong x faults p) (hf : f ∈ faults) (b : Bool) :
    FailsAmong (if b then x else .error f) faults (b = false ∨ p) := by
  cases b with
  | true => exact h.of_iff (by simp)
  | false => exact ⟨fun _ => ⟨f, hf, rfl⟩, fun hn => absurd (.inl rfl) hn⟩

theorem bind {g : α → Except Fault β} (h : FailsAmong x faults p)
    (hg : ∀ a, FailsAmong (g a) faults q) : FailsAmong (x >>= g) faults (p ∨ q) := by
  by_cases hp : p
  · obtain ⟨f, hf, rfl⟩ := h.1 hp
    exact ⟨fun _ => ⟨f, hf, rfl⟩, fun hn => absurd (.inl hp) hn⟩
  · obtain ⟨a, rfl⟩ := h.2 hp
    exact (hg a).of_iff (by simp [hp])

theorem map (h : FailsAmong x faults p) (g : α → β) : FailsAmong (x.map g) faults p := by
  by_cases hp : p
  · obtain ⟨f, hf, rfl⟩ := h.1 hp
    exact ⟨fun _ => ⟨f, hf, rfl⟩, fun hn => absurd hp hn⟩
  · obtain ⟨a, rfl⟩ := h.2 hp
    exact ⟨fun h => absurd h hp, fun _ => ⟨_, rfl⟩⟩

end FailsAmong

/-- The faults of conditions and placeholders with values of JSON: an integer that is too large or
too long, and a value that nests too deep. -/
def Fault.ofJson : List Fault := [.tooLarge, .tooLong, .tooDeep]

namespace Context

variable [Stack] {c : Context}

/-- **A condition** fails when it asks for the truth of an integer that is too large, or compares
the text of a collection that has none or nests too deep. -/
theorem failsAmong_judge (hc : c.tree.IsJson) (text : String) :
    let condition := Condition.ofText text
    FailsAmong (c.judge text) Fault.ofJson (condition.fits c.tree = false ∨
      condition.IsHuge c.tree ∨ condition.IsOverlong c.tree) := by
  intro condition
  refine FailsAmong.guard ?_ (by simp [Fault.ofJson]) _
  unfold satisfies
  rw [show Condition.ofText text = condition from rfl]
  cases condition with
  | truth path =>
    have h : FailsAmong _ Fault.ofJson _ := FailsAmong.of_failsIff
      (Condition.failsIff_truth c.tree path) (by simp [Fault.ofJson])
    exact h.of_iff (by simp [Condition.IsOverlong])
  | comparison left op right =>
    have h : FailsAmong _ Fault.ofJson _ := FailsAmong.of_failsIff
      (Condition.failsIff_comparison hc left op right) (by simp [Fault.ofJson])
    exact h.of_iff (by simp [Condition.IsHuge])

/-- **Filling a parameter** fails when a placeholder leads to a collection that has no text, or when
the stack has no room. -/
theorem failsAmong_fill (hc : c.tree.IsJson) {v : Value} (hv : v.IsJson) :
    FailsAmong (c.fill v) Fault.ofJson
      (c.tree.fits 0 v = false ∨ c.tree.MentionsOverlong v) := by
  have h : FailsIff (c.substitute v) .tooLong (c.tree.MentionsOverlong v) :=
    Value.failsIff_substitute hc hv
  exact (FailsAmong.of_failsIff h (by simp [Fault.ofJson])).guard (by simp [Fault.ofJson]) _

end Context
end Runbook
