import Mathlib.Algebra.Ring.Nat
import Runbook.Proofs.Value.Plain
import Runbook.Proofs.Yields
import Runbook.Yaml.Meaning

/-!
# Texts that tags reject

Most texts that do not have the form of their tag are malformed. The others are few: words that are
no truth values, numbers without characters or with parts that are out of range, and dates that do
not look like dates.

* `Tag.Rejects`: the texts that a tag rejects otherwise than as malformed;
* `scalarOf_eq_error_iff`: these are the faults of scalars.
-/

namespace Runbook
namespace Yaml

/-! ### Computations that fail only as malformed -/

/-- Whether a computation fails only as malformed. -/
def OnlyMalformed {α : Type} : Except Error α → Prop := Yields (· = .malformed) fun _ => True

theorem onlyMalformed_ok {α : Type} (a : α) : OnlyMalformed (.ok a) := yields_ok trivial

theorem onlyMalformed_error {α : Type} : OnlyMalformed (.error .malformed : Except Error α) :=
  yields_error rfl

theorem map_eq_error_iff {α β ε : Type} {x : Except ε α} {f : α → β} {e : ε} :
    x.map f = .error e ↔ x = .error e := by
  cases x <;> simp [Except.map]

/-! ### Numbers, bytes and timestamps -/

theorem onlyMalformed_integer (base : Nat) (cs : List Char) : OnlyMalformed (integer base cs) := by
  unfold integer
  dsimp only
  split
  · exact onlyMalformed_error
  · split
    · exact onlyMalformed_ok _
    · exact onlyMalformed_error

theorem onlyMalformed_decimal (cs : List Char) : OnlyMalformed (decimal cs) := by
  unfold decimal
  dsimp only
  split
  · exact onlyMalformed_ok _
  · split
    · exact onlyMalformed_ok _
    · split
      · exact onlyMalformed_ok _
      · exact onlyMalformed_error

theorem onlyMalformed_bytesFrom (acc : List UInt8) (count bits pads : Nat) (cs : List Char) :
    OnlyMalformed (bytesFrom acc count bits pads cs) := by
  fun_induction bytesFrom acc count bits pads cs
  all_goals first
    | assumption
    | exact onlyMalformed_ok _
    | exact onlyMalformed_error

theorem onlyMalformed_scalar (t : Timestamp) : OnlyMalformed t.scalar := by
  unfold Timestamp.scalar
  extract_lets
  split
  · split
    · exact onlyMalformed_ok _
    · exact onlyMalformed_error
  · extract_lets
    split
    · exact onlyMalformed_ok _
    · exact onlyMalformed_error

/-! ### The rejected texts -/

/-- The parts of a number in sixtieths. -/
def sixtiethParts (text : String) : List (List Char) :=
  pieces ':' (signOf ((text.toList.filter (· ≠ '_')).map Char.toLower)).2

/-- The texts that a tag rejects otherwise than as malformed. -/
inductive Tag.Rejects : Tag → String → Error → Prop
  /-- A truth value has to be one of six words, in any case. -/
  | word {text : String} (h : lowerCase text ∉ ["yes", "true", "on", "no", "false", "off"]) :
    Rejects .bool text .badTruthWord
  /-- An integer has to have a character beside its sign and underscores. -/
  | integer {text : String} (h : (signOf (text.toList.filter (· ≠ '_'))).2 = []) :
    Rejects .int text .emptyNumber
  /-- Any other number has to have a character beside underscores. -/
  | float {text : String} (h : text.toList.filter (· ≠ '_') = []) : Rejects .float text .emptyNumber
  /-- The place of a part of a number in sixtieths has to be a binary64 number. -/
  | sixtieths {text : String} {ds : List Binary64} {k : Nat}
    (hparts : (sixtiethParts text).mapM decimal = .ok ds) (hk : k < ds.length)
    (h : (Binary64.ofInt (60 ^ k : Nat)).isFinite = false) : Rejects .float text .overflow
  /-- A timestamp has to look like one. -/
  | timestamp {text : String} (h : Timestamp.ofChars? (dropLineEnd text.toList) = none) :
    Rejects .timestamp text .badTimestamp

theorem truthOf_eq_error_iff {text : String} {e : Error} : truthOf text = .error e ↔
    e = .badTruthWord ∧ lowerCase text ∉ ["yes", "true", "on", "no", "false", "off"] := by
  unfold truthOf
  split <;> simp_all [eq_comm]

theorem sixtiethsSum_eq_error_iff {sum : Binary64} {place : Nat} {ds : List Binary64} {e : Error} :
    sixtiethsSum sum place ds = .error e ↔ e = .overflow ∧
      ∃ k < ds.length, (Binary64.ofInt (place * 60 ^ k : Nat)).isFinite = false := by
  induction ds generalizing sum place with
  | nil => simp [sixtiethsSum]
  | cons d r ih =>
    have hstep : ∀ k, place * 60 ^ (k + 1) = place * 60 * 60 ^ k := fun k => by
      rw [pow_succ', mul_assoc]
    rw [sixtiethsSum, List.length_cons, Nat.exists_lt_succ_left]
    simp only [hstep, pow_zero, mul_one]
    split
    · next hfinite =>
      rw [ih, hfinite]
      simp only [Bool.true_eq_false, false_or]
    · next hinfinite =>
      rw [Bool.not_eq_true] at hinfinite
      rw [hinfinite]
      simp only [true_or, and_true, Except.error.injEq]
      exact eq_comm

theorem integerOf_eq_error_iff {text : String} {e : Error} (hne : e ≠ .malformed) :
    integerOf text = .error e ↔
      e = .emptyNumber ∧ (signOf (text.toList.filter (· ≠ '_'))).2 = [] := by
  have hinteger : ∀ (base : Nat) (cs : List Char) (f : Int → Int),
      ¬ (integer base cs >>= fun n => .ok (f n)) = .error e := fun base cs f h =>
    hne (((onlyMalformed_integer base cs).bind fun _ _ => onlyMalformed_ok _).error e h)
  have hparts : ∀ (parts : List (List Char)) (f : List Int → Int),
      ¬ (parts.mapM (integer 10) >>= fun ns => .ok (f ns)) = .error e := fun parts f h =>
    have hmapM := Yields.mapM (onlyMalformed_integer 10) parts
    hne ((hmapM.bind fun _ _ => onlyMalformed_ok _).error e h)
  unfold integerOf
  dsimp only
  -- all but the first case read a number
  split
  · next hu => exact ⟨fun h => ⟨(Except.error.inj h).symm, hu⟩, fun h => by rw [h.1]; rfl⟩
  · next hu => exact iff_of_false nofun fun h => nomatch hu.symm.trans h.2
  · next hu => exact iff_of_false (hinteger _ _ _) fun h => nomatch hu.symm.trans h.2
  · next hu => exact iff_of_false (hinteger _ _ _) fun h => nomatch hu.symm.trans h.2
  · next hu => exact iff_of_false (hinteger _ _ _) fun h => nomatch hu.symm.trans h.2
  · next hnil _ _ _ _ =>
    refine iff_of_false ?_ fun h => hnil h.2
    split
    · exact hinteger _ _ _
    · exact hparts _ _

theorem decimalOf_eq_error_iff {text : String} {e : Error} (hne : e ≠ .malformed) :
    decimalOf text = .error e ↔
      e = .emptyNumber ∧ text.toList.filter (· ≠ '_') = [] ∨
      e = .overflow ∧ ∃ ds, (sixtiethParts text).mapM decimal = .ok ds ∧
        ∃ k < ds.length, (Binary64.ofInt (60 ^ k : Nat)).isFinite = false := by
  have hdecimal : ∀ (cs : List Char) (f : Binary64 → Binary64),
      ¬ (decimal cs >>= fun x => .ok (f x)) = .error e := fun cs f h =>
    hne (((onlyMalformed_decimal cs).bind fun _ _ => onlyMalformed_ok _).error e h)
  -- the first part is at a finite place, so there are others
  have hmany : ∀ {ds : List Binary64} {k : Nat}, (sixtiethParts text).mapM decimal = .ok ds →
      k < ds.length → (Binary64.ofInt (60 ^ k : Nat)).isFinite = false →
        ∀ part, sixtiethParts text ≠ [part] := by
    intro ds k hparts hk hinfinite part hone
    have hlength := (forall₂_of_mapM hparts).length_eq
    rw [hone, List.length_singleton] at hlength
    obtain rfl : k = 0 := by omega
    exact absurd hinfinite (by decide +kernel)
  unfold decimalOf
  dsimp only
  split
  · next hempty =>
    rw [List.isEmpty_iff, List.map_eq_nil_iff] at hempty
    refine ⟨fun h => .inl ⟨(Except.error.inj h).symm, hempty⟩, ?_⟩
    rintro (⟨rfl, -⟩ | ⟨-, ds, hparts, k, hk, hinfinite⟩)
    · rfl
    · exact absurd (by rw [sixtiethParts, hempty]; rfl) (hmany hparts hk hinfinite [])
  · next hempty =>
    rw [List.isEmpty_iff, List.map_eq_nil_iff] at hempty
    rw [or_iff_right fun h => hempty h.2]
    have hone : ∀ part, sixtiethParts text = [part] → ¬ (e = .overflow ∧ ∃ ds,
        (sixtiethParts text).mapM decimal = .ok ds ∧ ∃ k < ds.length,
          (Binary64.ofInt (60 ^ k : Nat)).isFinite = false) := by
      rintro part hpart ⟨-, ds, hparts, k, hk, hinfinite⟩
      exact hmany hparts hk hinfinite part hpart
    split
    · next hu => exact iff_of_false nofun (hone ".inf".toList (by rw [sixtiethParts, hu]; rfl))
    · split
      · next hu => exact iff_of_false nofun (hone ".nan".toList (by rw [sixtiethParts, hu]; rfl))
      · split
        · next part hpart => exact iff_of_false (hdecimal _ _) (hone part hpart)
        · change ((sixtiethParts text).mapM decimal >>= fun ds => _) = _ ↔ _
          cases hparts : (sixtiethParts text).mapM decimal with
          | error e' =>
            obtain rfl := (Yields.mapM onlyMalformed_decimal _).error e' hparts
            exact iff_of_false (fun h => hne (Except.error.inj h).symm) (by simp)
          | ok ds =>
            refine map_eq_error_iff.trans (sixtiethsSum_eq_error_iff.trans ?_)
            simp

theorem onlyMalformed_bytesOf (text : String) : OnlyMalformed (bytesOf text) := by
  unfold bytesOf
  split
  · exact onlyMalformed_bytesFrom _ _ _ _ _
  · exact onlyMalformed_error

/-- **The texts that are rejected**, otherwise than as malformed. -/
theorem scalarOf_eq_error_iff {tag : Tag} {text : Text} {e : Error} (hne : e ≠ .malformed) :
    scalarOf tag text = .error e ↔ tag.Rejects text.string e := by
  constructor
  · intro h
    unfold scalarOf at h
    split at h
    · cases h
    · obtain ⟨rfl, hword⟩ := truthOf_eq_error_iff.1 (map_eq_error_iff.1 h)
      exact .word hword
    · obtain ⟨rfl, hempty⟩ := (integerOf_eq_error_iff hne).1 (map_eq_error_iff.1 h)
      exact .integer hempty
    · obtain ⟨rfl, hempty⟩ | ⟨rfl, ds, hparts, k, hk, hinfinite⟩ :=
        (decimalOf_eq_error_iff hne).1 (map_eq_error_iff.1 h)
      · exact .float hempty
      · exact .sixtieths hparts hk hinfinite
    · cases h
    · exact absurd ((onlyMalformed_bytesOf _).error e (map_eq_error_iff.1 h)) hne
    · split at h
      · exact absurd ((onlyMalformed_scalar _).error e h) hne
      · next hnone =>
        cases h
        exact .timestamp hnone
    · exact absurd (Except.error.inj h).symm hne
  · intro h
    cases h with
    | word h => exact map_eq_error_iff.2 (truthOf_eq_error_iff.2 ⟨rfl, h⟩)
    | integer h => exact map_eq_error_iff.2 ((integerOf_eq_error_iff hne).2 ⟨rfl, h⟩)
    | float h => exact map_eq_error_iff.2 ((decimalOf_eq_error_iff hne).2 (.inl ⟨rfl, h⟩))
    | sixtieths hparts hk h =>
      exact map_eq_error_iff.2 ((decimalOf_eq_error_iff hne).2 (.inr ⟨rfl, _, hparts, _, hk, h⟩))
    | timestamp h => rw [scalarOf, h]

end Yaml
end Runbook
