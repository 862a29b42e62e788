import Runbook.Proofs.Condition.Laws
import Runbook.Proofs.Decimal.Integer

/-!
# Equality and order of numbers

Equality of numbers is that of their texts, order is that of their places. A number is read back
from its text at its own place, so numbers with one text are at one place. The converse holds of
numbers that are written like the binary64 number nearest to them, as all binary64 numbers are and
all integers of at most 53 bits or from `fullIntegerBound` on. An integer between these bounds is
written with all of its digits, and may differ from the binary64 number at its place.

* `Value.stringify_eq_iff`: when numbers have one text;
* `satisfies_eq_iff`: equality and order of condition texts.
-/

namespace Runbook

theorem intText_injective {m n : Int} (h : intText m = intText n) : m = n := by
  have hsplit (n : Int) : splitSign (intText n).toList =
      (decide (n < 0), Nat.toDigits 10 n.natAbs) := by
    obtain ⟨d, r, hdigits, hall, -⟩ := Yaml.head_toDigits n.natAbs
    rw [Yaml.intText_eq, hdigits, splitSign_withSign _ r (hall d List.mem_cons_self)]
  have hpair := hsplit m
  rw [h, hsplit n, Prod.mk.injEq, decide_eq_decide] at hpair
  obtain ⟨hsign, hdigits⟩ := hpair
  have habs : n.natAbs = m.natAbs := by
    rw [← natOfDigits_toDigits n.natAbs, hdigits, natOfDigits_toDigits]
  omega

theorem Binary64.ofUnits_ne_nan (negative : Bool) (n d : Nat) : ofUnits negative n d ≠ nan := by
  unfold ofUnits
  split <;> simp

theorem Binary64.ofInt_ne_nan (n : Int) : ofInt n ≠ nan := by
  rw [ofInt, ofRatio]
  exact ofUnits_ne_nan _ _ _

namespace Value

/-- Whether a value is a number other than NaN. -/
inductive IsNumber : Value → Prop
  | int (n : Int) : IsNumber (int n)
  | float {x : Binary64} (h : x ≠ .nan) : IsNumber (float x)

/-- Whether a value is written like its binary64 number. -/
def IsWrittenAsNumber (v : Value) : Prop :=
  v.stringify = .ok (v.toNumber.text .plain)

variable {v w : Value}

theorem isWrittenAsNumber_float (x : Binary64) : (float x).IsWrittenAsNumber := rfl

/-- Integers of at most 53 bits and those that are not written in full are written like their
binary64 numbers. -/
theorem isWrittenAsNumber_int {n : Int} (h : n.natAbs < pow2 53 ∨ fullIntegerBound ≤ n.natAbs) :
    (int n).IsWrittenAsNumber := by
  show Except.ok (integerText n) = Except.ok ((Binary64.ofInt n).text .plain)
  rw [integerText]
  split
  · next hfull => rw [text_ofInt (h.resolve_right (Nat.not_le.2 hfull))]
  · rfl

/-- Any other number is an integer that is written in full. -/
theorem IsNumber.full_of_not (h : v.IsNumber) (hnot : ¬ v.IsWrittenAsNumber) :
    ∃ n, v = .int n ∧ v.stringify = .ok (intText n) := by
  cases h with
  | float hx => exact absurd (isWrittenAsNumber_float _) hnot
  | int n =>
    have hfull : n.natAbs < fullIntegerBound := by
      by_contra hge
      exact hnot (isWrittenAsNumber_int (.inr (Nat.not_lt.1 hge)))
    refine ⟨n, rfl, ?_⟩
    show Except.ok (integerText n) = _
    rw [integerText, if_pos hfull]

theorem IsNumber.toNumber_ne (h : v.IsNumber) : v.toNumber ≠ .nan := by
  cases h with
  | float hx => exact hx
  | int n => exact Binary64.ofInt_ne_nan n

/-- **A number is read back from its text** at its place. -/
theorem IsNumber.exists_text (h : v.IsNumber) : ∃ s, v.stringify = .ok s ∧
    ∃ y, parseNumber s = some y ∧ y.place? = v.toNumber.place? := by
  by_cases hwritten : v.IsWrittenAsNumber
  · exact ⟨_, hwritten, parseNumber_text h.toNumber_ne⟩
  · obtain ⟨n, rfl, htext⟩ := h.full_of_not hwritten
    exact ⟨_, htext, _, parseNumber_intText n, rfl⟩

/-- **Numbers have one text** when they are at one place, unless one of them is written in full and
they are not the same. -/
theorem stringify_eq_iff (hv : v.IsNumber) (hw : w.IsNumber) :
    v.stringify = w.stringify ↔ v.toNumber.place? = w.toNumber.place? ∧
      (v = w ∨ (v.IsWrittenAsNumber ∧ w.IsWrittenAsNumber)) := by
  constructor
  · intro h
    have hplace : v.toNumber.place? = w.toNumber.place? := by
      obtain ⟨s, hs, y, hy, hvy⟩ := hv.exists_text
      obtain ⟨t, ht, z, hz, hwz⟩ := hw.exists_text
      rw [hs, ht, Except.ok.injEq] at h
      rw [h, hz, Option.some.injEq] at hy
      rw [← hvy, ← hwz, hy]
    refine ⟨hplace, ?_⟩
    have htext := Binary64.text_plain_of_place hplace
    by_cases hvw : v.IsWrittenAsNumber
    · -- the other has the text of the number as well
      refine .inr ⟨hvw, ?_⟩
      show w.stringify = _
      rw [← h, hvw, htext]
    · by_cases hww : w.IsWrittenAsNumber
      · refine absurd ?_ hvw
        show v.stringify = _
        rw [h, hww, htext]
      · obtain ⟨m, rfl, hm⟩ := hv.full_of_not hvw
        obtain ⟨n, rfl, hn⟩ := hw.full_of_not hww
        rw [hm, hn, Except.ok.injEq] at h
        exact .inl (congrArg int (intText_injective h))
  · rintro ⟨hplace, rfl | ⟨hvw, hww⟩⟩
    · rfl
    · rw [hvw, hww, Binary64.text_plain_of_place hplace]

end Value

namespace Condition

variable {v w : Value}

/-- Numbers can be compared. -/
theorem exists_compare (hv : v.IsNumber) (hw : w.IsNumber) (op : Comparator) :
    ∃ b, compare op v w = .ok b := by
  obtain ⟨s, hs, -⟩ := hv.exists_text
  obtain ⟨t, ht, -⟩ := hw.exists_text
  cases op with
  | eq => exact ⟨decide (s = t), by simp only [compare, hs, ht]; rfl⟩
  | ne => exact ⟨decide (s ≠ t), by simp only [compare, hs, ht]; rfl⟩
  | ge => exact ⟨_, rfl⟩
  | le => exact ⟨_, rfl⟩
  | gt => exact ⟨_, rfl⟩
  | lt => exact ⟨_, rfl⟩

theorem compare_eq_iff (hv : v.IsNumber) (hw : w.IsNumber) :
    compare .eq v w = .ok true ↔ v.stringify = w.stringify := by
  obtain ⟨s, hs, -⟩ := hv.exists_text
  obtain ⟨t, ht, -⟩ := hw.exists_text
  simp only [compare, hs, ht, Except.ok.injEq]
  show Except.ok (decide (s = t)) = Except.ok true ↔ _
  simp

/-- Numbers are neither before nor after each other when they are at one place. -/
theorem compare_ge_le_iff (hv : v.IsNumber) :
    (compare .ge v w = .ok true ∧ compare .le v w = .ok true) ↔
      v.toNumber.place? = w.toNumber.place? := by
  simp only [compare, Except.ok.injEq]
  exact Binary64.le_and_le_iff hv.toNumber_ne

/-- An operand that leads nowhere and is made of the digits of an integer is the number nearest to
it. -/
theorem operand_intText {tree : Value} {n : Int} (h : tree.resolve (intText n) = none) :
    operand tree (intText n) = .float (.ofInt n) := by
  rw [operand, h, parseNumber_intText]

/-- **Equality and order of numbers.** The comparisons of numbers have truth values. Those that are
equal are neither before nor after each other; the converse holds if they are the same or both
written like their binary64 numbers, as binary64 numbers are and integers of at most 53 bits or from
`fullIntegerBound` on. An integer and the literal of its digits are neither before nor after each
other, and equal exactly when the integer is written so. -/
theorem satisfies_eq_iff (c : Context) {l r : String} (hl : IsOperand l) (hr : IsOperand r)
    (hv : (operand c.tree l).IsNumber) (hw : (operand c.tree r).IsNumber) :
    let sat (op : Comparator) := c.satisfies (comparison l op r).text
    let v := operand c.tree l
    let w := operand c.tree r
    (∀ op, ∃ b, sat op = .ok b) ∧
    (sat .eq = .ok true ↔ (sat .ge = .ok true ∧ sat .le = .ok true) ∧
      (v = w ∨ (v.IsWrittenAsNumber ∧ w.IsWrittenAsNumber))) ∧
    (∀ x, (Value.float x).IsWrittenAsNumber) ∧
    (∀ n : Int, n.natAbs < pow2 53 ∨ fullIntegerBound ≤ n.natAbs →
      (Value.int n).IsWrittenAsNumber) ∧
    ∀ n, v = .int n → r = intText n → c.tree.resolve r = none →
      sat .ge = .ok true ∧ sat .le = .ok true ∧
        (sat .eq = .ok true ↔ (Value.int n).IsWrittenAsNumber) := by
  intro sat v w
  have hsat (op : Comparator) : sat op = compare op v w := satisfies_text c hl hr op
  have hiff : sat .eq = .ok true ↔ (sat .ge = .ok true ∧ sat .le = .ok true) ∧
      (v = w ∨ (v.IsWrittenAsNumber ∧ w.IsWrittenAsNumber)) := by
    rw [hsat, hsat, hsat, compare_eq_iff hv hw, compare_ge_le_iff hv, Value.stringify_eq_iff hv hw]
  refine ⟨?_, hiff, Value.isWrittenAsNumber_float, fun n => Value.isWrittenAsNumber_int, ?_⟩
  · intro op
    rw [hsat]
    exact exists_compare hv hw op
  · rintro n hn rfl hnone
    have hw' : w = .float (.ofInt n) := operand_intText hnone
    have hplace : sat .ge = .ok true ∧ sat .le = .ok true := by
      rw [hsat, hsat, compare_ge_le_iff hv]
      show v.toNumber.place? = w.toNumber.place?
      rw [hn, hw']
      rfl
    refine ⟨hplace.1, hplace.2, ?_⟩
    rw [hiff, hn, hw']
    simp [hplace, Value.isWrittenAsNumber_float]

/-- A variable and the literal of its digits, of one bit too many to be a binary64 number: they are
neither before nor after each other, and not equal. -/
theorem not_eq_of_ge_le : ∃ (c : Context) (l r : String), IsOperand l ∧ IsOperand r ∧
    (operand c.tree l).IsNumber ∧ (operand c.tree r).IsNumber ∧
    c.satisfies (comparison l .ge r).text = .ok true ∧
    c.satisfies (comparison l .le r).text = .ok true ∧
    c.satisfies (comparison l .eq r).text = .ok false := by
  have hr : (operand (⟨[("n", .int 9007199254740993)], []⟩ : Context).tree
      (intText 9007199254740993)).IsNumber := by
    rw [operand_intText (by decide +kernel)]
    exact .float (Binary64.ofInt_ne_nan _)
  exact ⟨⟨[("n", .int 9007199254740993)], []⟩, "variables.n", intText 9007199254740993,
    ⟨by decide, fun op => by cases op <;> decide⟩,
    ⟨by decide +kernel, fun op => by cases op <;> decide +kernel⟩,
    .int 9007199254740993, hr, by decide +kernel, by decide +kernel, by decide +kernel⟩

/-- A variable that is equal to its literal. -/
theorem satisfies_eq_iff_sample :
    (⟨[("n", .int (-3))], []⟩ : Context).satisfies "variables.n == -3" = .ok true := by
  have hr : (operand (⟨[("n", .int (-3))], []⟩ : Context).tree (intText (-3))).IsNumber := by
    rw [operand_intText (by decide +kernel)]
    exact .float (Binary64.ofInt_ne_nan _)
  obtain ⟨-, -, -, hwritten, hliteral⟩ := satisfies_eq_iff ⟨[("n", .int (-3))], []⟩
    (l := "variables.n") (r := intText (-3))
    ⟨by decide, fun op => by cases op <;> decide⟩
    ⟨by decide +kernel, fun op => by cases op <;> decide +kernel⟩ (.int (-3)) hr
  exact (hliteral (-3) rfl rfl (by decide +kernel)).2.2.2 (hwritten (-3) (.inl (by decide +kernel)))

end Condition
end Runbook
