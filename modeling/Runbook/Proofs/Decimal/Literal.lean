import Runbook.Proofs.Binary64.Nearest
import Runbook.Proofs.Decimal.Faithful

/-!
# Literals of numbers

Which texts are read as numbers, and as which ones: a literal is a sign, possibly absent, and the
word `Infinity` or ASCII digits with at most one point anywhere among them, behind which an exponent
part may stand. It denotes an exact decimal number, and is read as the binary64 number nearest to
it.

* `Literal`, `Numeral`: decimal literals, and literals with a sign;
* `ofChars?_eq_some_iff`: the reader takes exactly the literals;
* `toBinary64_eq_iff`: decimals are rounded to the nearest number, also those out of range;
* `parseNumber_exact`: which texts are read, and what they count as.
-/

namespace Runbook

/-- A sign that may be absent. -/
inductive Sign
  | absent | plus | minus

namespace Sign

/-- The characters of a sign. -/
def chars : Sign → List Char
  | absent => []
  | plus => ['+']
  | minus => ['-']

/-- Whether a sign makes a number negative. -/
def isNegative : Sign → Bool
  | minus => true
  | _ => false

end Sign

/-- The exponent part of a literal: a letter, a sign and digits. -/
structure ExponentPart where
  letter : Char
  sign : Sign
  digits : List Char
  isLetter : letter = 'e' ∨ letter = 'E'
  isDigit : ∀ c ∈ digits, c.isDigit
  digits_ne : digits ≠ []

namespace ExponentPart

/-- The characters of an exponent part. -/
def chars (p : ExponentPart) : List Char := p.letter :: (p.sign.chars ++ p.digits)

/-- The exponent. -/
def value (p : ExponentPart) : Int := signed p.sign.isNegative (natOfDigits p.digits)

end ExponentPart

/-- A decimal literal: digits, a point and digits, and an exponent part. Point and exponent part may
be absent, and the digits on one side of the point. -/
structure Literal where
  whole : List Char
  fraction : Option (List Char)
  exponent : Option ExponentPart
  isDigit_whole : ∀ c ∈ whole, c.isDigit
  isDigit_fraction : ∀ c ∈ fraction.getD [], c.isDigit
  digits_ne : whole ++ fraction.getD [] ≠ []

namespace Literal

/-- The digits behind the point. -/
def places (l : Literal) : List Char := l.fraction.getD []

/-- The point and the digits behind it. -/
def pointChars (l : Literal) : List Char := (l.fraction.map ('.' :: ·)).getD []

/-- The characters of the exponent part. -/
def exponentChars (l : Literal) : List Char := (l.exponent.map ExponentPart.chars).getD []

/-- The exponent, zero when absent. -/
def exponentValue (l : Literal) : Int := (l.exponent.map ExponentPart.value).getD 0

/-- The characters of a literal. -/
def chars (l : Literal) : List Char := l.whole ++ (l.pointChars ++ l.exponentChars)

/-- The exact number that a literal denotes. -/
def value (l : Literal) : ℚ :=
  (natOfDigits l.whole + natOfDigits l.places / 10 ^ l.places.length) * 10 ^ l.exponentValue

/-- A literal as a decimal. -/
def decimal (l : Literal) : Decimal :=
  ⟨natOfDigits (l.whole ++ l.places), l.exponentValue - l.places.length⟩

end Literal

/-- A literal with a sign. -/
inductive Numeral
  | infinity (sign : Sign)
  | decimal (sign : Sign) (l : Literal)

namespace Numeral

/-- The characters of a literal with its sign. -/
def chars : Numeral → List Char
  | infinity sign => sign.chars ++ "Infinity".toList
  | decimal sign l => sign.chars ++ l.chars

/-- Whether a binary64 number is what a literal stands for: an infinity, or the number nearest to
the exact one. -/
def Denotes (b : Binary64) : Numeral → Prop
  | infinity sign => b = .infinity sign.isNegative
  | decimal sign l => b.Rounds sign.isNegative l.value

end Numeral

/-! ### Signs -/

/-- A sign is split off what does not start with one. -/
theorem splitSign_append {cs : List Char} (sign : Sign) (h : ∀ c ∈ cs.head?, c ≠ '+' ∧ c ≠ '-') :
    splitSign (sign.chars ++ cs) = (sign.isNegative, cs) := by
  cases sign with
  | plus => rfl
  | minus => rfl
  | absent =>
    show splitSign cs = (false, cs)
    unfold splitSign
    split
    · exact absurd rfl (h '+' rfl).1
    · exact absurd rfl (h '-' rfl).2
    · rfl

theorem exists_sign_of_splitSign {cs r : List Char} {negative : Bool}
    (h : splitSign cs = (negative, r)) :
    ∃ sign : Sign, sign.isNegative = negative ∧ cs = sign.chars ++ r := by
  unfold splitSign at h
  split at h <;> cases h
  · exact ⟨.plus, rfl, rfl⟩
  · exact ⟨.minus, rfl, rfl⟩
  · exact ⟨.absent, rfl, rfl⟩

/-- No digit is a sign. -/
theorem ne_sign_of_isDigit {c : Char} (h : c.isDigit) : c ≠ '+' ∧ c ≠ '-' := by
  constructor <;> rintro rfl <;> cases h

namespace Decimal

theorem signedDigits?_eq (cs : List Char) :
    signedDigits? cs =
      if (splitSign cs).2.isEmpty || !(splitSign cs).2.all Char.isDigit then none
      else some (signed (splitSign cs).1 (natOfDigits (splitSign cs).2)) := by
  match cs with
  | [] => rfl
  | c :: r =>
    by_cases hplus : c = '+'
    · subst hplus
      rfl
    by_cases hminus : c = '-'
    · subst hminus
      rfl
    have hsplit : splitSign (c :: r) = (false, c :: r) :=
      splitSign_append .absent (by simpa using ⟨hplus, hminus⟩)
    rw [hsplit]
    unfold signedDigits?
    split
    next negative ds hpair =>
      split at hpair
      · next heq => exact absurd (List.cons.inj heq).1 hminus
      · next heq => exact absurd (List.cons.inj heq).1 hplus
      · cases hpair
        rfl

/-- The exponents that are read: a sign and at least one digit. -/
theorem signedDigits?_eq_some_iff {cs : List Char} {e : Int} :
    signedDigits? cs = some e ↔ ∃ (sign : Sign) (ds : List Char), cs = sign.chars ++ ds ∧
      (∀ c ∈ ds, c.isDigit) ∧ ds ≠ [] ∧ e = signed sign.isNegative (natOfDigits ds) := by
  rw [signedDigits?_eq]
  constructor
  · intro h
    rcases hsplit : splitSign cs with ⟨negative, ds⟩
    obtain ⟨sign, rfl, rfl⟩ := exists_sign_of_splitSign hsplit
    rw [hsplit] at h
    split at h
    · cases h
    · next hdigits =>
      simp only [Bool.or_eq_true, not_or, List.isEmpty_iff, Bool.not_eq_true', Bool.not_eq_false,
        List.all_eq_true] at hdigits
      exact ⟨sign, ds, rfl, hdigits.2, hdigits.1, (Option.some.inj h).symm⟩
  · rintro ⟨sign, ds, rfl, hdigit, hne, rfl⟩
    have hhead : ∀ c ∈ ds.head?, c ≠ '+' ∧ c ≠ '-' :=
      fun c hc => ne_sign_of_isDigit (hdigit c (List.mem_of_mem_head? hc))
    have hall : ds.all Char.isDigit = true := List.all_eq_true.2 hdigit
    rw [splitSign_append sign hhead]
    simp [hne, hall]

/-- The exponent parts that are read. -/
theorem exponent?_eq_some_iff {cs : List Char} {e : Int} :
    exponent? cs = some e ↔ ∃ p : Option ExponentPart,
      cs = (p.map ExponentPart.chars).getD [] ∧ e = (p.map ExponentPart.value).getD 0 := by
  constructor
  · intro h
    cases cs with
    | nil => exact ⟨none, rfl, (Option.some.inj h).symm⟩
    | cons c r =>
      simp only [exponent?, Bool.or_eq_true, decide_eq_true_eq] at h
      split at h
      · next hletter =>
        obtain ⟨sign, ds, rfl, hdigit, hne, rfl⟩ := signedDigits?_eq_some_iff.1 h
        exact ⟨some ⟨c, sign, ds, hletter, hdigit, hne⟩, rfl, rfl⟩
      · cases h
  · rintro ⟨p, rfl, rfl⟩
    cases p with
    | none => rfl
    | some p =>
      show exponent? (p.letter :: (p.sign.chars ++ p.digits)) = some p.value
      simp only [exponent?, Bool.or_eq_true, decide_eq_true_eq]
      rw [if_pos p.isLetter, signedDigits?_eq_some_iff]
      exact ⟨p.sign, p.digits, rfl, p.isDigit, p.digits_ne, rfl⟩

end Decimal

namespace Literal

variable (l : Literal)

/-- An exponent part starts with its letter. -/
theorem head_exponentChars : ∀ c ∈ l.exponentChars.head?, c = 'e' ∨ c = 'E' := by
  unfold exponentChars
  cases l.exponent with
  | none => simp
  | some p =>
    rintro c ⟨⟩
    exact p.isLetter

theorem spanFraction_chars :
    Decimal.spanFraction (l.pointChars ++ l.exponentChars) = (l.places, l.exponentChars) := by
  have hletter : ∀ c ∈ l.exponentChars.head?, c.isDigit = false := fun c hc => by
    rcases l.head_exponentChars c hc with rfl | rfl <;> rfl
  have hplaces := l.isDigit_fraction
  unfold pointChars places
  cases hfraction : l.fraction with
  | some ds =>
    rw [hfraction] at hplaces
    exact spanDigits_append hplaces hletter
  | none =>
    show Decimal.spanFraction l.exponentChars = ([], l.exponentChars)
    unfold Decimal.spanFraction
    split
    · next r hchars =>
      rcases l.head_exponentChars '.' (by rw [hchars]; rfl) with h | h <;> cases h
    · rfl

/-- No digit follows those before the point. -/
theorem head_pointChars : ∀ c ∈ (l.pointChars ++ l.exponentChars).head?, c.isDigit = false := by
  unfold pointChars
  cases l.fraction with
  | some ds =>
    rintro c ⟨⟩
    rfl
  | none =>
    intro c hc
    rcases l.head_exponentChars c hc with rfl | rfl <;> rfl

/-- **A literal is read as the decimal that it denotes.** -/
theorem ofChars?_chars : Decimal.ofChars? l.chars = some l.decimal := by
  have hexponent : Decimal.exponent? l.exponentChars = some l.exponentValue :=
    Decimal.exponent?_eq_some_iff.2 ⟨l.exponent, rfl, rfl⟩
  have hne : (l.whole.isEmpty && l.places.isEmpty) = false := by
    rw [Bool.eq_false_iff, Ne, Bool.and_eq_true, List.isEmpty_iff, List.isEmpty_iff]
    exact fun h => l.digits_ne (List.append_eq_nil_iff.2 h)
  unfold Decimal.ofChars? chars
  simp only [spanDigits_append l.isDigit_whole l.head_pointChars, spanFraction_chars,
    hexponent, hne]
  rfl

/-- The decimal that a literal denotes has its value. -/
theorem value_decimal : l.decimal.value = l.value := by
  have hdigits : natOfDigits (l.whole ++ l.places) =
      10 ^ l.places.length * natOfDigits l.whole + natOfDigits l.places :=
    (natOfDigits_append _ _).trans Nat.ofDigitChars_eq_ofDigitChars_zero
  have hten : (10 : ℚ) ^ l.places.length ≠ 0 := pow_ne_zero _ (by norm_num)
  rw [decimal, Decimal.value, value, hdigits, zpow_sub₀ (by norm_num), zpow_natCast]
  push_cast
  field_simp

end Literal

namespace Decimal

/-- The point and the digits behind it are split off. -/
theorem exists_fraction (cs : List Char) :
    ∃ fraction : Option (List Char), (∀ c ∈ fraction.getD [], c.isDigit) ∧
      (spanFraction cs).1 = fraction.getD [] ∧
      cs = (fraction.map ('.' :: ·)).getD [] ++ (spanFraction cs).2 := by
  unfold spanFraction
  split
  · next r =>
    exact ⟨some (r.takeWhile Char.isDigit), fun c hc => List.mem_takeWhile_imp hc, rfl,
      congrArg ('.' :: ·) List.takeWhile_append_dropWhile.symm⟩
  · exact ⟨none, by simp, rfl, rfl⟩

/-- **The reader takes exactly the literals.** -/
theorem ofChars?_eq_some_iff {cs : List Char} {y : Decimal} :
    ofChars? cs = some y ↔ ∃ l : Literal, cs = l.chars ∧ y = l.decimal := by
  constructor
  · intro h
    obtain ⟨fraction, hdigit, hplaces, hrest⟩ := exists_fraction (cs.dropWhile Char.isDigit)
    rw [ofChars?, spanDigits] at h
    simp only [Option.ite_none_left_eq_some, Bool.and_eq_true, List.isEmpty_iff, hplaces,
      ← List.append_eq_nil_iff] at h
    obtain ⟨hne, h⟩ := h
    obtain ⟨e, he, rfl⟩ := Option.map_eq_some_iff.1 h
    obtain ⟨p, hp, rfl⟩ := exponent?_eq_some_iff.1 he
    rw [hp] at hrest
    refine ⟨⟨cs.takeWhile Char.isDigit, fraction, p, fun c hc => List.mem_takeWhile_imp hc, hdigit,
      hne⟩, ?_, rfl⟩
    rw [Literal.chars, Literal.pointChars, Literal.exponentChars, ← hrest,
      List.takeWhile_append_dropWhile]
  · rintro ⟨l, rfl, rfl⟩
    exact l.ofChars?_chars

theorem value_nonneg (y : Decimal) : 0 ≤ y.value :=
  mul_nonneg (Nat.cast_nonneg _) (zpow_nonneg (by norm_num) _)

/-- **A decimal is rounded to the number nearest to it**, also where its powers are not computed. -/
theorem toBinary64_rounds (negative : Bool) (y : Decimal) :
    (y.toBinary64 negative).Rounds negative y.value := by
  unfold toBinary64
  split
  · next hzero =>
    refine Binary64.rounds_zero negative y.value_nonneg ?_
    rw [value, hzero, Nat.cast_zero, zero_mul, zero_mul]
    exact one_pos
  · next hne =>
    dsimp only
    split
    · next hpoint => exact Binary64.rounds_infinity negative (pow_le_value_of_point hne hpoint)
    split
    · next hpoint =>
      exact Binary64.rounds_zero negative y.value_nonneg (value_mul_lt_one_of_point hpoint)
    split
    · next hwhole =>
      rw [value_of_nonneg hwhole]
      exact (Binary64.ofRatio_eq_iff Nat.one_pos).1 rfl
    · next hfraction =>
      rw [value_of_neg hfraction]
      exact (Binary64.ofRatio_eq_iff (Nat.pow_pos (by decide))).1 rfl

theorem toBinary64_eq_iff {negative : Bool} {y : Decimal} {b : Binary64} :
    y.toBinary64 negative = b ↔ b.Rounds negative y.value := by
  constructor
  · rintro rfl
    exact toBinary64_rounds negative y
  · exact (toBinary64_rounds negative y).eq y.value_nonneg

end Decimal

/-! ### Texts -/

/-- A literal starts with a digit or with its point. -/
theorem Literal.head_chars (l : Literal) : ∀ c ∈ l.chars.head?, c.isDigit ∨ c = '.' := by
  intro c hc
  unfold chars pointChars at hc
  cases hwhole : l.whole with
  | cons d r =>
    rw [hwhole] at hc
    cases hc
    exact .inl (l.isDigit_whole c (by rw [hwhole]; exact List.mem_cons_self))
  | nil =>
    cases hfraction : l.fraction with
    | some ds =>
      rw [hwhole, hfraction] at hc
      cases hc
      exact .inr rfl
    | none => exact absurd (by rw [hwhole, hfraction]; rfl) l.digits_ne

/-- What a numeral has behind its sign does not start with a sign, and is not a word if it is a
literal. -/
theorem Literal.head_ne (l : Literal) :
    (∀ c ∈ l.chars.head?, c ≠ '+' ∧ c ≠ '-') ∧ l.chars ≠ "Infinity".toList := by
  refine ⟨fun c hc => ?_, fun hword => ?_⟩
  · rcases l.head_chars c hc with hdigit | rfl
    · exact ne_sign_of_isDigit hdigit
    · exact ⟨by decide, by decide⟩
  · rcases l.head_chars 'I' (by rw [hword]; rfl) with h | h <;> cases h

/-- What stands behind a sign is read as the word or as a literal. -/
theorem unsignedNumber?_eq_some_iff {negative : Bool} {cs : List Char} {b : Binary64} :
    unsignedNumber? negative cs = some b ↔
      (cs = "Infinity".toList ∧ b = .infinity negative) ∨
        ∃ l : Literal, cs = l.chars ∧ b.Rounds negative l.value := by
  unfold unsignedNumber?
  by_cases hword : cs = "Infinity".toList
  · rw [if_pos hword, Option.some.injEq, eq_comm]
    constructor
    · exact fun hb => .inl ⟨hword, hb⟩
    · rintro (⟨-, hb⟩ | ⟨l, hl, -⟩)
      · exact hb
      · exact absurd (hl.symm.trans hword) l.head_ne.2
  · rw [if_neg hword, Option.map_eq_some_iff]
    constructor
    · rintro ⟨y, hy, hb⟩
      obtain ⟨l, hl, rfl⟩ := Decimal.ofChars?_eq_some_iff.1 hy
      exact .inr ⟨l, hl, l.value_decimal ▸ Decimal.toBinary64_eq_iff.1 hb⟩
    · rintro (⟨h, -⟩ | ⟨l, rfl, hb⟩)
      · exact absurd h hword
      · exact ⟨l.decimal, l.ofChars?_chars, Decimal.toBinary64_eq_iff.2 (l.value_decimal ▸ hb)⟩

/-- **The texts that are read as numbers** are the literals, up to blanks around them. -/
theorem parseNumber_eq_some_iff {s : String} {b : Binary64} :
    parseNumber s = some b ↔
      ∃ numeral : Numeral, trimBy isBlank s.toList = numeral.chars ∧ numeral.Denotes b := by
  rcases hsplit : splitSign (trimBy isBlank s.toList) with ⟨negative, cs⟩
  rw [parseNumber, hsplit]
  show unsignedNumber? negative cs = some b ↔ _
  rw [unsignedNumber?_eq_some_iff]
  constructor
  · obtain ⟨sign, rfl, htrim⟩ := exists_sign_of_splitSign hsplit
    rintro (⟨rfl, hb⟩ | ⟨l, rfl, hb⟩)
    · exact ⟨.infinity sign, htrim, hb⟩
    · exact ⟨.decimal sign l, htrim, hb⟩
  · rintro ⟨numeral, htrim, hb⟩
    cases numeral with
    | infinity sign =>
      have hhead : ∀ c ∈ "Infinity".toList.head?, c ≠ '+' ∧ c ≠ '-' := by
        rintro c ⟨⟩
        exact ⟨by decide, by decide⟩
      have hword := splitSign_append sign hhead
      rw [htrim] at hsplit
      cases hsplit.symm.trans hword
      exact .inl ⟨rfl, hb⟩
    | decimal sign l =>
      have hliteral := splitSign_append sign l.head_ne.1
      rw [htrim] at hsplit
      cases hsplit.symm.trans hliteral
      exact .inr ⟨l, rfl, hb⟩

/-- There is a number for every literal. -/
theorem Numeral.exists_denotes (numeral : Numeral) : ∃ b, numeral.Denotes b := by
  cases numeral with
  | infinity sign => exact ⟨_, rfl⟩
  | decimal sign l =>
    refine ⟨l.decimal.toBinary64 sign.isNegative, ?_⟩
    have hrounds := Decimal.toBinary64_rounds sign.isNegative l.decimal
    rwa [l.value_decimal] at hrounds

/-- Nothing is left of a list that is trimmed if all of it is trimmed. -/
theorem trimBy_eq_nil_iff {p : Char → Bool} {cs : List Char} :
    trimBy p cs = [] ↔ ∀ c ∈ cs, p c = true := by
  rw [trimBy, List.reverse_eq_nil_iff, List.dropWhile_eq_nil_iff]
  constructor
  · intro h c hc
    rw [← List.takeWhile_append_dropWhile (p := p) (l := cs)] at hc
    rcases List.mem_append.1 hc with hc | hc
    · exact List.mem_takeWhile_imp hc
    · exact h c (List.mem_reverse.2 hc)
  · exact fun h c hc => h c ((List.dropWhile_sublist p).subset (List.mem_reverse.1 hc))

/-- **Which texts are read as numbers, and what texts count as.** A text is read if it is a literal
with nothing but blanks around it; the number is the infinity of its sign for the word, and
otherwise the one nearest to what the literal denotes. Blank texts count as zero, those that are
read as their numbers, and all others as NaN. -/
theorem parseNumber_exact (s : String) :
    ((parseNumber s).isSome ↔ ∃ numeral : Numeral, trimBy isBlank s.toList = numeral.chars) ∧
      (∀ b, parseNumber s = some b ↔
        ∃ numeral : Numeral, trimBy isBlank s.toList = numeral.chars ∧ numeral.Denotes b) ∧
      ((∀ c ∈ s.toList, isBlank c) → (Value.str s).toNumber = .zero) ∧
      (∀ b, parseNumber s = some b → (Value.str s).toNumber = b) ∧
      ((∃ c ∈ s.toList, isBlank c = false) → parseNumber s = none →
        (Value.str s).toNumber = .nan) := by
  refine ⟨?_, fun b => parseNumber_eq_some_iff, fun hblank => ?_, fun b => Value.toNumber_str,
    fun ⟨c, hc, hblank⟩ hnone => ?_⟩
  · rw [Option.isSome_iff_exists]
    constructor
    · rintro ⟨b, hb⟩
      obtain ⟨numeral, htrim, -⟩ := parseNumber_eq_some_iff.1 hb
      exact ⟨numeral, htrim⟩
    · rintro ⟨numeral, htrim⟩
      obtain ⟨b, hb⟩ := numeral.exists_denotes
      exact ⟨b, parseNumber_eq_some_iff.2 ⟨numeral, htrim, hb⟩⟩
  · simp [Value.toNumber, trimBy_eq_nil_iff.2 hblank]
  · have hne : trimBy isBlank s.toList ≠ [] := fun h => by
      rw [trimBy_eq_nil_iff.1 h c hc] at hblank
      cases hblank
    simp [Value.toNumber, hne, hnone]

/-- A text of blanks, a literal that overflows, and a text that is no literal. -/
theorem parseNumber_exact_sample :
    (Value.str " \t").toNumber = .zero ∧
      (∃ numeral : Numeral, "-.5e+999".toList = numeral.chars ∧ numeral.Denotes (.infinity true)) ∧
      (Value.str " -.5e+999\n").toNumber = .infinity true ∧ (Value.str "1_0").toNumber = .nan := by
  have hread : parseNumber " -.5e+999\n" = some (.infinity true) := by decide +kernel
  exact ⟨(parseNumber_exact " \t").2.2.1 (List.all_eq_true.1 (by decide)),
    (parseNumber_exact " -.5e+999\n").2.1 _ |>.1 hread,
    (parseNumber_exact " -.5e+999\n").2.2.2.1 _ hread,
    (parseNumber_exact "1_0").2.2.2.2 ⟨'1', by decide, rfl⟩ (by decide +kernel)⟩

end Runbook
