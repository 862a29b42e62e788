import Mathlib.Data.Bool.AllAny
import Mathlib.Data.List.TakeWhile
import Mathlib.Tactic.IntervalCases
import Runbook.Proofs.Decimal.Text
import Runbook.Proofs.Digits
import Runbook.Proofs.Yaml.Scalar
import Runbook.Yaml.Meaning
import Runbook.Yaml.Writer

/-!
# Numbers as plain texts

Numbers are written without quotes and read back as numbers of their kind.
-/

namespace Runbook
namespace Yaml

/-! ### The characters of numerals -/

/-- The characters of numerals. -/
def numeralChars : List Char := "0123456789.e+-".toList

theorem mem_of_isDigit {c : Char} (h : c.isDigit) : c ∈ "0123456789".toList := by
  simp only [Char.isDigit, Bool.and_eq_true, decide_eq_true_eq, ge_iff_le,
    UInt32.le_iff_toNat_le] at h
  obtain ⟨hlow, hhigh⟩ := h
  have hc : c = Char.ofNat c.toNat := (Char.ofNat_toNat c).symm
  have hn : c.toNat = c.val.toNat := rfl
  have hlow : 48 ≤ c.toNat := hlow
  have hhigh : c.toNat ≤ 57 := hhigh
  rw [hc]
  interval_cases c.toNat <;> decide

theorem mem_numeralChars_of_isDigit {c : Char} (h : c.isDigit) : c ∈ numeralChars := by
  have hsub : ∀ c ∈ "0123456789".toList, c ∈ numeralChars := List.all_iff_forall_prop.1 (by decide)
  exact hsub c (mem_of_isDigit h)

/-- A text of numeral characters that begins with a digit, or with one after a minus. -/
structure IsNumeral (cs : List Char) : Prop where
  chars : ∀ c ∈ cs, c ∈ numeralChars
  head : ∃ d r, d.isDigit ∧ (cs = d :: r ∨ cs = '-' :: d :: r)

theorem hasMarkAfter_numeral {cs : List Char} (h : ∀ c ∈ cs, c ∈ numeralChars) (b : Char) :
    Style.hasMarkAfter b cs = false := by
  have hcolon : ∀ c ∈ numeralChars, c ≠ ':' := List.all_iff_forall_prop.1 (by decide)
  have hnumber : ∀ c ∈ numeralChars, c ≠ '#' := List.all_iff_forall_prop.1 (by decide)
  induction cs generalizing b with
  | nil => rfl
  | cons c r ih =>
    simp [Style.hasMarkAfter, hcolon c (h c (by simp)), hnumber c (h c (by simp)),
      ih (fun d hd => h d (by simp [hd])) c]

theorem IsNumeral.allowsPlain {cs : List Char} (h : IsNumeral cs) : Style.allowsPlain cs := by
  have hordinary : ∀ c ∈ numeralChars, Style.isOrdinary c := List.all_iff_forall_prop.1 (by decide)
  have hend : ∀ c ∈ numeralChars, Style.isLineEnd c = false :=
    List.all_iff_forall_prop.1 (by decide)
  have hspace : ' ' ∉ numeralChars := by decide
  obtain ⟨d, r, hd, hcs⟩ := h.head
  have hd := mem_of_isDigit hd
  have hstarts : Style.startsWithMark cs = false := by
    have hdigit : ∀ d ∈ "0123456789".toList,
        ("#,[]\x7b\x7d&*!|>'\"%@`".toList.contains d) = false ∧
          ("?:-".toList.contains d) = false ∧ d ≠ ' ' := List.all_iff_forall_prop.1 (by decide)
    obtain ⟨hmark, hapart, hspace⟩ := hdigit d hd
    rcases hcs with rfl | rfl
    · rw [Style.startsWithMark, hmark, hapart]
      rfl
    · have hminus : "#,[]\x7b\x7d&*!|>'\"%@`".toList.contains '-' = false := by decide
      rw [Style.startsWithMark, hminus]
      simp [Style.isApart, hspace]
  have hdocument : Style.startsLikeDocument cs = false := by
    have hdigit : ∀ d ∈ "0123456789".toList, d ≠ '-' ∧ d ≠ '.' :=
      List.all_iff_forall_prop.1 (by decide)
    obtain ⟨hminus, hpoint⟩ := hdigit d hd
    rcases hcs with rfl | rfl <;>
      simp [Style.startsLikeDocument, List.isPrefixOf, hminus.symm, hpoint.symm]
  have hhead : cs.head? ≠ some ' ' := fun he => hspace (h.chars ' ' (List.mem_of_mem_head? he))
  have hlast : cs.getLast? ≠ some ' ' := fun he => hspace (h.chars ' ' (List.mem_of_getLast? he))
  have hall : cs.all Style.isOrdinary = true :=
    List.all_eq_true.2 fun c hc => hordinary c (h.chars c hc)
  have hany : cs.any Style.isLineEnd = false :=
    List.any_eq_false.2 fun c hc => by simp [hend c (h.chars c hc)]
  cases cs with
  | nil => rcases hcs with h | h <;> cases h
  | cons c t =>
    have hmark := hasMarkAfter_numeral (fun c hc => h.chars c (List.mem_cons_of_mem _ hc)) c
    simp only [Style.allowsPlain, hall, hany, hstarts, hdocument, hmark]
    simp [hlast, Ne.symm (ne_of_mem_of_not_mem (h.chars c List.mem_cons_self) hspace).symm]

theorem toList_intText (n : Int) :
    (intText n).toList = (if n < 0 then ['-'] else []) ++ Nat.toDigits 10 n.natAbs := by
  unfold intText
  split <;> simp

theorem isNumeral_intText (n : Int) : IsNumeral (intText n).toList := by
  obtain ⟨d, r, hdigits⟩ := List.exists_cons_of_ne_nil (toDigits_ne_nil n.natAbs)
  have hdigit : ∀ c ∈ d :: r, c.isDigit := fun c hc => isDigit_of_mem_toDigits (hdigits ▸ hc)
  rw [toList_intText, hdigits]
  refine ⟨fun c hc => ?_, d, r, hdigit d (by simp), ?_⟩
  · rcases List.mem_append.1 hc with hc | hc
    · split at hc
      · rw [List.mem_singleton.1 hc]
        decide
      · cases hc
    · exact mem_numeralChars_of_isDigit (hdigit c hc)
  · split
    · exact .inr rfl
    · exact .inl rfl

/-! ### Integers -/

theorem IsNumeral.ne_nil {cs : List Char} (h : IsNumeral cs) : cs ≠ [] := by
  obtain ⟨d, r, -, h | h⟩ := h.head <;> simp [h]

/-- A numeral is no word that begins with another character. -/
theorem IsNumeral.not_contains {cs : List Char} (h : IsNumeral cs) {words : List String}
    (hwords : (words.all fun w => !w.toList.head?.any numeralChars.contains) = true) :
    words.contains (String.ofList cs) = false := by
  by_contra hmem
  rw [Bool.not_eq_false, List.contains_iff_mem] at hmem
  have hnone := List.all_eq_true.1 hwords _ hmem
  obtain ⟨c, t, rfl⟩ := List.exists_cons_of_ne_nil h.ne_nil
  simp [h.chars c (by simp)] at hnone

theorem IsNumeral.dropLineEnd {cs : List Char} (h : IsNumeral cs) : dropLineEnd cs = cs := by
  have hn : '\n' ∉ numeralChars := by decide
  exact if_neg fun hlast => hn (h.chars '\n' (List.mem_of_getLast? hlast))

theorem IsNumeral.not_isTruthWord {cs : List Char} (h : IsNumeral cs) :
    Form.isTruthWord cs = false :=
  h.not_contains (by decide)

/-- What a sign is put before. -/
def withSign (negative : Bool) (cs : List Char) : List Char :=
  if negative then '-' :: cs else cs

theorem unsigned_withSign (negative : Bool) {d : Char} (r : List Char) (hd : d.isDigit) :
    Form.unsigned (withSign negative (d :: r)) = d :: r := by
  have hne : ∀ d ∈ "0123456789".toList, d ≠ '+' ∧ d ≠ '-' := List.all_iff_forall_prop.1 (by decide)
  obtain ⟨hplus, hminus⟩ := hne d (mem_of_isDigit hd)
  cases negative <;> simp [withSign, Form.unsigned, hplus, hminus]

theorem signOf_withSign (negative : Bool) {d : Char} (r : List Char) (hd : d.isDigit) :
    signOf (withSign negative (d :: r)) = (negative, d :: r) := by
  have hne : ∀ d ∈ "0123456789".toList, d ≠ '+' ∧ d ≠ '-' := List.all_iff_forall_prop.1 (by decide)
  obtain ⟨hplus, hminus⟩ := hne d (mem_of_isDigit hd)
  cases negative with
  | true => rfl
  | false =>
    unfold signOf withSign
    split <;> simp_all

theorem not_mem_of_isDigit {c : Char} {cs : List Char} (h : ∀ d ∈ cs, d.isDigit)
    (hc : c.isDigit = false) : c ∉ cs := fun hmem => by
  rw [h c hmem] at hc
  cases hc

/-- Digits without a zero in front, or zero alone. -/
theorem isInt_digits {d : Char} {r : List Char} (h : ∀ c ∈ d :: r, c.isDigit)
    (hzero : d ≠ '0' ∨ r = []) (negative : Bool) : Form.isInt (withSign negative (d :: r)) := by
  have hd := h d (by simp)
  have hpieces : pieces ':' (d :: r) = [d :: r] := pieces_of_not_mem (not_mem_of_isDigit h rfl)
  have hdigits : Form.isDigits (d :: r) := by
    simp only [Form.isDigits, hd, Bool.true_and, List.all_eq_true]
    exact fun c hc => by simp [Form.isDigitOrLow, h c (by simp [hc])]
  rw [Form.isInt, unsigned_withSign negative r hd]
  split
  · rfl
  · simp_all
  · simp_all
  · simp_all
  · rw [hpieces]
    simpa using hdigits

/-- Without a point there is no fraction. -/
theorem not_isFloat_of_not_mem {cs : List Char} (h : '.' ∉ cs) : Form.isFloat cs = false := by
  have hu : '.' ∉ Form.unsigned cs := by
    intro hmem
    refine h ?_
    cases cs with
    | nil => exact hmem
    | cons c r =>
      rw [Form.unsigned] at hmem
      split at hmem
      · exact List.mem_cons_of_mem _ hmem
      · exact hmem
  have hdrop : (Form.unsigned cs).dropWhile (· ≠ '.') = [] :=
    List.dropWhile_eq_nil_iff.2 fun c hc => by
      have hne : c ≠ '.' := by
        rintro rfl
        exact hu hc
      simpa using hne
  simp only [Form.isFloat, hdrop]
  split <;> first | rfl | simp_all

theorem head_toDigits (n : Nat) : ∃ d r, Nat.toDigits 10 n = d :: r ∧
    (∀ c ∈ d :: r, c.isDigit) ∧ (d ≠ '0' ∨ r = []) := by
  obtain ⟨d, r, hdigits⟩ := List.exists_cons_of_ne_nil (toDigits_ne_nil n)
  refine ⟨d, r, hdigits, fun c hc => isDigit_of_mem_toDigits (hdigits ▸ hc), ?_⟩
  by_cases hn : n = 0
  · subst hn
    obtain ⟨rfl, rfl⟩ := List.cons.inj (hdigits.symm.trans (show _ = ['0'] from rfl))
    exact .inr rfl
  · have hne := head?_toDigits_ne hn
    rw [hdigits] at hne
    exact .inl (by simpa using hne)

theorem intText_eq (n : Int) :
    (intText n).toList = withSign (n < 0) (Nat.toDigits 10 n.natAbs) := by
  rw [toList_intText, withSign]
  by_cases h : n < 0 <;> simp [h]

theorem ofPlain_intText (n : Int) : Tag.ofPlain (intText n) = .int := by
  have h := isNumeral_intText n
  have hne : intText n ≠ "" := fun he => h.ne_nil (by rw [he]; rfl)
  have hint : Form.isInt (intText n).toList = true := by
    obtain ⟨d, r, hdigits, hall, hzero⟩ := head_toDigits n.natAbs
    rw [intText_eq, hdigits]
    exact isInt_digits hall hzero _
  have hfloat : Form.isFloat (intText n).toList = false := by
    refine not_isFloat_of_not_mem fun hmem => ?_
    rw [toList_intText] at hmem
    rcases List.mem_append.1 hmem with hmem | hmem
    · split at hmem <;> simp at hmem
    · exact absurd (isDigit_of_mem_toDigits hmem) (by decide)
  simp [Tag.ofPlain, hne, h.dropLineEnd, h.not_isTruthWord, hfloat, hint]

theorem filter_numeral {cs : List Char} (h : IsNumeral cs) : cs.filter (· ≠ '_') = cs := by
  have hlow : '_' ∉ numeralChars := by decide
  refine List.filter_eq_self.2 fun c hc => ?_
  simpa using ne_of_mem_of_not_mem (h.chars c hc) hlow

theorem asciiNumeral_of_mem {cs : List Char} (h : ∀ c ∈ cs, c ∈ numeralChars) :
    asciiNumeral cs = cs := by
  have hlow : ∀ c ∈ numeralChars, c.toNat < 0x7f := List.all_iff_forall_prop.1 (by decide)
  rw [asciiNumeral]
  conv_rhs => rw [← List.map_id cs]
  exact List.map_congr_left fun c hc => by simp [hlow c (h c hc)]

/-- A list without members of a class at its ends stays as it is. -/
theorem trimBy_of_forall {p : Char → Bool} {cs : List Char} (h : ∀ c ∈ cs, p c = false) :
    trimBy p cs = cs := by
  have hdrop : ∀ cs : List Char, (∀ c ∈ cs, p c = false) → cs.dropWhile p = cs := by
    intro cs hcs
    cases cs with
    | nil => rfl
    | cons c r => simp [hcs c List.mem_cons_self]
  rw [trimBy, hdrop cs h, hdrop cs.reverse (by simpa using h), List.reverse_reverse]

theorem trimBy_of_mem {cs : List Char} (h : ∀ c ∈ cs, c ∈ numeralChars) :
    trimBy isAsciiSpace cs = cs := by
  have hspace : ∀ c ∈ numeralChars, isAsciiSpace c = false := List.all_iff_forall_prop.1 (by decide)
  exact trimBy_of_forall fun c hc => hspace c (h c hc)

theorem digitBelow?_of_isDigit {c : Char} (h : c.isDigit) :
    digitBelow? 10 c = some (c.toNat - 48) := by
  have hall : ∀ c ∈ "0123456789".toList, digitBelow? 10 c = some (c.toNat - 48) :=
    List.all_iff_forall_prop.1 (by decide)
  exact hall c (mem_of_isDigit h)

theorem mapM_digitBelow? {cs : List Char} (h : ∀ c ∈ cs, c.isDigit) :
    cs.mapM (digitBelow? 10) = some (cs.map fun c => c.toNat - 48) := by
  induction cs with
  | nil => rfl
  | cons c r ih =>
    rw [List.mapM_cons, digitBelow?_of_isDigit (h c (by simp)), ih fun d hd => h d (by simp [hd])]
    rfl

theorem integer_digits {cs : List Char} (h : ∀ c ∈ cs, c.isDigit) (hne : cs ≠ [])
    (hlength : cs.length ≤ numeralLimit) : integer 10 cs = .ok (natOfDigits cs) := by
  have hchars : ∀ c ∈ cs, c ∈ numeralChars := fun c hc => mem_numeralChars_of_isDigit (h c hc)
  have hsign : signOf cs = (false, cs) := by
    obtain ⟨d, r, rfl⟩ := List.exists_cons_of_ne_nil hne
    exact signOf_withSign false r (h d (by simp))
  have hmark : withoutMark 10 cs = cs := by
    unfold withoutMark
    split <;> simp
  have hfold : (cs.map fun c => c.toNat - 48).foldl (fun n d => 10 * n + d) 0 = natOfDigits cs := by
    rw [List.foldl_map]
    rfl
  simp [integer, asciiNumeral_of_mem hchars, trimBy_of_mem hchars, hsign, hmark, hne,
    Nat.not_lt.2 hlength, mapM_digitBelow? h, hfold, signed]

theorem integerOf_intText {n : Int} (h : digitCount n.natAbs ≤ numeralLimit) :
    integerOf (intText n) = .ok n := by
  obtain ⟨d, r, hdigits, hall, hzero⟩ := head_toDigits n.natAbs
  have hd := hall d (by simp)
  have hsign : signOf (intText n).toList = (decide (n < 0), d :: r) := by
    rw [intText_eq, hdigits, signOf_withSign _ r hd]
  have hinteger : integer 10 (d :: r) = .ok n.natAbs := by
    rw [integer_digits hall (by simp) (by rw [← hdigits]; exact h), ← hdigits, natOfDigits_toDigits]
  have hpieces : pieces ':' (d :: r) = [d :: r] := pieces_of_not_mem (not_mem_of_isDigit hall rfl)
  have hvalue : (if decide (n < 0) = true then -(n.natAbs : Int) else n.natAbs) = n := by
    simp only [decide_eq_true_eq]
    split <;> omega
  rw [integerOf, filter_numeral (isNumeral_intText n), hsign]
  dsimp only
  have hresult : ((Except.ok (n.natAbs : Int) : Except Error Int).bind fun m =>
      .ok (if decide (n < 0) = true then -m else m)) = .ok n := congrArg Except.ok hvalue
  rw [← hinteger] at hresult
  split
  · simp_all
  · next h0 =>
    obtain ⟨rfl, rfl⟩ := List.cons.inj h0
    exact hresult
  · simp_all
  · simp_all
  · simp_all
  · rw [hpieces]
    exact hresult

/-! ### Binary64 numbers -/

theorem mem_numeralChars_ending (p : Pointed) : ∀ c ∈ p.ending, c ∈ numeralChars := by
  have hexponent := p.isExponent
  have hletter := p.letter
  match p.ending, hexponent, hletter with
  | [], _, _ => simp
  | c :: s :: d :: r, hexponent, hletter =>
    obtain rfl : c = 'e' := hletter c (by simp)
    simp only [Form.isExponent, Bool.and_eq_true, Bool.or_eq_true, decide_eq_true_eq,
      List.all_eq_true] at hexponent
    obtain ⟨⟨⟨-, hs⟩, hd⟩, hr⟩ := hexponent
    intro c hc
    simp only [List.mem_cons] at hc
    obtain rfl | rfl | rfl | hc := hc
    · decide
    · rcases hs with rfl | rfl <;> decide
    · exact mem_numeralChars_of_isDigit hd
    · exact mem_numeralChars_of_isDigit (hr c hc)

theorem exists_chars_eq (p : Pointed) : ∃ d r, p.chars = d :: r ∧ d.isDigit := by
  obtain ⟨d, r, hwhole⟩ := List.exists_cons_of_ne_nil p.whole_ne
  exact ⟨d, _, by rw [Pointed.chars, hwhole, List.cons_append],
    p.isDigit_whole d (by simp [hwhole])⟩

theorem isNumeral_pointed (p : Pointed) (negative : Bool) :
    IsNumeral (withSign negative p.chars) := by
  obtain ⟨d, r, hchars, hd⟩ := exists_chars_eq p
  have hmem : ∀ c ∈ p.chars, c ∈ numeralChars := by
    intro c hc
    simp only [Pointed.chars, List.mem_append, List.mem_cons] at hc
    obtain hc | rfl | hc | hc := hc
    · exact mem_numeralChars_of_isDigit (p.isDigit_whole c hc)
    · decide
    · exact mem_numeralChars_of_isDigit (p.isDigit_fraction c hc)
    · exact mem_numeralChars_ending p c hc
  refine ⟨fun c hc => ?_, d, r, hd, ?_⟩
  · unfold withSign at hc
    split at hc
    · rcases List.mem_cons.1 hc with rfl | hc
      · decide
      · exact hmem c hc
    · exact hmem c hc
  · cases negative <;> simp [withSign, hchars]

theorem isFloat_pointed (p : Pointed) (negative : Bool) :
    Form.isFloat (withSign negative p.chars) := by
  obtain ⟨d, r, hchars, hd⟩ := exists_chars_eq p
  have hu : Form.unsigned (withSign negative p.chars) = p.chars := by
    rw [hchars, unsigned_withSign negative r hd]
  have hpoint : ∀ c ∈ p.whole, decide (c ≠ '.') = true := by
    intro c hc
    have hc := p.isDigit_whole c hc
    simp only [ne_eq, decide_not, Bool.not_eq_true', decide_eq_false_iff_not]
    rintro rfl
    cases hc
  have hlow : ∀ c ∈ p.fraction, Form.isDigitOrLow c := fun c hc => by
    simp [Form.isDigitOrLow, p.isDigit_fraction c hc]
  have htake : p.chars.takeWhile (· ≠ '.') = p.whole := by
    rw [Pointed.chars, List.takeWhile_append_of_pos hpoint]
    simp
  have hdrop : p.chars.dropWhile (· ≠ '.') = '.' :: (p.fraction ++ p.ending) := by
    rw [Pointed.chars, List.dropWhile_append_of_pos hpoint]
    simp
  have hpieces : pieces ':' p.whole = [p.whole] :=
    pieces_of_not_mem (not_mem_of_isDigit p.isDigit_whole rfl)
  have hdigits : Form.isDigits p.whole := by
    obtain ⟨c, t, hwhole⟩ := List.exists_cons_of_ne_nil p.whole_ne
    have hdigit := p.isDigit_whole
    rw [hwhole] at hdigit ⊢
    simp only [Form.isDigits, hdigit c (by simp), Bool.true_and, List.all_eq_true]
    exact fun c hc => by simp [Form.isDigitOrLow, hdigit c (by simp [hc])]
  simp only [Form.isFloat, hu, htake, hdrop]
  split
  · next h _ => exact absurd h p.whole_ne
  · next hfraction _ =>
    obtain ⟨-, rfl⟩ := List.cons.inj hfraction
    rw [hpieces]
    simp only [hdigits, p.dropWhile_ending rfl hlow, p.isExponent, Bool.and_self]
  · next h _ => exact absurd rfl (h _)

theorem map_toLower_of_mem {cs : List Char} (h : ∀ c ∈ cs, c ∈ numeralChars) :
    cs.map Char.toLower = cs := by
  have hlow : ∀ c ∈ numeralChars, c.toLower = c := List.all_iff_forall_prop.1 (by decide)
  conv_rhs => rw [← List.map_id cs]
  exact List.map_congr_left fun c hc => hlow c (h c hc)

theorem decimal_pointed (p : Pointed) : decimal p.chars = .ok (p.decimal.toBinary64 false) := by
  have h : IsNumeral p.chars := isNumeral_pointed p false
  obtain ⟨d, r, hchars, hd⟩ := exists_chars_eq p
  have hsign : signOf p.chars = (false, p.chars) := by
    rw [hchars]
    exact signOf_withSign false r hd
  have hwords : ["inf", "infinity", "nan"].contains (String.ofList p.chars) = false :=
    h.not_contains (by decide)
  simp only [List.contains_cons, List.contains_nil, Bool.or_false, Bool.or_eq_false_iff,
    beq_eq_false_iff_ne] at hwords
  obtain ⟨hinf, hinfinity, hnan⟩ := hwords
  simp only [decimal, asciiNumeral_of_mem h.chars, trimBy_of_mem h.chars, hsign,
    map_toLower_of_mem h.chars, hinf, hinfinity, hnan, p.ofChars?_chars]
  simp

theorem decimalOf_pointed (p : Pointed) (negative : Bool) {text : String}
    (h : text.toList = withSign negative p.chars) :
    decimalOf text = .ok (if negative then (p.decimal.toBinary64 false).neg
      else p.decimal.toBinary64 false) := by
  have hnumeral := isNumeral_pointed p negative
  have hunsigned := isNumeral_pointed p false
  obtain ⟨d, r, hchars, hd⟩ := exists_chars_eq p
  have hsign : signOf (withSign negative p.chars) = (negative, p.chars) := by
    rw [hchars, signOf_withSign negative r hd]
  have hne : (withSign negative p.chars).isEmpty = false := by
    simpa using hnumeral.ne_nil
  have hpieces : pieces ':' p.chars = [p.chars] := by
    have hcolon : ':' ∉ numeralChars := by decide
    exact pieces_of_not_mem fun hmem => hcolon (hunsigned.chars _ hmem)
  have hwords : p.chars ≠ ".inf".toList ∧ p.chars ≠ ".nan".toList := by
    rw [hchars]
    constructor <;>
    · rintro h
      obtain ⟨rfl, -⟩ := List.cons.inj h
      cases hd
  simp only [decimalOf, h, filter_numeral hnumeral, map_toLower_of_mem hnumeral.chars, hsign, hne,
    if_neg hwords.1, if_neg hwords.2, hpieces, decimal_pointed]
  rfl

/-- A magnitude without mantissa is zero. -/
theorem eq_zero_of_mantissa {x : Magnitude} (h : x.mantissa = 0) : x = .zero := by
  obtain ⟨m, e, hlt, hle, hfull⟩ := x
  subst h
  obtain rfl : e = 0 := hfull.resolve_right (by decide)
  rfl

/-- The text of a number that is not zero is that of its digits behind its sign. -/
theorem toList_text (layout : NumberLayout) (negative : Bool) {x : Magnitude}
    (hm : x.mantissa ≠ 0) :
    ((Binary64.finite negative x).text layout).toList =
      withSign negative (x.shortest.text layout).toList := by
  rw [Binary64.text, if_neg hm]
  cases negative <;> simp [withSign]

/-- The text of a finite number is a numeral that is read as the number. -/
theorem exists_pointed_finite (negative : Bool) (x : Magnitude) :
    ∃ p : Pointed, ((Binary64.finite negative x).text .yaml).toList = withSign negative p.chars ∧
      p.decimal.toBinary64 false = .finite false x := by
  by_cases hm : x.mantissa = 0
  · refine ⟨⟨['0'], ['0'], [], 0, List.all_eq_true.1 (by decide),
      by simp, by simp, rfl, by simp, rfl⟩, ?_, ?_⟩
    · rw [Binary64.text, if_pos hm]
      cases negative <;> rfl
    · rw [eq_zero_of_mantissa hm]
      rfl
  · obtain ⟨p, hchars, hvalue⟩ := x.shortest.exists_pointed
    exact ⟨p, by rw [toList_text _ negative hm, hchars], Magnitude.toBinary64_of_value hm hvalue⟩

theorem ofPlain_finite (negative : Bool) (x : Magnitude) :
    Tag.ofPlain ((Binary64.finite negative x).text .yaml) = .float := by
  obtain ⟨p, htext, -⟩ := exists_pointed_finite negative x
  have h := isNumeral_pointed p negative
  have hne : (Binary64.finite negative x).text .yaml ≠ "" := fun he => by
    rw [he] at htext
    exact h.ne_nil htext.symm
  simp only [Tag.ofPlain, if_neg hne, htext, h.dropLineEnd, h.not_isTruthWord,
    isFloat_pointed p negative]
  simp

theorem decimalOf_finite (negative : Bool) (x : Magnitude) :
    decimalOf ((Binary64.finite negative x).text .yaml) = .ok (.finite negative x) := by
  obtain ⟨p, htext, hvalue⟩ := exists_pointed_finite negative x
  rw [decimalOf_pointed p negative htext, hvalue]
  cases negative <;> rfl

/-! ### Words -/

/-- Whether a scalar is one that a plain text stands for: nothing, a truth value, an integer that is
not too long, a finite number. -/
def isWord : Scalar → Bool
  | .null => true
  | .bool _ => true
  | .int n => digitCount n.natAbs ≤ numeralLimit
  | .float x => x.isFinite
  | _ => false

/-- Such scalars are written plain and read back. -/
theorem exists_word {s : Scalar} (h : isWord s) :
    ∃ w, wordOf? s = some w ∧ Style.allowsPlain w.toList ∧ Tag.ofPlain w ≠ .merge ∧
      (Tag.ofPlain w).isCollection = false ∧ scalarOf (Tag.ofPlain w) (.str w) = .ok s := by
  cases s with
  | null => exact ⟨"null", rfl, by decide, by decide, by decide, by decide⟩
  | bool b => cases b <;> exact ⟨_, rfl, by decide, by decide, by decide, by decide⟩
  | int n =>
    have htag := ofPlain_intText n
    refine ⟨intText n, rfl, (isNumeral_intText n).allowsPlain, ?_, ?_, ?_⟩ <;> rw [htag]
    · decide
    · rfl
    · rw [scalarOf, Text.string, integerOf_intText (of_decide_eq_true h)]
      rfl
  | float x =>
    cases x with
    | finite negative x =>
      obtain ⟨p, htext, -⟩ := exists_pointed_finite negative x
      have hnumeral := isNumeral_pointed p negative
      have htag := ofPlain_finite negative x
      refine ⟨_, rfl, htext ▸ hnumeral.allowsPlain, ?_, ?_, ?_⟩ <;> rw [htag]
      · decide
      · rfl
      · rw [scalarOf, Text.string, decimalOf_finite]
        rfl
    | nan => cases h
    | infinity => cases h
  | str => cases h
  | wild => cases h
  | bytes => cases h
  | date => cases h
  | moment => cases h

end Yaml
end Runbook
