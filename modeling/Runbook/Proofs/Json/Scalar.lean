import Runbook.Json.Reader
import Runbook.Proofs.Decimal.Plain
import Runbook.Proofs.Json.Value
import Runbook.Proofs.Value.Plain

/-!
# JSON scalars are read back

A number, a word or a string in JSON text is read back, whatever follows it in the text of a
collection.

* `numeral_int`, `numeral_float`: numerals, of integers within the limit and of finite numbers;
* `atom_scalarText`: words and numerals with their signs;
* `string_body`: strings after their opening quote.
-/

namespace Runbook
namespace Json

open Yaml (Form.isExponent withSign)

/-- Whether a value is over where a text goes on: at its end, at a comma or at a closing bracket. -/
def EndsValue (rest : List Char) : Prop :=
  ∀ c ∈ rest.head?, c ∈ [',', ']', '}']

theorem endsValue_nil : EndsValue [] := by simp [EndsValue]

theorem endsValue_cons {c : Char} (r : List Char) (h : c ∈ [',', ']', '}']) :
    EndsValue (c :: r) := by
  simpa [EndsValue] using h

/-! ### Parts of numerals -/

section Parts

variable {ds ending r : List Char}

/-- Digits without leading zero are read as a whole. -/
theorem wholeDigits_append (hds : ∀ c ∈ ds, c.isDigit) (hzero : ds.head? = some '0' → ds = ['0'])
    (hr : ∀ c ∈ r.head?, c.isDigit = false) (hne : ds ≠ []) :
    wholeDigits (ds ++ r) = (ds, r) := by
  obtain ⟨d, ds, rfl⟩ := List.exists_cons_of_ne_nil hne
  by_cases hd : d = '0'
  · subst hd
    rw [hzero rfl]
    rfl
  · rw [List.cons_append, wholeDigits]
    · exact spanDigits_append hds hr
    · intro _ heq
      exact hd (List.cons.inj heq).1

/-- Digits behind a point, if there are any. -/
def pointed (ds : List Char) : List Char :=
  if ds = [] then [] else '.' :: ds

theorem fraction_append (hds : ∀ c ∈ ds, c.isDigit)
    (hr : ∀ c ∈ r.head?, c.isDigit = false ∧ c ≠ '.') :
    fraction (pointed ds ++ r) = (pointed ds, r) := by
  cases ds with
  | nil =>
    cases r with
    | nil => rfl
    | cons c r =>
      rw [pointed, if_pos rfl, List.nil_append, fraction]
      intro _ _ heq
      exact (hr c rfl).2 (List.cons.inj heq).1
  | cons d ds =>
    have hspan := spanDigits_append hds fun c hc => (hr c hc).1
    rw [pointed, if_neg (by simp), List.cons_append, List.cons_append, fraction,
      if_pos (hds d List.mem_cons_self), ← List.cons_append, hspan]

theorem exponent_append (hending : Form.isExponent ending)
    (hr : ∀ c ∈ r.head?, c.isDigit = false ∧ c ≠ 'e' ∧ c ≠ 'E') :
    exponent (ending ++ r) = (ending, r) := by
  unfold Form.isExponent at hending
  split at hending
  · cases r with
    | nil => rfl
    | cons c r =>
      obtain ⟨-, he, hE⟩ := hr c rfl
      rw [List.nil_append, exponent, if_neg (by simp [he, hE])]
  · next e s d t =>
    simp only [Bool.and_eq_true, Bool.or_eq_true, decide_eq_true_eq, List.all_eq_true] at hending
    obtain ⟨⟨⟨he, hs⟩, hd⟩, ht⟩ := hending
    have hsign : spanSign (s :: (d :: t ++ r)) = ([s], d :: t ++ r) := by
      rcases hs with rfl | rfl <;> rfl
    have hspan := spanDigits_append (List.forall_mem_cons.2 ⟨hd, ht⟩) fun c hc => (hr c hc).1
    show exponent (e :: s :: (d :: t ++ r)) = _
    simp only [exponent, if_pos he, hsign, hspan]
    simp
  · cases hending

end Parts

/-! ### Numerals -/

/-- A character after which a value goes on is no part of a numeral. -/
theorem EndsValue.not_numeral {rest : List Char} (h : EndsValue rest) :
    ∀ c ∈ rest.head?, c.isDigit = false ∧ c ≠ '.' ∧ c ≠ 'e' ∧ c ≠ 'E' := by
  have hall : ∀ c ∈ [',', ']', '}'], c.isDigit = false ∧ c ≠ '.' ∧ c ≠ 'e' ∧ c ≠ 'E' := by simp
  exact fun c hc => hall c (h c hc)

/-- The parts of a numeral of JSON: digits without leading zero, digits behind a point, if any, and
an exponent part, possibly empty. -/
structure AreParts (whole ds ending : List Char) : Prop where
  digits : ∀ c ∈ whole, c.isDigit
  nonempty : whole ≠ []
  zero : whole.head? = some '0' → whole = ['0']
  decimals : ∀ c ∈ ds, c.isDigit
  exponent : Form.isExponent ending
  letter : ∀ c ∈ ending.head?, c = 'e'

section Numeral

variable {whole ds ending rest : List Char} (h : AreParts whole ds ending)
  (hrest : EndsValue rest) (dialect : Dialect) (negative : Bool)

include h hrest

/-- A numeral is read in its parts. -/
theorem numeral_append :
    numeral dialect negative (whole ++ (pointed ds ++ (ending ++ rest))) =
      (number dialect negative whole (pointed ds) ending).map fun x => (x, rest) := by
  have hnext := hrest.not_numeral
  have hending : ∀ c ∈ (ending ++ rest).head?, c.isDigit = false ∧ c ≠ '.' := by
    cases hcs : ending with
    | nil => exact fun c hc => ⟨(hnext c hc).1, (hnext c hc).2.1⟩
    | cons e t =>
      obtain rfl := h.letter e (by rw [hcs]; rfl)
      simp
  have hpoint : ∀ c ∈ (pointed ds ++ (ending ++ rest)).head?, c.isDigit = false := by
    by_cases hds : ds = []
    · rw [pointed, if_pos hds]
      exact fun c hc => (hending c hc).1
    · rw [pointed, if_neg hds]
      simp
  have hlast := exponent_append h.exponent fun c hc =>
    ⟨(hnext c hc).1, (hnext c hc).2.2⟩
  simp only [numeral, wholeDigits_append h.digits h.zero hpoint h.nonempty,
    fraction_append h.decimals hending, hlast]
  simp [h.nonempty]

/-- A numeral with a fraction or an exponent part is a binary64 number. -/
theorem numeral_append_float {y : Decimal} (hparts : ds ≠ [] ∨ ending ≠ [])
    (hy : Decimal.ofChars? (whole ++ (pointed ds ++ ending)) = some y) :
    numeral dialect negative (whole ++ (pointed ds ++ (ending ++ rest))) =
      .ok (.float (y.toBinary64 negative), rest) := by
  have hsome : ((pointed ds).isEmpty && ending.isEmpty) = false := by
    rcases hparts with hds | hending
    · simp [pointed, hds]
    · simp [hending]
  rw [numeral_append h hrest, number]
  simp only [List.append_assoc, hy, hsome]
  rfl

end Numeral

/-- The digits of an integer within the limit are read as the integer. -/
theorem numeral_natural {n : Nat} (hn : n < pow10 numeralLimit) {rest : List Char}
    (hrest : EndsValue rest) (dialect : Dialect) (negative : Bool) :
    numeral dialect negative (Nat.toDigits 10 n ++ rest) =
      .ok (.int (signed negative n), rest) := by
  have hparts : AreParts (Nat.toDigits 10 n) [] [] := by
    refine ⟨fun c => isDigit_of_mem_toDigits, toDigits_ne_nil n, ?_, by simp, rfl, by simp⟩
    intro hhead
    by_cases hzero : n = 0
    · subst hzero
      rfl
    · exact absurd hhead (head?_toDigits_ne hzero)
  have hlength : (Nat.toDigits 10 n).length ≤ numeralLimit :=
    (length_toDigits_le_iff (by decide)).2 hn
  have hread := numeral_append hparts hrest dialect negative
  simp only [number, pointed, if_pos hlength, natOfDigits_toDigits] at hread
  exact hread

/-- The text of an integer is read as the integer. -/
theorem numeral_int {n : Int} {t : String} (ht : scalarText .compact (.int n) = .ok t)
    {rest : List Char} (hrest : EndsValue rest) (dialect : Dialect) :
    ∃ d r, t.toList = withSign (n < 0) (d :: r) ∧ d.isDigit ∧
      numeral dialect (n < 0) (d :: r ++ rest) = .ok (.int n, rest) := by
  have hshort : n.natAbs < pow10 numeralLimit := by
    by_contra hlong
    have hfails := (failsIff_intText n).1 (Nat.not_lt.1 hlong)
    rw [scalarText, hfails] at ht
    cases ht
  have htext : t = Runbook.intText n := by
    simp only [scalarText, intText, Style.compact] at ht
    split at ht <;> cases ht
    rfl
  have hsign : signed (n < 0) n.natAbs = n := by
    by_cases hn : n < 0
    · rw [signed, if_pos (decide_eq_true hn)]
      omega
    · rw [signed, if_neg (by simpa using hn)]
      omega
  obtain ⟨d, r, hdigits⟩ := List.exists_cons_of_ne_nil (toDigits_ne_nil n.natAbs)
  have hread := numeral_natural hshort hrest dialect (n < 0)
  have hcs := Yaml.intText_eq n
  rw [hdigits] at hread hcs
  rw [hsign] at hread
  refine ⟨d, r, htext ▸ hcs, isDigit_of_mem_toDigits (n := n.natAbs) ?_, hread⟩
  rw [hdigits]
  exact List.mem_cons_self

/-- A decimal that is not zero is written as a numeral of JSON with a fraction or an exponent. -/
theorem exists_areParts {x : Decimal} {cs : List Char} (h : Decimal.Laid .json x cs)
    (hx : x.coefficient ≠ 0) :
    ∃ whole ds ending, cs = whole ++ (pointed ds ++ ending) ∧ AreParts whole ds ending ∧
      (ds ≠ [] ∨ ending ≠ []) := by
  have hdigits : ∀ c ∈ Nat.toDigits 10 x.coefficient, c.isDigit :=
    fun c => isDigit_of_mem_toDigits
  have hhead := head?_toDigits_ne hx
  have hzeros (k : Nat) : ∀ c ∈ List.replicate k '0', c.isDigit := by
    intro c hc
    rw [List.eq_of_mem_replicate hc]
    rfl
  cases h with
  | @whole k hk =>
    refine ⟨Nat.toDigits 10 x.coefficient ++ List.replicate k '0', ['0'], [], rfl,
      ⟨?_, by simp, ?_, by simp, rfl, by simp⟩, by simp⟩
    · exact List.forall_mem_append.2 ⟨hdigits, hzeros k⟩
    · intro hzero
      rw [List.head?_append_of_ne_nil _ (toDigits_ne_nil _)] at hzero
      exact absurd hzero hhead
  | @among k hpos hk hlt =>
    have htake : (Nat.toDigits 10 x.coefficient).take k ≠ [] := by simp [hpos.ne']
    have hdrop : (Nat.toDigits 10 x.coefficient).drop k ≠ [] := by
      simpa [digitCount] using hlt
    refine ⟨(Nat.toDigits 10 x.coefficient).take k, (Nat.toDigits 10 x.coefficient).drop k, [], ?_,
      ⟨fun c hc => hdigits c (List.mem_of_mem_take hc), htake, ?_,
        fun c hc => hdigits c (List.mem_of_mem_drop hc), rfl, by simp⟩, .inl hdrop⟩
    · rw [pointed, if_neg hdrop, List.append_nil]
    · intro hzero
      rw [List.head?_take, if_neg hpos.ne'] at hzero
      exact absurd hzero hhead
  | @after k hk =>
    refine ⟨['0'], List.replicate k '0' ++ Nat.toDigits 10 x.coefficient, [], ?_,
      ⟨by simp, by simp, by simp, ?_, rfl, by simp⟩, by simp⟩
    · simp [pointed]
    · exact List.forall_mem_append.2 ⟨hzeros k, hdigits⟩
  | @exponent d r ending hcs hexponent hletter hreads =>
    rw [hcs] at hdigits hhead
    refine ⟨[d], r, ending, ?_, ⟨?_, by simp, ?_, ?_, hexponent, by simp [hletter]⟩, .inr ?_⟩
    · by_cases hr : r = []
      · rw [pointed, if_pos hr, if_pos hr]
        rfl
      · rw [pointed, if_neg hr, if_neg hr]
        rfl
    · exact fun c hc => hdigits c (List.mem_cons.2 (.inl (List.mem_singleton.1 hc)))
    · exact fun hzero => absurd hzero hhead
    · exact fun c hc => hdigits c (List.mem_cons_of_mem _ hc)
    · rintro rfl
      cases hletter

/-- The coefficient of the shortest digits of a number that is not zero is not zero. -/
theorem coefficient_shortest_ne {x : Magnitude} (hm : x.mantissa ≠ 0) :
    x.shortest.coefficient ≠ 0 := by
  intro hzero
  have hread : x.shortest.toBinary64 false = .finite false x := Magnitude.toBinary64_of_value hm rfl
  rw [Decimal.toBinary64, if_pos hzero] at hread
  cases hread
  exact hm rfl

/-- The text of a finite number is read as the number, with the sign that a zero has. -/
theorem numeral_float (x : Magnitude) {rest : List Char} (hrest : EndsValue rest)
    (dialect : Dialect) (negative : Bool) :
    ∃ d r, ((Binary64.finite negative x).text .json).toList = withSign negative (d :: r) ∧
      d.isDigit ∧ numeral dialect negative (d :: r ++ rest) =
        .ok (.float (.finite negative x), rest) := by
  by_cases hm : x.mantissa = 0
  · have hparts : AreParts ['0'] ['0'] [] :=
      ⟨by simp, by simp, by simp, by simp, rfl, by simp⟩
    refine ⟨'0', ['.', '0'], ?_, rfl, ?_⟩
    · rw [Binary64.text, if_pos hm]
      cases negative <;> rfl
    · rw [Yaml.eq_zero_of_mantissa hm]
      exact numeral_append_float hparts hrest dialect negative (y := ⟨0, -1⟩) (by simp) rfl
  · have hlaid := x.shortest.laid_text .json
    obtain ⟨whole, ds, ending, hcs, hparts, hsome⟩ :=
      exists_areParts hlaid (coefficient_shortest_ne hm)
    obtain ⟨-, ⟨d, r, hcons, hd⟩, y, hy, hvalue⟩ := hlaid.isLiteralOf (.inr rfl) rfl
    refine ⟨d, r, by rw [Yaml.toList_text _ negative hm, hcons], hd, ?_⟩
    rw [hcs] at hy
    rw [← hcons, hcs, List.append_assoc, List.append_assoc,
      numeral_append_float hparts hrest dialect negative hsome hy,
      Magnitude.toBinary64_of_value hm hvalue]

/-! ### Words and signs -/

/-- A list that begins with a digit is read as a numeral, with its sign. -/
theorem atom_withSign (dialect : Dialect) (negative : Bool) {d : Char} (r : List Char)
    (hd : d.isDigit) :
    atom dialect (withSign negative (d :: r)) = numeral dialect negative (d :: r) := by
  have hletters : ∀ c ∈ "ntfNI-".toList, c.isDigit = false :=
    List.all_iff_forall_prop.1 (by decide)
  have hne (c : Char) (t : List Char) (hc : c ∈ "ntfNI-".toList) : d :: r ≠ c :: t := by
    intro heq
    rw [(List.cons.inj heq).1, hletters c hc] at hd
    cases hd
  cases negative with
  | false =>
    rw [withSign, if_neg (by simp), atom]
    all_goals
      intro _ heq
      exact hne _ _ (by decide) heq
  | true =>
    rw [withSign, if_pos rfl, atom]
    intro _ heq
    exact hne _ _ (by decide) heq

/-- The characters that a word or a numeral starts with. -/
def atomStarts : List Char := "-0123456789ntf".toList

/-- **Words and numerals are read back**, integers within the limit as integers and finite numbers
as binary64 numbers. -/
theorem atom_scalarText {s : Scalar} {t : String} (hs : s.isPlain) (hstr : ∀ x, s ≠ .str x)
    (ht : scalarText .compact s = .ok t) {rest : List Char} (hrest : EndsValue rest)
    (dialect : Dialect) :
    ∃ c r, t.toList = c :: r ∧ c ∈ atomStarts ∧ atom dialect (c :: r ++ rest) = .ok (s, rest) := by
  have hdigit {d : Char} (hd : d.isDigit) : d ∈ atomStarts :=
    List.mem_cons_of_mem _ (List.mem_append_left "ntf".toList (Yaml.mem_of_isDigit hd))
  have hsigned {negative : Bool} {d : Char} {r : List Char} (hd : d.isDigit)
      (hcs : t.toList = withSign negative (d :: r))
      (hread : numeral dialect negative (d :: r ++ rest) = .ok (s, rest)) :
      ∃ c r, t.toList = c :: r ∧ c ∈ atomStarts ∧
        atom dialect (c :: r ++ rest) = .ok (s, rest) := by
    have hatom := atom_withSign dialect negative (r ++ rest) hd
    rw [← List.cons_append, hread] at hatom
    cases negative with
    | false => exact ⟨d, r, hcs, hdigit hd, hatom⟩
    | true => exact ⟨'-', d :: r, hcs, by decide, hatom⟩
  cases s with
  | null =>
    cases ht
    exact ⟨_, _, rfl, by decide, rfl⟩
  | bool b =>
    cases ht
    cases b <;> exact ⟨_, _, rfl, by decide, rfl⟩
  | int n =>
    obtain ⟨d, r, hcs, hd, hread⟩ := numeral_int ht hrest dialect
    exact hsigned hd hcs hread
  | float x =>
    cases x with
    | nan => cases hs
    | infinity negative => cases hs
    | finite negative x =>
      cases ht
      obtain ⟨d, r, hcs, hd, hread⟩ := numeral_float x hrest dialect negative
      exact hsigned hd hcs hread
  | str x => exact absurd rfl (hstr x)
  | wild codes => cases hs
  | date d => cases hs
  | moment m => cases hs
  | bytes b => cases hs

/-! ### Strings -/

theorem string_escape (start : Nat) (acc : List Nat) {r rest : List Char} {n : Nat}
    (h : escape r = .ok (n, rest)) :
    string start acc ('\\' :: r) = string start (n :: acc) rest := by
  rw [string, if_neg (by decide), if_pos rfl]
  split
  · next n' rest' h' =>
    rw [h] at h'
    cases h'
    rfl
  · next cause h' =>
    rw [h] at h'
    cases h'

/-- The escape of a control character by its number is read back, if more follows. -/
theorem escape_unit {n : Nat} (hn : n < 32) {r : List Char} (hr : r ≠ []) :
    escape ('u' :: ((hexDigits 4 n).toList ++ r)) = .ok (n, r) := by
  obtain ⟨e, r, rfl⟩ := List.exists_cons_of_ne_nil hr
  have hall : ∀ n < 32, ∃ a b c d, (hexDigits 4 n).toList = [a, b, c, d] ∧
      hexNumber? [a, b, c, d] = some n ∧ isHighUnit n = false := by
    intro n hn
    interval_cases n <;> exact ⟨_, _, _, _, rfl, rfl, rfl⟩
  obtain ⟨a, b, c, d, hdigits, hnumber, hhigh⟩ := hall n hn
  rw [hdigits, escape]
  simp [unit?, hnumber, hhigh]

/-- A character of a string is read back from its text, if more follows. -/
theorem string_stringChar (start : Nat) (acc : List Nat) (c : Char) {r : List Char}
    (hr : r ≠ []) :
    string start acc ((stringChar false c).toList ++ r) = string start (c.toNat :: acc) r := by
  unfold stringChar
  -- the characters with an escape of one letter
  iterate 7
    split
    · next h => exact h ▸ string_escape start acc rfl
  split
  · next hcontrol =>
    have hunit : unicodeEscape c = "\\u" ++ hexDigits 4 c.toNat := if_pos (by omega)
    have hescape := escape_unit hcontrol hr
    rw [hunit, String.toList_append, List.append_assoc]
    exact string_escape start acc hescape
  · next hquote hbackslash _ _ _ _ _ hcontrol =>
    rw [Bool.false_and, if_neg (by simp), String.toList_ofList, List.singleton_append, string,
      if_neg hquote, if_neg hbackslash, if_neg hcontrol]

/-- **A string is read back** up to its closing quote. -/
theorem string_body (start : Nat) (acc : List Nat) (cs rest : List Char) :
    string start acc (cs.flatMap (fun c => (stringChar false c).toList) ++ '"' :: rest) =
      .ok (.ofCodes (acc.reverse ++ cs.map Char.toNat), rest) := by
  induction cs generalizing acc with
  | nil =>
    rw [List.flatMap_nil, List.nil_append, string, if_pos rfl, List.map_nil, List.append_nil]
  | cons c cs ih =>
    rw [List.flatMap_cons, List.append_assoc, string_stringChar start acc c (by simp), ih]
    simp

theorem toList_stringText (s : String) : (stringText false s).toList =
    '"' :: (s.toList.flatMap fun c => (stringChar false c).toList) ++ ['"'] := by
  have hfold (cs : List Char) (acc : String) :
      (cs.foldl (fun acc c => acc ++ stringChar false c) acc).toList =
        acc.toList ++ cs.flatMap fun c => (stringChar false c).toList := by
    induction cs generalizing acc with
    | nil => simp
    | cons c cs ih => rw [List.foldl_cons, ih]; simp
  rw [stringText, String.toList_push, hfold]
  rfl

end Json
end Runbook
