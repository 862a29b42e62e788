import Runbook.Proofs.Yaml.Quotes
import Runbook.Yaml.Token.Stream

/-!
# What is written for a scalar

A text is written in one of three forms, after a space unless a blank stands there. A short key
stays on its line.
-/

namespace Runbook
namespace Yaml

open Quoted

/-- What is written for a text at an indentation. The flag says whether it stands without quotes. -/
inductive Body (inner : Nat) : Bool → List Char → List Char → Prop
  | plain {text written : List Char} (h : Plain.Allowed text)
      (hform : Plain.Form inner text written) : Body inner true text written
  | single {text written : List Char} (h : Single inner text written) :
      Body inner false text ('\'' :: (written ++ ['\'']))
  | double {text written : List Char} (h : Double inner text written) :
      Body inner false text ('"' :: (written ++ ['"']))

namespace Style

variable {isKey : Bool} {text : String}

theorem of_plain (h : ofText isKey text = .plain) :
    allowsPlain text.toList ∧ Tag.ofPlain text = .str := by
  simp only [ofText] at h
  split at h
  · next hplain => simpa using hplain
  · split at h <;> cases h

theorem of_single (h : ofText isKey text = .single) : allowsSingle text.toList := by
  simp only [ofText] at h
  split at h
  · cases h
  split at h
  · next hsingle =>
    simp only [Bool.and_eq_true] at hsingle
    exact hsingle.1
  · cases h

theorem allowedSingle_of_allowsSingle {cs : List Char} (h : allowsSingle cs)
    (hkept : '\u0085' ∉ cs) : AllowedSingle cs := by
  simp only [allowsSingle, Bool.and_eq_true, Bool.not_eq_true', List.all_eq_true] at h
  exact ⟨h.1.1, hkept, h.1.2, h.2⟩

theorem not_isBreak_of_isOrdinary {c : Char} (h : isOrdinary c) (hend : isLineEnd c = false) :
    isBreak c = false := by
  by_cases hspace : c = ' '
  · rw [hspace]
    rfl
  · exact not_isBreak_of_isInline (isInline_of_isLetter (isLetter_of_isOrdinary h hend hspace))

end Style

namespace Pen

variable {inner : Nat} {p : Pen} {text : String}

/-- A place after a word. -/
def after (written : List Char) (column : Nat) : Pen := ⟨written, column, false, false⟩

/-- Whether a text can be read back from what is written for it at an indentation: between single
quotes U+0085 would be a line end that is folded; far to the right a fold could come between a
backslash and its space; and a key must not be too long to be one. -/
def keeps (inner : Nat) (isKey : Bool) (text : String) : Bool :=
  match Style.ofText isKey text with
  | .plain => true
  | .single => !text.toList.contains '\u0085'
  | .double =>
    if isKey then (escaped text.toList).length + 2 ≤ keyLimit
    else inner < lineWidth || !Style.hasPair isEscaped Style.isSpace text.toList

theorem exists_body_plain (inner : Nat) (p : Pen) (folds : Bool)
    (h : Style.allowsPlain text.toList) :
    ∃ body k, Body inner true text.toList body ∧ (folds = false → body = text.toList) ∧
      p.plain inner folds text = after (body.reverse ++ (p.gap ++ p.written)) k := by
  have hallowed := Plain.allowed_of_allowsPlain h
  have hne : text ≠ "" := by
    rintro rfl
    exact hallowed.ne_nil rfl
  obtain ⟨w, k, hform, hflat, hwrite⟩ := plainRuns_written inner folds
    (hallowed.resumes.words hallowed.ne_nil) (p.write p.gap).tight rfl rfl
  refine ⟨w, k, .plain hallowed hform, hflat, ?_⟩
  have hgap : p.gap.reverse = p.gap := by
    unfold gap
    split <;> rfl
  rw [plain_eq p inner folds hne, hwrite, after]
  simp [hgap]

theorem mark_closing (p : Pen) (c : Char) :
    p.mark [c] false false false = after (c :: p.written) (p.column + 1) := by
  simp [mark, write, after]

theorem exists_body_single (inner : Nat) (p : Pen) (folds : Bool) (h : AllowedSingle text.toList) :
    ∃ body k, Body inner false text.toList body ∧
      (folds = false → (∀ c ∈ text.toList, Style.isLineEnd c = false) →
        body = '\'' :: (doubled text.toList ++ ['\''])) ∧
      p.single inner folds text = after (body.reverse ++ (p.gap ++ p.written)) k := by
  obtain ⟨w, hw, hflat, hwritten⟩ := writesSingle_runs inner folds h true
    (p.mark ['\''] true false false) (.inl (by simp [mark])) fun _ => .inl rfl
  rw [written_mark] at hwritten
  generalize hq : singleRuns inner folds true (runs text.toList)
    (p.mark ['\''] true false false) = q at hwritten
  have hbody : '\'' :: (w.reverse ++ (['\''].reverse ++ (p.gap ++ p.written))) =
      ('\'' :: (w ++ ['\''])).reverse ++ (p.gap ++ p.written) := by simp
  refine ⟨_, q.column + 1, .single hw, fun hf hends => by rw [hflat hf hends], ?_⟩
  rw [single, hq, mark_closing, hwritten, hbody]

theorem exists_body_double (inner : Nat) (p : Pen) (folds : Bool) (h : folds = true →
      inner < lineWidth ∨ Style.hasPair isEscaped Style.isSpace text.toList = false) :
    ∃ body k, Body inner false text.toList body ∧
      (folds = false → body = '"' :: (escaped text.toList ++ ['"'])) ∧
      p.double inner folds text = after (body.reverse ++ (p.gap ++ p.written)) k := by
  obtain ⟨w, hw, hflat, hwritten⟩ := writesDouble_doubleFrom inner h true []
    (p.mark ['"'] true false false) (by simp [mark])
  rw [written_mark] at hwritten
  generalize hq : doubleFrom inner folds true [] text.toList
    (p.mark ['"'] true false false) = q at hwritten
  have hbody : '"' :: (w.reverse ++ ([] ++ (['"'].reverse ++ (p.gap ++ p.written)))) =
      ('"' :: (w ++ ['"'])).reverse ++ (p.gap ++ p.written) := by simp
  refine ⟨_, q.column + 1, .double hw, fun hf => by rw [hflat hf], ?_⟩
  rw [double, hq, mark_closing, hwritten, hbody]

theorem length_doubled_le (cs : List Char) : (doubled cs).length ≤ 2 * cs.length := by
  induction cs with
  | nil => exact Nat.le_refl 0
  | cons c cs ih =>
    have hc : (if c = '\'' then ['\'', '\''] else [c]).length ≤ 2 := by split <;> simp
    rw [doubled] at ih
    rw [doubled, List.flatMap_cons, List.length_append, List.length_cons]
    omega

theorem mem_doubled {c : Char} {cs : List Char} (h : c ∈ doubled cs) : c = '\'' ∨ c ∈ cs := by
  obtain ⟨d, hd, hc⟩ := List.mem_flatMap.1 h
  split at hc <;> simp_all

/-- What stands between double quotes on one line has no line ends. -/
theorem not_isBreak_of_mem_escaped {c : Char} {cs : List Char} (h : c ∈ escaped cs) :
    isBreak c = false := by
  obtain ⟨d, -, hc⟩ := List.mem_flatMap.1 h
  split at hc
  · exact not_isBreak_of_mem_escapeOf hc
  · next hd =>
    obtain rfl := List.mem_singleton.1 hc
    by_cases hspace : c = ' '
    · rw [hspace]
      rfl
    · exact not_isBreak_of_isInline
        (isInline_of_isLetter (isLetter_of_not_isEscaped (by simpa using hd) hspace))

theorem of_isShortKey (h : isShortKey text) :
    (∀ c ∈ text.toList, Style.isLineEnd c = false) ∧ text.toList.length < longKey := by
  simp only [isShortKey, Bool.and_eq_true, Bool.not_eq_true', List.any_eq_false,
    decide_eq_true_eq] at h
  exact ⟨fun c hc => by simpa using h.1.2 c hc, h.2⟩

theorem not_isBreak_of_mem_quoted {q : Char} {body : List Char} (hq : isBreak q = false)
    (h : ∀ c ∈ body, isBreak c = false) : ∀ c ∈ q :: (body ++ [q]), isBreak c = false := by
  intro c hc
  rcases List.mem_cons.1 hc with rfl | hc
  · exact hq
  rcases List.mem_append.1 hc with hc | hc
  · exact h c hc
  · rwa [List.mem_singleton.1 hc]

/-- A short key without quotes stays on its line. -/
theorem short_plain (hallows : Style.allowsPlain text.toList) (h : isShortKey text) :
    (∀ c ∈ text.toList, isBreak c = false) ∧ text.toList.length ≤ keyLimit := by
  have hresumes := (Plain.allowed_of_allowsPlain hallows).resumes
  have hlength := (of_isShortKey h).2
  simp only [longKey] at hlength
  refine ⟨fun c hc => ?_, by simp only [keyLimit]; omega⟩
  rcases hresumes.letters c hc with rfl | hletter
  · rfl
  · exact not_isBreak_of_isInline (isInline_of_isLetter hletter)

/-- A short key in single quotes stays on its line. -/
theorem short_single (hallowed : AllowedSingle text.toList) (h : isShortKey text) :
    (∀ c ∈ '\'' :: (doubled text.toList ++ ['\'']), isBreak c = false) ∧
      ('\'' :: (doubled text.toList ++ ['\''])).length ≤ keyLimit := by
  obtain ⟨hends, hlength⟩ := of_isShortKey h
  have hdoubled := length_doubled_le text.toList
  simp only [longKey] at hlength
  refine ⟨not_isBreak_of_mem_quoted rfl fun c hc => ?_, ?_⟩
  · rcases mem_doubled hc with rfl | hc
    · rfl
    · exact Style.not_isBreak_of_isOrdinary (hallowed.ordinary c hc) (hends c hc)
  · simp only [List.length_cons, List.length_append, List.length_nil, keyLimit]
    omega

/-- What is written for a text is a text of its style; a key without line ends stays on its
line and is short enough. -/
theorem exists_body (p : Pen) {isKey : Bool} (h : keeps inner isKey text) :
    ∃ body k, Body inner (Style.ofText isKey text = .plain) text.toList body ∧
      (isKey = true → isShortKey text →
        (∀ c ∈ body, isBreak c = false) ∧ body.length ≤ keyLimit) ∧
      p.text inner isKey text = after (body.reverse ++ (p.gap ++ p.written)) k := by
  rw [Pen.text]
  cases hstyle : Style.ofText isKey text with
  | plain =>
    obtain ⟨hallows, -⟩ := Style.of_plain hstyle
    obtain ⟨body, k, hbody, hflat, hwrite⟩ := exists_body_plain inner p (!isKey) hallows
    refine ⟨body, k, hbody, fun hkey hs => ?_, hwrite⟩
    rw [hflat (by simp [hkey])]
    exact short_plain hallows hs
  | single =>
    have hallows := Style.of_single hstyle
    have hkept : '\u0085' ∉ text.toList := by simpa [keeps, hstyle] using h
    have hallowed := Style.allowedSingle_of_allowsSingle hallows hkept
    obtain ⟨body, k, hbody, hflat, hwrite⟩ := exists_body_single inner p (!isKey) hallowed
    refine ⟨body, k, hbody, fun hkey hs => ?_, hwrite⟩
    rw [hflat (by simp [hkey]) (of_isShortKey hs).1]
    exact short_single hallowed hs
  | double =>
    have hkeeps : if isKey then (escaped text.toList).length + 2 ≤ keyLimit
        else inner < lineWidth ∨ Style.hasPair isEscaped Style.isSpace text.toList = false := by
      cases isKey <;> simpa [keeps, hstyle] using h
    obtain ⟨body, k, hbody, hflat, hwrite⟩ := exists_body_double inner p (!isKey)
      fun hfolds => by
        rw [Bool.not_eq_true'] at hfolds
        simpa [hfolds] using hkeeps
    refine ⟨body, k, hbody, fun hkey _ => ?_, hwrite⟩
    rw [hflat (by simp [hkey])]
    rw [if_pos hkey] at hkeeps
    refine ⟨not_isBreak_of_mem_quoted rfl fun c hc => not_isBreak_of_mem_escaped hc, ?_⟩
    simp only [List.length_cons, List.length_append, List.length_nil]
    omega

end Pen
end Yaml
end Runbook
