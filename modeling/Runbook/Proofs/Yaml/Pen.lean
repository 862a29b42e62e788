import Mathlib.Data.List.SplitBy
import Runbook.Proofs.Yaml.Plain
import Runbook.Proofs.Yaml.Quoted
import Runbook.Yaml.Pen

/-!
# Runs and plain texts

The pen cuts a text into runs of one kind. A text that is written without quotes is a row of words
with spaces between them; a line is folded only where one space stands.
-/

namespace Runbook
namespace Yaml

/-! ### The pen -/

namespace Pen

variable {p : Pen} {cs : List Char} {n : Nat}

@[simp] theorem written_write : (p.write cs).written = cs.reverse ++ p.written := rfl
@[simp] theorem column_write : (p.write cs).column = p.column + cs.length := rfl
@[simp] theorem atIndent_write : (p.write cs).atIndent = p.atIndent := rfl
@[simp] theorem afterBlank_write : (p.write cs).afterBlank = p.afterBlank := rfl
@[simp] theorem written_tight : p.tight.written = p.written := rfl
@[simp] theorem column_tight : p.tight.column = p.column := rfl
@[simp] theorem atIndent_tight : p.tight.atIndent = false := rfl
@[simp] theorem afterBlank_tight : p.tight.afterBlank = false := rfl

/-- At the start of a line, an indentation is spaces. -/
theorem indent_lineStart (w : List Char) (n : Nat) :
    (⟨w, 0, true, true⟩ : Pen).indent n = ⟨List.replicate n ' ' ++ w, n, true, true⟩ := by
  cases n with
  | zero => rfl
  | succ n => simp [indent, write]

/-- After anything but indentation, and to the right of it, an indentation is a new line. -/
theorem indent_of_inside (h : p.atIndent = false ∨ n < p.column) :
    p.indent n = ⟨List.replicate n ' ' ++ '\n' :: p.written, n, true, true⟩ := by
  rw [← indent_lineStart]
  rcases h with h | h
  · simp [indent, h, lineEnd]
  · simp [indent, h, lineEnd]

/-- The space before what begins at a place, unless a blank stands there. -/
def gap (p : Pen) : List Char := if p.afterBlank then [] else [' ']

theorem written_mark (c : List Char) (b i : Bool) :
    (p.mark c true b i).written = c.reverse ++ (p.gap ++ p.written) := by
  cases h : p.afterBlank <;> simp [mark, gap, h]

end Pen

/-! ### Runs -/

/-- A run of one kind, cut off before a character of another. -/
theorem runs_append {κ : RunKind} {w r : List Char} (hne : w ≠ []) (hw : ∀ c ∈ w, RunKind.of c = κ)
    (hr : ∀ c ∈ r.head?, RunKind.of c ≠ κ) : runs (w ++ r) = w :: runs r := by
  have hchain : w.IsChain fun a b => (decide (RunKind.of a = RunKind.of b)) = true := by
    refine List.Pairwise.isChain (List.Pairwise.imp_of_mem ?_
      (List.pairwise_of_forall fun _ _ => trivial))
    intro a b ha hb _
    simp [hw a ha, hw b hb]
  have hcut : ∀ x ∈ w.getLast?, ∀ y ∈ r.head?,
      (decide (RunKind.of x = RunKind.of y)) = false := by
    intro x hx y hy
    have hx' := hw x (List.mem_of_getLast? hx)
    simpa [hx'] using (hr y hy).symm
  rw [runs, List.splitBy_append hcut, List.splitBy_of_isChain hne hchain]
  rfl

@[simp] theorem runs_nil : runs [] = [] := rfl

/-- A text begins with a run of one kind. -/
theorem exists_run {cs : List Char} (h : cs ≠ []) : ∃ κ w r, cs = w ++ r ∧ w ≠ [] ∧
    (∀ c ∈ w, RunKind.of c = κ) ∧ ∀ c ∈ r.head?, RunKind.of c ≠ κ := by
  obtain ⟨c, t, rfl⟩ := List.exists_cons_of_ne_nil h
  have hsplit := List.takeWhile_append_dropWhile
    (p := fun d => decide (RunKind.of d = RunKind.of c)) (l := c :: t)
  refine ⟨RunKind.of c, _, _, hsplit.symm, by simp, fun d hd => ?_, fun d hd => ?_⟩
  · simpa using List.all_eq_true.1 List.all_takeWhile d hd
  · have := List.head?_dropWhile_not
      (p := fun d => decide (RunKind.of d = RunKind.of c)) (l := c :: t)
    rw [Option.mem_def.1 hd] at this
    simpa using this

theorem RunKind.eq_space {c : Char} (h : RunKind.of c = .spaces) : c = ' ' := by
  unfold RunKind.of at h
  split at h
  · assumption
  · split at h <;> cases h

/-! ### Classes of characters -/

namespace Style

variable {c : Char}

theorem isBreak_of_isLineEnd (h : isLineEnd c) : isBreak c = true := by
  simp only [isLineEnd, Bool.or_eq_true, decide_eq_true_eq] at h
  rcases h with ((rfl | rfl) | rfl) | rfl <;> rfl

/-- A character that is written as it is outside double quotes belongs to a line or ends it. -/
theorem isLetter_of_isOrdinary (h : isOrdinary c) (hend : isLineEnd c = false) (hspace : c ≠ ' ') :
    Quoted.isLetter c := by
  have hne : ∀ d, isOrdinary d = false → c ≠ d := by
    rintro d hd rfl
    rw [h] at hd
    cases hd
  simp only [isLineEnd, Bool.or_eq_false_iff, decide_eq_false_iff_not] at hend
  obtain ⟨⟨⟨hn, hnel⟩, hls⟩, hps⟩ := hend
  simp [Quoted.isLetter, isInline, isBreak, Quoted.isSpaceOrTab, hn, hnel, hls, hps, hspace,
    hne '\r' rfl, hne '\uFEFF' rfl, hne '\t' rfl]

end Style

theorem Quoted.endsWord_of_isLetter {c : Char} (h : Quoted.isLetter c) :
    endsWord (some c) = false := by
  have hbreak := not_isBreak_of_isInline (isInline_of_isLetter h)
  have hblank := not_isSpaceOrTab_of_isLetter h
  simp only [isSpaceOrTab, Bool.or_eq_false_iff, decide_eq_false_iff_not] at hblank
  simp [endsWord, endsField, endsLine, hbreak, hblank.1, hblank.2]

theorem RunKind.of_eq_word {c : Char} (h : endsWord (some c) = false) : RunKind.of c = .word := by
  simp only [endsWord, endsField, endsLine, Bool.or_eq_false_iff, decide_eq_false_iff_not,
    Option.some.injEq] at h
  have hend : Style.isLineEnd c = false := by
    by_contra hne
    have := Style.isBreak_of_isLineEnd (Bool.not_eq_false _ ▸ hne)
    rw [h.1.1] at this
    cases this
  simp [RunKind.of, h.1.2, hend]

/-! ### Plain texts -/

namespace Plain

open Style

variable {w text cs r : List Char} {inner : Nat}

/-- The words of a text, with the spaces between them. -/
inductive Words : List Char → Prop
  | word {w : List Char} (hw : IsWord w) : Words w
  | spaces {w text : List Char} {n : Nat} (hw : IsWord w) (h : Words text) :
      Words (w ++ (List.replicate (n + 1) ' ' ++ text))

theorem IsWord.head (hw : IsWord w) (r : List Char) :
    ∃ c t, w ++ r = c :: t ∧ endsWord (some c) = false := by
  cases hc : w with
  | nil => exact absurd hc hw.ne_nil
  | cons c t => exact ⟨c, t ++ r, rfl, hw.not_blank c (by simp [hc])⟩

theorem Words.head (h : Words cs) : ∃ c t, cs = c :: t ∧ endsWord (some c) = false := by
  cases h with
  | word hw => simpa using hw.head []
  | spaces hw => exact hw.head _

theorem hasMarkAfter_append {b d : Char} {u r : List Char}
    (h : hasMarkAfter b (u ++ d :: r) = false) : hasMarkAfter d r = false := by
  induction u generalizing b with
  | nil =>
    simp only [List.nil_append, hasMarkAfter, Bool.or_eq_false_iff] at h
    exact h.2
  | cons c u ih =>
    simp only [List.cons_append, hasMarkAfter, Bool.or_eq_false_iff] at h
    exact ih h.2

/-- What the rest of a plain text is like after a blank. -/
structure Resumes (cs : List Char) : Prop where
  letters : ∀ c ∈ cs, c = ' ' ∨ Quoted.isLetter c
  head : ∀ c ∈ cs.head?, c ≠ ' '
  last : ∀ c ∈ cs.getLast?, c ≠ ' '
  noMark : hasMarkAfter ' ' cs = false

/-- The characters up to the first blank, or all of them, are a word. -/
theorem Resumes.isWord (h : Resumes (w ++ r)) (hne : w ≠ []) (hw : ∀ c ∈ w, c ≠ ' ')
    (hr : ∀ c ∈ r.head?, c = ' ') : IsWord w := by
  have hletter : ∀ c ∈ w, Quoted.isLetter c := fun c hc =>
    (h.letters c (List.mem_append_left r hc)).resolve_left (hw c hc)
  refine ⟨hne, fun c hc => Quoted.isInline_of_isLetter (hletter c hc),
    fun c hc => Quoted.endsWord_of_isLetter (hletter c hc), ?_, ?_⟩
  · cases w with
    | nil => exact absurd rfl hne
    | cons c w =>
      rintro ⟨⟩
      have := h.noMark
      simp [hasMarkAfter] at this
  · intro hlast
    obtain ⟨u, rfl⟩ := List.getLast?_eq_some_iff.1 hlast
    have hmark := h.noMark
    have hapart : isApart r.head? = true := by
      cases r with
      | nil => rfl
      | cons d r => simp [isApart, hr d rfl]
    rw [List.append_assoc] at hmark
    cases u with
    | nil => simp [hasMarkAfter, hapart] at hmark
    | cons c u =>
      obtain ⟨u', d, hu⟩ : ∃ u' d, c :: u = u' ++ [d] :=
        ⟨_, _, (List.dropLast_append_getLast (by simp)).symm⟩
      rw [hu, List.append_assoc] at hmark
      have := hasMarkAfter_append hmark
      simp [hasMarkAfter, hapart] at this

theorem Resumes.after {u : List Char} (h : Resumes (u ++ ' ' :: r))
    (hr : ∀ c ∈ r.head?, c ≠ ' ') : Resumes r where
  letters c hc := h.letters c (by simp [hc])
  head := hr
  last c hc := h.last c (by
    rw [List.getLast?_append, List.getLast?_cons]
    simp [Option.mem_def.1 hc])
  noMark := hasMarkAfter_append h.noMark

theorem Resumes.words {cs : List Char} (h : Resumes cs) (hne : cs ≠ []) : Words cs := by
  induction hlen : cs.length using Nat.strongRecOn generalizing cs with
  | _ m ih =>
    -- a word
    obtain ⟨κ, w, r, rfl, hwne, hκ, hr⟩ := exists_run hne
    have hkind : ∀ c ∈ w ++ r, c ≠ ' ' → RunKind.of c = .word := fun c hc hspace =>
      RunKind.of_eq_word (Quoted.endsWord_of_isLetter ((h.letters c hc).resolve_left hspace))
    obtain ⟨c, t, rfl⟩ := List.exists_cons_of_ne_nil hwne
    obtain rfl : RunKind.word = κ := by
      rw [← hκ c (by simp), hkind c (by simp) (h.head c rfl)]
    have hw : ∀ d ∈ c :: t, d ≠ ' ' := by
      rintro d hd rfl
      exact absurd (hκ ' ' hd) (by decide)
    have hr : ∀ d ∈ r.head?, d = ' ' := fun d hd => by
      by_contra hspace
      exact hr d hd (hkind d (List.mem_append_right _ (List.mem_of_mem_head? hd)) hspace)
    have hword : IsWord (c :: t) := h.isWord hwne hw hr
    by_cases hnil : r = []
    · subst hnil
      rw [List.append_nil]
      exact .word hword
    -- the blanks after it
    obtain ⟨κ, b, r, rfl, hbne, hκ, hr'⟩ := exists_run hnil
    obtain ⟨d, b, rfl⟩ := List.exists_cons_of_ne_nil hbne
    obtain rfl : d = ' ' := hr d rfl
    obtain rfl : RunKind.spaces = κ := hκ ' ' (by simp)
    have hblanks : ' ' :: b = List.replicate (b.length + 1) ' ' :=
      List.eq_replicate_of_mem fun d hd => RunKind.eq_space (hκ d hd)
    have hr' : ∀ d ∈ r.head?, d ≠ ' ' := by
      rintro d hd rfl
      exact hr' ' ' hd rfl
    have hsplit : (c :: t) ++ (' ' :: b ++ r) =
        ((c :: t) ++ List.replicate b.length ' ') ++ ' ' :: r := by
      rw [hblanks, List.replicate_succ']
      simp
    have hnil : r ≠ [] := by
      rintro rfl
      refine h.last ' ' ?_ rfl
      rw [hsplit]
      exact List.getLast?_concat
    rw [hblanks]
    refine .spaces hword (ih r.length ?_ (Resumes.after (hsplit ▸ h) hr') hnil rfl)
    simp at hlen
    omega

/-- What a text that is written without quotes is like. -/
structure Allowed (cs : List Char) : Prop where
  ne_nil : cs ≠ []
  resumes : Resumes cs
  noMark : startsWithMark cs = false
  noDocument : startsLikeDocument cs = false

theorem allowed_of_allowsPlain (h : allowsPlain cs) : Allowed cs := by
  simp only [allowsPlain, Bool.and_eq_true, Bool.not_eq_true', List.all_eq_true, List.any_eq_false,
    decide_eq_true_eq] at h
  obtain ⟨⟨⟨⟨⟨⟨hordinary, hend⟩, hhead⟩, hlast⟩, hmark⟩, hdocument⟩, hmatch⟩ := h
  cases cs with
  | nil => cases hmatch
  | cons c r =>
    refine ⟨by simp, ⟨fun d hd => ?_, ?_, ?_, ?_⟩, hmark, hdocument⟩
    · by_cases hspace : d = ' '
      · exact .inl hspace
      · exact .inr (isLetter_of_isOrdinary (hordinary d hd) (by simpa using hend d hd) hspace)
    · rintro d hd rfl
      exact hhead hd
    · rintro d hd rfl
      exact hlast hd
    · simp only [startsWithMark, Bool.or_eq_false_iff, Bool.and_eq_false_iff] at hmark
      have hcolon : (decide (c = ':') && isApart r.head?) = false := by
        by_cases hc : c = ':'
        · subst hc
          simpa using hmark.2
        · simp [hc]
      have hnumber : c ≠ '#' := by
        rintro rfl
        exact absurd hmark.1 (by decide)
      simp only [hasMarkAfter, hcolon, hnumber, decide_false, Bool.false_and, Bool.false_or]
      exact hmatch

theorem runs_word (hw : IsWord w) (hr : ∀ c ∈ r.head?, c = ' ') :
    runs (w ++ r) = w :: runs r := by
  refine runs_append hw.ne_nil (fun c hc => RunKind.of_eq_word (hw.not_blank c hc)) ?_
  intro c hc
  rw [hr c hc]
  decide

theorem runs_spaces (n : Nat) (hr : ∀ c ∈ r.head?, c ≠ ' ') :
    runs (List.replicate (n + 1) ' ' ++ r) = List.replicate (n + 1) ' ' :: runs r := by
  refine runs_append (κ := .spaces) (by simp) (fun c hc => ?_) fun c hc => ?_
  · rw [List.eq_of_mem_replicate hc]
    rfl
  · have hne := hr c hc
    rw [RunKind.of, if_neg hne]
    split <;> simp

end Plain

namespace Pen

variable {inner : Nat} {cs : List Char}

/-- Write a run of a plain text. -/
def plainRun (indent : Nat) (folds : Bool) (p : Pen) (run : List Char) : Pen :=
  if run = [' '] && lineWidth < p.column && folds then (p.indent indent).tight else p.write run

theorem plain_eq (p : Pen) (indent : Nat) (folds : Bool) {text : String} (h : text ≠ "") :
    p.plain indent folds text =
      (runs text.toList).foldl (plainRun indent folds) (p.write p.gap).tight := by
  rw [plain, if_neg h, gap]
  cases p.afterBlank <;> rfl

theorem plainRun_of_ne {indent : Nat} {folds : Bool} {p : Pen} {run : List Char} (h : run ≠ [' ']) :
    plainRun indent folds p run = p.write run := by
  rw [plainRun, if_neg (by simp [h])]

open Plain in
/-- Plain words are written in a form that reads back. -/
theorem plainRuns_written (inner : Nat) (folds : Bool) (h : Words cs) :
    ∀ p : Pen, p.atIndent = false → p.afterBlank = false → ∃ w k, Form inner cs w ∧
      (folds = false → w = cs) ∧
      (runs cs).foldl (plainRun inner folds) p = ⟨w.reverse ++ p.written, k, false, false⟩ := by
  induction h with
  | @word w hw =>
    intro p hindent hblank
    have hruns : runs w = [w] := by simpa using runs_word (r := []) hw (by simp)
    have hne : w ≠ [' '] := by
      rintro rfl
      exact absurd (hw.not_blank ' ' (by simp)) (by decide)
    refine ⟨w, p.column + w.length, .word hw, fun _ => rfl, ?_⟩
    simp [hruns, plainRun_of_ne hne, write, hindent, hblank]
  | @spaces w text n hw h ih =>
    intro p hindent hblank
    obtain ⟨c, t, rfl, hc⟩ := h.head
    have hspace : c ≠ ' ' := by
      rintro rfl
      exact absurd hc (by decide)
    have hruns : runs (w ++ (List.replicate (n + 1) ' ' ++ c :: t)) =
        w :: List.replicate (n + 1) ' ' :: runs (c :: t) := by
      rw [runs_word hw (by simp [List.replicate_succ]), runs_spaces n (by simpa using hspace)]
    have hne : w ≠ [' '] := by
      rintro rfl
      exact absurd (hw.not_blank ' ' (by simp)) (by decide)
    rw [hruns, List.foldl_cons, List.foldl_cons, plainRun_of_ne hne]
    by_cases hfold : (List.replicate (n + 1) ' ' = [' '] &&
        lineWidth < (p.write w).column && folds) = true
    · have hparts := hfold
      simp only [Bool.and_eq_true, decide_eq_true_eq] at hparts
      obtain ⟨⟨hn, -⟩, rfl⟩ := hparts
      obtain rfl : n = 0 := by simpa using congrArg List.length hn
      have hinside : (p.write w).indent inner =
          ⟨List.replicate inner ' ' ++ '\n' :: (p.write w).written, inner, true, true⟩ :=
        indent_of_inside (.inl hindent)
      obtain ⟨w', k, hform, -, hwrite⟩ := ih ((p.write w).indent inner).tight rfl rfl
      refine ⟨_, k, .fold hw hform, by simp, ?_⟩
      rw [plainRun, if_pos hfold, hwrite, hinside]
      simp [tight]
    · obtain ⟨w', k, hform, hflat, hwrite⟩ :=
        ih ((p.write w).write (List.replicate (n + 1) ' ')) hindent hblank
      refine ⟨_, k, .spaces hw hform, fun hf => ?_, ?_⟩
      · rw [hflat hf]
      · rw [plainRun, if_neg hfold, hwrite]
        simp

end Pen

end Yaml
end Runbook
