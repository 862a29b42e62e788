import Runbook.Proofs.Yaml.Pen

/-!
# Writing in quotes

Between single and between double quotes the pen writes a text in a form that is read back. Single
quotes keep all line ends but U+0085; double quotes keep everything, except that far to the right a
fold can come between a backslash and its space.
-/

namespace Runbook
namespace Yaml

/-! ### Single quotes -/

theorem RunKind.isLineEnd {c : Char} (h : RunKind.of c = .lineEnds) : Style.isLineEnd c := by
  unfold RunKind.of at h
  split at h
  · cases h
  · split at h
    · assumption
    · cases h

namespace Style

theorem hasPair_append {p q : Char → Bool} {u r : List Char} (h : hasPair p q (u ++ r) = false) :
    hasPair p q r = false := by
  induction u with
  | nil => exact h
  | cons a u ih =>
    refine ih ?_
    rw [List.cons_append] at h
    cases hu : u ++ r with
    | nil => rfl
    | cons b t =>
      rw [hu, hasPair, Bool.or_eq_false_iff] at h
      exact h.2

theorem not_hasPair {p q : Char → Bool} {u r : List Char} {a b : Char}
    (h : hasPair p q (u ++ a :: b :: r) = false) (ha : p a = true) : q b = false := by
  have hpair := hasPair_append h
  simp only [hasPair, ha, Bool.true_and, Bool.or_eq_false_iff] at hpair
  exact hpair.1

end Style

namespace Quoted

open Style

variable {inner n : Nat} {text written cs w r : List Char}

theorem Single.head (h : Single inner text written) :
    (text = [] ∧ written = []) ∨ ∃ c t, text = c :: t ∧ (isLetter c →
      ∃ d u, written = d :: u ∧ isLetter d) := by
  cases h with
  | nil => exact .inl ⟨rfl, rfl⟩
  | letter hc => exact .inr ⟨_, _, rfl, fun _ => ⟨_, _, rfl, hc⟩⟩
  | quote => exact .inr ⟨_, _, rfl, fun _ => ⟨_, _, rfl, isLetter_quote⟩⟩
  | space => exact .inr ⟨_, _, rfl, fun h => absurd h (by decide)⟩
  | fold => exact .inr ⟨_, _, rfl, fun h => absurd h (by decide)⟩
  | ends _ hb =>
    refine .inr ⟨_, _, rfl, fun h => ?_⟩
    have hbreak := not_isBreak_of_isInline (isInline_of_isLetter h)
    simp [Yaml.isLineEnd, hbreak] at hb

theorem Single.word (hw : ∀ c ∈ w, isLetter c) (h : Single inner text written) :
    Single inner (w ++ text)
      ((w.flatMap fun c => if c = '\'' then ['\'', '\''] else [c]) ++ written) := by
  induction w with
  | nil => exact h
  | cons c w ih =>
    have ih := ih fun d hd => hw d (List.mem_cons_of_mem _ hd)
    rw [List.flatMap_cons]
    by_cases hc : c = '\''
    · subst hc
      exact .quote ih
    · simpa [hc] using Single.letter (hw c List.mem_cons_self) hc ih

theorem Single.spaces (n : Nat) (hnext : Continues (written ++ ['\'']))
    (h : Single inner text written) :
    Single inner (List.replicate n ' ' ++ text) (List.replicate n ' ' ++ written) := by
  have hall : Single inner (List.replicate n ' ' ++ text) (List.replicate n ' ' ++ written) ∧
      Continues (List.replicate n ' ' ++ written ++ ['\'']) := by
    induction n with
    | zero => exact ⟨h, hnext⟩
    | succ n ih => exact ⟨.space ih.2 ih.1, ih.2.space⟩
  exact hall.1

/-- What a text that is written between single quotes is like, if the line ends in it are kept. -/
structure AllowedSingle (cs : List Char) : Prop where
  ordinary : ∀ c ∈ cs, isOrdinary c
  kept : '\u0085' ∉ cs
  noSpaceAfter : hasPair Style.isLineEnd isSpace cs = false
  noSpaceBefore : hasPair isSpace Style.isLineEnd cs = false

theorem AllowedSingle.append (h : AllowedSingle (w ++ r)) : AllowedSingle r where
  ordinary c hc := h.ordinary c (List.mem_append_right _ hc)
  kept hmem := h.kept (List.mem_append_right _ hmem)
  noSpaceAfter := hasPair_append h.noSpaceAfter
  noSpaceBefore := hasPair_append h.noSpaceBefore

theorem AllowedSingle.isLetter (h : AllowedSingle cs) {c : Char} (hc : c ∈ cs)
    (hkind : RunKind.of c = .word) : isLetter c := by
  have hne : c ≠ ' ' := by
    rintro rfl
    cases hkind
  refine isLetter_of_isOrdinary (h.ordinary c hc) ?_ hne
  simp only [RunKind.of, hne, if_false] at hkind
  split at hkind
  · cases hkind
  · simp [*]

/-- After blanks or line ends comes a letter, or nothing. -/
theorem AllowedSingle.isLetter_after {κ : RunKind} (h : AllowedSingle (w ++ r)) (hne : w ≠ [])
    (hκ : ∀ c ∈ w, RunKind.of c = κ) (hr : ∀ c ∈ r.head?, RunKind.of c ≠ κ) (hword : κ ≠ .word) :
    ∀ c ∈ r.head?, Quoted.isLetter c := by
  intro c hc
  obtain ⟨t, rfl⟩ := List.head?_eq_some_iff.1 hc
  refine h.isLetter (by simp) ?_
  obtain ⟨u, a, rfl, ha⟩ : ∃ u a, w = u ++ [a] ∧ RunKind.of a = κ :=
    ⟨_, _, (List.dropLast_append_getLast hne).symm, hκ _ (List.getLast_mem hne)⟩
  rw [List.append_assoc] at h
  have hne := hr c rfl
  cases hk : RunKind.of c with
  | word => rfl
  | spaces =>
    cases κ with
    | word => exact absurd rfl hword
    | spaces => exact absurd hk hne
    | lineEnds =>
      have := Style.not_hasPair h.noSpaceAfter (RunKind.isLineEnd ha)
      simp [Style.isSpace, RunKind.eq_space hk] at this
  | lineEnds =>
    cases κ with
    | word => exact absurd rfl hword
    | spaces =>
      have := Style.not_hasPair h.noSpaceBefore (by simp [Style.isSpace, RunKind.eq_space ha])
      rw [RunKind.isLineEnd hk] at this
      cases this
    | lineEnds => exact absurd hk hne

end Quoted

theorem isLineEnd_of_style {c : Char} (h : Style.isLineEnd c) (hne : c ≠ '\u0085') :
    Yaml.isLineEnd c ∧ Quoted.keptEnd c = c := by
  simp only [Style.isLineEnd, Bool.or_eq_true, decide_eq_true_eq] at h
  rcases h with ((rfl | rfl) | rfl) | rfl
  · exact ⟨rfl, rfl⟩
  · exact absurd rfl hne
  · exact ⟨rfl, rfl⟩
  · exact ⟨rfl, rfl⟩

namespace Pen

open Quoted

variable {inner : Nat} {cs : List Char}

theorem foldl_lineEnd (b : Char) (bs : List Char) (p : Pen) :
    (b :: bs).foldl lineEnd p = ⟨(b :: bs).reverse ++ p.written, 0, true, true⟩ := by
  induction bs generalizing b p with
  | nil => rfl
  | cons c bs ih => simpa [lineEnd] using ih c (p.lineEnd b)

theorem lineEnds_eq (p : Pen) (inner : Nat) (b : Char) (bs : List Char) :
    p.lineEnds inner (b :: bs) = ⟨((if b = '\n' then ['\n'] else []) ++
      b :: (bs ++ List.replicate inner ' ')).reverse ++ p.written, inner, true, true⟩ := by
  rw [lineEnds, foldl_lineEnd, indent_lineStart]
  by_cases hb : b = '\n' <;> simp [hb, lineEnd]

/-- A text with its single quotes doubled. -/
def doubled (cs : List Char) : List Char :=
  cs.flatMap fun c => if c = '\'' then ['\'', '\''] else [c]

theorem doubled_append (a b : List Char) : doubled (a ++ b) = doubled a ++ doubled b :=
  List.flatMap_append

/-- Between two places a text is written as it is between single quotes, and on one line if it is
not folded and has no line ends. -/
def WritesSingle (inner : Nat) (folds : Bool) (cs : List Char) (p q : Pen) : Prop :=
  ∃ w, Single inner cs w ∧
    (folds = false → (∀ c ∈ cs, Style.isLineEnd c = false) → w = doubled cs) ∧
    q.written = w.reverse ++ p.written

namespace WritesSingle

variable {folds : Bool} {w r : List Char} {p q : Pen}

theorem nil (p : Pen) : WritesSingle inner folds [] p p :=
  ⟨[], .nil, fun _ _ => rfl, rfl⟩

theorem word (hw : ∀ c ∈ w, isLetter c) (h : WritesSingle inner folds r
    (p.write (w.flatMap fun c => if c = '\'' then ['\'', '\''] else [c])) q) :
    WritesSingle inner folds (w ++ r) p q := by
  obtain ⟨w', hsingle, hflat, hwritten⟩ := h
  refine ⟨_, hsingle.word hw, fun hfolds hends => ?_, by simp [hwritten]⟩
  rw [hflat hfolds fun c hc => hends c (List.mem_append_right _ hc), doubled_append]
  rfl

theorem spaces (n : Nat) (hnext : ∀ c ∈ r.head?, isLetter c)
    (h : WritesSingle inner folds r (p.write (List.replicate n ' ')) q) :
    WritesSingle inner folds (List.replicate n ' ' ++ r) p q := by
  obtain ⟨w', hsingle, hflat, hwritten⟩ := h
  have hcontinues : Continues (w' ++ ['\'']) := by
    rcases hsingle.head with ⟨-, rfl⟩ | ⟨c, t, rfl, hletter⟩
    · exact continues_of_isLetter isLetter_quote
    · obtain ⟨d, u, rfl, hd⟩ := hletter (hnext c rfl)
      exact continues_of_isLetter hd
  refine ⟨_, hsingle.spaces n hcontinues, fun hfolds hends => ?_, by simp [hwritten]⟩
  have hblanks : doubled (List.replicate n ' ') = List.replicate n ' ' := by
    simp [doubled, List.flatMap_replicate]
  rw [hflat hfolds fun c hc => hends c (List.mem_append_right _ hc), doubled_append, hblanks]

theorem fold {c : Char} (hinside : p.atIndent = false ∨ inner < p.column) (hc : isLetter c)
    (h : WritesSingle inner true (c :: r) (p.indent inner) q) :
    WritesSingle inner true (' ' :: c :: r) p q := by
  obtain ⟨w', hsingle, -, hwritten⟩ := h
  obtain ⟨d, u, rfl, hd⟩ : ∃ d u, w' = d :: u ∧ isLetter d := by
    rcases hsingle.head with ⟨hnil, -⟩ | ⟨c, t, he, hletter⟩
    · cases hnil
    · obtain ⟨rfl, rfl⟩ := List.cons.inj he
      exact hletter hc
  refine ⟨_, .fold hd hsingle, by simp, ?_⟩
  rw [hwritten, indent_of_inside hinside]
  simp

theorem ends {b : Char} {bs : List Char} (hends : ∀ c ∈ b :: bs, Style.isLineEnd c)
    (hkept : '\u0085' ∉ b :: bs) (hnext : ∀ c ∈ r.head?, isLetter c)
    (h : WritesSingle inner folds r (p.lineEnds inner (b :: bs)) q) :
    WritesSingle inner folds (b :: bs ++ r) p q := by
  obtain ⟨w', hsingle, -, hwritten⟩ := h
  have hboth : ∀ c ∈ b :: bs, Yaml.isLineEnd c ∧ keptEnd c = c := fun c hc =>
    isLineEnd_of_style (hends c hc) (ne_of_mem_of_not_mem hc hkept)
  have hnext' : w' = [] ∨ ∃ c t, w' = c :: t ∧ isLetter c := by
    rcases hsingle.head with ⟨-, hnil⟩ | ⟨c, t, rfl, hletter⟩
    · exact .inl hnil
    · exact .inr (hletter (hnext c rfl))
  refine ⟨_, .ends (fun c hc => (hboth c hc).2) (hboth b (by simp)).1
    (fun c hc => (hboth c (by simp [hc])).1) hnext' hsingle, fun _ hnone => ?_, ?_⟩
  · have hb := hends b (by simp)
    rw [hnone b (by simp)] at hb
    cases hb
  · rw [hwritten, lineEnds_eq]
    simp

end WritesSingle

/-- Between single quotes a text is written in a form that reads back. A line is never folded at its
own indentation. -/
theorem writesSingle_runs (inner : Nat) (folds : Bool) (hcs : AllowedSingle cs) :
    ∀ (isFirst : Bool) (p : Pen), (p.atIndent = false ∨ inner ≤ p.column) →
      (cs.head? = some ' ' → isFirst = true ∨ p.atIndent = false ∨ inner < p.column) →
      WritesSingle inner folds cs p (singleRuns inner folds isFirst (runs cs) p) := by
  induction hlen : cs.length using Nat.strongRecOn generalizing cs with
  | _ m ih =>
    intro isFirst p hcolumn hspace
    by_cases hnil : cs = []
    · subst hnil
      exact .nil p
    obtain ⟨κ, w, r, rfl, hwne, hκ, hr⟩ := exists_run hnil
    obtain ⟨c, t, rfl⟩ := List.exists_cons_of_ne_nil hwne
    have hshort : r.length < m := by
      simp at hlen
      omega
    have ih := ih r.length hshort hcs.append rfl false
    have hκc : RunKind.of c = κ := hκ c (by simp)
    rw [runs_append hwne hκ hr, singleRuns]
    simp only [List.head?_cons, Option.map_some, hκc]
    cases κ with
    | word =>
      have hpos :
          0 < ((c :: t).flatMap fun c => if c = '\'' then ['\'', '\''] else [c]).length := by
        rw [List.flatMap_cons]
        split <;> simp
      refine .word (fun d hd => hcs.isLetter (List.mem_append_left r hd) (hκ d hd)) (ih _ ?_ ?_)
      · exact hcolumn.imp id fun h => Nat.le_trans h (Nat.le_add_right _ _)
      · exact fun _ => .inr (hcolumn.imp id fun h =>
          Nat.lt_of_le_of_lt h (Nat.lt_add_of_pos_right hpos))
    | spaces =>
      obtain rfl := RunKind.eq_space hκc
      have hblanks : ' ' :: t = List.replicate (t.length + 1) ' ' :=
        List.eq_replicate_of_mem fun d hd => RunKind.eq_space (hκ d hd)
      have hnext : ∀ d ∈ r.head?, isLetter d := hcs.isLetter_after hwne hκ hr (by decide)
      have hhead : r.head? ≠ some ' ' := fun h => hr ' ' h rfl
      dsimp only
      split
      · next hfold =>
        simp only [Bool.and_eq_true, decide_eq_true_eq, Bool.not_eq_true',
          List.isEmpty_eq_false_iff]
          at hfold
        obtain ⟨⟨⟨⟨ht, -⟩, rfl⟩, rfl⟩, hrest⟩ := hfold
        obtain rfl : t = [] := by simpa using ht
        have hr' : r ≠ [] := fun h => hrest (by simp [h])
        obtain ⟨d, r, rfl⟩ := List.exists_cons_of_ne_nil hr'
        have hinside := (hspace rfl).resolve_left (by simp)
        have hcolumn' : (p.indent inner).column = inner := by rw [indent_of_inside hinside]
        exact .fold hinside (hnext d rfl)
          (ih _ (.inr hcolumn'.ge) fun h => absurd h hhead)
      · rw [hblanks]
        exact .spaces _ hnext (ih _ (hcolumn.imp id fun h => Nat.le_trans h (Nat.le_add_right _ _))
          fun h => absurd h hhead)
    | lineEnds =>
      have hnext : ∀ d ∈ r.head?, isLetter d := hcs.isLetter_after hwne hκ hr (by decide)
      have hhead : r.head? ≠ some ' ' := fun h => absurd (hnext ' ' h) (by decide)
      have hcolumn' : (p.lineEnds inner (c :: t)).column = inner := by rw [lineEnds_eq]
      exact .ends (fun d hd => RunKind.isLineEnd (hκ d hd))
        (fun hmem => hcs.kept (List.mem_append_left r hmem)) hnext
        (ih _ (.inr hcolumn'.ge) fun h => absurd h hhead)

end Pen

/-! ### Double quotes -/

open Quoted

theorem Pen.isLetter_of_not_isEscaped {c : Char} (h : Pen.isEscaped c = false) (hspace : c ≠ ' ') :
    Quoted.isLetter c := by
  have hne : ∀ d, Pen.isEscaped d = true → c ≠ d := by
    rintro d hd rfl
    rw [h] at hd
    cases hd
  simp [Quoted.isLetter, isInline, isBreak, Quoted.isSpaceOrTab, hspace, hne '\n' rfl, hne '\r' rfl,
    hne '\u0085' rfl, hne '\u2028' rfl, hne '\u2029' rfl, hne '\uFEFF' rfl, hne '\t' rfl]

theorem Pen.not_isBreak_of_mem_escapeOf {c d : Char} (h : d ∈ Pen.escapeOf c) :
    isBreak d = false := by
  have hcode : ∀ {mark : Char} {width : Nat}, isBreak mark = false →
      d ∈ '\\' :: mark :: Pen.codeDigits width c → isBreak d = false := by
    intro mark width hmark hd
    rcases List.mem_cons.1 hd with rfl | hd
    · rfl
    rcases List.mem_cons.1 hd with rfl | hd
    · exact hmark
    · exact not_isBreak_of_isInline (isInline_of_mem_codeDigits hd)
  unfold Pen.escapeOf at h
  split at h
  · next letter hletter =>
    rcases List.mem_cons.1 h with rfl | h
    · rfl
    · rw [List.mem_singleton.1 h]
      exact not_isBreak_of_isInline (letterEscape?_of_escapeLetter? hletter).2
  split at h
  · exact hcode rfl h
  split at h
  · exact hcode rfl h
  · exact hcode rfl h

theorem Quoted.Double.unescaped {inner : Nat} {c : Char} {text written : List Char}
    (h : Double inner text written) (hc : Pen.isEscaped c = false) :
    Double inner (c :: text) (c :: written) := by
  by_cases hspace : c = ' '
  · rw [hspace]
    exact .space h
  · refine .letter (Pen.isLetter_of_not_isEscaped hc hspace) ?_ ?_ h
    · rintro rfl
      cases hc
    · rintro rfl
      cases hc

theorem Quoted.Double.head {inner : Nat} {c : Char} {text written : List Char}
    (h : Double inner (c :: text) written) (hc : c ≠ ' ') :
    ∃ d t, written = d :: t ∧ isLetter d := by
  cases h with
  | letter hc => exact ⟨_, _, rfl, hc⟩
  | escape =>
    obtain ⟨t, ht⟩ := escapeOf_eq c
    exact ⟨'\\', _, by rw [ht]; rfl, isLetter_backslash⟩
  | space => exact absurd rfl hc
  | escapedSpace => exact ⟨_, _, rfl, isLetter_backslash⟩
  | join => exact ⟨_, _, rfl, isLetter_backslash⟩

namespace Pen

variable {inner : Nat} {folds : Bool} {c : Char} {cs r pending : List Char} {p q : Pen}

/-- A text with what has to be escaped between double quotes. -/
def escaped (cs : List Char) : List Char :=
  cs.flatMap fun c => if isEscaped c then escapeOf c else [c]

/-- Between two places a text is written as it is between double quotes, after characters that are
not yet written, the last first; and on one line if it is not folded. -/
def WritesDouble (inner : Nat) (folds : Bool) (pending cs : List Char) (p q : Pen) : Prop :=
  ∃ w, Double inner cs w ∧ (folds = false → w = escaped cs) ∧
    q.written = w.reverse ++ (pending ++ p.written)

theorem fold_eq (p : Pen) (inner : Nat) (next : Option Char) (h : p.atIndent = false) :
    p.fold inner next = ⟨(if next = some ' ' then ['\\'] else []) ++
      (List.replicate inner ' ' ++ '\n' :: '\\' :: p.written),
      inner + (if next = some ' ' then 1 else 0), false, false⟩ := by
  have hinside : (p.write ['\\']).indent inner = _ := indent_of_inside (.inl h)
  rw [fold, hinside]
  by_cases hn : next = some ' ' <;> simp [hn, tight, write]

namespace WritesDouble

theorem nil (p : Pen) : WritesDouble inner folds pending [] p (p.write pending.reverse) :=
  ⟨[], .nil, fun _ => rfl, by simp⟩

theorem flush (h : WritesDouble inner folds [] cs (p.write pending.reverse) q) :
    WritesDouble inner folds pending cs p q := by
  obtain ⟨w, hw, hflat, hwritten⟩ := h
  exact ⟨w, hw, hflat, by simp [hwritten]⟩

theorem pend (hc : isEscaped c = false) (h : WritesDouble inner folds (c :: pending) r p q) :
    WritesDouble inner folds pending (c :: r) p q := by
  obtain ⟨w, hw, hflat, hwritten⟩ := h
  have hdouble : Double inner (c :: r) (c :: w) := hw.unescaped hc
  refine ⟨c :: w, hdouble, fun hf => ?_, by simp [hwritten]⟩
  rw [hflat hf, escaped, escaped, List.flatMap_cons, if_neg (by simp [hc])]
  rfl

theorem escape (hc : isEscaped c = true)
    (h : WritesDouble inner folds [] r (p.write (escapeOf c)) q) :
    WritesDouble inner folds [] (c :: r) p q := by
  obtain ⟨w, hw, hflat, hwritten⟩ := h
  refine ⟨escapeOf c ++ w, .escape hw, fun hf => ?_, by simp [hwritten]⟩
  rw [hflat hf, escaped, escaped, List.flatMap_cons, if_pos hc]

/-- A line is folded before a character. -/
theorem join (hp : p.atIndent = false) (hc : isEscaped c = false)
    (h : WritesDouble inner true [c] r (p.fold inner (some c)) q) :
    WritesDouble inner true [] (c :: r) p q := by
  obtain ⟨w, hw, -, hwritten⟩ := h
  rw [fold_eq p inner (some c) hp] at hwritten
  by_cases hspace : c = ' '
  · subst hspace
    refine ⟨_, .join isLetter_backslash (.escapedSpace hw), by simp, ?_⟩
    rw [hwritten]
    simp
  · refine ⟨_, .join (isLetter_of_not_isEscaped hc hspace) (hw.unescaped hc), by simp, ?_⟩
    rw [hwritten]
    simp [hspace]

/-- A line is folded after an escape, and no space follows. -/
theorem joinNext (hp : p.atIndent = false) (hc : c ≠ ' ')
    (h : WritesDouble inner true [] (c :: r) (p.fold inner (some c)) q) :
    WritesDouble inner true [] (c :: r) p q := by
  obtain ⟨w, hw, -, hwritten⟩ := h
  obtain ⟨d, t, rfl, hd⟩ := hw.head hc
  refine ⟨_, .join hd hw, by simp, ?_⟩
  rw [hwritten, fold_eq p inner (some c) hp]
  simp [hc]

end WritesDouble

/-- A line is not folded again before the space that follows a fold. -/
theorem doubleFrom_space (hp : p.atIndent = false) (hinner : inner < lineWidth) :
    doubleFrom inner folds false [] (' ' :: r) (p.fold inner (some ' ')) =
      doubleFrom inner folds false [' '] r (p.fold inner (some ' ')) := by
  have hescaped : isEscaped ' ' = false := rfl
  have hcolumn : (p.fold inner (some ' ')).column ≤ lineWidth := by
    rw [fold_eq p inner _ hp]
    exact hinner
  rw [doubleFrom, if_neg (by simp [hescaped])]
  refine if_neg ?_
  simp [Nat.not_lt.2 hcolumn]

/-- Between double quotes a text is written in a form that reads back, unless it is far to the right
and has a space after an escaped character. -/
theorem writesDouble_doubleFrom (inner : Nat)
    (hcs : folds = true →
      inner < lineWidth ∨ Style.hasPair isEscaped Style.isSpace cs = false) :
    ∀ (isFirst : Bool) (pending : List Char) (p : Pen), p.atIndent = false →
      WritesDouble inner folds pending cs p (doubleFrom inner folds isFirst pending cs p) := by
  induction hlen : cs.length using Nat.strongRecOn generalizing cs with
  | _ m ih =>
    intro isFirst pending p hp
    cases cs with
    | nil => exact .nil p
    | cons c r =>
      have hr : folds = true →
          inner < lineWidth ∨ Style.hasPair isEscaped Style.isSpace r = false :=
        fun hf => (hcs hf).imp id fun h => Style.hasPair_append (u := [c]) h
      have hlt : r.length < m := by simp [← hlen]
      have hfold : ∀ (q : Pen) next, q.atIndent = false → (q.fold inner next).atIndent = false :=
        fun q next hq => by rw [fold_eq q inner next hq]
      rw [doubleFrom]
      split
      · next hescaped =>
        dsimp only
        refine .flush (.escape hescaped ?_)
        split
        · next hfoldable =>
          simp only [Bool.and_eq_true, decide_eq_true_eq, Bool.not_eq_true'] at hfoldable
          obtain ⟨⟨⟨rfl, -⟩, hne⟩, -⟩ := hfoldable
          obtain ⟨d, r, rfl⟩ := List.exists_cons_of_ne_nil (List.isEmpty_eq_false_iff.1 hne)
          by_cases hd : d = ' '
          · subst hd
            have hinner : inner < lineWidth := (hcs rfl).resolve_right fun h => by
              simp [Style.hasPair, hescaped, Style.isSpace] at h
            have hr : true = true →
                inner < lineWidth ∨ Style.hasPair isEscaped Style.isSpace r = false :=
              fun _ => .inl hinner
            have hlt : r.length < m := by
              simp only [← hlen, List.length_cons]
              omega
            refine .join hp rfl ?_
            rw [List.head?_cons,
              doubleFrom_space (p := (p.write pending.reverse).write (escapeOf c)) hp hinner]
            exact ih _ hlt hr rfl false [' '] _ (hfold _ _ hp)
          · exact .joinNext hp hd (ih _ hlt hr rfl false [] _ (hfold _ _ hp))
        · exact ih _ hlt hr rfl false [] _ hp
      · next hescaped =>
        have hescaped : isEscaped c = false := Bool.not_eq_true _ ▸ hescaped
        split
        · next hfoldable =>
          simp only [Bool.and_eq_true, decide_eq_true_eq, Bool.not_eq_true'] at hfoldable
          obtain ⟨⟨⟨⟨rfl, -⟩, -⟩, -⟩, -⟩ := hfoldable
          exact .flush (.join hp hescaped (ih _ hlt hr rfl false [c] _ (hfold _ _ hp)))
        · exact .pend hescaped (ih _ hlt hr rfl false (c :: pending) p hp)

end Pen

end Yaml
end Runbook
