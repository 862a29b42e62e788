import Runbook.Proofs.Digits
import Runbook.Proofs.Yaml.Cursor
import Runbook.Yaml.Pen
import Runbook.Yaml.Quoted

/-!
# Reading quoted texts back

How texts stand between single and between double quotes: which characters are doubled or escaped,
where lines are folded, and where line ends are kept. Reading gives the text back.
-/

namespace Runbook
namespace Yaml

open Cursor

namespace Quoted

variable {double : Bool} {inner : Nat} {c : Char} {l k : Nat}
  {acc acc' : List Nat} {text written r tail : List Char} {s s' : Cursor}

/-- Whether a character is neither blank nor the end of a line. -/
def isLetter (c : Char) : Bool := isInline c && !isSpaceOrTab c

theorem isInline_of_isLetter (h : isLetter c) : isInline c :=
  (Bool.and_eq_true _ _ ▸ h : isInline c = true ∧ _).1

theorem not_isSpaceOrTab_of_isLetter (h : isLetter c) : isSpaceOrTab c = false := by
  simp only [isLetter, Bool.and_eq_true, Bool.not_eq_true'] at h
  exact h.2

theorem not_blank_of_isLetter (h : isLetter c) : (isSpaceOrTab c || isBreak c) = false := by
  simp [not_isSpaceOrTab_of_isLetter h, not_isBreak_of_isInline (isInline_of_isLetter h)]

/-- Reading on from a place gives a text, with any fuel that is enough for what is left. -/
def Reads (double : Bool) (acc : List Nat) (c : Cursor) (acc' : List Nat) (c' : Cursor) : Prop :=
  ∀ fuel, c.left < fuel → body double fuel acc c = .ok (acc', c')

/-- One step of reading. -/
theorem Reads.step {acc₁ : List Nat} {s₁ : Cursor} (hleft : s₁.left < s.left)
    (hstep : ∀ fuel, body double (fuel + 1) acc s = body double fuel acc₁ s₁)
    (h : Reads double acc₁ s₁ acc' s') : Reads double acc s acc' s' := by
  intro fuel hfuel
  obtain ⟨fuel, rfl⟩ : ∃ n, fuel = n + 1 := ⟨fuel - 1, by omega⟩
  rw [hstep]
  exact h fuel (by omega)

/-! ### Single characters -/

theorem Reads.letter (hc : isLetter c) (hquote : c ≠ if double then '"' else '\'')
    (hescape : double → c ≠ '\\') (h : Reads double (c.toNat :: acc) (before r l (k + 1)) acc' s') :
    Reads double acc (before (c :: r) l k) acc' s' := by
  refine h.step (by simp) fun fuel => ?_
  rw [body]
  simp only [peek_before, List.head?_cons, not_blank_of_isLetter hc, Bool.false_eq_true, if_false,
    advance_inline (isInline_of_isLetter hc)]
  cases double with
  | false => simp [show c ≠ '\'' from hquote]
  | true => simp [show c ≠ '"' from hquote, hescape rfl]

theorem Reads.doubledQuote (h : Reads false ('\''.toNat :: acc) (before r l (k + 2)) acc' s') :
    Reads false acc (before ('\'' :: '\'' :: r) l k) acc' s' := by
  refine h.step (by simp only [left_before, List.length_cons]; omega) fun fuel => ?_
  have hskip := skip_inline (w := ['\'', '\'']) (r := r) (l := l) (k := k)
    (by simp [isInline, isBreak])
  have hskip : (before ('\'' :: '\'' :: r) l k).skip 2 = before r l (k + 2) := hskip
  rw [body]
  simp [isSpaceOrTab, isBreak, hskip]

theorem reads_end (hr : double = false → r.head? ≠ some '\'') :
    Reads double acc (before ((if double then '"' else '\'') :: r) l k) acc
      (before r l (k + 1)) := by
  intro fuel hfuel
  obtain ⟨fuel, rfl⟩ : ∃ n, fuel = n + 1 := ⟨fuel - 1, by omega⟩
  cases double with
  | false =>
    have hr : r.head? ≠ some '\'' := hr rfl
    have hnext : r[0]? ≠ some '\'' := by rwa [← List.head?_eq_getElem?]
    rw [body]
    simp [hnext, isSpaceOrTab, isBreak, advance_inline (show isInline '\'' = true from rfl)]
  | true =>
    rw [body]
    simp [isSpaceOrTab, isBreak, advance_inline (show isInline '"' = true from rfl)]

/-! ### Blanks -/

theorem body_spaces {n fuel : Nat} (hc : isLetter c) :
    body double (fuel + 1) acc (before (List.replicate (n + 1) ' ' ++ c :: r) l k) =
      body double fuel (List.replicate (n + 1) ' '.toNat ++ acc)
        (before (c :: r) l (k + (n + 1))) := by
  have hspan := span_inline (l := l) (k := k) (w := List.replicate (n + 1) ' ') (r := c :: r)
    (p := isSpaceOrTab) (fun d hd => by rw [List.eq_of_mem_replicate hd]; rfl)
    (fun d hd => by rw [List.eq_of_mem_replicate hd]; rfl)
    (by simp [not_isSpaceOrTab_of_isLetter hc])
  have hbreak := lineBreak?_of_not (r := c :: r) (l := l) (k := k + (n + 1))
    (by simp [not_isBreak_of_isInline (isInline_of_isLetter hc)])
  rw [List.length_replicate] at hspan
  have hpeek : (before (List.replicate (n + 1) ' ' ++ c :: r) l k).peek = some ' ' := rfl
  rw [body, hpeek]
  simp only [isSpaceOrTab, decide_true, Bool.true_or, if_true, spaces]
  simp only [hspan, peek_before, List.head?_cons, hbreak, bind, Except.bind, List.reverse_replicate,
    List.map_replicate]

/-- Whether the line goes on, possibly after spaces. -/
def Continues (r : List Char) : Prop :=
  ∃ n c t, r = List.replicate n ' ' ++ c :: t ∧ isLetter c

theorem Continues.space (h : Continues r) : Continues (' ' :: r) := by
  obtain ⟨n, c, t, rfl, hc⟩ := h
  exact ⟨n + 1, c, t, rfl, hc⟩

theorem Continues.append (h : Continues r) (tail : List Char) : Continues (r ++ tail) := by
  obtain ⟨n, c, t, rfl, hc⟩ := h
  exact ⟨n, c, t ++ tail, by simp, hc⟩

theorem continues_of_isLetter (hc : isLetter c) : Continues (c :: r) := ⟨0, c, r, rfl, hc⟩

theorem Reads.space (hr : Continues r)
    (h : Reads double (' '.toNat :: acc) (before r l (k + 1)) acc' s') :
    Reads double acc (before (' ' :: r) l k) acc' s' := by
  obtain ⟨n, c, t, rfl, hc⟩ := hr
  intro fuel hfuel
  obtain ⟨fuel, rfl⟩ : ∃ m, fuel = m + 1 := ⟨fuel - 1, by omega⟩
  have hrun : body double (fuel + 1) acc (before (List.replicate (n + 1) ' ' ++ c :: t) l k) = _ :=
    body_spaces hc
  rw [List.replicate_succ, List.cons_append] at hrun
  rw [hrun]
  cases n with
  | zero => exact h fuel (by simp at hfuel ⊢; omega)
  | succ n =>
    have hrest := h (fuel + 1) (by simp at hfuel ⊢; omega)
    rw [body_spaces hc] at hrest
    rw [← hrest]
    congr 1
    · rw [List.replicate_succ', List.append_assoc]
      rfl
    · rw [show k + (n + 1 + 1) = k + 1 + (n + 1) by omega]

/-! ### Line ends -/

/-- What a line end counts as. -/
def keptEnd (c : Char) : Char := if c = '\u2028' || c = '\u2029' then c else '\n'

theorem skipWhile_isSpaceOrTab (inner : Nat) (hc : isSpaceOrTab c = false) :
    (before (List.replicate inner ' ' ++ c :: r) l k).skipWhile isSpaceOrTab =
      before (c :: r) l (k + inner) := by
  have hspan := span_inline (l := l) (k := k) (w := List.replicate inner ' ') (r := c :: r)
    (p := isSpaceOrTab) (fun d hd => by rw [List.eq_of_mem_replicate hd]; rfl)
    (fun d hd => by rw [List.eq_of_mem_replicate hd]; rfl) (by simp [hc])
  rw [skipWhile, hspan, List.length_replicate]

theorem isLineEnd_cases {p : Char → Prop} (hn : p '\n') (hnel : p '\u0085') (hls : p '\u2028')
    (hps : p '\u2029') {b : Char} (hb : isLineEnd b) : p b := by
  simp only [isLineEnd, isBreak, Bool.and_eq_true, Bool.or_eq_true, decide_eq_true_eq] at hb
  obtain ⟨(((rfl | rfl) | rfl) | rfl) | rfl, hne⟩ := hb
  · exact hn
  · exact absurd rfl hne
  · exact hnel
  · exact hls
  · exact hps

theorem breaks_lineEnds (acc : List Char) (l : Nat) (r : List Char) (hinner : 0 < inner)
    (hc : isLetter c) {bs : List Char} (hbs : ∀ b ∈ bs, isLineEnd b) {fuel : Nat}
    (hfuel : bs.length < fuel) :
    breaks fuel acc (before (bs ++ (List.replicate inner ' ' ++ c :: r)) l 0) =
      .ok ((bs.map keptEnd).reverse ++ acc, before (c :: r) (l + bs.length) inner) := by
  induction bs generalizing acc l fuel with
  | nil =>
    obtain ⟨fuel, rfl⟩ : ∃ m, fuel = m + 1 := ⟨fuel - 1, by simp at hfuel; omega⟩
    have hbreak := lineBreak?_of_not (r := c :: r) (l := l) (k := 0 + inner)
      (by simp [not_isBreak_of_isInline (isInline_of_isLetter hc)])
    rw [List.nil_append, breaks, atDocumentMark_of_noMark (noMark_indent hinner _)]
    simp only [Bool.false_eq_true, if_false,
      skipWhile_isSpaceOrTab inner (not_isSpaceOrTab_of_isLetter hc), hbreak]
    simp
  | cons b bs ih =>
    obtain ⟨fuel, rfl⟩ : ∃ m, fuel = m + 1 := ⟨fuel - 1, by simp at hfuel; omega⟩
    have hb := hbs b List.mem_cons_self
    have hmark : NoMark (b :: (bs ++ (List.replicate inner ' ' ++ c :: r))) :=
      isLineEnd_cases (p := fun b => NoMark (b :: (bs ++ (List.replicate inner ' ' ++ c :: r))))
        (noMark_cons (by decide) (by decide)) (noMark_cons (by decide) (by decide))
        (noMark_cons (by decide) (by decide)) (noMark_cons (by decide) (by decide)) hb
    have hblank : isSpaceOrTab b = false :=
      isLineEnd_cases (p := fun b => isSpaceOrTab b = false) rfl rfl rfl rfl hb
    have hskip : (before (b :: (bs ++ (List.replicate inner ' ' ++ c :: r))) l 0).skipWhile
        isSpaceOrTab = before (b :: (bs ++ (List.replicate inner ' ' ++ c :: r))) l 0 := by
      simpa using skipWhile_isSpaceOrTab 0 (l := l) (k := 0) hblank
    rw [List.cons_append, breaks, atDocumentMark_of_noMark hmark]
    simp only [Bool.false_eq_true, if_false, hskip, lineBreak?_of_lineEnd hb]
    rw [ih _ _ (fun d hd => hbs d (List.mem_cons_of_mem _ hd)) (by simp at hfuel; omega)]
    simp [keptEnd, Nat.add_comm, Nat.add_left_comm]

/-- What a run of line ends reads as: the first one is folded if it counts as a line feed. -/
def foldedEnds (b : Char) (bs : List Char) : List Char :=
  (if keptEnd b ≠ '\n' then [keptEnd b] else if bs.isEmpty then [' '] else []) ++ bs.map keptEnd

theorem Reads.lineEnds (hinner : 0 < inner) (hc : isLetter c) {b : Char} {bs : List Char}
    (hb : isLineEnd b) (hbs : ∀ b ∈ bs, isLineEnd b)
    (h : Reads double ((foldedEnds b bs).reverse.map Char.toNat ++ acc)
      (before (c :: r) (l + 1 + bs.length) inner) acc' s') :
    Reads double acc (before (b :: (bs ++ (List.replicate inner ' ' ++ c :: r))) l k) acc' s' := by
  refine h.step (by simp; omega) fun fuel => ?_
  have hblank : isSpaceOrTab b = false :=
    isLineEnd_cases (p := fun b => isSpaceOrTab b = false) rfl rfl rfl rfl hb
  have hspan : (before (b :: (bs ++ (List.replicate inner ' ' ++ c :: r))) l k).span isSpaceOrTab =
      ([], before (b :: (bs ++ (List.replicate inner ' ' ++ c :: r))) l k) := by
    simp [span, hblank, skip]
  have hfuel : bs.length < (bs ++ (List.replicate inner ' ' ++ c :: r)).length + 1 := by
    simp only [List.length_append]
    omega
  have hbreaks := breaks_lineEnds [] (l + 1) r hinner hc hbs hfuel
  rw [body]
  simp only [peek_before, List.head?_cons, isBreak_of_isLineEnd hb, Bool.or_true, if_true, spaces,
    hspan, lineBreak?_of_lineEnd hb, left_before, hbreaks, bind, Except.bind, pure, Except.pure]
  congr 1
  rw [foldedEnds]
  by_cases hn : b = '\u2028' || b = '\u2029'
  · have hne : b ≠ '\n' := by
      rintro rfl
      simp at hn
    simp [keptEnd, hn, hne]
  · cases bs <;> simp [keptEnd, hn]

theorem map_keptEnd {bs : List Char} (h : ∀ b ∈ bs, keptEnd b = b) : bs.map keptEnd = bs := by
  rw [List.map_congr_left h, List.map_id']

theorem foldedEnds_of_ne {b : Char} {bs : List Char} (h : ∀ c ∈ b :: bs, keptEnd c = c)
    (hn : b ≠ '\n') : foldedEnds b bs = b :: bs := by
  rw [List.forall_mem_cons] at h
  simp [foldedEnds, map_keptEnd h.2, h.1, hn]

theorem foldedEnds_newline_cons {b : Char} {bs : List Char} (h : ∀ c ∈ b :: bs, keptEnd c = c) :
    foldedEnds '\n' (b :: bs) = b :: bs := by
  rw [foldedEnds, map_keptEnd h]
  rfl

/-- Line ends that count as themselves stay as they are. A first line feed is written twice, since
one of the two is folded. -/
theorem Reads.keptEnds (hinner : 0 < inner) (hc : isLetter c) {b : Char} {bs : List Char}
    (hkept : ∀ c ∈ b :: bs, keptEnd c = c) (hends : ∀ c ∈ b :: bs, isLineEnd c)
    (h : Reads double ((b :: bs).reverse.map Char.toNat ++ acc)
      (before (c :: r) (l + ((if b = '\n' then 2 else 1) + bs.length)) inner) acc' s') :
    Reads double acc (before ((if b = '\n' then ['\n'] else []) ++
      (b :: bs) ++ (List.replicate inner ' ' ++ c :: r)) l k) acc' s' := by
  by_cases hn : b = '\n'
  · have hline : l + (2 + bs.length) = l + 1 + (b :: bs).length := by
      rw [List.length_cons]
      omega
    rw [if_pos hn] at h ⊢
    rw [← foldedEnds_newline_cons hkept, hline] at h
    exact Reads.lineEnds hinner hc rfl hends h
  · rw [if_neg hn] at h ⊢
    rw [← foldedEnds_of_ne hkept hn, ← Nat.add_assoc] at h
    rw [List.forall_mem_cons] at hends
    exact Reads.lineEnds hinner hc hends.1 hends.2 h

/-! ### Texts up to the closing quote -/

/-- A text that is written between quotes reads as itself. The place after it is known if it stands
on one line. -/
def ReadsBack (double : Bool) (r text written : List Char) : Prop :=
  ∀ (acc : List Nat) (l k : Nat), ∃ l' k', l ≤ l' ∧
    ((∀ c ∈ written, isBreak c = false) → l' = l ∧ k' = k + written.length + 1) ∧
    Reads double acc (before (written ++ (if double then '"' else '\'') :: r) l k)
      (text.reverse.map Char.toNat ++ acc) (before r l' k')

theorem ReadsBack.nil (hr : double = false → r.head? ≠ some '\'') : ReadsBack double r [] [] :=
  fun _ l k => ⟨l, k + 1, Nat.le_refl l, fun _ => ⟨rfl, rfl⟩, reads_end hr⟩

/-- One more character in front, written on the same line. -/
theorem ReadsBack.cons {w : List Char} (h : ReadsBack double r text written)
    (hstep : ∀ {acc l k acc' s'},
      Reads double (c.toNat :: acc) (before (written ++ (if double then '"' else '\'') :: r) l
        (k + w.length)) acc' s' →
      Reads double acc (before (w ++ (written ++ (if double then '"' else '\'') :: r)) l k)
        acc' s') :
    ReadsBack double r (c :: text) (w ++ written) := by
  intro acc l k
  obtain ⟨l', k', hl, hflat, hreads⟩ := h (c.toNat :: acc) l (k + w.length)
  refine ⟨l', k', hl, fun hbreak => ?_, ?_⟩
  · obtain ⟨rfl, rfl⟩ := hflat fun d hd => hbreak d (List.mem_append_right _ hd)
    exact ⟨rfl, by rw [List.length_append]; omega⟩
  · rw [List.reverse_cons, List.map_append, List.append_assoc, List.append_assoc]
    exact hstep hreads

/-- More text in front, a line end in what is written of it. -/
theorem ReadsBack.append {w : List Char} {b : Char} (front : List Char) (n inner : Nat)
    (hb : b ∈ w) (hbreak : isBreak b = true) (h : ReadsBack double r text written)
    (hstep : ∀ {acc l k acc' s'},
      Reads double (front.reverse.map Char.toNat ++ acc)
        (before (written ++ (if double then '"' else '\'') :: r) (l + n) inner) acc' s' →
      Reads double acc (before (w ++ (written ++ (if double then '"' else '\'') :: r)) l k)
        acc' s') :
    ReadsBack double r (front ++ text) (w ++ written) := by
  intro acc l k
  obtain ⟨l', k', hl, -, hreads⟩ := h (front.reverse.map Char.toNat ++ acc) (l + n) inner
  refine ⟨l', k', by omega, fun hflat => ?_, ?_⟩
  · have hnot := hflat b (List.mem_append_left _ hb)
    rw [hbreak] at hnot
    cases hnot
  · rw [List.reverse_append, List.map_append, List.append_assoc, List.append_assoc]
    exact hstep hreads

/-! ### Single quotes -/

/-- How a text is written between single quotes at an indentation. -/
inductive Single (inner : Nat) : List Char → List Char → Prop
  | nil : Single inner [] []
  | letter {c : Char} {text written : List Char} (hc : isLetter c) (hquote : c ≠ '\'')
      (h : Single inner text written) : Single inner (c :: text) (c :: written)
  | quote {text written : List Char} (h : Single inner text written) :
      Single inner ('\'' :: text) ('\'' :: '\'' :: written)
  /-- A space. No line end follows. -/
  | space {text written : List Char} (hnext : Continues (written ++ ['\'']))
      (h : Single inner text written) : Single inner (' ' :: text) (' ' :: written)
  /-- A space where the line is folded. -/
  | fold {c : Char} {text written : List Char} (hc : isLetter c)
      (h : Single inner text (c :: written)) :
      Single inner (' ' :: text) ('\n' :: (List.replicate inner ' ' ++ c :: written))
  /-- Line ends, one more if the first is a line feed. -/
  | ends {b : Char} {bs text written : List Char} (hends : ∀ c ∈ b :: bs, keptEnd c = c)
      (hb : isLineEnd b) (hbs : ∀ b ∈ bs, isLineEnd b)
      (hnext : written = [] ∨ ∃ c t, written = c :: t ∧ isLetter c)
      (h : Single inner text written) :
      Single inner (b :: (bs ++ text))
        ((if b = '\n' then ['\n'] else []) ++ b :: (bs ++ (List.replicate inner ' ' ++ written)))

theorem isLetter_quote : isLetter '\'' = true := rfl

theorem Single.reads (hinner : 0 < inner) (h : Single inner text written)
    (hr : r.head? ≠ some '\'') : ReadsBack false r text written := by
  induction h with
  | nil => exact .nil fun _ => hr
  | @letter c text written hc hquote h ih =>
    exact ih.cons (w := [c]) fun hreads => Reads.letter hc hquote nofun hreads
  | @quote text written h ih =>
    exact ih.cons (w := ['\'', '\'']) fun hreads => Reads.doubledQuote hreads
  | @space text written hnext h ih =>
    have hcontinues : Continues (written ++ '\'' :: r) := by simpa using hnext.append r
    exact ih.cons (w := [' ']) fun hreads => Reads.space hcontinues hreads
  | @fold c text written hc h ih =>
    refine ih.append (w := '\n' :: List.replicate inner ' ') [' '] 1 inner List.mem_cons_self rfl
      fun hreads => ?_
    have hnone : ∀ b ∈ ([] : List Char), isLineEnd b := by simp
    exact Reads.lineEnds hinner hc rfl hnone hreads
  | @ends b bs text written hends hb hbs hnext h ih =>
    obtain ⟨c, t, hct, hc⟩ : ∃ c t, written ++ '\'' :: r = c :: t ∧ isLetter c := by
      rcases hnext with rfl | ⟨c, t, rfl, hc⟩
      · exact ⟨_, _, rfl, isLetter_quote⟩
      · exact ⟨c, t ++ '\'' :: r, rfl, hc⟩
    have hmem : b ∈ (if b = '\n' then ['\n'] else []) ++ (b :: bs) ++ List.replicate inner ' ' := by
      simp
    have hback := ih.append (b :: bs) ((if b = '\n' then 2 else 1) + bs.length) inner hmem
      (isBreak_of_isLineEnd hb) fun hreads => by
        rw [List.append_assoc]
        simp only [Bool.false_eq_true, if_false, hct] at hreads ⊢
        exact Reads.keptEnds hinner hc hends (List.forall_mem_cons.2 ⟨hb, hbs⟩) hreads
    simpa using hback

/-! ### Double quotes -/

/-- The letter of an escape names the escaped character. -/
theorem letterEscape?_of_escapeLetter? {d : Char} (h : Pen.escapeLetter? c = some d) :
    letterEscape? d = some c ∧ isInline d := by
  unfold Pen.escapeLetter? at h
  split at h <;> cases h <;> exact ⟨rfl, rfl⟩

theorem codeDigits_eq (width : Nat) (c : Char) :
    Pen.codeDigits width c = (hexDigits width c.toNat).toList.map Char.toUpper := rfl

theorem isInline_of_mem_codeDigits {width : Nat} {d : Char} (h : d ∈ Pen.codeDigits width c) :
    isInline d := by
  obtain ⟨n, hn, rfl⟩ := exists_of_mem_hexDigits h
  interval_cases n <;> rfl

theorem length_codeDigits {width : Nat} (hpos : 0 < width) (hc : c.toNat < 16 ^ width) :
    (Pen.codeDigits width c).length = width := by
  rw [codeDigits_eq, List.length_map]
  exact length_hexDigits hpos hc

theorem toNat_lt (c : Char) : c.toNat < 0x110000 := by
  have hvalid : c.toNat < 0xd800 ∨ 0xdfff < c.toNat ∧ c.toNat < 0x110000 := c.valid
  omega

theorem codePoint_toNat (c : Char) : codePoint c.toNat = .ok c.toNat := by
  have hlt := toNat_lt c
  rw [codePoint, if_neg (by omega), if_neg (by omega)]

/-- An escape by code point reads as its character. -/
theorem escape_code {mark : Char} {width : Nat} (hmark : codeLength? mark = some width)
    (hletter : letterEscape? mark = none) (hinline : isInline mark) (hpos : 0 < width)
    (hc : c.toNat < 16 ^ width) :
    escape acc (before (mark :: (Pen.codeDigits width c ++ r)) l k) =
      .ok (c.toNat :: acc, before r l (k + (width + 1))) := by
  have hlength := length_codeDigits hpos hc
  have hdigits : ((before (mark :: (Pen.codeDigits width c ++ r)) l k).advance.rest).take width =
      Pen.codeDigits width c := by
    rw [advance_inline hinline, rest_before, List.take_append_of_le_length (by omega),
      List.take_of_length_le (by omega)]
  have hskip : (before (mark :: (Pen.codeDigits width c ++ r)) l k).skip (width + 1) =
      before r l (k + (width + 1)) := by
    have := skip_inline (l := l) (k := k) (r := r) (w := mark :: Pen.codeDigits width c) (by
      rintro d (_ | ⟨_, hd⟩)
      · exact hinline
      · exact isInline_of_mem_codeDigits hd)
    rwa [List.length_cons, hlength] at this
  have hnumber : hexNumber? (Pen.codeDigits width c) = some c.toNat := hexNumber?_hexDigits _ _
  rw [escape]
  simp only [peek_before, List.head?_cons, hletter, hmark, hdigits, hnumber, hlength, if_true,
    codePoint_toNat, Except.map, hskip]

theorem isLetter_backslash : isLetter '\\' = true := rfl

/-- What a backslash and the rest of an escape come to. -/
theorem Reads.backslash {acc₁ : List Nat} {s₁ : Cursor} (hleft : s₁.left ≤ r.length)
    (hescape : escape acc (before r l (k + 1)) = .ok (acc₁, s₁)) (h : Reads true acc₁ s₁ acc' s') :
    Reads true acc (before ('\\' :: r) l k) acc' s' := by
  refine h.step (by simp; omega) fun fuel => ?_
  rw [body]
  simp [advance_inline (show isInline '\\' from rfl), hescape, bind, Except.bind, isSpaceOrTab,
    isBreak]

/-- An escape by code point reads as its character, whatever follows. -/
theorem Reads.escapeCode {mark : Char} {width : Nat} (hmark : codeLength? mark = some width)
    (hletter : letterEscape? mark = none) (hinline : isInline mark) (hpos : 0 < width)
    (hc : c.toNat < 16 ^ width)
    (h : Reads true (c.toNat :: acc)
      (before r l (k + ('\\' :: mark :: Pen.codeDigits width c).length)) acc' s') :
    Reads true acc (before ('\\' :: mark :: Pen.codeDigits width c ++ r) l k) acc' s' := by
  rw [List.length_cons, List.length_cons, length_codeDigits hpos hc] at h
  refine Reads.backslash (by simp; omega) (escape_code hmark hletter hinline hpos hc) ?_
  rwa [show k + 1 + (width + 1) = k + (width + 1 + 1) by omega]

theorem Reads.escapeOf
    (h : Reads true (c.toNat :: acc) (before r l (k + (Pen.escapeOf c).length)) acc' s') :
    Reads true acc (before (Pen.escapeOf c ++ r) l k) acc' s' := by
  unfold Pen.escapeOf at h ⊢
  cases hl : Pen.escapeLetter? c with
  | some letter =>
    obtain ⟨hletter, hinline⟩ := letterEscape?_of_escapeLetter? hl
    rw [hl] at h
    have hescape : escape acc (before (letter :: r) l (k + 1)) =
        .ok (c.toNat :: acc, before r l (k + 2)) := by
      rw [escape]
      simp [hletter, advance_inline hinline]
    exact Reads.backslash (by simp) hescape h
  | none =>
    rw [hl] at h
    simp only at h ⊢
    -- the width of the code is the least that is enough
    split at h
    · next hc =>
      rw [if_pos hc]
      exact Reads.escapeCode rfl rfl rfl (by decide) hc h
    split at h
    · next hc hc' =>
      rw [if_neg hc, if_pos hc']
      exact Reads.escapeCode rfl rfl rfl (by decide) hc' h
    · next hc hc' =>
      have hlt : c.toNat < 16 ^ 8 := Nat.lt_trans (toNat_lt c) (by decide)
      rw [if_neg hc, if_neg hc']
      exact Reads.escapeCode rfl rfl rfl (by decide) hlt h

/-- A backslash before a line end joins the lines. -/
theorem Reads.join (hinner : 0 < inner) (hc : isLetter c)
    (h : Reads true acc (before (c :: r) (l + 1) inner) acc' s') :
    Reads true acc (before ('\\' :: '\n' :: (List.replicate inner ' ' ++ c :: r)) l k) acc' s' := by
  refine Reads.backslash (by simp; omega) ?_ h
  have hnone : ∀ b ∈ ([] : List Char), isLineEnd b := by simp
  have hbreaks := breaks_lineEnds [] (l + 1) r hinner hc hnone
    (Nat.succ_pos (List.replicate inner ' ' ++ c :: r).length)
  simp only [List.nil_append, List.map_nil, List.reverse_nil, List.length_nil, Nat.add_zero]
    at hbreaks
  have hletter : letterEscape? '\n' = none := rfl
  have hcode : codeLength? '\n' = none := rfl
  rw [escape]
  simp only [peek_before, List.head?_cons, hletter, hcode, lineBreak?_newline, left_before,
    ← Nat.succ_eq_add_one, hbreaks, Except.map, List.map_nil, List.nil_append]

/-- How a text is written between double quotes at an indentation. -/
inductive Double (inner : Nat) : List Char → List Char → Prop
  | nil : Double inner [] []
  | letter {c : Char} {text written : List Char} (hc : isLetter c) (hquote : c ≠ '"')
      (hescape : c ≠ '\\') (h : Double inner text written) :
      Double inner (c :: text) (c :: written)
  | escape {c : Char} {text written : List Char} (h : Double inner text written) :
      Double inner (c :: text) (Pen.escapeOf c ++ written)
  | space {text written : List Char} (h : Double inner text written) :
      Double inner (' ' :: text) (' ' :: written)
  /-- A space at the start of a line. -/
  | escapedSpace {text written : List Char} (h : Double inner text written) :
      Double inner (' ' :: text) ('\\' :: ' ' :: written)
  /-- A place where the line is folded. -/
  | join {c : Char} {text written : List Char} (hc : isLetter c)
      (h : Double inner text (c :: written)) :
      Double inner text ('\\' :: '\n' :: (List.replicate inner ' ' ++ c :: written))

theorem isLetter_doubleQuote : isLetter '"' = true := rfl

theorem escapeOf_eq (c : Char) : ∃ t, Pen.escapeOf c = '\\' :: t := by
  unfold Pen.escapeOf
  split
  · exact ⟨_, rfl⟩
  split
  · exact ⟨_, rfl⟩
  split <;> exact ⟨_, rfl⟩

/-- Line ends between double quotes stand after backslashes only. -/
theorem Double.continues (h : Double inner text written) : Continues (written ++ '"' :: r) := by
  induction h with
  | nil => exact continues_of_isLetter isLetter_doubleQuote
  | letter hc => exact continues_of_isLetter hc
  | @escape c =>
    obtain ⟨t, ht⟩ := escapeOf_eq c
    rw [ht]
    exact continues_of_isLetter isLetter_backslash
  | space _ ih => exact ih.space
  | escapedSpace | join => exact continues_of_isLetter isLetter_backslash

theorem Double.reads (hinner : 0 < inner) (h : Double inner text written) :
    ReadsBack true r text written := by
  induction h with
  | nil => exact .nil nofun
  | @letter c text written hc hquote hescape h ih =>
    exact ih.cons (w := [c]) fun hreads => Reads.letter hc hquote (fun _ => hescape) hreads
  | @escape c text written h ih => exact ih.cons fun hreads => Reads.escapeOf hreads
  | @space text written h ih =>
    exact ih.cons (w := [' ']) fun hreads => Reads.space h.continues hreads
  | @escapedSpace text written h ih =>
    refine ih.cons (w := ['\\', ' ']) fun {acc l k _ _} hreads => ?_
    refine Reads.backslash (by simp) ?_ hreads
    have hspace : (before (' ' :: (written ++ '"' :: r)) l (k + 1)).advance =
        before (written ++ '"' :: r) l (k + 2) := advance_inline rfl
    rw [Quoted.escape]
    simp [letterEscape?, hspace]
  | @join c text written hc h ih =>
    have hmem : '\n' ∈ '\\' :: '\n' :: List.replicate inner ' ' := by simp
    have hback := ih.append [] 1 inner hmem rfl fun hreads => Reads.join hinner hc hreads
    simpa using hback

end Quoted

/-! ### The whole text -/

open Quoted

variable {inner l k : Nat} {text written r : List Char}

/-- A text between quotes is read up to its closing quote. -/
theorem quotedScalar_of_reads {double : Bool} {c' : Cursor}
    (h : Reads double [] (before (written ++ (if double then '"' else '\'') :: r) l (k + 1))
      (text.reverse.map Char.toNat) c') :
    quotedScalar (before ((if double then '"' else '\'') ::
        (written ++ (if double then '"' else '\'') :: r)) l k) =
      .ok (.str (String.ofList text), c') := by
  have hquote : isInline (if double then '"' else '\'') = true := by cases double <;> rfl
  have hdouble : decide ((if double then '"' else '\'') = '"') = double := by cases double <;> rfl
  rw [quotedScalar, advance_inline hquote]
  simp only [peek_before, List.head?_cons, Option.some.injEq, hdouble, left_before]
  rw [h _ (by simp only [left_before, List.length_cons]; omega)]
  rw [Except.map, ← List.map_reverse, List.reverse_reverse, Text.ofCodes_toNat]

/-- A text in single quotes is read to its end. -/
theorem quotedScalar_single (hinner : 0 < inner) (h : Single inner text written)
    (hr : r.head? ≠ some '\'') :
    ∃ l' k', l ≤ l' ∧
      ((∀ c ∈ written, isBreak c = false) → l' = l ∧ k' = k + (written.length + 2)) ∧
      quotedScalar (before ('\'' :: (written ++ '\'' :: r)) l k) =
        .ok (.str (String.ofList text), before r l' k') := by
  obtain ⟨l', k', hl, hflat, hreads⟩ := h.reads hinner hr [] l (k + 1)
  rw [List.append_nil] at hreads
  refine ⟨l', k', hl, fun hbreak => ?_, quotedScalar_of_reads hreads⟩
  obtain ⟨hl', hk'⟩ := hflat hbreak
  exact ⟨hl', by omega⟩

/-- A text in double quotes is read to its end. -/
theorem quotedScalar_double (hinner : 0 < inner) (h : Double inner text written) :
    ∃ l' k', l ≤ l' ∧
      ((∀ c ∈ written, isBreak c = false) → l' = l ∧ k' = k + (written.length + 2)) ∧
      quotedScalar (before ('"' :: (written ++ '"' :: r)) l k) =
        .ok (.str (String.ofList text), before r l' k') := by
  obtain ⟨l', k', hl, hflat, hreads⟩ := h.reads (r := r) hinner [] l (k + 1)
  rw [List.append_nil] at hreads
  refine ⟨l', k', hl, fun hbreak => ?_, quotedScalar_of_reads hreads⟩
  obtain ⟨hl', hk'⟩ := hflat hbreak
  exact ⟨hl', by omega⟩

end Yaml
end Runbook
