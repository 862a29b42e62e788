import Runbook.Proofs.Yaml.Cursor
import Runbook.Yaml.Plain

/-!
# Reading folded plain texts

A plain text is written as its words with the spaces between them, of which single ones can become a
line end and an indentation. Reading gives the text back.
-/

namespace Runbook
namespace Yaml

open Cursor

/-- Whether a text is what a line begins with, or nothing. -/
structure LineStart (r : List Char) : Prop where
  head : r.head?.all fun c => !endsWord (some c) && c ≠ '#' && c ≠ '\uFEFF'
  noMark : NoMark r

namespace LineStart

variable {r : List Char}

theorem not_space (h : LineStart r) : r.head? ≠ some ' ' := by
  intro he
  have := h.head
  simp [he, endsWord, endsField] at this

theorem not_break (h : LineStart r) : r.head?.all (!isBreak ·) := by
  have hhead := h.head
  cases hr : r.head? with
  | none => rfl
  | some c =>
    simp only [hr, Option.all_some, endsWord, endsField, endsLine] at hhead ⊢
    revert hhead
    cases isBreak c <;> simp

theorem not_comment (h : LineStart r) : r.head? ≠ some '#' := by
  intro he
  have := h.head
  simp [he] at this

theorem noMark_indented (h : LineStart r) (m : Nat) : NoMark (List.replicate m ' ' ++ r) := by
  cases m with
  | zero => exact h.noMark
  | succ m => exact noMark_cons (by decide) (by decide)

end LineStart

namespace Plain

/-- A word of a plain text: no blanks, no colon at its end, and no number sign at its start. -/
structure IsWord (w : List Char) : Prop where
  ne_nil : w ≠ []
  inline : ∀ c ∈ w, isInline c
  not_blank : ∀ c ∈ w, endsWord (some c) = false
  not_comment : w.head? ≠ some '#'
  not_colon : w.getLast? ≠ some ':'

/-- How a plain text is written at an indentation. -/
inductive Form (inner : Nat) : List Char → List Char → Prop
  | word {w : List Char} (hw : IsWord w) : Form inner w w
  | spaces {w text written : List Char} {n : Nat} (hw : IsWord w) (h : Form inner text written) :
      Form inner (w ++ (List.replicate (n + 1) ' ' ++ text))
        (w ++ (List.replicate (n + 1) ' ' ++ written))
  | fold {w text written : List Char} (hw : IsWord w) (h : Form inner text written) :
      Form inner (w ++ ' ' :: text) (w ++ '\n' :: (List.replicate inner ' ' ++ written))

/-- Where a plain text ends: before a blank, or before a colon that stands apart. -/
def Stops (r : List Char) : Prop :=
  endsWord r.head? ∨ ∃ t, r = ':' :: t ∧ endsWord t.head?

variable {inner : Nat} {w r text written tail acc pending : List Char} {l k m : Nat}

theorem word_of_stops (h : Stops r) : word false r = [] := by
  cases r with
  | nil => rfl
  | cons c t =>
    rw [word]
    rcases h with h | ⟨t', he, ht⟩
    · rw [if_pos (by simpa using h)]
    · obtain ⟨rfl, rfl⟩ := List.cons.inj he
      rw [if_neg (by decide), if_pos (by simp [ht])]

theorem word_append (hw : IsWord w) (hr : Stops r) : word false (w ++ r) = w := by
  obtain ⟨-, -, hblank, -, hcolon⟩ := hw
  induction w with
  | nil => exact word_of_stops hr
  | cons c w ih =>
    have hc := hblank c List.mem_cons_self
    rw [List.cons_append, word, if_neg (by simp [hc])]
    cases w with
    | nil =>
      have hne : c ≠ ':' := by simpa using hcolon
      rw [if_neg (by simp [hne]), if_neg (by simp), List.nil_append, word_of_stops hr]
    | cons d w =>
      have hd := hblank d (by simp)
      rw [if_neg (by simp [hd]), if_neg (by simp),
        ih (fun e he => hblank e (List.mem_cons_of_mem _ he)) (by simpa using hcolon)]

theorem Form.head (h : Form inner text written) :
    ∃ c t, written = c :: t ∧ isInline c ∧ endsWord (some c) = false ∧ c ≠ '#' := by
  have hword : ∀ {w t : List Char}, IsWord w →
      ∃ c t', w ++ t = c :: t' ∧ isInline c ∧ endsWord (some c) = false ∧ c ≠ '#' := by
    rintro w t ⟨hne, hinline, hblank, hcomment, -⟩
    cases w with
    | nil => exact absurd rfl hne
    | cons c w =>
      exact ⟨c, w ++ t, rfl, hinline c List.mem_cons_self, hblank c List.mem_cons_self,
        by simpa using hcomment⟩
  cases h with
  | word hw => simpa using hword (t := []) hw
  | spaces hw | fold hw => exact hword hw

/-- Neither a blank, nor a line end, nor a comment stands in front of a form. -/
theorem Form.head_append (h : Form inner text written) (tail : List Char) :
    (written ++ tail).head? ≠ some ' ' ∧ (written ++ tail).head?.all (!isBreak ·) ∧
      (written ++ tail).head? ≠ some '#' := by
  obtain ⟨c, t, rfl, hinline, hblank, hcomment⟩ := h.head
  have hspace : c ≠ ' ' := by
    rintro rfl
    exact absurd hblank (by decide)
  exact ⟨by simpa using hspace, by simp [not_isBreak_of_isInline hinline], by simpa using hcomment⟩

/-! ### Between words -/

theorem spaces_replicate (n : Nat) (hspace : r.head? ≠ some ' ')
    (hbreak : r.head?.all (!isBreak ·)) :
    spaces (before (List.replicate n ' ' ++ r) l k) =
      (List.replicate n ' ', false, before r l (k + n)) := by
  have hspaces : ∀ c ∈ List.replicate n ' ', c = ' ' := fun c hc => List.eq_of_mem_replicate hc
  have hspan := span_inline (l := l) (k := k) (w := List.replicate n ' ') (r := r)
    (p := fun c => decide (c = ' ')) (fun c hc => by rw [hspaces c hc]; rfl)
    (fun c hc => by simp [hspaces c hc]) (by
      cases r with
      | nil => rfl
      | cons d r => simpa using hspace)
  rw [List.length_replicate] at hspan
  simp only [spaces, hspan, lineBreak?_of_not hbreak]

theorem spaces_newline (hspace : r.head? ≠ some ' ') (hbreak : r.head?.all (!isBreak ·))
    (hmark : NoMark (List.replicate m ' ' ++ r)) :
    spaces (before ('\n' :: (List.replicate m ' ' ++ r)) l k) =
      ([' '], true, before r (l + 1) m) := by
  have hspan : (before ('\n' :: (List.replicate m ' ' ++ r)) l k).span (fun c => decide (c = ' ')) =
      ([], before ('\n' :: (List.replicate m ' ' ++ r)) l k) := rfl
  have hmark := atDocumentMark_of_noMark (l := l + 1) (k := 0) hmark
  have hbreaks : ∀ fuel, breaks (fuel + 1) [] (before (List.replicate m ' ' ++ r) (l + 1) 0) =
      (some [], before r (l + 1) m) := by
    intro fuel
    rw [breaks, skipSpaces_replicate m hspace, Nat.zero_add]
    simp only [lineBreak?_of_not hbreak]
  simp only [spaces, hspan, lineBreak?_newline, hmark, hbreaks, Bool.false_eq_true, if_false]
  rfl

/-! ### All words -/

theorem words_word {indent : Int} {fuel : Nat} {p : Bool} (hw : IsWord w) (hr : Stops r) :
    words false indent (fuel + 1) acc pending p (before (w ++ r) l k) =
      match spaces (before r l (k + w.length)) with
      | (pending', passed, c) =>
        if pending'.isEmpty || c.peek = some '#' || (c.column : Int) < indent then
          (w.reverse ++ pending ++ acc, passed, c)
        else words false indent fuel (w.reverse ++ pending ++ acc) pending' passed c := by
  have hcomment : (before (w ++ r) l k).peek ≠ some '#' := by
    rw [peek_before]
    obtain ⟨hne, -, -, hcomment, -⟩ := hw
    cases w with
    | nil => exact absurd rfl hne
    | cons c w => exact hcomment
  have hword : word false (before (w ++ r) l k).rest = w := word_append hw hr
  rw [words, if_neg hcomment]
  simp only [hword, skip_inline hw.inline, List.isEmpty_eq_false_iff.2 hw.ne_nil,
    Bool.false_eq_true, if_false, Bool.not_false, Bool.true_and]

theorem words_next {indent : Int} {fuel : Nat} {p passed : Bool} {pending' : List Char}
    {l' k' : Nat}
    (hw : IsWord w) (hr : endsWord r.head?) (hpending : pending' ≠ [])
    (hspaces : spaces (before r l (k + w.length)) = (pending', passed, before written l' k'))
    (hcomment : written.head? ≠ some '#') (hk : indent ≤ k') :
    words false indent (fuel + 1) acc pending p (before (w ++ r) l k) =
      words false indent fuel (w.reverse ++ pending ++ acc) pending' passed
        (before written l' k') := by
  rw [words_word hw (.inl hr), hspaces]
  refine if_neg ?_
  have hcolumn : ¬ (k' : Int) < indent := by omega
  simp [hpending, hcomment, hcolumn]

/-- Reading gives a written text back and stops where it ends. Where that is on the line is known if
the text was not folded. -/
theorem words_of_form {indent : Int} {passed : Bool} (after : Nat → Nat → Cursor)
    (hstops : Stops tail)
    (hend : ∀ l k, ∃ pending, spaces (before tail l k) = (pending, passed, after l k) ∧
      (pending = [] ∨ (after l k).column < indent))
    (h : Form inner text written) (hinner : indent ≤ inner) (hpos : 0 < inner) :
    ∀ (fuel : Nat) (acc pending : List Char) (p : Bool) (l k : Nat), indent ≤ k + 1 →
      written.length < fuel → ∃ l' k' : Nat, l ≤ l' ∧ indent ≤ k' ∧
        ('\n' ∉ written → l' = l ∧ k' = k + written.length) ∧
        words false indent fuel acc pending p (before (written ++ tail) l k) =
          (text.reverse ++ pending ++ acc, passed, after l' k') := by
  induction h with
  | @word w hw =>
    intro fuel acc pending p l k hk hfuel
    have hpos := List.length_pos_iff.2 hw.ne_nil
    obtain ⟨fuel, rfl⟩ : ∃ n, fuel = n + 1 := ⟨fuel - 1, by omega⟩
    obtain ⟨pending', hspaces, hover⟩ := hend l (k + w.length)
    refine ⟨l, k + w.length, Nat.le_refl l, by omega, fun _ => ⟨rfl, rfl⟩, ?_⟩
    rw [words_word hw hstops, hspaces]
    refine if_pos ?_
    rcases hover with rfl | hover <;> simp [*]
  | @spaces w text written n hw h ih =>
    intro fuel acc pending p l k hk hfuel
    have hpos := List.length_pos_iff.2 hw.ne_nil
    obtain ⟨fuel, rfl⟩ : ∃ n, fuel = n + 1 := ⟨fuel - 1, by omega⟩
    obtain ⟨hspace, hbreak, hcomment⟩ := h.head_append tail
    simp only [List.length_append, List.length_replicate] at hfuel
    obtain ⟨l', k', hl, hk', hflat, hread⟩ := ih fuel (w.reverse ++ pending ++ acc)
      (List.replicate (n + 1) ' ') false l (k + w.length + (n + 1)) (by omega) (by omega)
    refine ⟨l', k', hl, hk', fun hflat' => ?_, ?_⟩
    · simp only [List.mem_append, not_or] at hflat'
      obtain ⟨rfl, rfl⟩ := hflat hflat'.2.2
      refine ⟨rfl, ?_⟩
      simp only [List.length_append, List.length_replicate]
      omega
    · rw [List.append_assoc, List.append_assoc, words_next hw rfl (by simp)
        (spaces_replicate _ hspace hbreak) hcomment (by omega), hread]
      simp
  | @fold w text written hw h ih =>
    intro fuel acc pending p l k hk hfuel
    obtain ⟨fuel, rfl⟩ : ∃ n, fuel = n + 1 := ⟨fuel - 1, by omega⟩
    obtain ⟨hspace, hbreak, hcomment⟩ := h.head_append tail
    simp only [List.length_append, List.length_cons, List.length_replicate] at hfuel
    obtain ⟨l', k', hl, hk', -, hread⟩ := ih fuel (w.reverse ++ pending ++ acc) [' '] true (l + 1)
      inner (by omega) (by omega)
    refine ⟨l', k', by omega, hk', fun hflat' => absurd (by simp) hflat', ?_⟩
    -- the indentation keeps the word from being a mark between documents
    have hmark := noMark_indent hpos (written ++ tail)
    rw [List.append_assoc, List.cons_append, List.append_assoc, words_next hw rfl (by simp)
      (spaces_newline hspace hbreak hmark) hcomment hinner, hread]
    simp

end Plain

/-! ### The whole text -/

open Plain

variable {inner m l k : Nat} {indent : Int} {text written r : List Char}

/-- A plain text that a line end follows is read up to the start of the next line that is less
indented. -/
theorem plainScalar_of_line (h : Form inner text written) (hinner : indent + 1 ≤ inner)
    (hpos : 0 < inner) (hr : LineStart r) (hm : (m : Int) ≤ indent) (hk : indent ≤ k) :
    ∃ l', l < l' ∧ plainScalar false indent
      (before (written ++ '\n' :: (List.replicate m ' ' ++ r)) l k) =
        (String.ofList text, true, before r l' m) := by
  have hend : ∀ l k, ∃ pending,
      spaces (before ('\n' :: (List.replicate m ' ' ++ r)) l k) =
        (pending, true, before r (l + 1) m) ∧
      (pending = [] ∨ ((before r (l + 1) m).column : Int) < indent + 1) := fun l k =>
    ⟨[' '], spaces_newline hr.not_space hr.not_break (hr.noMark_indented m), .inr (by simp; omega)⟩
  obtain ⟨l', k', hl, -, -, hread⟩ := words_of_form (fun l _ => before r (l + 1) m) (.inl rfl)
    hend h hinner hpos ((written ++ '\n' :: (List.replicate m ' ' ++ r)).length + 1) [] [] false l k
    (by omega)
    (by simp only [List.length_append, List.length_cons]; omega)
  refine ⟨l' + 1, by omega, ?_⟩
  rw [plainScalar, left_before, hread]
  simp

/-- A plain text on one line is read up to the colon that stands apart after it. -/
theorem plainScalar_of_colon (h : Form inner text written) (hinner : indent + 1 ≤ inner)
    (hpos : 0 < inner) (hflat : '\n' ∉ written) (hr : endsWord r.head?) (hk : indent ≤ k) :
    plainScalar false indent (before (written ++ ':' :: r) l k) =
      (String.ofList text, false, before (':' :: r) l (k + written.length)) := by
  have hend : ∀ l k, ∃ pending,
      spaces (before (':' :: r) l k) = (pending, false, before (':' :: r) l k) ∧
      (pending = [] ∨ ((before (':' :: r) l k).column : Int) < indent + 1) := fun l k =>
    ⟨[], spaces_replicate 0 (by simp) (by simp [isBreak]), .inl rfl⟩
  obtain ⟨l', k', -, -, hplace, hread⟩ := words_of_form (fun l k => before (':' :: r) l k)
    (.inr ⟨r, rfl, hr⟩) hend h hinner hpos ((written ++ ':' :: r).length + 1) [] [] false l k
    (by omega)
    (by simp only [List.length_append, List.length_cons]; omega)
  obtain ⟨rfl, rfl⟩ := hplace hflat
  rw [plainScalar, left_before, hread]
  simp

end Yaml
end Runbook
