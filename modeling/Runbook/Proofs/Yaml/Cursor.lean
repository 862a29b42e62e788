import Runbook.Yaml.Cursor

/-!
# Moving through a text

Where a cursor is after it has passed characters that it knows: characters of a line move it to the
right, a line end moves it to the start of the next line.
-/

namespace Runbook
namespace Yaml

/-- Whether a character takes one column and does not end the line. -/
def isInline (c : Char) : Bool := !isBreak c && c ≠ '\uFEFF'

/-- Whether a character is a line end of one character. -/
def isLineEnd (c : Char) : Bool := isBreak c && c ≠ '\r'

theorem not_isBreak_of_isInline {c : Char} (h : isInline c) : isBreak c = false := by
  simp only [isInline, Bool.and_eq_true, Bool.not_eq_true'] at h
  exact h.1

@[simp] theorem isInline_space : isInline ' ' = true := rfl

theorem isBreak_of_isLineEnd {c : Char} (h : isLineEnd c) : isBreak c = true := by
  simp only [isLineEnd, Bool.and_eq_true] at h
  exact h.1

theorem ne_return_of_isLineEnd {c : Char} (h : isLineEnd c) : c ≠ '\r' := by
  simp only [isLineEnd, Bool.and_eq_true, decide_eq_true_eq] at h
  exact h.2

namespace Cursor

/-- The place in front of the rest of a text. -/
def before (rest : List Char) (line column : Nat) : Cursor := ⟨rest, rest.length, line, column⟩

variable {r w : List Char} {c : Char} {l k : Nat} {p : Char → Bool}

@[simp] theorem rest_before : (before r l k).rest = r := rfl
@[simp] theorem left_before : (before r l k).left = r.length := rfl
@[simp] theorem line_before : (before r l k).line = l := rfl
@[simp] theorem column_before : (before r l k).column = k := rfl
@[simp] theorem peek_before : (before r l k).peek = r.head? := rfl
@[simp] theorem peekAt_before (n : Nat) : (before r l k).peekAt n = r[n]? := rfl

theorem advance_inline (h : isInline c) :
    (before (c :: r) l k).advance = before r l (k + 1) := by
  have hbreak := not_isBreak_of_isInline h
  have hmark : c ≠ '\uFEFF' := by
    simp only [isInline, Bool.and_eq_true, decide_eq_true_eq] at h
    exact h.2
  simp [advance, before, hbreak, hmark]

theorem advance_lineEnd (h : isLineEnd c) :
    (before (c :: r) l k).advance = before r (l + 1) 0 := by
  simp [advance, before, isBreak_of_isLineEnd h, ne_return_of_isLineEnd h]

theorem skip_inline (h : ∀ c ∈ w, isInline c) :
    (before (w ++ r) l k).skip w.length = before r l (k + w.length) := by
  induction w generalizing k with
  | nil => rfl
  | cons c w ih =>
    rw [List.cons_append, List.length_cons, skip, advance_inline (h c List.mem_cons_self),
      ih fun d hd => h d (List.mem_cons_of_mem _ hd), Nat.add_assoc, Nat.add_comm 1]

/-- The characters of a class end where the next one does not belong to it. -/
theorem takeWhile_append_of_all (h : ∀ c ∈ w, p c) (hr : r.head?.all (!p ·)) :
    (w ++ r).takeWhile p = w := by
  rw [List.takeWhile_append_of_pos h]
  cases r with
  | nil => simp
  | cons d r =>
    have hd : p d = false := by simpa using hr
    simp [hd]

theorem span_inline (h : ∀ c ∈ w, isInline c) (hp : ∀ c ∈ w, p c) (hr : r.head?.all (!p ·)) :
    (before (w ++ r) l k).span p = (w, before r l (k + w.length)) := by
  have htaken : (before (w ++ r) l k).rest.takeWhile p = w := takeWhile_append_of_all hp hr
  simp only [span, htaken, skip_inline h]

theorem skipSpaces_replicate (n : Nat) (hr : r.head? ≠ some ' ') :
    (before (List.replicate n ' ' ++ r) l k).skipSpaces = before r l (k + n) := by
  have hspaces : ∀ c ∈ List.replicate n ' ', c = ' ' := fun c hc => List.eq_of_mem_replicate hc
  have hspan := span_inline (l := l) (k := k) (w := List.replicate n ' ') (r := r)
    (p := fun c => decide (c = ' ')) (fun c hc => by rw [hspaces c hc]; rfl)
    (fun c hc => by simp [hspaces c hc]) (by
      cases r with
      | nil => rfl
      | cons d r => simpa using hr)
  rw [skipSpaces, skipWhile, hspan, List.length_replicate]

theorem lineBreak?_of_not (h : r.head?.all (!isBreak ·)) : (before r l k).lineBreak? = none := by
  cases r with
  | nil => rfl
  | cons c r =>
    have hc : isBreak c = false := by simpa using h
    have hreturn : c ≠ '\r' := by
      rintro rfl
      simp [isBreak] at hc
    unfold lineBreak?
    split
    · next he =>
      simp only [rest_before, List.cons.injEq] at he
      exact absurd he.1 hreturn
    · next he =>
      simp only [rest_before, List.cons.injEq] at he
      simp [← he.1, hc]
    · rfl

theorem lineBreak?_of_lineEnd (h : isLineEnd c) :
    (before (c :: r) l k).lineBreak? =
      some (if c = '\u2028' || c = '\u2029' then c else '\n', before r (l + 1) 0) := by
  unfold lineBreak?
  split
  · next he =>
    simp only [rest_before, List.cons.injEq] at he
    exact absurd he.1 (ne_return_of_isLineEnd h)
  · next he =>
    simp only [rest_before, List.cons.injEq] at he
    obtain ⟨rfl, rfl⟩ := he
    simp [isBreak_of_isLineEnd h, advance_lineEnd h]
  · next he => simp at he

/-- The place after a line feed and an indentation, and what the line end counts as. -/
theorem lineBreak?_newline :
    (before ('\n' :: r) l k).lineBreak? = some ('\n', before r (l + 1) 0) :=
  lineBreak?_of_lineEnd rfl

/-- Neither three hyphens nor three dots begin a text. -/
def NoMark (r : List Char) : Prop :=
  ['-', '-', '-'].isPrefixOf r = false ∧ ['.', '.', '.'].isPrefixOf r = false

theorem atDocumentMark_of_noMark (h : NoMark r) : (before r l k).atDocumentMark = false := by
  simp [atDocumentMark, h.1, h.2]

theorem noMark_cons (h₁ : c ≠ '-') (h₂ : c ≠ '.') : NoMark (c :: r) := by
  simp [NoMark, List.isPrefixOf, Ne.symm h₁, Ne.symm h₂]

/-- Behind an indentation no mark begins. -/
theorem noMark_indent {n : Nat} (h : 0 < n) (r : List Char) :
    NoMark (List.replicate n ' ' ++ r) := by
  obtain ⟨n, rfl⟩ : ∃ i, n = i + 1 := ⟨n - 1, by omega⟩
  exact noMark_cons (by decide) (by decide)

end Cursor
end Yaml
end Runbook
