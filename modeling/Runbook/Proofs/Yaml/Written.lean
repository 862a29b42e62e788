import Runbook.Proofs.Yaml.Block
import Runbook.Proofs.Yaml.Number

/-!
# The tokens of a written document

The text of a mapping that is kept is cut into the tokens of the mapping (`tokensOf_write`).
-/

namespace Runbook
namespace Yaml

open Cursor Scan

/-! ### Values that are kept -/

mutual

/-- Whether a value can be read back from what is written for it. After an opened mark collections
are two columns deeper; below a key sequences are not. -/
def isKept (opened : Bool) (n : Nat) : Value → Bool
  | .scalar (.str s) => Pen.keeps (n + 2) false s
  | .scalar s => isWord s
  | .list items => areKept (if opened then n + 2 else n) items
  | .mapping entries => haveKept (n + 2) entries
  | _ => false

/-- The same for the items of a sequence. -/
def areKept (n : Nat) : List Value → Bool
  | [] => true
  | v :: r => isKept true n v && areKept n r

/-- The same for the entries of a mapping, under text keys. -/
def haveKept (n : Nat) : List (Scalar × Value) → Bool
  | [] => true
  | (.str s, v) :: r =>
    Pen.keeps (n + 2) (isShortKey s) s && isKept (!isShortKey s) n v && haveKept n r
  | _ => false

end

/-- A scalar that is kept is a text or stands for a word. -/
theorem str_or_isWord {opened : Bool} {n : Nat} {s : Scalar} (h : isKept opened n (.scalar s)) :
    (∃ text, s = .str text) ∨ isWord s := by
  cases s with
  | str text => exact .inl ⟨text, rfl⟩
  | _ => exact .inr h

/-! ### What is written -/

namespace Pen

variable {p : Pen} {n : Nat} {w : List Char}

/-- A mark at an indentation. -/
theorem mark_of_indent (h : p.indent n = ⟨w, n, true, true⟩) (c : Char) :
    (p.indent n).mark [c] true false true = ⟨c :: w, n + 1, false, true⟩ := by
  rw [h]
  rfl

/-- A collection begins on the line of the mark before it. -/
theorem indent_of_mark (hblank : p.afterBlank = false) (hindent : p.atIndent = true)
    (hcolumn : p.column = n + 1) : p.indent (n + 2) = ⟨' ' :: p.written, n + 2, true, true⟩ := by
  obtain ⟨written, column, afterBlank, atIndent⟩ := p
  simp_all [indent, write]

theorem gap_of_word (h : p.afterBlank = false) : p.gap = [' '] := by
  simp [gap, h]

theorem gap_of_blank (h : p.afterBlank = true) : p.gap = [] := by
  simp [gap, h]

theorem indent_after (w : List Char) (k n : Nat) :
    (after w k).indent n = ⟨List.replicate n ' ' ++ '\n' :: w, n, true, true⟩ :=
  indent_of_inside (.inl rfl)

theorem emptyMark_of_word (h : p.afterBlank = false) (opening closing : Char) :
    p.emptyMark opening closing =
      after ([' ', opening, closing].reverse ++ p.written) (p.column + 3) := by
  simp [emptyMark, mark, write, after, h]

theorem scalar_of_isWord {s : Scalar} {text : String} (h : isWord s) (hw : wordOf? s = some text) :
    p.scalar (some n) s = p.plain (n + 2) true text ∧
      scalarToken false s = .scalar (.str text) true := by
  cases s with
  | str | wild => cases h
  | _ => simp [scalar, scalarToken, hw]

/-- A scalar after a mark. -/
theorem exists_scalar {s : Scalar} {opened : Bool} (hp : p.afterBlank = false)
    (h : isKept opened n (.scalar s)) :
    ∃ t k, p.scalar (some n) s = after (t.reverse ++ p.written) k ∧
      ReadsAfterMark opened n t [scalarToken false s] := by
  have hwritten : ∀ {body : List Char}, body.reverse ++ (p.gap ++ p.written) =
      (' ' :: body).reverse ++ p.written := by
    intro body
    rw [gap_of_word hp]
    simp
  rcases str_or_isWord h with ⟨text, rfl⟩ | hword
  · obtain ⟨body, k, hbody, -, hwrite⟩ := exists_body p (show keeps (n + 2) false text from h)
    refine ⟨' ' :: body, k, hwrite.trans (by rw [hwritten]), ?_⟩
    simpa [scalarToken] using ReadsAfterMark.scalar hbody
  · obtain ⟨w, hw, hplain, -⟩ := exists_word hword
    obtain ⟨body, k, hbody, -, hwrite⟩ := exists_body_plain (n + 2) p true hplain
    obtain ⟨hscalar, htoken⟩ := scalar_of_isWord (p := p) (n := n) hword hw
    refine ⟨' ' :: body, k, by rw [hscalar, hwrite, hwritten], ?_⟩
    rw [htoken]
    simpa using ReadsAfterMark.scalar hbody

mutual

/-- A value after a mark. -/
theorem exists_value (opened below : Bool) (n : Nat) (p : Pen) (hblank : p.afterBlank = false)
    (hindent : p.atIndent = opened) (hcolumn : opened = true → p.column = n + 1)
    (hbelow : opened = false → below = true) :
    (v : Value) → isKept opened n v →
    ∃ t k, value (some n) below v p = after (t.reverse ++ p.written) k ∧
      ReadsAfterMark opened n t (valueTokens opened v)
  | .scalar s, h => by
    rw [value, valueTokens]
    exact exists_scalar hblank h
  | .list [], h => by
    rw [value, valueTokens]
    exact ⟨_, _, emptyMark_of_word hblank _ _, .flow (.inl rfl) (.inl rfl)⟩
  | .list (v :: r), h => by
    rw [isKept] at h
    cases opened with
    | true =>
      have hp := indent_of_mark hblank hindent (hcolumn rfl)
      obtain ⟨t, k, hwrite, hreads⟩ := exists_items (n + 2) (v :: r) h (by simp) p hp
      refine ⟨' ' :: t, k, ?_, .collection hreads⟩
      simp [value, hindent, deeper, hwrite]
    | false =>
      have hp := indent_of_inside (n := n) (.inl hindent)
      obtain ⟨t, k, hwrite, hreads⟩ := exists_items n (v :: r) h (by simp) p hp
      refine ⟨'\n' :: (List.replicate n ' ' ++ t), k, ?_, .sequence hreads⟩
      simp [value, hindent, hbelow rfl, hwrite]
  | .mapping [], h => by
    rw [value, valueTokens]
    exact ⟨_, _, emptyMark_of_word hblank _ _, .flow (.inr rfl) (.inr rfl)⟩
  | .mapping (e :: r), h => by
    rw [isKept] at h
    cases opened with
    | true =>
      have hp := indent_of_mark hblank hindent (hcolumn rfl)
      obtain ⟨t, k, hwrite, hreads⟩ := exists_entries (n + 2) (e :: r) h (by simp) p hp
      refine ⟨' ' :: t, k, ?_, .collection hreads⟩
      simp [value, deeper, hwrite]
    | false =>
      have hp := indent_of_inside (n := n + 2) (.inl hindent)
      obtain ⟨t, k, hwrite, hreads⟩ := exists_entries (n + 2) (e :: r) h (by simp) p hp
      refine ⟨'\n' :: (List.replicate (n + 2) ' ' ++ t), k, ?_, .mapping hreads⟩
      simp [value, deeper, hwrite]
  | .set _, h => by cases h
  | .pair _ _, h => by cases h
  | .endless _, h => by cases h

/-- Items at an indentation. -/
theorem exists_items (n : Nat) : (vs : List Value) → areKept n vs → vs ≠ [] →
    ∀ {w : List Char} (p : Pen), p.indent n = ⟨w, n, true, true⟩ →
    ∃ t k, items n vs p = after (t.reverse ++ w) k ∧
      ReadsAtIndent .sequenceStart n t (itemTokens vs)
  | v :: r, h, _, w, p, hp => by
    rw [areKept, Bool.and_eq_true] at h
    obtain ⟨t, k, hwrite, hreads⟩ := exists_value true false n
      ⟨'-' :: w, n + 1, false, true⟩ rfl rfl (fun _ => rfl) (by simp) v h.1
    rw [items, mark_of_indent hp, hwrite]
    by_cases hr : r = []
    · subst hr
      refine ⟨'-' :: t, k, by simp [items], ?_⟩
      simpa [itemTokens] using ReadsAtIndent.item hreads
    · obtain ⟨t', k', hwrite', hreads'⟩ := exists_items n r h.2 hr _ (indent_after _ k n)
      refine ⟨'-' :: t ++ '\n' :: (List.replicate n ' ' ++ t'), k', ?_, ?_⟩
      · rw [hwrite']
        simp
      · exact (ReadsAtIndent.item hreads).append hreads'

/-- Entries at an indentation. -/
theorem exists_entries (n : Nat) : (es : List (Scalar × Value)) → haveKept n es → es ≠ [] →
    ∀ {w : List Char} (p : Pen), p.indent n = ⟨w, n, true, true⟩ →
    ∃ t k, entries n es p = after (t.reverse ++ w) k ∧
      ReadsAtIndent .mappingStart n t (entryTokens es)
  | (.str key, v) :: r, h, _, w, p, hp => by
    rw [haveKept, Bool.and_eq_true, Bool.and_eq_true] at h
    obtain ⟨⟨hkey, hvalue⟩, hr⟩ := h
    obtain ⟨t, k, hwrite, hreads⟩ : ∃ t k, value (some n) true v
        (if isShortKey key then (((p.indent n).text (n + 2) true key).mark [':'] false false false)
          else ((((p.indent n).mark ['?'] true false true).text (n + 2) false key).indent n).mark
            [':'] true false true) = after (t.reverse ++ w) k ∧
        ReadsAtIndent .mappingStart n t (.key :: scalarToken (isShortKey key) (.str key) ::
          .value :: valueTokens (!isShortKey key) v) := by
      cases hshort : isShortKey key with
      | true =>
        rw [hshort] at hkey hvalue
        obtain ⟨body, k, hbody, hline, hwrite⟩ := exists_body (p.indent n) hkey
        rw [hp] at hwrite ⊢
        rw [gap_of_blank rfl, List.nil_append] at hwrite
        obtain ⟨hflat, hlength⟩ := hline rfl hshort
        obtain ⟨t, k', hwrite', hreads⟩ := exists_value false true n
          (after (':' :: (body.reverse ++ w)) (k + 1)) rfl rfl (by simp) (fun _ => rfl) v hvalue
        refine ⟨body ++ ':' :: t, k', ?_, ?_⟩
        · rw [if_pos rfl, hwrite, mark_closing]
          simpa [after] using hwrite'
        · simpa [scalarToken] using ReadsAtIndent.entry hbody hflat hlength hreads
      | false =>
        rw [hshort] at hkey hvalue
        obtain ⟨body, k, hbody, -, hwrite⟩ :=
          exists_body ⟨'?' :: w, n + 1, false, true⟩ hkey
        obtain ⟨t, k', hwrite', hreads⟩ := exists_value true true n
          ⟨':' :: (List.replicate n ' ' ++ '\n' :: ((' ' :: body).reverse ++ '?' :: w)),
            n + 1, false, true⟩ rfl rfl (fun _ => rfl) (by simp) v hvalue
        refine ⟨'?' :: (' ' :: body ++ '\n' :: (List.replicate n ' ' ++ ':' :: t)), k', ?_, ?_⟩
        · rw [if_neg Bool.false_ne_true, mark_of_indent hp, hwrite, gap_of_word rfl,
            mark_of_indent (indent_after _ k n)]
          simpa using hwrite'
        · simpa [scalarToken] using ReadsAtIndent.longEntry (.scalar hbody) hreads
    rw [entries, keyText, hwrite]
    by_cases hr' : r = []
    · subst hr'
      exact ⟨t, k, by simp [entries], by simpa [entryTokens, keyText] using hreads⟩
    · obtain ⟨t', k', hwrite', hreads'⟩ := exists_entries n r hr hr' _ (indent_after _ k n)
      refine ⟨t ++ '\n' :: (List.replicate n ' ' ++ t'), k', ?_, ?_⟩
      · rw [hwrite']
        simp
      · simpa [entryTokens, keyText] using hreads.append hreads'

end

end Pen

/-- A mapping outside all collections, and the end of its last line. -/
theorem exists_written {es : List (Scalar × Value)} (h : haveKept 0 es) (hne : es ≠ []) :
    ∃ t, (write (.mapping es)).toList = t ++ ['\n'] ∧
      ReadsAtIndent .mappingStart 0 t (entryTokens es) := by
  obtain ⟨t, k, hwrite, hreads⟩ := Pen.exists_entries 0 es h hne .start rfl
  refine ⟨t, ?_, hreads⟩
  obtain ⟨e, r, rfl⟩ := List.exists_cons_of_ne_nil hne
  have hvalue : Pen.value none false (.mapping (e :: r)) .start = .after (t.reverse ++ []) k :=
    hwrite
  rw [write, String.toList_ofList]
  simp only [hvalue, Pen.indent_after]
  simp

/-! ### What is read -/

namespace Scan

variable {r : List Char} {T : List Token} {s s' : Scan} {l : Nat}

theorem start_eq (h : LineStart r) : Scan.start r = block [] (-1) [] true (before r 0 0) := by
  have hstart : Cursor.start r = before r 0 0 := by
    cases r with
    | nil => rfl
    | cons c r =>
      have hc := h.head
      simp only [List.head?_cons, Option.all_some, Bool.and_eq_true, decide_eq_true_eq] at hc
      unfold Cursor.start
      split
      · next he => exact absurd (List.cons.inj he).1 hc.2
      · rfl
  rw [Scan.start, hstart]
  rfl

theorem next_of_arrival_end (h : s.arrival = .ok s') (hc : s'.cursor.peek = none) :
    s.next = (s'.unindent (-1)).forgetKey.map fun s => (s.push .textEnd s.cursor, true) := by
  unfold arrival settle at h
  unfold next
  cases hsettle : (skipToToken (s.cursor.left + 1) s).forgetOver with
  | error e =>
    rw [hsettle] at h
    cases h
  | ok a =>
    rw [hsettle] at h
    obtain rfl : a.unindent a.cursor.column = s' := Except.ok.inj h
    simp only [bind, Except.bind, hc]
    rfl

/-- At the end of the text the outermost collection ends. -/
theorem rest_of_arrives (h : Arrives [] 0 0 [-1] T s) (fuel : Nat) :
    rest (fuel + 1) s = T ++ [.blockEnd, .textEnd] := by
  obtain ⟨-, l, h⟩ := h
  rw [unindent_of_le (by omega)] at h
  rw [rest, next_of_arrival_end h rfl]
  simp [unindent, block, inFlow, closeBlocks, forgetKey, giveUp, Except.map, push, bind,
    Except.bind, pure, Except.pure]

end Scan

/-- The tokens of a mapping that was written. -/
theorem tokensOf_write {es : List (Scalar × Value)} (h : haveKept 0 es) (hne : es ≠ []) :
    tokensOf (write (.mapping es)).toList =
      .mappingStart :: (entryTokens es ++ [.blockEnd, .textEnd]) := by
  obtain ⟨t, hwrite, hreads⟩ := exists_written h hne
  have hline := hreads.lineStart []
  have hstands := stands_block (i := -1) (o := []) (T := []) (k := 0) true 0 hline
    (by omega) 0
  obtain ⟨s', ⟨steps, hsteps, hrest⟩, harrives⟩ := hreads.reads (r := []) (m := 0)
    ⟨rfl, by simp [NoMark]⟩ (Nat.le_refl 0) (by omega) hstands
  have hstart := start_eq hline
  rw [tokensOf, hwrite, hstart]
  have hleft : steps ≤ (t ++ ['\n']).length := by
    simp [block] at hsteps ⊢
    omega
  obtain ⟨fuel, hfuel⟩ := Nat.exists_eq_add_of_le' hleft
  rw [hfuel, Nat.add_right_comm]
  refine (hrest (fuel + 1)).trans ?_
  have hend := rest_of_arrives (by simpa [around] using harrives) fuel
  simpa [Scan.opened] using hend

end Yaml
end Runbook
