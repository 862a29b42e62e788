import Runbook.Condition
import Mathlib.Data.List.DropRight
import Mathlib.Data.List.Infix

/-!
# Texts of comparisons

A comparison that is written with blanks around its operator reads back as it is, unless an operand
holds an operator that is found before its own. No operator holds a blank, so an operator occurs in
such a text exactly when it occurs in an operand or in the one that is written.

* `trimBy_eq_self_iff`: which texts have no blanks at their ends;
* `splitFirst?_eq_none_iff`, `splitFirst?_eq_some_iff`, `splitFirst?_at_blank`: where a text is
  split;
* `infix_append_blank`: what occurs in two texts with a blank between them;
* `ofText_text`: a comparison reads back.
-/

namespace Runbook

/-! ### Blanks at the ends -/

theorem trimBy_append {p : Char → Bool} {c : Char} (hc : p c = true) (cs : List Char) :
    trimBy p (cs ++ [c]) = trimBy p cs := by
  have hdrop : (cs ++ [c]).dropWhile p = if (cs.dropWhile p).isEmpty then [] else
      cs.dropWhile p ++ [c] := by
    rw [List.dropWhile_append]
    simp [hc]
  unfold trimBy
  rw [hdrop]
  split
  · next h => rw [List.isEmpty_iff.1 h]
  · simp [hc]

theorem trimBy_cons {p : Char → Bool} {c : Char} (hc : p c = true) (cs : List Char) :
    trimBy p (c :: cs) = trimBy p cs := by
  simp [trimBy, hc]

theorem trimBy_eq (p : Char → Bool) (cs : List Char) :
    trimBy p cs = (cs.dropWhile p).rdropWhile p := rfl

theorem trimBy_isInfix (p : Char → Bool) (cs : List Char) : trimBy p cs <:+: cs :=
  (List.rdropWhile_prefix p _).isInfix.trans (List.dropWhile_suffix p).isInfix

section Ends

variable {p : Char → Bool} {cs : List Char}

theorem dropWhile_eq_self_iff_head? : cs.dropWhile p = cs ↔ ∀ c ∈ cs.head?, p c = false := by
  rw [List.dropWhile_eq_self_iff]
  cases cs <;> simp

theorem rdropWhile_eq_self_iff_getLast? :
    cs.rdropWhile p = cs ↔ ∀ c ∈ cs.getLast?, p c = false := by
  rw [List.rdropWhile_eq_self_iff]
  obtain rfl | ⟨init, c, rfl⟩ := cs.eq_nil_or_concat <;> simp

/-- What was trimmed does not start with a member of the class. -/
theorem head_trimBy {c : Char} (h : c ∈ (trimBy p cs).head?) : p c = false := by
  obtain ⟨t, ht⟩ := List.rdropWhile_prefix p (cs.dropWhile p)
  obtain ⟨r, hr⟩ := List.head?_eq_some_iff.1 h
  have hhead := List.head?_dropWhile_not p cs
  rw [← ht, ← trimBy_eq, hr] at hhead
  simpa using hhead

/-- Trimming changes nothing when there is no member of the class at either end. -/
theorem trimBy_eq_self_iff :
    trimBy p cs = cs ↔ (∀ c ∈ cs.head?, p c = false) ∧ ∀ c ∈ cs.getLast?, p c = false := by
  constructor
  · intro h
    have hhead : ∀ c ∈ (trimBy p cs).head?, p c = false := fun c => head_trimBy
    refine ⟨fun c hc => hhead c (by rwa [h]), ?_⟩
    rw [← rdropWhile_eq_self_iff_getLast?, ← h]
    exact List.rdropWhile_idempotent p _
  · rintro ⟨hhead, hlast⟩
    rw [trimBy_eq, dropWhile_eq_self_iff_head?.2 hhead, rdropWhile_eq_self_iff_getLast?.2 hlast]

/-- Nothing is left to trim. -/
theorem trimBy_trimBy (p : Char → Bool) (cs : List Char) :
    trimBy p (trimBy p cs) = trimBy p cs := by
  rw [trimBy_eq p (trimBy p cs), dropWhile_eq_self_iff_head?.2 fun c => head_trimBy]
  exact List.rdropWhile_idempotent p _

end Ends

/-- Texts without blanks at their ends make such a text. -/
theorem trim_append {a b : String} (ha : trim a = a) (hb : trim b = b) (hne : a ≠ "") :
    trim (a ++ b) = a ++ b := by
  obtain rfl | hbne := eq_or_ne b ""
  · simpa using ha
  · have hane : a.toList ≠ [] := by simpa using hne
    have hbne : b.toList ≠ [] := by simpa using hbne
    simp only [trim, ← String.toList_inj, String.toList_ofList, trimBy_eq_self_iff] at ha hb ⊢
    rw [String.toList_append, List.head?_append_of_ne_nil _ hane,
      List.getLast?_append_of_ne_nil _ hbne]
    exact ⟨ha.1, hb.2⟩

/-! ### First occurrences -/

/-- A text is split unless the pattern occurs nowhere in it. -/
theorem splitFirst?_eq_none_iff (p cs : List Char) : splitFirst? p cs = none ↔ ¬ p <:+: cs := by
  induction cs with
  | nil => simp [splitFirst?]
  | cons c r ih =>
    rw [splitFirst?, List.infix_cons_iff]
    by_cases hp : p <+: c :: r
    · simp [hp]
    · simp [hp, ih]

/-- A text that starts with the pattern is split there. -/
theorem splitFirst?_append {p : List Char} (hp : p ≠ []) (cs : List Char) :
    splitFirst? p (p ++ cs) = some ([], cs) := by
  obtain ⟨a, q, rfl⟩ := List.exists_cons_of_ne_nil hp
  have hprefix : (a :: q).isPrefixOf (a :: (q ++ cs)) = true := by
    rw [List.isPrefixOf_iff_prefix]
    exact List.prefix_append (a :: q) cs
  rw [List.cons_append, splitFirst?, if_pos hprefix, ← List.cons_append, List.drop_left]

theorem append_dropLast_isPrefix (l p r : List Char) : l ++ p.dropLast <+: l ++ (p ++ r) :=
  (List.prefix_append_right_inj l).2 ((List.dropLast_prefix p).trans (List.prefix_append p r))

/-- A text is split at the first occurrence of the pattern: none ends before it does. -/
theorem splitFirst?_eq_some_iff {p cs l r : List Char} (hp : p ≠ []) :
    splitFirst? p cs = some (l, r) ↔ cs = l ++ (p ++ r) ∧ ¬ p <:+: l ++ p.dropLast := by
  have hpos := List.length_pos_of_ne_nil hp
  induction cs generalizing l with
  | nil => simp [splitFirst?, hp]
  | cons c cs ih =>
    rw [splitFirst?]
    by_cases hprefix : p <+: c :: cs
    · obtain ⟨t, ht⟩ := hprefix
      rw [← ht, if_pos (by simp), List.drop_left]
      constructor
      · intro h
        cases h
        refine ⟨rfl, fun h => ?_⟩
        have hle := h.length_le
        simp only [List.nil_append, List.length_dropLast] at hle
        omega
      · rintro ⟨heq, hfirst⟩
        cases l with
        | nil => simpa using heq
        | cons a l =>
          -- the pattern at the start would end before the one that is split at
          have hstart : a :: l ++ p.dropLast <+: p ++ t :=
            heq ▸ append_dropLast_isPrefix (a :: l) p r
          refine absurd (List.prefix_of_prefix_length_le (List.prefix_append p t) hstart ?_).isInfix
            hfirst
          simp only [List.length_append, List.length_cons, List.length_dropLast]
          omega
    · rw [if_neg (by simpa using hprefix), Option.map_eq_some_iff]
      constructor
      · rintro ⟨⟨u, v⟩, hsplit, heq⟩
        cases heq
        obtain ⟨rfl, hfirst⟩ := ih.1 hsplit
        refine ⟨rfl, fun h => ?_⟩
        rw [List.cons_append, List.infix_cons_iff] at h
        rcases h with h | h
        · exact hprefix (h.trans (append_dropLast_isPrefix (c :: u) p v))
        · exact hfirst h
      · rintro ⟨heq, hfirst⟩
        cases l with
        | nil => exact absurd ⟨r, heq.symm⟩ hprefix
        | cons a l =>
          rw [List.cons_append, List.cons.injEq] at heq
          obtain ⟨rfl, rfl⟩ := heq
          rw [List.cons_append, List.infix_cons_iff, not_or] at hfirst
          exact ⟨(l, r), ih.2 ⟨rfl, hfirst.2⟩, rfl⟩

/-- What occurs in a text, but has no character of its beginning, occurs in the rest. -/
theorem infix_of_infix_append {p u v : List Char} (hp : p ≠ []) (hu : ∀ c ∈ u, c ∉ p)
    (h : p <:+: u ++ v) : p <:+: v := by
  induction u with
  | nil => exact h
  | cons c u ih =>
    rw [List.cons_append, List.infix_cons_iff] at h
    rcases h with h | h
    · obtain ⟨d, q, rfl⟩ := List.exists_cons_of_ne_nil hp
      rw [List.cons_prefix_cons] at h
      exact absurd (h.1 ▸ List.mem_cons_self) (hu c List.mem_cons_self)
    · exact ih (fun d hd => hu d (List.mem_cons_of_mem _ hd)) h

section Blank

variable {p u v : List Char} (hp : ' ' ∉ p)

include hp

/-- What is without blanks does not reach beyond one. -/
theorem prefix_append_blank (h : p <+: u ++ ' ' :: v) : p <+: u := by
  induction u generalizing p with
  | nil =>
    cases p with
    | nil => exact List.prefix_rfl
    | cons a p =>
      rw [List.nil_append, List.cons_prefix_cons] at h
      simp [h.1] at hp
  | cons a u ih =>
    cases p with
    | nil => exact List.nil_prefix
    | cons b p =>
      rw [List.cons_append, List.cons_prefix_cons] at h
      rw [List.cons_prefix_cons]
      exact ⟨h.1, ih (fun hmem => hp (List.mem_cons_of_mem _ hmem)) h.2⟩

/-- What is without blanks occurs on one side of a blank. -/
theorem infix_append_blank (h : p <:+: u ++ ' ' :: v) : p <:+: u ∨ p <:+: v := by
  induction u with
  | nil =>
    rw [List.nil_append, List.infix_cons_iff] at h
    rcases h with h | h
    · exact .inl (prefix_append_blank hp (u := []) h).isInfix
    · exact .inr h
  | cons a u ih =>
    rw [List.cons_append, List.infix_cons_iff, ← List.cons_append] at h
    rcases h with h | h
    · exact .inl (prefix_append_blank hp h).isInfix
    · exact (ih h).imp_left fun hu => List.infix_cons hu

/-- A text is split where the pattern stands after a blank, if it does not occur before. -/
theorem splitFirst?_at_blank (hu : ¬ p <:+: u) :
    splitFirst? p (u ++ ' ' :: (p ++ v)) = some (u ++ [' '], v) := by
  induction u with
  | nil =>
    have hne : p ≠ [] := fun h => hu (h ▸ List.infix_rfl)
    have hblank : ¬ p.isPrefixOf (' ' :: (p ++ v)) = true := by
      intro h
      rw [List.isPrefixOf_iff_prefix] at h
      exact hne (List.prefix_nil.1 (prefix_append_blank hp (u := []) h))
    rw [List.nil_append, splitFirst?, if_neg hblank, splitFirst?_append hne]
    rfl
  | cons a u ih =>
    rw [List.infix_cons_iff, not_or] at hu
    have hprefix : ¬ p.isPrefixOf (a :: (u ++ ' ' :: (p ++ v))) = true := by
      intro h
      rw [List.isPrefixOf_iff_prefix] at h
      exact hu.1 (prefix_append_blank hp (u := a :: u) h)
    rw [List.cons_append, splitFirst?, if_neg hprefix, ih hu.2]
    rfl

end Blank

/-! ### Comparisons -/

namespace Comparator

/-- The comparisons that are looked for before another. -/
def before (op : Comparator) : List Comparator := all.takeWhile (· ≠ op)

theorem mem_all (op : Comparator) : op ∈ all := by cases op <;> decide

theorem all_eq (op : Comparator) : ∃ after, all = op.before ++ op :: after := by
  cases op <;> exact ⟨_, rfl⟩

theorem blank_notMem_sign (op : Comparator) : ' ' ∉ op.sign.toList := by
  cases op <;> decide

/-- No operator holds one that is looked for before it. -/
theorem not_infix_sign {op other : Comparator} (h : other ∈ op.before) :
    ¬ other.sign.toList <:+: op.sign.toList := by
  cases op <;> cases other <;> revert h <;> decide

end Comparator

namespace Condition

/-- Whether a text can stand on one side of an operator: it has no blanks at its ends and does not
hold an operator that is looked for before. -/
structure Fits (op : Comparator) (s : String) : Prop where
  trimmed : trim s = s
  without : ∀ other ∈ op.before, ¬ other.sign.toList <:+: s.toList

/-- Operators that do not occur are passed over. -/
theorem readWith_append {cs : List Char} {ops : List Comparator}
    (h : ∀ op ∈ ops, ¬ op.sign.toList <:+: cs) (rest : List Comparator) :
    readWith cs (ops ++ rest) = readWith cs rest := by
  induction ops with
  | nil => rfl
  | cons op ops ih =>
    have hnone := (splitFirst?_eq_none_iff op.sign.toList cs).2 (h op List.mem_cons_self)
    rw [List.cons_append, readWith, hnone]
    exact ih fun other hother => h other (List.mem_cons_of_mem _ hother)

theorem toList_text (l : String) (op : Comparator) (r : String) :
    (comparison l op r).text.toList =
      l.toList ++ ' ' :: (op.sign.toList ++ ' ' :: r.toList) := by
  simp [text]

/-- **A comparison reads back** if its operands fit and its operator is not in the first one. -/
theorem ofText_text {l r : String} {op : Comparator} (hl : Fits op l) (hr : Fits op r)
    (hop : ¬ op.sign.toList <:+: l.toList) :
    ofText (comparison l op r).text = comparison l op r := by
  obtain ⟨after, hall⟩ := op.all_eq
  have hbefore : ∀ other ∈ op.before, ¬ other.sign.toList <:+:
      l.toList ++ ' ' :: (op.sign.toList ++ ' ' :: r.toList) := by
    intro other hother h
    rcases infix_append_blank other.blank_notMem_sign h with h | h
    · exact hl.without other hother h
    · rcases infix_append_blank other.blank_notMem_sign h with h | h
      · exact Comparator.not_infix_sign hother h
      · exact hr.without other hother h
  have htrim {s : String} (hs : trim s = s) : String.ofList (trimBy isBlank s.toList) = s := hs
  rw [ofText, toList_text, hall, readWith_append hbefore, readWith,
    splitFirst?_at_blank op.blank_notMem_sign hop]
  show comparison _ op _ = _
  rw [trimBy_append (by decide), trimBy_cons (by decide), htrim hl.trimmed, htrim hr.trimmed]

end Condition
end Runbook
