import Mathlib.Data.Bool.AllAny
import Runbook.Proofs.Yaml.Scalar

/-!
# Scanning in block style

One step of the scan passes blanks, closes the block collections that the column lies left of and
reads a token. A scan reaches another one when some steps lead there.
-/

namespace Runbook
namespace Yaml

open Cursor

namespace Scan

variable {s s' s'' : Scan} {r t : List Char} {l k m : Nat} {i : Int} {o : List Int}
  {T : List Token} {c : Char}

/-! ### Steps -/

/-- The place of the next token, with the key starts given up that are over. -/
def settle (s : Scan) : Except Error Scan :=
  (skipToToken (s.cursor.left + 1) s).forgetOver

/-- The scan before its next token. -/
def arrival (s : Scan) : Except Error Scan :=
  s.settle.map fun s => s.unindent s.cursor.column

theorem next_of_arrival (h : s.arrival = .ok s') (hc : s'.cursor.peek = some c)
    (ht : s'.token c = .ok s'') : s.next = .ok (s'', false) := by
  unfold arrival settle at h
  unfold next
  cases hsettle : (skipToToken (s.cursor.left + 1) s).forgetOver with
  | error e =>
    rw [hsettle] at h
    cases h
  | ok a =>
    rw [hsettle] at h
    obtain rfl : a.unindent a.cursor.column = s' := Except.ok.inj h
    simp only [bind, Except.bind, hc, ht, pure, Except.pure]

/-- Some steps lead from a scan to another, each over a character at least. -/
def Reaches (s s' : Scan) : Prop :=
  ∃ steps, steps + s'.cursor.left ≤ s.cursor.left ∧
    ∀ fuel, rest (fuel + steps) s = rest fuel s'

theorem Reaches.refl (s : Scan) : Reaches s s := ⟨0, by simp, fun _ => rfl⟩

theorem Reaches.trans (h : Reaches s s') (h' : Reaches s' s'') : Reaches s s'' := by
  obtain ⟨n, hn, hrest⟩ := h
  obtain ⟨n', hn', hrest'⟩ := h'
  refine ⟨n' + n, by omega, fun fuel => ?_⟩
  rw [← Nat.add_assoc, hrest, hrest']

theorem Reaches.of_next (h : s.next = .ok (s', false)) (hleft : s'.cursor.left < s.cursor.left) :
    Reaches s s' := by
  refine ⟨1, by omega, fun fuel => ?_⟩
  rw [rest, h]

/-- A scan in block style, before a token. -/
def block (T : List Token) (i : Int) (o : List Int) (allowed : Bool) (c : Cursor) : Scan :=
  ⟨c, T.toArray, i, o, allowed, none, []⟩

/-- Where block collections that lie right of a column are closed, the scan is the same. -/
theorem unindent_of_le (h : i ≤ m) (allowed : Bool) (c : Cursor) :
    (block T i o allowed c).unindent m = block T i o allowed c := by
  have hclose : closeBlocks m i o T.toArray = (i, o, T.toArray) := by
    cases o with
    | nil => rfl
    | cons j o => rw [closeBlocks, if_pos h]
  simp [unindent, block, inFlow, hclose]

/-- The innermost block collection is closed left of its column. -/
theorem unindent_of_lt {j : Int} (h : (m : Int) < j) (allowed : Bool) (c : Cursor) :
    (block T j (i :: o) allowed c).unindent m =
      (block (T ++ [.blockEnd]) i o allowed c).unindent m := by
  have hclose : closeBlocks m j (i :: o) T.toArray =
      closeBlocks m i o (T ++ [Token.blockEnd]).toArray := by
    rw [closeBlocks, if_neg (by omega), List.push_toArray]
  simp [unindent, block, inFlow, hclose]

/-- On a new line, the next token is at a place, in a collection with an indentation that need not
go on there. -/
def Arrives (r : List Char) (m : Nat) (i : Int) (o : List Int) (T : List Token) (s : Scan) : Prop :=
  r.length ≤ s.cursor.left ∧
    ∃ l, s.arrival = .ok ((block T i o true (before r l m)).unindent m)

/-- After a nested collection, the one around it goes on or ends. -/
theorem Arrives.close {j : Int} (h : Arrives r m j (i :: o) T s) (hm : (m : Int) < j) :
    Arrives r m i o (T ++ [.blockEnd]) s := by
  obtain ⟨hleft, l, h⟩ := h
  exact ⟨hleft, l, by rw [h, unindent_of_lt hm]⟩

/-! ### Blanks -/

theorem skipToToken_spaces (fuel n : Nat) (hspace : r.head? ≠ some ' ')
    (hcomment : r.head? ≠ some '#') (hbreak : r.head?.all (!isBreak ·))
    (h : s.cursor = before (List.replicate n ' ' ++ r) l k) :
    skipToToken (fuel + 1) s = { s with cursor := before r l (k + n) } := by
  simp [skipToToken, h, skipSpaces_replicate n hspace, hcomment, lineBreak?_of_not hbreak]

theorem skipToToken_newline (fuel : Nat) (h : s.cursor = before ('\n' :: t) l k) :
    skipToToken (fuel + 1) s = skipToToken fuel
      { s with cursor := before t (l + 1) 0, keyAllowed := s.keyAllowed || !s.inFlow } := by
  have hspaces : (before ('\n' :: t) l k).skipSpaces = before ('\n' :: t) l k := by
    simpa using skipSpaces_replicate (r := '\n' :: t) (l := l) (k := k) 0 (by simp)
  simp [skipToToken, h, hspaces, lineBreak?_newline]

/-! ### Scalars -/

theorem token_quoted (hc : c = '\'' ∨ c = '"') (hcursor : s.cursor = before (c :: t) l k) :
    s.token c = s.word fun c => (quotedScalar c).map fun p => (.scalar p.1 false, p.2) := by
  have hmark : s.cursor.atDocumentMark = false := by
    rw [hcursor]
    rcases hc with rfl | rfl <;>
      exact atDocumentMark_of_noMark (noMark_cons (by decide) (by decide))
  rcases hc with rfl | rfl <;> simp [token, hmark]

theorem token_plain (h : startsPlain s.inFlow c (s.cursor.peekAt 1)) (hflow : s.inFlow = false)
    (hmark : s.cursor.atDocumentMark = false) : s.token c = s.plainText := by
  have hnext : c = '-' ∨ c = '?' ∨ c = ':' → endsWord (s.cursor.peekAt 1) = false := by
    rintro (rfl | rfl | rfl) <;> simpa [startsPlain, hflow] using h
  have hne : ∀ d ∈ ",[]\x7b\x7d#&*!|>'\"%@`".toList, c ≠ d := by
    rintro d hd rfl
    have hapart : ∀ d ∈ ",[]\x7b\x7d#&*!|>'\"%@`".toList, "?:-".toList.contains d = false :=
      List.all_iff_forall_prop.1 (by decide)
    rw [startsPlain, hapart c hd] at h
    rw [if_neg (by simp), List.contains_iff_mem.2 hd] at h
    simp at h
  have hitem : (c = '-' && endsWord (s.cursor.peekAt 1)) = false := by
    by_cases hc : c = '-' <;> simp [hc, hnext]
  have hquestion : (c = '?' && (s.inFlow || endsWord (s.cursor.peekAt 1))) = false := by
    by_cases hc : c = '?' <;> simp [hc, hflow, hnext]
  have hcolon : (c = ':' && (s.inFlow || endsWord (s.cursor.peekAt 1))) = false := by
    by_cases hc : c = ':' <;> simp [hc, hflow, hnext]
  have hpercent := hne '%' (by decide)
  have hbar := hne '|' (by decide)
  have hangle := hne '>' (by decide)
  have hsingle := hne '\'' (by decide)
  have hdouble := hne '"' (by decide)
  unfold token
  dsimp only
  rw [if_neg (by simp [hpercent]), if_neg (by simp [hmark]), if_neg (hne '[' (by decide)),
    if_neg (hne '\x7b' (by decide)), if_neg (hne ']' (by decide)), if_neg (hne '\x7d' (by decide)),
    if_neg (hne ',' (by decide)), hitem, if_neg Bool.false_ne_true, hquestion,
    if_neg Bool.false_ne_true, hcolon, if_neg Bool.false_ne_true, if_neg (hne '*' (by decide)),
    if_neg (hne '&' (by decide)), if_neg (hne '!' (by decide)), if_neg (by simp [hbar, hangle]),
    if_neg (by simp [hsingle, hdouble]), if_pos h]

end Scan

/-! ### The first characters -/

/-- Three characters that begin a text are in its first word, unless another one of them follows. -/
theorem isPrefixOf_triple {d : Char} {w u : List Char} (hu : u.head? ≠ some d)
    (h : [d, d, d].isPrefixOf (w ++ u)) : [d, d, d].isPrefixOf w := by
  match w with
  | [] | [_] | [_, _] =>
    cases u with
    | nil => simp [List.isPrefixOf] at h
    | cons e u =>
      have he : e ≠ d := by simpa using hu
      simp [List.isPrefixOf] at h
      grind
  | _ :: _ :: _ :: w => simpa [List.isPrefixOf] using h

namespace Plain

variable {inner : Nat} {text written : List Char}

theorem Form.first (h : Form inner text written) : ∃ w r r', IsWord w ∧ text = w ++ r ∧
    written = w ++ r' ∧ r.head?.all (· = ' ') ∧ r'.head?.all (fun c => c = ' ' || c = '\n') := by
  cases h with
  | @word _ hw => exact ⟨_, [], [], hw, by simp, by simp, rfl, rfl⟩
  | spaces hw =>
    exact ⟨_, _, _, hw, rfl, rfl, by simp [List.replicate_succ], by simp [List.replicate_succ]⟩
  | fold hw => exact ⟨_, _, _, hw, rfl, rfl, rfl, rfl⟩

/-- A plain text does not begin like a mark between documents: its first word would. -/
theorem Form.noMark (h : Form inner text written) (ha : Allowed text) (tail : List Char)
    (htail : tail.head?.all fun c => c = '\n' || c = ':') : NoMark (written ++ tail) := by
  obtain ⟨w, r, r', hw, rfl, rfl, hr, hr'⟩ := h.first
  have hnext : ∀ d, d = '-' ∨ d = '.' → (r' ++ tail).head? ≠ some d := by
    intro d hd he
    cases r' with
    | nil =>
      rw [List.nil_append] at he
      rcases hd with rfl | rfl <;> simp [he] at htail
    | cons e r' =>
      obtain rfl : e = d := by simpa using he
      rcases hd with rfl | rfl <;> simp at hr'
  have hdocument := ha.noDocument
  simp only [Style.startsLikeDocument, Bool.or_eq_false_iff] at hdocument
  have hnone : ∀ d, d = '-' ∨ d = '.' → [d, d, d].isPrefixOf (w ++ r) = false →
      [d, d, d].isPrefixOf (w ++ r' ++ tail) = false := by
    intro d hd hnone
    by_contra hyes
    rw [List.append_assoc, Bool.not_eq_false] at hyes
    have hw := isPrefixOf_triple (hnext d hd) hyes
    have hwr : [d, d, d].isPrefixOf (w ++ r) = true := by
      rw [List.isPrefixOf_iff_prefix] at hw ⊢
      exact hw.trans (List.prefix_append w r)
    rw [hnone] at hwr
    cases hwr
  exact ⟨hnone '-' (.inl rfl) hdocument.1, hnone '.' (.inr rfl) hdocument.2⟩

/-- A plain text is seen to be one by its first characters. -/
theorem Form.starts (h : Form inner text written) (ha : Allowed text) (tail : List Char)
    (htail : tail.head?.all fun c => c = '\n' || c = ':') :
    ∃ c t, written ++ tail = c :: t ∧ Scan.startsPlain false c t.head? ∧
      NoMark (written ++ tail) := by
  have hmark := h.noMark ha tail htail
  obtain ⟨w, r, r', hw, rfl, rfl, hr, -⟩ := h.first
  have hhead := ha.noMark
  obtain ⟨c, w, rfl⟩ := List.exists_cons_of_ne_nil hw.ne_nil
  refine ⟨c, w ++ r' ++ tail, by simp, ?_, hmark⟩
  simp only [List.cons_append, Style.startsWithMark, Bool.or_eq_false_iff,
    Bool.and_eq_false_iff] at hhead
  have hc := hw.not_blank c (by simp)
  rw [Scan.startsPlain]
  split
  · next hcontains =>
    have hapart := hhead.2.resolve_left (by rw [hcontains]; decide)
    cases w with
    | nil =>
      cases r with
      | nil => simp [Style.isApart] at hapart
      | cons d r =>
        obtain rfl : d = ' ' := by simpa using hr
        simp [Style.isApart] at hapart
    | cons d w =>
      have hd := hw.not_blank d (by simp)
      simp [hd]
  · have hlist := hhead.1
    simp at hlist
    simp [hc, hlist]

end Plain

/-- A word begins where a line could. -/
theorem Body.lineStart {inner : Nat} {plain : Bool} {text body : List Char}
    (h : Body inner plain text body) (tail : List Char)
    (htail : tail.head?.all fun c => c = '\n' || c = ':') : LineStart (body ++ tail) := by
  cases h with
  | plain ha hform =>
    obtain ⟨c, t, he, -, hmark⟩ := hform.starts ha tail htail
    obtain ⟨d, u, rfl, hinline, hblank, hcomment⟩ := hform.head
    simp only [isInline, Bool.and_eq_true, decide_eq_true_eq] at hinline
    exact ⟨by simp [hblank, hcomment, hinline.2], hmark⟩
  | single => exact ⟨rfl, noMark_cons (by decide) (by decide)⟩
  | double => exact ⟨rfl, noMark_cons (by decide) (by decide)⟩

theorem Body.ne_nil {inner : Nat} {plain : Bool} {text body : List Char}
    (h : Body inner plain text body) : body ≠ [] := by
  cases h with
  | plain _ hform =>
    obtain ⟨c, t, rfl, -⟩ := hform.head
    simp
  | single | double => simp

namespace Scan

variable {s s' s'' : Scan} {r t body text : List Char} {l k m inner : Nat} {i : Int} {o : List Int}
  {T : List Token} {c : Char} {allowed plain : Bool}

/-! ### After a scalar -/

/-- The key start that a word marks. -/
def pending (T : List Token) (i : Int) (allowed : Bool) (c : Cursor) : Option KeyStart :=
  if allowed then some ⟨T.length, i = c.column, c⟩ else none

theorem markKey_block (allowed : Bool) (c : Cursor) :
    (block T i o allowed c).markKey =
      .ok ⟨c, T.toArray, i, o, allowed, pending T i allowed c, []⟩ := by
  cases allowed <;>
    simp [markKey, block, forgetKey, giveUp, pending, inFlow, bind, Except.bind, pure,
      Except.pure]

theorem word_block {read : Cursor → Except Error (Token × Cursor)} {c c' : Cursor} {token : Token}
    (h : read c = .ok (token, c')) : (block T i o allowed c).word read =
      .ok ⟨c', (T ++ [token]).toArray, i, o, false, pending T i allowed c, []⟩ := by
  simp [word, markKey_block, h, bind, Except.bind, pure, Except.pure, allowKey, push]

theorem plainText_block {c c' : Cursor} {text : String} {passed : Bool}
    (h : plainScalar false i c = (text, passed, c')) : (block T i o allowed c).plainText =
      .ok ⟨c', (T ++ [Token.scalar (.str text) true]).toArray, i, o, passed, pending T i allowed c,
        []⟩ := by
  have hindent : (block T i o allowed c).indent = i := rfl
  simp [plainText, markKey_block, inFlow, h, bind, Except.bind, pure, Except.pure, allowKey, push]

/-- The place after a line that ends there or has ended, in front of a line with an indentation. -/
def LineOver (r : List Char) (m l : Nat) (passed : Bool) (c : Cursor) : Prop :=
  (∃ l', l < l' ∧ c = before r l' m ∧ passed = true) ∨
    ∃ l' k', l ≤ l' ∧ c = before ('\n' :: (List.replicate m ' ' ++ r)) l' k'

theorem forgetOver_of_line {key : Option KeyStart} {passed : Bool} {c : Cursor}
    (hkey : ∀ k ∈ key, k.required = false ∧ k.place.line < c.line) :
    (⟨c, T.toArray, i, o, passed, key, []⟩ : Scan).forgetOver = .ok (block T i o passed c) := by
  cases key with
  | none => rfl
  | some k =>
    obtain ⟨hrequired, hline⟩ := hkey k rfl
    have hover : k.isOver c = true := by simp [KeyStart.isOver, Nat.ne_of_lt hline]
    simp [forgetOver, hover, giveUp, hrequired, bind, Except.bind, pure, Except.pure, block]

theorem arrives_of_lineOver (hr : LineStart r) (key : Option KeyStart) (passed : Bool)
    {c : Cursor} (hkey : ∀ k ∈ key, k.required = false ∧ k.place.line = l)
    (hc : LineOver r m l passed c) :
    Arrives r m i o T ⟨c, T.toArray, i, o, passed, key, []⟩ := by
  have hsettle : r.length ≤ c.left ∧ ∃ l',
      settle ⟨c, T.toArray, i, o, passed, key, []⟩ = .ok (block T i o true (before r l' m)) := by
    have hover : ∀ l', l < l' → ∀ k ∈ key, k.required = false ∧ k.place.line < l' := by
      intro l' hl k hk
      obtain ⟨hrequired, hline⟩ := hkey k hk
      exact ⟨hrequired, hline ▸ hl⟩
    rcases hc with ⟨l', hl, rfl, rfl⟩ | ⟨l', k', hl, rfl⟩
    · refine ⟨Nat.le_refl _, l', ?_⟩
      rw [settle, skipToToken_spaces _ 0 hr.not_space hr.not_comment hr.not_break rfl]
      exact forgetOver_of_line (hover l' hl)
    · refine ⟨by simp; omega, l' + 1, ?_⟩
      have hallowed : (passed || !([] : List (Option KeyStart)).isEmpty.not) = true := by simp
      rw [settle, left_before, List.length_cons, skipToToken_newline _ rfl,
        skipToToken_spaces _ m hr.not_space hr.not_comment hr.not_break rfl, Nat.zero_add]
      simp only [inFlow, List.isEmpty_nil, Bool.not_true, Bool.not_false, Bool.or_true]
      exact forgetOver_of_line (hover (l' + 1) (Nat.lt_succ_of_le hl))
  obtain ⟨hleft, l', hsettle⟩ := hsettle
  refine ⟨hleft, l', ?_⟩
  rw [arrival, hsettle]
  rfl

variable (allowed) in
/-- A scalar at the end of a line is read as one token. -/
theorem token_body_line (h : Body inner plain text body) (hinner : i + 1 ≤ inner) (hpos : 0 < inner)
    (hr : LineStart r) (hm : (m : Int) ≤ i) (hk : i ≤ k) (l : Nat) :
    ∃ c t passed c', body ++ '\n' :: (List.replicate m ' ' ++ r) = c :: t ∧
      LineOver r m l passed c' ∧
      (block T i o allowed (before (body ++ '\n' :: (List.replicate m ' ' ++ r)) l k)).token c =
        .ok ⟨c', (T ++ [Token.scalar (.str (String.ofList text)) plain]).toArray, i, o, passed,
          pending T i allowed (before (body ++ '\n' :: (List.replicate m ' ' ++ r)) l k), []⟩ := by
  cases h with
  | plain ha hform =>
    obtain ⟨c, t, he, hstarts, hmark⟩ :=
      hform.starts ha ('\n' :: (List.replicate m ' ' ++ r)) rfl
    obtain ⟨l', hl, hread⟩ := plainScalar_of_line (l := l) hform hinner hpos hr hm hk
    refine ⟨c, t, true, _, he, .inl ⟨l', hl, rfl, rfl⟩, ?_⟩
    rw [token_plain ?_ rfl (atDocumentMark_of_noMark (l := l) (k := k) hmark),
      plainText_block hread]
    simpa [block, inFlow, he, List.getElem?_cons_succ, List.head?_eq_getElem?] using hstarts
  | single h =>
    obtain ⟨l', k', hl, -, hread⟩ := quotedScalar_single (l := l) (k := k) hpos h
      (r := '\n' :: (List.replicate m ' ' ++ r)) (by simp)
    simp only [List.cons_append, List.append_assoc, List.nil_append]
    refine ⟨'\'', _, false, _, rfl, .inr ⟨l', k', hl, rfl⟩, ?_⟩
    rw [token_quoted (.inl rfl) rfl]
    exact word_block (by rw [hread]; rfl)
  | double h =>
    obtain ⟨l', k', hl, -, hread⟩ := quotedScalar_double (l := l) (k := k) hpos h
      (r := '\n' :: (List.replicate m ' ' ++ r))
    simp only [List.cons_append, List.append_assoc, List.nil_append]
    refine ⟨'"', _, false, _, rfl, .inr ⟨l', k', hl, rfl⟩, ?_⟩
    rw [token_quoted (.inr rfl) rfl]
    exact word_block (by rw [hread]; rfl)

variable (allowed) in
/-- A key on its line is read as one token. -/
theorem token_body_key (h : Body inner plain text body) (hinner : i + 1 ≤ inner) (hpos : 0 < inner)
    (hflat : ∀ c ∈ body, isBreak c = false) (hr : endsWord r.head?) (hk : i ≤ k) (l : Nat) :
    ∃ c t, body ++ ':' :: r = c :: t ∧
      (block T i o allowed (before (body ++ ':' :: r) l k)).token c =
        .ok ⟨before (':' :: r) l (k + body.length),
          (T ++ [Token.scalar (.str (String.ofList text)) plain]).toArray, i, o, false,
          pending T i allowed (before (body ++ ':' :: r) l k), []⟩ := by
  cases h with
  | plain ha hform =>
    obtain ⟨c, t, he, hstarts, hmark⟩ := hform.starts ha (':' :: r) rfl
    have hnewline : '\n' ∉ body := fun hmem => absurd (hflat '\n' hmem) (by decide)
    have hread := plainScalar_of_colon (l := l) hform hinner hpos hnewline hr hk
    refine ⟨c, t, he, ?_⟩
    rw [token_plain ?_ rfl (atDocumentMark_of_noMark (l := l) (k := k) hmark),
      plainText_block hread]
    simpa [block, inFlow, he, List.getElem?_cons_succ, List.head?_eq_getElem?] using hstarts
  | @single _ written h =>
    obtain ⟨l', k', -, hplace, hread⟩ := quotedScalar_single (l := l) (k := k) hpos h
      (r := ':' :: r) (by simp)
    obtain ⟨rfl, rfl⟩ := hplace fun c hc => hflat c (by simp [hc])
    simp only [List.cons_append, List.append_assoc, List.nil_append]
    refine ⟨'\'', _, rfl, ?_⟩
    rw [token_quoted (.inl rfl) rfl]
    simpa using word_block (by rw [hread]; rfl)
  | double h =>
    obtain ⟨l', k', -, hplace, hread⟩ := quotedScalar_double (l := l) (k := k) hpos h
      (r := ':' :: r)
    obtain ⟨rfl, rfl⟩ := hplace fun c hc => hflat c (by simp [hc])
    simp only [List.cons_append, List.append_assoc, List.nil_append]
    refine ⟨'"', _, rfl, ?_⟩
    rw [token_quoted (.inr rfl) rfl]
    simpa using word_block (by rw [hread]; rfl)

/-! ### Marks -/

/-- The next token is at a place, and no block collection is closed before it. -/
def Stands (r : List Char) (m : Nat) (i : Int) (o : List Int) (T : List Token) (allowed : Bool)
    (s : Scan) : Prop :=
  r.length ≤ s.cursor.left ∧ ∃ l, s.arrival = .ok (block T i o allowed (before r l m))

theorem Arrives.stands (h : Arrives r m i o T s) (hi : i ≤ m) : Stands r m i o T true s := by
  obtain ⟨hleft, l, h⟩ := h
  exact ⟨hleft, l, by rw [h, unindent_of_le hi]⟩

variable (allowed) in
theorem stands_block (n : Nat) (hr : LineStart r) (hi : i ≤ (k + n : Nat)) (l : Nat) :
    Stands r (k + n) i o T allowed
      (block T i o allowed (before (List.replicate n ' ' ++ r) l k)) := by
  refine ⟨by simp [block], l, ?_⟩
  have hskip : skipToToken ((List.replicate n ' ' ++ r).length + 1)
      (block T i o allowed (before (List.replicate n ' ' ++ r) l k)) =
        block T i o allowed (before r l (k + n)) := by
    rw [skipToToken_spaces _ n hr.not_space hr.not_comment hr.not_break rfl]
    rfl
  have hforget : (block T i o allowed (before r l (k + n))).forgetOver =
      .ok (block T i o allowed (before r l (k + n))) := rfl
  have hsettle : settle (block T i o allowed (before (List.replicate n ' ' ++ r) l k)) =
      .ok (block T i o allowed (before r l (k + n))) := by
    rw [settle]
    exact (congrArg forgetOver hskip).trans hforget
  rw [arrival, hsettle]
  exact congrArg Except.ok (unindent_of_le hi allowed _)

/-- The tokens before those of a collection, with its start if it begins. -/
def opened (T : List Token) (i : Int) (m : Nat) (start : Token) : List Token :=
  if i < m then T ++ [start] else T

/-- The indentations around a collection. -/
def around (i : Int) (o : List Int) (m : Nat) : List Int :=
  if i < m then i :: o else o

theorem insertIdx_length (T T' : List Token) (start : Token) :
    (T ++ T').insertIdx T.length start = T ++ start :: T' := by
  induction T with
  | nil => rfl
  | cons a T ih => simpa using ih

variable (allowed) in
theorem openBlock_block (start : Token) (hi : i ≤ m) (c : Cursor) (T' : List Token) :
    (block (T ++ T') i o allowed c).openBlock m T.length start =
      block (opened T i m start ++ T') m (around i o m) allowed c := by
  by_cases h : i < m
  · simp [openBlock, block, inFlow, h, opened, around, insert, insertIdx_length]
  · obtain rfl : i = m := by omega
    simp [openBlock, block, inFlow, opened, around]

theorem noMark_mark (c : Char) (ht : endsWord t.head?) : NoMark (c :: t) := by
  cases t with
  | nil => simp [NoMark, List.isPrefixOf]
  | cons d t =>
    have hd : ∀ e, endsWord (some e) = false → e ≠ d := by
      rintro e he rfl
      rw [List.head?_cons, he] at ht
      cases ht
    simp [NoMark, List.isPrefixOf, hd '-' rfl, hd '.' rfl]

variable (allowed) in
theorem pushMark_block (token : Token) (hc : isInline c) :
    (block T i o allowed (before (c :: t) l k)).pushMark token 1 =
      block (T ++ [token]) i o allowed (before t l (k + 1)) := by
  simp [pushMark, push, block, skip, advance_inline hc]

theorem token_mark (hcursor : s.cursor = before (c :: t) l k) (ht : endsWord t.head?) :
    (c = '-' → s.token c = s.item) ∧ (c = '?' → s.token c = s.questionMark) ∧
      (c = ':' → s.token c = s.colon) := by
  have hmark : s.cursor.atDocumentMark = false := by
    rw [hcursor, atDocumentMark_of_noMark (noMark_mark c ht)]
  have hnext : endsWord (s.cursor.peekAt 1) = true := by
    rw [hcursor, peekAt_before, List.getElem?_cons_succ, ← List.head?_eq_getElem?]
    exact ht
  refine ⟨?_, ?_, ?_⟩ <;>
    · rintro rfl
      simp [token, hmark, hnext]

/-- The hyphen of an item, with the start of the sequence if it begins. -/
theorem token_item (ht : endsWord t.head?) (hi : i ≤ m) :
    (block T i o true (before ('-' :: t) l m)).token '-' =
      .ok (block (opened T i m .sequenceStart ++ [.item]) m (around i o m) true
        (before t l (m + 1))) := by
  have hopen := openBlock_block (o := o) (T := T) true .sequenceStart hi
    (before ('-' :: t) l m) []
  rw [List.append_nil, List.append_nil] at hopen
  have hitem : (block T i o true (before ('-' :: t) l m)).item =
      (((block T i o true (before ('-' :: t) l m)).openBlock m T.length .sequenceStart).allowKey
        true).forgetKey.map (·.pushMark .item 1) := rfl
  rw [(token_mark rfl ht).1 rfl, hitem, hopen]
  exact congrArg Except.ok (pushMark_block true .item rfl)

/-- The question mark of a key, with the start of the mapping if it begins. -/
theorem token_questionMark (ht : endsWord t.head?) (hi : i ≤ m) :
    (block T i o true (before ('?' :: t) l m)).token '?' =
      .ok (block (opened T i m .mappingStart ++ [.key]) m (around i o m) true
        (before t l (m + 1))) := by
  have hopen := openBlock_block (o := o) (T := T) true .mappingStart hi
    (before ('?' :: t) l m) []
  rw [List.append_nil, List.append_nil] at hopen
  have hmark : (block T i o true (before ('?' :: t) l m)).questionMark =
      let s := (block T i o true (before ('?' :: t) l m)).openBlock m T.length .mappingStart
      (s.allowKey (!s.inFlow)).forgetKey.map (·.pushMark .key 1) := rfl
  rw [(token_mark rfl ht).2.1 rfl, hmark, hopen]
  exact congrArg Except.ok (pushMark_block true .key rfl)

/-- The colon after a key with a question mark. -/
theorem token_colon (ht : endsWord t.head?) :
    (block T m o true (before (':' :: t) l m)).token ':' =
      .ok (block (T ++ [.value]) m o true (before t l (m + 1))) := by
  have hopen := openBlock_block (o := o) (T := T) true .mappingStart (Int.le_refl m)
    (before (':' :: t) l m) []
  simp only [List.append_nil, opened, around, Int.lt_irrefl, if_false] at hopen
  have hcolon : (block T m o true (before (':' :: t) l m)).colon =
      let s := (block T m o true (before (':' :: t) l m)).openBlock m T.length .mappingStart
      .ok ((s.allowKey (!s.inFlow)).pushMark .value 1) := rfl
  rw [(token_mark rfl ht).2.2 rfl, hcolon, hopen]
  exact congrArg Except.ok (pushMark_block true .value rfl)

/-- The colon after a key on its line: the key's mark is put before it, and the start of the mapping
if it begins. -/
theorem token_colon_of_key (ht : endsWord t.head?) (hi : i ≤ m) {place : Cursor}
    (hplace : place.column = m) (required : Bool) (word : Token) :
    (⟨before (':' :: t) l k, (T ++ [word]).toArray, i, o, false, some ⟨T.length, required, place⟩,
      []⟩ : Scan).token ':' =
      .ok (block (opened T i m .mappingStart ++ [.key, word, .value]) m (around i o m) false
        (before t l (k + 1))) := by
  have hopen := openBlock_block (o := o) (T := T) false .mappingStart hi
    (before (':' :: t) l k) [.key, word]
  have hinsert : (T ++ [word]).insertIdx T.length .key = T ++ [.key, word] := insertIdx_length ..
  rw [(token_mark rfl ht).2.2 rfl, colon]
  simp only [insert, List.insertIdxIfInBounds_toArray, hinsert, hplace]
  have hpush := pushMark_block (T := opened T i m .mappingStart ++ [.key, word]) (i := m) (t := t)
    (o := around i o m) (l := l) (k := k) (c := ':') false .value rfl
  rw [List.append_assoc] at hpush
  refine Eq.trans ?_ (congrArg Except.ok hpush)
  exact congrArg (fun s : Scan => Except.ok ((s.allowKey false).pushMark .value 1)) hopen

/-! ### From one place to the next -/

/-- Past a mark of one character. -/
theorem Stands.mark {i' : Int} {o' : List Int} {T' : List Token}
    (h : Stands (c :: t) m i o T true s)
    (htoken : ∀ l, (block T i o true (before (c :: t) l m)).token c =
      .ok (block T' i' o' true (before t l (m + 1)))) :
    ∃ l, Reaches s (block T' i' o' true (before t l (m + 1))) := by
  obtain ⟨hleft, l, h⟩ := h
  refine ⟨l, .of_next (next_of_arrival h rfl (htoken l)) ?_⟩
  simp only [List.length_cons] at hleft
  simp only [block, left_before]
  omega

/-- Past a scalar at the end of a line. -/
theorem Stands.scalar
    (h : Stands (body ++ '\n' :: (List.replicate m ' ' ++ r)) k i o T allowed s)
    (hbody : Body inner plain text body) (hinner : i + 1 ≤ inner) (hpos : 0 < inner)
    (hr : LineStart r) (hm : (m : Int) ≤ i) (hk : i < k) :
    ∃ s', Reaches s s' ∧ Arrives r m i o (T ++ [.scalar (.str (String.ofList text)) plain]) s' := by
  obtain ⟨hleft, l, h⟩ := h
  obtain ⟨c, t, passed, c', he, hover, htoken⟩ :=
    token_body_line (T := T) (o := o) allowed hbody hinner hpos hr hm
      (Int.le_of_lt hk) l
  have hpeek : (before (body ++ '\n' :: (List.replicate m ' ' ++ r)) l k).peek = some c := by
    rw [peek_before, he, List.head?_cons]
  have hkey : ∀ key ∈ pending T i allowed
      (before (body ++ '\n' :: (List.replicate m ' ' ++ r)) l k),
      key.required = false ∧ key.place.line = l := by
    intro key hkey
    cases allowed with
    | false => cases hkey
    | true =>
      obtain rfl := Option.some.inj hkey
      exact ⟨decide_eq_false (by simp; omega), rfl⟩
  refine ⟨_, .of_next (next_of_arrival h hpeek htoken) ?_, arrives_of_lineOver hr _ _ hkey hover⟩
  have hne := List.length_pos_iff.2 hbody.ne_nil
  simp only [List.length_append, List.length_cons, List.length_replicate] at hleft
  rcases hover with ⟨l', -, rfl, -⟩ | ⟨l', k', -, rfl⟩
  · simp
    omega
  · simp
    omega

theorem not_isOver {key : KeyStart} (hline : key.place.line = l)
    (hleft : key.place.left ≤ keyLimit + t.length) : key.isOver (before t l k) = false := by
  have hshort : ¬ keyLimit < key.place.left - t.length := by omega
  simp [KeyStart.isOver, hline, hshort]

/-- Before a colon on the line of a key, the key is not over. -/
theorem arrival_of_key (place : Cursor) (hline : place.line = l)
    (hplace : place.left ≤ keyLimit + (t.length + 1)) (hi : i ≤ k) (n : Nat) (required : Bool) :
    (⟨before (':' :: t) l k, T.toArray, i, o, false, some ⟨n, required, place⟩, []⟩ :
      Scan).arrival =
      .ok ⟨before (':' :: t) l k, T.toArray, i, o, false, some ⟨n, required, place⟩, []⟩ := by
  have hover : (⟨n, required, place⟩ : KeyStart).isOver (before (':' :: t) l k) = false :=
    not_isOver hline hplace
  have hclose : closeBlocks k i o T.toArray = (i, o, T.toArray) := by
    cases o with
    | nil => rfl
    | cons j o => rw [closeBlocks, if_pos hi]
  rw [arrival, settle,
    skipToToken_spaces (r := ':' :: t) _ 0 (by simp) (by simp) (by simp [isBreak]) rfl]
  simp [forgetOver, hover, bind, Except.bind, pure, Except.pure, Except.map, unindent, inFlow,
    hclose]

/-- Past a key on its line. -/
theorem Stands.key (h : Stands (body ++ ':' :: t) m i o T true s)
    (hbody : Body inner plain text body) (hinner : i + 1 ≤ inner) (hpos : 0 < inner)
    (hflat : ∀ c ∈ body, isBreak c = false) (hlength : body.length ≤ keyLimit)
    (ht : endsWord t.head?) (hi : i ≤ m) :
    ∃ l, Reaches s (block (opened T i m .mappingStart ++
      [.key, .scalar (.str (String.ofList text)) plain, .value]) m (around i o m) false
      (before t l (m + body.length + 1))) := by
  obtain ⟨hleft, l, h⟩ := h
  obtain ⟨c, u, he, htoken⟩ :=
    token_body_key (T := T) (o := o) true hbody hinner hpos hflat ht hi l
  have hpeek : (before (body ++ ':' :: t) l m).peek = some c := by
    rw [peek_before, he, List.head?_cons]
  have hne := List.length_pos_iff.2 hbody.ne_nil
  simp only [List.length_append, List.length_cons] at hleft
  have harrival := arrival_of_key
    (T := T ++ [Token.scalar (.str (String.ofList text)) plain]) (o := o) (t := t) (l := l) (i := i)
    (k := m + body.length) (before (body ++ ':' :: t) l m) rfl
    (by simp; omega) (by omega) T.length (i = m)
  refine ⟨l, .trans (.of_next (next_of_arrival h hpeek htoken) (by simp; omega))
    (.of_next (next_of_arrival harrival rfl
      (token_colon_of_key ht hi rfl (i = m) (.scalar (.str (String.ofList text)) plain)))
      (by simp [block]))⟩

/-- Inside a flow collection nothing is closed. -/
theorem arrival_inside {closing : Char} {key : Option KeyStart} {stop : Token}
    (hclosing : (closing, stop) = (']', .bracketClose) ∨ (closing, stop) = ('\x7d', .braceClose))
    (hkey : ∀ key' ∈ key, key'.place.line = l ∧ key'.place.left ≤ keyLimit + (t.length + 1)) :
    (⟨before (closing :: t) l k, T.toArray, i, o, true, none, [key]⟩ : Scan).arrival =
      .ok ⟨before (closing :: t) l k, T.toArray, i, o, true, none, [key]⟩ := by
  have hover : key.any (·.isOver (before (closing :: t) l k)) = false := by
    cases key with
    | none => rfl
    | some key =>
      obtain ⟨hline, hleft⟩ := hkey key rfl
      exact not_isOver hline hleft
  have hc : closing = ']' ∨ closing = '\x7d' :=
    hclosing.imp (fun h => (Prod.mk.inj h).1) fun h => (Prod.mk.inj h).1
  rw [arrival, settle, skipToToken_spaces (r := closing :: t) _ 0
    (by rcases hc with rfl | rfl <;> simp) (by rcases hc with rfl | rfl <;> simp)
    (by rcases hc with rfl | rfl <;> simp [isBreak]) rfl]
  simp [forgetOver, hover, bind, Except.bind, pure, Except.pure, Except.map, unindent, inFlow]

/-- The opening mark of a flow collection. -/
theorem token_opening {opening : Char} {start : Token}
    (hkind : (opening, start) = ('[', .bracketOpen) ∨ (opening, start) = ('\x7b', .braceOpen)) :
    (block T i o allowed (before (opening :: t) l k)).token opening =
      .ok ⟨before t l (k + 1), (T ++ [start]).toArray, i, o, true, none,
        [pending T i allowed (before (opening :: t) l k)]⟩ := by
  have hflow : ∀ c token, isInline c → (block T i o allowed (before (c :: t) l k)).openFlow token =
      .ok ⟨before t l (k + 1), (T ++ [token]).toArray, i, o, true, none,
        [pending T i allowed (before (c :: t) l k)]⟩ := by
    intro c token hc
    simp [openFlow, markKey_block, bind, Except.bind, pure, Except.pure, pushMark, push, skip,
      advance_inline hc]
  have hmark : ∀ c, c ≠ '-' → c ≠ '.' → (before (c :: t) l k).atDocumentMark = false :=
    fun c h₁ h₂ => atDocumentMark_of_noMark (noMark_cons h₁ h₂)
  rcases hkind with h | h
  · obtain ⟨rfl, rfl⟩ := Prod.mk.inj h
    rw [← hflow '[' .bracketOpen rfl]
    simp [token, block, hmark]
  · obtain ⟨rfl, rfl⟩ := Prod.mk.inj h
    rw [← hflow '\x7b' .braceOpen rfl]
    simp [token, block, hmark]

/-- The closing mark of a flow collection. -/
theorem token_closing {closing : Char} {stop : Token} (key : Option KeyStart)
    (hkind : (closing, stop) = (']', .bracketClose) ∨ (closing, stop) = ('\x7d', .braceClose)) :
    (⟨before (closing :: t) l k, T.toArray, i, o, true, none, [key]⟩ : Scan).token closing =
      .ok ⟨before t l (k + 1), (T ++ [stop]).toArray, i, o, false, key, []⟩ := by
  have hflow : ∀ c token, isInline c →
      (⟨before (c :: t) l k, T.toArray, i, o, true, none, [key]⟩ : Scan).closeFlow token =
        .ok ⟨before t l (k + 1), (T ++ [token]).toArray, i, o, false, key, []⟩ := by
    intro c token hc
    simp [closeFlow, forgetKey, giveUp, bind, Except.bind, pure, Except.pure, pushMark, push, skip,
      advance_inline hc]
  have hmark : ∀ c, c ≠ '-' → c ≠ '.' → (before (c :: t) l k).atDocumentMark = false :=
    fun c h₁ h₂ => atDocumentMark_of_noMark (noMark_cons h₁ h₂)
  rcases hkind with h | h
  · obtain ⟨rfl, rfl⟩ := Prod.mk.inj h
    rw [← hflow ']' .bracketClose rfl]
    simp [token, hmark]
  · obtain ⟨rfl, rfl⟩ := Prod.mk.inj h
    rw [← hflow '\x7d' .braceClose rfl]
    simp [token, hmark]

/-- Past an empty collection at the end of a line. -/
theorem Stands.flow {opening closing : Char} {start stop : Token}
    (hopening : (opening, start) = ('[', .bracketOpen) ∨ (opening, start) = ('\x7b', .braceOpen))
    (hclosing : (closing, stop) = (']', .bracketClose) ∨ (closing, stop) = ('\x7d', .braceClose))
    (h : Stands (opening :: closing :: '\n' :: (List.replicate m ' ' ++ r)) k i o T allowed s)
    (hr : LineStart r) (hk : i < k) :
    ∃ s', Reaches s s' ∧ Arrives r m i o (T ++ [start, stop]) s' := by
  obtain ⟨hleft, l, h⟩ := h
  have hkey : ∀ key ∈ pending T i allowed
      (before (opening :: closing :: '\n' :: (List.replicate m ' ' ++ r)) l k),
      key.required = false ∧ key.place.line = l ∧
        key.place.left = (List.replicate m ' ' ++ r).length + 3 := by
    intro key hkey
    cases allowed with
    | false => cases hkey
    | true =>
      obtain rfl := Option.some.inj hkey
      exact ⟨decide_eq_false (by simp; omega), rfl, rfl⟩
  have hinside := arrival_inside (o := o) (T := T ++ [start]) (i := i) (k := k + 1)
    (t := '\n' :: (List.replicate m ' ' ++ r)) hclosing
    (fun key' hkey' => ⟨(hkey key' hkey').2.1, by
      rw [(hkey key' hkey').2.2]
      simp [keyLimit]
      omega⟩)
  refine ⟨_, .trans (.of_next (next_of_arrival h rfl (token_opening hopening)) ?_)
    (.of_next (next_of_arrival hinside rfl (token_closing _ hclosing)) (by simp)), ?_⟩
  · simp only [List.length_cons] at hleft
    simp only [left_before, List.length_cons]
    omega
  · rw [List.append_assoc]
    exact arrives_of_lineOver hr _ _
      (fun key' hkey' => ⟨(hkey key' hkey').1, (hkey key' hkey').2.1⟩)
      (.inr ⟨l, k + 1 + 1, Nat.le_refl l, rfl⟩)

end Scan
end Yaml
end Runbook
