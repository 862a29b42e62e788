import Runbook.Proofs.Digits
import Runbook.Proofs.Yields
import Runbook.Yaml.Token.Stream

/-!
# Code points that are too large

A text that cannot be cut into tokens is malformed, with one exception: an escape of a code point
that takes more than 31 bits (`fault_of_mem_tokensOf`). Every reader of characters goes on from a
place in the text to a place in the text, which is what shows where the escape stands.
-/

namespace Runbook
namespace Yaml

/-- Whether a text has an escape of a code point that takes more than 31 bits. -/
def HasHugeEscape (cs : List Char) : Prop :=
  ∃ digits n, '\\' :: 'U' :: digits <:+: cs ∧ digits.length = 8 ∧ hexNumber? digits = some n ∧
    0x80000000 ≤ n

/-! ### Places in a text -/

namespace Cursor

/-- Whether a cursor is at a place in a text. -/
def IsIn (cs : List Char) (c : Cursor) : Prop := c.rest <:+ cs

theorem isIn_start (cs : List Char) : (start cs).IsIn cs := by
  unfold start
  split
  · exact List.suffix_cons _ _
  · exact List.suffix_refl _

theorem rest_advance (c : Cursor) : c.advance.rest = c.rest.tail := by
  unfold advance
  split
  · next h => rw [h, List.tail_nil]
  · next h =>
    rw [h]
    split <;> rfl

theorem rest_of_peek {c : Cursor} {ch : Char} (h : c.peek = some ch) :
    c.rest = ch :: c.advance.rest := by
  rw [rest_advance]
  exact List.head?_eq_some_iff.1 h |>.elim fun r hr => by rw [hr, List.tail_cons]

section Moves

variable {cs : List Char} {c : Cursor}

theorem IsIn.advance (h : c.IsIn cs) : c.advance.IsIn cs := by
  rw [IsIn, rest_advance]
  exact (List.tail_suffix _).trans h

theorem IsIn.skip (h : c.IsIn cs) (n : Nat) : (c.skip n).IsIn cs := by
  induction n generalizing c with
  | zero => exact h
  | succ n ih => exact ih h.advance

theorem IsIn.span (h : c.IsIn cs) (p : Char → Bool) : (c.span p).2.IsIn cs := h.skip _

theorem IsIn.skipWhile (h : c.IsIn cs) (p : Char → Bool) : (c.skipWhile p).IsIn cs := h.skip _

theorem IsIn.skipSpaces (h : c.IsIn cs) : c.skipSpaces.IsIn cs := h.skip _

theorem IsIn.skipToBreak (h : c.IsIn cs) : c.skipToBreak.IsIn cs := h.skip _

theorem IsIn.of_lineBreak? (h : c.IsIn cs) {b : Char} {d : Cursor}
    (hbreak : c.lineBreak? = some (b, d)) : d.IsIn cs := by
  unfold lineBreak? at hbreak
  split at hbreak
  · cases hbreak
    exact h.skip 2
  · split at hbreak
    · cases hbreak
    · cases hbreak
      exact h.advance
  · cases hbreak

theorem IsIn.skipBreak (h : c.IsIn cs) : c.skipBreak.IsIn cs := by
  unfold Cursor.skipBreak
  split
  · next hbreak => exact h.of_lineBreak? hbreak
  · exact h

/-- The place after a comment, if there is one. -/
theorem IsIn.skipComment (h : c.IsIn cs) :
    (if c.peek = some '#' then c.skipToBreak else c).IsIn cs := by
  split
  · exact h.skipToBreak
  · exact h

end Moves

end Cursor

/-! ### Readers -/

/-- Whether a reader fails only as malformed or at an escape in the text, and gives only results of
a kind. -/
def Reads {α : Type} (cs : List Char) (good : α → Prop) : Except Error α → Prop :=
  Yields (fun e => e = .malformed ∨ e = .overflow ∧ HasHugeEscape cs) good

section Reads

variable {α : Type} {cs : List Char} {good : α → Prop}

theorem reads_ok {a : α} (h : good a) : Reads cs good (.ok a) := yields_ok h

theorem reads_malformed : Reads cs good (.error .malformed) := yields_error (.inl rfl)

theorem reads_overflow (h : HasHugeEscape cs) : Reads cs good (.error .overflow) :=
  yields_error (.inr ⟨rfl, h⟩)

end Reads

/-- Whether a reader goes on to a place in the text. -/
def ReadsOn {α : Type} (cs : List Char) (x : Except Error (α × Cursor)) : Prop :=
  Reads cs (fun p => p.2.IsIn cs) x

/-- Whether a reader of a token, which is no fault, goes on to a place in the text. -/
def ReadsToken (cs : List Char) (x : Except Error (Token × Cursor)) : Prop :=
  Reads cs (fun p => (∀ e, p.1 ≠ .fault e) ∧ p.2.IsIn cs) x

namespace Cursor

variable {cs : List Char} {c : Cursor} (h : c.IsIn cs)
include h

/-! ### Names, tags and directives -/

theorem readsOn_name : ReadsOn cs c.name := by
  unfold name
  dsimp only
  split
  · exact reads_malformed
  · exact reads_ok (h.span _)

theorem readsOn_anchorName : ReadsOn cs c.anchorName := by
  unfold anchorName
  refine (readsOn_name h.advance).bind fun ⟨name, c⟩ h => ?_
  dsimp only
  split
  · exact reads_ok h
  · exact reads_malformed

theorem readsOn_escapedBytes (fuel : Nat) (acc : List UInt8) :
    ReadsOn cs (escapedBytes fuel acc c) := by
  fun_induction escapedBytes fuel acc c with
  | case1 => exact reads_malformed
  | case2 _ _ _ _ _ _ _ _ _ ih => exact ih (h.skip 3)
  | case3 => exact reads_malformed
  | case4 => exact reads_malformed
  | case5 => exact reads_ok h

theorem readsOn_tagChars (fuel : Nat) (acc : List Char) : ReadsOn cs (tagChars fuel acc c) := by
  induction fuel generalizing acc c with
  | zero => exact reads_malformed
  | succ fuel ih =>
    unfold tagChars
    split
    · exact reads_ok h
    · split
      · refine (readsOn_escapedBytes h _ _).bind fun ⟨bytes, c⟩ h => ?_
        dsimp only
        split
        · exact ih h _
        · exact reads_malformed
      · split
        · exact ih h.advance _
        · exact reads_ok h

theorem readsOn_tagSuffix : ReadsOn cs c.tagSuffix := by
  unfold tagSuffix
  refine (readsOn_tagChars h _ _).bind fun ⟨chars, after⟩ h => ?_
  dsimp only
  split
  · exact reads_malformed
  · exact reads_ok h

theorem readsOn_tagHandle : ReadsOn cs c.tagHandle := by
  unfold tagHandle
  split
  · exact reads_ok h.advance
  · dsimp only
    split
    · exact reads_ok (h.advance.span _).advance
    · exact reads_malformed

theorem readsOn_versionNumber : ReadsOn cs c.versionNumber := by
  unfold versionNumber
  dsimp only
  split
  · exact reads_malformed
  · exact reads_ok (h.span _)

theorem reads_directiveEnd : Reads cs (IsIn cs) c.directiveEnd := by
  unfold directiveEnd
  extract_lets d d'
  have hd : d'.IsIn cs := h.skipSpaces.skipComment
  split
  · exact reads_ok hd.skipBreak
  · exact reads_malformed

theorem readsToken_tagToken : ReadsToken cs c.tagToken := by
  unfold tagToken
  extract_lets ending named
  have hending : ∀ t d, (∀ e, t ≠ .fault e) → IsIn cs d → ReadsToken cs (ending (t, d)) := by
    intro t d ht hd
    dsimp only [ending]
    split
    · exact reads_ok ⟨ht, hd⟩
    · exact reads_malformed
  split
  · refine (readsOn_tagSuffix (h.skip 2)).bind fun ⟨suffix, c⟩ h => ?_
    dsimp only
    split
    · exact hending _ _ nofun h.advance
    · exact reads_malformed
  · split
    · exact hending _ _ nofun h.advance
    · have hnamed : ∀ handle d, IsIn cs d → ReadsToken cs (named (handle, d)) := by
        intro handle d hd
        refine (readsOn_tagSuffix hd).bind fun ⟨suffix, c⟩ h => ?_
        exact hending _ _ nofun h
      split
      · exact (readsOn_tagHandle h).bind fun ⟨handle, c⟩ h => hnamed handle c h
      · exact hnamed _ _ h.advance

theorem readsToken_versionDirective : ReadsToken cs c.versionDirective := by
  unfold versionDirective
  refine (readsOn_versionNumber h.skipSpaces).bind fun ⟨major, c⟩ h => ?_
  dsimp only
  split
  · exact reads_malformed
  · refine (readsOn_versionNumber h.advance).bind fun ⟨minor, c⟩ h => ?_
    dsimp only
    split
    · exact reads_ok ⟨nofun, h⟩
    · exact reads_malformed

theorem readsToken_tagDirective : ReadsToken cs c.tagDirective := by
  unfold tagDirective
  split
  · exact reads_malformed
  · refine (readsOn_tagHandle h.skipSpaces).bind fun ⟨handle, c⟩ h => ?_
    dsimp only
    split
    · exact reads_malformed
    · refine (readsOn_tagSuffix h.skipSpaces).bind fun ⟨start, c⟩ h => ?_
      dsimp only
      split
      · exact reads_ok ⟨nofun, h⟩
      · exact reads_malformed

theorem readsToken_directive : ReadsToken cs c.directive := by
  unfold directive
  refine (readsOn_name h.advance).bind fun ⟨name, c⟩ h => ?_
  dsimp only
  split
  · exact reads_malformed
  · have hending : ∀ t d, (∀ e, t ≠ .fault e) → IsIn cs d →
        ReadsToken cs (d.directiveEnd >>= fun d => pure (t, d)) := fun t d ht hd =>
      (reads_directiveEnd hd).bind fun d hd => reads_ok ⟨ht, hd⟩
    split
    · exact (readsToken_versionDirective h).bind fun ⟨t, c⟩ h => hending t c h.1 h.2
    · split
      · exact (readsToken_tagDirective h).bind fun ⟨t, c⟩ h => hending t c h.1 h.2
      · exact hending _ _ nofun h.skipToBreak

end Cursor

/-! ### Quoted texts -/

namespace Quoted

variable {cs : List Char} {c : Cursor} (h : c.IsIn cs)
include h

theorem readsOn_breaks (fuel : Nat) (acc : List Char) : ReadsOn cs (breaks fuel acc c) := by
  induction fuel generalizing acc c with
  | zero => exact reads_malformed
  | succ fuel ih =>
    unfold breaks
    split
    · exact reads_malformed
    · extract_lets d
      have hd : d.IsIn cs := h.skipWhile _
      split
      · next hbreak => exact ih (hd.of_lineBreak? hbreak) _
      · exact reads_ok hd

theorem readsOn_spaces (acc : List Nat) : ReadsOn cs (spaces acc c) := by
  unfold spaces
  have hd : (c.span isSpaceOrTab).2.IsIn cs := h.span _
  dsimp only
  split
  · exact reads_malformed
  · split
    · exact reads_ok hd
    · next hbreak =>
      refine (readsOn_breaks (hd.of_lineBreak? hbreak) _ _).bind fun ⟨more, c⟩ h => ?_
      exact reads_ok h

omit h in
/-- A code point of more than 31 bits has eight digits. -/
theorem hasHugeEscape_of_code {ch : Char} {n code : Nat} (hmark : '\\' :: c.rest <:+ cs)
    (hpeek : c.peek = some ch) (hlength : codeLength? ch = some n)
    (hcode : hexNumber? (c.advance.rest.take n) = some code)
    (hn : (c.advance.rest.take n).length = n) (hhuge : 0x80000000 ≤ code) :
    HasHugeEscape cs := by
  have hlt := hexNumber?_lt hcode
  rw [hn] at hlt
  have hwide : ch = 'U' ∧ n = 8 := by
    unfold codeLength? at hlength
    split at hlength <;> cases hlength
    · exact absurd hlt (by omega)
    · exact absurd hlt (by omega)
    · exact ⟨rfl, rfl⟩
  obtain ⟨rfl, rfl⟩ := hwide
  refine ⟨c.advance.rest.take 8, code, ?_, hn, hcode, hhuge⟩
  rw [Cursor.rest_of_peek hpeek] at hmark
  refine List.IsInfix.trans (List.IsPrefix.isInfix ?_) hmark.isInfix
  exact (List.prefix_cons_inj _).2 ((List.prefix_cons_inj _).2 (List.take_prefix _ _))

theorem readsOn_escape (hmark : '\\' :: c.rest <:+ cs) (acc : List Nat) :
    ReadsOn cs (escape acc c) := by
  unfold escape
  split
  · exact reads_malformed
  · next ch hpeek =>
    split
    · exact reads_ok h.advance
    · next n _ hlength =>
      extract_lets digits
      split
      · next code hcode =>
        split
        · next hn =>
          have hpoint : Yaml.Reads cs (fun _ => True) (codePoint code) := by
            unfold codePoint
            split
            · next hhuge =>
              exact reads_overflow (hasHugeEscape_of_code hmark hpeek hlength hcode hn hhuge)
            · split
              · exact reads_malformed
              · exact reads_ok trivial
          exact hpoint.map fun _ _ => h.skip _
        · exact reads_malformed
      · exact reads_malformed
    · split
      · next hbreak => exact (readsOn_breaks (h.of_lineBreak? hbreak) _ _).map fun _ h => h
      · exact reads_malformed

theorem readsOn_body (double : Bool) (fuel : Nat) (acc : List Nat) :
    ReadsOn cs (body double fuel acc c) := by
  induction fuel generalizing acc c with
  | zero => exact reads_malformed
  | succ fuel ih =>
    unfold body
    split
    · exact reads_malformed
    · next ch hpeek =>
      split
      · exact (readsOn_spaces h acc).bind fun ⟨acc, c⟩ h => ih h _
      · split
        · split
          · exact reads_ok h.advance
          · split
            · next hmark =>
              have hrest := Cursor.rest_of_peek hpeek
              rw [hmark] at hrest
              have hcs : '\\' :: c.advance.rest <:+ cs := hrest ▸ h
              exact (readsOn_escape h.advance hcs acc).bind fun ⟨acc, c⟩ h => ih h _
            · exact ih h.advance _
        · split
          · split
            · exact ih (h.skip 2) _
            · exact reads_ok h.advance
          · exact ih h.advance _

end Quoted

theorem readsOn_quotedScalar {cs : List Char} {c : Cursor} (h : c.IsIn cs) :
    ReadsOn cs (quotedScalar c) :=
  (Quoted.readsOn_body h.advance _ _ _).map fun _ h => h

/-! ### Block texts -/

namespace Block

variable {cs : List Char} {c : Cursor} (h : c.IsIn cs)
include h

theorem isIn_breaks (indent fuel : Nat) (acc : List Char) :
    (breaks indent fuel acc c).2.IsIn cs := by
  induction fuel generalizing acc c with
  | zero => exact h
  | succ fuel ih =>
    unfold breaks
    extract_lets d
    have hd : d.IsIn cs := h.skip _
    split
    · next hbreak => exact ih (hd.of_lineBreak? hbreak) _
    · exact hd

theorem isIn_leading (fuel : Nat) (acc : List Char) (column : Nat) :
    (leading fuel acc column c).2.2.IsIn cs := by
  induction fuel generalizing acc column c with
  | zero => exact h
  | succ fuel ih =>
    unfold leading
    extract_lets d column'
    have hd : d.IsIn cs := h.skipSpaces
    split
    · next hbreak => exact ih (hd.of_lineBreak? hbreak) _ _
    · exact hd

theorem isIn_lines (folded : Bool) (indent fuel : Nat) (acc pending : List Char) :
    (lines folded indent fuel acc pending c).2.2.2.IsIn cs := by
  induction fuel generalizing acc pending c with
  | zero => exact h
  | succ fuel ih =>
    unfold lines
    split
    · exact h
    · have hline := h.span fun ch => !isBreak ch
      dsimp only
      split
      · next hbreak =>
        dsimp only
        split
        · exact ih (isIn_breaks (hline.of_lineBreak? hbreak) indent _ []) _ _
        · exact isIn_breaks (hline.of_lineBreak? hbreak) indent _ []
      · dsimp only
        split
        · exact ih (isIn_breaks hline indent _ []) _ _
        · exact isIn_breaks hline indent _ []

theorem reads_header : Reads cs (fun p => p.2.2.IsIn cs) (header c) := by
  unfold header
  split
  next chomping increment d hd =>
  have hd : d.IsIn cs := by
    dsimp only at hd
    split at hd
    · split at hd <;> cases hd
      · exact h.advance.advance
      · exact h.advance
    · split at hd
      · split at hd <;> cases hd
        · exact h.advance.advance
        · exact h.advance
      · cases hd
        exact h
  split
  · exact reads_malformed
  · exact reads_ok hd

theorem reads_headerEnd : Reads cs (Cursor.IsIn cs) (headerEnd c) := by
  unfold headerEnd
  extract_lets d d'
  have hd : d'.IsIn cs := h.skipSpaces.skipComment
  split
  · exact reads_ok hd.skipBreak
  · exact reads_malformed

end Block

theorem readsOn_blockScalar {cs : List Char} {c : Cursor} (h : c.IsIn cs) (indent : Int) :
    ReadsOn cs (blockScalar indent c) := by
  unfold blockScalar
  extract_lets folded
  refine (Block.reads_header h.advance).bind fun ⟨chomping, increment, c⟩ hheader => ?_
  refine (Block.reads_headerEnd hheader).bind fun c hc => ?_
  split
  next pending indent d hd =>
  have hd : d.IsIn cs := by
    dsimp only at hd
    split at hd
    · have hrest := Block.isIn_leading hc (c.left + 1) [] 0
      cases hd
      exact hrest
    · have hrest := fun indent => Block.isIn_breaks hc indent (c.left + 1) []
      cases hd
      exact hrest _
  have hrest := Block.isIn_lines hd folded indent (d.left + 1) [] pending
  exact reads_ok hrest

/-! ### Plain texts -/

namespace Plain

variable {cs : List Char} {c : Cursor} (h : c.IsIn cs)
include h

theorem isIn_breaks (fuel : Nat) (acc : List Char) : (breaks fuel acc c).2.IsIn cs := by
  induction fuel generalizing acc c with
  | zero => exact h
  | succ fuel ih =>
    unfold breaks
    extract_lets d
    split
    · next hbreak =>
      have hd := h.skipSpaces.of_lineBreak? hbreak
      split
      · exact hd
      · exact ih hd _
    · exact h.skipSpaces

theorem isIn_spaces : (spaces c).2.2.IsIn cs := by
  have hd := h.span fun ch => decide (ch = ' ')
  unfold spaces
  dsimp only
  split
  · exact hd
  · next b d' hbreak =>
    have hd' := hd.of_lineBreak? hbreak
    split
    · exact hd'
    · have hrest := isIn_breaks hd' (d'.left + 1) []
      split
      · next heq => rwa [heq] at hrest
      · next heq => rwa [heq] at hrest

theorem isIn_words (inFlow : Bool) (indent : Int) (fuel : Nat) (acc pending : List Char)
    (passed : Bool) : (words inFlow indent fuel acc pending passed c).2.2.IsIn cs := by
  induction fuel generalizing acc pending passed c with
  | zero => exact h
  | succ fuel ih =>
    unfold words
    split
    · exact h
    · extract_lets w
      split
      · exact h
      · have hrest := isIn_spaces (h.skip w.length)
        dsimp only
        split
        · exact hrest
        · exact ih hrest _ _ _

end Plain

theorem isIn_plainScalar {cs : List Char} {c : Cursor} (h : c.IsIn cs) (inFlow : Bool)
    (indent : Int) : (plainScalar inFlow indent c).2.2.IsIn cs :=
  Plain.isIn_words h inFlow (indent + 1) (c.left + 1) [] [] false

/-! ### Tokens -/

namespace Scan

/-- Whether a text has been cut up to a place in it, without a fault. -/
structure IsIn (cs : List Char) (s : Scan) : Prop where
  cursor : s.cursor.IsIn cs
  tokens : ∀ e, .fault e ∉ s.tokens

theorem isIn_start (cs : List Char) : (start cs).IsIn cs := ⟨Cursor.isIn_start cs, nofun⟩

section Steps

variable {cs : List Char} {s : Scan} {c : Cursor} (h : s.IsIn cs)
include h

section Moves

variable (t : Token) (ht : ∀ e, t ≠ .fault e)

theorem IsIn.of_eq {s' : Scan} (hc : s'.cursor = s.cursor) (ht : s'.tokens = s.tokens) :
    s'.IsIn cs :=
  ⟨hc ▸ h.cursor, ht ▸ h.tokens⟩

include ht

theorem IsIn.push (hc : c.IsIn cs) : (s.push t c).IsIn cs :=
  ⟨hc, fun e he => (Array.mem_push.1 he).elim (h.tokens e) fun he => ht e he.symm⟩

theorem IsIn.pushMark (length : Nat) : (s.pushMark t length).IsIn cs :=
  h.push t ht (h.cursor.skip _)

theorem IsIn.insert (position : Nat) : (s.insert position t).IsIn cs :=
  ⟨h.cursor, fun e he => by
    simp only [Scan.insert, Array.insertIdxIfInBounds] at he
    split at he
    · exact (Array.mem_insertIdx.1 he).elim (fun he => ht e he.symm) (h.tokens e)
    · exact h.tokens e he⟩

theorem IsIn.openBlock (column position : Nat) : (s.openBlock column position t).IsIn cs := by
  unfold Scan.openBlock
  split
  · have hs : Scan.IsIn cs { s with indent := column, outer := s.indent :: s.outer } :=
      h.of_eq rfl rfl
    exact hs.insert t ht position
  · exact h

end Moves

theorem IsIn.allowKey (b : Bool) : (s.allowKey b).IsIn cs := h.of_eq rfl rfl

omit h in
theorem fault_notMem_closeBlocks {column indent : Int} {outer : List Int} {tokens : Array Token}
    (h : ∀ e, .fault e ∉ tokens) :
    ∀ e, .fault e ∉ (closeBlocks column indent outer tokens).2.2 := by
  fun_induction closeBlocks column indent outer tokens with
  | case1 => exact h
  | case2 => exact h
  | case3 _ _ _ _ _ ih => exact ih (by simpa using h)

theorem IsIn.unindent (column : Int) : (s.unindent column).IsIn cs := by
  unfold Scan.unindent
  split
  · exact h
  · exact ⟨h.cursor, fault_notMem_closeBlocks h.tokens⟩

theorem IsIn.skipToToken (fuel : Nat) : (skipToToken fuel s).IsIn cs := by
  induction fuel generalizing s with
  | zero => exact h
  | succ fuel ih =>
    unfold Scan.skipToToken
    extract_lets c d
    have hd : d.IsIn cs := h.cursor.skipSpaces.skipComment
    split
    · next hbreak => exact ih ⟨hd.of_lineBreak? hbreak, h.tokens⟩
    · exact ⟨hd, h.tokens⟩

/-! #### Keys -/

omit h in
theorem reads_giveUp (k : Option KeyStart) : Reads cs (fun _ => True) (giveUp k) := by
  unfold giveUp
  split
  · split
    · exact reads_malformed
    · exact reads_ok trivial
  · exact reads_ok trivial

theorem reads_forgetKey : Reads cs (IsIn cs) s.forgetKey :=
  (reads_giveUp s.key).bind fun _ _ => reads_ok ⟨h.cursor, h.tokens⟩

theorem reads_markKey : Reads cs (IsIn cs) s.markKey := by
  unfold markKey
  split
  · exact (reads_forgetKey h).bind fun s h => reads_ok ⟨h.cursor, h.tokens⟩
  · exact reads_ok h

theorem reads_forgetOver : Reads cs (IsIn cs) s.forgetOver := by
  unfold forgetOver
  extract_lets keep
  have hkeep : ∀ k, Reads cs (fun _ => True) (keep k) := by
    intro k
    dsimp only [keep]
    split
    · exact reads_giveUp k
    · exact reads_ok trivial
  refine (hkeep s.key).bind fun _ _ => (Yields.mapM hkeep s.outerKeys).bind fun _ _ => ?_
  exact reads_ok ⟨h.cursor, h.tokens⟩

/-! #### Marks and words -/

theorem reads_documentToken {read : Cursor → Except Error (Token × Cursor)}
    (hread : ∀ c : Cursor, c.IsIn cs → ReadsToken cs (read c)) :
    Reads cs (IsIn cs) (s.documentToken read) :=
  (reads_forgetKey (h.unindent _)).bind fun _ h => (hread _ h.cursor).bind fun p hp =>
    reads_ok ((h.allowKey false).push p.1 hp.1 hp.2)

theorem reads_openFlow (t : Token) (ht : ∀ e, t ≠ .fault e) : Reads cs (IsIn cs) (s.openFlow t) :=
  (reads_markKey h).bind fun _ h => reads_ok ((h.pushMark t ht 1).of_eq rfl rfl)

theorem reads_closeFlow (t : Token) (ht : ∀ e, t ≠ .fault e) :
    Reads cs (IsIn cs) (s.closeFlow t) := by
  unfold closeFlow
  refine (reads_forgetKey h).bind fun s h => ?_
  split
  · exact reads_ok ((h.pushMark t ht 1).of_eq rfl rfl)
  · exact reads_malformed

theorem reads_comma : Reads cs (IsIn cs) s.comma :=
  (reads_forgetKey (h.allowKey true)).bind fun _ h => reads_ok (h.pushMark .comma nofun 1)

theorem reads_item : Reads cs (IsIn cs) s.item := by
  unfold item
  split
  · exact reads_malformed
  · have hs := (h.openBlock .sequenceStart nofun s.cursor.column s.tokens.size).allowKey true
    exact (reads_forgetKey hs).bind fun _ h => reads_ok (h.pushMark .item nofun 1)

theorem reads_questionMark : Reads cs (IsIn cs) s.questionMark := by
  unfold questionMark
  split
  · exact reads_malformed
  · have hs := (h.openBlock .mappingStart nofun s.cursor.column s.tokens.size).allowKey
      (!(s.openBlock s.cursor.column s.tokens.size .mappingStart).inFlow)
    exact (reads_forgetKey hs).bind fun _ h => reads_ok (h.pushMark .key nofun 1)

theorem reads_colon : Reads cs (IsIn cs) s.colon := by
  unfold colon
  split
  · next k _ =>
    have hkey : Scan.IsIn cs { s with key := none } := h.of_eq rfl rfl
    have hblock := (hkey.insert .key nofun k.position).openBlock .mappingStart nofun
      k.place.column k.position
    exact reads_ok ((hblock.allowKey false).pushMark .value nofun 1)
  · split
    · exact reads_malformed
    · have hblock := h.openBlock .mappingStart nofun s.cursor.column s.tokens.size
      exact reads_ok ((hblock.allowKey _).pushMark .value nofun 1)

theorem reads_word {read : Cursor → Except Error (Token × Cursor)}
    (hread : ∀ c : Cursor, c.IsIn cs → ReadsToken cs (read c)) :
    Reads cs (IsIn cs) (s.word read) :=
  (reads_markKey h).bind fun _ h => (hread _ h.cursor).bind fun p hp =>
    reads_ok ((h.allowKey false).push p.1 hp.1 hp.2)

theorem reads_blockText : Reads cs (IsIn cs) s.blockText :=
  (reads_forgetKey (h.allowKey true)).bind fun s h =>
    (readsOn_blockScalar h.cursor s.indent).bind fun _ hc =>
      reads_ok (h.push (.scalar _ false) nofun hc)

theorem reads_plainText : Reads cs (IsIn cs) s.plainText :=
  (reads_markKey h).bind fun s h => reads_ok
    ((h.allowKey _).push (.scalar _ true) nofun (isIn_plainScalar h.cursor s.inFlow s.indent))

theorem reads_token (ch : Char) : Reads cs (IsIn cs) (s.token ch) := by
  unfold token
  extract_lets c next apart
  refine .ite (reads_documentToken h fun c hc => Cursor.readsToken_directive hc) ?_
  refine .ite (reads_documentToken h fun c hc => reads_ok ⟨?_, hc.skip 3⟩) ?_
  · dsimp only
    split <;> nofun
  refine .ite (reads_openFlow h .bracketOpen nofun) (.ite (reads_openFlow h .braceOpen nofun) ?_)
  refine .ite (reads_closeFlow h .bracketClose nofun) ?_
  refine .ite (reads_closeFlow h .braceClose nofun) ?_
  refine .ite (reads_comma h) (.ite (reads_item h) (.ite (reads_questionMark h) ?_))
  refine .ite (reads_colon h) ?_
  refine .ite (reads_word h fun c hc => (Cursor.readsOn_anchorName hc).map fun _ h => ⟨nofun, h⟩) ?_
  refine .ite (reads_word h fun c hc => (Cursor.readsOn_anchorName hc).map fun _ h => ⟨nofun, h⟩) ?_
  refine .ite (reads_word h fun c hc => Cursor.readsToken_tagToken hc) (.ite (reads_blockText h) ?_)
  refine .ite (reads_word h fun c hc => (readsOn_quotedScalar hc).map fun _ h => ⟨nofun, h⟩) ?_
  exact .ite (reads_plainText h) reads_malformed

theorem reads_next : Reads cs (fun p => p.1.IsIn cs) s.next := by
  unfold next
  refine (reads_forgetOver (h.skipToToken _)).bind fun s h => ?_
  have hs := h.unindent s.cursor.column
  dsimp only
  split
  · exact (reads_token hs _).bind fun s h => reads_ok h
  · exact (reads_forgetKey (hs.unindent _)).bind fun _ h =>
      reads_ok (h.push .textEnd nofun h.cursor)

end Steps

/-- The faults among the tokens of a text are malformed, or there is an escape in it. -/
theorem fault_of_mem_rest {cs : List Char} {s : Scan} (h : s.IsIn cs) {fuel : Nat} {e : Error}
    (he : .fault e ∈ rest fuel s) : e = .malformed ∨ e = .overflow ∧ HasHugeEscape cs := by
  induction fuel generalizing s with
  | zero => exact absurd (Array.mem_toList_iff.1 he) (h.tokens e)
  | succ fuel ih =>
    have hnext := reads_next h
    unfold rest at he
    split at he
    · next hs => exact ih (hnext.ok _ hs) he
    · next hs => exact absurd (Array.mem_toList_iff.1 he) ((hnext.ok _ hs).tokens e)
    · next e' hs =>
      rcases List.mem_append.1 he with he | he
      · rw [Array.toList_extract, List.extract_eq_take_drop] at he
        have hmem := List.mem_of_mem_drop (List.mem_of_mem_take he)
        exact absurd (Array.mem_toList_iff.1 hmem) (h.tokens e)
      · cases List.mem_singleton.1 he
        exact hnext.error _ hs

end Scan

/-- **The faults among the tokens of a text**: it is malformed, or it has an escape of a code point
that takes more than 31 bits. -/
theorem fault_of_mem_tokensOf {cs : List Char} {e : Error} (h : .fault e ∈ tokensOf cs) :
    e = .malformed ∨ e = .overflow ∧ HasHugeEscape cs :=
  Scan.fault_of_mem_rest (Scan.isIn_start cs) h

end Yaml
end Runbook
