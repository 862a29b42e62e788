import Runbook.Proofs.Yaml.Scan
import Runbook.Yaml.Writer

/-!
# The tokens of a written document

What the pen writes for a value is cut into the tokens of that value, wherever it stands: after an
opened mark on the same line, or below a key.
-/

namespace Runbook
namespace Yaml

open Cursor Scan

/-! ### The tokens of a value -/

/-- The token of a scalar. -/
def scalarToken (isKey : Bool) : Scalar → Token
  | .str s => .scalar (.str s) (Style.ofText isKey s = .plain)
  | s => .scalar (.str ((wordOf? s).getD "")) true

mutual

/-- The tokens of a value. After an opened mark all collections have a start and an end. -/
def valueTokens (opened : Bool) : Value → List Token
  | .scalar s => [scalarToken false s]
  | .list [] => [.bracketOpen, .bracketClose]
  | .list (v :: r) =>
    if opened then .sequenceStart :: (itemTokens (v :: r) ++ [.blockEnd]) else itemTokens (v :: r)
  | .mapping [] => [.braceOpen, .braceClose]
  | .mapping (e :: r) => .mappingStart :: (entryTokens (e :: r) ++ [.blockEnd])
  | _ => []

/-- The tokens of items. -/
def itemTokens : List Value → List Token
  | [] => []
  | v :: r => .item :: (valueTokens true v ++ itemTokens r)

/-- The tokens of entries. -/
def entryTokens : List (Scalar × Value) → List Token
  | [] => []
  | (k, v) :: r =>
    let short := isShortKey (keyText k)
    .key :: scalarToken short k :: .value :: (valueTokens (!short) v ++ entryTokens r)

end

/-! ### What reads as tokens -/

variable {n : Nat} {t t' body text : List Char} {tokens tokens' : List Token} {opened plain : Bool}

/-- A text after a mark is read as tokens, whatever line follows. -/
structure ReadsAfterMark (opened : Bool) (n : Nat) (t : List Char) (tokens : List Token) :
    Prop where
  head : endsWord t.head?
  reads : ∀ {r : List Char} {m l k : Nat} {o : List Int} {T : List Token}, LineStart r → m ≤ n →
    n < k → (opened = true → k = n + 1) →
    ∃ s', Reaches (block T n o opened (before (t ++ '\n' :: (List.replicate m ' ' ++ r)) l k)) s' ∧
      Arrives r m n o (T ++ tokens) s'

/-- A text at an indentation is read as tokens of a collection, whatever line follows. Where no
collection has that indentation yet, one begins. -/
structure ReadsAtIndent (start : Token) (n : Nat) (t : List Char) (tokens : List Token) : Prop where
  lineStart : ∀ tail, LineStart (t ++ '\n' :: tail)
  reads : ∀ {r : List Char} {m : Nat} {i : Int} {o : List Int} {T : List Token} {s : Scan},
    LineStart r → m ≤ n → i ≤ n → Stands (t ++ '\n' :: (List.replicate m ' ' ++ r)) n i o T true s →
    ∃ s', Reaches s s' ∧ Arrives r m n (around i o n) (Scan.opened T i n start ++ tokens) s'

theorem Scan.stands_newline {r : List Char} {m k : Nat} {i : Int} {o : List Int} {T : List Token}
    (hr : LineStart r) (hi : i ≤ m) (l : Nat) :
    Stands r m i o T true
      (block T i o false (before ('\n' :: (List.replicate m ' ' ++ r)) l k)) :=
  (arrives_of_lineOver (l := l) hr none false (by simp)
    (.inr ⟨l, k, Nat.le_refl l, rfl⟩)).stands hi

namespace ReadsAfterMark

theorem scalar (h : Body (n + 2) plain text body) :
    ReadsAfterMark opened n (' ' :: body) [.scalar (.str (String.ofList text)) plain] where
  head := rfl
  reads {r m l k o T} hr hm hk _ := by
    have hstart : LineStart (body ++ '\n' :: (List.replicate m ' ' ++ r)) := h.lineStart _ rfl
    exact (stands_block _ 1 hstart (by omega) l).scalar h (by omega) (by omega) hr (by omega)
      (by omega)

theorem flow {opening closing : Char} {start stop : Token}
    (hopening : (opening, start) = ('[', .bracketOpen) ∨ (opening, start) = ('\x7b', .braceOpen))
    (hclosing : (closing, stop) = (']', .bracketClose) ∨ (closing, stop) = ('\x7d', .braceClose)) :
    ReadsAfterMark opened n [' ', opening, closing] [start, stop] where
  head := rfl
  reads {r m l k o T} hr hm hk _ := by
    have hstart : LineStart (opening :: closing :: '\n' :: (List.replicate m ' ' ++ r)) := by
      rcases hopening with h | h <;> obtain ⟨rfl, -⟩ := Prod.mk.inj h
      · exact ⟨rfl, noMark_cons (by decide) (by decide)⟩
      · exact ⟨rfl, noMark_cons (by decide) (by decide)⟩
    exact (stands_block _ 1 hstart (by omega) l).flow hopening hclosing hr (by omega)

/-- A collection on the line of the mark. -/
theorem collection {start : Token} (h : ReadsAtIndent start (n + 2) t tokens) :
    ReadsAfterMark true n (' ' :: t) (start :: (tokens ++ [.blockEnd])) where
  head := rfl
  reads {r m l k o T} hr hm hk hopened := by
    obtain rfl := hopened rfl
    have hstands := stands_block (i := n) (o := o) (T := T) (k := n + 1) true 1
      (h.lineStart (List.replicate m ' ' ++ r)) (by omega) l
    obtain ⟨s', hreaches, harrives⟩ := h.reads hr (by omega) (by omega) hstands
    have hlt : (n : Int) < (n + 2 : Nat) := by omega
    simp only [Scan.opened, around, if_pos hlt] at harrives
    refine ⟨s', hreaches, ?_⟩
    have hclose := harrives.close (by omega)
    simpa using hclose

/-- A mapping on the lines after the mark. -/
theorem mapping (h : ReadsAtIndent .mappingStart (n + 2) t tokens) :
    ReadsAfterMark false n ('\n' :: (List.replicate (n + 2) ' ' ++ t))
      (.mappingStart :: (tokens ++ [.blockEnd])) where
  head := rfl
  reads {r m l k o T} hr hm hk _ := by
    have hstands := stands_newline (i := n) (o := o) (T := T) (m := n + 2) (k := k)
      (h.lineStart (List.replicate m ' ' ++ r)) (by omega) l
    obtain ⟨s', hreaches, harrives⟩ := h.reads hr (by omega) (by omega) hstands
    have hlt : (n : Int) < (n + 2 : Nat) := by omega
    simp only [Scan.opened, around, if_pos hlt] at harrives
    refine ⟨s', by simpa using hreaches, ?_⟩
    have hclose := harrives.close (by omega)
    simpa using hclose

/-- A sequence on the lines after the mark. It has the indentation of the mapping around it. -/
theorem sequence (h : ReadsAtIndent .sequenceStart n t tokens) :
    ReadsAfterMark false n ('\n' :: (List.replicate n ' ' ++ t)) tokens where
  head := rfl
  reads {r m l k o T} hr hm hk _ := by
    have hstands := stands_newline (i := n) (o := o) (T := T) (m := n) (k := k)
      (h.lineStart (List.replicate m ' ' ++ r)) (by omega) l
    obtain ⟨s', hreaches, harrives⟩ := h.reads hr hm (by omega) hstands
    simp only [Scan.opened, around, Int.lt_irrefl, if_false] at harrives
    exact ⟨s', by simpa using hreaches, harrives⟩

end ReadsAfterMark

namespace ReadsAtIndent

/-- A collection that goes on. -/
theorem append {start : Token} (h : ReadsAtIndent start n t tokens)
    (h' : ReadsAtIndent start n t' tokens') :
    ReadsAtIndent start n (t ++ '\n' :: (List.replicate n ' ' ++ t')) (tokens ++ tokens') where
  lineStart tail := by simpa using h.lineStart _
  reads {r m i o T s} hr hm hi hs := by
    have hr' : LineStart (t' ++ '\n' :: (List.replicate m ' ' ++ r)) := h'.lineStart _
    obtain ⟨s', hreaches, harrives⟩ := h.reads hr' (Nat.le_refl n) hi (by simpa using hs)
    obtain ⟨s'', hreaches', harrives'⟩ := h'.reads hr hm (Int.le_refl n)
      (harrives.stands (Int.le_refl n))
    have hnone : around (n : Int) (around i o n) n = around i o n := if_neg (Int.lt_irrefl _)
    have hnone' : ∀ T, Scan.opened T (n : Int) n start = T := fun T => if_neg (Int.lt_irrefl _)
    rw [hnone, hnone'] at harrives'
    exact ⟨s'', hreaches.trans hreaches', by simpa using harrives'⟩

theorem endsWord_append (ht : endsWord t.head?) (tail : List Char) :
    endsWord (t ++ '\n' :: tail).head? := by
  cases t with
  | nil => rfl
  | cons => exact ht

/-- A mark before a blank can begin a line. -/
theorem lineStart_mark {c : Char} (hc : c = '-' ∨ c = '?' ∨ c = ':') (ht : endsWord t.head?) :
    LineStart (c :: t) := by
  refine ⟨?_, noMark_mark c ht⟩
  rcases hc with rfl | rfl | rfl <;> rfl

theorem item (hv : ReadsAfterMark true n t tokens) :
    ReadsAtIndent .sequenceStart n ('-' :: t) (.item :: tokens) where
  lineStart tail := lineStart_mark (.inl rfl) (endsWord_append hv.head tail)
  reads {r m i o T s} hr hm hi hs := by
    obtain ⟨l, hreaches⟩ := hs.mark fun l => token_item (endsWord_append hv.head _) hi
    obtain ⟨s', hreaches', harrives⟩ := hv.reads (l := l) (k := n + 1) (o := around i o n)
      (T := Scan.opened T i n .sequenceStart ++ [.item]) hr hm (by omega) fun _ => rfl
    exact ⟨s', hreaches.trans hreaches', by simpa using harrives⟩

/-- An entry whose key stands on the line of its value. -/
theorem entry (hk : Body (n + 2) plain text body) (hflat : ∀ c ∈ body, isBreak c = false)
    (hlength : body.length ≤ keyLimit) (hv : ReadsAfterMark false n t tokens) :
    ReadsAtIndent .mappingStart n (body ++ ':' :: t)
      (.key :: .scalar (.str (String.ofList text)) plain :: .value :: tokens) where
  lineStart tail := by simpa using hk.lineStart (':' :: (t ++ '\n' :: tail)) rfl
  reads {r m i o T s} hr hm hi hs := by
    have hs' : Stands (body ++ ':' :: (t ++ '\n' :: (List.replicate m ' ' ++ r))) n i o T true
        s := by
      simpa using hs
    obtain ⟨l, hreaches⟩ := hs'.key hk (by omega) (by omega) hflat hlength
      (endsWord_append hv.head _) hi
    obtain ⟨s', hreaches', harrives⟩ := hv.reads (l := l) (k := n + body.length + 1)
      (o := around i o n) (T := Scan.opened T i n .mappingStart ++
        [.key, .scalar (.str (String.ofList text)) plain, .value]) hr hm (by omega) (by simp)
    exact ⟨s', hreaches.trans hreaches', by simpa using harrives⟩

/-- An entry whose key stands after a question mark. -/
theorem longEntry {tk : List Char} {word : Token} (hk : ReadsAfterMark true n tk [word])
    (hv : ReadsAfterMark true n t tokens) :
    ReadsAtIndent .mappingStart n ('?' :: (tk ++ '\n' :: (List.replicate n ' ' ++ ':' :: t)))
      (.key :: word :: .value :: tokens) where
  lineStart tail := by
    simpa using lineStart_mark
      (t := tk ++ '\n' :: (List.replicate n ' ' ++ ':' :: (t ++ '\n' :: tail)))
      (.inr (.inl rfl)) (endsWord_append hk.head _)
  reads {r m i o T s} hr hm hi hs := by
    have hs' : Stands ('?' :: (tk ++ '\n' :: (List.replicate n ' ' ++
        ':' :: (t ++ '\n' :: (List.replicate m ' ' ++ r))))) n i o T true s := by
      simpa using hs
    obtain ⟨l, hreaches⟩ := hs'.mark fun l => token_questionMark (endsWord_append hk.head _) hi
    have hcolon := endsWord_append hv.head (List.replicate m ' ' ++ r)
    obtain ⟨s₁, hreaches₁, harrives₁⟩ := hk.reads (l := l) (k := n + 1) (o := around i o n)
      (T := Scan.opened T i n .mappingStart ++ [.key]) (lineStart_mark (.inr (.inr rfl)) hcolon)
      (Nat.le_refl n) (by omega) fun _ => rfl
    obtain ⟨l₂, hreaches₂⟩ := (harrives₁.stands (Int.le_refl n)).mark fun l => token_colon hcolon
    obtain ⟨s', hreaches', harrives⟩ := hv.reads (l := l₂) (k := n + 1) (o := around i o n)
      (T := Scan.opened T i n .mappingStart ++ [.key] ++ [word] ++ [.value]) hr hm (by omega)
      fun _ => rfl
    exact ⟨s', hreaches.trans (hreaches₁.trans (hreaches₂.trans hreaches')),
      by simpa using harrives⟩

end ReadsAtIndent

end Yaml
end Runbook
