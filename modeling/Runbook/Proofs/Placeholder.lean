import Runbook.Placeholder
import Mathlib.Data.List.Infix
import Mathlib.Data.List.TakeWhile

/-!
# Placeholders of a text

A text is cut at its placeholders from left to right: each one starts at the first place, of those
not yet used up, at which a placeholder can start (`Cut`). Every text has one cut, which depends on
the text alone. Substitution copies what stands between the placeholders, and puts the text of the
value at its path in the place of each (`Woven`).

* `exists_cut`, `Cut.unique`: the cut of a text;
* `substituteText_eq_ok_iff`: what replacing the placeholders of a text gives;
* `substituteText_ofPath`: a text that is one placeholder.
-/

namespace Runbook
namespace Placeholder

/-! ### Cuts -/

/-- Whether something can stand between the braces of a placeholder: at least one character, and no
closing brace. -/
structure IsInside (inside : List Char) : Prop where
  ne_nil : inside ≠ []
  unclosed : '}' ∉ inside

/-- The placeholder with something between its braces. -/
def written (inside : List Char) : List Char := '$' :: '{' :: (inside ++ ['}'])

/-- Whether a placeholder stands at the start of a list. -/
def Starts (cs : List Char) : Prop :=
  ∃ inside rest, IsInside inside ∧ cs = written inside ++ rest

/-- The cut of a text at its placeholders: what stands before each and between its braces, and what
stands after the last. -/
inductive Cut : List Char → List (List Char × List Char) → List Char → Prop
  /-- No placeholder is left. -/
  | last {cs : List Char} (h : ∀ v, v <:+ cs → ¬ Starts v) : Cut cs [] cs
  /-- The first placeholder that is left, with none starting before it. -/
  | next {before inside rest : List Char} {parts : List (List Char × List Char)} {last : List Char}
    (hinside : IsInside inside)
    (hfirst : ∀ v, v <:+ before → v ≠ [] → ¬ Starts (v ++ (written inside ++ rest)))
    (h : Cut rest parts last) :
    Cut (before ++ (written inside ++ rest)) ((before, inside) :: parts) last

theorem opening?_eq_some_iff {cs inside rest : List Char} :
    opening? cs = some (inside, rest) ↔ IsInside inside ∧ cs = written inside ++ rest := by
  constructor
  · intro h
    unfold opening? at h
    split at h
    · next r =>
      have hr := List.takeWhile_append_dropWhile (p := (· ≠ '}')) (l := r)
      have hhead := List.head?_dropWhile_not (fun c => decide (c ≠ '}')) r
      dsimp only at h
      split at h
      · next d rest' hd =>
        rw [hd] at hr hhead
        obtain rfl : d = '}' := by simpa using hhead
        split at h
        · cases h
        · next hne =>
          cases h
          refine ⟨⟨by simpa using hne, fun hmem => ?_⟩, ?_⟩
          · simpa using List.mem_takeWhile_imp hmem
          · rw [written, List.cons_append, List.cons_append, List.append_assoc]
            exact congrArg (fun cs => '$' :: '{' :: cs) hr.symm
      · cases h
    · cases h
  · rintro ⟨⟨hne, hunclosed⟩, rfl⟩
    have hinside : ∀ c ∈ inside, decide (c ≠ '}') = true := fun c hc =>
      decide_eq_true fun hc' => hunclosed (hc' ▸ hc)
    simp only [written, List.cons_append, List.append_assoc, List.nil_append, opening?]
    rw [List.takeWhile_append_of_pos hinside, List.dropWhile_append_of_pos hinside]
    simp [hne]

theorem opening?_eq_none_iff {cs : List Char} : opening? cs = none ↔ ¬ Starts cs := by
  rw [Option.eq_none_iff_forall_ne_some]
  constructor
  · rintro h ⟨inside, rest, hcs⟩
    exact h (inside, rest) (opening?_eq_some_iff.2 hcs)
  · rintro h ⟨inside, rest⟩ hopen
    exact h ⟨inside, rest, opening?_eq_some_iff.1 hopen⟩

theorem pieces_of_not_starts {c : Char} {r : List Char} (h : ¬ Starts (c :: r)) :
    pieces (c :: r) = .char c :: pieces r := by
  rw [pieces]
  split
  · next hopen => rw [opening?_eq_none_iff.2 h] at hopen; cases hopen
  · rfl

theorem pieces_written {inside : List Char} (h : IsInside inside) (rest : List Char) :
    pieces (written inside ++ rest) = .path inside :: pieces rest := by
  have hopen : opening? (written inside ++ rest) = some (inside, rest) :=
    opening?_eq_some_iff.2 ⟨h, rfl⟩
  rw [written, List.cons_append] at hopen ⊢
  rw [pieces]
  split
  · next hopen' =>
    rw [hopen] at hopen'
    cases hopen'
    rfl
  · next hopen' => rw [hopen] at hopen'; cases hopen'

/-- Characters at which no placeholder starts stand for themselves. -/
theorem pieces_append {before rest : List Char}
    (h : ∀ v, v <:+ before → v ≠ [] → ¬ Starts (v ++ rest)) :
    pieces (before ++ rest) = before.map .char ++ pieces rest := by
  induction before with
  | nil => rfl
  | cons c r ih =>
    have hc : ¬ Starts (c :: (r ++ rest)) := h (c :: r) List.suffix_rfl (List.cons_ne_nil c r)
    rw [List.cons_append, pieces_of_not_starts hc,
      ih fun v hv => h v (hv.trans (List.suffix_cons c r))]
    rfl

/-- One more character, at which no placeholder starts, goes to the front of the cut. -/
theorem exists_cut_cons {c : Char} {r : List Char} (hc : ¬ Starts (c :: r))
    {parts : List (List Char × List Char)} {last : List Char} (h : Cut r parts last) :
    ∃ parts' last', Cut (c :: r) parts' last' := by
  cases h with
  | last hlast =>
    refine ⟨[], c :: r, .last fun v hv => ?_⟩
    obtain rfl | hv := List.suffix_cons_iff.1 hv
    · exact hc
    · exact hlast v hv
  | @next before inside rest parts last hinside hfirst hrest =>
    refine ⟨(c :: before, inside) :: parts, last, ?_⟩
    rw [← List.cons_append]
    refine .next hinside (fun v hv hne => ?_) hrest
    obtain rfl | hv := List.suffix_cons_iff.1 hv
    · exact hc
    · exact hfirst v hv hne

/-- **Every text has a cut.** -/
theorem exists_cut (cs : List Char) : ∃ parts last, Cut cs parts last := by
  induction cs using pieces.induct with
  | case1 =>
    refine ⟨[], [], .last fun v hv => ?_⟩
    rw [List.suffix_nil.1 hv]
    rintro ⟨inside, rest, -, h⟩
    cases h
  | case2 c r inside rest hopen _ ih =>
    obtain ⟨parts, last, hcut⟩ := ih
    obtain ⟨hinside, hcs⟩ := opening?_eq_some_iff.1 hopen
    refine ⟨([], inside) :: parts, last, ?_⟩
    rw [hcs, ← List.nil_append (written inside ++ rest)]
    exact .next hinside (fun v hv hne => absurd (List.suffix_nil.1 hv) hne) hcut
  | case3 c r hopen ih =>
    obtain ⟨parts, last, hcut⟩ := ih
    exact exists_cut_cons (opening?_eq_none_iff.1 hopen) hcut

/-- The pieces of a text with a cut. -/
def piecesOf (parts : List (List Char × List Char)) (last : List Char) : List Piece :=
  match parts with
  | [] => last.map .char
  | (before, inside) :: parts => before.map .char ++ .path inside :: piecesOf parts last

theorem Cut.pieces {cs : List Char} {parts : List (List Char × List Char)} {last : List Char}
    (h : Cut cs parts last) : Placeholder.pieces cs = piecesOf parts last := by
  induction h with
  | @last cs h =>
    have hpieces : Placeholder.pieces (cs ++ []) = cs.map .char ++ Placeholder.pieces [] :=
      pieces_append fun v hv _ => by simpa using h v hv
    simpa [Placeholder.pieces, piecesOf] using hpieces
  | next hinside hfirst _ ih =>
    rw [pieces_append hfirst, pieces_written hinside, ih, piecesOf]

/-- What stands before the first path of some pieces is told by them. -/
theorem map_char_append_inj {cs cs' inside inside' : List Char} {ps ps' : List Piece}
    (h : cs.map Piece.char ++ .path inside :: ps = cs'.map .char ++ .path inside' :: ps') :
    cs = cs' ∧ inside = inside' ∧ ps = ps' := by
  induction cs generalizing cs' with
  | nil =>
    cases cs' with
    | nil => simpa using h
    | cons c' cs' => simp at h
  | cons c cs ih =>
    cases cs' with
    | nil => simp at h
    | cons c' cs' =>
      simp only [List.map_cons, List.cons_append, List.cons.injEq, Piece.char.injEq] at h
      obtain ⟨rfl, h⟩ := h
      simpa using ih h

theorem path_notMem_map_char (inside cs : List Char) : Piece.path inside ∉ cs.map Piece.char := by
  simp

theorem piecesOf_injective {parts parts' : List (List Char × List Char)} {last last' : List Char}
    (h : piecesOf parts last = piecesOf parts' last') : parts = parts' ∧ last = last' := by
  induction parts generalizing parts' with
  | nil =>
    cases parts' with
    | nil => exact ⟨rfl, (List.map_injective_iff.2 fun c c' => Piece.char.inj) h⟩
    | cons q parts' =>
      refine absurd ?_ (path_notMem_map_char q.2 last)
      rw [piecesOf, piecesOf] at h
      simp [h]
  | cons p parts ih =>
    cases parts' with
    | nil =>
      refine absurd ?_ (path_notMem_map_char p.2 last')
      rw [piecesOf, piecesOf] at h
      simp [← h]
    | cons q parts' =>
      obtain ⟨hbefore, hinside, hrest⟩ := map_char_append_inj h
      obtain ⟨rfl, rfl⟩ := ih hrest
      exact ⟨by rw [Prod.ext hbefore hinside], rfl⟩

/-- **A text has one cut.** -/
theorem Cut.unique {cs : List Char} {parts parts' : List (List Char × List Char)}
    {last last' : List Char} (h : Cut cs parts last) (h' : Cut cs parts' last') :
    parts = parts' ∧ last = last' :=
  piecesOf_injective (h.pieces.symm.trans h'.pieces)

/-! ### Weaving -/

/-- What a placeholder is replaced by: the text of the value at the path between its braces, blanks
at the ends of the path aside, or nothing when the path leads nowhere. -/
inductive Shown (tree : Value) (inside : List Char) : String → Prop
  | value {v : Value} {t : String} (h : tree.resolve (trim (.ofList inside)) = some v)
    (ht : v.stringify = .ok t) : Shown tree inside t
  | nothing (h : tree.resolve (trim (.ofList inside)) = none) : Shown tree inside ""

/-- The text that is made of a cut: what stands between the placeholders as it is, and what each of
them is replaced by. -/
inductive Woven (tree : Value) : List (List Char × List Char) → List Char → String → Prop
  | last {last : List Char} : Woven tree [] last (.ofList last)
  | next {before inside last : List Char} {parts : List (List Char × List Char)} {t r : String}
    (ht : Shown tree inside t) (hr : Woven tree parts last r) :
    Woven tree ((before, inside) :: parts) last (.ofList before ++ t ++ r)

theorem fill_path_eq_ok_iff {tree : Value} {inside : List Char} {t : String} :
    (Piece.path inside).fill tree = .ok t ↔ Shown tree inside t := by
  have htrim : String.ofList (trimBy isBlank inside) = trim (.ofList inside) := by simp [trim]
  rw [Piece.fill, htrim]
  constructor
  · intro h
    split at h
    · next v hv => exact .value hv h
    · next hnone =>
      cases h
      exact .nothing hnone
  · intro h
    cases h with
    | value hv ht => simp only [hv, ht]
    | nothing hnone => simp only [hnone]

theorem fill_map_char (tree : Value) (acc : String) (cs : List Char) (ps : List Piece) :
    fill tree acc (cs.map .char ++ ps) = fill tree (acc ++ .ofList cs) ps := by
  induction cs generalizing acc with
  | nil => simp
  | cons c r ih =>
    have hcons : acc ++ String.ofList [c] ++ String.ofList r = acc ++ String.ofList (c :: r) := by
      rw [String.append_assoc, ← String.ofList_append]
      rfl
    rw [List.map_cons, List.cons_append, fill, ← hcons, ← ih]
    rfl

theorem fill_piecesOf_eq_ok_iff {tree : Value} {acc r : String}
    {parts : List (List Char × List Char)} {last : List Char} :
    fill tree acc (piecesOf parts last) = .ok r ↔ ∃ t, Woven tree parts last t ∧ r = acc ++ t := by
  induction parts generalizing acc with
  | nil =>
    have hfill := fill_map_char tree acc last []
    rw [List.append_nil] at hfill
    rw [piecesOf, hfill, fill, Except.ok.injEq]
    constructor
    · rintro rfl
      exact ⟨_, .last, rfl⟩
    · rintro ⟨t, ⟨⟩, rfl⟩
      rfl
  | cons p parts ih =>
    obtain ⟨before, inside⟩ := p
    rw [piecesOf, fill_map_char, fill]
    constructor
    · intro h
      cases ht : (Piece.path inside).fill tree with
      | error f => rw [ht] at h; cases h
      | ok t =>
        rw [ht] at h
        obtain ⟨u, hu, rfl⟩ := ih.1 h
        exact ⟨_, .next (fill_path_eq_ok_iff.1 ht) hu, by simp only [String.append_assoc]⟩
    · rintro ⟨_, hwoven, rfl⟩
      cases hwoven with
      | next ht hu =>
        rw [fill_path_eq_ok_iff.2 ht]
        exact ih.2 ⟨_, hu, by simp only [String.append_assoc]⟩

/-- Whether a text is what another one becomes: its cut, woven. -/
def Replaced (tree : Value) (s r : String) : Prop :=
  ∃ parts last, Cut s.toList parts last ∧ Woven tree parts last r

/-! ### Texts that are one placeholder -/

/-- Whether a text can be the path of a placeholder as it stands: something that can stand between
the braces, without blanks at its ends. -/
structure IsPath (path : String) : Prop where
  inside : IsInside path.toList
  trimmed : trim path = path

instance (path : String) : Decidable (IsPath path) :=
  decidable_of_iff ((path.toList ≠ [] ∧ '}' ∉ path.toList) ∧ trim path = path)
    ⟨fun h => ⟨⟨h.1.1, h.1.2⟩, h.2⟩, fun h => ⟨⟨h.inside.ne_nil, h.inside.unclosed⟩, h.trimmed⟩⟩

/-- The text of the value at a path, nothing when the path leads nowhere. -/
def textAt (tree : Value) (path : String) : Except Fault String :=
  match tree.resolve path with
  | some v => v.stringify
  | none => .ok ""

/-- The placeholder of a path. -/
def ofPath (path : String) : String := "$\x7b" ++ path ++ "\x7d"

theorem toList_ofPath (path : String) : (ofPath path).toList = written path.toList := by
  simp [ofPath, written]

end Placeholder

open Placeholder

/-- A placeholder alone becomes the text of the value at its path. -/
theorem substituteText_ofPath (tree : Value) {path : String} (h : IsPath path) :
    substituteText tree (ofPath path) = textAt tree path := by
  have hpieces : Placeholder.pieces (ofPath path).toList = [.path path.toList] := by
    have hwritten := pieces_written h.inside []
    rwa [List.append_nil, Placeholder.pieces, ← toList_ofPath] at hwritten
  have hpath : String.ofList (trimBy isBlank path.toList) = path := h.trimmed
  rw [substituteText, hpieces, fill, Piece.fill, hpath, textAt]
  cases tree.resolve path with
  | none => rfl
  | some v =>
    show (v.stringify >>= fun t => .ok ("" ++ t)) = v.stringify
    cases v.stringify with
    | error f => rfl
    | ok t => exact congrArg Except.ok String.empty_append

/-- **Replacing the placeholders of a text** weaves its cut. -/
theorem substituteText_eq_ok_iff {tree : Value} {s r : String} :
    substituteText tree s = .ok r ↔ Replaced tree s r := by
  rw [substituteText]
  constructor
  · intro h
    obtain ⟨parts, last, hcut⟩ := exists_cut s.toList
    rw [hcut.pieces, fill_piecesOf_eq_ok_iff] at h
    obtain ⟨t, ht, rfl⟩ := h
    exact ⟨parts, last, hcut, by simpa using ht⟩
  · rintro ⟨parts, last, hcut, hr⟩
    rw [hcut.pieces, fill_piecesOf_eq_ok_iff]
    exact ⟨r, hr, by simp⟩

/-- A text without placeholders stays as it is. -/
theorem replaced_self (tree : Value) {s : String} (h : ∀ v, v <:+ s.toList → ¬ Starts v) :
    Replaced tree s s := by
  refine ⟨[], s.toList, .last h, ?_⟩
  have hlast : Woven tree [] s.toList (.ofList s.toList) := .last
  rwa [String.ofList_toList] at hlast

end Runbook
