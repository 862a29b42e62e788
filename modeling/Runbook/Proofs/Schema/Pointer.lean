import Mathlib.Algebra.BigOperators.Group.List.Basic
import Mathlib.Algebra.Order.BigOperators.Group.List
import Runbook.Proofs.Digits
import Runbook.Proofs.Schema.Location

/-!
# Reading places back

The place of a problem is written as a pointer, each part after a slash. In the usual notation of
pointers a tilde in a key is written `~0` and a slash `~1`; problems write keys as they are, and the
whole document like the member with the empty key.

* `readPointer`: the place in a document that a pointer names;
* `pointers_of_ofDocument`: which places of problems are read back;
* `pointers_coincide`: two problems at different places with one pointer.
-/

namespace Runbook

/-! ### Joined pieces -/

section Pieces

variable {separator : Char} {l : List (List Char)}

theorem length_pieces_intercalate (hne : l ≠ []) :
    (pieces separator ([separator].intercalate l)).length =
      (l.map fun t => t.count separator + 1).sum := by
  induction l with
  | nil => exact absurd rfl hne
  | cons t r ih =>
    rw [List.map_cons, List.sum_cons]
    cases r with
    | nil => rw [List.intercalate_singleton, length_pieces, List.map_nil, List.sum_nil, add_zero]
    | cons t' r =>
      rw [List.intercalate_cons_cons, List.append_assoc, List.singleton_append,
        pieces_append_cons, List.length_append, length_pieces, ih (List.cons_ne_nil _ _)]

/-- Joined texts that are cut into as many pieces have no separator. -/
theorem notMem_of_length_pieces (hne : l ≠ [])
    (h : (pieces separator ([separator].intercalate l)).length = l.length) :
    ∀ t ∈ l, separator ∉ t := by
  rw [length_pieces_intercalate hne, List.sum_map_add] at h
  have hsum : (l.map fun t => t.count separator).sum = 0 := by simpa using h
  intro t ht
  exact List.count_eq_zero.1 (List.sum_eq_zero_iff.1 hsum _ (List.mem_map.2 ⟨t, ht, rfl⟩))

end Pieces

/-! ### Pointers -/

namespace Pointer

/-- A part of a pointer, with a tilde for `~0` and a slash for `~1`. -/
def unescape? : List Char → Option (List Char)
  | [] => some []
  | '~' :: '0' :: r => (unescape? r).map ('~' :: ·)
  | '~' :: '1' :: r => (unescape? r).map ('/' :: ·)
  | c :: r => if c = '~' then none else (unescape? r).map (c :: ·)

/-- The index that a part is: digits, with no needless zeros in front. -/
def index? (part : List Char) : Option Nat :=
  if part = Nat.toDigits 10 (natOfDigits part) then some (natOfDigits part) else none

/-- The place in a document that parts name. The last of them may name a member that is not there.
-/
def placeOf? : Value → List (List Char) → Option (List Schema.Spot)
  | _, [] => some []
  | v, part :: r => do
    let name ← unescape? part
    match v with
    | .mapping m =>
      match Value.lookup m (String.ofList name) with
      | some w => (placeOf? w r).map (.key (String.ofList name) :: ·)
      | none => if r = [] then some [.key (String.ofList name)] else none
    | .list l =>
      let i ← index? name
      let w ← l[i]?
      (placeOf? w r).map (.item i :: ·)
    | _ => none

end Pointer

/-- The place in a document that a pointer names: the whole, or parts each after a slash. -/
def readPointer (document : Value) (pointer : String) : Option (List Schema.Spot) :=
  match pointer.toList with
  | [] => some []
  | '/' :: r => Pointer.placeOf? document (pieces '/' r)
  | _ => none

namespace Pointer

open Schema

/-! ### Parts -/

theorem unescape?_cons {c : Char} (h : c ≠ '~') (r : List Char) :
    unescape? (c :: r) = (unescape? r).map (c :: ·) := by
  rw [unescape?, if_neg h]
  · rintro r' rfl
    exact absurd rfl h
  · rintro r' rfl
    exact absurd rfl h

theorem unescape?_of_notMem {part : List Char} (h : '~' ∉ part) : unescape? part = some part := by
  induction part with
  | nil => rfl
  | cons c r ih =>
    obtain ⟨hc, hr⟩ := not_or.1 (mt List.mem_cons.2 h)
    rw [unescape?_cons (Ne.symm hc), ih hr]
    rfl

/-- Every tilde of a part stands for one character together with the next one. -/
theorem length_of_unescape? {part name : List Char} (h : unescape? part = some name) :
    name.length + part.count '~' = part.length := by
  fun_induction unescape? part generalizing name with
  | case1 =>
    cases h
    rfl
  | case2 r ih =>
    obtain ⟨s, hs, rfl⟩ := Option.map_eq_some_iff.1 h
    have := ih hs
    simp
    omega
  | case3 r ih =>
    obtain ⟨s, hs, rfl⟩ := Option.map_eq_some_iff.1 h
    have := ih hs
    simp
    omega
  | case4 => cases h
  | case5 c r _ _ hc ih =>
    obtain ⟨s, hs, rfl⟩ := Option.map_eq_some_iff.1 h
    have := ih hs
    rw [List.count_cons_of_ne hc]
    simp
    omega

/-- A part that is read as itself has no tilde. -/
theorem notMem_of_unescape? {part : List Char} (h : unescape? part = some part) : '~' ∉ part := by
  have hlength := length_of_unescape? h
  exact List.count_eq_zero.1 (by omega)

/-- A part with its tildes and slashes escaped. -/
def escape (name : List Char) : List Char :=
  name.flatMap fun c => if c = '~' then ['~', '0'] else if c = '/' then ['~', '1'] else [c]

theorem unescape?_escape (name : List Char) : unescape? (escape name) = some name := by
  induction name with
  | nil => rfl
  | cons c r ih =>
    by_cases htilde : c = '~'
    · subst htilde
      exact congrArg (Option.map ('~' :: ·)) ih
    by_cases hslash : c = '/'
    · subst hslash
      exact congrArg (Option.map ('/' :: ·)) ih
    have hescape : escape (c :: r) = c :: escape r := by
      simp [escape, htilde, hslash]
    rw [hescape, unescape?_cons htilde, ih]
    rfl

theorem index?_toDigits (n : Nat) : index? (Nat.toDigits 10 n) = some n := by
  rw [index?, natOfDigits_toDigits, if_pos rfl]

theorem toList_text_item (i : Nat) : (Spot.item i).text.toList = Nat.toDigits 10 i := by
  have hpos : 0 < (Nat.toDigits 10 i).length := List.length_pos_iff.2 (toDigits_ne_nil i)
  have hpad : 1 - (Nat.toDigits 10 i).length = 0 := by omega
  rw [Spot.text, padLeft, String.toList_ofList, hpad, List.replicate_zero, List.nil_append]

/-! ### Places -/

/-- The parts that are read as the texts of a place. -/
def Spell (parts : List (List Char)) (place : List Spot) : Prop :=
  List.Forall₂ (fun part spot => unescape? part = some spot.text.toList) parts place

/-- What is read as a place spells it. -/
theorem spell_of_placeOf? {v : Value} {parts : List (List Char)} {place : List Spot}
    (h : placeOf? v parts = some place) : Spell parts place := by
  induction parts generalizing v place with
  | nil =>
    rw [placeOf?] at h
    cases h
    exact .nil
  | cons part r ih =>
    rw [placeOf?] at h
    obtain ⟨name, hname, h⟩ := Option.bind_eq_some_iff.1 h
    cases v with
    | mapping m =>
      have hspot : unescape? part = some (Spot.key (String.ofList name)).text.toList := by
        rw [hname, Spot.text, String.toList_ofList]
      dsimp only at h
      split at h
      · obtain ⟨rest, hrest, rfl⟩ := Option.map_eq_some_iff.1 h
        exact .cons hspot (ih hrest)
      · obtain ⟨rfl, hplace⟩ := Option.ite_none_right_eq_some.1 h
        cases hplace
        exact .cons hspot .nil
    | list l =>
      obtain ⟨i, hi, h⟩ := Option.bind_eq_some_iff.1 h
      obtain ⟨w, -, h⟩ := Option.bind_eq_some_iff.1 h
      obtain ⟨rest, hrest, rfl⟩ := Option.map_eq_some_iff.1 h
      refine .cons ?_ (ih hrest)
      unfold index? at hi
      split at hi
      · next hdigits =>
        cases hi
        rw [toList_text_item, ← hdigits, hname]
      · cases hi
    | scalar _ => cases h
    | set _ => cases h
    | pair _ _ => cases h
    | endless _ => cases h

/-- What spells a place in a document is read as it. -/
theorem placeOf?_of_leads {v : Value} {place : List Spot} {o : Option Value}
    (h : Leads v place o) {parts : List (List Char)} (hparts : Spell parts place) :
    placeOf? v parts = some place := by
  induction h generalizing parts with
  | here v =>
    cases hparts
    rw [placeOf?]
  | absent hnone =>
    cases hparts with
    | cons hpart hrest =>
      cases hrest
      rw [placeOf?, hpart]
      simp [Spot.text, hnone]
  | member hw _ ih =>
    cases hparts with
    | cons hpart hrest =>
      rw [placeOf?, hpart]
      simp [Spot.text, hw, ih hrest]
  | item hw _ ih =>
    cases hparts with
    | cons hpart hrest =>
      rw [placeOf?, hpart, toList_text_item]
      simp [index?_toDigits, hw, ih hrest]

/-! ### Pointers of places -/

/-- The texts of the parts of a place. -/
def texts (place : List Spot) : List (List Char) := place.map fun spot => spot.text.toList

theorem texts_ne_nil {place : List Spot} (h : place ≠ []) : texts place ≠ [] :=
  mt List.map_eq_nil_iff.1 h

theorem toList_pointer (place : List Spot) :
    (Problem.pointer place).toList = '/' :: ['/'].intercalate (texts place) := by
  rw [Problem.pointer, String.toList_append, String.toList_intercalate, List.map_map]
  rfl

theorem readPointer_pointer (v : Value) (place : List Spot) :
    readPointer v (Problem.pointer place) =
      placeOf? v (pieces '/' (['/'].intercalate (texts place))) := by
  rw [readPointer, toList_pointer]
  rfl

/-- Whether no key of a place has a character. -/
def Lacks (c : Char) (place : List Spot) : Prop := ∀ name, .key name ∈ place → c ∉ name.toList

/-- Indices and marks of keys have neither slashes nor tildes. -/
theorem lacks_iff {c : Char} (hc : c = '/' ∨ c = '~') {place : List Spot} :
    Lacks c place ↔ ∀ t ∈ texts place, c ∉ t := by
  constructor
  · intro h t ht
    obtain ⟨spot, hspot, rfl⟩ := List.mem_map.1 ht
    cases spot with
    | key name => exact h name hspot
    | item i =>
      rw [toList_text_item]
      intro hmem
      have hdigit := isDigit_of_mem_toDigits hmem
      rcases hc with rfl | rfl <;> cases hdigit
    | keyItself => rcases hc with rfl | rfl <;> decide
  · exact fun h name hname => h _ (List.mem_map.2 ⟨_, hname, rfl⟩)

/-- Texts without tildes spell their place. -/
theorem spell_texts_iff {place : List Spot} :
    Spell (texts place) place ↔ Lacks '~' place := by
  rw [lacks_iff (.inr rfl), Spell, texts, List.forall₂_map_left_iff, List.forall₂_same,
    List.forall_mem_map]
  exact forall₂_congr fun spot _ => ⟨notMem_of_unescape?, unescape?_of_notMem⟩

/-- Escaped texts spell their place. -/
theorem spell_escape_texts (place : List Spot) : Spell ((texts place).map escape) place := by
  rw [Spell, texts, List.map_map, List.forall₂_map_left_iff, List.forall₂_same]
  exact fun spot _ => unescape?_escape _

/-- **The places that are read back**: those with a part, and with neither slash nor tilde in a key.
-/
theorem readPointer_pointer_iff {v : Value} {place : List Spot} {o : Option Value}
    (h : Leads v place o) : readPointer v (Problem.pointer place) = some place ↔
      place ≠ [] ∧ Lacks '/' place ∧ Lacks '~' place := by
  rw [readPointer_pointer]
  constructor
  · intro hread
    have hspell := spell_of_placeOf? hread
    have hne : place ≠ [] := by
      rintro rfl
      cases hspell
    have htexts := texts_ne_nil hne
    have hlength := List.Forall₂.length_eq hspell
    rw [← List.length_map (f := fun spot : Spot => spot.text.toList)] at hlength
    have hslash := notMem_of_length_pieces htexts hlength
    rw [pieces_intercalate htexts hslash] at hspell
    exact ⟨hne, (lacks_iff (.inl rfl)).2 hslash, spell_texts_iff.1 hspell⟩
  · rintro ⟨hne, hslash, htilde⟩
    have htexts := texts_ne_nil hne
    rw [pieces_intercalate htexts ((lacks_iff (.inl rfl)).1 hslash)]
    exact placeOf?_of_leads h (spell_texts_iff.2 htilde)

/-- Places in one document with the same texts are the same. -/
theorem texts_injective {v : Value} {place place' : List Spot} {o o' : Option Value}
    (h : Leads v place o) (h' : Leads v place' o') (heq : texts place = texts place') :
    place = place' := by
  have hread := placeOf?_of_leads h (spell_escape_texts place)
  rw [heq, placeOf?_of_leads h' (spell_escape_texts place')] at hread
  exact (Option.some.inj hread).symm

/-- Without slashes in keys, places in one document that have parts have pointers of their own. -/
theorem pointer_injective {v : Value} {place place' : List Spot} {o o' : Option Value}
    (h : Leads v place o) (h' : Leads v place' o') (hne : place ≠ []) (hne' : place' ≠ [])
    (hslash : Lacks '/' place) (hslash' : Lacks '/' place')
    (heq : Problem.pointer place = Problem.pointer place') : place = place' := by
  refine texts_injective h h' ?_
  have hjoined := congrArg String.toList heq
  rw [toList_pointer, toList_pointer] at hjoined
  have hpieces := congrArg (pieces '/') (List.cons.inj hjoined).2
  rwa [pieces_intercalate (texts_ne_nil hne) ((lacks_iff (.inl rfl)).1 hslash),
    pieces_intercalate (texts_ne_nil hne') ((lacks_iff (.inl rfl)).1 hslash')] at hpieces

end Pointer

namespace Definition

open Schema Pointer

/-- **The pointers of problems.** A problem of a document is about what is at its place. Its pointer
is read back as the place exactly when the place has a part and no key in it has a slash or a tilde,
and problems at two places without slashes in keys have two pointers. -/
theorem pointers_of_ofDocument {v : Value} (hv : v.IsDocument) {problems : List Problem}
    (h : ofDocument v = .error problems) :
    (∀ p ∈ problems, Concerns IsStray v p ∧
      (readPointer v (Problem.pointer p.place) = some p.place ↔
        p.place ≠ [] ∧ Lacks '/' p.place ∧ Lacks '~' p.place)) ∧
    ∀ p ∈ problems, ∀ q ∈ problems, Lacks '/' p.place → Lacks '/' q.place →
      Problem.pointer p.place = Problem.pointer q.place → p.place = q.place := by
  have hconcerns := concerns_of_ofDocument hv h
  constructor
  · intro p hp
    obtain ⟨o, hleads⟩ := (hconcerns p hp).1.exists_leads
    exact ⟨(hconcerns p hp).1, readPointer_pointer_iff hleads⟩
  · intro p hp q hq hslash hslash' heq
    by_cases hne : p.place = []
    · obtain rfl := List.mem_singleton.1 ((hconcerns p hp).2 hne ▸ hq)
      rfl
    by_cases hne' : q.place = []
    · obtain rfl := List.mem_singleton.1 ((hconcerns q hq).2 hne' ▸ hp)
      rfl
    obtain ⟨o, hleads⟩ := (hconcerns p hp).1.exists_leads
    obtain ⟨o', hleads'⟩ := (hconcerns q hq).1.exists_leads
    exact pointer_injective hleads hleads' hne hne' hslash hslash' heq

/-- A document with a stray member in one declaration and no mapping as another, whose key has a
slash. -/
def Sample.slashed : Value :=
  .ofFields [("name", .str "wf"), ("description", .str "A workflow"),
    ("variables", .ofFields [
      ("a", .ofFields [("description", .str "d"), ("type", .str "string"), ("b", .int 1)]),
      ("a/b", .int 5)]),
    ("steps", .list [.ofFields [("id", .str "s"), ("name", .str "n"), ("tool", .str "t"),
      ("parameters", .ofFields [])]])]

theorem Sample.isDocument_slashed : slashed.IsDocument :=
  Value.isDocument_of_isPlain (by decide +kernel)

/-- The problems of the document. -/
def Sample.slashedProblems : List Problem :=
  [⟨[.key "variables", .key "a", .key "b"], .extra⟩,
    ⟨[.key "variables", .key "a/b"], .notInstance "VariableSpec"⟩]

theorem Sample.ofDocument_slashed : ofDocument slashed = .error slashedProblems := rfl

/-- The stray member is read back; the declaration with a slash in its key is not. -/
theorem pointers_of_ofDocument_sample :
    Sample.slashed.IsDocument ∧ ofDocument Sample.slashed = .error Sample.slashedProblems ∧
      readPointer Sample.slashed "/variables/a/b" =
        some [.key "variables", .key "a", .key "b"] ∧
      readPointer Sample.slashed (Problem.pointer [.key "variables", .key "a/b"]) ≠
        some [.key "variables", .key "a/b"] := by
  have hpointers := (pointers_of_ofDocument Sample.isDocument_slashed Sample.ofDocument_slashed).1
  obtain ⟨-, hstray⟩ := hpointers _ List.mem_cons_self
  obtain ⟨-, hslashed⟩ := hpointers _ (List.mem_cons_of_mem _ List.mem_cons_self)
  refine ⟨Sample.isDocument_slashed, Sample.ofDocument_slashed, hstray.2 ⟨?_, ?_, ?_⟩,
    mt hslashed.1 fun h => ?_⟩
  · exact List.cons_ne_nil _ _
  · simp [Lacks]
  · simp [Lacks]
  · exact h.2.1 "a/b" (by simp) (by decide)

/-- **Two problems with one pointer**, at different places of a document. -/
theorem pointers_coincide : Sample.slashed.IsDocument ∧
    ∃ problems, ofDocument Sample.slashed = .error problems ∧
      ∃ p ∈ problems, ∃ q ∈ problems,
        p.place ≠ q.place ∧ Problem.pointer p.place = Problem.pointer q.place :=
  ⟨Sample.isDocument_slashed, _, Sample.ofDocument_slashed, _, List.mem_cons_self, _,
    List.mem_cons_of_mem _ List.mem_cons_self, by decide, by decide +kernel⟩

end Definition
end Runbook
