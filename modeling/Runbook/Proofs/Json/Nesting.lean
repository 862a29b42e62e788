import Runbook.Proofs.Json.Reader
import Runbook.Proofs.Digits

/-!
# Texts that nest too deep

The greatest number of collections that a text has open at once, counting the brackets outside of
strings (`nesting`). A reader of JSON gives up for depth only on a text that nests deeper than its
dialect allows (`lt_nesting_of_read`).
-/

namespace Runbook
namespace Json

/-- The greatest number of collections open at once in a text, from a level on, inside of a string
or outside. -/
def deepest : Bool → Nat → List Char → Nat
  | _, level, [] => level
  | true, level, '\\' :: _ :: r => deepest true level r
  | true, level, c :: r => deepest (c ≠ '"') level r
  | false, level, c :: r =>
    if c = '"' then deepest true level r
    else if c = '[' || c = '{' then deepest false (level + 1) r
    else if c = ']' || c = '}' then max level (deepest false (level - 1) r)
    else deepest false level r

/-- The greatest number of collections that a text has open at once. -/
def nesting (cs : List Char) : Nat := deepest false 0 cs

theorem le_deepest (inString : Bool) (level : Nat) (cs : List Char) :
    level ≤ deepest inString level cs := by
  fun_induction deepest inString level cs with
  | case1 => exact Nat.le_refl _
  | case2 => assumption
  | case3 => assumption
  | case4 => assumption
  | case5 _ _ _ _ _ ih => exact (Nat.le_succ _).trans ih
  | case6 => exact Nat.le_max_left ..
  | case7 => assumption

section Brackets

variable (level : Nat) (r : List Char)

theorem deepest_quote : deepest false level ('"' :: r) = deepest true level r := by
  simp [deepest]

theorem deepest_open {c : Char} (h : c = '[' ∨ c = '{') :
    deepest false level (c :: r) = deepest false (level + 1) r := by
  rcases h with rfl | rfl <;> simp [deepest]

theorem lt_deepest_open {c : Char} (h : c = '[' ∨ c = '{') {depth : Nat} (hdepth : depth ≤ level)
    (n : Nat) : depth < deepest false (level + n) (c :: r) := by
  rw [deepest_open _ _ h]
  calc depth < level + n + 1 := Nat.lt_succ_of_le (hdepth.trans (Nat.le_add_right level n))
    _ ≤ deepest false (level + n + 1) r := le_deepest ..

theorem le_deepest_close {c : Char} (h : c = ']' ∨ c = '}') :
    deepest false level r ≤ deepest false (level + 1) (c :: r) := by
  have hclose : deepest false (level + 1) (c :: r) = max (level + 1) (deepest false level r) := by
    rcases h with rfl | rfl <;> simp [deepest]
  rw [hclose]
  exact Nat.le_max_right ..

end Brackets

/-! ### Strings -/

/-- Whether the rest of a text after some characters of a string is as deep as the text. -/
def PassesInside (cs r : List Char) : Prop := ∀ level, deepest true level cs = deepest true level r

theorem passesInside_cons {c : Char} (hquote : c ≠ '"') (hescape : c ≠ '\\') (r : List Char) :
    PassesInside (c :: r) r := by
  intro level
  rw [deepest]
  · simp [hquote]
  · rintro c' r' rfl
    exact absurd rfl hescape

theorem passesInside_escape (c : Char) (r : List Char) : PassesInside ('\\' :: c :: r) r :=
  fun _ => by rw [deepest]

theorem PassesInside.trans {cs ds r : List Char} (h : PassesInside cs ds)
    (h' : PassesInside ds r) : PassesInside cs r :=
  fun level => (h level).trans (h' level)

theorem passesInside_hex {ds : List Char} {n m : Nat} (h : hexFold n ds = some m) (r : List Char) :
    PassesInside (ds ++ r) r := by
  induction ds generalizing n with
  | nil => exact fun _ => rfl
  | cons c ds ih =>
    obtain ⟨k, hk, h⟩ := Option.bind_eq_some_iff.1 h
    obtain ⟨v, hv, -⟩ := Option.map_eq_some_iff.1 hk
    have hquote : c ≠ '"' := by
      rintro rfl
      cases hv
    have hescape : c ≠ '\\' := by
      rintro rfl
      cases hv
    exact (passesInside_cons hquote hescape _).trans (ih h)

theorem passesInside_of_unit? {cs r : List Char} {n : Nat} (h : unit? cs = some (n, r)) :
    PassesInside cs r := by
  unfold unit? at h
  split at h
  · next a b c d e rest =>
    obtain ⟨m, hm, h⟩ := Option.map_eq_some_iff.1 h
    cases h
    have hpasses : PassesInside ([a, b, c, d] ++ e :: rest) (e :: rest) := passesInside_hex hm _
    exact hpasses
  · cases h

theorem passesInside_of_lowUnit? {cs r : List Char} {n : Nat} (h : lowUnit? cs = some (n, r)) :
    PassesInside cs r := by
  unfold lowUnit? at h
  split at h
  · exact (passesInside_escape _ _).trans (passesInside_of_unit? (Option.filter_eq_some_iff.1 h).1)
  · cases h

theorem passesInside_of_escape {cs r : List Char} {n : Nat} (h : escape cs = .ok (n, r)) :
    PassesInside ('\\' :: cs) r := by
  unfold escape at h
  split at h
  · cases h
  · split at h
    · cases h
    · next n r₁ hu =>
      have hfirst := (passesInside_escape 'u' _).trans (passesInside_of_unit? hu)
      split at h
      · next m r₂ hl =>
        obtain ⟨-, rfl⟩ := Prod.mk.inj (Except.ok.inj h)
        split at hl
        · exact hfirst.trans (passesInside_of_lowUnit? hl)
        · cases hl
      · cases h
        exact hfirst
  · split at h
    · cases h
      exact passesInside_escape _ _
    · cases h

/-- The rest of a text after a string is as deep as the text after the opening quote. -/
theorem deepest_of_string {start level : Nat} {acc : List Nat} {cs r : List Char} {t : Text}
    (h : string start acc cs = .ok (t, r)) : deepest true level cs = deepest false level r := by
  fun_induction string start acc cs with
  | case1 => cases h
  | case2 =>
    cases h
    rw [deepest]
    · simp
    · rintro c' r' ⟨⟩
  | case3 =>
    rename_i ih
    exact (passesInside_of_escape (by assumption) level).trans (ih h)
  | case4 => cases h
  | case5 => cases h
  | case6 =>
    rename_i hquote hescape _ ih
    exact (passesInside_cons hquote hescape _ level).trans (ih h)

/-! ### Tokens -/

/-- Whether the rest of a text after some characters outside of strings is as deep as the text. -/
def Passes (cs r : List Char) : Prop := ∀ level, deepest false level cs = deepest false level r

theorem passes_of_string {start : Nat} {cs r : List Char} {t : Text}
    (h : string start [] cs = .ok (t, r)) : Passes ('"' :: cs) r :=
  fun level => (deepest_quote level cs).trans (deepest_of_string h)

/-- Whether a character outside of strings is neither a quote nor a bracket. -/
def IsBare (c : Char) : Prop := c ∉ ['"', '[', '{', ']', '}']

instance (c : Char) : Decidable (IsBare c) := inferInstanceAs (Decidable (c ∉ _))

theorem passes_refl (cs : List Char) : Passes cs cs := fun _ => rfl

theorem Passes.trans {cs ds r : List Char} (h : Passes cs ds) (h' : Passes ds r) : Passes cs r :=
  fun level => (h level).trans (h' level)

theorem passes_cons {c : Char} (h : IsBare c) (r : List Char) : Passes (c :: r) r := by
  intro level
  simp only [IsBare, List.mem_cons, List.not_mem_nil, or_false, not_or] at h
  obtain ⟨hquote, hlist, hmapping, hlist', hmapping'⟩ := h
  simp [deepest, hquote, hlist, hmapping, hlist', hmapping']

theorem passes_append {p : List Char} (h : ∀ c ∈ p, IsBare c) (r : List Char) :
    Passes (p ++ r) r := by
  induction p with
  | nil => exact passes_refl r
  | cons c p ih =>
    obtain ⟨hc, hp⟩ := List.forall_mem_cons.1 h
    exact (passes_cons hc _).trans (ih hp)

theorem isBare_of_isDigit {c : Char} (h : c.isDigit) : IsBare c := by
  intro hmem
  simp only [List.mem_cons, List.not_mem_nil, or_false] at hmem
  rcases hmem with rfl | rfl | rfl | rfl | rfl <;> cases h

theorem isBare_of_isSpace {c : Char} (h : isSpace c) : IsBare c := by
  intro hmem
  simp only [List.mem_cons, List.not_mem_nil, or_false] at hmem
  rcases hmem with rfl | rfl | rfl | rfl | rfl <;> cases h

theorem passes_spanDigits (cs : List Char) : Passes cs (spanDigits cs).2 := by
  have hbare : ∀ c ∈ cs.takeWhile Char.isDigit, IsBare c := fun c hc =>
    isBare_of_isDigit (List.all_eq_true.1 List.all_takeWhile c hc)
  have happend := passes_append hbare (cs.dropWhile Char.isDigit)
  rwa [List.takeWhile_append_dropWhile] at happend

theorem passes_wholeDigits (cs : List Char) : Passes cs (wholeDigits cs).2 := by
  unfold wholeDigits
  split
  · exact passes_cons (by decide) _
  · exact passes_spanDigits cs

theorem passes_fraction (cs : List Char) : Passes cs (fraction cs).2 := by
  unfold fraction
  split
  · split
    · exact (passes_cons (by decide) _).trans (passes_spanDigits _)
    · exact passes_refl _
  · exact passes_refl _

theorem passes_spanSign (cs : List Char) : Passes cs (spanSign cs).2 := by
  unfold spanSign
  split
  · exact passes_cons (by decide) _
  · exact passes_cons (by decide) _
  · exact passes_refl _

theorem passes_exponent (cs : List Char) : Passes cs (exponent cs).2 := by
  unfold exponent
  split
  · exact passes_refl _
  · next e r =>
    split
    · next he =>
      have hletter : IsBare e := by rcases he with rfl | rfl <;> decide
      dsimp only
      split
      · exact passes_refl _
      · exact (passes_cons hletter r).trans ((passes_spanSign r).trans (passes_spanDigits _))
    · exact passes_refl _

theorem passes_of_numeral {dialect : Dialect} {negative : Bool} {cs r : List Char} {x : Scalar}
    (h : numeral dialect negative cs = .ok (x, r)) : Passes cs r := by
  simp only [numeral] at h
  split at h
  · cases h
  · cases hx : number dialect negative (wholeDigits cs).1 (fraction (wholeDigits cs).2).1
        (exponent (fraction (wholeDigits cs).2).2).1 with
    | error e => simp [hx, Except.map] at h
    | ok y =>
      simp only [hx, Except.map, Except.ok.injEq, Prod.mk.injEq] at h
      rw [← h.2]
      exact (passes_wholeDigits cs).trans ((passes_fraction _).trans (passes_exponent _))

theorem passes_of_constant {dialect : Dialect} {y : Binary64} {p rest r : List Char} {x : Scalar}
    (h : constant dialect y rest = .ok (x, r)) (hp : ∀ c ∈ p, IsBare c) : Passes (p ++ rest) r := by
  unfold constant at h
  split at h
  · cases h
    exact passes_append hp rest
  · cases h

/-- The rest of a text after a word or a number is as deep as the text. -/
theorem passes_of_atom {dialect : Dialect} {cs r : List Char} {x : Scalar}
    (h : atom dialect cs = .ok (x, r)) : Passes cs r := by
  unfold atom at h
  split at h
  · cases h
    exact passes_append (p := "null".toList) (by simp [IsBare]) _
  · cases h
    exact passes_append (p := "true".toList) (by simp [IsBare]) _
  · cases h
    exact passes_append (p := "false".toList) (by simp [IsBare]) _
  · exact passes_of_constant (p := "NaN".toList) h (by simp [IsBare])
  · exact passes_of_constant (p := "Infinity".toList) h (by simp [IsBare])
  · exact passes_of_constant (p := "-Infinity".toList) h (by simp [IsBare])
  · exact (passes_cons (by decide) _).trans (passes_of_numeral h)
  · exact passes_of_numeral h

/-! ### Other reasons to give up -/

theorem escape_ne_tooDeep {cs : List Char} : escape cs ≠ .error .tooDeep := by
  intro h
  unfold escape at h
  split at h
  · cases h
  · split at h
    · cases h
    · split at h <;> cases h
  · split at h <;> cases h

theorem string_ne_tooDeep {start : Nat} {acc : List Nat} {cs : List Char} {stop : Stop}
    (h : string start acc cs = .error stop) : stop.cause ≠ .tooDeep := by
  fun_induction string start acc cs with
  | case1 =>
    cases h
    rintro ⟨⟩
  | case2 => cases h
  | case3 =>
    rename_i ih
    exact ih h
  | case4 =>
    cases h
    rintro rfl
    exact escape_ne_tooDeep (by assumption)
  | case5 =>
    cases h
    rintro ⟨⟩
  | case6 =>
    rename_i ih
    exact ih h

theorem numeral_ne_tooDeep {dialect : Dialect} {negative : Bool} {cs : List Char} :
    numeral dialect negative cs ≠ .error .tooDeep := by
  intro h
  simp only [numeral] at h
  split at h
  · cases h
  · simp only [number] at h
    split at h
    · split at h
      · cases h
      · split at h <;> cases h
    · cases h

theorem constant_ne_tooDeep {dialect : Dialect} {x : Binary64} {r : List Char} :
    constant dialect x r ≠ .error .tooDeep := by
  unfold constant
  split <;> nofun

theorem atom_ne_tooDeep {dialect : Dialect} {cs : List Char} {cause : Cause}
    (h : atom dialect cs = .error cause) : cause ≠ .tooDeep := by
  rintro rfl
  revert h
  unfold atom
  split
  all_goals first
    | exact constant_ne_tooDeep
    | exact numeral_ne_tooDeep
    | nofun

/-! ### The machine -/

/-- The number of collections open with a goal beside those of the frames. -/
def Goal.level : Goal → Nat
  | firstKey _ | key _ | colon _ _ => 1
  | value | firstItem | after _ => 0

theorem Goal.level_eq_zero {goal : Goal} (hcolon : ∀ entries key, goal = .colon entries key → False)
    (hfirst : ∀ entries, goal = .firstKey entries → False)
    (hkey : ∀ entries, goal = .key entries → False) : goal.level = 0 := by
  cases goal with
  | firstKey entries => exact (hfirst entries rfl).elim
  | key entries => exact (hkey entries rfl).elim
  | colon entries key => exact (hcolon entries key rfl).elim
  | value | firstItem | after => rfl

/-- The machine gives up for depth only where the rest of the text opens too many collections. -/
theorem lt_deepest_of_run {dialect : Dialect} {goal : Goal} {frames : List Frame} {cs : List Char}
    {stop : Stop} (h : run dialect goal frames cs = .error stop) (hstop : stop.cause = .tooDeep) :
    dialect.depth < deepest false (frames.length + goal.level) cs := by
  -- A step keeps the number of open collections up with the brackets that it reads, so the bound
  -- for the rest of the text is one for the text.
  fun_induction run dialect goal frames cs
  case case1 => cases h
  case case7 hspace ih => exact (ih h).trans_le (passes_cons (isBare_of_isSpace hspace) _ _).ge
  case case9 ih => exact (ih h).trans_le (passes_cons (by decide) _ _).ge
  case case12 ih => exact (ih h).trans_le (passes_cons (by decide) _ _).ge
  case case15 ih => exact (ih h).trans_le (passes_cons (by decide) _ _).ge
  case case10 ih => exact (ih h).trans_le (le_deepest_close _ _ (.inl rfl))
  case case13 ih => exact (ih h).trans_le (le_deepest_close _ _ (.inr rfl))
  case case17 ih => exact (ih h).trans_le (le_deepest_close _ _ (.inr rfl))
  case case30 ih => exact (ih h).trans_le (le_deepest_close _ _ (.inl rfl))
  case case18 hs _ _ _ ih => exact (ih h).trans_le (passes_of_string hs _).ge
  case case21 hs _ _ ih => exact (ih h).trans_le (passes_of_string hs _).ge
  case case24 hcolon hfirst hkey _ _ hs _ _ ih =>
    rw [Goal.level_eq_zero hcolon hfirst hkey]
    exact (ih h).trans_le (passes_of_string hs _).ge
  case case19 hs _ _ =>
    cases h
    exact absurd hstop (string_ne_tooDeep hs)
  case case22 hs _ =>
    cases h
    exact absurd hstop (string_ne_tooDeep hs)
  case case25 hs _ =>
    cases h
    exact absurd hstop (string_ne_tooDeep hs)
  case case26 hcolon hfirst hkey _ _ _ ih =>
    rw [Goal.level_eq_zero hcolon hfirst hkey]
    exact (ih h).trans_le (deepest_open _ _ (.inl rfl)).ge
  case case28 hcolon hfirst hkey _ _ _ _ ih =>
    rw [Goal.level_eq_zero hcolon hfirst hkey]
    exact (ih h).trans_le (deepest_open _ _ (.inr rfl)).ge
  case case27 hdepth _ _ => exact lt_deepest_open _ _ (.inl rfl) (Nat.not_lt.1 hdepth) _
  case case29 hdepth _ _ _ => exact lt_deepest_open _ _ (.inr rfl) (Nat.not_lt.1 hdepth) _
  case case31 ha _ _ _ _ _ ih => exact (ih h).trans_le (passes_of_atom ha _).ge
  case case33 hcolon hfirst hkey _ _ _ _ _ _ ha _ _ ih =>
    rw [Goal.level_eq_zero hcolon hfirst hkey]
    exact (ih h).trans_le (passes_of_atom ha _).ge
  case case32 ha _ _ _ _ =>
    cases h
    exact absurd hstop (atom_ne_tooDeep ha)
  case case34 ha _ =>
    cases h
    exact absurd hstop (atom_ne_tooDeep ha)
  all_goals
    cases h
    cases hstop

/-- A reader gives up for depth only on a text that nests deeper than its dialect allows. -/
theorem lt_nesting_of_read {dialect : Dialect} {cs : List Char} {stop : Stop}
    (h : read dialect cs = .error stop) (hstop : stop.cause = .tooDeep) :
    dialect.depth < nesting cs := by
  unfold read at h
  split at h
  · cases h
    cases hstop
  · exact lt_deepest_of_run h hstop

end Json
end Runbook
