import Runbook.Json.Reader
import Runbook.Proofs.Digits
import Runbook.Proofs.Json.Value

/-!
# What a reader of JSON yields

A property of values that the texts of a dialect have, that its words and numbers have, and that
lists and mappings from texts have whenever their parts do, is one of every value that is read
(`Sound.of_read`): all that the machine has read so far has it, at every step.

* `isJson_of_read`: whatever text is read in a dialect without surrogates, the value is one of JSON;
* `natAbs_lt_of_atom`: a dialect that refuses long integers reads none.
-/

namespace Runbook
namespace Json

/-! ### Properties of what is read -/

section Sound

variable {dialect : Dialect} {p : Value → Prop}

/-- Whether entries have texts as keys and values with a property. -/
def AreMembers (dialect : Dialect) (p : Value → Prop) (entries : List (Scalar × Value)) : Prop :=
  ∀ e ∈ entries, (∃ t, e.1 = dialect.scalar t) ∧ p e.2

/-- Whether a property passes from what a dialect reads at once to all that is made of it. -/
structure Sound (dialect : Dialect) (p : Value → Prop) : Prop where
  text : ∀ t, p (.scalar (dialect.scalar t))
  atom : ∀ {cs r : List Char} {x : Scalar}, atom dialect cs = .ok (x, r) → p (.scalar x)
  list : ∀ {items : List Value}, (∀ v ∈ items, p v) → p (.list items)
  mapping : ∀ {entries : List (Scalar × Value)}, AreMembers dialect p entries →
    p (.mapping entries)

/-- Whether what a goal carries has a property. -/
def Goal.Holds (dialect : Dialect) (p : Value → Prop) : Goal → Prop
  | value | firstItem => True
  | firstKey entries | key entries => AreMembers dialect p entries
  | colon entries name => AreMembers dialect p entries ∧ ∃ t, name = dialect.scalar t
  | after v => p v

/-- Whether what a frame carries has a property. -/
def Frame.Holds (dialect : Dialect) (p : Value → Prop) : Frame → Prop
  | items done => ∀ v ∈ done, p v
  | members done key => AreMembers dialect p done ∧ ∃ t, key = dialect.scalar t

/-- The open mapping with one member more. -/
theorem Frame.Holds.set {done : List (Scalar × Value)} {key : Scalar}
    (h : (members done key).Holds dialect p) {v : Value} (hv : p v) :
    AreMembers dialect p (Table.set done key v) := by
  intro e he
  obtain he | rfl := Table.mem_of_mem_set he
  · exact h.1 e he
  · exact ⟨h.2, hv⟩

theorem Frame.Holds.cons {done : List Value} (h : (items done).Holds dialect p) {v : Value}
    (hv : p v) : (items (v :: done)).Holds dialect p :=
  List.forall_mem_cons.2 ⟨hv, h⟩

/-- The machine keeps a property that all it has read so far has. -/
theorem Sound.of_run (hp : Sound dialect p) {goal : Goal} {frames : List Frame} {cs : List Char}
    {v : Value} (h : run dialect goal frames cs = .ok v) (hgoal : goal.Holds dialect p)
    (hframes : ∀ f ∈ frames, f.Holds dialect p) : p v := by
  fun_induction run dialect goal frames cs with
  | case1 =>
    cases h
    exact hgoal
  | case7 =>
    rename_i ih
    exact ih h hgoal hframes
  | case9 =>
    -- an item, and another one follows
    rename_i ih
    obtain ⟨hdone, hframes⟩ := List.forall_mem_cons.1 hframes
    exact ih h trivial (List.forall_mem_cons.2 ⟨hdone.cons hgoal, hframes⟩)
  | case10 =>
    -- the last item
    rename_i ih
    obtain ⟨hdone, hframes⟩ := List.forall_mem_cons.1 hframes
    refine ih h (hp.list fun w hw => ?_) hframes
    exact hdone.cons hgoal w (List.mem_reverse.1 hw)
  | case12 =>
    -- a member, and another one follows
    rename_i ih
    obtain ⟨hdone, hframes⟩ := List.forall_mem_cons.1 hframes
    exact ih h (hdone.set hgoal) hframes
  | case13 =>
    -- the last member
    rename_i ih
    obtain ⟨hdone, hframes⟩ := List.forall_mem_cons.1 hframes
    exact ih h (hp.mapping (hdone.set hgoal)) hframes
  | case15 =>
    rename_i ih
    exact ih h trivial (List.forall_mem_cons.2 ⟨hgoal, hframes⟩)
  | case17 =>
    rename_i ih
    exact ih h (hp.mapping hgoal) hframes
  | case18 =>
    rename_i ih
    exact ih h ⟨hgoal, _, rfl⟩ hframes
  | case21 =>
    rename_i ih
    exact ih h ⟨hgoal, _, rfl⟩ hframes
  | case24 =>
    rename_i ih
    exact ih h (hp.text _) hframes
  | case26 =>
    rename_i ih
    exact ih h trivial (List.forall_mem_cons.2 ⟨by simp [Frame.Holds], hframes⟩)
  | case28 =>
    rename_i ih
    exact ih h (by simp [Goal.Holds, AreMembers]) hframes
  | case30 =>
    rename_i ih
    exact ih h (hp.list (by simp)) (List.forall_mem_cons.1 hframes).2
  | case31 =>
    rename_i ih
    exact ih h (hp.atom (by assumption)) hframes
  | case33 =>
    rename_i ih
    exact ih h (hp.atom (by assumption)) hframes
  | _ => cases h

/-- **What is read has every property that passes from parts to the whole.** -/
theorem Sound.of_read (hp : Sound dialect p) {cs : List Char} {v : Value}
    (h : read dialect cs = .ok v) : p v := by
  unfold read at h
  split at h
  · cases h
  · exact hp.of_run h trivial (by simp)

end Sound

/-! ### JSON -/

theorem isJson_of_number {dialect : Dialect} {negative : Bool} {whole fraction exponent : List Char}
    {x : Scalar} (h : number dialect negative whole fraction exponent = .ok x) : x.IsJson := by
  unfold number at h
  -- every branch that yields a scalar yields an integer or a float
  cases hd : Decimal.ofChars? (whole ++ fraction ++ exponent)
  all_goals
    simp only [hd] at h
    split at h
    · split at h
      · cases h
        trivial
      · split at h <;> cases h <;> trivial
    · cases h
      trivial

theorem isJson_of_numeral {dialect : Dialect} {negative : Bool} {cs r : List Char} {x : Scalar}
    (h : numeral dialect negative cs = .ok (x, r)) : x.IsJson := by
  simp only [numeral] at h
  split at h
  · cases h
  · cases hx : number dialect negative (wholeDigits cs).1 (fraction (wholeDigits cs).2).1
        (exponent (fraction (wholeDigits cs).2).2).1 with
    | error e => simp [hx, Except.map] at h
    | ok y =>
      simp only [hx, Except.map, Except.ok.injEq, Prod.mk.injEq] at h
      exact h.1 ▸ isJson_of_number hx

theorem isJson_of_constant {dialect : Dialect} {y : Binary64} {rest r : List Char} {x : Scalar}
    (h : constant dialect y rest = .ok (x, r)) : x.IsJson := by
  unfold constant at h
  split at h
  · cases h
    trivial
  · cases h

/-- A word or a number is a scalar of JSON. -/
theorem isJson_of_atom {dialect : Dialect} {cs r : List Char} {x : Scalar}
    (h : atom dialect cs = .ok (x, r)) : x.IsJson := by
  unfold atom at h
  split at h
  all_goals first
    | exact isJson_of_constant h
    | exact isJson_of_numeral h
    | (cases h; trivial)

theorem Dialect.exists_scalar (dialect : Dialect) (t : Text) :
    (∃ s, dialect.scalar t = .str s) ∨ ∃ codes, dialect.scalar t = .wild codes := by
  unfold scalar
  split
  · cases t with
    | str s => exact .inl ⟨s, rfl⟩
    | wild codes => exact .inr ⟨codes, rfl⟩
  · exact .inl ⟨t.string, rfl⟩

theorem Dialect.scalar_of_not_surrogates {dialect : Dialect} (h : dialect.surrogates = false)
    (t : Text) : dialect.scalar t = .str t.string := by
  rw [scalar, if_neg (by simp [h])]

/-- **What is read as JSON is JSON** if no text keeps unpaired surrogates. -/
theorem isJson_of_read {dialect : Dialect} (hstrings : dialect.surrogates = false)
    {cs : List Char} {v : Value} (h : read dialect cs = .ok v) : v.IsJson := by
  have htext := Dialect.scalar_of_not_surrogates hstrings
  have hsound : Sound dialect Value.IsJson :=
    { text := fun t => htext t ▸ Value.isJson_str t.string
      atom := fun h => .scalar (isJson_of_atom h)
      list := .list
      mapping := fun h => by
        refine .mapping (fun e he => ?_) fun e he => (h e he).2
        obtain ⟨t, ht⟩ := (h e he).1
        exact ⟨t.string, ht.trans (htext t)⟩ }
  exact hsound.of_read h

/-! ### Long integers -/

theorem isDigit_of_mem_wholeDigits {cs : List Char} : ∀ c ∈ (wholeDigits cs).1, c.isDigit := by
  unfold wholeDigits
  split
  · simp
  · exact fun c hc => List.all_eq_true.1 List.all_takeWhile c hc

theorem natAbs_signed (negative : Bool) (n : Nat) : (signed negative n).natAbs = n := by
  cases negative <;> simp [signed]

theorem natAbs_lt_of_number {dialect : Dialect} (hlong : dialect.longIntegers = .refused)
    {negative : Bool} {whole fraction exponent : List Char} {n : Int}
    (hwhole : ∀ c ∈ whole, c.isDigit)
    (h : number dialect negative whole fraction exponent = .ok (.int n)) :
    n.natAbs < pow10 numeralLimit := by
  unfold number at h
  -- only a numeral without fraction and exponent that is short enough is an integer
  cases hd : Decimal.ofChars? (whole ++ fraction ++ exponent)
  all_goals
    simp only [hd, hlong] at h
    split at h
    · split at h
      · next hlength =>
        cases h
        rw [natAbs_signed]
        exact (natOfDigits_lt_pow10 hwhole).trans_le (pow10_le_pow10 hlength)
      · cases h
    · cases h

theorem natAbs_lt_of_numeral {dialect : Dialect} (hlong : dialect.longIntegers = .refused)
    {negative : Bool} {cs r : List Char} {n : Int}
    (h : numeral dialect negative cs = .ok (.int n, r)) : n.natAbs < pow10 numeralLimit := by
  simp only [numeral] at h
  split at h
  · cases h
  · cases hx : number dialect negative (wholeDigits cs).1 (fraction (wholeDigits cs).2).1
        (exponent (fraction (wholeDigits cs).2).2).1 with
    | error e => simp [hx, Except.map] at h
    | ok y =>
      simp only [hx, Except.map, Except.ok.injEq, Prod.mk.injEq] at h
      exact natAbs_lt_of_number hlong isDigit_of_mem_wholeDigits (h.1 ▸ hx)

/-- A dialect that refuses integers of more than `numeralLimit` digits reads none. -/
theorem natAbs_lt_of_atom {dialect : Dialect} (hlong : dialect.longIntegers = .refused)
    {cs r : List Char} {n : Int} (h : atom dialect cs = .ok (.int n, r)) :
    n.natAbs < pow10 numeralLimit := by
  unfold atom at h
  split at h
  all_goals first
    | exact natAbs_lt_of_numeral hlong h
    | (unfold constant at h; split at h <;> cases h)
    | cases h

end Json
end Runbook
