import Runbook.Context
import Runbook.Definition

/-!
# Seeding

The variables that a run starts with: those of the context passed in, over them the ones supplied by
the caller, and after them the declared defaults of variables that have no value yet.
-/

namespace Runbook

/-- Give a declared variable its default, unless it has a value or no default. -/
def applyDefault (vars : Table String Value) (e : String × Variable) : Table String Value :=
  match e.2.default with
  | some v => if vars.has e.1 then vars else vars.set e.1 v
  | none => vars

/-- The variables that a run starts with. -/
def seedVariables (d : Definition) (supplied vars : Table String Value) :
    Table String Value :=
  d.declared.foldl applyDefault (vars.update supplied)

/-- The context that a run starts with. -/
def Context.seed (c : Context) (d : Definition) (supplied : Table String Value) : Context :=
  { c with vars := seedVariables d supplied c.vars }

theorem mem_of_mem_applyDefault {vars : Table String Value} {declared : String × Variable}
    {e : String × Value} (h : e ∈ applyDefault vars declared) :
    e ∈ vars ∨ declared.2.default = some e.2 := by
  unfold applyDefault at h
  split at h
  · next v hv =>
    split at h
    · exact .inl h
    · exact (Table.mem_of_mem_set h).imp_right fun he => by rw [he, hv]
  · exact .inl h

theorem mem_of_mem_foldl_applyDefault {declared : Table String Variable} {vars : Table String Value}
    {e : String × Value} (h : e ∈ declared.foldl applyDefault vars) :
    e ∈ vars ∨ ∃ x ∈ declared, x.2.default = some e.2 := by
  induction declared generalizing vars with
  | nil => exact .inl h
  | cons x declared ih =>
    rcases ih h with h | ⟨y, hy, hdefault⟩
    · exact (mem_of_mem_applyDefault h).imp_right fun hx => ⟨x, List.mem_cons_self, hx⟩
    · exact .inr ⟨y, List.mem_cons_of_mem _ hy, hdefault⟩

/-- The variables that a run starts with come from the context, from the caller and from the
declared defaults. -/
theorem mem_of_mem_seedVariables {d : Definition} {supplied vars : Table String Value}
    {e : String × Value} (h : e ∈ seedVariables d supplied vars) :
    e ∈ vars ∨ e ∈ supplied ∨ ∃ x ∈ d.declared, x.2.default = some e.2 := by
  rcases mem_of_mem_foldl_applyDefault h with h | h
  · exact (Table.mem_of_mem_update h).imp_right .inl
  · exact .inr (.inr h)

theorem get?_applyDefault (vars : Table String Value) (e : String × Variable) (name : String) :
    (applyDefault vars e).get? name =
      if e.1 = name then (vars.get? name).or e.2.default else vars.get? name := by
  unfold applyDefault Table.has
  cases e.2.default with
  | none => simp
  | some v =>
    by_cases hname : e.1 = name
    · subst hname
      cases hvars : vars.get? e.1 <;> simp [hvars, Table.get?_set_self]
    · rw [if_neg hname]
      dsimp only
      split
      · rfl
      · exact Table.get?_set_of_ne vars v hname

theorem get?_foldl_applyDefault {declared : Table String Variable} (hkeys : declared.keys.Nodup)
    (vars : Table String Value) (name : String) :
    (declared.foldl applyDefault vars).get? name =
      (vars.get? name).or ((declared.get? name).bind Variable.default) := by
  induction declared generalizing vars with
  | nil => simp
  | cons e r ih =>
    obtain ⟨k, v⟩ := e
    obtain ⟨hnotMem, hkeys⟩ := List.nodup_cons.1 hkeys
    rw [List.foldl_cons, ih hkeys, get?_applyDefault, Table.get?]
    by_cases hk : k = name
    · subst hk
      simp [Table.get?_eq_none_iff.2 hnotMem]
    · simp [hk]

theorem applyDefault_of_get? {vars : Table String Value} {e : String × Variable}
    (h : ∀ v, e.2.default = some v → vars.has e.1 = true) : applyDefault vars e = vars := by
  unfold applyDefault
  split
  · next v hv => rw [if_pos (h v hv)]
  · rfl

end Runbook
