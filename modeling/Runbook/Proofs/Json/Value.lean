import Runbook.Path
import Runbook.Proofs.Binary64
import Runbook.Value.Coercion

/-!
# JSON values

The values of JSON documents (`Value.IsJson`) and when they have no text or no truth value. A
computation that can only fail with one fault is described by when it does (`FailsIff`):

* `failsIff_text`, `failsIff_stringify`: a collection has no text when an integer of more than
  `numeralLimit` digits is part of it;
* `failsIff_isTruthy`: an integer has no truth value from `pow2 1024 - pow2 970` on, up to the sign.
-/

namespace Runbook

/-- Whether a scalar is one of JSON. -/
def Scalar.IsJson : Scalar → Prop
  | null | bool _ | int _ | float _ | str _ => True
  | _ => False

/-- Whether a scalar is of a kind that JSON lacks. -/
def Scalar.IsForeign : Scalar → Prop
  | date _ | moment _ | bytes _ => True
  | _ => False

theorem Scalar.IsJson.not_isForeign {s : Scalar} (h : s.IsJson) : ¬ s.IsForeign := by
  cases s with
  | date | moment | bytes => exact h.elim
  | _ => exact id

namespace Value

/-- Whether a value is made of the scalars of JSON, lists, and mappings from texts. -/
inductive IsJson : Value → Prop
  | scalar {s : Scalar} (h : s.IsJson) : IsJson (scalar s)
  | list {items : List Value} (h : ∀ v ∈ items, IsJson v) : IsJson (list items)
  | mapping {entries : List (Scalar × Value)} (hk : ∀ e ∈ entries, ∃ key, e.1 = .str key)
    (hv : ∀ e ∈ entries, IsJson e.2) : IsJson (mapping entries)

/-- Whether a value is one of JSON, but that its texts may have unpaired surrogates. -/
inductive IsRawJson : Value → Prop
  | scalar {s : Scalar} (h : ¬ s.IsForeign) : IsRawJson (scalar s)
  | list {items : List Value} (h : ∀ v ∈ items, IsRawJson v) : IsRawJson (list items)
  | mapping {entries : List (Scalar × Value)} (hk : ∀ e ∈ entries, ∃ t, e.1 = .ofText t)
    (hv : ∀ e ∈ entries, IsRawJson e.2) : IsRawJson (mapping entries)

/-- Whether an integer of more than `numeralLimit` digits is part of a value. -/
inductive HoldsLong : Value → Prop
  | int {n : Int} (h : pow10 numeralLimit ≤ n.natAbs) : HoldsLong (int n)
  | item {items : List Value} {v : Value} (hv : v ∈ items) (h : HoldsLong v) :
    HoldsLong (list items)
  | member {entries : List (Scalar × Value)} {e : Scalar × Value} (he : e ∈ entries)
    (h : HoldsLong e.2) : HoldsLong (mapping entries)

/-- Whether a value is a collection that an integer of more than `numeralLimit` digits is part of.
-/
def IsOverlong (v : Value) : Prop :=
  (∀ s, v ≠ scalar s) ∧ v.HoldsLong

/-- Whether a value is an integer beyond every binary64 number. -/
def IsHuge (v : Value) : Prop :=
  ∃ n : Int, v = int n ∧ pow2 1024 - pow2 970 ≤ n.natAbs

/-! ### Parts of JSON values -/

theorem isJson_str (s : String) : (str s).IsJson := .scalar trivial

theorem IsJson.of_mapping {entries : List (Scalar × Value)} (h : (Value.mapping entries).IsJson) :
    ∀ e ∈ entries, (∃ key, e.1 = .str key) ∧ e.2.IsJson := by
  cases h with
  | mapping hk hv => exact fun e he => ⟨hk e he, hv e he⟩

theorem IsJson.of_list {items : List Value} (h : (Value.list items).IsJson) :
    ∀ v ∈ items, v.IsJson := by
  cases h with
  | list h => exact h

theorem mem_of_lookup {entries : List (Scalar × Value)} {key : String} {v : Value}
    (h : lookup entries key = some v) : (.str key, v) ∈ entries := by
  induction entries with
  | nil => simp [lookup] at h
  | cons e r ih =>
    rw [lookup] at h
    split at h
    · next hk =>
      simp only [Option.some.injEq] at h
      subst h
      exact List.mem_cons.2 (.inl (Prod.ext hk.symm rfl))
    · exact List.mem_cons_of_mem _ (ih h)

theorem IsJson.of_lookup {entries : List (Scalar × Value)} (h : ∀ e ∈ entries, e.2.IsJson)
    {key : String} {v : Value} (hv : lookup entries key = some v) : v.IsJson :=
  h _ (mem_of_lookup hv)

/-- What the members of mappings inherit is inherited along keys. -/
theorem follow_inherits {p : Value → Prop}
    (hmember : ∀ {entries : List (Scalar × Value)} {e : Scalar × Value}, e ∈ entries →
      p (mapping entries) → p e.2)
    {v w : Value} {keys : List String} (h : p v) (hw : v.follow keys = some w) : p w := by
  induction keys generalizing v with
  | nil =>
    cases hw
    exact h
  | cons key keys ih =>
    obtain ⟨u, hu, hrest⟩ := Option.bind_eq_some_iff.1 hw
    cases v with
    | mapping entries =>
      have hpu : p u := hmember (mem_of_lookup hu) h
      exact ih hpu hrest
    | _ => cases hu

/-- A path leads from JSON values to JSON values. -/
theorem IsJson.resolve {v w : Value} {path : String} (h : v.IsJson)
    (hw : v.resolve path = some w) : w.IsJson :=
  follow_inherits (fun he h => (h.of_mapping _ he).2) h hw

theorem IsJson.isRawJson {v : Value} (h : v.IsJson) : v.IsRawJson := by
  induction h with
  | scalar h => exact .scalar h.not_isForeign
  | list _ ih => exact .list ih
  | mapping hk _ ih =>
    refine .mapping (fun e he => ?_) ih
    obtain ⟨key, hkey⟩ := hk e he
    exact ⟨.str key, hkey⟩

theorem IsRawJson.of_list {items : List Value} (h : (Value.list items).IsRawJson) :
    ∀ v ∈ items, v.IsRawJson := by
  cases h with
  | list h => exact h

theorem IsRawJson.of_mapping {entries : List (Scalar × Value)}
    (h : (Value.mapping entries).IsRawJson) : ∀ e ∈ entries, e.2.IsRawJson := by
  cases h with
  | mapping _ hv => exact hv

theorem isJson_ofFields {fields : List (String × Value)} (h : ∀ e ∈ fields, e.2.IsJson) :
    (ofFields fields).IsJson := by
  refine .mapping ?_ ?_ <;> intro e he <;> obtain ⟨f, hf, rfl⟩ := List.mem_map.1 he
  · exact ⟨_, rfl⟩
  · exact h f hf

end Value

/-! ### Faults -/

/-- Whether a computation fails with a fault exactly under a condition. -/
def FailsIff {α : Type} (x : Except Fault α) (f : Fault) (p : Prop) : Prop :=
  (p → x = .error f) ∧ (¬ p → ∃ a, x = .ok a)

namespace FailsIff

variable {α β : Type} {x : Except Fault α} {f : Fault} {p q : Prop}

theorem ok {a : α} (h : ¬ p) : FailsIff (.ok a : Except Fault α) f p :=
  ⟨fun hp => absurd hp h, fun _ => ⟨a, rfl⟩⟩

theorem of_iff (h : FailsIff x f p) (hpq : p ↔ q) : FailsIff x f q :=
  ⟨fun hq => h.1 (hpq.2 hq), fun hq => h.2 fun hp => hq (hpq.1 hp)⟩

theorem bind {g : α → Except Fault β} (h : FailsIff x f p) (hg : ∀ a, FailsIff (g a) f q) :
    FailsIff (x >>= g) f (p ∨ q) := by
  by_cases hp : p
  · rw [h.1 hp]
    exact ⟨fun _ => rfl, fun hn => absurd (.inl hp) hn⟩
  · obtain ⟨a, rfl⟩ := h.2 hp
    exact (hg a).of_iff (by simp [hp])

theorem map (h : FailsIff x f p) (g : α → β) : FailsIff (x.map g) f p := by
  by_cases hp : p
  · rw [h.1 hp]
    exact ⟨fun _ => rfl, fun hn => absurd hp hn⟩
  · obtain ⟨a, rfl⟩ := h.2 hp
    exact .ok hp

/-- A computation that goes through a list fails when one of its members does. -/
theorem list {γ : Type} {g : List α → Except Fault γ} {step : α → Except Fault β}
    {put : α → β → γ → γ} {start : γ} {fails : α → Prop} {l : List α} (hnil : g [] = .ok start)
    (hcons : ∀ a r, g (a :: r) = (do
      let first ← step a
      let others ← g r
      return put a first others))
    (h : ∀ a ∈ l, FailsIff (step a) f (fails a)) : FailsIff (g l) f (∃ a ∈ l, fails a) := by
  induction l with
  | nil =>
    rw [hnil]
    exact .ok (by simp)
  | cons a r ih =>
    have hr := ih fun b hb => h b (List.mem_cons_of_mem _ hb)
    rw [hcons]
    refine ((h a List.mem_cons_self).bind fun first =>
      hr.bind fun others => .ok not_false).of_iff ?_
    simp

end FailsIff

/-! ### Texts -/

namespace Json

theorem length_toDigits_le_iff {n k : Nat} (h : 0 < k) :
    (Nat.toDigits 10 n).length ≤ k ↔ n < pow10 k :=
  Nat.length_toDigits_le_iff (by decide) h

theorem failsIff_intText (n : Int) :
    FailsIff (intText .compact n) .tooLong (pow10 numeralLimit ≤ n.natAbs) := by
  have hdigits : (Runbook.intText n).toList.filter Char.isDigit = Nat.toDigits 10 n.natAbs := by
    have hall : ∀ c ∈ Nat.toDigits 10 n.natAbs, c.isDigit = true := fun c hc =>
      Nat.isDigit_of_mem_toDigits (by decide) (by decide) hc
    have hsign : (if n < 0 then "-" else "").toList.filter Char.isDigit = [] := by
      split <;> rfl
    rw [Runbook.intText, String.toList_append, List.filter_append, hsign, String.toList_ofList,
      List.nil_append, List.filter_eq_self.2 hall]
  have hlength : numeralLimit < (Nat.toDigits 10 n.natAbs).length ↔
      pow10 numeralLimit ≤ n.natAbs := by
    rw [← Nat.not_le, length_toDigits_le_iff (by decide), Nat.not_lt]
  simp only [intText, Style.compact, hdigits]
  split
  · next h => exact ⟨fun _ => rfl, fun hn => absurd (hlength.1 h) hn⟩
  · next h => exact .ok fun hp => h (hlength.2 hp)

theorem failsIff_itemsText {items : List Value}
    (h : ∀ v ∈ items, FailsIff (text .compact v) .tooLong v.HoldsLong) :
    FailsIff (itemsText .compact items) .tooLong (∃ v ∈ items, v.HoldsLong) := by
  induction items with
  | nil => exact .ok (by simp)
  | cons v r ih =>
    have hv := h v List.mem_cons_self
    have hr := ih fun w hw => h w (List.mem_cons_of_mem _ hw)
    cases r with
    | nil =>
      -- no separator after the last item
      exact hv.of_iff (by simp)
    | cons w r =>
      refine (hv.bind fun first => hr.bind fun others => .ok not_false).of_iff ?_
      simp

theorem failsIff_entriesText {entries : List (Scalar × Value)}
    (hk : ∀ e ∈ entries, ∃ key, e.1 = .str key)
    (h : ∀ e ∈ entries, FailsIff (text .compact e.2) .tooLong e.2.HoldsLong) :
    FailsIff (entriesText .compact entries) .tooLong (∃ e ∈ entries, e.2.HoldsLong) := by
  induction entries with
  | nil => exact .ok (by simp)
  | cons e r ih =>
    obtain ⟨k, v⟩ := e
    obtain ⟨key, rfl⟩ : ∃ key, k = .str key := hk (k, v) List.mem_cons_self
    have hv : FailsIff (text .compact v) .tooLong v.HoldsLong := h _ List.mem_cons_self
    have hr := ih (fun e he => hk e (List.mem_cons_of_mem _ he))
      fun e he => h e (List.mem_cons_of_mem _ he)
    cases r with
    | nil =>
      refine (hv.bind fun value => .ok not_false).of_iff ?_
      simp
    | cons e r =>
      refine (hv.bind fun value => hr.bind fun others => .ok not_false).of_iff ?_
      simp

/-- **The text of a JSON value** fails when the value holds an integer that is too long. -/
theorem failsIff_text {v : Value} (h : v.IsJson) :
    FailsIff (text .compact v) .tooLong v.HoldsLong := by
  induction h with
  | @scalar s h =>
    cases s with
    | int n =>
      refine (failsIff_intText n).of_iff ⟨.int, fun h => ?_⟩
      cases h with
      | int h => exact h
    | null => exact .ok nofun
    | bool b => exact .ok nofun
    | float x => exact .ok nofun
    | str s => exact .ok nofun
    | wild codes => exact h.elim
    | date d => exact h.elim
    | moment t => exact h.elim
    | bytes b => exact h.elim
  | @list items h ih =>
    refine ((failsIff_itemsText ih).bind fun s => .ok not_false).of_iff ?_
    rw [or_false]
    constructor
    · rintro ⟨v, hv, hlong⟩
      exact .item hv hlong
    · intro hlong
      cases hlong with
      | item hv h => exact ⟨_, hv, h⟩
  | @mapping entries hk hv ih =>
    refine ((failsIff_entriesText hk ih).bind fun s => .ok not_false).of_iff ?_
    rw [or_false]
    constructor
    · rintro ⟨e, he, hlong⟩
      exact .member he hlong
    · intro hlong
      cases hlong with
      | member he h => exact ⟨_, he, h⟩

end Json

namespace Value

/-- **The text of a JSON value in a placeholder** fails when the value is a collection that holds an
integer that is too long. -/
theorem failsIff_stringify {v : Value} (h : v.IsJson) :
    FailsIff v.stringify .tooLong v.IsOverlong := by
  cases h with
  | @scalar s h =>
    have hscalar : ¬ (scalar s).IsOverlong := fun hn => hn.1 s rfl
    cases s <;> exact .ok hscalar
  | @list items h =>
    exact (Json.failsIff_text (.list h)).of_iff ⟨fun hl => ⟨nofun, hl⟩, And.right⟩
  | @mapping entries hk hv =>
    exact (Json.failsIff_text (.mapping hk hv)).of_iff ⟨fun hl => ⟨nofun, hl⟩, And.right⟩

/-- **The truth of a value** fails for the integers beyond every binary64 number. -/
theorem failsIff_isTruthy (v : Value) : FailsIff v.isTruthy .tooLarge v.IsHuge := by
  unfold isTruthy
  split
  case h_3 n =>
    by_cases hn : (Binary64.ofInt n).isFinite = true
    · rw [if_pos hn]
      refine .ok ?_
      rintro ⟨m, hm, hhuge⟩
      cases hm
      rw [isFinite_ofInt_iff] at hn
      omega
    · rw [if_neg hn]
      rw [isFinite_ofInt_iff] at hn
      exact ⟨fun _ => rfl, fun hh => absurd ⟨n, rfl, by omega⟩ hh⟩
  all_goals
    refine .ok ?_
    rintro ⟨m, hm, -⟩
    simp_all

end Value
end Runbook
