import Runbook.Proofs.Yaml.Meaning
import Runbook.Schema.Document

/-!
# Documents that are read back

Of a document that is made of JSON values and can be written, only the texts decide whether it is
read back: `read_write_fields`.
-/

namespace Runbook
namespace Yaml

open Value (isPlain arePlain havePlain ofFields)

mutual

/-- Whether all texts of a value can be read back from where they are written; the places are those
of `isKept`. -/
def isLegible (opened : Bool) (n : Nat) : Value → Bool
  | .scalar (.str s) => Pen.keeps (n + 2) false s
  | .scalar (.wild _) => false
  | .scalar _ => true
  | .list items => areLegible (if opened then n + 2 else n) items
  | .mapping entries => haveLegible (n + 2) entries
  | _ => true

/-- The same for the items of a sequence. -/
def areLegible (n : Nat) : List Value → Bool
  | [] => true
  | v :: r => isLegible true n v && areLegible n r

/-- The same for the entries of a mapping, their keys among the texts. -/
def haveLegible (n : Nat) : List (Scalar × Value) → Bool
  | [] => true
  | (.str s, v) :: r =>
    Pen.keeps (n + 2) (isShortKey s) s && isLegible (!isShortKey s) n v && haveLegible n r
  | (_, v) :: r => isLegible true n v && haveLegible n r

end

theorem isLegible_of_areLegible {n : Nat} {items : List Value} (h : areLegible n items) :
    ∀ v ∈ items, isLegible true n v := by
  induction items with
  | nil => simp
  | cons v r ih =>
    rw [areLegible, Bool.and_eq_true] at h
    exact List.forall_mem_cons.2 ⟨h.1, ih h.2⟩

theorem isLegible_of_haveLegible {n : Nat} {fields : List (String × Value)}
    (h : haveLegible n (fields.map fun e => (.str e.1, e.2))) :
    ∀ e ∈ fields, isLegible (!isShortKey e.1) n e.2 := by
  induction fields with
  | nil => simp
  | cons e r ih =>
    rw [List.map_cons, haveLegible, Bool.and_eq_true, Bool.and_eq_true] at h
    exact List.forall_mem_cons.2 ⟨h.1.2, ih h.2⟩

/-- A plain form whose texts can be read back is made of JSON values. -/
theorem isPlain_of_isLegible {opened : Bool} {n : Nat} {v : Value} (hv : v.IsForm)
    (h : isLegible opened n v) : v.isPlain := by
  induction hv generalizing opened n with
  | @scalar s hs =>
    cases s with
    | wild codes => cases h
    | _ => exact hs
  | list _ ih =>
    rw [isLegible] at h
    exact Value.arePlain_iff.2 fun v hv => ih v hv (isLegible_of_areLegible h v hv)
  | fields hkeys _ ih =>
    rw [ofFields, isLegible] at h
    exact Value.isPlain_ofFields (fun e he => ih e he (isLegible_of_haveLegible h e he)) hkeys

theorem isKept_scalar {opened : Bool} {n : Nat} {s : Scalar} (hplain : s.isPlain)
    (hwritable : isWritable (.scalar s)) (h : isLegible opened n (.scalar s)) :
    isKept opened n (.scalar s) := by
  cases s with
  | str s => exact h
  | null => rfl
  | bool b => rfl
  | int k => exact hwritable
  | float x => exact hplain
  | _ => cases hplain

mutual

/-- A value made of JSON values that can be written is kept if its texts are. -/
theorem isKept_of_isLegible {opened : Bool} {n : Nat} :
    (v : Value) → isPlain v → isWritable v → isLegible opened n v → isKept opened n v
  | .scalar s, hplain, hwritable, h => by
    rw [isPlain] at hplain
    exact isKept_scalar hplain hwritable h
  | .list items, hplain, hwritable, h => by
    rw [isPlain] at hplain
    rw [isWritable] at hwritable
    rw [isLegible] at h
    rw [isKept]
    exact areKept_of_areLegible items hplain hwritable h
  | .mapping entries, hplain, hwritable, h => by
    rw [isPlain, Bool.and_eq_true] at hplain
    rw [isWritable] at hwritable
    rw [isLegible] at h
    rw [isKept]
    exact haveKept_of_haveLegible entries hplain.1 hwritable h
  | .set _, hplain, _, _ => by cases hplain
  | .pair _ _, hplain, _, _ => by cases hplain
  | .endless _, hplain, _, _ => by cases hplain

/-- The same for items. -/
theorem areKept_of_areLegible {n : Nat} :
    (vs : List Value) → arePlain vs → areWritable vs → areLegible n vs → areKept n vs
  | [], _, _, _ => rfl
  | v :: r, hplain, hwritable, h => by
    rw [arePlain, Bool.and_eq_true] at hplain
    rw [areWritable, Bool.and_eq_true] at hwritable
    rw [areLegible, Bool.and_eq_true] at h
    rw [areKept, Bool.and_eq_true]
    exact ⟨isKept_of_isLegible v hplain.1 hwritable.1 h.1,
      areKept_of_areLegible r hplain.2 hwritable.2 h.2⟩

/-- The same for entries. -/
theorem haveKept_of_haveLegible {n : Nat} :
    (es : List (Scalar × Value)) → havePlain es → haveWritable es → haveLegible n es →
      haveKept n es
  | [], _, _, _ => rfl
  | (.str key, v) :: r, hplain, hwritable, h => by
    rw [havePlain, Bool.and_eq_true] at hplain
    rw [haveWritable, Bool.and_eq_true] at hwritable
    rw [haveLegible, Bool.and_eq_true, Bool.and_eq_true] at h
    rw [haveKept, Bool.and_eq_true, Bool.and_eq_true]
    obtain ⟨⟨hkey, hvalue⟩, hr⟩ := h
    exact ⟨⟨hkey, isKept_of_isLegible v hplain.1 hwritable.1 hvalue⟩,
      haveKept_of_haveLegible r hplain.2 hwritable.2 hr⟩

end

/-- **A document whose texts can be read back is read back**, if there is room for its levels. -/
theorem read_write_fields [Stack] {fields : List (String × Value)}
    (hplain : (ofFields fields).isPlain) (hwritable : isWritable (ofFields fields))
    (hne : fields ≠ []) (hroom : (ofFields fields).levels ≤ Stack.yaml)
    (h : haveLegible 0 (fields.map fun e => (.str e.1, e.2))) :
    read (write (ofFields fields)).toList = .ok (ofFields fields) := by
  have hentries := hplain
  rw [ofFields, isPlain, Bool.and_eq_true] at hentries
  rw [ofFields, isWritable] at hwritable
  have hkept := haveKept_of_haveLegible _ hentries.1 hwritable h
  exact read_write hplain hkept (by simpa using hne) hroom

end Yaml
end Runbook
