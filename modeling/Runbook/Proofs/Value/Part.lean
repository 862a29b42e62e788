import Runbook.Proofs.Json.Value
import Runbook.Value.Depth

/-!
# Parts of values

The values that a value holds, at any depth (`Value.HasPart`), itself among them. The keys of a
mapping are not among its parts. In a document (`Value.IsDocument`) no mapping has two members under
one key.
-/

namespace Runbook
namespace Value

/-- Whether a value holds another one, or is that one. -/
inductive HasPart : Value → Value → Prop
  | self (v : Value) : HasPart v v
  | item {items : List Value} {v w : Value} (hv : v ∈ items) (h : HasPart v w) :
    HasPart (list items) w
  | member {entries : List (Scalar × Value)} {e : Scalar × Value} {w : Value} (he : e ∈ entries)
    (h : HasPart e.2 w) : HasPart (mapping entries) w
  | element {members : List Scalar} {s : Scalar} (hs : s ∈ members) :
    HasPart (set members) (scalar s)
  | first {a b w : Value} (h : HasPart a w) : HasPart (pair a b) w
  | second {a b w : Value} (h : HasPart b w) : HasPart (pair a b) w

theorem HasPart.trans {u v w : Value} (huv : u.HasPart v) (hvw : v.HasPart w) : u.HasPart w := by
  induction huv with
  | self => exact hvw
  | item hv _ ih => exact .item hv (ih hvw)
  | member he _ ih => exact .member he (ih hvw)
  | element hs =>
    cases hvw
    exact .element hs
  | first _ ih => exact .first (ih hvw)
  | second _ ih => exact .second (ih hvw)

/-- A part nests no deeper than the whole. -/
theorem HasPart.depth_le [Stack] {v w : Value} (h : v.HasPart w) : w.depth ≤ v.depth := by
  induction h with
  | self => exact Nat.le_refl _
  | item hv _ ih => exact Nat.le_trans ih (Nat.le_trans (depth_le_itemsDepth hv) (Nat.le_succ _))
  | member he _ ih =>
    exact Nat.le_trans ih (Nat.le_trans (depth_le_entriesDepth he) (Nat.le_succ _))
  | element hs => exact depth_member_le hs
  | first _ ih => exact Nat.le_trans ih (Nat.le_trans (Nat.le_max_left _ _) (Nat.le_succ _))
  | second _ ih => exact Nat.le_trans ih (Nat.le_trans (Nat.le_max_right _ _) (Nat.le_succ _))

theorem hasPart_of_lookup {entries : List (Scalar × Value)} {key : String} {v : Value}
    (h : lookup entries key = some v) : (mapping entries).HasPart v :=
  .member (mem_of_lookup h) (.self v)

/-- The parts of a value of JSON are values of JSON. -/
theorem IsJson.of_hasPart {v w : Value} (h : v.IsJson) (hw : v.HasPart w) : w.IsJson := by
  induction hw with
  | self => exact h
  | item hv _ ih => exact ih (h.of_list _ hv)
  | member he _ ih => exact ih (h.of_mapping _ he).2
  | element _ => cases h
  | first _ _ => cases h
  | second _ _ => cases h

/-! ### Distinct keys -/

section Lookup

variable {entries : List (Scalar × Value)} {key : String} {v : Value}

/-- The member of an entry is found if no other entry has its key. -/
theorem lookup_of_mem (hkeys : (entries.map Prod.fst).Nodup) (h : (.str key, v) ∈ entries) :
    lookup entries key = some v := by
  induction entries with
  | nil => cases h
  | cons e r ih =>
    obtain ⟨hfresh, hr⟩ := List.nodup_cons.1 hkeys
    rw [lookup]
    split
    · next hk =>
      obtain rfl | h := List.mem_cons.1 h
      · rfl
      · exact absurd (List.mem_map.2 ⟨_, h, hk.symm⟩) hfresh
    · next hk =>
      obtain rfl | h := List.mem_cons.1 h
      · exact absurd rfl hk
      · exact ih hr h

theorem exists_lookup_of_mem (h : (.str key, v) ∈ entries) : ∃ w, lookup entries key = some w := by
  induction entries with
  | nil => cases h
  | cons e r ih =>
    rw [lookup]
    split
    · exact ⟨_, rfl⟩
    · next hk =>
      obtain rfl | h := List.mem_cons.1 h
      · exact absurd rfl hk
      · exact ih h

end Lookup

/-- Whether a value is one of JSON in which no mapping has two members under one key. -/
structure IsDocument (v : Value) : Prop where
  json : v.IsJson
  distinct : ∀ m, v.HasPart (mapping m) → (m.map Prod.fst).Nodup

theorem IsDocument.of_hasPart {v w : Value} (h : v.IsDocument) (hw : v.HasPart w) : w.IsDocument :=
  ⟨h.json.of_hasPart hw, fun m hm => h.distinct m (hw.trans hm)⟩

theorem IsDocument.of_lookup {entries : List (Scalar × Value)} (h : (mapping entries).IsDocument)
    {key : String} {v : Value} (hv : lookup entries key = some v) : v.IsDocument :=
  h.of_hasPart (hasPart_of_lookup hv)

end Value
end Runbook
