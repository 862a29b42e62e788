import Mathlib.Data.List.Nodup
import Runbook.Proofs.Value.Part
import Runbook.Schema.Document

/-!
# Plain values

What has a plain form has one made of JSON values (`Value.IsForm`): text keys, none twice, and no
number that is not finite. Only a text with unpaired surrogates stays as it is as well. Such a value
is its own plain form if it does not nest too deep.
-/

namespace Runbook

/-! ### Results -/

section Results

variable {α β ε : Type} {x : Except ε α} {a : α} {b : β}

theorem map_eq_ok {f : α → β} (h : x.map f = .ok b) : ∃ a, x = .ok a ∧ f a = b := by
  cases x with
  | error e => cases h
  | ok a => exact ⟨a, rfl, Except.ok.inj h⟩

theorem bind_eq_ok {f : α → Except ε β} (h : x >>= f = .ok b) : ∃ a, x = .ok a ∧ f a = .ok b := by
  cases x with
  | error e => cases h
  | ok a => exact ⟨a, rfl, h⟩

theorem mapM_cons_eq_ok {f : α → Except ε β} {r : List α} {bs : List β}
    (h : (a :: r).mapM f = .ok bs) : ∃ b r', f a = .ok b ∧ r.mapM f = .ok r' ∧ bs = b :: r' := by
  rw [List.mapM_cons] at h
  obtain ⟨b, hb, h⟩ := bind_eq_ok h
  obtain ⟨r', hr, h⟩ := bind_eq_ok h
  exact ⟨b, r', hb, hr, (Except.ok.inj h).symm⟩

theorem forall₂_of_mapM {f : α → Except ε β} {l : List α} {bs : List β} (h : l.mapM f = .ok bs) :
    List.Forall₂ (fun a b => f a = .ok b) l bs := by
  induction l generalizing bs with
  | nil =>
    obtain rfl := Except.ok.inj h
    exact .nil
  | cons a r ih =>
    obtain ⟨b, r', hb, hr, rfl⟩ := mapM_cons_eq_ok h
    exact .cons hb (ih hr)

theorem exists_of_mem_mapM {f : α → Except ε β} {l : List α} {bs : List β} (h : l.mapM f = .ok bs)
    (hb : b ∈ bs) : ∃ a ∈ l, f a = .ok b := by
  induction l generalizing bs with
  | nil =>
    obtain rfl := Except.ok.inj h
    simp at hb
  | cons a r ih =>
    obtain ⟨b', r', hb', hr, rfl⟩ := mapM_cons_eq_ok h
    rcases List.mem_cons.1 hb with rfl | hb
    · exact ⟨a, List.mem_cons_self, hb'⟩
    · obtain ⟨a', ha', hf⟩ := ih hr hb
      exact ⟨a', List.mem_cons_of_mem _ ha', hf⟩

theorem map_eq_ok_iff {f : α → β} : x.map f = .ok b ↔ ∃ a, x = .ok a ∧ f a = b :=
  ⟨map_eq_ok, by rintro ⟨a, rfl, rfl⟩; rfl⟩

theorem bind_eq_ok_iff {f : α → Except ε β} : x >>= f = .ok b ↔ ∃ a, x = .ok a ∧ f a = .ok b :=
  ⟨bind_eq_ok, by rintro ⟨a, rfl, h⟩; exact h⟩

theorem pair_eq_ok_iff {y : Except ε β} {e : α × β} :
    (do return (← x, ← y)) = .ok e ↔ x = .ok e.1 ∧ y = .ok e.2 := by
  simp only [bind_eq_ok_iff]
  constructor
  · rintro ⟨a, ha, b, hb, he⟩
    obtain rfl := Except.ok.inj he
    exact ⟨ha, hb⟩
  · rintro ⟨hx, hy⟩
    exact ⟨e.1, hx, e.2, hy, rfl⟩

/-- Parts that can only become themselves, each under some condition. -/
theorem mapM_eq_ok_iff {f : α → Except ε α} {p : α → Prop} {l l' : List α}
    (h : ∀ a ∈ l, ∀ b, f a = .ok b ↔ b = a ∧ p a) :
    l.mapM f = .ok l' ↔ l' = l ∧ ∀ a ∈ l, p a := by
  induction l generalizing l' with
  | nil => simp [pure, Except.pure, eq_comm]
  | cons a r ih =>
    have ih : ∀ r' : List α, r.mapM f = .ok r' ↔ r' = r ∧ ∀ b ∈ r, p b :=
      fun _ => ih fun b hb => h b (List.mem_cons_of_mem _ hb)
    simp only [List.mapM_cons, bind_eq_ok_iff, h a List.mem_cons_self, ih, List.forall_mem_cons]
    constructor
    · rintro ⟨_, ⟨rfl, ha⟩, _, ⟨rfl, hr⟩, he⟩
      exact ⟨(Except.ok.inj he).symm, ha, hr⟩
    · rintro ⟨rfl, ha, hr⟩
      exact ⟨a, ⟨rfl, ha⟩, r, ⟨rfl, hr⟩, rfl⟩

end Results

/-! ### Values made of JSON values -/

/-- Whether a scalar is a JSON value. -/
def Scalar.isPlain : Scalar → Bool
  | null | bool _ | int _ | str _ => true
  | float x => x.isFinite
  | _ => false

namespace Value

mutual

/-- Whether a value is made of JSON values. -/
def isPlain : Value → Bool
  | scalar s => s.isPlain
  | list items => arePlain items
  | mapping entries => havePlain entries && decide (entries.map Prod.fst).Nodup
  | _ => false

/-- Whether all items are made of JSON values. -/
def arePlain : List Value → Bool
  | [] => true
  | v :: r => isPlain v && arePlain r

/-- Whether all entries are values made of JSON values under text keys. -/
def havePlain : List (Scalar × Value) → Bool
  | [] => true
  | (.str _, v) :: r => isPlain v && havePlain r
  | _ => false

end

theorem havePlain_ofFields {fields : List (String × Value)} (h : ∀ e ∈ fields, isPlain e.2) :
    havePlain (fields.map fun e => (.str e.1, e.2)) := by
  induction fields with
  | nil => rfl
  | cons e r ih =>
    rw [List.map_cons, havePlain, h e List.mem_cons_self,
      ih fun e he => h e (List.mem_cons_of_mem _ he)]
    rfl

theorem map_fst_ofFields (fields : List (String × Value)) :
    (fields.map fun e => ((.str e.1, e.2) : Scalar × Value)).map Prod.fst =
      (Table.keys fields).map .str := by
  simp [Table.keys]

theorem isPlain_ofFields {fields : List (String × Value)} (h : ∀ e ∈ fields, isPlain e.2)
    (hkeys : (Table.keys fields).Nodup) : (ofFields fields).isPlain := by
  rw [ofFields, isPlain, havePlain_ofFields h, Bool.true_and, decide_eq_true_eq, map_fst_ofFields]
  exact hkeys.map fun _ _ h => Scalar.str.inj h

/-- The entries of a plain mapping are fields. -/
theorem exists_fields {entries : List (Scalar × Value)} (h : havePlain entries) :
    ∃ fields : List (String × Value), entries = fields.map fun e => (.str e.1, e.2) := by
  induction entries with
  | nil => exact ⟨[], rfl⟩
  | cons e r ih =>
    obtain ⟨k, v⟩ := e
    cases k with
    | str k =>
      rw [havePlain, Bool.and_eq_true] at h
      obtain ⟨fields, rfl⟩ := ih h.2
      exact ⟨(k, v) :: fields, rfl⟩
    | _ => simp [havePlain] at h

end Value

namespace Table

variable {κ α : Type} [BEq κ] [LawfulBEq κ]

theorem nodup_keys_update {t : Table κ α} (h : t.keys.Nodup) (u : Table κ α) :
    (update t u).keys.Nodup := by
  induction u generalizing t with
  | nil => exact h
  | cons e u ih => exact ih (nodup_keys_set h e.1 e.2)

theorem nodup_keys_ofEntries (entries : List (κ × α)) : (ofEntries entries).keys.Nodup :=
  nodup_keys_update (t := []) List.nodup_nil entries

/-- Entries under distinct keys are a table. -/
theorem update_of_nodup {t u : Table κ α} (h : (t ++ u).keys.Nodup) : update t u = t ++ u := by
  induction u generalizing t with
  | nil => simp [update]
  | cons e u ih =>
    have hfresh : e.1 ∉ t.keys := by
      rw [keys, List.map_append, List.nodup_append] at h
      exact fun hmem => h.2.2 e.1 hmem e.1 (by simp) rfl
    have hset : update t (e :: u) = update (t ++ [e]) u := by
      rw [update, List.foldl_cons, set_of_not_mem _ hfresh]
      rfl
    rw [hset, ih (by simpa using h)]
    simp

theorem ofEntries_of_nodup {entries : List (κ × α)} (h : (Table.keys entries).Nodup) :
    ofEntries entries = entries :=
  update_of_nodup (t := []) h

end Table

/-! ### Scalars -/

/-- Whether a scalar can be a plain form. -/
def Scalar.isForm : Scalar → Bool
  | wild _ => true
  | s => s.isPlain

theorem Scalar.isForm_plain {s s' : Scalar} (h : s.plain = .ok s') : s'.isForm := by
  cases s with
  | float x =>
    obtain rfl := Except.ok.inj h
    split <;> simp_all [isForm, isPlain]
  | bytes b =>
    rw [plain] at h
    split at h
    · obtain rfl := Except.ok.inj h
      rfl
    · cases h
  | _ =>
    obtain rfl := Except.ok.inj h
    rfl

theorem Scalar.plain_of_isForm {s : Scalar} (h : s.isForm) : s.plain = .ok s := by
  cases s with
  | float x =>
    rw [isForm, isPlain] at h
    · rw [plain, if_pos h]
    · exact nofun
  | date | moment | bytes => cases h
  | _ => rfl

theorem Scalar.isForm_of_isPlain {s : Scalar} (h : s.isPlain) : s.isForm := by
  cases s with
  | wild => rfl
  | _ => exact h

/-! ### Values made of scalars -/

namespace Value

theorem arePlain_iff {l : List Value} : arePlain l ↔ ∀ v ∈ l, v.isPlain := by
  induction l with
  | nil => simp [arePlain]
  | cons v r ih => rw [arePlain, Bool.and_eq_true, ih, List.forall_mem_cons]

theorem havePlain_iff {m : List (Scalar × Value)} :
    havePlain m ↔ ∀ e ∈ m, (∃ key, e.1 = .str key) ∧ e.2.isPlain := by
  induction m with
  | nil => simp [havePlain]
  | cons e r ih =>
    obtain ⟨k, v⟩ := e
    cases k <;> simp [havePlain, ih]

/-- The members of a plain mapping. -/
theorem isPlain_mapping {m : List (Scalar × Value)} (h : (mapping m).isPlain) :
    (m.map Prod.fst).Nodup ∧ ∀ e ∈ m, (∃ key, e.1 = .str key) ∧ e.2.isPlain := by
  rw [isPlain, Bool.and_eq_true, decide_eq_true_eq] at h
  exact ⟨h.2, havePlain_iff.1 h.1⟩

/-- Whether a value is made of some scalars, of lists and of mappings from distinct strings. -/
inductive IsMadeOf (p : Scalar → Prop) : Value → Prop
  | scalar {s : Scalar} (h : p s) : IsMadeOf p (scalar s)
  | list {items : List Value} (h : ∀ v ∈ items, IsMadeOf p v) : IsMadeOf p (list items)
  | fields {fields : List (String × Value)} (hkeys : (Table.keys fields).Nodup)
    (h : ∀ e ∈ fields, IsMadeOf p e.2) : IsMadeOf p (ofFields fields)

/-- Whether a value can be a plain form, were it not for its levels. -/
abbrev IsForm (v : Value) : Prop := v.IsMadeOf fun s => s.isForm

theorem IsMadeOf.mono {p q : Scalar → Prop} {v : Value} (h : v.IsMadeOf p) (hpq : ∀ s, p s → q s) :
    v.IsMadeOf q := by
  induction h with
  | scalar h => exact .scalar (hpq _ h)
  | list _ ih => exact .list ih
  | fields hkeys _ ih => exact .fields hkeys ih

theorem IsMadeOf.of_fields {p : Scalar → Prop} {fields : List (String × Value)}
    (h : (ofFields fields).IsMadeOf p) :
    (Table.keys fields).Nodup ∧ ∀ e ∈ fields, e.2.IsMadeOf p := by
  have hinj : Function.Injective fun e : String × Value => ((.str e.1, e.2) : Scalar × Value) :=
    fun _ _ he => Prod.ext (Scalar.str.inj (Prod.mk.inj he).1) (Prod.mk.inj he).2
  generalize hm : ofFields fields = m at h
  cases h with
  | scalar _ => cases hm
  | list _ => cases hm
  | fields hkeys h =>
    obtain rfl := List.map_injective_iff.2 hinj (mapping.inj hm)
    exact ⟨hkeys, h⟩

mutual

/-- A plain value is made of plain scalars. -/
theorem isMadeOf_of_isPlain : (v : Value) → v.isPlain → v.IsMadeOf fun s => s.isPlain
  | scalar s, h => .scalar (by rwa [isPlain] at h)
  | list l, h => .list (areMadeOf_of_isPlain l (arePlain_iff.1 h))
  | mapping m, h => by
    obtain ⟨hnodup, hentries⟩ := isPlain_mapping h
    have hmembers := haveMadeOf_of_isPlain m fun e he => (hentries e he).2
    obtain ⟨fields, rfl⟩ := exists_fields (havePlain_iff.2 hentries)
    rw [map_fst_ofFields] at hnodup
    exact .fields (hnodup.of_map _) fun e he => hmembers _ (List.mem_map_of_mem he)
  | set _, h => nomatch h
  | pair _ _, h => nomatch h
  | endless _, h => nomatch h

theorem areMadeOf_of_isPlain :
    (l : List Value) → (∀ v ∈ l, v.isPlain) → ∀ v ∈ l, v.IsMadeOf fun s => s.isPlain
  | [], _ => by simp
  | v :: r, h =>
    have h := List.forall_mem_cons.1 h
    List.forall_mem_cons.2 ⟨isMadeOf_of_isPlain v h.1, areMadeOf_of_isPlain r h.2⟩

theorem haveMadeOf_of_isPlain : (m : List (Scalar × Value)) → (∀ e ∈ m, e.2.isPlain) →
    ∀ e ∈ m, e.2.IsMadeOf fun s => s.isPlain
  | [], _ => by simp
  | (_, v) :: r, h =>
    have h := List.forall_mem_cons.1 h
    List.forall_mem_cons.2 ⟨isMadeOf_of_isPlain v h.1, haveMadeOf_of_isPlain r h.2⟩

end

theorem isForm_of_isPlain {v : Value} (h : v.isPlain) : v.IsForm :=
  (isMadeOf_of_isPlain v h).mono fun _ => Scalar.isForm_of_isPlain

/-! ### Levels -/

mutual

/-- The levels of a value, its scalars among them. -/
def levels : Value → Nat
  | scalar _ => 1
  | list items => itemsLevels items + 1
  | mapping entries => entriesLevels entries + 1
  | set members => if members.isEmpty then 1 else 2
  | pair a b => max (levels a) (levels b) + 1
  | endless _ => 1

/-- The most levels among items. -/
def itemsLevels : List Value → Nat
  | [] => 0
  | v :: r => max (levels v) (itemsLevels r)

/-- The most levels among entries. -/
def entriesLevels : List (Scalar × Value) → Nat
  | [] => 0
  | (_, v) :: r => max (levels v) (entriesLevels r)

end

theorem levels_pos (v : Value) : 0 < v.levels := by
  cases v with
  | set members =>
    rw [levels]
    split <;> decide
  | _ => exact Nat.succ_pos _

theorem itemsLevels_le {items : List Value} {n : Nat} :
    itemsLevels items ≤ n ↔ ∀ v ∈ items, v.levels ≤ n := by
  induction items with
  | nil => simp [itemsLevels]
  | cons v r ih => rw [itemsLevels, Nat.max_le, ih, List.forall_mem_cons]

theorem entriesLevels_le {entries : List (Scalar × Value)} {n : Nat} :
    entriesLevels entries ≤ n ↔ ∀ e ∈ entries, e.2.levels ≤ n := by
  induction entries with
  | nil => simp [entriesLevels]
  | cons e r ih => rw [entriesLevels, Nat.max_le, ih, List.forall_mem_cons]

theorem levels_list {items : List Value} {n : Nat} :
    (list items).levels ≤ n + 1 ↔ ∀ v ∈ items, v.levels ≤ n := by
  rw [levels, Nat.add_le_add_iff_right, itemsLevels_le]

theorem levels_ofFields {fields : List (String × Value)} {n : Nat} :
    (ofFields fields).levels ≤ n + 1 ↔ ∀ e ∈ fields, e.2.levels ≤ n := by
  rw [ofFields, levels, Nat.add_le_add_iff_right, entriesLevels_le, List.forall_mem_map]

/-! ### Plain forms -/

theorem plain_zero (v w : Value) : v.plain 0 ≠ .ok w := by
  cases v <;> exact nofun

/-- A plain form is one, and has no more levels than it may. -/
theorem isForm_plain {room : Nat} {v w : Value} (h : v.plain room = .ok w) :
    w.IsForm ∧ w.levels ≤ room := by
  induction room generalizing v w with
  | zero => exact absurd h (plain_zero v w)
  | succ room ih =>
    have hitems {items : List Value} (h : ∀ w ∈ items, ∃ v, plain room v = .ok w) :
        (list items).IsForm ∧ (list items).levels ≤ room + 1 := by
      refine ⟨.list fun w hw => ?_, levels_list.2 fun w hw => ?_⟩
      · obtain ⟨v, hv⟩ := h w hw
        exact (ih hv).1
      · obtain ⟨v, hv⟩ := h w hw
        exact (ih hv).2
    cases v with
    | scalar s =>
      obtain ⟨s', hs, rfl⟩ := map_eq_ok h
      exact ⟨.scalar (Scalar.isForm_plain hs), Nat.succ_le_succ (Nat.zero_le room)⟩
    | list items =>
      obtain ⟨ws, hws, rfl⟩ := map_eq_ok h
      refine hitems fun w hw => ?_
      obtain ⟨v, -, hv⟩ := exists_of_mem_mapM hws hw
      exact ⟨v, hv⟩
    | mapping entries =>
      obtain ⟨fields, hfields, h⟩ := bind_eq_ok h
      obtain rfl := Except.ok.inj h
      have hmember : ∀ e ∈ Table.ofEntries fields, e.2.IsForm ∧ e.2.levels ≤ room := by
        intro e he
        have he := (Table.mem_of_mem_update he).resolve_left List.not_mem_nil
        obtain ⟨e', -, hv⟩ := exists_of_mem_mapM hfields he
        exact ih (pair_eq_ok_iff.1 hv).2
      exact ⟨.fields (Table.nodup_keys_ofEntries fields) fun e he => (hmember e he).1,
        levels_ofFields.2 fun e he => (hmember e he).2⟩
    | set members =>
      obtain ⟨ws, hws, rfl⟩ := map_eq_ok h
      refine hitems fun w hw => ?_
      obtain ⟨s, -, hs⟩ := exists_of_mem_mapM hws hw
      exact ⟨scalar s, hs⟩
    | pair a b =>
      obtain ⟨a', ha, h⟩ := bind_eq_ok h
      obtain ⟨b', hb, h⟩ := bind_eq_ok h
      obtain rfl := Except.ok.inj h
      refine hitems fun w hw => ?_
      simp only [List.mem_cons, List.not_mem_nil, or_false] at hw
      obtain rfl | rfl := hw
      · exact ⟨a, ha⟩
      · exact ⟨b, hb⟩
    | endless _ => cases h

/-- **What can be a plain form is its own**, and has no other. It has one exactly if it has no more
levels than it may. -/
theorem plain_iff {room : Nat} {v w : Value} (h : v.IsForm) :
    v.plain room = .ok w ↔ w = v ∧ v.levels ≤ room := by
  induction room generalizing v w with
  | zero =>
    refine ⟨fun hw => absurd hw (plain_zero v w), fun hw => ?_⟩
    exact absurd hw.2 (Nat.not_le.2 (levels_pos v))
  | succ room ih =>
    cases h with
    | @scalar s h =>
      have hlevels : (scalar s).levels ≤ room + 1 := Nat.succ_le_succ (Nat.zero_le room)
      rw [plain, Scalar.plain_of_isForm h, and_iff_left hlevels]
      exact ⟨fun hw => (Except.ok.inj hw).symm, fun hw => congrArg Except.ok hw.symm⟩
    | @list items h =>
      rw [plain, map_eq_ok_iff, levels_list]
      simp only [mapM_eq_ok_iff fun v hv w => ih (h v hv)]
      constructor
      · rintro ⟨_, ⟨rfl, hitems⟩, rfl⟩
        exact ⟨rfl, hitems⟩
      · rintro ⟨rfl, hitems⟩
        exact ⟨items, ⟨rfl, hitems⟩, rfl⟩
    | @fields fields hkeys h =>
      have hfield : ∀ e ∈ fields, ∀ e' : String × Value,
          (do return (← Scalar.plainKey (.str e.1), ← plain room e.2) : Except DumpFault _) =
            .ok e' ↔ e' = e ∧ e.2.levels ≤ room := by
        intro e he e'
        rw [pair_eq_ok_iff, Scalar.plainKey, ih (h e he), ← and_assoc, Except.ok.injEq, eq_comm,
          ← Prod.ext_iff]
      rw [levels_ofFields, ofFields, plain, bind_eq_ok_iff, List.mapM_map]
      simp only [Function.comp_def, mapM_eq_ok_iff hfield]
      constructor
      · rintro ⟨_, ⟨rfl, hfields⟩, he⟩
        rw [Table.ofEntries_of_nodup hkeys] at he
        exact ⟨(Except.ok.inj he).symm, hfields⟩
      · rintro ⟨rfl, hfields⟩
        refine ⟨fields, ⟨rfl, hfields⟩, ?_⟩
        rw [Table.ofEntries_of_nodup hkeys]
        rfl

/-! ### Parts of plain values -/

/-- A plain value is a JSON value. -/
theorem isJson_of_isPlain (v : Value) (h : v.isPlain) : v.IsJson := by
  have hmade := isMadeOf_of_isPlain v h
  clear h
  induction hmade with
  | @scalar s h => exact .scalar (by cases s <;> simp_all [Scalar.isPlain, Scalar.IsJson])
  | list _ ih => exact .list ih
  | fields _ _ ih => exact isJson_ofFields ih

theorem isPlain_of_hasPart {v w : Value} (h : v.isPlain) (hw : v.HasPart w) : w.isPlain := by
  induction hw with
  | self => exact h
  | item hv _ ih => exact ih (arePlain_iff.1 h _ hv)
  | member he _ ih => exact ih ((isPlain_mapping h).2 _ he).2
  | element _ => cases h
  | first _ _ => cases h
  | second _ _ => cases h

theorem isDocument_of_isPlain {v : Value} (h : v.isPlain) : v.IsDocument :=
  ⟨isJson_of_isPlain v h, fun _ hm => (isPlain_mapping (isPlain_of_hasPart h hm)).1⟩

end Value
end Runbook
