/-!
# Tables

A finite map kept as the list of its entries, in order of first insertion. Writing to a key that is
present keeps the entry's place; writing to a new key appends.
-/

namespace Runbook

/-- Entries in order of first insertion. -/
abbrev Table (κ α : Type) := List (κ × α)

namespace Table

variable {κ α : Type} [BEq κ]

/-- The value at a key. -/
def get? : Table κ α → κ → Option α
  | [], _ => none
  | (k, a) :: t, key => if k == key then some a else get? t key

/-- Whether a key is present. -/
def has (t : Table κ α) (key : κ) : Bool :=
  (get? t key).isSome

/-- Write a value: in place at a key that is present, else at the end. -/
def set : Table κ α → κ → α → Table κ α
  | [], key, a => [(key, a)]
  | (k, b) :: t, key, a => if k == key then (k, a) :: t else (k, b) :: set t key a

/-- Remove a key. -/
def erase (t : Table κ α) (key : κ) : Table κ α :=
  t.filter fun e => !(e.1 == key)

/-- Write all entries of `u`, in order. -/
def update (t u : Table κ α) : Table κ α :=
  u.foldl (fun t e => set t e.1 e.2) t

/-- The table that a list of entries writes, a later entry for a key winning. -/
def ofEntries (entries : List (κ × α)) : Table κ α :=
  update [] entries

/-- The keys, in order. -/
def keys (t : Table κ α) : List κ :=
  t.map Prod.fst

@[simp] theorem get?_nil (key : κ) : get? ([] : Table κ α) key = none := rfl

theorem get?_set_self [LawfulBEq κ] (t : Table κ α) (key : κ) (a : α) :
    get? (set t key a) key = some a := by
  induction t with
  | nil => simp [set, get?]
  | cons e t ih =>
    obtain ⟨k, b⟩ := e
    by_cases h : k == key <;> simp [set, get?, h, ih]

theorem get?_set_of_ne [LawfulBEq κ] (t : Table κ α) {key other : κ} (a : α) (h : key ≠ other) :
    get? (set t key a) other = get? t other := by
  induction t with
  | nil => simp [set, get?, h]
  | cons e t ih =>
    obtain ⟨k, b⟩ := e
    by_cases hk : k == key
    · have : k = key := eq_of_beq hk
      subst this
      simp [set, get?, h]
    · by_cases ho : k == other <;> simp [set, get?, hk, ho, ih]

/-- Writing changes at most the entry of its key. -/
theorem mem_of_mem_set [LawfulBEq κ] {t : Table κ α} {key : κ} {a : α} {e : κ × α}
    (h : e ∈ set t key a) : e ∈ t ∨ e = (key, a) := by
  induction t with
  | nil => exact .inr (List.mem_singleton.1 h)
  | cons e' t ih =>
    obtain ⟨k, b⟩ := e'
    rw [set] at h
    split at h
    · next hk =>
      obtain rfl | h := List.mem_cons.1 h
      · exact .inr (by rw [eq_of_beq hk])
      · exact .inl (List.mem_cons_of_mem _ h)
    · obtain rfl | h := List.mem_cons.1 h
      · exact .inl List.mem_cons_self
      · exact (ih h).imp_left (List.mem_cons_of_mem _)

/-- Writing all entries of a table leaves entries of either. -/
theorem mem_of_mem_update [LawfulBEq κ] {t u : Table κ α} {e : κ × α} (h : e ∈ update t u) :
    e ∈ t ∨ e ∈ u := by
  induction u generalizing t with
  | nil => exact .inl h
  | cons e' u ih =>
    obtain h | h := ih h
    · obtain h | rfl := mem_of_mem_set h
      · exact .inl h
      · exact .inr List.mem_cons_self
    · exact .inr (List.mem_cons_of_mem _ h)

/-- A key that is not present is written at the end. -/
theorem set_of_not_mem [LawfulBEq κ] {t : Table κ α} {key : κ} (a : α) (h : key ∉ t.keys) :
    set t key a = t ++ [(key, a)] := by
  induction t with
  | nil => rfl
  | cons e t ih =>
    obtain ⟨k, b⟩ := e
    simp only [keys, List.map_cons, List.mem_cons, not_or] at h
    have hk : ¬ (k == key) := by simpa using Ne.symm h.1
    simp [set, hk, ih h.2]

theorem get?_eq_none_iff [LawfulBEq κ] {t : Table κ α} {key : κ} :
    get? t key = none ↔ key ∉ t.keys := by
  induction t with
  | nil => simp [get?, keys]
  | cons e r ih =>
    obtain ⟨k, a⟩ := e
    by_cases hk : k == key
    · simp [get?, keys, eq_of_beq hk]
    · have hne : key ≠ k := fun h => hk (by simp [h])
      simpa [get?, hk, keys, hne] using ih

/-- The value at a key is that of an entry. -/
theorem mem_of_get? [LawfulBEq κ] {t : Table κ α} {key : κ} {a : α} (h : get? t key = some a) :
    (key, a) ∈ t := by
  induction t with
  | nil => cases h
  | cons e t ih =>
    rw [get?] at h
    split at h
    · next hkey =>
      obtain rfl := Option.some.inj h
      rw [← eq_of_beq hkey]
      exact List.mem_cons_self
    · exact List.mem_cons_of_mem _ (ih h)

/-- Entries with different keys are all found. -/
theorem get?_eq_some_iff [LawfulBEq κ] {t : Table κ α} (hkeys : t.keys.Nodup) {key : κ} {a : α} :
    get? t key = some a ↔ (key, a) ∈ t := by
  refine ⟨mem_of_get?, fun h => ?_⟩
  induction t with
  | nil => cases h
  | cons e t ih =>
    obtain ⟨k, b⟩ := e
    obtain ⟨hnotMem, hkeys⟩ := List.nodup_cons.1 hkeys
    rcases List.mem_cons.1 h with heq | h
    · cases heq
      simp [get?]
    · have hk : k ≠ key := by
        rintro rfl
        exact hnotMem (List.mem_map.2 ⟨_, h, rfl⟩)
      rw [get?, if_neg (by simpa using hk), ih hkeys h]

/-- The order of entries with different keys does not matter. -/
theorem get?_of_perm [LawfulBEq κ] {t u : Table κ α} (hkeys : u.keys.Nodup) (h : t.Perm u) :
    get? t = get? u := by
  funext key
  apply Option.ext
  intro a
  have hkeys' : t.keys.Nodup := (h.map Prod.fst).nodup_iff.2 hkeys
  rw [get?_eq_some_iff hkeys', get?_eq_some_iff hkeys, h.mem_iff]

/-- Writing adds the key at the end if it is new. -/
theorem keys_set [LawfulBEq κ] (t : Table κ α) (key : κ) (a : α) :
    (set t key a).keys = if key ∈ t.keys then t.keys else t.keys ++ [key] := by
  induction t with
  | nil => simp [set, keys]
  | cons e r ih =>
    obtain ⟨k, b⟩ := e
    by_cases hk : k == key
    · simp [set, keys, eq_of_beq hk]
    · have hne : key ≠ k := fun h => hk (by simp [h])
      have hmem : key ∈ keys ((k, b) :: r) ↔ key ∈ keys r := by simp [keys, hne]
      have hset : keys (set ((k, b) :: r) key a) = k :: keys (set r key a) := by
        simp [set, hk, keys]
      rw [hset, ih]
      by_cases hr : key ∈ keys r
      · rw [if_pos hr, if_pos (hmem.2 hr)]
        rfl
      · rw [if_neg hr, if_neg (mt hmem.1 hr)]
        rfl

theorem nodup_keys_set [LawfulBEq κ] {t : Table κ α} (h : t.keys.Nodup) (key : κ) (a : α) :
    (set t key a).keys.Nodup := by
  rw [keys_set]
  split
  · exact h
  · next hmem =>
    refine List.nodup_append.2 ⟨h, by simp, ?_⟩
    rintro k hk _ hkey rfl
    exact hmem (List.mem_singleton.1 hkey ▸ hk)

theorem get?_erase_self [LawfulBEq κ] (t : Table κ α) (key : κ) :
    get? (erase t key) key = none := by
  induction t with
  | nil => rfl
  | cons e t ih =>
    obtain ⟨k, b⟩ := e
    by_cases h : k == key
    · simpa [erase, h] using ih
    · simpa [erase, h, get?] using ih

theorem get?_erase_of_ne [LawfulBEq κ] (t : Table κ α) {key other : κ} (h : key ≠ other) :
    get? (erase t key) other = get? t other := by
  induction t with
  | nil => rfl
  | cons e t ih =>
    obtain ⟨k, b⟩ := e
    by_cases hk : k == key
    · have : k = key := eq_of_beq hk
      subst this
      have : ¬ (k == other) := by simpa using h
      simpa [erase, get?, this] using ih
    · by_cases ho : k == other
      · simp [erase, hk, get?, ho]
      · simpa [erase, hk, get?, ho] using ih

/-- Writing the entries of a table puts its values before those that are there. -/
theorem get?_update [LawfulBEq κ] {t u : Table κ α} (hkeys : u.keys.Nodup) (key : κ) :
    get? (update t u) key = (get? u key).or (get? t key) := by
  induction u generalizing t with
  | nil => rfl
  | cons e u ih =>
    obtain ⟨k, a⟩ := e
    obtain ⟨hnotMem, hkeys⟩ := List.nodup_cons.1 hkeys
    show get? (update (set t k a) u) key = _
    rw [ih hkeys, get?]
    split
    · next hk =>
      obtain rfl := eq_of_beq hk
      rw [get?_eq_none_iff.2 hnotMem, get?_set_self]
      rfl
    · next hk => rw [get?_set_of_ne t a (by simpa using hk)]

/-- Writing a value that is there changes nothing. -/
theorem set_of_get? [LawfulBEq κ] {t : Table κ α} {key : κ} {a : α} (h : get? t key = some a) :
    set t key a = t := by
  induction t with
  | nil => cases h
  | cons e t ih =>
    obtain ⟨k, b⟩ := e
    rw [get?] at h
    rw [set]
    split
    · next hk =>
      rw [if_pos hk] at h
      rw [Option.some.inj h]
    · next hk =>
      rw [if_neg hk] at h
      rw [ih h]

theorem update_of_forall_get? [LawfulBEq κ] {t u : Table κ α}
    (h : ∀ e ∈ u, get? t e.1 = some e.2) : update t u = t := by
  induction u with
  | nil => rfl
  | cons e u ih =>
    obtain ⟨he, hu⟩ := List.forall_mem_cons.1 h
    show update (set t e.1 e.2) u = t
    rw [set_of_get? he, ih hu]

/-- Writing, seen through a selection of the keys. -/
theorem filter_set [LawfulBEq κ] (select : κ → Bool) (t : Table κ α) (key : κ) (a : α) :
    (set t key a).filter (fun e => select e.1) =
      if select key then set (t.filter fun e => select e.1) key a
      else t.filter fun e => select e.1 := by
  induction t with
  | nil => cases h : select key <;> simp [set, h]
  | cons e t ih =>
    obtain ⟨k, b⟩ := e
    rw [set]
    by_cases hk : k == key
    · obtain rfl := eq_of_beq hk
      cases h : select k <;> simp [set, h]
    · rw [if_neg hk]
      cases h : select k <;> cases hkey : select key <;> simp_all [set]

/-- The value at a key that is selected. -/
theorem get?_filter [LawfulBEq κ] {select : κ → Bool} {key : κ} (h : select key) (t : Table κ α) :
    get? (t.filter fun e => select e.1) key = get? t key := by
  induction t with
  | nil => rfl
  | cons e t ih =>
    obtain ⟨k, b⟩ := e
    by_cases hk : k == key
    · obtain rfl := eq_of_beq hk
      simp [get?, h]
    · cases hselect : select k <;> simp [get?, hselect, hk, ih]

end Table
end Runbook
