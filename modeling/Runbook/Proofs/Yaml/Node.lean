import Runbook.Proofs.Value.Plain
import Runbook.Proofs.Yaml.Written
import Runbook.Yaml.Node

/-!
# The node of a written document

The tokens of a mapping form one node.
-/

namespace Runbook
namespace Yaml

/-! ### The node of a value -/

namespace Node

/-- The node of a scalar. -/
def ofScalar : Scalar → Node
  | .str s => .scalar .str (.str s)
  | s => .scalar (Tag.ofPlain ((wordOf? s).getD "")) (.str ((wordOf? s).getD ""))

mutual

/-- The node of a value. -/
def ofValue : Value → Node
  | .scalar s => ofScalar s
  | .list vs => .sequence .seq (ofItems vs)
  | .mapping es => .mapping .map (ofEntries es)
  | _ => .empty

/-- The nodes of items. -/
def ofItems : List Value → List Node
  | [] => []
  | v :: r => ofValue v :: ofItems r

/-- The nodes of entries. -/
def ofEntries : List (Scalar × Value) → List (Node × Node)
  | [] => []
  | (k, v) :: r => (ofScalar k, ofValue v) :: ofEntries r

end

end Node

/-! ### Taking nodes -/

namespace Remaining

variable {room fuel : Nat} {T : List Token} {a : List String} {h : Table String String}
  {position : Position} {t : Token}

theorem node_scalar (text : Text) (plain : Bool) :
    node position room (fuel + 1) ⟨.scalar text plain :: T, a, h⟩ =
      .ok (.scalar (if plain then .ofPlain text.string else .str) text, ⟨T, a, h⟩) := by
  rfl

/-- A text is a node for itself, in whatever style it was written. -/
theorem node_str (s : String) (isKey : Bool) :
    node position room (fuel + 1) ⟨scalarToken isKey (.str s) :: T, a, h⟩ =
      .ok (.scalar .str (.str s), ⟨T, a, h⟩) := by
  rw [scalarToken, node_scalar]
  by_cases hstyle : Style.ofText isKey s = .plain
  · simp [hstyle, Text.string, (Style.of_plain hstyle).2]
  · simp [hstyle]

theorem node_flow_sequence :
    node position (room + 1) (fuel + 2) ⟨.bracketOpen :: .bracketClose :: T, a, h⟩ =
      .ok (.sequence .seq [], ⟨T, a, h⟩) := by
  rfl

theorem node_flow_mapping :
    node position (room + 1) (fuel + 2) ⟨.braceOpen :: .braceClose :: T, a, h⟩ =
      .ok (.mapping .map [], ⟨T, a, h⟩) := by
  rfl

theorem node_sequence (hp : position ≠ .flow) :
    node position (room + 1) (fuel + 1) ⟨.sequenceStart :: T, a, h⟩ =
      (blockItems room true fuel ⟨T, a, h⟩).map fun p => (.sequence .seq p.1, p.2) := by
  cases position with
  | flow => exact absurd rfl hp
  | _ =>
    show (blockItems room true fuel ⟨T, a, h⟩ >>= fun p => _) = _
    cases blockItems room true fuel ⟨T, a, h⟩ <;> rfl

theorem node_sequence_below :
    node .belowMapping (room + 1) (fuel + 1) ⟨.item :: T, a, h⟩ =
      (blockItems room false fuel ⟨.item :: T, a, h⟩).map fun p => (.sequence .seq p.1, p.2) := by
  show (blockItems room false fuel ⟨.item :: T, a, h⟩ >>= fun p => _) = _
  cases blockItems room false fuel ⟨.item :: T, a, h⟩ <;> rfl

theorem node_mapping (hp : position ≠ .flow) :
    node position (room + 1) (fuel + 1) ⟨.mappingStart :: T, a, h⟩ =
      (blockEntries room fuel ⟨T, a, h⟩).map fun p => (.mapping .map p.1, p.2) := by
  cases position with
  | flow => exact absurd rfl hp
  | _ =>
    show (blockEntries room fuel ⟨T, a, h⟩ >>= fun p => _) = _
    cases blockEntries room fuel ⟨T, a, h⟩ <;> rfl

theorem nodeUnless_eq {ends : List Token} (ht : t ∉ ends) :
    nodeUnless ends position room (fuel + 1) ⟨t :: T, a, h⟩ =
      node position room fuel ⟨t :: T, a, h⟩ := by
  have hsees : (⟨t :: T, a, h⟩ : Remaining).sees ends = false := by
    simpa [sees, peek] using ht
  rw [nodeUnless, if_neg (by simp [hsees])]

theorem blockItems_item {indented : Bool} {n : Node} {ns : List Node} {s s' : Remaining}
    (ht : t ∉ [Token.item, .key, .value, .blockEnd])
    (hfirst : node .block room fuel ⟨t :: T, a, h⟩ = .ok (n, s))
    (hrest : blockItems room indented (fuel + 1) s = .ok (ns, s')) :
    blockItems room indented (fuel + 2) ⟨.item :: t :: T, a, h⟩ = .ok (n :: ns, s') := by
  have hends : t ∉ (if indented then [Token.item, .blockEnd]
      else [.item, .key, .value, .blockEnd]) := by
    cases indented <;> simp_all
  have hnode := (nodeUnless_eq hends).trans hfirst
  show (nodeUnless _ .block room (fuel + 1) ⟨t :: T, a, h⟩ >>= fun p => _) = _
  rw [hnode]
  show (blockItems room indented (fuel + 1) s >>= fun p => _) = _
  rw [hrest]
  rfl

theorem blockEntries_entry {k n : Node} {t' : Token} {T' : List Token} {ns : List (Node × Node)}
    {s s' : Remaining} (ht : t ∉ [Token.key, .value, .blockEnd])
    (ht' : t' ∉ [Token.key, .value, .blockEnd])
    (hkey : node .belowMapping room (fuel + 1) ⟨t :: T, a, h⟩ = .ok (k, ⟨.value :: t' :: T', a, h⟩))
    (hvalue : node .belowMapping room fuel ⟨t' :: T', a, h⟩ = .ok (n, s))
    (hrest : blockEntries room (fuel + 2) s = .ok (ns, s')) :
    blockEntries room (fuel + 3) ⟨.key :: t :: T, a, h⟩ = .ok ((k, n) :: ns, s') := by
  have hnode := (nodeUnless_eq ht).trans hkey
  have hnode' := (nodeUnless_eq ht').trans hvalue
  show (nodeUnless _ .belowMapping room (fuel + 2) ⟨t :: T, a, h⟩ >>= fun p => _) = _
  rw [hnode]
  show (nodeUnless _ .belowMapping room (fuel + 1) ⟨t' :: T', a, h⟩ >>= fun p => _) = _
  rw [hnode']
  show (blockEntries room (fuel + 2) s >>= fun p => _) = _
  rw [hrest]
  rfl

/-! ### The tokens of values -/

theorem node_scalarToken {s : Scalar} {opened : Bool} {n : Nat} (hs : isKept opened n (.scalar s)) :
    node position room (fuel + 1) ⟨scalarToken false s :: T, a, h⟩ =
      .ok (.ofScalar s, ⟨T, a, h⟩) := by
  cases s with
  | str s => exact node_str s false
  | _ => exact node_scalar _ _

/-- The first token of a value begins a node. -/
theorem exists_tokens {opened : Bool} {n : Nat} {v : Value} (hv : isKept opened n v) :
    ∃ t r, valueTokens opened v = t :: r ∧ t ∉ [Token.key, .value, .blockEnd] ∧
      (opened = true → t ≠ .item) := by
  cases v with
  | scalar s =>
    refine ⟨_, _, rfl, ?_⟩
    cases s <;> simp [scalarToken]
  | list items =>
    cases items with
    | nil => exact ⟨_, _, rfl, by simp, by simp⟩
    | cons v r =>
      cases opened with
      | true => exact ⟨_, _, rfl, by simp, by simp⟩
      | false => exact ⟨.item, _, rfl, by simp, by simp⟩
  | mapping entries => cases entries <;> exact ⟨_, _, rfl, by simp, by simp⟩
  | _ => cases hv

/-- What follows a sequence without indentation of its own. -/
def Follows (T : List Token) : Prop :=
  ∃ t r, T = t :: r ∧ (t = .key ∨ t = .blockEnd)

mutual

/-- The tokens of a value are taken as its node. -/
theorem node_tokens (opened : Bool) {n : Nat} {position : Position} {room fuel : Nat}
    (T : List Token) (a : List String) (h : Table String String) (hp : position ≠ .flow)
    (hfollows : opened = false → position = .belowMapping ∧ Follows T) :
    (v : Value) → isKept opened n v → v.levels ≤ room →
    4 * (valueTokens opened v).length + 2 ≤ fuel →
    node position room fuel ⟨valueTokens opened v ++ T, a, h⟩ = .ok (.ofValue v, ⟨T, a, h⟩)
  | .scalar s, hv, _, hfuel => by
    obtain ⟨f, rfl⟩ : ∃ f, fuel = f + 1 := ⟨fuel - 1, by omega⟩
    exact node_scalarToken hv
  | .list [], _, hroom, hfuel => by
    obtain ⟨f, rfl⟩ : ∃ f, fuel = f + 2 := ⟨fuel - 2, by omega⟩
    obtain ⟨room, rfl⟩ := Nat.exists_eq_add_of_le' (Nat.le_trans (Value.levels_pos _) hroom)
    exact node_flow_sequence
  | .list (v :: r), hv, hroom, hfuel => by
    obtain ⟨f, rfl⟩ : ∃ f, fuel = f + 1 := ⟨fuel - 1, by omega⟩
    obtain ⟨room, rfl⟩ := Nat.exists_eq_add_of_le' (Nat.le_trans (Value.levels_pos _) hroom)
    rw [Value.levels, Nat.add_le_add_iff_right] at hroom
    cases opened with
    | true =>
      have hend : ∀ f, blockItems room true (f + 1) ⟨.blockEnd :: T, a, h⟩ = .ok ([], ⟨T, a, h⟩) :=
        fun _ => rfl
      have hitems := blockItems_tokens f a h hend (v :: r) hv hroom
        (by simp [valueTokens] at hfuel; omega)
      have htokens : valueTokens true (.list (v :: r)) ++ T =
          .sequenceStart :: (itemTokens (v :: r) ++ .blockEnd :: T) := by
        simp [valueTokens]
      rw [htokens, node_sequence hp, hitems]
      rfl
    | false =>
      obtain ⟨rfl, t, r', rfl, ht⟩ := hfollows rfl
      have hend : ∀ f, blockItems room false (f + 1) ⟨t :: r', a, h⟩ =
          .ok ([], ⟨t :: r', a, h⟩) := by
        intro f
        rcases ht with rfl | rfl <;> rfl
      have hitems := blockItems_tokens f a h hend (v :: r) hv hroom
        (by simp [valueTokens] at hfuel; omega)
      exact (node_sequence_below (T := valueTokens true v ++ itemTokens r ++ t :: r')).trans
        (by rw [← List.cons_append]; exact congrArg _ hitems)
  | .mapping [], _, hroom, hfuel => by
    obtain ⟨f, rfl⟩ : ∃ f, fuel = f + 2 := ⟨fuel - 2, by omega⟩
    obtain ⟨room, rfl⟩ := Nat.exists_eq_add_of_le' (Nat.le_trans (Value.levels_pos _) hroom)
    exact node_flow_mapping
  | .mapping (e :: r), hv, hroom, hfuel => by
    obtain ⟨f, rfl⟩ : ∃ f, fuel = f + 1 := ⟨fuel - 1, by omega⟩
    obtain ⟨room, rfl⟩ := Nat.exists_eq_add_of_le' (Nat.le_trans (Value.levels_pos _) hroom)
    rw [Value.levels, Nat.add_le_add_iff_right] at hroom
    have hentries := blockEntries_tokens f T a h (e :: r) hv hroom
      (by simp [valueTokens] at hfuel; omega)
    have htokens : valueTokens opened (.mapping (e :: r)) ++ T =
        .mappingStart :: (entryTokens (e :: r) ++ .blockEnd :: T) := by
      simp [valueTokens]
    rw [htokens, node_mapping hp, hentries]
    rfl

/-- The tokens of items are taken as their nodes. -/
theorem blockItems_tokens {indented : Bool} {n room : Nat} (fuel : Nat) {T T' : List Token}
    (a : List String) (h : Table String String)
    (hend : ∀ f, blockItems room indented (f + 1) ⟨T, a, h⟩ = .ok ([], ⟨T', a, h⟩)) :
    (vs : List Value) → areKept n vs → Value.itemsLevels vs ≤ room →
    4 * (itemTokens vs).length + 1 ≤ fuel →
    blockItems room indented fuel ⟨itemTokens vs ++ T, a, h⟩ =
      .ok (Node.ofItems vs, ⟨T', a, h⟩)
  | [], _, _, hfuel => by
    obtain ⟨f, rfl⟩ : ∃ f, fuel = f + 1 := ⟨fuel - 1, by omega⟩
    exact hend f
  | v :: r, hv, hroom, hfuel => by
    rw [areKept, Bool.and_eq_true] at hv
    rw [Value.itemsLevels, Nat.max_le] at hroom
    obtain ⟨t, u, htokens, ht, hitem⟩ := exists_tokens hv.1
    obtain ⟨f, rfl⟩ : ∃ f, fuel = f + 2 := ⟨fuel - 2, by simp [itemTokens] at hfuel; omega⟩
    simp only [itemTokens, List.length_cons, List.length_append] at hfuel
    have hblock : Position.block ≠ .flow := by simp
    have hlength : 4 * (valueTokens true v).length + 2 ≤ f := by omega
    have hnode := node_tokens true (itemTokens r ++ T) a h hblock nofun v hv.1 hroom.1 hlength
    have hrest := blockItems_tokens (f + 1) a h hend r hv.2 hroom.2 (by omega)
    rw [htokens] at hnode
    have hall : itemTokens (v :: r) ++ T = .item :: t :: (u ++ (itemTokens r ++ T)) := by
      simp [itemTokens, htokens]
    rw [hall, Node.ofItems]
    refine blockItems_item ?_ hnode hrest
    simpa [hitem] using ht

/-- The tokens of entries and of their end are taken as their nodes. -/
theorem blockEntries_tokens {n room : Nat} (fuel : Nat) (T : List Token)
    (a : List String) (h : Table String String) :
    (es : List (Scalar × Value)) → haveKept n es → Value.entriesLevels es ≤ room →
    4 * (entryTokens es).length + 1 ≤ fuel →
    blockEntries room fuel ⟨entryTokens es ++ .blockEnd :: T, a, h⟩ =
      .ok (Node.ofEntries es, ⟨T, a, h⟩)
  | [], _, _, hfuel => by
    obtain ⟨f, rfl⟩ : ∃ f, fuel = f + 1 := ⟨fuel - 1, by omega⟩
    rfl
  | (.str key, v) :: r, hv, hroom, hfuel => by
    rw [haveKept, Bool.and_eq_true, Bool.and_eq_true] at hv
    rw [Value.entriesLevels, Nat.max_le] at hroom
    obtain ⟨⟨-, hvalue⟩, hr⟩ := hv
    obtain ⟨t, u, htokens, ht, hitem⟩ := exists_tokens hvalue
    obtain ⟨f, rfl⟩ : ∃ f, fuel = f + 3 := ⟨fuel - 3, by simp [entryTokens] at hfuel; omega⟩
    simp only [entryTokens, keyText, List.length_cons, List.length_append] at hfuel
    have hfollows : Follows (entryTokens r ++ .blockEnd :: T) := by
      cases r with
      | nil => exact ⟨_, _, rfl, .inr rfl⟩
      | cons => exact ⟨.key, _, rfl, .inl rfl⟩
    have hbelow : Position.belowMapping ≠ .flow := by simp
    have hlength : 4 * (valueTokens (!isShortKey key) v).length + 2 ≤ f := by omega
    have hnode := node_tokens (!isShortKey key) (entryTokens r ++ .blockEnd :: T) a h hbelow
      (fun _ => ⟨rfl, hfollows⟩) v hvalue hroom.1 hlength
    have hrest := blockEntries_tokens (f + 2) T a h r hr hroom.2 (by omega)
    rw [htokens] at hnode
    have hall : entryTokens ((.str key, v) :: r) ++ .blockEnd :: T =
        .key :: scalarToken (isShortKey key) (.str key) ::
          (.value :: t :: (u ++ (entryTokens r ++ .blockEnd :: T))) := by
      simp [entryTokens, keyText, htokens]
    rw [hall, Node.ofEntries]
    exact blockEntries_entry (by simp [scalarToken]) ht (node_str key _) hnode hrest

end

end Remaining

/-- The tokens of a mapping that is kept form its node, if there is room for the mapping. -/
theorem ofTokens_write [Stack] {es : List (Scalar × Value)} (h : haveKept 0 es) (hne : es ≠ [])
    (hroom : (Value.mapping es).levels ≤ Stack.yaml) :
    Node.ofTokens (tokensOf (write (.mapping es)).toList) =
      .ok (some (.ofValue (.mapping es))) := by
  have htokens : tokensOf (write (.mapping es)).toList =
      .mappingStart :: (entryTokens es ++ .blockEnd :: [.textEnd]) := by
    simpa using tokensOf_write h hne
  rw [htokens]
  generalize hfuel : 4 * (entryTokens es).length + 4 * 3 + 3 = fuel
  obtain ⟨room, hyaml⟩ := Nat.exists_eq_add_of_le' (Nat.le_trans (Value.levels_pos _) hroom)
  rw [hyaml, Value.levels, Nat.add_le_add_iff_right] at hroom
  have hentries := Remaining.blockEntries_tokens fuel [.textEnd] [] standardHandles es h hroom
    (by omega)
  have hblock : Remaining.Position.block ≠ .flow := by simp
  have hnode := (Remaining.node_mapping hblock).trans (congrArg _ hentries)
  have hlength : 4 * (Token.mappingStart ::
      (entryTokens es ++ .blockEnd :: [.textEnd])).length + 4 = fuel + 1 := by
    simp only [List.length_cons, List.length_append, List.length_nil]
    omega
  have hdocument : Remaining.document (room + 1) (fuel + 1)
      ⟨.mappingStart :: (entryTokens es ++ .blockEnd :: [.textEnd]), [], []⟩ =
        .ok (.ofValue (.mapping es), ⟨[.textEnd], [], standardHandles⟩) := hnode
  unfold Node.ofTokens
  rw [hlength, hyaml]
  show (if Token.mappingStart = Token.textEnd then _ else _) = _
  rw [if_neg (by decide), hdocument]
  rfl

end Yaml
end Runbook
