import Mathlib.Tactic.DefEqTransformations
import Runbook.Proofs.Yields
import Runbook.Yaml.Node

/-!
# Faults of tokens

Forming nodes fails only as the tokens do: as malformed, with a fault among them, or where more
collections begin than there is room for.

* `Remaining.keepsAt`: all readers of nodes keep to the tokens;
* `Node.ofTokens_eq_error`: so does forming a document.
-/

namespace Runbook
namespace Yaml

open scoped List

/-! ### Errors of tokens -/

/-- Whether a collection begins with a token, alone or with those before it. -/
def Token.opens : Token → Bool
  | bracketOpen | braceOpen | sequenceStart | mappingStart | item | key => true
  | _ => false

/-- The tokens among some with which collections begin. -/
def openings (tokens : List Token) : Nat :=
  tokens.countP Token.opens

/-- Whether an error is one of tokens for which there is some room. -/
def IsErrorOf (room : Nat) (tokens : List Token) (e : Error) : Prop :=
  e = .malformed ∨ .fault e ∈ tokens ∨ e = .tooDeep ∧ room < openings tokens

theorem IsErrorOf.mono {room : Nat} {tokens more : List Token} {e : Error}
    (h : IsErrorOf room tokens e) (hsub : tokens <+ more) : IsErrorOf room more e :=
  h.imp_right <| Or.imp (fun hmem => hsub.subset hmem) fun ⟨he, hroom⟩ =>
    ⟨he, Nat.lt_of_lt_of_le hroom hsub.countP_le⟩

namespace Remaining

/-- Whether a reader of tokens fails only with errors of theirs, and leaves only tokens of theirs.
-/
def Keeps {α : Type} (room : Nat) (rest : α → Remaining) (s : Remaining) : Except Error α → Prop :=
  Yields (IsErrorOf room s.tokens) fun a => (rest a).tokens <+ s.tokens

section Keeps

variable {α β : Type} {room : Nat} {rest : α → Remaining} {more : β → Remaining}
  {s s' : Remaining} {x : Except Error α} {f : α → Except Error β}

theorem keeps_ok {a : α} (h : (rest a).tokens <+ s.tokens) : Keeps room rest s (.ok a) :=
  yields_ok h

theorem keeps_error {e : Error} (h : IsErrorOf room s.tokens e) : Keeps room rest s (.error e) :=
  yields_error h

theorem keeps_malformed : Keeps room rest s (.error .malformed) :=
  keeps_error (.inl rfl)

theorem Keeps.mono (h : Keeps room rest s' x) (hsub : s'.tokens <+ s.tokens) :
    Keeps room rest s x :=
  Yields.mono h (fun _ he => he.mono hsub) fun _ ha => List.Sublist.trans ha hsub

theorem Keeps.bind (hx : Keeps room rest s x) (hf : ∀ a, Keeps room more (rest a) (f a)) :
    Keeps room more s (x >>= f) :=
  Yields.bind hx fun a ha => (hf a).mono ha

end Keeps

/-! ### Tokens one by one -/

variable {room : Nat} (s : Remaining)

theorem tokens_advance : s.advance.tokens <+ s.tokens :=
  List.tail_sublist s.tokens

theorem mem_of_peek {t : Token} (h : s.peek = t) (ht : t ≠ .textEnd) : t ∈ s.tokens := by
  unfold peek at h
  cases hs : s.tokens with
  | nil =>
    rw [hs] at h
    exact absurd h.symm ht
  | cons t' r =>
    rw [hs] at h
    exact h ▸ List.mem_cons_self

theorem isErrorOf_of_peek {e : Error} (h : s.peek = .fault e) : IsErrorOf room s.tokens e :=
  .inr (.inl (s.mem_of_peek h nofun))

theorem isErrorOf_refused : IsErrorOf room s.tokens s.refused := by
  unfold refused
  split
  · next e h => exact s.isErrorOf_of_peek h
  · exact .inl rfl

theorem isErrorOf_advance {e : Error} (h : IsErrorOf room s.advance.tokens e) :
    IsErrorOf room s.tokens e :=
  h.mono s.tokens_advance

/-- Inside of a collection there is less room, and one opening less. -/
theorem isErrorOf_inside (hopens : s.peek.opens) {e : Error}
    (h : IsErrorOf room s.advance.tokens e) : IsErrorOf (room + 1) s.tokens e := by
  rcases h with h | h | ⟨he, hroom⟩
  · exact .inl h
  · exact .inr (.inl (s.tokens_advance.subset h))
  · refine .inr (.inr ⟨he, ?_⟩)
    unfold peek at hopens
    unfold advance at hroom
    cases hs : s.tokens with
    | nil =>
      rw [hs] at hopens
      cases hopens
    | cons t r =>
      rw [hs] at hopens hroom
      have hcount : openings (t :: r) = openings r + 1 := List.countP_cons_of_pos hopens
      rw [hcount]
      exact Nat.succ_lt_succ hroom

theorem keeps_expect (t : Token) : Keeps room id s (s.expect t) := by
  unfold expect
  split
  · exact keeps_ok s.tokens_advance
  · exact keeps_error s.isErrorOf_refused

theorem keeps_tagName (handle : Option String) (suffix : String) :
    Keeps room (fun _ => s) s (s.tagName handle suffix) := by
  unfold tagName
  split
  · exact keeps_ok (List.Sublist.refl _)
  · split
    · exact keeps_ok (List.Sublist.refl _)
    · exact keeps_malformed

theorem keeps_properties : Keeps room Prod.snd s s.properties := by
  unfold properties
  -- whatever is taken, the rest is of the tokens
  split
  next anchor tag s₁ h =>
  have hsub : s₁.tokens <+ s.tokens := by
    have hone := s.tokens_advance
    have htwo := List.Sublist.trans s.advance.tokens_advance hone
    split at h
    · split at h <;> cases h <;> assumption
    · split at h <;> cases h <;> assumption
    · cases h
      exact List.Sublist.refl _
  clear h
  refine Keeps.mono ?_ hsub
  split
  · next h => exact keeps_error (s₁.isErrorOf_of_peek h)
  · exact (keeps_tagName s₁ _ _).bind fun name => keeps_ok (List.Sublist.refl _)
  · exact keeps_ok (List.Sublist.refl _)

/-! ### The beginning of a node -/

section Begin

variable {α : Type} {rest : α → Remaining}

/-- A node begins before its tokens. -/
theorem keeps_begin {s} {p : Properties} {f : Remaining → Except Error α}
    (hf : ∀ s', s'.tokens = s.tokens → Keeps room rest s' (f s')) :
    Keeps room rest s (s.begin p >>= f) := by
  have hbegin : Yields (IsErrorOf room s.tokens) (fun s' => s'.tokens = s.tokens) (s.begin p) := by
    unfold begin
    split
    · split
      · exact yields_error (.inl rfl)
      · exact yields_ok rfl
    · exact yields_ok rfl
  exact Yields.bind hbegin fun s' hs' => (hf s' hs').mono (hs' ▸ .refl _)

/-- What is read where a collection begins. -/
theorem keeps_inside {s : Remaining} (hopens : s.peek.opens) {f : Nat → Except Error α}
    (hf : ∀ within, within + 1 = room → Keeps room rest s (f within)) :
    Keeps room rest s (inside room >>= f) := by
  cases room with
  | zero =>
    refine keeps_error (.inr (.inr ⟨rfl, ?_⟩))
    exact List.countP_pos_iff.2 ⟨_, s.mem_of_peek rfl (by rintro h; rw [h] at hopens; cases hopens),
      hopens⟩
  | succ within => exact hf within rfl

theorem peek_eq {s s' : Remaining} (h : s'.tokens = s.tokens) : s'.peek = s.peek := by
  rw [peek, peek, h]

/-- The node of a collection whose parts are read from the tokens. -/
theorem keeps_collection {s : Remaining} {β : Type} {p : Properties} (hopens : s.peek.opens)
    {read : Remaining → Nat → Except Error (β × Remaining)}
    {f : β × Remaining → Except Error α}
    (hread : ∀ s', s'.peek.opens → ∀ within, Keeps (within + 1) Prod.snd s' (read s' within))
    (hf : ∀ room x, Keeps room rest x.2 (f x)) :
    Keeps room rest s
      (s.begin p >>= fun s => inside room >>= fun within => read s within >>= f) := by
  refine keeps_begin fun s' hs' => ?_
  have hopens' : s'.peek.opens := by rwa [peek_eq hs']
  refine keeps_inside hopens' ?_
  rintro within rfl
  exact (hread s' hopens' within).bind (hf _)

end Begin

theorem keeps_emptyNode (p : Properties) : Keeps room Prod.snd s (s.emptyNode p) := by
  unfold emptyNode
  split
  · exact keeps_error s.isErrorOf_refused
  · split
    · next h => exact keeps_error (s.isErrorOf_of_peek h)
    · exact keeps_begin fun s' _ => keeps_ok (List.Sublist.refl _)

/-- What comes after the separator, which stands before all items of a flow collection but the
first. -/
theorem keeps_comma (s : Remaining) (first : Bool) {α : Type} {rest : α → Remaining}
    {f : Remaining → Except Error α} (hf : ∀ s, Keeps room rest s (f s)) :
    Keeps room rest s (if first then pure s >>= f else s.expect .comma >>= f) := by
  split
  · exact hf s
  · exact (keeps_expect s .comma).bind hf

/-! ### Nodes and collections -/

/-- Whether all readers of nodes keep to the tokens, with some fuel. Each item of a block sequence
has a token of its own that counts as an opening. -/
structure KeepsAt (fuel : Nat) : Prop where
  node : ∀ position room s, Keeps room Prod.snd s (node position room fuel s)
  nodeUnless : ∀ ends position room s, Keeps room Prod.snd s (nodeUnless ends position room fuel s)
  blockItems : ∀ room indented s, Keeps (room + 1) Prod.snd s (blockItems room indented fuel s)
  blockEntries : ∀ room s, Keeps room Prod.snd s (blockEntries room fuel s)
  valueAfter : ∀ ends position room s, Keeps room Prod.snd s (valueAfter ends position room fuel s)
  flowItems : ∀ room first s, Keeps room Prod.snd s (flowItems room first fuel s)
  flowEntries : ∀ room first s, Keeps room Prod.snd s (flowEntries room first fuel s)

section Succ

variable {fuel : Nat} (h : KeepsAt fuel) (room : Nat) (s : Remaining)
include h

theorem keeps_node_succ (position : Position) :
    Keeps room Prod.snd s (node position room (fuel + 1) s) := by
  have hinside {α : Type} {s : Remaining} (hopens : s.peek.opens) {x : Except Error (α × Remaining)}
      {within : Nat} (hx : Keeps within Prod.snd s.advance x) : Keeps (within + 1) Prod.snd s x :=
    Yields.mono hx (fun _ he => s.isErrorOf_inside hopens he) fun _ ha =>
      List.Sublist.trans ha s.tokens_advance
  unfold node
  split
  · split
    · exact keeps_ok s.tokens_advance
    · exact keeps_malformed
  · refine (keeps_properties s).bind ?_
    rintro ⟨p, s⟩
    dsimp only
    split
    · exact keeps_begin fun s' _ => keeps_ok s'.tokens_advance
    · next hpeek =>
      exact keeps_collection (by rw [hpeek]; rfl) (fun s' hopens within =>
        hinside hopens (h.flowItems within true s'.advance)) fun _ _ => keeps_ok (.refl _)
    · next hpeek =>
      exact keeps_collection (by rw [hpeek]; rfl) (fun s' hopens within =>
        hinside hopens (h.flowEntries within true s'.advance)) fun _ _ => keeps_ok (.refl _)
    · next hpeek =>
      split
      · exact keeps_emptyNode s p
      · exact keeps_collection (by rw [hpeek]; rfl) (fun s' _ within =>
          (h.blockItems within true s'.advance).mono s'.tokens_advance)
          fun _ _ => keeps_ok (.refl _)
    · next hpeek =>
      split
      · exact keeps_emptyNode s p
      · exact keeps_collection (by rw [hpeek]; rfl) (fun s' hopens within =>
          hinside hopens (h.blockEntries within s'.advance)) fun _ _ => keeps_ok (.refl _)
    · next hpeek =>
      split
      · exact keeps_emptyNode s p
      · exact keeps_collection (by rw [hpeek]; rfl)
          (fun s' _ within => h.blockItems within false s') fun _ _ => keeps_ok (.refl _)
    · exact keeps_emptyNode s p

theorem keeps_nodeUnless_succ (ends : List Token) (position : Position) :
    Keeps room Prod.snd s (nodeUnless ends position room (fuel + 1) s) := by
  unfold nodeUnless
  split
  · exact keeps_ok (List.Sublist.refl _)
  · exact h.node position room s

theorem keeps_valueAfter_succ (ends : List Token) (position : Position) :
    Keeps room Prod.snd s (valueAfter ends position room (fuel + 1) s) := by
  unfold valueAfter
  split
  · exact (h.nodeUnless ends position room _).mono s.tokens_advance
  · next hpeek => exact keeps_error (s.isErrorOf_of_peek hpeek)
  · exact keeps_ok (List.Sublist.refl _)

theorem keeps_blockItems_succ (indented : Bool) :
    Keeps (room + 1) Prod.snd s (blockItems room indented (fuel + 1) s) := by
  unfold blockItems
  split
  · next hpeek =>
    have hfirst : ∀ ends,
        Keeps (room + 1) Prod.snd s (nodeUnless ends .block room fuel s.advance) :=
      fun ends => Yields.mono (h.nodeUnless ends .block room _)
        (fun _ he => s.isErrorOf_inside (by rw [hpeek]; rfl) he) fun _ ha =>
          List.Sublist.trans ha s.tokens_advance
    refine (hfirst _).bind ?_
    rintro ⟨first, s⟩
    refine (h.blockItems room indented s).bind ?_
    rintro ⟨others, s⟩
    exact keeps_ok (List.Sublist.refl _)
  · split
    · exact (keeps_expect s .blockEnd).bind fun s => keeps_ok (List.Sublist.refl _)
    · split
      · next hpeek => exact keeps_error (s.isErrorOf_of_peek hpeek)
      · exact keeps_ok (List.Sublist.refl _)

/-- A key with its value, and what is read after them. -/
theorem keeps_entry {α : Type} {room' : Nat} {ends ends' : List Token}
    {position position' : Position} {rest : α → Remaining} {g : Node × Remaining → Except Error α}
    (hroom : ∀ e, IsErrorOf room s.advance.tokens e → IsErrorOf room' s.tokens e)
    (hg : ∀ k s, ∃ f, g (k, s) = valueAfter ends' position' room fuel s >>= f ∧
      ∀ v s, Keeps room' rest s (f (v, s))) :
    Keeps room' rest s (nodeUnless ends position room fuel s.advance >>= g) := by
  have hkey := Yields.mono (h.nodeUnless ends position room s.advance) hroom fun _ ha => ha
  refine Yields.bind hkey ?_
  rintro ⟨k, s₁⟩ hs₁
  obtain ⟨f, hf, hmore⟩ := hg k s₁
  rw [hf]
  have hvalue := Yields.mono (h.valueAfter ends' position' room s₁)
    (fun e he => hroom e (he.mono hs₁)) fun _ ha => List.Sublist.trans ha hs₁
  refine Yields.bind hvalue ?_
  rintro ⟨v, s₂⟩ hs₂
  exact (hmore v s₂).mono (List.Sublist.trans hs₂ s.tokens_advance)

theorem keeps_blockEntries_succ : Keeps room Prod.snd s (blockEntries room (fuel + 1) s) := by
  unfold blockEntries
  extract_lets ends
  split
  · refine keeps_entry h room s (fun _ => s.isErrorOf_advance) fun k s =>
      ⟨_, rfl, fun v s => (h.blockEntries room s).bind ?_⟩
    rintro ⟨others, s⟩
    exact keeps_ok (List.Sublist.refl _)
  · exact (keeps_expect s .blockEnd).bind fun s => keeps_ok (List.Sublist.refl _)

theorem keeps_flowItems_succ (first : Bool) :
    Keeps room Prod.snd s (flowItems room first (fuel + 1) s) := by
  unfold flowItems
  split
  · exact keeps_ok s.tokens_advance
  · refine keeps_comma s first fun s => ?_
    beta_reduce
    split
    · next hpeek =>
      have hopens : s.peek.opens := by rw [hpeek]; rfl
      refine keeps_inside hopens ?_
      rintro within rfl
      refine keeps_entry h within s (fun _ => s.isErrorOf_inside hopens) fun k s =>
        ⟨_, rfl, fun v s => (h.flowItems (within + 1) false s).bind ?_⟩
      rintro ⟨others, s⟩
      exact keeps_ok (List.Sublist.refl _)
    · split
      · exact keeps_ok s.tokens_advance
      · refine (h.node .flow room s).bind ?_
        rintro ⟨item, s⟩
        refine (h.flowItems room false s).bind ?_
        rintro ⟨others, s⟩
        exact keeps_ok (List.Sublist.refl _)

theorem keeps_flowEntries_succ (first : Bool) :
    Keeps room Prod.snd s (flowEntries room first (fuel + 1) s) := by
  unfold flowEntries
  split
  · exact keeps_ok s.tokens_advance
  · refine keeps_comma s first fun s => ?_
    beta_reduce
    split
    · refine keeps_entry h room s (fun _ => s.isErrorOf_advance) fun k s =>
        ⟨_, rfl, fun v s => (h.flowEntries room false s).bind ?_⟩
      rintro ⟨others, s⟩
      exact keeps_ok (List.Sublist.refl _)
    · split
      · exact keeps_ok s.tokens_advance
      · refine (h.node .flow room s).bind ?_
        rintro ⟨k, s⟩
        refine (h.flowEntries room false s).bind ?_
        rintro ⟨others, s⟩
        exact keeps_ok (List.Sublist.refl _)

end Succ

/-- **Readers of nodes keep to the tokens.** -/
theorem keepsAt (fuel : Nat) : KeepsAt fuel := by
  induction fuel with
  | zero => constructor <;> intros <;> exact keeps_malformed
  | succ fuel h =>
    exact
      { node := fun position room s => keeps_node_succ h room s position
        nodeUnless := fun ends position room s => keeps_nodeUnless_succ h room s ends position
        blockItems := fun room indented s => keeps_blockItems_succ h room s indented
        blockEntries := keeps_blockEntries_succ h
        valueAfter := fun ends position room s => keeps_valueAfter_succ h room s ends position
        flowItems := fun room first s => keeps_flowItems_succ h room s first
        flowEntries := fun room first s => keeps_flowEntries_succ h room s first }

/-! ### Documents -/

theorem keeps_directives (version : Bool) (fuel : Nat) (s : Remaining) :
    Keeps room id s (directives version fuel s) := by
  induction fuel generalizing version s with
  | zero => exact keeps_ok (List.Sublist.refl _)
  | succ fuel ih =>
    unfold directives
    split
    · split
      · exact keeps_malformed
      · exact (ih true _).mono s.tokens_advance
    · split
      · exact keeps_malformed
      · exact (ih version _).mono s.tokens_advance
    · exact (ih version _).mono s.tokens_advance
    · exact keeps_ok (List.Sublist.refl _)

theorem keeps_document (fuel : Nat) (s : Remaining) :
    Keeps room Prod.snd s (document room fuel s) := by
  have hexplicit : Keeps room Prod.snd s (do
      let s ← directives false fuel s
      let s ← s.expect .documentStart
      nodeUnless [.documentStart, .documentEnd, .textEnd] .block room fuel
        { s with handles := Table.update standardHandles s.handles }) := by
    refine (keeps_directives false fuel s).bind fun s => (keeps_expect s .documentStart).bind ?_
    exact fun s => ((keepsAt fuel).nodeUnless _ .block room _).mono (List.Sublist.refl _)
  unfold document
  split
  · exact hexplicit
  · exact hexplicit
  · exact hexplicit
  · exact hexplicit
  · exact ((keepsAt fuel).node .block room _).mono (List.Sublist.refl _)

end Remaining

/-- **Forming nodes fails only as the tokens do**: as malformed, with a fault among them, or because
more collections begin than can be open. -/
theorem Node.ofTokens_eq_error [Stack] {tokens : List Token} {e : Error}
    (h : ofTokens tokens = .error e) : IsErrorOf Stack.yaml tokens e := by
  -- nothing is left of the tokens in the end
  have hkeeps : Remaining.Keeps Stack.yaml (fun _ => ⟨[], [], []⟩) ⟨tokens, [], []⟩
      (ofTokens tokens) := by
    unfold ofTokens
    extract_lets s
    split
    · exact Remaining.keeps_ok (List.nil_sublist _)
    · refine (Remaining.keeps_document _ _).bind ?_
      rintro ⟨n, s⟩
      have hskip : s.skipEnds.tokens <+ s.tokens := List.dropWhile_sublist _
      refine Remaining.Keeps.mono ?_ hskip
      dsimp only
      split
      · exact Remaining.keeps_ok (List.nil_sublist _)
      · exact Remaining.keeps_error s.skipEnds.isErrorOf_refused
  exact hkeeps.error e h

end Yaml
end Runbook
