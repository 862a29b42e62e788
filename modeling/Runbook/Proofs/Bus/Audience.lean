import Runbook.Proofs.Bus

/-!
# Audiences

Publishing on a bus in memory whose handlers are arbitrary programs that hold on to event objects:
they look at the world and change it, the payloads included, use the bus again, also for an event
that is being published already, and end with an exception. Such programs can publish without end,
so publishing is a relation: it relates a bus to what a publishing comes to, if it comes to an end.

* `Audience.Publishes`: a pass through a list of handlers that may grow on the way, by a position;
* `Entry`: what is recorded of a publishing, each call with the depth at which it was made;
* `publishes_unique`: a publishing comes to one end;
* `delivered_of_publishes`: what a publishing does to the bus, and which calls it makes;
* `quiet_publishes`: exceptions change nothing but how the programs of handlers end.
-/

namespace Runbook
namespace Bus

/-- What a handler does when it is called, in a world `σ` with event objects `ε`. -/
inductive Program (σ ε : Type) : Type
  | finish
  /-- End with an ordinary exception. -/
  | fail
  /-- End with a cancellation. -/
  | cancel
  /-- Change the world. What comes next depends on what the world was before. -/
  | act (change : σ → σ) (next : σ → Program σ ε)
  | subscribe (event handler : String) (next : Program σ ε)
  /-- Publish an event. What comes next depends on how that ends. -/
  | publish (e : ε) (next : Delivery → Program σ ε)

/-- The handlers of a bus, and how the name of an event is read. -/
structure Audience (σ ε : Type) where
  nameOf : σ → ε → String
  react : String → ε → Program σ ε

/-- An entry of the record of a publishing. The depth of a call is the number of publishings that
the one which makes it is nested in. -/
inductive Entry (ε : Type) : Type
  | called (depth : Nat) (handler : String) (e : ε)
  | subscribed (event handler : String)

/-- What a publishing, or the program of a handler, comes to. -/
structure Publication (σ ε : Type) where
  record : List (Entry ε)
  ending : Delivery
  bus : Memory σ

/-- Put what happened before in front of the record. -/
def Publication.after {σ ε : Type} (p : Publication σ ε) (record : List (Entry ε)) :
    Publication σ ε :=
  { p with record := record ++ p.record }

namespace Audience

mutual

/-- What the program of a handler comes to that a publishing at a depth has called. -/
inductive Performs {σ ε : Type} (a : Audience σ ε) :
    Nat → Program σ ε → Memory σ → Publication σ ε → Prop
  | finish {depth : Nat} {b : Memory σ} : Performs a depth .finish b ⟨[], .delivered, b⟩
  | fail {depth : Nat} {b : Memory σ} : Performs a depth .fail b ⟨[], .failed, b⟩
  | cancel {depth : Nat} {b : Memory σ} : Performs a depth .cancel b ⟨[], .cancelled, b⟩
  | act {depth : Nat} {b : Memory σ} {change : σ → σ} {next : σ → Program σ ε}
      {p : Publication σ ε}
      (h : Performs a depth (next b.memory) { b with memory := change b.memory } p) :
      Performs a depth (.act change next) b p
  | subscribe {depth : Nat} {b : Memory σ} {event handler : String} {next : Program σ ε}
      {p : Publication σ ε} (h : Performs a depth next (b.subscribe event handler) p) :
      Performs a depth (.subscribe event handler next) b (p.after [.subscribed event handler])
  | publish {depth : Nat} {b : Memory σ} {e : ε} {next : Delivery → Program σ ε}
      {p q : Publication σ ε} (hother : Delivers a (depth + 1) e (a.nameOf b.memory e) 0 b p)
      (h : Performs a depth (next p.ending) p.bus q) :
      Performs a depth (.publish e next) b (q.after p.record)

/-- What it comes to that the handlers of an event are called from a position on. They are those
that are subscribed when their turn comes. -/
inductive Delivers {σ ε : Type} (a : Audience σ ε) :
    Nat → ε → String → Nat → Memory σ → Publication σ ε → Prop
  | done {depth : Nat} {e : ε} {event : String} {position : Nat} {b : Memory σ}
      (h : (b.handlersOf event)[position]? = none) :
      Delivers a depth e event position b ⟨[], .delivered, b⟩
  /-- A cancellation ends the pass. -/
  | cancelled {depth : Nat} {e : ε} {event handler : String} {position : Nat} {b : Memory σ}
      {p : Publication σ ε} (h : (b.handlersOf event)[position]? = some handler)
      (hcall : Performs a depth (a.react handler e) b p) (hp : p.ending = .cancelled) :
      Delivers a depth e event position b (p.after [.called depth handler e])
  /-- Exceptions are swallowed. -/
  | next {depth : Nat} {e : ε} {event handler : String} {position : Nat} {b : Memory σ}
      {p q : Publication σ ε} (h : (b.handlersOf event)[position]? = some handler)
      (hcall : Performs a depth (a.react handler e) b p) (hp : p.ending ≠ .cancelled)
      (hrest : Delivers a depth e event (position + 1) p.bus q) :
      Delivers a depth e event position b (q.after (.called depth handler e :: p.record))

end

/-- What publishing an event comes to, as a publishing that is nested in `depth` others. -/
def Publishes {σ ε : Type} (a : Audience σ ε) (depth : Nat) (e : ε) (b : Memory σ)
    (p : Publication σ ε) : Prop :=
  a.Delivers depth e (a.nameOf b.memory e) 0 b p

section Unique

variable {σ ε : Type} {a : Audience σ ε} {depth : Nat} {e : ε} {b : Memory σ}
  {p q : Publication σ ε}

/-- A pass comes to one end. -/
theorem delivers_unique {event : String} {position : Nat}
    (h : a.Delivers depth e event position b p) (h' : a.Delivers depth e event position b q) :
    p = q := by
  revert q
  -- by induction on what programs and passes come to at once
  induction h using @Delivers.rec σ ε a
    (fun depth r b p _ => ∀ {q}, a.Performs depth r b q → p = q) with
  | finish h' => cases h'; rfl
  | fail h' => cases h'; rfl
  | cancel h' => cases h'; rfl
  | act _ ih h' =>
    cases h' with
    | act h' => exact ih h'
  | subscribe _ ih h' =>
    cases h' with
    | subscribe h' => rw [ih h']
  | publish _ _ ihOther ih h' =>
    cases h' with
    | publish hother' h' =>
      cases ihOther hother'
      rw [ih h']
  | done h =>
    intro q h'
    cases h' with
    | done _ => rfl
    | cancelled h' _ _ => rw [h] at h'; cases h'
    | next h' _ _ _ => rw [h] at h'; cases h'
  | cancelled h _ hp ih =>
    intro q h'
    cases h' with
    | done h' => rw [h] at h'; cases h'
    | cancelled h' hcall' _ =>
      rw [h] at h'
      cases h'
      rw [ih hcall']
    | next h' hcall' hp' _ =>
      rw [h] at h'
      cases h'
      cases ih hcall'
      exact absurd hp hp'
  | next h _ hp _ ih ihRest =>
    intro q h'
    cases h' with
    | done h' => rw [h] at h'; cases h'
    | cancelled h' hcall' hp' =>
      rw [h] at h'
      cases h'
      cases ih hcall'
      exact absurd hp' hp
    | next h' hcall' _ hrest' =>
      rw [h] at h'
      cases h'
      cases ih hcall'
      rw [ihRest hrest']

/-- **A publishing comes to one end**, if it comes to an end. -/
theorem publishes_unique (h : a.Publishes depth e b p) (h' : a.Publishes depth e b q) : p = q :=
  delivers_unique h h'

/-- No handler is called if the list is empty. -/
theorem publishes_of_nil (h : b.handlersOf (a.nameOf b.memory e) = []) :
    a.Publishes depth e b ⟨[], .delivered, b⟩ :=
  .done (by rw [h]; rfl)

end Unique

end Audience

/-! ### Records -/

section Record

variable {ε : Type}

/-- The calls that a publishing at a depth makes itself. -/
def ownCalls (depth : Nat) (record : List (Entry ε)) : List (String × ε) :=
  record.filterMap fun
    | .called k handler e => if k = depth then some (handler, e) else none
    | .subscribed _ _ => none

/-- The handlers that are subscribed to an event, in order. -/
def enlisted (event : String) (record : List (Entry ε)) : List String :=
  record.filterMap fun
    | .called _ _ _ => none
    | .subscribed other handler => if other = event then some handler else none

variable (depth : Nat) (event : String) (record record' : List (Entry ε))

@[simp] theorem ownCalls_nil : ownCalls depth ([] : List (Entry ε)) = [] := rfl

@[simp] theorem ownCalls_append :
    ownCalls depth (record ++ record') = ownCalls depth record ++ ownCalls depth record' :=
  List.filterMap_append

@[simp] theorem ownCalls_called (k : Nat) (handler : String) (e : ε) :
    ownCalls depth (.called k handler e :: record) =
      if k = depth then (handler, e) :: ownCalls depth record else ownCalls depth record := by
  simp only [ownCalls, List.filterMap_cons]
  split <;> simp_all

@[simp] theorem ownCalls_subscribed (other handler : String) :
    ownCalls depth (.subscribed other handler :: record) = ownCalls depth record := rfl

@[simp] theorem enlisted_nil : enlisted event ([] : List (Entry ε)) = [] := rfl

@[simp] theorem enlisted_append :
    enlisted event (record ++ record') = enlisted event record ++ enlisted event record' :=
  List.filterMap_append

@[simp] theorem enlisted_called (k : Nat) (handler : String) (e : ε) :
    enlisted event (.called k handler e :: record) = enlisted event record := rfl

@[simp] theorem enlisted_subscribed (other handler : String) :
    enlisted event (.subscribed other handler :: record) =
      if other = event then handler :: enlisted event record else enlisted event record := by
  simp only [enlisted, List.filterMap_cons]
  split <;> simp_all

end Record

theorem handlersOf_subscribe {σ : Type} (b : Memory σ) (event handler other : String) :
    (b.subscribe event handler).handlersOf other =
      if event = other then b.handlersOf other ++ [handler] else b.handlersOf other := by
  unfold Memory.subscribe Memory.handlersOf
  split
  · next h =>
    subst h
    rw [Table.get?_set_self]
    rfl
  · next h => rw [Table.get?_set_of_ne _ _ h]

section Exact

variable {σ ε : Type} {depth : Nat} {b b' : Memory σ} {p q : Publication σ ε}

/-- The lists of handlers have grown by those that were subscribed, at their ends. -/
def Grows (b : Memory σ) (p : Publication σ ε) : Prop :=
  ∀ event, p.bus.handlersOf event = b.handlersOf event ++ enlisted event p.record

theorem Grows.refl (d : Delivery) (b : Memory σ) : Grows b (⟨[], d, b⟩ : Publication σ ε) := by
  simp [Grows]

theorem Grows.subscribe {event handler : String} (h : Grows (b.subscribe event handler) p) :
    Grows b (p.after [.subscribed event handler]) := by
  intro other
  have hother := h other
  rw [handlersOf_subscribe] at hother
  rw [Publication.after, hother]
  split <;> simp_all

theorem Grows.trans (h : Grows b p) (h' : Grows p.bus q) : Grows b (q.after p.record) := by
  intro event
  rw [Publication.after, h' event, h event]
  simp

theorem Grows.called {handler : String} {e : ε} (h : Grows b p) :
    Grows b (p.after [.called depth handler e]) :=
  h

/-- What the program of a handler does to the bus, and that it makes no calls for the publishing
that has called the handler, or for one around it. -/
structure Performed (depth : Nat) (b : Memory σ) (p : Publication σ ε) : Prop where
  grows : Grows b p
  silent : ∀ k ≤ depth, ownCalls k p.record = []

/-- What a pass from a position on does to the bus, and the calls it makes: to every handler from
there on in the list as it is at the end, if the pass gets there. -/
structure Delivered (depth : Nat) (e : ε) (event : String) (position : Nat) (b : Memory σ)
    (p : Publication σ ε) : Prop where
  grows : Grows b p
  silent : ∀ k < depth, ownCalls k p.record = []
  returns : p.ending ≠ .cancelled → p.ending = .delivered
  exact : p.ending ≠ .cancelled →
    ownCalls depth p.record = ((p.bus.handlersOf event).drop position).map fun h => (h, e)

theorem Performed.act {w : σ} (h : Performed depth { b with memory := w } p) :
    Performed depth b p :=
  ⟨h.grows, h.silent⟩

theorem Performed.after_delivered {e : ε} {event : String} (h : Delivered (depth + 1) e event 0 b p)
    (h' : Performed depth p.bus q) : Performed depth b (q.after p.record) := by
  refine ⟨h.grows.trans h'.grows, fun k hk => ?_⟩
  rw [Publication.after, ownCalls_append, h.silent k (Nat.lt_succ_of_le hk), h'.silent k hk]
  rfl

/-- The end of a pass. -/
theorem Delivered.done {e : ε} {event : String} {position : Nat}
    (h : (b.handlersOf event)[position]? = none) :
    Delivered depth e event position b ⟨[], .delivered, b⟩ where
  grows := .refl _ b
  silent _ _ := rfl
  returns _ := rfl
  exact _ := by rw [List.drop_eq_nil_of_le (List.getElem?_eq_none_iff.1 h)]; rfl

/-- A call, and a cancellation in it. -/
theorem Performed.cancelled {e : ε} {event handler : String} {position : Nat}
    (h : Performed depth b p) (hp : p.ending = .cancelled) :
    Delivered depth e event position b (p.after [.called depth handler e]) where
  grows := h.grows.called
  silent k hk := by
    rw [Publication.after, ownCalls_append, h.silent k (Nat.le_of_lt hk), List.append_nil,
      ownCalls_called, if_neg (Nat.ne_of_gt hk), ownCalls_nil]
  returns hne := absurd hp hne
  exact hne := absurd hp hne

/-- **A call and the pass from the next position on.** The list has only grown behind the position,
so the handler is still there at the end. -/
theorem Performed.next {e : ε} {event handler : String} {position : Nat}
    (hget : (b.handlersOf event)[position]? = some handler) (h : Performed depth b p)
    (h' : Delivered depth e event (position + 1) p.bus q) :
    Delivered depth e event position b (q.after (.called depth handler e :: p.record)) where
  grows := h.grows.trans h'.grows
  silent k hk := by
    rw [Publication.after, ownCalls_append, ownCalls_called, if_neg (Nat.ne_of_gt hk),
      h.silent k (Nat.le_of_lt hk), h'.silent k hk]
    rfl
  returns := h'.returns
  exact hne := by
    have hend : (q.bus.handlersOf event)[position]? = some handler := by
      obtain ⟨hlt, rfl⟩ := List.getElem?_eq_some_iff.1 hget
      have hgrown := (h.grows.trans h'.grows) event
      rw [show (q.after p.record).bus = q.bus from rfl] at hgrown
      rw [hgrown, List.getElem?_append_left hlt, List.getElem?_eq_getElem hlt]
    obtain ⟨hlt, hhandler⟩ := List.getElem?_eq_some_iff.1 hend
    rw [Publication.after, ownCalls_append, ownCalls_called, if_pos rfl,
      h.silent depth (Nat.le_refl _), h'.exact hne]
    show (handler, e) :: List.map _ _ = List.map _ ((q.bus.handlersOf event).drop position)
    rw [List.drop_eq_getElem_cons hlt, hhandler, List.map_cons]

/-- **What a pass does to the bus, and the calls it makes**, by induction on what programs and
passes come to. -/
theorem delivered_of_delivers {a : Audience σ ε} {e : ε} {event : String} {position : Nat}
    (h : a.Delivers depth e event position b p) : Delivered depth e event position b p := by
  induction h using @Audience.Delivers.rec σ ε a (fun depth _ b p _ => Performed depth b p) with
  | finish => exact ⟨.refl _ _, fun _ _ => rfl⟩
  | fail => exact ⟨.refl _ _, fun _ _ => rfl⟩
  | cancel => exact ⟨.refl _ _, fun _ _ => rfl⟩
  | act _ ih => exact ih.act
  | subscribe _ ih => exact ⟨ih.grows.subscribe, ih.silent⟩
  | publish _ _ ihOther ih => exact ih.after_delivered ihOther
  | done h => exact .done h
  | cancelled _ _ hp ih => exact ih.cancelled hp
  | next h _ _ _ ih ihRest => exact ih.next h ihRest

/-- What a publishing does to the bus, and the calls it makes. -/
theorem delivered_of_publishes {a : Audience σ ε} {e : ε} (h : a.Publishes depth e b p) :
    Delivered depth e (a.nameOf b.memory e) 0 b p :=
  delivered_of_delivers h

end Exact

/-! ### Exceptions -/

/-- A program that ends quietly where another ends with an exception. -/
def Program.quiet {σ ε : Type} : Program σ ε → Program σ ε
  | finish => finish
  | fail => finish
  | cancel => cancel
  | act change next => act change fun w => (next w).quiet
  | subscribe event handler next => subscribe event handler next.quiet
  | publish e next => publish e fun d => (next d).quiet

namespace Audience

variable {σ ε : Type} (a : Audience σ ε)

/-- An audience of handlers that end quietly where others end with an exception. -/
def quiet : Audience σ ε :=
  { a with react := fun handler e => (a.react handler e).quiet }

end Audience

/-- The end of a handler's program without exceptions. -/
def Publication.quiet {σ ε : Type} (p : Publication σ ε) : Publication σ ε :=
  { p with ending := if p.ending = .failed then .delivered else p.ending }

theorem Publication.quiet_of_cancelled {σ ε : Type} {p : Publication σ ε}
    (h : p.ending = .cancelled) : p.quiet = p := by
  obtain ⟨record, ending, bus⟩ := p
  cases h
  rfl

theorem Publication.cancelled_of_quiet {σ ε : Type} {p : Publication σ ε}
    (h : p.quiet.ending = .cancelled) : p.ending = .cancelled := by
  obtain ⟨record, ending, bus⟩ := p
  cases ending with
  | delivered => cases h
  | failed => cases h
  | cancelled => rfl

namespace Audience

variable {σ ε : Type} (a : Audience σ ε)

/-- Exceptions change nothing but how the programs of handlers end. -/
theorem quiet_delivers {depth : Nat} {e : ε} {event : String} {position : Nat} {b : Memory σ}
    {p : Publication σ ε} (h : a.Delivers depth e event position b p) :
    a.quiet.Delivers depth e event position b p := by
  induction h using @Delivers.rec σ ε a
    (fun depth r b p _ => a.quiet.Performs depth r.quiet b p.quiet) with
  | finish => exact .finish
  | fail => exact .finish
  | cancel => exact .cancel
  | act _ ih => exact .act ih
  | subscribe _ ih => exact .subscribe ih
  | @publish depth b e next p q _ _ ihOther ih =>
    have hpublish : a.quiet.Performs depth (.publish e fun d => (next d).quiet) b
        (q.quiet.after p.record) := .publish ihOther ih
    exact hpublish
  | done h => exact .done h
  | cancelled h _ hp ih =>
    rw [Publication.quiet_of_cancelled hp] at ih
    exact .cancelled h ih hp
  | @next _ _ _ _ _ _ p _ h _ hp _ ih ihRest =>
    exact .next (p := p.quiet) h ih (mt Publication.cancelled_of_quiet hp) ihRest

/-- The same for publishings. -/
theorem quiet_publishes {depth : Nat} {e : ε} {b : Memory σ} {p : Publication σ ε}
    (h : a.Publishes depth e b p) : a.quiet.Publishes depth e b p :=
  a.quiet_delivers h

end Audience
end Bus
end Runbook
