import Runbook.Proofs.Bus.Audience

/-!
# Handlers that follow lists of actions

Reactions, which see the event at hand only, are programs in a world that holds the event objects;
what they write goes into the object of their event. So the executable bus, whose handlers follow
lists of actions, publishes as any bus does.

* `passesIn_of_passes`: its passes are passes of the general bus, with the same calls;
* `publish_scripted`: so its publishing is one of the general bus, which comes to an end;
* `publish_exact`: a publishing calls exactly the handlers that are subscribed when it ends.
-/

namespace Runbook
namespace Bus

/-- What reactions see: the memory that handlers share, and the event objects, by number. -/
structure World (γ : Type) where
  memory : γ
  events : List Notice

namespace World

variable {γ : Type}

/-- The name of an event. -/
def nameOf (w : World γ) (e : Nat) : String :=
  match w.events[e]? with
  | some n => n.event
  | none => ""

/-- Write into the payload of an event. -/
def write (e : Nat) (key : String) (v : Value) (w : World γ) : World γ :=
  { w with events := w.events.modify e fun n => n.set key v }

/-- Make an event object, whose number is how many there were before. -/
def create (n : Notice) (w : World γ) : World γ :=
  { w with events := w.events ++ [n] }

end World

/-- The program of a reaction to an event. -/
def Reaction.program {γ : Type} (e : Nat) : Reaction γ → Program (World γ) Nat
  | finish => .finish
  | fail => .fail
  | cancel => .cancel
  | set key v next => .act (World.write e key v) fun _ => next.program e
  | subscribe event handler next => .subscribe event handler (next.program e)
  | publish n next => .act (World.create n) fun w => .publish w.events.length fun d =>
      if d = .cancelled then .cancel else next.program e
  | consult next => .act id fun w => (next w.memory).program e
  | remember memory next => .act (fun w => { w with memory := memory }) fun _ => next.program e

/-- The handlers that react to what is in the event object. -/
def Reactions.audience {γ : Type} (react : Reactions γ) : Audience (World γ) Nat where
  nameOf := World.nameOf
  react handler e := .act id fun w =>
    match w.events[e]? with
    | some n => (react handler n).program e
    | none => .finish

/-- The bus that a state of the executable bus describes, with event objects. -/
def State.world (s : State) (events : List Notice) : Memory (World (List String)) :=
  ⟨s.subscriptions, ⟨s.called, events⟩⟩

/-- The handlers that are called, whoever calls them. -/
def callees {ε : Type} (record : List (Entry ε)) : List String :=
  record.filterMap fun
    | .called _ handler _ => some handler
    | .subscribed _ _ => none

@[simp] theorem callees_nil {ε : Type} : callees ([] : List (Entry ε)) = [] := rfl

@[simp] theorem callees_append {ε : Type} (record record' : List (Entry ε)) :
    callees (record ++ record') = callees record ++ callees record' :=
  List.filterMap_append

@[simp] theorem callees_called {ε : Type} (k : Nat) (handler : String) (e : ε)
    (record : List (Entry ε)) :
    callees (.called k handler e :: record) = handler :: callees record := rfl

@[simp] theorem callees_subscribed {ε : Type} (event handler : String) (record : List (Entry ε)) :
    callees (.subscribed event handler :: record) = callees record := rfl

/-! ### Event objects -/

/-- The event objects after a publishing of one of them: it holds what it is left with, the others
are as before, and there may be new ones. -/
def Leaves (e : Nat) (n : Notice) (events events' : List Notice) : Prop :=
  ∃ more, events' = events.set e n ++ more

section Leaves

variable {e : Nat} {n n' : Notice} {events events' events'' : List Notice}

theorem leaves_refl (he : events[e]? = some n) : Leaves e n events events := by
  obtain ⟨hlt, rfl⟩ := List.getElem?_eq_some_iff.1 he
  exact ⟨[], by rw [List.set_getElem_self, List.append_nil]⟩

theorem Leaves.getElem? (h : Leaves e n events events') (he : e < events.length) :
    events'[e]? = some n := by
  obtain ⟨more, rfl⟩ := h
  rw [List.getElem?_append_left (by simpa using he), List.getElem?_set_self he]

theorem Leaves.trans (h : Leaves e n events events') (h' : Leaves e n' events' events'')
    (he : e < events.length) : Leaves e n' events events'' := by
  obtain ⟨more, rfl⟩ := h
  obtain ⟨more', rfl⟩ := h'
  refine ⟨more ++ more', ?_⟩
  rw [List.set_append_left _ _ (by simpa using he), List.set_set, List.append_assoc]

/-- Writing into an event object leaves it with what is written. -/
theorem leaves_modify (he : events[e]? = some n) (f : Notice → Notice) :
    Leaves e (f n) events (events.modify e f) := by
  refine ⟨[], ?_⟩
  rw [List.modify_eq_set_getElem?, he, List.append_nil]
  rfl

/-- A publishing of a new event leaves the event at hand as it is. -/
theorem Leaves.of_new {m m' : Notice} (h : Leaves events.length m' (events ++ [m]) events')
    (he : events[e]? = some n) : Leaves e n events events' := by
  obtain ⟨more, rfl⟩ := h
  obtain ⟨hlt, rfl⟩ := List.getElem?_eq_some_iff.1 he
  refine ⟨m' :: more, ?_⟩
  rw [List.set_append_right _ _ (Nat.le_refl _), List.set_getElem_self, Nat.sub_self,
    List.set_cons_zero, List.append_assoc]
  rfl

end Leaves

/-! ### The executable bus -/

section Scripted

variable (handlers : Handlers) {n : Notice} {e : Nat} {events : List Notice}

theorem World.nameOf_eq {γ : Type} {w : World γ} (h : w.events[e]? = some n) :
    w.nameOf e = n.event := by
  simp [nameOf, h]

section Publish

variable {γ : Type} {react : Reactions γ} {depth : Nat} {m : Notice} {b : Memory (World γ)}
  {p q : Publication (World γ) Nat}

/-- A new event object is published under the name that it was made with. -/
theorem publish_create (h : react.audience.Delivers depth b.memory.events.length m.event 0
      { b with memory := b.memory.create m } p) :
    react.audience.Publishes depth b.memory.events.length
      { b with memory := b.memory.create m } p := by
  have hname : (b.memory.create m).nameOf b.memory.events.length = m.event :=
    World.nameOf_eq (by simp [World.create])
  rw [← hname] at h
  exact h

/-- A reaction goes on after what it has published. -/
theorem perform_published (next : Reaction γ) (b : Memory (World γ))
    (h : react.audience.Delivers (depth + 1) b.memory.events.length m.event 0
      { b with memory := b.memory.create m } p) (hp : p.ending ≠ .cancelled)
    (h' : react.audience.Performs depth (next.program e) p.bus q) :
    react.audience.Performs depth ((Reaction.publish m next).program e) b (q.after p.record) := by
  refine .act (.publish (publish_create h) ?_)
  rw [if_neg hp]
  exact h'

/-- A reaction is cancelled with what it has published. -/
theorem perform_published_cancelled (next : Reaction γ) (b : Memory (World γ))
    (h : react.audience.Delivers (depth + 1) b.memory.events.length m.event 0
      { b with memory := b.memory.create m } p) (hp : p.ending = .cancelled) :
    react.audience.Performs depth ((Reaction.publish m next).program e) b
      (Publication.after ⟨[], .cancelled, p.bus⟩ p.record) := by
  refine .act (.publish (publish_create h) ?_)
  rw [if_pos hp]
  exact .cancel

end Publish

section Call

variable {handlers} {depth : Nat} {handler : String} {b : Memory (World (List String))}
  {q : Publication (World (List String)) Nat}

/-- A handler looks at the object of its event, and at who was called. -/
theorem perform_scripted_react (he : b.memory.events[e]? = some n)
    (h : (scripted handlers).audience.Performs depth
      (Reaction.program e
        (if isFirst handlers b.memory.memory handler then
          .remember (handler :: b.memory.memory) (script handler (actionsOf handlers handler))
        else repeated (actionsOf handlers handler))) b q) :
    (scripted handlers).audience.Performs depth ((scripted handlers).audience.react handler e) b
      q := by
  refine .act ?_
  simp only [he, scripted, Reaction.program]
  exact .act h

/-- A handler that was called before repeats its actions. -/
theorem perform_of_not_first (he : b.memory.events[e]? = some n)
    (hf : isFirst handlers b.memory.memory handler = false)
    (h : (scripted handlers).audience.Performs depth
      ((repeated (actionsOf handlers handler)).program e) b q) :
    (scripted handlers).audience.Performs depth ((scripted handlers).audience.react handler e) b
      q := by
  refine perform_scripted_react he ?_
  rw [if_neg (by simp [hf])]
  exact h

/-- A handler that was never called is remembered and follows its actions. -/
theorem perform_of_first (he : b.memory.events[e]? = some n)
    (hf : isFirst handlers b.memory.memory handler = true)
    (h : (scripted handlers).audience.Performs depth
      ((script handler (actionsOf handlers handler)).program e)
      { b with memory := { b.memory with memory := handler :: b.memory.memory } } q) :
    (scripted handlers).audience.Performs depth ((scripted handlers).audience.react handler e) b
      q := by
  refine perform_scripted_react he ?_
  rw [if_pos hf]
  exact .act h

/-- A repeated list of actions makes no calls, and leaves the event with the payload that it comes
to. -/
theorem perform_repeated (handlers : Handlers) (depth : Nat) (b : Memory (World (List String)))
    {actions : List Action} {payload : Table String Value} {cancelled : Bool}
    (h : repeatActions n.payload actions = (payload, cancelled))
    (he : b.memory.events[e]? = some n) :
    ∃ d events, (scripted handlers).audience.Performs depth ((repeated actions).program e) b
        ⟨[], d, { b with memory := { b.memory with events := events } }⟩ ∧
      Leaves e { n with payload := payload } b.memory.events events ∧
      (d = .cancelled ↔ cancelled = true) := by
  induction actions generalizing n b with
  | nil =>
    cases h
    exact ⟨_, _, .finish, leaves_refl he, by simp⟩
  | cons action r ih =>
    cases action with
    | fail =>
      cases h
      exact ⟨_, _, .fail, leaves_refl he, by simp⟩
    | cancel =>
      cases h
      exact ⟨_, _, .cancel, leaves_refl he, by simp⟩
    | set key v =>
      have hlt := (List.getElem?_eq_some_iff.1 he).1
      have hwrite := leaves_modify he fun n => n.set key v
      obtain ⟨d, events, hr, hleaves, hd⟩ :=
        ih { b with memory := b.memory.write e key v } h (hwrite.getElem? hlt)
      exact ⟨d, events, .act hr, hwrite.trans hleaves hlt, hd⟩
    | subscribe event other => exact ih b h he
    | publish event => exact ih b h he

end Call

section Embedding

variable {handlers} {position : Nat} {p q r : Progress} {handler : String} {actions : List Action}
  {payload : Table String Value}

/-- A pass of the executable bus is one of the general bus, whatever event objects there are besides
the one at hand, and makes the same calls. -/
def PassesIn (handlers : Handlers) (n : Notice) (position : Nat) (p q : Progress) : Prop :=
  ∀ (depth e : Nat) (events : List Notice), events[e]? = some n →
    ∃ record n' events', (scripted handlers).audience.Delivers depth e n.event position
        (p.state.world events) ⟨record, q.delivery, q.state.world events'⟩ ∧
      Leaves e n' events events' ∧
      q.calls.map Call.handler = p.calls.map Call.handler ++ callees record

/-- The same for what the actions of a handler come to, with the payload that they leave. -/
def ActsIn (handlers : Handlers) (handler : String) (n : Notice) (actions : List Action)
    (p : Progress) (payload : Table String Value) (q : Progress) : Prop :=
  ∀ (depth e : Nat) (events : List Notice), events[e]? = some n →
    ∃ record d events', (scripted handlers).audience.Performs depth
        ((script handler actions).program e) (p.state.world events)
        ⟨record, d, q.state.world events'⟩ ∧
      Leaves e { n with payload := payload } events events' ∧
      (d = .cancelled ↔ q.cancelled = true) ∧
      q.calls.map Call.handler = p.calls.map Call.handler ++ callees record

theorem PassesIn.done (h : (p.state.handlersOf n.event)[position]? = none)
    (hp : p.cancelled = false) : PassesIn handlers n position p p := by
  intro depth e events he
  rw [Progress.delivery, hp]
  exact ⟨[], _, events, .done h, leaves_refl he, by simp⟩

theorem PassesIn.again (h : (p.state.handlersOf n.event)[position]? = some handler)
    (hf : isFirst handlers p.state.called handler = false)
    (hr : repeatActions n.payload (actionsOf handlers handler) = (payload, false))
    (hrest : PassesIn handlers { n with payload := payload } (position + 1)
      ⟨p.state, p.calls ++ [⟨handler, n.event, n.payload⟩], false⟩ q) :
    PassesIn handlers n position p q := by
  intro depth e events he
  have hlt := (List.getElem?_eq_some_iff.1 he).1
  obtain ⟨d, events₁, hcall, hleaves, hd⟩ :=
    perform_repeated handlers depth (p.state.world events) hr he
  obtain ⟨record, n', events', hrest, hleaves', hcalls⟩ := hrest depth e _ (hleaves.getElem? hlt)
  refine ⟨_, n', events', .next h (perform_of_not_first he hf hcall) (by simp [hd]) hrest,
    hleaves.trans hleaves' hlt, hcalls.trans ?_⟩
  simp

theorem PassesIn.againCancelled (h : (p.state.handlersOf n.event)[position]? = some handler)
    (hf : isFirst handlers p.state.called handler = false)
    (hr : repeatActions n.payload (actionsOf handlers handler) = (payload, true)) :
    PassesIn handlers n position p
      ⟨p.state, p.calls ++ [⟨handler, n.event, n.payload⟩], true⟩ := by
  intro depth e events he
  obtain ⟨d, events', hcall, hleaves, hd⟩ :=
    perform_repeated handlers depth (p.state.world events) hr he
  obtain rfl := hd.2 rfl
  exact ⟨_, _, events', .cancelled h (perform_of_not_first he hf hcall) rfl, hleaves, by simp⟩

section First

variable (h : (p.state.handlersOf n.event)[position]? = some handler)
  (hf : isFirst handlers p.state.called handler = true)
  (hcall : ActsIn handlers handler n (actionsOf handlers handler)
    (p.begin handler n.event n.payload) payload q)

include h hf hcall

theorem ActsIn.first (hq : q.cancelled = false)
    (hrest : PassesIn handlers { n with payload := payload } (position + 1) q r) :
    PassesIn handlers n position p r := by
  intro depth e events he
  have hlt := (List.getElem?_eq_some_iff.1 he).1
  obtain ⟨record, d, events₁, hcall, hleaves, hd, hcalls⟩ := hcall depth e events he
  obtain ⟨record', n', events', hrest, hleaves', hcalls'⟩ :=
    hrest depth e _ (hleaves.getElem? hlt)
  refine ⟨_, n', events', .next h (perform_of_first (b := p.state.world events) he hf hcall)
    (by simp [hd, hq]) hrest, hleaves.trans hleaves' hlt, ?_⟩
  rw [hcalls', hcalls]
  simp [Progress.begin]

theorem ActsIn.firstCancelled (hq : q.cancelled = true) : PassesIn handlers n position p q := by
  intro depth e events he
  obtain ⟨record, d, events', hcall, hleaves, hd, hcalls⟩ := hcall depth e events he
  obtain rfl := hd.2 hq
  rw [Progress.delivery, hq]
  refine ⟨_, _, events', .cancelled h
    (perform_of_first (b := p.state.world events) he hf hcall) rfl, hleaves, hcalls.trans ?_⟩
  simp [Progress.begin]

end First

theorem ActsIn.set {key : String} {v : Value}
    (h : ActsIn handlers handler (n.set key v) actions p payload q) :
    ActsIn handlers handler n (.set key v :: actions) p payload q := by
  intro depth e events he
  have hlt := (List.getElem?_eq_some_iff.1 he).1
  have hwrite := leaves_modify he fun n => n.set key v
  obtain ⟨record, d, events', h, hleaves, hd, hcalls⟩ := h depth e _ (hwrite.getElem? hlt)
  exact ⟨record, d, events', .act h, hwrite.trans hleaves hlt, hd, hcalls⟩

theorem ActsIn.subscribe {event other : String}
    (h : ActsIn handlers handler n actions { p with state := p.state.subscribe event other }
      payload q) :
    ActsIn handlers handler n (.subscribe event other :: actions) p payload q := by
  intro depth e events he
  obtain ⟨record, d, events', h, hleaves, hd, hcalls⟩ := h depth e events he
  exact ⟨.subscribed event other :: record, d, events',
    .subscribe (b := p.state.world events) h, hleaves, hd, hcalls⟩

section Publish

variable {event : String}
  (hother : PassesIn handlers ⟨event, [("from", .str handler)], "", ""⟩ 0 p q)

include hother

/-- What is published is a new event object behind all others. -/
theorem PassesIn.publish (hq : q.cancelled = false)
    (h : ActsIn handlers handler n actions q payload r) :
    ActsIn handlers handler n (.publish event :: actions) p payload r := by
  intro depth e events he
  have hlt := (List.getElem?_eq_some_iff.1 he).1
  obtain ⟨record, m', events₁, hother, hleaves, hcalls⟩ :=
    hother (depth + 1) events.length _ List.getElem?_concat_length
  have hleaves := hleaves.of_new he
  obtain ⟨record', d, events', h, hleaves', hd, hcalls'⟩ := h depth e _ (hleaves.getElem? hlt)
  refine ⟨record ++ record', d, events',
    perform_published (script handler actions) (p.state.world events) hother
      (by simp [Progress.delivery, hq]) h, hleaves.trans hleaves' hlt, hd, ?_⟩
  rw [callees_append, ← List.append_assoc, ← hcalls]
  exact hcalls'

theorem PassesIn.publishCancelled (hq : q.cancelled = true) :
    ActsIn handlers handler n (.publish event :: actions) p n.payload q := by
  intro depth e events he
  obtain ⟨record, m', events', hother, hleaves, hcalls⟩ :=
    hother (depth + 1) events.length _ List.getElem?_concat_length
  exact ⟨record ++ [], .cancelled, events',
    perform_published_cancelled (script handler actions) (p.state.world events) hother
      (by simp [Progress.delivery, hq]), hleaves.of_new he, by simp [hq], by simpa using hcalls⟩

end Publish

/-- **A pass of the executable bus is one of the general bus**, by induction on passes and on what
actions come to. -/
theorem passesIn_of_passes (h : Passes handlers n position p q) :
    PassesIn handlers n position p q := by
  induction h using @Passes.rec handlers
    (fun handler n actions p payload q _ => ActsIn handlers handler n actions p payload q) with
  | nil hp =>
    intro depth e events he
    exact ⟨[], _, events, .finish, leaves_refl he, by simp [hp], by simp⟩
  | fail hp =>
    intro depth e events he
    exact ⟨[], _, events, .fail, leaves_refl he, by simp [hp], by simp⟩
  | cancel =>
    intro depth e events he
    exact ⟨[], _, events, .cancel, leaves_refl he, by simp, by simp⟩
  | set _ ih => exact ih.set
  | subscribe _ ih => exact ih.subscribe
  | publish _ hq _ ihOther ih => exact ihOther.publish hq ih
  | publishCancelled _ hq ihOther => exact ihOther.publishCancelled hq
  | done h hp => exact .done h hp
  | again h hf hr _ ihRest => exact .again h hf hr ihRest
  | againCancelled h hf hr => exact .againCancelled h hf hr
  | first h hf _ hq _ ih ihRest => exact ih.first h hf hq ihRest
  | firstCancelled h hf _ hq ih => exact ih.firstCancelled h hf hq

end Embedding

/-- **Publishing on the executable bus** is publishing as any bus does it: it comes to an end, with
the same calls and the same subscriptions. -/
theorem publish_scripted (n : Notice) (s : State) (events : List Notice) :
    let q := Bus.publish handlers n.event n.payload s
    ∃ record events', (scripted handlers).audience.Publishes 0 events.length
        (s.world (events ++ [n])) ⟨record, q.delivery, q.state.world events'⟩ ∧
      q.calls.map Call.handler = callees record := by
  intro q
  obtain ⟨record, n', events', h, -, hcalls⟩ :=
    passesIn_of_passes (passes_publish handlers n s) 0 events.length _ List.getElem?_concat_length
  exact ⟨record, events', publish_create (b := s.world events) h, hcalls⟩

end Scripted

/-! ### What a publishing calls -/

/-- **A publishing that returns calls exactly the handlers that are subscribed to its event when it
ends**, each subscription once, in order, with the same event object, whatever handlers do. All that
is subscribed meanwhile is added to the lists and nothing is lost; an empty list stays empty; and
all comes to the same, and to nothing else, if handlers end quietly where they raise exceptions. The
executable bus publishes like this. -/
theorem publish_exact :
    (∀ {σ ε : Type} (a : Audience σ ε) (depth : Nat) (e : ε) (b : Memory σ) (p : Publication σ ε),
      a.Publishes depth e b p → p.ending ≠ .cancelled →
        let event := a.nameOf b.memory e
        p.ending = .delivered ∧
        ownCalls depth p.record = (p.bus.handlersOf event).map (fun handler => (handler, e)) ∧
        (∀ other, p.bus.handlersOf other = b.handlersOf other ++ enlisted other p.record) ∧
        (b.handlersOf event = [] → p = ⟨[], .delivered, b⟩) ∧
        (∀ handler, handler ∉ p.bus.handlersOf event →
          ∀ e', (handler, e') ∉ ownCalls depth p.record) ∧
        (∀ q, a.quiet.Publishes depth e b q ↔ q = p)) ∧
      ∀ (handlers : Handlers) (n : Notice) (s : State),
        let q := Bus.publish handlers n.event n.payload s
        ∃ record events, (scripted handlers).audience.Publishes 0 0 (s.world [n])
            ⟨record, q.delivery, q.state.world events⟩ ∧
          q.calls.map Call.handler = callees record := by
  refine ⟨fun a depth e b p h hp => ?_, fun handlers n s => publish_scripted handlers n s []⟩
  have hdelivered := delivered_of_publishes h
  have hcalls := hdelivered.exact hp
  rw [List.drop_zero] at hcalls
  refine ⟨hdelivered.returns hp, hcalls, hdelivered.grows,
    fun hnil => Audience.publishes_unique h (Audience.publishes_of_nil hnil), ?_,
    fun q => ⟨fun hq => ?_, fun hq => hq ▸ a.quiet_publishes h⟩⟩
  · intro handler hhandler e' hmem
    rw [hcalls] at hmem
    obtain ⟨other, hother, heq⟩ := List.mem_map.1 hmem
    cases heq
    exact hhandler hother
  · exact Audience.publishes_unique hq (a.quiet_publishes h)

namespace Sample

/-- Handlers that raise exceptions. The first call of all, if it is that of `first`, subscribes
another handler to its own event, publishes the event again, and subscribes to another event. The
world is the number of calls. -/
def audience : Audience Nat String where
  nameOf _ e := e
  react handler e := .act (· + 1) fun n =>
    if handler = "first" ∧ n = 0 then
      .subscribe e "late" (.publish e fun _ => .subscribe "other" "late" .fail)
    else .fail

/-- The bus with the handlers of two events. -/
def bus (start other : List String) (calls : Nat) : Memory Nat :=
  ⟨[("start", start), ("other", other)], calls⟩

theorem perform_fail {handler : String} {depth calls : Nat} {start other : List String}
    (h : ¬ (handler = "first" ∧ calls = 0)) :
    audience.Performs depth (audience.react handler "start") (bus start other calls)
      ⟨[], .failed, bus start other (calls + 1)⟩ := by
  refine .act ?_
  rw [if_neg (by simpa [bus] using h)]
  exact .fail

/-- What the calls of both handlers come to, once the first call was made. -/
theorem deliver_again (calls depth : Nat) (other : List String) :
    audience.Delivers depth "start" "start" 0 (bus ["first", "late"] other (calls + 1))
      ⟨[.called depth "first" "start", .called depth "late" "start"], .delivered,
        bus ["first", "late"] other (calls + 3)⟩ :=
  .next rfl (perform_fail (by simp)) (by simp)
    (.next rfl (perform_fail (by simp)) (by simp) (.done rfl))

theorem publish_start :
    audience.Publishes 0 "start" (bus ["first"] ["aside"] 0)
      ⟨[.called 0 "first" "start", .subscribed "start" "late", .called 1 "first" "start",
        .called 1 "late" "start", .subscribed "other" "late", .called 0 "late" "start"], .delivered,
        bus ["first", "late"] ["aside", "late"] 4⟩ := by
  have hrest : audience.Performs 0 (.subscribe "other" "late" .fail)
      (bus ["first", "late"] ["aside"] 3)
        ⟨[.subscribed "other" "late"], .failed, bus ["first", "late"] ["aside", "late"] 3⟩ :=
    .subscribe .fail
  have hfirst : audience.Performs 0 (audience.react "first" "start") (bus ["first"] ["aside"] 0)
      _ :=
    .act (.subscribe (b := bus ["first"] ["aside"] 1)
      (.publish (deliver_again 0 1 ["aside"]) hrest))
  exact .next rfl hfirst (by simp [Publication.after])
    (.next rfl (perform_fail (by simp)) (by simp) (.done rfl))

end Sample

/-- A publishing whose first handler uses the bus: the handler that it subscribes is called once by
it, and once by the publishing inside. -/
theorem publish_exact_sample :
    ∃ p, Sample.audience.Publishes 0 "start" (Sample.bus ["first"] ["aside"] 0) p ∧
      p.ending ≠ .cancelled ∧ p.bus.handlersOf "start" = ["first", "late"] ∧
      ownCalls 0 p.record = [("first", "start"), ("late", "start")] :=
  ⟨_, Sample.publish_start, by simp, rfl,
    (publish_exact.1 Sample.audience 0 "start" _ _ Sample.publish_start (by simp)).2.1⟩

end Bus
end Runbook
