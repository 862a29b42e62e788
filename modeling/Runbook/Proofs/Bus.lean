import Runbook.Bus
import Runbook.Run.Event
import Mathlib.Data.List.Basic

/-!
# Delivery

What publishing comes to on a bus in memory whose handlers do anything: a handler reacts to an event
with a program of its own, which may write into the payload, use the bus again, keep a memory and
end with an exception. Programs can publish without end, so a delivery is a relation: it relates a
bus to what it is afterwards if the delivery ends at all.

* `Delivers`, `Performs`: the deliveries of an event, and the performances of a reaction;
* `delivers_ne_cancelled`: ordinary exceptions of handlers do not leave a delivery;
* `Passes`, `passes_deliver`: what the executable bus does, without its levels;
* `delivers_publish`: `Bus.publish` is the delivery for handlers that follow a list of actions.
-/

namespace Runbook
namespace Bus

/-- An event as handlers see it. -/
structure Notice where
  event : String
  payload : Table String Value
  executionId : String
  workflow : String

namespace Notice

/-- A lifecycle event as handlers see it. -/
def ofEvent (e : Event) : Notice := ⟨e.kind.name, e.payload, e.executionId, e.workflow⟩

/-- Write into the payload. -/
def set (n : Notice) (key : String) (v : Value) : Notice :=
  { n with payload := n.payload.set key v }

end Notice

/-- What a handler does when it is called. The memory is one that the handlers share. -/
inductive Reaction (γ : Type) : Type
  | finish
  /-- End with an ordinary exception. -/
  | fail
  /-- End with a cancellation. -/
  | cancel
  /-- Write into the payload, which all handlers of the event share. -/
  | set (key : String) (v : Value) (next : Reaction γ)
  | subscribe (event handler : String) (next : Reaction γ)
  | publish (n : Notice) (next : Reaction γ)
  | consult (next : γ → Reaction γ)
  | remember (memory : γ) (next : Reaction γ)

/-- Whether a reaction never ends with a cancellation of its own. -/
def Reaction.NeverCancels {γ : Type} : Reaction γ → Prop
  | finish => True
  | fail => True
  | cancel => False
  | set _ _ next => next.NeverCancels
  | subscribe _ _ next => next.NeverCancels
  | publish _ next => next.NeverCancels
  | consult next => ∀ memory, (next memory).NeverCancels
  | remember _ next => next.NeverCancels

/-- A bus in memory, with the memory of its handlers. -/
structure Memory (γ : Type) where
  subscriptions : Table String (List String)
  memory : γ

namespace Memory

variable {γ : Type}

/-- The handlers of an event, in order of subscription. -/
def handlersOf (m : Memory γ) (event : String) : List String :=
  (m.subscriptions.get? event).getD []

/-- Subscribe a handler to an event. -/
def subscribe (m : Memory γ) (event handler : String) : Memory γ :=
  { m with subscriptions := m.subscriptions.set event (m.handlersOf event ++ [handler]) }

end Memory

/-- The reactions of handlers to events. -/
abbrev Reactions (γ : Type) := String → Notice → Reaction γ

mutual

/-- Deliveries of an event to its handlers from a position on, with the calls that the delivery
makes itself. The handlers are those that are subscribed when their turn comes. -/
inductive Delivers {γ : Type} (react : Reactions γ) :
    Notice → Nat → Memory γ → List (String × Notice) → Delivery → Memory γ → Prop
  | done {n : Notice} {i : Nat} {m : Memory γ} (h : (m.handlersOf n.event).length ≤ i) :
      Delivers react n i m [] .delivered m
  /-- The end of a call, be it an ordinary exception, lets the next handler have its turn. -/
  | next {n n' : Notice} {i : Nat} {m m' m'' : Memory γ} {handler : String} {d d' : Delivery}
      {own : List (String × Notice)} (h : (m.handlersOf n.event)[i]? = some handler)
      (hcall : Performs react n (react handler n) m n' d m') (hd : d ≠ .cancelled)
      (hrest : Delivers react n' (i + 1) m' own d' m'') :
      Delivers react n i m ((handler, n) :: own) d' m''
  /-- A cancellation ends the delivery. -/
  | cancelled {n n' : Notice} {i : Nat} {m m' : Memory γ} {handler : String}
      (h : (m.handlersOf n.event)[i]? = some handler)
      (hcall : Performs react n (react handler n) m n' .cancelled m') :
      Delivers react n i m [(handler, n)] .cancelled m'

/-- Performances of a reaction to an event, which relate the event and the bus before it to how it
ends and to what the two are then. -/
inductive Performs {γ : Type} (react : Reactions γ) :
    Notice → Reaction γ → Memory γ → Notice → Delivery → Memory γ → Prop
  | finish {n : Notice} {m : Memory γ} : Performs react n .finish m n .delivered m
  | fail {n : Notice} {m : Memory γ} : Performs react n .fail m n .failed m
  | cancel {n : Notice} {m : Memory γ} : Performs react n .cancel m n .cancelled m
  | set {n n' : Notice} {key : String} {v : Value} {r : Reaction γ} {m m' : Memory γ}
      {d : Delivery} (h : Performs react (n.set key v) r m n' d m') :
      Performs react n (.set key v r) m n' d m'
  | subscribe {n n' : Notice} {event handler : String} {r : Reaction γ} {m m' : Memory γ}
      {d : Delivery} (h : Performs react n r (m.subscribe event handler) n' d m') :
      Performs react n (.subscribe event handler r) m n' d m'
  | publish {n n' other : Notice} {r : Reaction γ} {m m' m'' : Memory γ} {d : Delivery}
      {own : List (String × Notice)} (hother : Delivers react other 0 m own .delivered m')
      (h : Performs react n r m' n' d m'') : Performs react n (.publish other r) m n' d m''
  | publishCancelled {n other : Notice} {r : Reaction γ} {m m' : Memory γ}
      {own : List (String × Notice)} (hother : Delivers react other 0 m own .cancelled m') :
      Performs react n (.publish other r) m n .cancelled m'
  | consult {n n' : Notice} {r : γ → Reaction γ} {m m' : Memory γ} {d : Delivery}
      (h : Performs react n (r m.memory) m n' d m') : Performs react n (.consult r) m n' d m'
  | remember {n n' : Notice} {r : Reaction γ} {m m' : Memory γ} {memory : γ} {d : Delivery}
      (h : Performs react n r { m with memory := memory } n' d m') :
      Performs react n (.remember memory r) m n' d m'

end

section Delivers

variable {γ : Type} {react : Reactions γ}

/-- **A delivery is cancelled only by a handler that cancels.** -/
theorem delivers_ne_cancelled (hreact : ∀ handler n, (react handler n).NeverCancels) {n : Notice}
    {i : Nat} {m m' : Memory γ} {own : List (String × Notice)} {d : Delivery}
    (h : Delivers react n i m own d m') : d ≠ .cancelled := by
  -- by induction on deliveries and performances at once
  refine @Delivers.rec γ react (fun _ _ _ _ d _ _ => d ≠ .cancelled)
    (fun _ r _ _ d _ _ => r.NeverCancels → d ≠ .cancelled) ?done ?next ?cancelled ?finish ?fail
    ?cancel ?set ?subscribe ?publish ?publishCancelled ?consult ?remember _ _ _ _ _ _ h
  case done => simp
  case next => exact fun _ _ _ _ _ ih => ih
  case cancelled => exact fun _ _ ih => ih (hreact _ _)
  case finish => simp
  case fail => simp
  case cancel => exact fun hr => hr.elim
  case set => exact fun _ ih hr => ih hr
  case subscribe => exact fun _ ih hr => ih hr
  case publish => exact fun _ _ _ ih hr => ih hr
  case publishCancelled => exact fun _ ih _ => ih
  case consult => exact fun _ ih hr => ih (hr _)
  case remember => exact fun _ ih hr => ih hr

end Delivers

/-! ### Handlers that follow lists of actions -/

/-- What a handler does that follows a list of actions when it is called for the first time. -/
def script {γ : Type} (handler : String) : List Action → Reaction γ
  | [] => .finish
  | .fail :: _ => .fail
  | .cancel :: _ => .cancel
  | .set key v :: r => .set key v (script handler r)
  | .subscribe event other :: r => .subscribe event other (script handler r)
  | .publish event :: r => .publish ⟨event, [("from", .str handler)], "", ""⟩ (script handler r)

/-- What it does when it is called again. -/
def repeated {γ : Type} : List Action → Reaction γ
  | [] => .finish
  | .fail :: _ => .fail
  | .cancel :: _ => .cancel
  | .set key v :: r => .set key v (repeated r)
  | _ :: r => repeated r

/-- The list of actions of a handler. -/
def actionsOf (handlers : Handlers) (handler : String) : List Action :=
  (handlers.get? handler).getD []

/-- Whether a handler does anything and is not among those that were called. -/
def isFirst (handlers : Handlers) (called : List String) (handler : String) : Bool :=
  handlers.has handler && !called.contains handler

/-- The reactions of handlers that follow lists of actions; they remember who was called. -/
def scripted (handlers : Handlers) : Reactions (List String) := fun handler _ =>
  .consult fun called =>
    if isFirst handlers called handler then
      .remember (handler :: called) (script handler (actionsOf handlers handler))
    else repeated (actionsOf handlers handler)

/-! ### The executable bus -/

/-- The bus that a state describes; its handlers remember who was called. -/
def State.memory (s : State) : Memory (List String) := ⟨s.subscriptions, s.called⟩

/-- How a delivery has ended. -/
def Progress.delivery (p : Progress) : Delivery :=
  if p.cancelled then .cancelled else .delivered

section Scripted

variable (handlers : Handlers)

/-- The more handlers were called, the fewer are left. -/
theorem fresh_le_of_subset (s s' : State) (h : s.called ⊆ s'.called) :
    s'.fresh handlers ≤ s.fresh handlers := by
  unfold State.fresh
  rw [← List.countP_eq_length_filter, ← List.countP_eq_length_filter]
  refine List.countP_mono_left fun e _ he => ?_
  simp only [Bool.not_eq_true', List.contains_eq_mem, decide_eq_false_iff_not] at he ⊢
  exact fun hmem => he (h hmem)

/-- After a handler was called for the first time there is one less that is left. -/
theorem fresh_lt_of_first {s : State} {handler : String} (hhas : handlers.has handler = true)
    (hcalled : handler ∉ s.called) :
    ({ s with called := handler :: s.called } : State).fresh handlers < s.fresh handlers := by
  induction handlers with
  | nil => simp [Table.has] at hhas
  | cons e r ih =>
    by_cases he : e.1 = handler
    · have hle := fresh_le_of_subset r s { s with called := handler :: s.called }
        (List.subset_cons_self handler s.called)
      simp only [State.fresh, List.filter_cons] at hle ⊢
      simpa [he, hcalled] using Nat.lt_succ_of_le hle
    · have hlt := ih (by simpa [Table.has, Table.get?, he] using hhas)
      simp only [State.fresh, List.filter_cons] at hlt ⊢
      by_cases hc : e.1 ∈ s.called <;> simpa [he, hc] using hlt

/-- A repeated list of actions performs itself. -/
theorem performs_repeated (actions : List Action) (n : Notice) (m : Memory (List String)) :
    ∃ d, Performs (scripted handlers) n (repeated actions) m
        { n with payload := (repeatActions n.payload actions).1 } d m ∧
      (d = .cancelled ↔ (repeatActions n.payload actions).2 = true) := by
  induction actions generalizing n with
  | nil => exact ⟨_, .finish, by simp [repeatActions]⟩
  | cons a r ih =>
    cases a with
    | fail => exact ⟨_, .fail, by simp [repeatActions]⟩
    | cancel => exact ⟨_, .cancel, by simp [repeatActions]⟩
    | set key v =>
      obtain ⟨d, hr, hd⟩ := ih (n.set key v)
      exact ⟨d, .set hr, hd⟩
    | subscribe event other => exact ih n
    | publish event => exact ih n

theorem performs_of_not_first {n n' : Notice} {handler : String} {m m' : Memory (List String)}
    {d : Delivery} (hf : isFirst handlers m.memory handler = false)
    (h : Performs (scripted handlers) n (repeated (actionsOf handlers handler)) m n' d m') :
    Performs (scripted handlers) n (scripted handlers handler n) m n' d m' := by
  refine .consult ?_
  rw [if_neg (by simp [hf])]
  exact h

theorem performs_of_first {n n' : Notice} {handler : String} {m m' : Memory (List String)}
    {d : Delivery} (hf : isFirst handlers m.memory handler = true)
    (h : Performs (scripted handlers) n (script handler (actionsOf handlers handler))
      { m with memory := handler :: m.memory } n' d m') :
    Performs (scripted handlers) n (scripted handlers handler n) m n' d m' := by
  refine .consult ?_
  rw [if_pos hf]
  exact .remember h

section Deliver

variable {handlers} {level : Nat} {event : String} {payload : Table String Value} {position : Nat}
  {p : Progress} {handler : String}

theorem deliver_of_length_le (h : (p.state.handlersOf event).length ≤ position) :
    deliver handlers level event payload position p = p := by
  rw [deliver, dif_neg (Nat.not_lt_of_le h)]

/-- A handler that was called before repeats its actions. -/
theorem deliver_of_not_first (h : (p.state.handlersOf event)[position]? = some handler)
    (hf : isFirst handlers p.state.called handler = false) :
    deliver handlers level event payload position p =
      let (payload', cancelled) := repeatActions payload (actionsOf handlers handler)
      let calls := p.calls ++ [⟨handler, event, payload⟩]
      if cancelled then ⟨p.state, calls, true⟩
      else deliver handlers level event payload' (position + 1) ⟨p.state, calls, false⟩ := by
  obtain ⟨hlt, rfl⟩ := List.getElem?_eq_some_iff.1 h
  rw [deliver, dif_pos hlt]
  cases level with
  | zero => rfl
  | succ level =>
    unfold isFirst at hf
    simp only [hf, actionsOf]
    rfl

/-- What the executable bus has come to when it calls a handler for the first time. -/
def Progress.begin (p : Progress) (handler event : String) (payload : Table String Value) :
    Progress :=
  ⟨{ p.state with called := handler :: p.state.called }, p.calls ++ [⟨handler, event, payload⟩],
    false⟩

/-- A handler that was never called performs its actions. -/
theorem deliver_of_first (h : (p.state.handlersOf event)[position]? = some handler)
    (hf : isFirst handlers p.state.called handler = true) :
    deliver handlers (level + 1) event payload position p =
      let (payload', p') := perform handlers level handler payload (actionsOf handlers handler)
        (p.begin handler event payload)
      if p'.cancelled then p' else deliver handlers level event payload' (position + 1) p' := by
  obtain ⟨hlt, rfl⟩ := List.getElem?_eq_some_iff.1 h
  unfold isFirst at hf
  rw [deliver, dif_pos hlt]
  simp only [hf, actionsOf]
  rfl

end Deliver

/-! ### Passes

What the executable bus does, as a relation that has no levels. All that is known of the executable
bus is proved by induction on it. -/

mutual

/-- What the actions of a handler come to that is called for the first time. -/
inductive Acts (handlers : Handlers) :
    String → Notice → List Action → Progress → Table String Value → Progress → Prop
  | nil {handler : String} {n : Notice} {p : Progress} (hp : p.cancelled = false) :
      Acts handlers handler n [] p n.payload p
  | fail {handler : String} {n : Notice} {actions : List Action} {p : Progress}
      (hp : p.cancelled = false) : Acts handlers handler n (.fail :: actions) p n.payload p
  | cancel {handler : String} {n : Notice} {actions : List Action} {p : Progress} :
      Acts handlers handler n (.cancel :: actions) p n.payload { p with cancelled := true }
  | set {handler key : String} {v : Value} {n : Notice} {actions : List Action} {p q : Progress}
      {payload : Table String Value}
      (h : Acts handlers handler (n.set key v) actions p payload q) :
      Acts handlers handler n (.set key v :: actions) p payload q
  | subscribe {handler event other : String} {n : Notice} {actions : List Action}
      {p q : Progress} {payload : Table String Value}
      (h : Acts handlers handler n actions { p with state := p.state.subscribe event other }
        payload q) :
      Acts handlers handler n (.subscribe event other :: actions) p payload q
  | publish {handler event : String} {n : Notice} {actions : List Action} {p q r : Progress}
      {payload : Table String Value}
      (hother : Passes handlers ⟨event, [("from", .str handler)], "", ""⟩ 0 p q)
      (hq : q.cancelled = false) (h : Acts handlers handler n actions q payload r) :
      Acts handlers handler n (.publish event :: actions) p payload r
  | publishCancelled {handler event : String} {n : Notice} {actions : List Action}
      {p q : Progress} (hother : Passes handlers ⟨event, [("from", .str handler)], "", ""⟩ 0 p q)
      (hq : q.cancelled = true) : Acts handlers handler n (.publish event :: actions) p n.payload q

/-- Passes of the executable bus through the handlers of an event, from a position on. -/
inductive Passes (handlers : Handlers) : Notice → Nat → Progress → Progress → Prop
  | done {n : Notice} {position : Nat} {p : Progress}
      (h : (p.state.handlersOf n.event)[position]? = none) (hp : p.cancelled = false) :
      Passes handlers n position p p
  /-- A handler that was called before repeats its actions, and the next one has its turn. -/
  | again {n : Notice} {position : Nat} {p q : Progress} {handler : String}
      {payload : Table String Value} (h : (p.state.handlersOf n.event)[position]? = some handler)
      (hf : isFirst handlers p.state.called handler = false)
      (hr : repeatActions n.payload (actionsOf handlers handler) = (payload, false))
      (hrest : Passes handlers { n with payload := payload } (position + 1)
        ⟨p.state, p.calls ++ [⟨handler, n.event, n.payload⟩], false⟩ q) :
      Passes handlers n position p q
  | againCancelled {n : Notice} {position : Nat} {p : Progress} {handler : String}
      {payload : Table String Value} (h : (p.state.handlersOf n.event)[position]? = some handler)
      (hf : isFirst handlers p.state.called handler = false)
      (hr : repeatActions n.payload (actionsOf handlers handler) = (payload, true)) :
      Passes handlers n position p ⟨p.state, p.calls ++ [⟨handler, n.event, n.payload⟩], true⟩
  /-- A handler that was never called does its actions, and the next one has its turn. -/
  | first {n : Notice} {position : Nat} {p q r : Progress} {handler : String}
      {payload : Table String Value} (h : (p.state.handlersOf n.event)[position]? = some handler)
      (hf : isFirst handlers p.state.called handler = true)
      (hcall : Acts handlers handler n (actionsOf handlers handler)
        (p.begin handler n.event n.payload) payload q) (hq : q.cancelled = false)
      (hrest : Passes handlers { n with payload := payload } (position + 1) q r) :
      Passes handlers n position p r
  | firstCancelled {n : Notice} {position : Nat} {p q : Progress} {handler : String}
      {payload : Table String Value} (h : (p.state.handlersOf n.event)[position]? = some handler)
      (hf : isFirst handlers p.state.called handler = true)
      (hcall : Acts handlers handler n (actionsOf handlers handler)
        (p.begin handler n.event n.payload) payload q) (hq : q.cancelled = true) :
      Passes handlers n position p q

end

mutual

/-- **The executable bus passes through the handlers**, as long as the level is no less than the
number of handlers that never were called. -/
theorem passes_deliver (level : Nat) (n : Notice) (position : Nat) (p : Progress)
    (hp : p.cancelled = false) (hlevel : p.state.fresh handlers ≤ level) :
    let q := deliver handlers level n.event n.payload position p
    Passes handlers n position p q ∧ p.state.called ⊆ q.state.called := by
  intro q
  unfold q
  cases hget : (p.state.handlersOf n.event)[position]? with
  | none =>
    rw [deliver_of_length_le (List.getElem?_eq_none_iff.1 hget)]
    exact ⟨.done hget hp, List.Subset.refl _⟩
  | some handler =>
    have hlt := (List.getElem?_eq_some_iff.1 hget).1
    cases hf : isFirst handlers p.state.called handler with
    | false =>
      rw [deliver_of_not_first hget hf]
      rcases hr : repeatActions n.payload (actionsOf handlers handler) with ⟨payload, cancelled⟩
      cases cancelled with
      | true => exact ⟨.againCancelled hget hf hr, List.Subset.refl _⟩
      | false =>
        obtain ⟨hrest, hsub⟩ := passes_deliver level { n with payload := payload } (position + 1)
          ⟨p.state, p.calls ++ [⟨handler, n.event, n.payload⟩], false⟩ rfl hlevel
        exact ⟨.again hget hf hr hrest, hsub⟩
    | true =>
      obtain ⟨hhas, hcalled⟩ := Bool.and_eq_true_iff.1 hf
      have hfresh := fresh_lt_of_first handlers hhas (by simpa using hcalled)
      have hlt' := Nat.lt_of_lt_of_le hfresh hlevel
      obtain ⟨level, rfl⟩ := Nat.exists_eq_succ_of_ne_zero (Nat.ne_zero_of_lt hlt')
      have hle := Nat.le_of_lt_succ hlt'
      rw [deliver_of_first hget hf]
      obtain ⟨hcall, hsub⟩ := acts_perform level handler n (actionsOf handlers handler)
        (p.begin handler n.event n.payload) rfl hle
      generalize perform handlers level handler n.payload (actionsOf handlers handler)
        (p.begin handler n.event n.payload) = q at hcall hsub
      have hgrows := List.Subset.trans (List.subset_cons_self handler p.state.called) hsub
      cases hq : q.2.cancelled with
      | true =>
        simp only [hq, if_true]
        exact ⟨.firstCancelled hget hf hcall hq, hgrows⟩
      | false =>
        simp only [hq]
        obtain ⟨hrest, hsub'⟩ := passes_deliver level { n with payload := q.1 } (position + 1) q.2
          hq (Nat.le_trans (fresh_le_of_subset handlers _ _ hsub) hle)
        exact ⟨.first hget hf hcall hq hrest, List.Subset.trans hgrows hsub'⟩
termination_by (level, 0, (p.state.handlersOf n.event).length - position)

/-- A handler of the executable bus that is called for the first time does its actions. -/
theorem acts_perform (level : Nat) (handler : String) (n : Notice) (actions : List Action)
    (p : Progress) (hp : p.cancelled = false) (hlevel : p.state.fresh handlers ≤ level) :
    let q := perform handlers level handler n.payload actions p
    Acts handlers handler n actions p q.1 q.2 ∧ p.state.called ⊆ q.2.state.called := by
  intro q
  unfold q
  rw [perform.eq_def]
  cases actions with
  | nil => exact ⟨.nil hp, List.Subset.refl _⟩
  | cons a r =>
    cases a with
    | fail => exact ⟨.fail hp, List.Subset.refl _⟩
    | cancel => exact ⟨.cancel, List.Subset.refl _⟩
    | set key v =>
      obtain ⟨h, hsub⟩ := acts_perform level handler (n.set key v) r p hp hlevel
      exact ⟨.set h, hsub⟩
    | subscribe event other =>
      obtain ⟨h, hsub⟩ := acts_perform level handler n r
        { p with state := p.state.subscribe event other } hp hlevel
      exact ⟨.subscribe h, hsub⟩
    | publish event =>
      obtain ⟨hother, hsub⟩ := passes_deliver level ⟨event, [("from", .str handler)], "", ""⟩
        0 p hp hlevel
      generalize hdeliver : deliver handlers level event [("from", .str handler)] 0 p = q
        at hother hsub
      simp only [hdeliver]
      cases hq : q.cancelled with
      | true => exact ⟨.publishCancelled hother hq, hsub⟩
      | false =>
        obtain ⟨h, hsub'⟩ := acts_perform level handler n r q hq
          (Nat.le_trans (fresh_le_of_subset handlers _ _ hsub) hlevel)
        exact ⟨.publish hother hq h, List.Subset.trans hsub hsub'⟩
termination_by (level, 1, actions.length)

end

/-- Publishing on the executable bus is a pass. -/
theorem passes_publish (n : Notice) (s : State) :
    Passes handlers n 0 ⟨s, [], false⟩ (Bus.publish handlers n.event n.payload s) :=
  (passes_deliver handlers _ n 0 ⟨s, [], false⟩ rfl (Nat.le_refl _)).1

/-- **A pass is a delivery**, by induction on passes and on what actions come to. -/
theorem delivers_of_passes {n : Notice} {position : Nat} {p q : Progress}
    (h : Passes handlers n position p q) :
    ∃ own, Delivers (scripted handlers) n position p.state.memory own q.delivery
      q.state.memory := by
  induction h using @Passes.rec handlers
    (fun handler n actions p payload q _ =>
      ∃ d, Performs (scripted handlers) n (script handler actions) p.state.memory
          { n with payload := payload } d q.state.memory ∧
        (d = .cancelled ↔ q.cancelled = true)) with
  | done h hp =>
    rw [Progress.delivery, hp]
    exact ⟨[], .done (List.getElem?_eq_none_iff.1 h)⟩
  | @again n _ p _ handler payload h hf hr _ ih =>
    obtain ⟨d, hcall, hd⟩ :=
      performs_repeated handlers (actionsOf handlers handler) n p.state.memory
    rw [hr] at hcall hd
    obtain ⟨own, hrest⟩ := ih
    exact ⟨_, .next h (performs_of_not_first handlers hf hcall) (by simp [hd]) hrest⟩
  | @againCancelled n _ p handler payload h hf hr =>
    obtain ⟨d, hcall, hd⟩ :=
      performs_repeated handlers (actionsOf handlers handler) n p.state.memory
    rw [hr] at hcall hd
    obtain rfl := hd.2 rfl
    exact ⟨_, .cancelled h (performs_of_not_first handlers hf hcall)⟩
  | @first _ _ p _ _ _ _ h hf _ hq _ ih ihRest =>
    obtain ⟨d, hcall, hd⟩ := ih
    obtain ⟨own, hrest⟩ := ihRest
    exact ⟨_, .next h (performs_of_first handlers (m := p.state.memory) hf hcall) (by simp [hd, hq])
      hrest⟩
  | @firstCancelled _ _ p _ _ _ h hf _ hq ih =>
    obtain ⟨d, hcall, hd⟩ := ih
    obtain rfl := hd.2 hq
    rw [Progress.delivery, hq]
    exact ⟨_, .cancelled h (performs_of_first handlers (m := p.state.memory) hf hcall)⟩
  | nil hp => exact ⟨_, .finish, by simp [hp]⟩
  | fail hp => exact ⟨_, .fail, by simp [hp]⟩
  | cancel => exact ⟨_, .cancel, by simp⟩
  | set _ ih =>
    obtain ⟨d, h, hd⟩ := ih
    exact ⟨d, .set h, hd⟩
  | subscribe _ ih =>
    obtain ⟨d, h, hd⟩ := ih
    exact ⟨d, .subscribe h, hd⟩
  | publish _ hq _ ihOther ih =>
    obtain ⟨own, hother⟩ := ihOther
    obtain ⟨d, h, hd⟩ := ih
    rw [Progress.delivery, hq] at hother
    exact ⟨d, .publish hother h, hd⟩
  | publishCancelled _ hq ih =>
    obtain ⟨own, hother⟩ := ih
    rw [Progress.delivery, hq] at hother
    exact ⟨_, .publishCancelled hother, by simp [hq]⟩

/-- **Publishing on the executable bus is a delivery.** -/
theorem delivers_publish (n : Notice) (s : State) :
    let q := Bus.publish handlers n.event n.payload s
    ∃ own, Delivers (scripted handlers) n 0 s.memory own q.delivery q.state.memory :=
  delivers_of_passes handlers (passes_publish handlers n s)

/-- Actions none of which cancels never cancel, on a first call and on any other. -/
theorem neverCancels_script {γ : Type} {actions : List Action} (h : ∀ a ∈ actions, a ≠ .cancel)
    (handler : String) :
    (script (γ := γ) handler actions).NeverCancels ∧ (repeated (γ := γ) actions).NeverCancels := by
  induction actions with
  | nil => exact ⟨trivial, trivial⟩
  | cons a r ih =>
    obtain ⟨ha, hr⟩ := List.forall_mem_cons.1 h
    cases a with
    | cancel => exact absurd rfl ha
    | fail => exact ⟨trivial, trivial⟩
    | set key v => exact ih hr
    | subscribe event other => exact ih hr
    | publish event => exact ih hr

theorem mem_of_mem_actionsOf {handler : String} {a : Action} (h : a ∈ actionsOf handlers handler) :
    ∃ e ∈ handlers, a ∈ e.2 := by
  unfold actionsOf at h
  induction handlers with
  | nil => simp at h
  | cons e r ih =>
    rw [Table.get?] at h
    split at h
    · exact ⟨e, List.mem_cons_self, h⟩
    · obtain ⟨e', he', ha⟩ := ih h
      exact ⟨e', List.mem_cons_of_mem _ he', ha⟩

/-- Handlers whose lists hold no cancellation never cancel. -/
theorem neverCancels_scripted (h : ∀ e ∈ handlers, ∀ a ∈ e.2, a ≠ .cancel) (handler : String)
    (n : Notice) : (scripted handlers handler n).NeverCancels := by
  obtain ⟨hfirst, hagain⟩ := neverCancels_script (γ := List String)
    (fun a (ha : a ∈ actionsOf handlers handler) =>
      let ⟨e, he, hae⟩ := mem_of_mem_actionsOf handlers ha
      h e he a hae) handler
  intro called
  cases hf : isFirst handlers called handler with
  | true => simpa only [hf, if_true, Reaction.NeverCancels] using hfirst
  | false => simpa [hf] using hagain

end Scripted
end Bus
end Runbook
