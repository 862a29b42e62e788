import Runbook.Proofs.Bus.Script
import Mathlib.Data.List.Flatten

/-!
# Publishing comes to an end

Handlers that follow lists of actions subscribe and publish only during the first call they ever
get. So every publishing on a bus of such handlers comes to an end, also if they subscribe
themselves or publish the event at hand. Two counts say how soon: what can still be subscribed by
handlers that never were called bounds how long a list becomes (`State.width`), and what they can
still publish bounds how many passes there are.

* `spends_of_passes`: a call is paid for by the pass it belongs to, and a pass by the action that
  publishes;
* `operate_returns`: any sequence of operations on a bus comes to an end, after so many calls;
* `publish_endless`: without the condition on handlers there need not be an end.
-/

namespace Runbook
namespace Bus

/-- Whether an action publishes. -/
def Action.isPublish : Action → Bool
  | publish _ => true
  | _ => false

/-- Whether an action subscribes. -/
def Action.isSubscribe : Action → Bool
  | subscribe _ _ => true
  | _ => false

namespace State

/-- How many actions of a kind there are in the lists of the handlers that never were called. -/
def left (handlers : Handlers) (kind : Action → Bool) (s : State) : Nat :=
  ((handlers.filter fun e => !s.called.contains e.1).flatMap Prod.snd).countP kind

/-- How long a list of subscriptions can become by what handlers do on their first calls. -/
def width (handlers : Handlers) (s : State) (event : String) : Nat :=
  (s.handlersOf event).length + s.left handlers Action.isSubscribe

theorem length_handlersOf_subscribe (s : State) (event handler other : String) :
    ((s.subscribe event handler).handlersOf other).length ≤ (s.handlersOf other).length + 1 := by
  have hgrown := handlersOf_subscribe s.memory event handler other
  change (s.subscribe event handler).handlersOf other = _ at hgrown
  rw [hgrown]
  split
  · exact Nat.le_of_eq List.length_append
  · exact Nat.le_succ _

/-- No list is longer than all lists together. -/
theorem length_handlersOf_le (s : State) (event : String) :
    (s.handlersOf event).length ≤ (s.subscriptions.flatMap Prod.snd).length := by
  unfold handlersOf
  cases h : s.subscriptions.get? event with
  | none => exact Nat.zero_le _
  | some list =>
    have hmem : list ∈ s.subscriptions.map Prod.snd :=
      List.mem_map.2 ⟨(event, list), Table.mem_of_get? h, rfl⟩
    rw [List.flatMap_def]
    exact (List.sublist_flatten_of_mem hmem).length_le

variable {handlers : Handlers} {kind : Action → Bool} {s s' : State}

/-- A position that is taken is less than what bounds the lengths of lists. -/
theorem lt_of_width_le {event handler : String} {position price : Nat}
    (hget : (s.handlersOf event)[position]? = some handler)
    (h : ∀ event, s.width handlers event ≤ price) : position < price := by
  have hlt := (List.getElem?_eq_some_iff.1 hget).1
  exact Nat.lt_of_lt_of_le hlt (Nat.le_trans (Nat.le_add_right _ _) (h event))

theorem left_le_of_subset (h : s.called ⊆ s'.called) :
    s'.left handlers kind ≤ s.left handlers kind := by
  refine List.Sublist.countP_le (List.Sublist.flatMap (List.monotone_filter_right _ ?_) _)
  intro e he
  simp only [Bool.not_eq_true', List.contains_eq_mem, decide_eq_false_iff_not] at he ⊢
  exact fun hmem => he (h hmem)

theorem left_cons (e : String × List Action) (handlers : Handlers) :
    s.left (e :: handlers) kind =
      (if e.1 ∈ s.called then 0 else e.2.countP kind) + s.left handlers kind := by
  unfold left
  by_cases he : e.1 ∈ s.called <;> simp [he]

/-- With a first call the actions of the handler are no longer left. -/
theorem left_begin (kind : Action → Bool) {handler : String}
    (hf : isFirst handlers s.called handler = true) :
    (actionsOf handlers handler).countP kind +
        left handlers kind { s with called := handler :: s.called } ≤ s.left handlers kind := by
  obtain ⟨hhas, hcalled⟩ := Bool.and_eq_true_iff.1 hf
  have hcalled : handler ∉ s.called := by simpa using hcalled
  clear hf
  induction handlers with
  | nil => simp [Table.has] at hhas
  | cons e r ih =>
    rw [left_cons, left_cons]
    by_cases he : e.1 = handler
    · have hle : left r kind { s with called := handler :: s.called } ≤ s.left r kind :=
        left_le_of_subset (List.subset_cons_self handler s.called)
      have hactions : actionsOf (e :: r) handler = e.2 := by simp [actionsOf, Table.get?, he]
      rw [hactions, if_pos (by simp [he]), if_neg (by rwa [he])]
      omega
    · have hrest := ih (by simpa [Table.has, Table.get?, he] using hhas)
      have hactions : actionsOf (e :: r) handler = actionsOf r handler := by
        simp [actionsOf, Table.get?, he]
      rw [hactions]
      by_cases hc : e.1 ∈ s.called
      · rw [if_pos (List.mem_cons_of_mem _ hc), if_pos hc]
        omega
      · rw [if_neg (by simp [he, hc]), if_neg hc]
        omega

end State

/-! ### What a publishing costs -/

/-- The calls that were made, and a price for each publishing that handlers never called can still
make. -/
def Progress.bill (handlers : Handlers) (price : Nat) (p : Progress) : Nat :=
  p.calls.length + price * p.state.left handlers Action.isPublish

/-- No list becomes longer than it could before and by what is subscribed, and at a price that is no
less than the length of any list the bill is raised by no more than the cost. -/
structure Spends (handlers : Handlers) (p q : Progress) (subscribed : Nat) (cost : Nat → Nat) :
    Prop where
  width : ∀ event, q.state.width handlers event ≤ p.state.width handlers event + subscribed
  bill : ∀ price, (∀ event, p.state.width handlers event + subscribed ≤ price) →
    q.bill handlers price ≤ p.bill handlers price + cost price

section Spends

variable {handlers : Handlers} {p q r : Progress} {subscribed subscribed' : Nat}
  {cost cost' : Nat → Nat}

theorem spends_refl (cost : Nat → Nat) : Spends handlers p p 0 cost :=
  ⟨fun _ => Nat.le_refl _, fun _ _ => Nat.le_add_right _ _⟩

theorem Spends.trans (h : Spends handlers p q subscribed cost)
    (h' : Spends handlers q r subscribed' cost') :
    Spends handlers p r (subscribed + subscribed') fun price => cost price + cost' price where
  width event := by
    have := h.width event
    have := h'.width event
    omega
  bill price hprice := by
    have hfirst := h.bill price fun event => by have := hprice event; omega
    have hsecond := h'.bill price fun event => by
      have := h.width event
      have := hprice event
      omega
    omega

theorem Spends.mono (h : Spends handlers p q subscribed cost)
    (hcost : ∀ price, (∀ event, p.state.width handlers event + subscribed ≤ price) →
      cost price ≤ cost' price) : Spends handlers p q subscribed cost' :=
  ⟨h.width, fun price hprice =>
    Nat.le_trans (h.bill price hprice) (Nat.add_le_add_left (hcost price hprice) _)⟩

theorem Spends.weaken (h : Spends handlers p q subscribed cost) (hle : subscribed ≤ subscribed') :
    Spends handlers p q subscribed' cost where
  width event := Nat.le_trans (h.width event) (Nat.add_le_add_left hle _)
  bill price hprice :=
    h.bill price fun event => Nat.le_trans (Nat.add_le_add_left hle _) (hprice event)

/-- A call that changes no subscriptions costs one. -/
theorem spends_call (handlers : Handlers) (p : Progress) (c : Call) (cancelled : Bool) :
    Spends handlers p ⟨p.state, p.calls ++ [c], cancelled⟩ 0 fun _ => 1 where
  width _ := Nat.le_refl _
  bill price _ := by
    show (p.calls ++ [c]).length + price * p.state.left handlers _ ≤ _ + _ + 1
    exact Nat.le_of_eq (by rw [List.length_append, List.length_singleton, Nat.add_right_comm])

/-- A cancellation costs nothing. -/
theorem spends_cancel : Spends handlers p { p with cancelled := true } 0 cost :=
  ⟨fun _ => Nat.le_refl _, fun _ _ => Nat.le_add_right _ _⟩

theorem spends_subscribe (handlers : Handlers) (p : Progress) (event handler : String) :
    Spends handlers p { p with state := p.state.subscribe event handler } 1 fun _ => 0 where
  width other := by
    show ((p.state.subscribe event handler).handlersOf other).length + p.state.left handlers _ ≤ _
    have := p.state.length_handlersOf_subscribe event handler other
    unfold State.width
    omega
  bill _ _ := Nat.le_refl _

section Begin

variable {handler event : String} {payload : Table String Value}
  (hf : isFirst handlers p.state.called handler = true)

include hf

/-- What a handler subscribes on its first call was accounted for. -/
theorem width_begin (other : String) :
    (p.begin handler event payload).state.width handlers other +
      (actionsOf handlers handler).countP Action.isSubscribe ≤ p.state.width handlers other := by
  have hleft := State.left_begin Action.isSubscribe hf
  unfold State.width
  rw [Nat.add_assoc, Nat.add_comm (State.left handlers _ _)]
  exact Nat.add_le_add_left hleft (p.state.handlersOf other).length

/-- What a handler publishes on its first call was accounted for. -/
theorem bill_begin (price : Nat) :
    (p.begin handler event payload).bill handlers price +
      price * (actionsOf handlers handler).countP Action.isPublish ≤ p.bill handlers price + 1 := by
  have hleft := Nat.mul_le_mul_left price (State.left_begin Action.isPublish hf)
  have hcalls : (p.begin handler event payload).calls.length = p.calls.length + 1 :=
    List.length_append
  unfold Progress.bill
  rw [hcalls, Nat.add_assoc, ← Nat.mul_add, Nat.add_comm (State.left handlers _ _),
    Nat.add_right_comm]
  exact Nat.add_le_add_right (Nat.add_le_add_left hleft _) 1

/-- A first call costs one. -/
theorem Spends.begin (h : Spends handlers (p.begin handler event payload) q
      ((actionsOf handlers handler).countP Action.isSubscribe)
      fun price => price * (actionsOf handlers handler).countP Action.isPublish) :
    Spends handlers p q 0 fun _ => 1 where
  width other := Nat.le_trans (h.width other) (width_begin hf other)
  bill price hprice :=
    Nat.le_trans (h.bill price fun other => Nat.le_trans (width_begin hf other) (hprice other))
      (bill_begin hf price)

end Begin

end Spends

section Scripted

variable (handlers : Handlers)

/-- **What a pass costs**: a call for each position that is left of a list, the publishings inside
included. What actions cost is a full pass for each that publishes. -/
theorem spends_of_passes {n : Notice} {position : Nat} {p q : Progress}
    (h : Passes handlers n position p q) :
    Spends handlers p q 0 fun price => price - position := by
  induction h using @Passes.rec handlers
    (fun _ _ actions p _ q _ => Spends handlers p q (actions.countP Action.isSubscribe) fun price =>
      price * actions.countP Action.isPublish) with
  | done => exact spends_refl _
  | again h _ _ _ ihRest =>
    refine ((spends_call handlers _ _ _).trans ihRest).mono fun price hle => ?_
    have := State.lt_of_width_le h hle
    omega
  | againCancelled h _ _ =>
    exact (spends_call handlers _ _ _).mono fun price hle =>
      Nat.sub_pos_of_lt (State.lt_of_width_le h hle)
  | first h hf _ _ _ ih ihRest =>
    refine ((Spends.begin hf ih).trans ihRest).mono fun price hle => ?_
    have := State.lt_of_width_le h hle
    omega
  | firstCancelled h hf _ _ ih =>
    exact (Spends.begin hf ih).mono fun price hle =>
      Nat.sub_pos_of_lt (State.lt_of_width_le h hle)
  | nil => exact spends_refl _
  | fail => exact (spends_refl _).weaken (Nat.zero_le _)
  | cancel => exact spends_cancel.weaken (Nat.zero_le _)
  | set _ ih => exact ih
  | @subscribe _ event other _ _ p _ _ _ ih =>
    have hrest := (spends_subscribe handlers p event other).trans ih
    rw [List.countP_cons_of_pos rfl, Nat.add_comm]
    exact hrest.mono fun price _ => by simp [Action.isPublish]
  | publish _ _ _ ihOther ih =>
    have hrest := ihOther.trans ih
    rw [Nat.zero_add] at hrest
    refine hrest.mono fun price _ => ?_
    rw [List.countP_cons_of_pos rfl, Nat.mul_succ, Nat.add_comm]
    exact Nat.le_refl _
  | publishCancelled _ _ ihOther =>
    refine (ihOther.weaken (Nat.zero_le _)).mono fun price _ => ?_
    rw [List.countP_cons_of_pos rfl]
    exact Nat.le_mul_of_pos_right _ (Nat.succ_pos _)

/-- A publishing costs a full pass. -/
theorem publish_spends (n : Notice) (s : State) :
    Spends handlers ⟨s, [], false⟩ (publish handlers n.event n.payload s) 0 fun price => price :=
  spends_of_passes handlers (passes_publish handlers n s)

end Scripted

/-! ### Sequences of operations -/

/-- What is done with a bus from outside. -/
inductive Operation
  | subscribe (event handler : String)
  | publish (n : Notice)

namespace Operation

/-- Whether an operation publishes. -/
def isPublish : Operation → Bool
  | publish _ => true
  | subscribe _ _ => false

/-- Whether an operation subscribes. -/
def isSubscribe : Operation → Bool
  | publish _ => false
  | subscribe _ _ => true

end Operation

/-- Operations are done on a bus, one after the other; each publishing comes to an end, and is
recorded. -/
inductive Reactions.Operates {γ : Type} (react : Reactions γ) :
    List Operation → Memory (World γ) → List (List (Entry Nat)) → Prop
  | nil {b : Memory (World γ)} : Operates react [] b []
  | subscribe {event handler : String} {r : List Operation} {b : Memory (World γ)}
      {records : List (List (Entry Nat))}
      (h : Operates react r (b.subscribe event handler) records) :
      Operates react (.subscribe event handler :: r) b records
  | publish {n : Notice} {r : List Operation} {b : Memory (World γ)}
      {p : Publication (World γ) Nat} {records : List (List (Entry Nat))}
      (hp : react.audience.Publishes 0 b.memory.events.length
        { b with memory := b.memory.create n } p)
      (h : Operates react r p.bus records) :
      Operates react (.publish n :: r) b (p.record :: records)

/-- Operations come to one end. -/
theorem operates_unique {γ : Type} {react : Reactions γ} {ops : List Operation}
    {b : Memory (World γ)} {records records' : List (List (Entry Nat))}
    (h : react.Operates ops b records) (h' : react.Operates ops b records') :
    records = records' := by
  induction h generalizing records' with
  | nil => cases h'; rfl
  | subscribe _ ih =>
    cases h' with
    | subscribe h' => exact ih h'
  | publish hp _ ih =>
    cases h' with
    | publish hp' h' =>
      cases Audience.publishes_unique hp hp'
      rw [ih h']

/-- Do operations on the executable bus. -/
def State.operate (handlers : Handlers) : List Operation → State → List Progress
  | [], _ => []
  | .subscribe event handler :: r, s => (s.subscribe event handler).operate handlers r
  | .publish n :: r, s =>
    let p := Bus.publish handlers n.event n.payload s
    p :: p.state.operate handlers r

section Operate

variable (handlers : Handlers)

/-- Operations on the executable bus are operations as on any bus: each publishing comes to an end,
with the same calls. -/
theorem operate_scripted (ops : List Operation) (s : State) (events : List Notice) :
    ∃ records, (scripted handlers).Operates ops (s.world events) records ∧
      records.map callees = (s.operate handlers ops).map fun p => p.calls.map Call.handler := by
  induction ops generalizing s events with
  | nil => exact ⟨[], .nil, rfl⟩
  | cons op r ih =>
    cases op with
    | subscribe event handler =>
      obtain ⟨records, h, hcalls⟩ := ih (s.subscribe event handler) events
      exact ⟨records, .subscribe h, hcalls⟩
    | publish n =>
      obtain ⟨record, events', h, hcalls⟩ := publish_scripted handlers n s events
      obtain ⟨records, hrest, hcalls'⟩ :=
        ih (Bus.publish handlers n.event n.payload s).state events'
      refine ⟨record :: records, .publish (b := s.world events) h hrest, ?_⟩
      rw [List.map_cons, hcalls', ← hcalls]
      rfl

/-- **A pass for each publishing**, those from outside and those that handlers have left; no list
gets longer than the price of a pass. -/
theorem length_calls_operate_le (ops : List Operation) (s : State) (price : Nat)
    (hprice : ∀ event, s.width handlers event + ops.countP Operation.isSubscribe ≤ price) :
    ((s.operate handlers ops).flatMap Progress.calls).length ≤
      price * (ops.countP Operation.isPublish + s.left handlers Action.isPublish) := by
  induction ops generalizing s with
  | nil => exact Nat.zero_le _
  | cons op r ih =>
    cases op with
    | subscribe event handler =>
      refine ih (s.subscribe event handler) fun other => ?_
      have hwidth : (s.subscribe event handler).width handlers other ≤ s.width handlers other + 1 :=
        (spends_subscribe handlers ⟨s, [], false⟩ event handler).width other
      have hother := hprice other
      rw [List.countP_cons_of_pos rfl] at hother
      omega
    | publish n =>
      rw [List.countP_cons_of_neg (by simp [Operation.isSubscribe])] at hprice
      have hspends := publish_spends handlers n s
      have hbill : (Bus.publish handlers n.event n.payload s).calls.length +
          price * (Bus.publish handlers n.event n.payload s).state.left handlers Action.isPublish ≤
            0 + price * s.left handlers Action.isPublish + price :=
        hspends.bill price fun event => Nat.le_trans (Nat.le_add_right _ _) (hprice event)
      have hrest := ih (Bus.publish handlers n.event n.payload s).state fun event =>
        Nat.le_trans (Nat.add_le_add_right (hspends.width event) _) (hprice event)
      rw [Nat.mul_add] at hrest
      rw [State.operate, List.flatMap_cons, List.length_append, List.countP_cons_of_pos rfl,
        Nat.mul_add, Nat.mul_succ]
      omega

/-- **Operations on a bus come to an end**, if handlers subscribe and publish during the first call
they ever get only, whatever they are and were called before: every publishing returns, the calls
are those of the executable bus, and all of them together are at most a full pass for each
publishing, from outside or from a handler that was never called; in a pass there can be what is
subscribed at first, what is subscribed from outside, and what handlers that were never called
subscribe. -/
theorem operate_returns (ops : List Operation) (s : State) (events : List Notice) :
    ∃ records, (∀ records', (scripted handlers).Operates ops (s.world events) records' ↔
        records' = records) ∧
      records.map callees = (s.operate handlers ops).map (fun p => p.calls.map Call.handler) ∧
      (records.flatMap callees).length ≤
        ((s.subscriptions.flatMap Prod.snd).length + ops.countP Operation.isSubscribe +
            s.left handlers Action.isSubscribe) *
          (ops.countP Operation.isPublish + s.left handlers Action.isPublish) := by
  obtain ⟨records, h, hcalls⟩ := operate_scripted handlers ops s events
  refine ⟨records, fun records' => ⟨fun h' => operates_unique h' h, fun hrecords => hrecords ▸ h⟩,
    hcalls, ?_⟩
  have hlength : (records.flatMap callees).length =
      ((s.operate handlers ops).flatMap Progress.calls).length := by
    rw [List.flatMap_def, hcalls, ← List.flatMap_def, ← List.map_flatMap, List.length_map]
  rw [hlength]
  refine length_calls_operate_le handlers ops s _ fun event => ?_
  have := s.length_handlersOf_le event
  unfold State.width
  omega

end Operate

/-! ### Without the condition -/

/-- Handlers that publish the event at hand, each time they are called. -/
def echo : Audience Unit String where
  nameOf _ e := e
  react _ e := .publish e fun _ => .finish

/-- A pass that comes to an end makes no call: the handler that is called would publish the event
again, in a pass from the start. -/
theorem deliver_echo {depth : Nat} {e event : String} {position : Nat} {b : Memory Unit}
    {p : Publication Unit String} (h : echo.Delivers depth e event position b p)
    (he : event = e) : (b.handlersOf e).length ≤ position := by
  revert he
  induction h using @Audience.Delivers.rec Unit String echo
    (fun _ r b _ _ => ∀ e next, r = .publish e next → b.handlersOf e = []) with
  | finish _ _ hr => cases hr
  | fail _ _ hr => cases hr
  | cancel _ _ hr => cases hr
  | act _ _ _ _ hr => cases hr
  | subscribe _ _ _ _ hr => cases hr
  | publish _ _ ihOther _ _ _ hr =>
    cases hr
    exact List.length_eq_zero_iff.1 (Nat.le_zero.1 (ihOther rfl))
  | done h =>
    rintro rfl
    exact List.getElem?_eq_none_iff.1 h
  | cancelled _ _ _ ih =>
    rintro rfl
    rw [ih _ _ rfl]
    exact Nat.zero_le _
  | next _ _ _ _ ih _ =>
    rintro rfl
    rw [ih _ _ rfl]
    exact Nat.zero_le _

/-- **A publishing need not come to an end**: it does not if every handler of the event publishes it
again in every call. -/
theorem publish_endless (depth : Nat) (e : String) (b : Memory Unit) (h : b.handlersOf e ≠ []) :
    ¬ ∃ p, echo.Publishes depth e b p := by
  rintro ⟨p, hp⟩
  exact h (List.length_eq_zero_iff.1 (Nat.le_zero.1 (deliver_echo hp rfl)))

end Bus
end Runbook
