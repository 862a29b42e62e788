import Runbook.Plan
import Runbook.Proofs.Run.Cancellation
import Runbook.Proofs.Run.Mapping

/-!
# What a plan shows of a run

A run starts with the supplied variables and, for declared variables without one, their defaults;
the plan of a workflow shows just these. What it shows of a variable is what the placeholder of the
variable becomes in the first call of a run, apart from the mark of a default.

* `get?_seed`, `seed_seed`: the variables that a run starts with, and starts with again;
* `Plan.Shows`: how the line of a variable is read against a context;
* `first_call`: the first call of a run is filled from the seeded context;
* `plan_shows_seed`: the plan shows what the run will use.
-/

namespace Runbook

open Placeholder

/-! ### Seeding -/

theorem nodup_keys_foldl_applyDefault {vars : Table String Value} (h : vars.keys.Nodup)
    (declared : Table String Variable) : (declared.foldl applyDefault vars).keys.Nodup := by
  induction declared generalizing vars with
  | nil => exact h
  | cons e r ih =>
    refine ih ?_
    unfold applyDefault
    split
    · split
      · exact h
      · exact Table.nodup_keys_set h _ _
    · exact h

theorem foldl_applyDefault_of_forall {vars : Table String Value} {declared : Table String Variable}
    (h : ∀ e ∈ declared, ∀ v, e.2.default = some v → vars.has e.1 = true) :
    declared.foldl applyDefault vars = vars := by
  induction declared with
  | nil => rfl
  | cons e r ih =>
    obtain ⟨he, hr⟩ := List.forall_mem_cons.1 h
    rw [List.foldl_cons, applyDefault_of_get? he, ih hr]

namespace Context

variable {d : Definition} {supplied : Table String Value}

/-- A run that starts from nothing has the supplied variables and else the declared defaults. -/
theorem get?_seed (hd : d.declared.keys.Nodup) (hs : supplied.keys.Nodup) (name : String) :
    (empty.seed d supplied).vars.get? name =
      (supplied.get? name).or ((d.declared.get? name).bind Variable.default) := by
  rw [seed, seedVariables, get?_foldl_applyDefault hd, Table.get?_update hs]
  exact congrArg (Option.or · _) Option.or_none

/-- Seeding again changes nothing. -/
theorem seed_seed (hd : d.declared.keys.Nodup) (hs : supplied.keys.Nodup) :
    (empty.seed d supplied).seed d supplied = empty.seed d supplied := by
  have hupdate : (empty.seed d supplied).vars.update supplied = (empty.seed d supplied).vars := by
    refine Table.update_of_forall_get? fun e he => ?_
    rw [get?_seed hd hs, (Table.get?_eq_some_iff hs).2 he]
    rfl
  have hdefaults : d.declared.foldl applyDefault (empty.seed d supplied).vars =
      (empty.seed d supplied).vars := by
    refine foldl_applyDefault_of_forall fun e he v hv => ?_
    rw [Table.has, get?_seed hd hs, (Table.get?_eq_some_iff hd).2 he, Option.bind_some, hv]
    simp
  show { empty.seed d supplied with
    vars := seedVariables d supplied (empty.seed d supplied).vars } = _
  rw [seedVariables, hupdate, hdefaults]

end Context

/-! ### Lines of a plan -/

namespace Plan

/-- How a plan shows a variable of a context, beside the text that the placeholder of the variable
becomes: a supplied value as it is, any other with the mark of a default, and none as not set. -/
inductive Shows (c : Context) (supplied : Table String Value) (name : String) :
    String → String → Prop
  | given {v : Value} {filled : String} (hv : c.vars.get? name = some v)
    (hs : supplied.has name = true) (ht : v.stringify = .ok filled) :
    Shows c supplied name filled filled
  | preset {v : Value} {filled : String} (hv : c.vars.get? name = some v)
    (hs : supplied.has name = false) (ht : v.stringify = .ok filled) :
    Shows c supplied name filled (filled ++ " (default)")
  | unset (hv : c.vars.get? name = none) : Shows c supplied name "" "(not set)"

/-- The line of a variable that is shown as some text. -/
def line (e : String × Variable) (shown : String) : String :=
  "  • " ++ e.1 ++ (if e.2.isRequired then " [required]" else "") ++ ": " ++ shown

/-- The text of a plan with some lines for the variables and some sections for the steps. -/
def layout (d : Definition) (lines sections : List String) : String :=
  "\n".intercalate [
    "## Workflow Plan: " ++ d.name, "", d.description, "", "### Variables",
    if d.declared.isEmpty then "  (none)" else "\n".intercalate lines, "",
    "### Steps", "\n\n".intercalate sections, "", "---", footer]

section Lines

variable [Stack] {d : Definition} {supplied : Table String Value}

/-- A variable that is shown has the text it is shown as. -/
theorem stringify_of_shownText {v : Value} {text : String} (h : shownText v = .ok text) :
    v.stringify = .ok text := by
  unfold shownText at h
  split at h
  · exact h
  · cases h

theorem shows_of_shownValue (hd : d.declared.keys.Nodup) (hs : supplied.keys.Nodup)
    {e : String × Variable} (he : e ∈ d.declared) {shown : String}
    (h : shownValue supplied e.1 e.2 = .ok shown) :
    ∃ filled, Shows (Context.empty.seed d supplied) supplied e.1 filled shown := by
  have hvars := Context.get?_seed hd hs e.1
  rw [(Table.get?_eq_some_iff hd).2 he, Option.bind_some] at hvars
  unfold shownValue at h
  cases hgiven : supplied.get? e.1 with
  | some v =>
    rw [hgiven] at h hvars
    exact ⟨shown, .given hvars (by rw [Table.has, hgiven]; rfl) (stringify_of_shownText h)⟩
  | none =>
    rw [hgiven] at h hvars
    cases hdefault : e.2.default with
    | some v =>
      rw [hdefault] at h hvars
      obtain ⟨filled, ht, hshown⟩ := bind_eq_ok h
      cases hshown
      have htext := stringify_of_shownText ht
      exact ⟨filled, .preset hvars (by rw [Table.has, hgiven]; rfl) htext⟩
    | none =>
      rw [hdefault] at h hvars
      cases h
      exact ⟨"", .unset hvars⟩

/-- The text of a plan is laid out from lines that show the variables which a run starts with. -/
theorem exists_layout (hd : d.declared.keys.Nodup) (hs : supplied.keys.Nodup) {text : String}
    (h : d.plan supplied = .ok text) :
    ∃ lines sections, text = layout d lines sections ∧
      List.Forall₂ (fun e l => ∃ filled shown, l = line e shown ∧
        Shows (Context.empty.seed d supplied) supplied e.1 filled shown) d.declared lines := by
  unfold Definition.plan at h
  obtain ⟨sections, -, h⟩ := bind_eq_ok h
  obtain ⟨declared, hdeclared, h⟩ := bind_eq_ok h
  obtain rfl := Except.ok.inj h
  unfold declarationLines at hdeclared
  by_cases hempty : d.declared.isEmpty = true
  · rw [if_pos hempty] at hdeclared
    cases hdeclared
    refine ⟨[], sections, by rw [layout, if_pos hempty], ?_⟩
    rw [List.isEmpty_iff.1 hempty]
    exact .nil
  · rw [if_neg hempty] at hdeclared
    obtain ⟨lines, hlines, hdeclared⟩ := bind_eq_ok hdeclared
    cases hdeclared
    obtain ⟨hlength, hlines⟩ := List.forall₂_iff_zip.1 (forall₂_of_mapM hlines)
    refine ⟨lines, sections, by rw [layout, if_neg hempty], ?_⟩
    refine List.forall₂_iff_zip.2 ⟨hlength, fun {e l} hmem => ?_⟩
    obtain ⟨shown, hshown, hl⟩ := bind_eq_ok (hlines hmem)
    cases hl
    obtain ⟨filled, hfilled⟩ := shows_of_shownValue hd hs (List.of_mem_zip hmem).1 hshown
    exact ⟨filled, shown, rfl, hfilled⟩

end Lines

/-- The placeholder of a variable becomes what is shown of it, without the mark. -/
theorem Shows.substitute {c : Context} {supplied : Table String Value}
    {name filled shown : String} (h : Shows c supplied name filled shown)
    (hdot : '.' ∉ name.toList) (hclosed : '}' ∉ name.toList) (htrim : trim name = name) :
    c.substitute (.str (ofPath (variablePath name))) = .ok (.str filled) := by
  have hpath : IsPath (variablePath name) := isStem_variables.isPath_append hclosed htrim
  rw [c.substitute_ofPath hpath, textAt, c.resolve_variable hdot]
  cases h with
  | given hv _ ht => rw [hv]; simp only [ht, Except.map]
  | preset hv _ ht => rw [hv]; simp only [ht, Except.map]
  | unset hv => rw [hv]; rfl

end Plan

/-! ### The first call of a run -/

namespace Context

/-- A parameter that is filled is so by replacing its placeholders. -/
theorem substitute_of_fill [Stack] {c : Context} {v w : Value} (h : c.fill v = .ok w) :
    c.substitute v = .ok w := by
  unfold fill at h
  split at h
  · exact h
  · cases h

theorem mem_of_substituteTable [Stack] {c : Context} {t ps : Table String Value}
    (h : c.substituteTable t = .ok ps) {key : String} {v w : Value} (hv : (key, v) ∈ t)
    (hw : c.substitute v = .ok w) : (key, w) ∈ ps := by
  induction t generalizing ps with
  | nil => cases hv
  | cons e t ih =>
    obtain ⟨first, hfirst, h⟩ := bind_eq_ok h
    obtain ⟨others, hothers, h⟩ := bind_eq_ok h
    cases h
    rcases List.mem_cons.1 hv with rfl | hv
    · cases (substitute_of_fill hfirst).symm.trans hw
      exact List.mem_cons_self
    · exact List.mem_cons_of_mem _ (ih hothers hv)

end Context

namespace Engine

variable [Stack] {σ β : Type} {e : Engine σ β} {id : String} {d : Definition}
  {supplied : Table String Value} {context : Context} {tools : σ} {publisher : β}

/-- The first call of a run is that of a step whose parameters are filled from the seeded context.
-/
theorem first_call {pre post : List Happening} {tool : String} {ps : Table String Value}
    {c : Context}
    (h : (lastState (e.run id d supplied context tools publisher)).trace =
      pre ++ .call tool ps c :: post) (hpre : callsIn pre = []) :
    c = context.seed d supplied ∧
      ∃ s ∈ d.steps, s.tool = tool ∧ (context.seed d supplied).substituteTable s.parameters =
        .ok ps := by
  obtain ⟨more, hmore⟩ := trace_begins e id d supplied context tools publisher
  have htold := told_script (e := e) (i := ⟨d.name, id⟩) d (context.seed d supplied) tools
  have hc : c = context.seed d supplied := by
    have hcontext := htold pre (.call tool ps c) (post ++ more)
      (hmore.symm.trans (by rw [h]; simp))
    rwa [hpre, Tools.answers_nil, successes_nil, Context.completeAll_nil] at hcontext
  obtain ⟨ys, x, zs, hcall⟩ := exists_isCallOf h
  obtain ⟨-, -, s, hs, hx⟩ := Tools.course_eq_append hcall.course
  have hparameters := hcall.parameters
  rw [hx] at hparameters
  have hbefore : Episode.lastContext (context.seed d supplied) ys = c := by
    rw [← hcall.before, hx, episode_before]
  have hfilled := (Tools.episode_of_parameters hparameters).1
  rw [hbefore, hc] at hfilled
  refine ⟨hc, s, List.mem_of_getElem? hs, ?_, hfilled⟩
  rw [← hcall.step_tool, hx, episode_step]

end Engine

/-! ### The plan and the run -/

/-- **The plan shows what the run will use.** The variables that a run starts with, from nothing,
are the supplied ones and else the declared defaults, and seeding again changes nothing. Whenever
there is a plan, each of its lines shows what the run starts with; and the first call of a run, with
any tools, gets the same text for the placeholder of a variable whose name can be written in one. -/
theorem Definition.plan_shows_seed [Stack] (d : Definition) (supplied : Table String Value)
    (hd : d.declared.keys.Nodup) (hs : supplied.keys.Nodup) :
    let c := Context.empty.seed d supplied
    ((∀ name, c.vars.get? name =
        (supplied.get? name).or ((d.declared.get? name).bind Variable.default)) ∧
      c.vars.keys.Nodup ∧ c.steps = [] ∧ c.seed d supplied = c) ∧
    (∀ text, d.plan supplied = .ok text → ∃ lines sections, text = Plan.layout d lines sections ∧
      List.Forall₂ (fun e l => ∃ filled shown, l = Plan.line e shown ∧
        Plan.Shows c supplied e.1 filled shown) d.declared lines) ∧
    ∀ name filled shown, Plan.Shows c supplied name filled shown →
      '.' ∉ name.toList → '}' ∉ name.toList → trim name = name →
        let placeholder := Value.str (ofPath (variablePath name))
        c.substitute placeholder = .ok (.str filled) ∧
        ∀ (σ β : Type) (e : Engine σ β) id tools publisher pre tool ps c' post,
          (Engine.lastState (e.run id d supplied .empty tools publisher)).trace =
            pre ++ .call tool ps c' :: post → callsIn pre = [] →
          c' = c ∧ ∃ s ∈ d.steps, s.tool = tool ∧ c.substituteTable s.parameters = .ok ps ∧
            ∀ key, (key, placeholder) ∈ s.parameters → (key, .str filled) ∈ ps := by
  intro c
  have hnodup : c.vars.keys.Nodup :=
    nodup_keys_foldl_applyDefault (Table.nodup_keys_ofEntries supplied) d.declared
  refine ⟨⟨Context.get?_seed hd hs, hnodup, rfl, Context.seed_seed hd hs⟩,
    fun text htext => Plan.exists_layout hd hs htext, ?_⟩
  intro name filled shown hshows hdot hclosed htrim placeholder
  have hfilled : c.substitute placeholder = .ok (.str filled) :=
    hshows.substitute hdot hclosed htrim
  refine ⟨hfilled, fun σ β e id tools publisher pre tool ps c' post htrace hpre => ?_⟩
  obtain ⟨hc, s, hs, htool, hps⟩ := Engine.first_call htrace hpre
  exact ⟨hc, s, hs, htool, hps, fun key hkey => Context.mem_of_substituteTable hps hkey hfilled⟩

/-- A workflow with a variable that will be supplied, one with a default and one without, and a step
that mentions the second. -/
def Sample.seeded : Definition :=
  ⟨"seeded", "Three variables", none,
    some [("n", ⟨"A number", .number, some (.int 5), none⟩),
      ("m", ⟨"A mark", .string, some .null, none⟩),
      ("k", ⟨"A key", .string, none, some true⟩)],
    [⟨"only", "Only", "make", [("p", .str (ofPath (variablePath "m")))], none, none, none⟩]⟩

/-- Whether exactly one call is in a trace. -/
def Sample.isCall : List Happening → Bool
  | [.call _ _ _] => true
  | _ => false

/-- With a null supplied for the first variable, the workflow has a plan of three lines, and the
call of its step gets the default of the second. -/
theorem Definition.plan_shows_seed_sample :
    let d := Sample.seeded
    let supplied : Table String Value := [("n", .null)]
    let e : Engine Nat Unit := ⟨Sample.tools, none, 5⟩
    let c := Context.empty.seed d supplied
    d.declared.keys.Nodup ∧ supplied.keys.Nodup ∧
      c.vars.get? "n" = some .null ∧ c.vars.get? "m" = some .null ∧ c.vars.get? "k" = none ∧
      (∃ text lines sections, d.plan supplied = .ok text ∧
        text = Plan.layout d lines sections ∧ lines.length = 3) ∧
      ∃ ps c', (Engine.lastState (e.run "run" d supplied .empty 0 ())).trace =
        [.call "make" ps c'] ∧ ("p", .str "null") ∈ ps := by
  intro d supplied e c
  have hd : d.declared.keys.Nodup := by decide
  have hs : supplied.keys.Nodup := by decide
  obtain ⟨⟨hvars, -⟩, hplan, hrun⟩ := plan_shows_seed d supplied hd hs
  refine ⟨hd, hs, hvars "n", hvars "m", hvars "k", ?_, ?_⟩
  · have hreturns : (d.plan supplied).toBool = true := by decide +kernel
    cases htext : d.plan supplied with
    | error f =>
      rw [htext] at hreturns
      cases hreturns
    | ok text =>
      obtain ⟨lines, sections, hlayout, hlines⟩ := hplan text htext
      exact ⟨text, lines, sections, rfl, hlayout, hlines.length_eq.symm⟩
  · have hcall : Sample.isCall (Engine.lastState (e.run "run" d supplied .empty 0 ())).trace =
        true := by decide +kernel
    have hm : Plan.Shows c supplied "m" "null" ("null" ++ " (default)") :=
      .preset (hvars "m") rfl rfl
    obtain ⟨-, hfirst⟩ := hrun "m" _ _ hm (by decide) (by decide) (by decide)
    unfold Sample.isCall at hcall
    split at hcall
    · next tool ps c' htrace =>
      obtain ⟨-, s, hstep, rfl, -, hps⟩ := hfirst Nat Unit e "run" 0 () [] tool ps c' [] htrace rfl
      obtain rfl := List.mem_singleton.1 hstep
      exact ⟨ps, c', htrace, hps "p" List.mem_cons_self⟩
    · cases hcall

end Runbook
