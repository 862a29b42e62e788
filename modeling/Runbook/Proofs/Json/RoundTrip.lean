import Runbook.Proofs.Json.Scalar
import Runbook.Proofs.Substitution
import Runbook.Run.Step
import Runbook.Value.Depth

/-!
# JSON text is read back

The text of a value is read back as the value, whatever the machine has read before and goes on with
after it (`run_text`). So a collection of JSON values goes through a placeholder and the output of a
tool unchanged, and no other one has its text (`stringify_faithful`).
-/

namespace Runbook

namespace Json

open Value (isPlain arePlain havePlain depth itemsDepth entriesDepth)

variable {dialect : Dialect} {frames : List Frame}

/-! ### Steps of the machine -/

theorem run_openList (h : frames.length < dialect.depth) (r : List Char) :
    run dialect .value frames ('[' :: r) = run dialect .firstItem (.items [] :: frames) r := by
  rw [run.eq_def]
  simp [isSpace, h]

theorem run_openMapping (h : frames.length < dialect.depth) (r : List Char) :
    run dialect .value frames ('{' :: r) = run dialect (.firstKey []) frames r := by
  rw [run.eq_def]
  simp [isSpace, h]

theorem run_noItems (r : List Char) :
    run dialect .firstItem (.items [] :: frames) (']' :: r) =
      run dialect (.after (.list [])) frames r := by
  rw [run]
  simp [isSpace]

theorem run_noEntries (entries : List (Scalar × Value)) (r : List Char) :
    run dialect (.firstKey entries) frames ('}' :: r) =
      run dialect (.after (.mapping entries)) frames r := by
  rw [run]
  simp [isSpace]

/-- The characters that a value starts with. -/
def valueStarts : List Char := '"' :: '[' :: '{' :: atomStarts

/-- The first item is read like any other value, if there is one. -/
theorem run_firstItem {c : Char} (hc : c ∈ valueStarts) (r : List Char) :
    run dialect .firstItem frames (c :: r) = run dialect .value frames (c :: r) := by
  have hstarts : ∀ c ∈ valueStarts, c ≠ ']' ∧ isSpace c = false :=
    List.all_iff_forall_prop.1 (by decide)
  obtain ⟨hclose, hspace⟩ := hstarts c hc
  conv_lhs => rw [run.eq_def]
  conv_rhs => rw [run.eq_def]
  simp only [hspace, Bool.false_eq_true, if_false]
  cases frames with
  | nil => rfl
  | cons f frames =>
    cases f with
    | members done key => rfl
    | items done =>
      cases done with
      | cons v done => rfl
      | nil => simp only [if_neg hclose]

theorem run_nextItem (v : Value) (done : List Value) (r : List Char) :
    run dialect (.after v) (.items done :: frames) (',' :: r) =
      run dialect .value (.items (v :: done) :: frames) r := by
  rw [run]
  simp [isSpace]

theorem run_closeList (v : Value) (done : List Value) (r : List Char) :
    run dialect (.after v) (.items done :: frames) (']' :: r) =
      run dialect (.after (.list (v :: done).reverse)) frames r := by
  rw [run]
  simp [isSpace]

theorem run_nextEntry (v : Value) (done : List (Scalar × Value)) (key : Scalar) (r : List Char) :
    run dialect (.after v) (.members done key :: frames) (',' :: r) =
      run dialect (.key (Table.set done key v)) frames r := by
  rw [run]
  simp [isSpace]

theorem run_closeMapping (v : Value) (done : List (Scalar × Value)) (key : Scalar)
    (r : List Char) :
    run dialect (.after v) (.members done key :: frames) ('}' :: r) =
      run dialect (.after (.mapping (Table.set done key v))) frames r := by
  rw [run]
  simp [isSpace]

theorem run_colon (entries : List (Scalar × Value)) (key : Scalar) (r : List Char) :
    run dialect (.colon entries key) frames (':' :: r) =
      run dialect .value (.members entries key :: frames) r := by
  rw [run]
  simp [isSpace]

/-- The text of a string is an opening quote, and what is read up to the closing one. -/
theorem exists_string (s : String) (rest : List Char) :
    ∃ body, (stringText false s).toList ++ rest = '"' :: body ∧
      string (body.length + 1) [] body = .ok (.str s, rest) := by
  refine ⟨(s.toList.flatMap fun c => (stringChar false c).toList) ++ '"' :: rest, ?_, ?_⟩
  · rw [toList_stringText, List.append_assoc]
    rfl
  · rw [string_body, List.reverse_nil, List.nil_append, Text.ofCodes_toNat, String.ofList_toList]

theorem isSpace_quote : ¬ isSpace '"' = true := by decide

theorem run_string (s : String) (rest : List Char) :
    run dialect .value frames ((stringText false s).toList ++ rest) =
      run dialect (.after (.str s)) frames rest := by
  obtain ⟨body, hbody, hread⟩ := exists_string s rest
  rw [hbody, run.eq_def]
  simp only [if_neg isSpace_quote, if_true]
  split
  · next t rest' h =>
    cases hread.symm.trans h
    rw [Dialect.scalar_str]
  · next e h => cases hread.symm.trans h

/-- A key, be it the first one or another, is read up to its colon. -/
theorem run_key {goal : Goal} {entries : List (Scalar × Value)}
    (hgoal : goal = .firstKey entries ∨ goal = .key entries) (key : String) (rest : List Char) :
    run dialect goal frames ((stringText false key).toList ++ rest) =
      run dialect (.colon entries (.str key)) frames rest := by
  obtain ⟨body, hbody, hread⟩ := exists_string key rest
  have hclose : ¬ '"' = '}' := by decide
  rcases hgoal with rfl | rfl
  all_goals
    rw [hbody, run.eq_def]
    simp only [if_neg isSpace_quote, if_neg hclose, if_true]
    split
    · next t rest' h =>
      cases hread.symm.trans h
      rw [Dialect.scalar_str]
    · next e h => cases hread.symm.trans h

theorem run_atom {c : Char} {r rest : List Char} {x : Scalar} (hc : c ∈ atomStarts)
    (h : atom dialect (c :: r) = .ok (x, rest)) :
    run dialect .value frames (c :: r) = run dialect (.after (.scalar x)) frames rest := by
  have hstarts : ∀ c ∈ atomStarts, isSpace c = false ∧ c ≠ '"' ∧ c ≠ '[' ∧ c ≠ '{' :=
    List.all_iff_forall_prop.1 (by decide)
  obtain ⟨hspace, hquote, hlist, hmapping⟩ := hstarts c hc
  rw [run.eq_def]
  simp only [hspace, Bool.false_eq_true, if_false, if_neg hquote, if_neg hlist, if_neg hmapping]
  split
  · next x' rest' h' =>
    rw [h] at h'
    cases h'
    rfl
  · next e h' =>
    rw [h] at h'
    cases h'

/-! ### Texts -/

theorem run_scalar {s : Scalar} {t : String} (hs : s.isPlain)
    (ht : scalarText .compact s = .ok t) {rest : List Char} (hrest : EndsValue rest) :
    run dialect .value frames (t.toList ++ rest) =
      run dialect (.after (.scalar s)) frames rest := by
  by_cases hstr : ∃ x, s = .str x
  · obtain ⟨x, rfl⟩ := hstr
    cases ht
    exact run_string x rest
  · obtain ⟨c, r, hcs, hc, hread⟩ :=
      atom_scalarText hs (fun x hx => hstr ⟨x, hx⟩) ht hrest dialect
    rw [hcs]
    exact run_atom hc hread

/-- The text of a value starts like a value. -/
theorem exists_head {v : Value} {t : String} (hv : v.isPlain) (ht : text .compact v = .ok t) :
    ∃ c r, t.toList = c :: r ∧ c ∈ valueStarts := by
  cases v with
  | scalar s =>
    by_cases hstr : ∃ x, s = .str x
    · obtain ⟨x, rfl⟩ := hstr
      cases ht
      exact ⟨_, _, toList_stringText x, by decide⟩
    · obtain ⟨c, r, hcs, hc, -⟩ :=
        atom_scalarText hv (fun x hx => hstr ⟨x, hx⟩) ht endsValue_nil ⟨false, .asFloats, false, 0⟩
      exact ⟨c, r, hcs, by simp [valueStarts, hc]⟩
  | list items =>
    obtain ⟨u, -, hu⟩ := bind_eq_ok ht
    cases hu
    exact ⟨'[', (u ++ "]").toList, by simp, by decide⟩
  | mapping entries =>
    obtain ⟨u, -, hu⟩ := bind_eq_ok ht
    cases hu
    exact ⟨'{', (u ++ "\x7d").toList, by simp, by decide⟩
  | set members => cases hv
  | pair a b => cases hv
  | endless isMapping => cases hv

theorem exists_head_items {v : Value} {r : List Value} {t : String} (hv : v.isPlain)
    (ht : itemsText .compact (v :: r) = .ok t) :
    ∃ c u, t.toList = c :: u ∧ c ∈ valueStarts := by
  cases r with
  | nil => exact exists_head hv ht
  | cons w r =>
    obtain ⟨first, hfirst, ht⟩ := bind_eq_ok ht
    obtain ⟨others, -, ht⟩ := bind_eq_ok ht
    cases ht
    obtain ⟨c, u, hcs, hc⟩ := exists_head hv hfirst
    exact ⟨c, u ++ ',' :: others.toList, by simp [Style.compact, hcs], hc⟩

/-- The text of an entry is a key, a colon and a value. -/
theorem exists_entry {e : Scalar × Value} {r : List (Scalar × Value)} (hm : havePlain (e :: r))
    {t : String} (ht : entriesText .compact (e :: r) = .ok t) :
    ∃ key value u, e.1 = .str key ∧ e.2.isPlain ∧ havePlain r ∧ text .compact e.2 = .ok value ∧
      t.toList = (stringText false key).toList ++ ':' :: (value.toList ++ u) ∧
      (r = [] ∧ u = [] ∨ ∃ others, r ≠ [] ∧ entriesText .compact r = .ok others ∧
        u = ',' :: others.toList) := by
  obtain ⟨k, v⟩ := e
  cases k with
  | str key =>
    rw [havePlain, Bool.and_eq_true] at hm
    cases r with
    | nil =>
      obtain ⟨_, hkey, ht⟩ := bind_eq_ok ht
      cases hkey
      obtain ⟨value, hvalue, ht⟩ := bind_eq_ok ht
      cases ht
      exact ⟨key, value, [], rfl, hm.1, hm.2, hvalue, by simp [Style.compact], .inl ⟨rfl, rfl⟩⟩
    | cons e' r =>
      obtain ⟨_, hkey, ht⟩ := bind_eq_ok ht
      cases hkey
      obtain ⟨value, hvalue, ht⟩ := bind_eq_ok ht
      obtain ⟨others, hothers, ht⟩ := bind_eq_ok ht
      cases ht
      exact ⟨key, value, _, rfl, hm.1, hm.2, hvalue, by simp [Style.compact],
        .inr ⟨others, by simp, hothers, rfl⟩⟩
  | _ => simp [havePlain] at hm

variable [Stack]

mutual

/-- **The text of a value is read back**, if the machine can open as many collections as the value
nests. -/
theorem run_text : (v : Value) → v.isPlain → ∀ {t : String} {frames : List Frame}
    {rest : List Char}, text .compact v = .ok t → frames.length + v.depth ≤ dialect.depth →
    EndsValue rest →
    run dialect .value frames (t.toList ++ rest) = run dialect (.after v) frames rest
  | .scalar s, hv, _, _, _, ht, _, hrest => run_scalar hv ht hrest
  | .list [], _, _, frames, rest, ht, hdepth, _ => by
    cases ht
    have hopen : frames.length < dialect.depth := by
      simp only [depth, itemsDepth] at hdepth
      omega
    show run dialect .value frames ('[' :: ']' :: rest) = _
    rw [run_openList hopen, run_noItems]
  | .list (v :: r), hv, _, frames, rest, ht, hdepth, _ => by
    obtain ⟨u, hu, ht⟩ := bind_eq_ok ht
    cases ht
    rw [isPlain] at hv
    rw [depth] at hdepth
    have hplain := hv
    rw [arePlain, Bool.and_eq_true] at hplain
    have hread : run dialect .value (.items [] :: frames) (u.toList ++ ']' :: rest) =
        run dialect (.after (.list (v :: r))) frames rest :=
      run_items (v :: r) (by simp) hv hu (by omega)
    obtain ⟨c, u', hcs, hc⟩ := exists_head_items hplain.1 hu
    have htext : ("[" ++ u ++ "]").toList ++ rest = '[' :: (u.toList ++ ']' :: rest) := by simp
    rw [hcs, List.cons_append] at hread
    rw [htext, run_openList (by omega), hcs, List.cons_append, run_firstItem hc, hread]
  | .mapping [], _, _, frames, rest, ht, hdepth, _ => by
    cases ht
    have hopen : frames.length < dialect.depth := by
      simp only [depth, entriesDepth] at hdepth
      omega
    show run dialect .value frames ('{' :: '}' :: rest) = _
    rw [run_openMapping hopen, run_noEntries]
  | .mapping (e :: r), hv, _, frames, rest, ht, hdepth, _ => by
    obtain ⟨u, hu, ht⟩ := bind_eq_ok ht
    cases ht
    rw [isPlain, Bool.and_eq_true, decide_eq_true_eq] at hv
    rw [depth] at hdepth
    have htext : ("\x7b" ++ u ++ "\x7d").toList ++ rest = '{' :: (u.toList ++ '}' :: rest) := by
      simp
    rw [htext, run_openMapping (by omega)]
    exact run_entries (e :: r) (by simp) hv.1 hu (by omega) hv.2 (.inl rfl)

theorem run_items : (l : List Value) → l ≠ [] → arePlain l → ∀ {t : String} {frames : List Frame}
    {done : List Value} {rest : List Char}, itemsText .compact l = .ok t →
    frames.length + 1 + itemsDepth l ≤ dialect.depth →
    run dialect .value (.items done :: frames) (t.toList ++ ']' :: rest) =
      run dialect (.after (.list (done.reverse ++ l))) frames rest
  | [], hne, _, _, _, _, _, _, _ => absurd rfl hne
  | [v], _, hl, _, frames, done, rest, ht, hdepth => by
    rw [arePlain, Bool.and_eq_true] at hl
    rw [itemsDepth] at hdepth
    have hframes : (Frame.items done :: frames).length = frames.length + 1 := rfl
    rw [run_text v hl.1 ht (by omega) (endsValue_cons rest (by simp)), run_closeList,
      List.reverse_cons]
  | v :: w :: r, _, hl, _, frames, done, rest, ht, hdepth => by
    rw [arePlain, Bool.and_eq_true] at hl
    rw [itemsDepth] at hdepth
    have hframes : (Frame.items done :: frames).length = frames.length + 1 := rfl
    obtain ⟨first, hfirst, ht⟩ := bind_eq_ok ht
    obtain ⟨others, hothers, ht⟩ := bind_eq_ok ht
    cases ht
    have htext : (first ++ Style.compact.itemSeparator ++ others).toList ++ ']' :: rest =
        first.toList ++ ',' :: (others.toList ++ ']' :: rest) := by simp [Style.compact]
    rw [htext, run_text v hl.1 hfirst (by omega) (endsValue_cons _ (by simp)), run_nextItem,
      run_items (w :: r) (by simp) hl.2 hothers (by omega)]
    simp

theorem run_entries : (m : List (Scalar × Value)) → m ≠ [] → havePlain m → ∀ {t : String}
    {goal : Goal} {frames : List Frame} {done : List (Scalar × Value)} {rest : List Char},
    entriesText .compact m = .ok t → frames.length + 1 + entriesDepth m ≤ dialect.depth →
    ((done ++ m).map Prod.fst).Nodup → goal = .firstKey done ∨ goal = .key done →
    run dialect goal frames (t.toList ++ '}' :: rest) =
      run dialect (.after (.mapping (done ++ m))) frames rest
  | [], hne, _, _, _, _, _, _, _, _, _, _ => absurd rfl hne
  | (k, v) :: r, _, hm, _, goal, frames, done, rest, ht, hdepth, hkeys, hgoal => by
    rw [entriesDepth] at hdepth
    obtain ⟨key, value, u, hkey, hv, hr, hvalue, htext, hu⟩ := exists_entry hm ht
    obtain rfl : k = .str key := hkey
    have hframes : (Frame.members done (.str key) :: frames).length = frames.length + 1 := rfl
    have hset : Table.set done (.str key) v = done ++ [(.str key, v)] := by
      apply Table.set_of_not_mem
      intro hmem
      rw [List.map_append, List.nodup_append] at hkeys
      exact hkeys.2.2 _ hmem _ (by simp) rfl
    have hends : EndsValue (u ++ '}' :: rest) := by
      rcases hu with ⟨-, rfl⟩ | ⟨others, -, -, rfl⟩ <;> exact endsValue_cons _ (by simp)
    rw [htext, List.append_assoc, run_key hgoal, List.cons_append, run_colon, List.append_assoc,
      run_text v hv hvalue (by omega) hends]
    rcases hu with ⟨rfl, rfl⟩ | ⟨others, hne, hothers, rfl⟩
    · rw [List.nil_append, run_closeMapping, hset]
    · rw [List.cons_append, run_nextEntry, hset, run_entries r hne hr hothers (by omega)
        (by simpa using hkeys) (.inr rfl)]
      simp

end

/-- **The text of a value is read as the value.** -/
theorem read_text {v : Value} {t : String} (hv : v.isPlain) (ht : text .compact v = .ok t)
    (hdepth : v.depth ≤ dialect.depth) : read dialect t.toList = .ok v := by
  obtain ⟨c, r, hcs, hc⟩ := exists_head hv ht
  have hmark : c ≠ '\uFEFF' := by
    rintro rfl
    exact absurd hc (by decide)
  have hread : run dialect .value [] (t.toList ++ []) = run dialect (.after v) [] [] :=
    run_text v hv ht (by simpa using hdepth) endsValue_nil
  rw [List.append_nil, hcs] at hread
  rw [hcs, read]
  · rw [hread, run]
  · intro _ heq
    exact hmark (List.cons.inj heq).1

end Json

/-! ### Values on their way through a tool -/

open Placeholder (IsPath ofPath textAt)

/-- Whether a value is a collection that JSON can hold: made of JSON values, without an integer that
is too long, and nested no deeper than the reader goes. -/
structure Value.IsInterchangeable [Stack] (v : Value) : Prop where
  plain : v.isPlain
  collection : ∀ s, v ≠ .scalar s
  short : ¬ v.HoldsLong
  shallow : v.depth ≤ Stack.output

/-- Such a value has a text that is read as the value. -/
theorem Value.IsInterchangeable.exists_text [Stack] {v : Value} (h : v.IsInterchangeable) :
    ∃ t, v.stringify = .ok t ∧ Output.ofText t = .parsed v := by
  obtain ⟨t, ht⟩ := (Json.failsIff_text (isJson_of_isPlain v h.plain)).2 h.short
  have hstringify : v.stringify = Json.text .compact v := by
    cases v with
    | scalar s => exact absurd rfl (h.collection s)
    | list items => rfl
    | mapping entries => rfl
    | set members => cases h.plain
    | pair a b => cases h.plain
    | endless isMapping => cases h.plain
  refine ⟨t, hstringify.trans ht, ?_⟩
  rw [Output.ofText, Json.read_text h.plain ht h.shallow]

/-- **Collections survive a tool.** The text of a collection of JSON values is read as the same
value, and no other collection has this text. So when a placeholder leads to the value, it becomes a
text that, echoed as the output of a step, is recorded as the value. -/
theorem stringify_faithful [Stack] {v : Value} (h : v.IsInterchangeable) :
    ∃ t, v.stringify = .ok t ∧ Output.ofText t = .parsed v ∧
      (∀ w : Value, w.IsInterchangeable → w.stringify = .ok t → w = v) ∧
      ∀ (c : Context) path, IsPath path → c.tree.resolve path = some v →
        c.substitute (.str (ofPath path)) = .ok (.str t) ∧
        ∀ step : Step, (c.complete step t).steps.get? step.id = some ⟨.parsed v, t⟩ := by
  obtain ⟨t, ht, hread⟩ := h.exists_text
  refine ⟨t, ht, hread, fun w hw hsame => ?_, fun c path hpath hresolve => ⟨?_, fun step => ?_⟩⟩
  · obtain ⟨u, hu, hreadw⟩ := hw.exists_text
    rw [hsame] at hu
    cases hu
    rw [hread] at hreadw
    cases hreadw
    rfl
  · rw [c.substitute_ofPath hpath, textAt, hresolve]
    exact congrArg (Except.map Value.str) ht
  · rw [Context.complete, Table.get?_set_self, Record.ofText, hread]

/-- A variable with values of all kinds. -/
theorem stringify_faithful_sample :
    let v : Value := .mapping [(.str "items", .list [.null, .bool true, .int (-3),
      .float (.finite true .zero), .str "a\"\u0001é"]), (.str "", .mapping [])]
    let c : Context := ⟨[("v", v)], []⟩
    ∃ t, c.substitute (.str "$\x7bvariables.v\x7d") = .ok (.str t) ∧
      Output.ofText t = .parsed v := by
  intro v c
  have htext : (Json.text .compact v).toBool = true := by decide +kernel
  have hplain : v.isPlain := by decide +kernel
  have h : v.IsInterchangeable := by
    refine ⟨hplain, nofun, fun hlong => ?_, by decide +kernel⟩
    rw [(Json.failsIff_text (Value.isJson_of_isPlain v hplain)).1 hlong] at htext
    cases htext
  obtain ⟨t, -, hread, -, hcontext⟩ := stringify_faithful h
  exact ⟨t, (hcontext c "variables.v" (by decide) rfl).1, hread⟩

end Runbook
