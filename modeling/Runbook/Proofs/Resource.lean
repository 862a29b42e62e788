import Runbook.Resource
import Mathlib.Data.List.Infix
import Mathlib.Data.List.TakeWhile

/-!
# Addresses in a text, run by run

The scan for addresses goes from character to character. It comes to the same to part the text at
its delimiters and to look at each run in between: a run gives at most one address, which is all of
the run from the leftmost scheme on that something follows.

* `runs`, `addressOf?`: the runs of a text, and the address in a run;
* `urlsFrom_eq`: the addresses of a text are those in its runs;
* `resourcesOf_exact`: which resources a text gives, and what they are.
-/

namespace Runbook
namespace Resource

/-- The schemes of addresses. -/
def schemes : List (List Char) := ["http://".toList, "https://".toList]

/-- Whether a list starts with a scheme that something follows. -/
def IsAddress (cs : List Char) : Prop :=
  ∃ scheme ∈ schemes, scheme <+: cs ∧ scheme ≠ cs

instance (cs : List Char) : Decidable (IsAddress cs) :=
  inferInstanceAs (Decidable (∃ scheme ∈ schemes, scheme <+: cs ∧ scheme ≠ cs))

/-- The maximal runs of characters that belong to addresses: what is between delimiters, unless it
is empty. -/
def runs (cs : List Char) : List (List Char) :=
  (cs.splitOnP fun c => !isUrlChar c).filter (· ≠ [])

/-- The address in a run: the first of its suffixes that is one. -/
def addressOf? (run : List Char) : Option (List Char) :=
  run.tails.find? fun url => IsAddress url

/-- A suffix of a run is its address if it starts at the leftmost scheme that something follows. -/
structure IsAddressOf (run url : List Char) : Prop where
  suffix : url <:+ run
  isAddress : IsAddress url
  leftmost : ∀ other, other <:+ run → IsAddress other → other <:+ url

/-! ### Runs -/

section Runs

variable {run rest cs : List Char} {c : Char}

theorem runs_nil : runs [] = [] := rfl

/-- A delimiter parts the runs before it from those behind it. -/
theorem runs_append_cons (a b : List Char) (hc : isUrlChar c = false) :
    runs (a ++ c :: b) = runs a ++ runs b := by
  unfold runs
  rw [List.splitOnP_append_cons _ _ (by simpa using hc), List.filter_append]

theorem runs_cons_of_delimiter (hc : isUrlChar c = false) : runs (c :: cs) = runs cs :=
  runs_append_cons [] cs hc

/-- A list that belongs to addresses is a single run. -/
theorem runs_of_all (hne : run ≠ []) (hrun : ∀ c ∈ run, isUrlChar c = true) : runs run = [run] := by
  unfold runs
  rw [List.splitOnP_eq_singleton (by simpa using hrun)]
  simp [hne]

/-- A list up to its first delimiter is its first run. -/
theorem runs_append (hne : run ≠ []) (hrun : ∀ c ∈ run, isUrlChar c = true)
    (hrest : rest.takeWhile isUrlChar = []) : runs (run ++ rest) = run :: runs rest := by
  cases rest with
  | nil => rw [List.append_nil, runs_of_all hne hrun, runs_nil]
  | cons c r =>
    have hc : isUrlChar c = false := by
      by_contra hne
      rw [List.takeWhile_cons_of_pos (by simpa using hne)] at hrest
      exact absurd hrest (List.cons_ne_nil _ _)
    rw [runs_append_cons run r hc, runs_of_all hne hrun, runs_cons_of_delimiter hc]
    rfl

end Runs

/-! ### Addresses -/

section Address

variable {run url cs r : List Char}

theorem isUrlChar_of_mem_scheme {scheme : List Char} (h : scheme ∈ schemes) :
    ∀ c ∈ scheme, isUrlChar c = true := by
  have hall : (schemes.all fun scheme => scheme.all isUrlChar) = true := by decide
  exact List.all_eq_true.1 (List.all_eq_true.1 hall scheme h)

theorem afterScheme?_eq_some_iff :
    afterScheme? cs = some r ↔ ∃ scheme ∈ schemes, cs = scheme ++ r := by
  constructor
  · intro h
    unfold afterScheme? at h
    split at h
    · cases h
      exact ⟨_, .tail _ (.head _), rfl⟩
    · cases h
      exact ⟨_, .head _, rfl⟩
    · cases h
  · rintro ⟨scheme, hmem, rfl⟩
    rcases List.mem_cons.1 hmem with rfl | hmem
    · rfl
    · cases List.mem_singleton.1 hmem
      rfl

/-- **An address is found where the run from there on is one**, and is all of that run. -/
theorem urlAt?_eq_some_iff :
    urlAt? cs = some url ↔ url = cs.takeWhile isUrlChar ∧ IsAddress url := by
  constructor
  · intro h
    unfold urlAt? at h
    split at h
    · next c r hr =>
      obtain ⟨scheme, hmem, rfl⟩ := afterScheme?_eq_some_iff.1 hr
      split at h
      · next hc =>
        cases h
        refine ⟨rfl, scheme, hmem, ?_⟩
        rw [List.takeWhile_append_of_pos (isUrlChar_of_mem_scheme hmem),
          List.takeWhile_cons_of_pos hc]
        exact ⟨List.prefix_append _ _, by simp⟩
      · cases h
    · cases h
  · rintro ⟨hurl, scheme, hmem, ⟨r, hr⟩, hne⟩
    cases r with
    | nil => exact absurd hr (by simpa using hne)
    | cons c r =>
      have hcs : cs = scheme ++ c :: (r ++ cs.dropWhile isUrlChar) := by
        rw [← List.cons_append, ← List.append_assoc, hr, hurl, List.takeWhile_append_dropWhile]
      have hc : isUrlChar c = true := by
        refine List.mem_takeWhile_imp (l := cs) ?_
        rw [← hurl, ← hr]
        simp
      unfold urlAt?
      rw [afterScheme?_eq_some_iff.2 ⟨scheme, hmem, hcs⟩]
      simp only [hc, if_true, hurl]

theorem addressOf?_cons (c : Char) (run : List Char) :
    addressOf? (c :: run) = if IsAddress (c :: run) then some (c :: run) else addressOf? run := by
  unfold addressOf?
  rw [List.tails_cons, List.find?_cons]
  by_cases h : IsAddress (c :: run) <;> simp [h]

/-- **The address in a run** is its suffix from the leftmost scheme on that something follows. -/
theorem addressOf?_eq_some_iff : addressOf? run = some url ↔ IsAddressOf run url := by
  induction run with
  | nil =>
    constructor
    · intro h
      cases h
    · rintro ⟨hsuffix, haddress, -⟩
      obtain rfl := List.suffix_nil.1 hsuffix
      exact absurd haddress (by decide)
  | cons c r ih =>
    rw [addressOf?_cons]
    by_cases h : IsAddress (c :: r)
    · rw [if_pos h]
      constructor
      · rintro ⟨⟩
        exact ⟨List.suffix_rfl, h, fun other hother _ => hother⟩
      · intro hurl
        have hlonger := hurl.leftmost _ List.suffix_rfl h
        rw [hlonger.eq_of_length_le hurl.suffix.length_le]
    · rw [if_neg h, ih]
      constructor
      · rintro ⟨hsuffix, haddress, hleftmost⟩
        refine ⟨hsuffix.trans (List.suffix_cons c r), haddress, fun other hother hisAddress => ?_⟩
        rcases List.suffix_cons_iff.1 hother with rfl | hother
        · exact absurd hisAddress h
        · exact hleftmost other hother hisAddress
      · rintro ⟨hsuffix, haddress, hleftmost⟩
        refine ⟨?_, haddress, fun other hother =>
          hleftmost other (hother.trans (List.suffix_cons c r))⟩
        rcases List.suffix_cons_iff.1 hsuffix with rfl | hsuffix
        · exact absurd haddress h
        · exact hsuffix

end Address

/-! ### The scan -/

section Scan

variable {run rest : List Char}

/-- The rest of an address is skipped. -/
theorem urlsFrom_append (skipped cs : List Char) :
    urlsFrom skipped.length (skipped ++ cs) = urlsFrom 0 cs := by
  induction skipped with
  | nil => rfl
  | cons _ r ih => exact ih

/-- The scan of a run finds its address. -/
theorem urlsFrom_run (hrun : ∀ c ∈ run, isUrlChar c = true)
    (hrest : rest.takeWhile isUrlChar = []) :
    urlsFrom 0 (run ++ rest) = (addressOf? run).toList ++ urlsFrom 0 rest := by
  induction run with
  | nil => rfl
  | cons c r ih =>
    have htake : (c :: r ++ rest).takeWhile isUrlChar = c :: r := by
      rw [List.takeWhile_append_of_pos hrun, hrest, List.append_nil]
    rw [addressOf?_cons]
    by_cases h : IsAddress (c :: r)
    · have hurl : urlAt? (c :: (r ++ rest)) = some (c :: r) :=
        urlAt?_eq_some_iff.2 ⟨htake.symm, h⟩
      rw [if_pos h, List.cons_append, urlsFrom, hurl]
      exact congrArg (_ :: ·) (urlsFrom_append r rest)
    · have hurl : urlAt? (c :: (r ++ rest)) = none := by
        rw [Option.eq_none_iff_forall_ne_some]
        intro url hurl
        obtain ⟨rfl, haddress⟩ := urlAt?_eq_some_iff.1 hurl
        rw [← List.cons_append, htake] at haddress
        exact h haddress
      rw [if_neg h, List.cons_append, urlsFrom, hurl]
      exact ih fun d hd => hrun d (List.mem_cons_of_mem c hd)

/-- No address starts at a delimiter. -/
theorem urlsFrom_cons_of_delimiter {c : Char} (hc : isUrlChar c = false) (cs : List Char) :
    urlsFrom 0 (c :: cs) = urlsFrom 0 cs := by
  have hurl : urlAt? (c :: cs) = none := by
    rw [Option.eq_none_iff_forall_ne_some]
    intro url hurl
    obtain ⟨rfl, haddress⟩ := urlAt?_eq_some_iff.1 hurl
    rw [List.takeWhile_cons_of_neg (by simpa using hc)] at haddress
    exact absurd haddress (by decide)
  rw [urlsFrom, hurl]

theorem takeWhile_dropWhile (p : Char → Bool) (cs : List Char) :
    (cs.dropWhile p).takeWhile p = [] := by
  have hall : (cs.takeWhile p ++ cs.dropWhile p).takeWhile p = _ :=
    List.takeWhile_append_of_pos fun c hc => List.mem_takeWhile_imp hc
  rwa [List.takeWhile_append_dropWhile, eq_comm, List.append_right_eq_self] at hall

/-- **The addresses of a text are those in its runs.** The text starts with a delimiter or with a
run. -/
theorem urlsFrom_eq : ∀ cs, urlsFrom 0 cs = (runs cs).filterMap addressOf?
  | [] => rfl
  | c :: r => by
    by_cases hc : isUrlChar c = true
    · have hcs : c :: r = (c :: r.takeWhile isUrlChar) ++ r.dropWhile isUrlChar := by
        rw [List.cons_append, List.takeWhile_append_dropWhile]
      have hrun : ∀ d ∈ c :: r.takeWhile isUrlChar, isUrlChar d = true := by
        rw [← List.takeWhile_cons_of_pos hc]
        exact fun d => List.mem_takeWhile_imp
      have hrest := takeWhile_dropWhile isUrlChar r
      rw [hcs, urlsFrom_run hrun hrest, runs_append (List.cons_ne_nil _ _) hrun hrest,
        urlsFrom_eq (r.dropWhile isUrlChar), List.filterMap_cons]
      cases addressOf? (c :: r.takeWhile isUrlChar) <;> rfl
    · have hc : isUrlChar c = false := by simpa using hc
      rw [urlsFrom_cons_of_delimiter hc, runs_cons_of_delimiter hc, urlsFrom_eq r]
termination_by cs => cs.length
decreasing_by
  · exact Nat.lt_succ_of_le (List.length_dropWhile_le _ _)
  · exact Nat.lt_succ_self _

end Scan

/-! ### What a resource is -/

section OfUrl

variable {url : List Char}

/-- A pattern occurs in a list as an infix. -/
theorem occurs_iff {pattern : List Char} :
    ResourceKind.occurs pattern url = true ↔ pattern <:+: url := by
  induction url with
  | nil => simp [ResourceKind.occurs]
  | cons c r ih =>
    rw [ResourceKind.occurs, Bool.or_eq_true, ih, List.isPrefixOf_iff_prefix, List.infix_cons_iff]

/-- The kind of an address, by the markers that occur in it. -/
theorem kind_ofUrl (url : List Char) :
    (ofUrl url).kind =
      if "/dashboard".toList <:+: url then .dashboard
      else if "/slo".toList <:+: url then .slo
      else if "/alert".toList <:+: url ∨ "/rule".toList <:+: url then .alertRule
      else .other := by
  show ResourceKind.ofUrl url = _
  simp only [← occurs_iff, ResourceKind.ofUrl, ResourceKind.markers, List.find?_cons, List.any_cons,
    List.any_nil, Bool.or_false]
  cases ResourceKind.occurs "/dashboard".toList url
  case true => rfl
  cases ResourceKind.occurs "/slo".toList url
  case true => rfl
  cases ResourceKind.occurs "/alert".toList url
  case true => rfl
  cases ResourceKind.occurs "/rule".toList url <;> rfl

theorem slash_mem_of_isAddress (h : IsAddress url) : '/' ∈ url := by
  obtain ⟨scheme, hmem, ⟨r, rfl⟩, -⟩ := h
  refine List.mem_append_left _ ?_
  revert scheme
  decide

theorem slash_not_mem_lastSegment (url : List Char) : '/' ∉ lastSegment url := by
  intro h
  simpa using List.mem_takeWhile_imp (List.mem_reverse.1 h)

/-- A list is parted at its last slash. -/
theorem exists_append_lastSegment (h : '/' ∈ url) :
    ∃ front, url = front ++ '/' :: lastSegment url := by
  obtain ⟨back, front, hurl, hback⟩ := List.eq_append_cons_of_mem (List.mem_reverse.2 h)
  have hsegment : lastSegment url = back.reverse := by
    have hall : ∀ c ∈ back, decide (c ≠ '/') = true :=
      fun c hc => decide_eq_true (ne_of_mem_of_not_mem hc hback)
    unfold lastSegment
    rw [hurl, List.takeWhile_append_of_pos hall, List.takeWhile_cons_of_neg (by simp),
      List.append_nil]
  refine ⟨front.reverse, ?_⟩
  rw [hsegment, ← List.reverse_reverse url, hurl]
  simp

end OfUrl

/-- A resource is at an address if it has it as its own, the text after the last slash as its
identifier, unless that is empty, and the kind of the first marker that occurs. -/
structure IsAt (r : Resource) (address : List Char) : Prop where
  url : r.url = String.ofList address
  kind : r.kind =
    if "/dashboard".toList <:+: address then .dashboard
    else if "/slo".toList <:+: address then .slo
    else if "/alert".toList <:+: address ∨ "/rule".toList <:+: address then .alertRule
    else .other
  id : ∃ front segment, address = front ++ '/' :: segment ∧ '/' ∉ segment ∧
    r.id = if segment = [] then none else some (String.ofList segment)

theorem isAt_ofUrl {url : List Char} (h : IsAddress url) : (ofUrl url).IsAt url where
  url := rfl
  kind := kind_ofUrl url
  id := by
    obtain ⟨front, hfront⟩ := exists_append_lastSegment (slash_mem_of_isAddress h)
    refine ⟨front, lastSegment url, hfront, slash_not_mem_lastSegment url, ?_⟩
    simp [ofUrl, List.isEmpty_iff]

/-- The text of an identifier that is generated from 128 bits: hexadecimal digits in groups. -/
def generatedId (bits : BitVec 128) : String :=
  let digits := bits.toHex.toList
  let group (start length : Nat) := (digits.drop start).take length
  String.ofList (group 0 8 ++ '-' :: group 8 4 ++ '-' :: group 12 4 ++ '-' :: group 16 4 ++
    '-' :: group 20 12)

theorem generatedId_ne_empty (bits : BitVec 128) : generatedId bits ≠ "" := by
  intro h
  simpa [generatedId] using congrArg String.toList h

/-- No resource has an empty identifier, once it is generated where it has to be. -/
theorem IsAt.id_ne_empty {r : Resource} {url : List Char} (h : r.IsAt url) (bits : BitVec 128) :
    r.id.getD (generatedId bits) ≠ "" := by
  obtain ⟨front, segment, -, -, hid⟩ := h.id
  rw [hid]
  split
  · exact generatedId_ne_empty bits
  · next hne => simpa using hne

end Resource

open Resource

/-- **The resources of a text are those of its runs**, in order: a run gives at most one, at its
suffix from the leftmost scheme on that something follows. So a delimiter parts the resources of a
text, and each resource is at an address like that, with an identifier that is not empty. -/
theorem resourcesOf_exact (text : String) :
    resourcesOf text =
        ((runs text.toList).filterMap fun run => (addressOf? run).map ofUrl) ∧
      (∀ run url, addressOf? run = some url ↔ IsAddressOf run url) ∧
      (∀ (a b : String) (c : Char), isUrlChar c = false → text = a ++ String.singleton c ++ b →
        resourcesOf text = resourcesOf a ++ resourcesOf b) ∧
      ∀ r ∈ resourcesOf text, (∃ run ∈ runs text.toList, ∃ url, IsAddressOf run url ∧ r.IsAt url) ∧
        ∀ bits, r.id.getD (generatedId bits) ≠ "" := by
  have hruns : ∀ text, resourcesOf text =
      (runs text.toList).filterMap fun run => (addressOf? run).map ofUrl := fun text => by
    rw [resourcesOf, urlsFrom_eq, List.map_filterMap]
  refine ⟨hruns text, fun run url => addressOf?_eq_some_iff, ?_, fun r hr => ?_⟩
  · rintro a b c hc rfl
    rw [hruns, hruns, hruns, ← List.filterMap_append, ← runs_append_cons _ _ hc]
    simp
  · rw [hruns] at hr
    obtain ⟨run, hrun, hurl⟩ := List.mem_filterMap.1 hr
    obtain ⟨url, haddress, rfl⟩ := Option.map_eq_some_iff.1 hurl
    have haddress := addressOf?_eq_some_iff.1 haddress
    have hat := isAt_ofUrl haddress.isAddress
    exact ⟨⟨run, hrun, url, haddress, hat⟩, hat.id_ne_empty⟩

/-- A text with a scheme inside an address, a scheme that nothing follows, and an address that ends
with a slash. -/
theorem resourcesOf_exact_sample :
    let text := "see <https://http://k/slos/s1> or http:// and http://k/rules/"
    resourcesOf text = resourcesOf "see <https://http://k/slos/s1" ++
        resourcesOf " or http:// and http://k/rules/" ∧
      (resourcesOf text).map (fun r => (r.kind, r.id)) = [(.slo, some "s1"), (.alertRule, none)] ∧
      ∀ bits, ∃ r ∈ resourcesOf text, r.id = none ∧ r.id.getD (generatedId bits) ≠ "" := by
  intro text
  have hexact := resourcesOf_exact text
  have hmem : ⟨.alertRule, none, "alert_rule resource", "http://k/rules/"⟩ ∈ resourcesOf text := by
    decide
  exact ⟨hexact.2.2.1 _ _ '>' (by decide) (by decide), by decide,
    fun bits => ⟨_, hmem, rfl, (hexact.2.2.2 _ hmem).2 bits⟩⟩

end Runbook
