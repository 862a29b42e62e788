import Runbook.Proofs.Yaml.Number
import Runbook.Proofs.Yaml.Pen

/-!
# The characters that are written

Whatever the value, a reader may meet every character that is written for it, and none of them is a
carriage return.
-/

namespace Runbook
namespace Yaml

/-- Whether a character may stand in a YAML text and is no carriage return. -/
def isLegal (c : Char) : Bool :=
  isAllowed c && c ≠ '\r'

variable {c : Char}

theorem isLegal_of_isOrdinary (h : Style.isOrdinary c) : isLegal c := by
  have hvalid : c.toNat < 0xd800 ∨ 0xdfff < c.toNat ∧ c.toNat < 0x110000 := c.valid
  simp only [Style.isOrdinary, Style.isWide, Bool.or_eq_true, Bool.and_eq_true,
    decide_eq_true_eq] at h
  have hreturn : c ≠ '\r' := by
    rintro rfl
    revert h
    decide
  simp only [isLegal, isAllowed, Bool.or_eq_true, Bool.and_eq_true, decide_eq_true_eq]
  refine ⟨?_, hreturn⟩
  obtain (rfl | h) | h := h
  · decide
  · omega
  · omega

theorem isLegal_of_not_isEscaped (h : Pen.isEscaped c = false) : isLegal c := by
  have hvalid : c.toNat < 0xd800 ∨ 0xdfff < c.toNat ∧ c.toNat < 0x110000 := c.valid
  have hreturn : c ≠ '\r' := by
    rintro rfl
    cases h
  simp only [Pen.isEscaped, Bool.or_eq_false_iff, Bool.not_eq_false', Bool.or_eq_true,
    Bool.and_eq_true, decide_eq_true_eq] at h
  simp only [isLegal, isAllowed, Bool.or_eq_true, Bool.and_eq_true, decide_eq_true_eq]
  exact ⟨by omega, hreturn⟩

theorem isLegal_of_mem_numeralChars (h : c ∈ numeralChars) : isLegal c := by
  have hall : ∀ c ∈ numeralChars, isLegal c := List.all_eq_true.1 (by decide)
  exact hall c h

theorem isLegal_of_mem_escapeOf {d : Char} (h : c ∈ Pen.escapeOf d) : isLegal c := by
  have hdigit : ∀ width, c ∈ Pen.codeDigits width d → isLegal c := by
    intro width hc
    obtain ⟨n, hn, rfl⟩ := exists_of_mem_hexDigits hc
    have hall : ∀ n < 16, isLegal n.digitChar.toUpper := by decide
    exact hall n hn
  unfold Pen.escapeOf at h
  split at h
  · next letter hletter =>
    have hbackslash : isLegal '\\' := rfl
    rcases List.mem_cons.1 h with rfl | h
    · exact hbackslash
    · obtain rfl := List.mem_singleton.1 h
      unfold Pen.escapeLetter? at hletter
      split at hletter <;> first | (obtain rfl := Option.some.inj hletter; rfl) | cases hletter
  · have hmark : ∀ letter digits, c ∈ '\\' :: letter :: digits → isLegal letter →
        (c ∈ digits → isLegal c) → isLegal c := by
      intro letter digits hc hletter hdigits
      rcases List.mem_cons.1 hc with rfl | hc
      · rfl
      rcases List.mem_cons.1 hc with rfl | hc
      · exact hletter
      · exact hdigits hc
    split at h
    · exact hmark _ _ h rfl (hdigit 2)
    split at h
    · exact hmark _ _ h rfl (hdigit 4)
    · exact hmark _ _ h rfl (hdigit 8)

namespace Pen

/-- A text under construction of which all characters are legal. -/
def Legal (p : Pen) : Prop :=
  ∀ c ∈ p.written, isLegal c

variable {p : Pen} {cs : List Char} {n : Nat}

theorem legal_start : start.Legal := by
  simp [Legal, start]

theorem Legal.write (hp : p.Legal) (h : ∀ c ∈ cs, isLegal c) : (p.write cs).Legal := by
  intro c hc
  rcases List.mem_append.1 hc with hc | hc
  · exact h c (List.mem_reverse.1 hc)
  · exact hp c hc

theorem Legal.lineEnd (hp : p.Legal) (h : isLegal c) : (p.lineEnd c).Legal := by
  intro d hd
  rcases List.mem_cons.1 hd with rfl | hd
  · exact h
  · exact hp d hd

theorem Legal.indent (hp : p.Legal) (n : Nat) : (p.indent n).Legal := by
  have hspaces : ∀ {q : Pen} {k : Nat}, q.Legal → (q.write (List.replicate k ' ')).Legal := by
    intro q k hq
    refine hq.write fun c hc => ?_
    rw [List.eq_of_mem_replicate hc]
    rfl
  have hline : (p.lineEnd '\n').Legal := hp.lineEnd rfl
  unfold Pen.indent
  dsimp only
  split
  · split
    · exact hspaces hline
    · exact hline
  · split
    · exact hspaces hp
    · exact hp

theorem Legal.mark (hp : p.Legal) (h : ∀ c ∈ cs, isLegal c) (spaced isBlank isIndent : Bool) :
    (p.mark cs spaced isBlank isIndent).Legal := by
  refine Legal.write hp fun c hc => ?_
  split at hc
  · exact h c hc
  · rcases List.mem_cons.1 hc with rfl | hc
    · rfl
    · exact h c hc

/-! ### Texts -/

theorem mem_of_mem_runs {run : List Char} (h : run ∈ runs cs) (hc : c ∈ run) : c ∈ cs := by
  have hflatten : (runs cs).flatten = cs := List.flatten_splitBy ..
  rw [← hflatten]
  exact List.mem_flatten_of_mem h hc

theorem Legal.plain (hp : p.Legal) (inner : Nat) (folds : Bool) {text : String}
    (h : ∀ c ∈ text.toList, isLegal c) : (p.plain inner folds text).Legal := by
  unfold Pen.plain
  split
  · exact hp
  have hspace : ∀ c ∈ [' '], isLegal c := by simp [isLegal, isAllowed]
  have hstart : (if p.afterBlank then p else p.write [' ']).tight.Legal := by
    split
    · exact hp
    · exact hp.write hspace
  have hruns : ∀ (rs : List (List Char)) (q : Pen), q.Legal → (∀ run ∈ rs, ∀ c ∈ run, isLegal c) →
      (rs.foldl (fun q run =>
        if run = [' '] && lineWidth < q.column && folds then (q.indent inner).tight
        else q.write run) q).Legal := by
    intro rs
    induction rs with
    | nil => exact fun q hq _ => hq
    | cons run rs ih =>
      intro q hq hrs
      refine ih _ ?_ fun run hrun => hrs run (List.mem_cons_of_mem _ hrun)
      dsimp only
      split
      · exact hq.indent inner
      · exact hq.write (hrs run List.mem_cons_self)
  exact hruns _ _ hstart fun run hrun c hc => h c (mem_of_mem_runs hrun hc)

theorem Legal.lineEnds (hp : p.Legal) (inner : Nat) {run : List Char} (h : ∀ c ∈ run, isLegal c) :
    (p.lineEnds inner run).Legal := by
  have hends : ∀ (cs : List Char) (q : Pen), q.Legal → (∀ c ∈ cs, isLegal c) →
      (cs.foldl Pen.lineEnd q).Legal := by
    intro cs
    induction cs with
    | nil => exact fun q hq _ => hq
    | cons c cs ih =>
      intro q hq hcs
      exact ih _ (hq.lineEnd (hcs c List.mem_cons_self)) fun d hd =>
        hcs d (List.mem_cons_of_mem _ hd)
  unfold Pen.lineEnds
  refine Legal.indent (hends run _ ?_ h) inner
  split
  · exact hp.lineEnd rfl
  · exact hp

theorem Legal.singleRuns (inner : Nat) (folds isFirst : Bool) {rs : List (List Char)}
    (hp : p.Legal) (h : ∀ run ∈ rs, ∀ c ∈ run, isLegal c) :
    (Pen.singleRuns inner folds isFirst rs p).Legal := by
  induction rs generalizing isFirst p with
  | nil => exact hp
  | cons run rs ih =>
    have hrun := h run List.mem_cons_self
    rw [Pen.singleRuns]
    refine ih false ?_ fun run hrun => h run (List.mem_cons_of_mem _ hrun)
    split
    · exact hp.lineEnds inner hrun
    · split
      · exact hp.indent inner
      · exact hp.write hrun
    · refine hp.write fun c hc => ?_
      obtain ⟨d, hd, hc⟩ := List.mem_flatMap.1 hc
      split at hc
      · have hquote : c = '\'' := by simpa using hc
        rw [hquote]
        rfl
      · rw [List.mem_singleton.1 hc]
        exact hrun d hd

theorem Legal.single (hp : p.Legal) (inner : Nat) (folds : Bool) {text : String}
    (h : ∀ c ∈ text.toList, isLegal c) : (p.single inner folds text).Legal := by
  have hquote : ∀ c ∈ ['\''], isLegal c := by simp [isLegal, isAllowed]
  exact (Legal.singleRuns inner folds true (hp.mark hquote true false false)
    fun run hrun c hc => h c (mem_of_mem_runs hrun hc)).mark hquote false false false

theorem Legal.fold (hp : p.Legal) (inner : Nat) (next : Option Char) :
    (p.fold inner next).Legal := by
  have hbackslash : ∀ c ∈ ['\\'], isLegal c := by simp [isLegal, isAllowed]
  have hindent : ((p.write ['\\']).indent inner).tight.Legal := (hp.write hbackslash).indent inner
  unfold Pen.fold
  dsimp only
  split
  · exact hindent.write hbackslash
  · exact hindent

theorem Legal.doubleFrom (inner : Nat) (folds isFirst : Bool) {pending : List Char} (cs : List Char)
    (hp : p.Legal) (h : ∀ c ∈ pending, isLegal c) :
    (Pen.doubleFrom inner folds isFirst pending cs p).Legal := by
  induction cs generalizing isFirst pending p with
  | nil => exact hp.write fun c hc => h c (List.mem_reverse.1 hc)
  | cons c r ih =>
    have hpending : (p.write pending.reverse).Legal :=
      hp.write fun c hc => h c (List.mem_reverse.1 hc)
    rw [Pen.doubleFrom]
    dsimp only
    split
    · have hescape : ((p.write pending.reverse).write (escapeOf c)).Legal :=
        hpending.write fun d hd => isLegal_of_mem_escapeOf hd
      refine ih false ?_ (by simp)
      split
      · exact hescape.fold inner _
      · exact hescape
    · next hc =>
      have hlegal : isLegal c := isLegal_of_not_isEscaped (by simpa using hc)
      split
      · exact ih false (hpending.fold inner _) (by simpa using hlegal)
      · refine ih false hp fun d hd => ?_
        rcases List.mem_cons.1 hd with rfl | hd
        · exact hlegal
        · exact h d hd

theorem Legal.double (hp : p.Legal) (inner : Nat) (folds : Bool) (text : String) :
    (p.double inner folds text).Legal := by
  have hquote : ∀ c ∈ ['"'], isLegal c := by simp [isLegal, isAllowed]
  have hinside := Legal.doubleFrom inner folds true text.toList (hp.mark hquote true false false)
    fun c (hc : c ∈ []) => absurd hc List.not_mem_nil
  exact hinside.mark hquote false false false

theorem Legal.text (hp : p.Legal) (inner : Nat) (isKey : Bool) (text : String) :
    (p.text inner isKey text).Legal := by
  unfold Pen.text
  split
  · next hstyle =>
    obtain ⟨hallows, -⟩ := Style.of_plain hstyle
    have hallowed : ∀ c ∈ text.toList, Style.isOrdinary c := by
      simp only [Style.allowsPlain, Bool.and_eq_true, List.all_eq_true] at hallows
      exact hallows.1.1.1.1.1.1
    exact hp.plain inner _ fun c hc => isLegal_of_isOrdinary (hallowed c hc)
  · next hstyle =>
    have hallows := Style.of_single hstyle
    have hallowed : ∀ c ∈ text.toList, Style.isOrdinary c := by
      simp only [Style.allowsSingle, Bool.and_eq_true, List.all_eq_true] at hallows
      exact hallows.1.1
    exact hp.single inner _ fun c hc => isLegal_of_isOrdinary (hallowed c hc)
  · exact hp.double inner _ text

/-! ### Values -/

theorem isLegal_of_isNumeral {cs : List Char} (h : IsNumeral cs) : ∀ c ∈ cs, isLegal c :=
  fun c hc => isLegal_of_mem_numeralChars (h.chars c hc)

/-- The text of a scalar that is no text is a word or a numeral. -/
theorem isLegal_word (s : Scalar) : ∀ c ∈ ((wordOf? s).getD "").toList, isLegal c := by
  cases s with
  | bool b => cases b <;> exact List.all_eq_true.1 (by decide)
  | int n => exact isLegal_of_isNumeral (isNumeral_intText n)
  | float x =>
    cases x with
    | nan => exact List.all_eq_true.1 (by decide)
    | infinity negative => cases negative <;> exact List.all_eq_true.1 (by decide)
    | finite negative x =>
      obtain ⟨p, htext, -⟩ := exists_pointed_finite negative x
      have hnumeral := isLegal_of_isNumeral (isNumeral_pointed p negative)
      rw [← htext] at hnumeral
      exact hnumeral
  | null => exact List.all_eq_true.1 (by decide)
  | _ => simp [wordOf?]

theorem Legal.scalar (hp : p.Legal) (indent : Option Nat) (s : Scalar) :
    (p.scalar indent s).Legal := by
  unfold Pen.scalar
  dsimp only
  split
  · exact hp.text _ false _
  · exact hp.text _ false _
  · exact hp.plain _ true (isLegal_word _)

theorem Legal.emptyMark (hp : p.Legal) {a b : Char} (ha : isLegal a) (hb : isLegal b) :
    (p.emptyMark a b).Legal :=
  (hp.mark (by simpa using ha) true true false).mark (by simpa using hb) false false false

mutual

/-- What is written for a value is legal. -/
theorem Legal.value (indent : Option Nat) (below : Bool) : (v : Value) → {p : Pen} → p.Legal →
    (Pen.value indent below v p).Legal
  | .scalar s, p, hp => by
    rw [Pen.value]
    exact hp.scalar indent s
  | .list [], p, hp => by
    rw [Pen.value]
    exact hp.emptyMark rfl rfl
  | .list (v :: r), p, hp => by
    rw [Pen.value]
    exact Legal.items _ (v :: r) hp
  | .mapping [], p, hp => by
    rw [Pen.value]
    exact hp.emptyMark rfl rfl
  | .mapping (e :: r), p, hp => by
    rw [Pen.value]
    exact Legal.entries _ (e :: r) hp
  | .pair a b, p, hp => by
    have hhyphen : ∀ c ∈ ['-'], isLegal c := by simp [isLegal, isAllowed]
    rw [Pen.value]
    exact Legal.value _ false b (((Legal.value _ false a
      ((hp.indent _).mark hhyphen true false true)).indent _).mark hhyphen true false true)
  | .set _, p, hp => by
    rw [Pen.value]
    exact hp
  | .endless _, p, hp => by
    rw [Pen.value]
    exact hp

/-- What is written for items is legal. -/
theorem Legal.items (n : Nat) : (vs : List Value) → {p : Pen} → p.Legal → (Pen.items n vs p).Legal
  | [], p, hp => by
    rw [Pen.items]
    exact hp
  | v :: r, p, hp => by
    have hhyphen : ∀ c ∈ ['-'], isLegal c := by simp [isLegal, isAllowed]
    rw [Pen.items]
    exact Legal.items n r
      (Legal.value (some n) false v ((hp.indent n).mark hhyphen true false true))

/-- What is written for entries is legal. -/
theorem Legal.entries (n : Nat) : (es : List (Scalar × Value)) → {p : Pen} → p.Legal →
    (Pen.entries n es p).Legal
  | [], p, hp => by
    rw [Pen.entries]
    exact hp
  | (k, v) :: r, p, hp => by
    have hcolon : ∀ c ∈ [':'], isLegal c := by simp [isLegal, isAllowed]
    have hquestion : ∀ c ∈ ['?'], isLegal c := by simp [isLegal, isAllowed]
    have hindent := hp.indent n
    rw [Pen.entries]
    refine Legal.entries n r (Legal.value (some n) true v ?_)
    dsimp only
    split
    · exact (hindent.text _ true _).mark hcolon false false false
    · have hkey := (hindent.mark hquestion true false true).text (n + 2) false (keyText k)
      exact (hkey.indent n).mark hcolon true false true

end

end Pen

/-- Every character of what is written is legal. -/
theorem isLegal_write (v : Value) : ∀ c ∈ (write v).toList, isLegal c := by
  intro c hc
  rw [write, String.toList_ofList] at hc
  exact (Pen.legal_start.value none false v).indent 0 c (List.mem_reverse.1 hc)

end Yaml
end Runbook
