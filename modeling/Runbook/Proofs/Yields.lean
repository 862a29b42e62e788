import Mathlib.Logic.Basic

/-!
# What computations yield

What holds of the errors of a computation and what of its results, put together from what holds of
its parts.
-/

namespace Runbook

/-- Whether a computation fails only with errors of a kind and gives only results of a kind. -/
structure Yields {ε α : Type} (bad : ε → Prop) (good : α → Prop) (x : Except ε α) : Prop where
  error : ∀ e, x = .error e → bad e
  ok : ∀ a, x = .ok a → good a

section Yields

variable {ε α β : Type} {bad bad' : ε → Prop} {good : α → Prop} {more : β → Prop}
  {x y : Except ε α}

theorem yields_ok {a : α} (h : good a) : Yields bad good (.ok a) :=
  ⟨nofun, fun _ hb => Except.ok.inj hb ▸ h⟩

theorem yields_error {e : ε} (h : bad e) : Yields bad good (.error e) :=
  ⟨fun _ he => Except.error.inj he ▸ h, nofun⟩

theorem Yields.mono {good' : α → Prop} (hx : Yields bad good x) (hbad : ∀ e, bad e → bad' e)
    (hgood : ∀ a, good a → good' a) : Yields bad' good' x :=
  ⟨fun e he => hbad e (hx.error e he), fun a ha => hgood a (hx.ok a ha)⟩

theorem Yields.bind {f : α → Except ε β} (hx : Yields bad good x)
    (hf : ∀ a, good a → Yields bad more (f a)) : Yields bad more (x >>= f) := by
  cases x with
  | error e => exact yields_error (hx.error e rfl)
  | ok a => exact hf a (hx.ok a rfl)

theorem Yields.map {f : α → β} (hx : Yields bad good x) (hf : ∀ a, good a → more (f a)) :
    Yields bad more (x.map f) :=
  hx.bind fun a ha => yields_ok (hf a ha)

theorem Yields.ite {p : Prop} [Decidable p] (hx : Yields bad good x) (hy : Yields bad good y) :
    Yields bad good (if p then x else y) := by
  split
  · exact hx
  · exact hy

theorem Yields.mapM {f : α → Except ε β} (hf : ∀ a, Yields bad (fun _ => True) (f a))
    (l : List α) : Yields bad (fun _ => True) (l.mapM f) := by
  induction l with
  | nil => exact yields_ok trivial
  | cons a r ih =>
    rw [List.mapM_cons]
    exact (hf a).bind fun _ _ => ih.bind fun _ _ => yields_ok trivial

/-- What every step of a pass over a list keeps. -/
theorem Yields.foldlM {σ : Type} {good : σ → Prop} {f : σ → α → Except ε σ} {l : List α} {s : σ}
    (hf : ∀ s, good s → ∀ a ∈ l, Yields bad good (f s a)) (hs : good s) :
    Yields bad good (l.foldlM f s) := by
  induction l generalizing s with
  | nil => exact yields_ok hs
  | cons a r ih =>
    rw [List.foldlM_cons]
    refine (hf s hs a List.mem_cons_self).bind fun s hs => ?_
    exact ih (fun s hs b hb => hf s hs b (List.mem_cons_of_mem a hb)) hs

/-- A computation that does not fail gives a result. -/
theorem Yields.exists_ok (h : Yields (fun _ => False) good x) : ∃ a, x = .ok a ∧ good a := by
  cases x with
  | error e => exact (h.error e rfl).elim
  | ok a => exact ⟨a, rfl, h.ok a rfl⟩

end Yields

end Runbook
