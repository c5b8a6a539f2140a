import Mathlib.Algebra.Group.Nat.Defs
import Mathlib.Logic.Function.Basic

/-! # Event machines and the invariants of their runs

A machine is a state type with a partial step function: an event is either
enabled and determines the next state, or is refused. A run is the list of its
events, so an interleaving is nothing but such a list, and a condition on the
steps of a run is a predicate on the state before each step and the event taken
there. Invariants are proved once, from one step to a whole run.
-/

namespace VhostUser.Lib

/-- A machine refuses an event by answering `none`. -/
structure Machine (σ α : Type) where
  init : σ
  step : σ → α → Option σ

namespace Machine

variable {σ α : Type} (M : Machine σ α)

/-- Execute a schedule; a refused event ends the execution without a result. -/
def exec : σ → List α → Option σ
  | s, [] => some s
  | s, a :: as => (M.step s a).bind fun t => exec t as

/-- Execute a schedule as long as its steps pass a test. -/
def execIf (ok : σ → α → Bool) : σ → List α → Option σ
  | s, [] => some s
  | s, a :: as => if ok s a then (M.step s a).bind fun t => execIf ok t as else none

/-- A run all of whose steps meet the condition `ok`. -/
inductive Path (ok : σ → α → Prop) : σ → List α → σ → Prop
  | nil (s : σ) : Path ok s [] s
  | cons {s t u : σ} {a : α} {as : List α} (hok : ok s a) (hs : M.step s a = some t)
      (rest : Path ok t as u) : Path ok s (a :: as) u

variable {M}

namespace Path

variable {ok : σ → α → Prop}

theorem trans {s t u : σ} {as bs : List α} (h₁ : M.Path ok s as t) (h₂ : M.Path ok t bs u) :
    M.Path ok s (as ++ bs) u := by
  induction h₁ with
  | nil => exact h₂
  | cons hok hs _ ih => exact .cons hok hs (ih h₂)

theorem split {s u : σ} {as bs : List α} (h : M.Path ok s (as ++ bs) u) :
    ∃ t, M.Path ok s as t ∧ M.Path ok t bs u := by
  induction as generalizing s with
  | nil => exact ⟨s, .nil s, h⟩
  | cons a as ih =>
      cases h with
      | cons hok hs rest =>
          obtain ⟨t, hfirst, hrest⟩ := ih rest
          exact ⟨t, .cons hok hs hfirst, hrest⟩

theorem functional {ok' : σ → α → Prop} {s t t' : σ} {as : List α} (h : M.Path ok s as t)
    (h' : M.Path ok' s as t') : t = t' := by
  induction h with
  | nil =>
      cases h'
      rfl
  | cons _ hs _ ih =>
      cases h' with
      | cons _ hs' rest =>
          rw [hs] at hs'
          cases hs'
          exact ih rest

theorem mono {ok' : σ → α → Prop} (himp : ∀ s a, ok s a → ok' s a) {s t : σ} {as : List α}
    (h : M.Path ok s as t) : M.Path ok' s as t := by
  induction h with
  | nil => exact .nil _
  | cons hok hs _ ih => exact .cons (himp _ _ hok) hs ih

/-- A condition on the events alone is checked on the schedule. -/
theorem and_events {Q : α → Prop} {s t : σ} {as : List α} (h : M.Path ok s as t)
    (hQ : ∀ a ∈ as, Q a) : M.Path (fun s a => ok s a ∧ Q a) s as t := by
  induction h with
  | nil => exact .nil _
  | cons hok hs _ ih =>
      exact .cons ⟨hok, hQ _ (List.mem_cons_self ..)⟩ hs
        (ih fun a ha => hQ a (List.mem_cons_of_mem _ ha))

/-- The invariant rule: what one admitted step preserves, a whole run preserves. -/
theorem invariant {I : σ → Prop}
    (hstep : ∀ s a t, I s → ok s a → M.step s a = some t → I t)
    {s t : σ} {as : List α} (h : M.Path ok s as t) (hs : I s) : I t := by
  induction h with
  | nil => exact hs
  | cons hok hst _ ih => exact ih (hstep _ _ _ hs hok hst)

/-- The rule for what depends on the events so far. -/
theorem history {I : List α → σ → Prop} {s₀ : σ}
    (hstep : ∀ as s a t, M.Path ok s₀ as s → I as s → ok s a → M.step s a = some t →
      I (as ++ [a]) t)
    {as bs : List α} {s t : σ} (hpre : M.Path ok s₀ as s) (h : M.Path ok s bs t) (hs : I as s) :
    I (as ++ bs) t := by
  induction h generalizing as with
  | nil =>
      rw [List.append_nil]
      exact hs
  | cons hok hst _ ih =>
      have hnext := ih (hpre.trans (.cons hok hst (.nil _))) (hstep _ _ _ _ hpre hs hok hst)
      rwa [List.append_assoc] at hnext

theorem of_execIf {test : σ → α → Bool} (htest : ∀ s a, test s a = true → ok s a) {s t : σ}
    {as : List α} (h : M.execIf test s as = some t) : M.Path ok s as t := by
  induction as generalizing s with
  | nil =>
      cases h
      exact .nil _
  | cons a as ih =>
      rw [execIf] at h
      split at h
      · next hok =>
          obtain ⟨u, hu, hrest⟩ := Option.bind_eq_some_iff.mp h
          exact .cons (htest s a hok) hu (ih hrest)
      · cases h

/-- A tested execution whose last state passes a check. -/
theorem of_check {test : σ → α → Bool} (htest : ∀ s a, test s a = true → ok s a) {s : σ}
    {as : List α} {p : σ → Bool} (h : (M.execIf test s as).any p = true) :
    ∃ t, M.Path ok s as t ∧ p t = true := by
  obtain ⟨t, ht, hp⟩ := (Option.any_eq_true _ _).mp h
  exact ⟨t, of_execIf htest ht, hp⟩

/-- The same for a machine whose states may be faults, and an execution without one. -/
theorem of_check_ok {ε τ : Type} {M : Machine (Except ε τ) α} {ok : Except ε τ → α → Prop}
    [∀ s a, Decidable (ok s a)] {s : Except ε τ} {as : List α} {p : τ → Prop} [DecidablePred p]
    (h : (M.execIf (fun s a => decide (ok s a)) s as).any
      (fun s => s.toOption.any fun t => decide (p t)) = true) :
    ∃ t, M.Path ok s as (.ok t) ∧ p t := by
  obtain ⟨u, hrun, hu⟩ := of_check (fun _ _ h => of_decide_eq_true h) h
  cases u with
  | error e => cases hu
  | ok t => exact ⟨t, hrun, of_decide_eq_true hu⟩

end Path

end Machine

end VhostUser.Lib
