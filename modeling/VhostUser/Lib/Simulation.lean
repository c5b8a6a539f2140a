import VhostUser.Lib.Machine

/-! # Simulations between machines

A machine is simulated by a more abstract one if each of its steps is matched by a run of the
abstract machine between the abstractions of the two states. What a step shows is this run,
which is empty for a step that only prepares something, so that the trace of a run is all
that an observer who knows the abstract machine sees of it.
-/

namespace VhostUser.Lib

namespace Machine

variable {σ τ α β : Type}

/-- What the steps of a run show, one after the other. -/
def trace (M : Machine σ α) (shows : σ → α → List β) : σ → List α → List β
  | _, [] => []
  | s, a :: as => shows s a ++ (M.step s a).elim [] fun t => trace M shows t as

/-- The steps of `M` that meet `ok` are matched by runs of `A`, from states that satisfy `I`. -/
structure Simulation (M : Machine σ α) (A : Machine τ β) (ok : σ → α → Prop)
    (I : σ → Prop) (abs : σ → τ) (shows : σ → α → List β) : Prop where
  init : I M.init
  absInit : abs M.init = A.init
  keeps : ∀ s a t, I s → ok s a → M.step s a = some t → I t
  matched : ∀ s a t, I s → ok s a → M.step s a = some t →
    A.Path (fun _ _ => True) (abs s) (shows s a) (abs t)

variable {M : Machine σ α} {A : Machine τ β} {ok : σ → α → Prop} {I : σ → Prop} {abs : σ → τ}
  {shows : σ → α → List β}

namespace Simulation

theorem run_from (h : Simulation M A ok I abs shows) {s t : σ} {as : List α}
    (hrun : M.Path ok s as t) (hs : I s) :
    A.Path (fun _ _ => True) (abs s) (M.trace shows s as) (abs t) := by
  induction hrun with
  | nil => exact .nil _
  | @cons s t u a as hok hst _ ih =>
      rw [trace, hst]
      exact (h.matched s a t hs hok hst).trans (ih (h.keeps s a t hs hok hst))

/-- The trace of a run is a run of the abstract machine, which ends in the abstraction of the
last state. -/
theorem run (h : Simulation M A ok I abs shows) {s : σ} {as : List α}
    (hrun : M.Path ok M.init as s) :
    A.Path (fun _ _ => True) A.init (M.trace shows M.init as) (abs s) := by
  have hrun' := h.run_from hrun h.init
  rwa [h.absInit] at hrun'

theorem inv (h : Simulation M A ok I abs shows) {s : σ} {as : List α}
    (hrun : M.Path ok M.init as s) : I s := hrun.invariant h.keeps h.init

end Simulation

/-- A quantity of the state that every step changes as what it shows tells. -/
theorem trace_measure {μ : Type} {P : σ → Prop} {f : σ → μ} {g : μ → List β → μ}
    (hnil : ∀ x, g x [] = x) (happend : ∀ x l l', g x (l ++ l') = g (g x l) l')
    (hkeep : ∀ s a t, P s → ok s a → M.step s a = some t → P t)
    (hstep : ∀ s a t, P s → ok s a → M.step s a = some t → f t = g (f s) (shows s a))
    {s t : σ} {as : List α} (hrun : M.Path ok s as t) (hs : P s) :
    f t = g (f s) (M.trace shows s as) := by
  induction hrun with
  | nil => exact (hnil _).symm
  | @cons s t u a as hok hst _ ih =>
      rw [trace, hst, happend, ← hstep s a t hs hok hst]
      exact ih (hkeep s a t hs hok hst)

end Machine

end VhostUser.Lib
