import VhostUser.Lib.Machine
import Mathlib.Algebra.Order.Monoid.Unbundled.Basic
import Mathlib.Algebra.Order.Group.Nat

/-! # Ranking functions under interference

One agent of a machine takes some of the events, and it is at work until it is done. A rank
bounds how many steps it still needs: each of its own steps lowers the rank, and a step that
raises it has a price. The agent is then done after as many of its steps as the rank and the
price of the run allow, whatever the others do in between.
-/

namespace VhostUser.Lib

namespace Machine

variable {σ α : Type}

/-- What the steps of a run cost, each at the price of the state in which it is taken. -/
def cost (M : Machine σ α) (price : σ → α → Nat) : σ → List α → Nat
  | _, [] => 0
  | s, a :: as => price s a + (M.step s a).elim 0 fun t => cost M price t as

/-- The agent whose events are `mine` lowers the rank with each step until it is done. -/
structure Ranking (M : Machine σ α) (ok : σ → α → Prop) (I : σ → Prop) (mine : α → Bool)
    (done : σ → Prop) (rank : σ → Nat) (price : σ → α → Nat) : Prop where
  keeps : ∀ s a t, I s → ok s a → M.step s a = some t → I t
  stays : ∀ s a t, I s → ok s a → M.step s a = some t → done s → done t
  own : ∀ s a t, I s → ok s a → M.step s a = some t → mine a → ¬ done t →
    rank t + 1 ≤ rank s + price s a
  other : ∀ s a t, I s → ok s a → M.step s a = some t → ¬ mine a → ¬ done t →
    rank t ≤ rank s + price s a

variable {M : Machine σ α} {ok : σ → α → Prop} {I : σ → Prop} {mine : α → Bool}
  {done : σ → Prop} {rank : σ → Nat} {price : σ → α → Nat}

namespace Ranking

theorem stays_run (h : Ranking M ok I mine done rank price) {s t : σ} {as : List α}
    (hrun : M.Path ok s as t) (hs : I s) (hdone : done s) : done t := by
  induction hrun with
  | nil => exact hdone
  | @cons s t u a as hok hst _ ih =>
      exact ih (h.keeps s a t hs hok hst) (h.stays s a t hs hok hst hdone)

theorem step_le (h : Ranking M ok I mine done rank price) {s t : σ} {a : α} (hs : I s)
    (hok : ok s a) (hst : M.step s a = some t) (hdone : ¬ done t) :
    rank t + [a].countP mine ≤ rank s + price s a := by
  rw [List.countP_singleton]
  split
  · next ha => exact h.own s a t hs hok hst ha hdone
  · next ha => exact h.other s a t hs hok hst ha hdone

/-- While the agent is at work, its steps are paid for by the rank and by the run. -/
theorem count_le (h : Ranking M ok I mine done rank price) {s t : σ} {as : List α}
    (hrun : M.Path ok s as t) (hs : I s) (hdone : ¬ done t) :
    rank t + as.countP mine ≤ rank s + M.cost price s as := by
  induction hrun with
  | nil => simp [cost]
  | @cons s t u a as hok hst hrest ih =>
      have ht := h.keeps s a t hs hok hst
      have hmid : ¬ done t := fun hd => hdone (h.stays_run hrest ht hd)
      have hone := h.step_le hs hok hst hmid
      have hmany := ih ht hdone
      rw [cost, hst, Option.elim_some, List.countP_cons]
      rw [List.countP_singleton] at hone
      omega

/-- Enough steps of its own, and the agent is done. -/
theorem reaches (h : Ranking M ok I mine done rank price) {s t : σ} {as : List α}
    (hrun : M.Path ok s as t) (hs : I s)
    (henough : rank s + M.cost price s as < as.countP mine) : done t := by
  by_contra hdone
  have := h.count_le hrun hs hdone
  omega

/-- One step fewer is enough if the rank is 0 only once the agent is done. -/
theorem reaches_of_pos (h : Ranking M ok I mine done rank price)
    (hpos : ∀ s, I s → ¬ done s → 0 < rank s) {s t : σ} {as : List α} (hrun : M.Path ok s as t)
    (hs : I s) (henough : rank s + M.cost price s as ≤ as.countP mine) : done t := by
  by_contra hdone
  have hle := h.count_le hrun hs hdone
  have hrank := hpos t (hrun.invariant h.keeps hs) hdone
  omega

end Ranking

/-- A price made up of two is charged in two parts. -/
theorem cost_add (price price' : σ → α → Nat) (s : σ) (as : List α) :
    M.cost (fun s a => price s a + price' s a) s as = M.cost price s as + M.cost price' s as := by
  induction as generalizing s with
  | nil => rfl
  | cons a as ih =>
      cases hst : M.step s a with
      | none => simp [cost, hst]
      | some t =>
          simp only [cost, hst, Option.elim_some, ih]
          omega

theorem cost_mul (k : Nat) (price : σ → α → Nat) (s : σ) (as : List α) :
    M.cost (fun s a => k * price s a) s as = k * M.cost price s as := by
  induction as generalizing s with
  | nil => rfl
  | cons a as ih =>
      cases hst : M.step s a with
      | none => simp [cost, hst]
      | some t => simp only [cost, hst, Option.elim_some, ih, Nat.mul_add]

/-- A price of the event alone is paid as often as the event occurs. -/
theorem Path.cost_count [DecidableEq α] {k : Nat} {b : α} {s t : σ} {as : List α}
    (h : M.Path ok s as t) : M.cost (fun _ a => k * [a].count b) s as = k * as.count b := by
  induction h with
  | nil => rfl
  | @cons s t u a as _ hst _ ih =>
      simp only [cost, hst, Option.elim_some, ih]
      rw [← Nat.mul_add, ← List.count_append, List.singleton_append]

theorem cost_zero (s : σ) (as : List α) : M.cost (fun _ _ => 0) s as = 0 := by
  induction as generalizing s with
  | nil => rfl
  | cons a as ih => cases hst : M.step s a <;> simp [cost, hst, ih]

end Machine

end VhostUser.Lib
