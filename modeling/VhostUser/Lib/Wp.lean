import Mathlib.Logic.Function.Basic

/-! # Programs with faults and outcomes, and their weakest preconditions

A program changes a state, may stop with a fault, and is answered by its
environment wherever it asks for an outcome. `wp m Q s` says that from state `s`
the program comes to its end without a fault, whatever the outcomes are, with a
result and a state that satisfy `Q`.

`wpIf` is the same where only some outcomes are admitted, and where a fault may be
excused: with all outcomes and every fault excused it is partial correctness, with
restricted outcomes and no excuse it is total. Rules for the constructs of a program
turn it into symbolic execution.
-/

namespace VhostUser.Lib

/-- Programs over states `σ` with faults `ε`; outcomes `ω` are taken from a list. -/
abbrev Prog (ε ω σ α : Type) := StateT (σ × List ω) (Except ε) α

namespace Prog

variable {ε ω σ α β : Type}

def state : Prog ε ω σ σ := fun p => .ok (p.1, p)

def update (f : σ → σ) : Prog ε ω σ Unit := fun p => .ok ((), f p.1, p.2)

/-- Ask for the next outcome; there is none once the list is used up. -/
def outcome : Prog ε ω σ (Option ω) := fun p => .ok (p.2.head?, p.1, p.2.tail)

def fault (e : ε) : Prog ε ω σ α := fun _ => .error e

/-- Go on if the state satisfies the check, stop with a fault otherwise. -/
def check (p : σ → Bool) (e : ε) : Prog ε ω σ Unit := fun q => if p q.1 then .ok ((), q) else .error e

/-- From state `s`, for all outcomes, `m` ends without a fault and satisfies `Q`. -/
def wp (m : Prog ε ω σ α) (Q : α → σ → Prop) (s : σ) : Prop :=
  ∀ os, ∃ a s' os', m (s, os) = .ok (a, s', os') ∧ Q a s'

variable {m : Prog ε ω σ α} {f : α → Prog ε ω σ β} {s : σ}

/-! ## Restricted outcomes and excused faults -/

/-- From state `s`, for all outcomes that are admitted, `m` ends and satisfies `Q`, or
stops with a fault where faults are excused. -/
def wpIf (adm : ω → Prop) (excused : Prop) (m : Prog ε ω σ α) (Q : α → σ → Prop) (s : σ) : Prop :=
  ∀ os, (∀ o ∈ os, adm o) →
    (∃ a s' os', m (s, os) = .ok (a, s', os') ∧ (∀ o ∈ os', adm o) ∧ Q a s') ∨
      excused ∧ ∃ e, m (s, os) = .error e

variable {adm : ω → Prop} {excused : Prop}

theorem wpIf_pure {a : α} {Q : α → σ → Prop} (h : Q a s) :
    wpIf adm excused (pure a : Prog ε ω σ α) Q s := fun os hos => Or.inl ⟨a, s, os, rfl, hos, h⟩

theorem wpIf_bind {Q : β → σ → Prop}
    (h : wpIf adm excused m (fun a s' => wpIf adm excused (f a) Q s') s) :
    wpIf adm excused (m >>= f) Q s := by
  intro os hos
  have hrun : (m >>= f) (s, os) = (m (s, os)).bind fun p => f p.1 p.2 := rfl
  rw [hrun]
  rcases h os hos with ⟨a, s', os', hm, hos', hf⟩ | ⟨he, e, hm⟩
  · rw [hm]
    exact hf os' hos'
  · rw [hm]
    exact Or.inr ⟨he, e, rfl⟩

theorem wpIf_mono {Q R : α → σ → Prop} (h : wpIf adm excused m Q s)
    (hQ : ∀ a s', Q a s' → R a s') : wpIf adm excused m R s := by
  intro os hos
  rcases h os hos with ⟨a, s', os', hm, hos', hq⟩ | hfault
  · exact Or.inl ⟨a, s', os', hm, hos', hQ a s' hq⟩
  · exact Or.inr hfault

theorem wpIf_state {Q : σ → σ → Prop} (h : Q s s) :
    wpIf adm excused (state : Prog ε ω σ σ) Q s := fun os hos => Or.inl ⟨s, s, os, rfl, hos, h⟩

theorem wpIf_update {g : σ → σ} {Q : Unit → σ → Prop} (h : Q () (g s)) :
    wpIf adm excused (update g : Prog ε ω σ Unit) Q s :=
  fun os hos => Or.inl ⟨(), g s, os, rfl, hos, h⟩

theorem wpIf_outcome {Q : Option ω → σ → Prop} (h : ∀ o, (∀ x ∈ o, adm x) → Q o s) :
    wpIf adm excused (outcome : Prog ε ω σ (Option ω)) Q s := by
  intro os hos
  refine Or.inl ⟨os.head?, s, os.tail, rfl, fun o ho => hos o (List.mem_of_mem_tail ho),
    h _ fun x hx => hos x (List.mem_of_mem_head? hx)⟩

theorem wpIf_check {p : σ → Bool} {e : ε} {Q : Unit → σ → Prop}
    (hp : ¬ excused → p s = true) (h : p s = true → Q () s) :
    wpIf adm excused (check p e : Prog ε ω σ Unit) Q s := by
  intro os hos
  cases hs : p s with
  | true =>
      refine Or.inl ⟨(), s, os, ?_, hos, h hs⟩
      simp [check, hs]
  | false =>
      refine Or.inr ⟨by_contra fun hx => ?_, e, ?_⟩
      · rw [hp hx] at hs
        cases hs
      · simp [check, hs]

theorem wpIf_fault {e : ε} {Q : α → σ → Prop} (h : excused) :
    wpIf adm excused (fault e : Prog ε ω σ α) Q s := fun _ _ => Or.inr ⟨h, e, rfl⟩

theorem wpIf_ite {c : Prop} [Decidable c] {m' : Prog ε ω σ α} {Q : α → σ → Prop}
    (ht : c → wpIf adm excused m Q s) (he : ¬ c → wpIf adm excused m' Q s) :
    wpIf adm excused (if c then m else m') Q s := by
  split
  · next hc => exact ht hc
  · next hc => exact he hc

/-- Without excused faults, a program that may be run comes to its end. -/
theorem wpIf.ends {Q : α → σ → Prop} (h : wpIf adm excused m Q s) (he : ¬ excused) {os : List ω}
    (hos : ∀ o ∈ os, adm o) : ∃ a s' os', m (s, os) = .ok (a, s', os') ∧ Q a s' := by
  rcases h os hos with ⟨a, s', os', hm, -, hq⟩ | ⟨hex, -⟩
  · exact ⟨a, s', os', hm, hq⟩
  · exact absurd hex he

/-- Without a restriction and without an excuse nothing is left of the difference. -/
theorem wpIf.total {Q : α → σ → Prop} (h : wpIf adm excused m Q s) (he : ¬ excused)
    (hadm : ∀ o, adm o) : wp m Q s := fun _ => h.ends he fun o _ => hadm o

/-- A program that has come to its end satisfies `Q`. -/
theorem wpIf.result {Q : α → σ → Prop} (h : wpIf adm excused m Q s) {os os' : List ω} {a : α}
    {s' : σ} (hos : ∀ o ∈ os, adm o) (hrun : m (s, os) = .ok (a, s', os')) : Q a s' := by
  rcases h os hos with ⟨a₁, s₁, os₁, hm, -, hq⟩ | ⟨-, e, hm⟩
  · rw [hrun] at hm
    cases hm
    exact hq
  · rw [hrun] at hm
    cases hm

/-! ## Relations that every run keeps -/

/-- Whatever the outcomes are, a run of `m` that ends leaves a state that is related to the first. -/
structure Keeps (R : σ → σ → Prop) (m : Prog ε ω σ α) : Prop where
  run : ∀ p a q, m p = .ok (a, q) → R p.1 q.1

section Keeps

variable {R : σ → σ → Prop}

/-- The relations of the two parts compose, and the second part relies on a property of the
result of the first. -/
theorem keeps_bind_of {S T : σ → σ → Prop} {P : α → Prop}
    (htrans : ∀ s t u, R s t → S t u → T s u) (h : Keeps R m)
    (hP : ∀ p a q, m p = .ok (a, q) → P a) (hf : ∀ a, P a → Keeps S (f a)) : Keeps T (m >>= f) := by
  refine ⟨fun p b q hrun => ?_⟩
  have hbind : (m >>= f) p = (m p).bind fun x => f x.1 x.2 := rfl
  rw [hbind] at hrun
  cases hp : m p with
  | ok x =>
      rw [hp] at hrun
      exact htrans _ _ _ (h.run p _ _ hp) ((hf x.1 (hP p _ _ hp)).run x.2 _ _ hrun)
  | error e =>
      rw [hp] at hrun
      cases hrun

theorem keeps_bind {S T : σ → σ → Prop} (htrans : ∀ s t u, R s t → S t u → T s u) (h : Keeps R m)
    (hf : ∀ a, Keeps S (f a)) : Keeps T (m >>= f) :=
  keeps_bind_of htrans h (fun _ _ _ _ => trivial) fun a _ => hf a

theorem keeps_pure (hrefl : ∀ s, R s s) (a : α) : Keeps R (pure a : Prog ε ω σ α) := by
  refine ⟨fun p b q hrun => ?_⟩
  cases hrun
  exact hrefl _

theorem keeps_state (hrefl : ∀ s, R s s) : Keeps R (state : Prog ε ω σ σ) := by
  refine ⟨fun p b q hrun => ?_⟩
  cases hrun
  exact hrefl _

theorem keeps_update {g : σ → σ} (h : ∀ s, R s (g s)) : Keeps R (update g : Prog ε ω σ Unit) := by
  refine ⟨fun p b q hrun => ?_⟩
  cases hrun
  exact h _

theorem keeps_outcome (hrefl : ∀ s, R s s) : Keeps R (outcome : Prog ε ω σ (Option ω)) := by
  refine ⟨fun p b q hrun => ?_⟩
  cases hrun
  exact hrefl _

theorem keeps_fault (e : ε) : Keeps R (fault e : Prog ε ω σ α) := by
  refine ⟨fun p b q hrun => ?_⟩
  cases hrun

theorem keeps_check (hrefl : ∀ s, R s s) (p : σ → Bool) (e : ε) :
    Keeps R (check p e : Prog ε ω σ Unit) := by
  refine ⟨fun q a q' hrun => ?_⟩
  unfold check at hrun
  split at hrun
  · cases hrun
    exact hrefl _
  · cases hrun

theorem keeps_ite {c : Prop} [Decidable c] {m' : Prog ε ω σ α} (ht : Keeps R m)
    (he : Keeps R m') : Keeps R (if c then m else m') := by
  split
  · exact ht
  · exact he

/-- Where every fault is excused and every outcome is admitted, a relation that is kept is a
specification. -/
theorem wpIf_of_keeps (h : Keeps R m) (hadm : ∀ o, adm o) (hex : excused) :
    wpIf adm excused m (fun _ s' => R s s') s := by
  intro os _
  cases hrun : m (s, os) with
  | ok x => exact Or.inl ⟨x.1, x.2.1, x.2.2, rfl, fun o _ => hadm o, h.run _ _ _ hrun⟩
  | error e => exact Or.inr ⟨hex, e, rfl⟩

end Keeps

/-! ## Faults that do not occur -/

/-- Whatever the state and the outcomes are, `m` does not stop with fault `e`. -/
structure Never (e : ε) (m : Prog ε ω σ α) : Prop where
  ne : ∀ p, m p ≠ .error e

variable {e : ε}

theorem never_bind (h : Never e m) (hf : ∀ a, Never e (f a)) : Never e (m >>= f) := by
  refine ⟨fun p => ?_⟩
  have hrun : (m >>= f) p = (m p).bind fun q => f q.1 q.2 := rfl
  have hm := h.ne p
  rw [hrun]
  cases hp : m p with
  | ok q => exact (hf q.1).ne q.2
  | error e' =>
      rw [hp] at hm
      exact fun heq => hm (congrArg Except.error (Except.error.inj heq))

theorem never_pure (a : α) : Never e (pure a : Prog ε ω σ α) := ⟨fun _ => nofun⟩

theorem never_state : Never e (state : Prog ε ω σ σ) := ⟨fun _ => nofun⟩

theorem never_update (g : σ → σ) : Never e (update g : Prog ε ω σ Unit) := ⟨fun _ => nofun⟩

theorem never_outcome : Never e (outcome : Prog ε ω σ (Option ω)) := ⟨fun _ => nofun⟩

theorem never_fault {e' : ε} (h : e' ≠ e) : Never e (fault e' : Prog ε ω σ α) :=
  ⟨fun _ heq => h (Except.error.inj heq)⟩

/-- A check that stops with another fault, or never stops. -/
theorem never_check {p : σ → Bool} {e' : ε} (h : e' = e → ∀ s, p s = true) :
    Never e (check p e' : Prog ε ω σ Unit) := by
  refine ⟨fun q heq => ?_⟩
  unfold check at heq
  split at heq
  · cases heq
  · next hp => exact hp (h (Except.error.inj heq) q.1)

theorem never_ite {c : Prop} [Decidable c] {m' : Prog ε ω σ α} (ht : c → Never e m)
    (he : ¬ c → Never e m') : Never e (if c then m else m') := by
  split
  · next hc => exact ht hc
  · next hc => exact he hc

end Prog

end VhostUser.Lib
