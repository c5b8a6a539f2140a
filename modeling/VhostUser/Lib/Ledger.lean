import Mathlib.Data.Multiset.AddSub
import VhostUser.Lib.Wp

/-! # Programs that acquire and release

A ledger is the multiset of the resources that are held. A program that releases what
is not held stops with a fault, so a resource that does not remain in the ledger was
released exactly once. Specifications are framed: they name what a program adds or takes
away, and the rest of the ledger is arbitrary.
-/

namespace VhostUser.Lib

namespace Ledger

variable {ε ω ρ : Type} {adm : ω → Prop} {excused : Prop} {held frame : Multiset ρ}

def acquire (r : ρ) : Prog ε ω (Multiset ρ) Unit := Prog.update (r ::ₘ ·)

theorem wpIf_acquire {r : ρ} {Q : Unit → Multiset ρ → Prop} (h : Q () ({r} + held)) :
    Prog.wpIf adm excused (acquire r : Prog ε ω (Multiset ρ) Unit) Q held := by
  rw [Multiset.singleton_add] at h
  exact Prog.wpIf_update h

theorem coe_cons_add (r : ρ) (rs : List ρ) (m : Multiset ρ) :
    ((r :: rs : List ρ) : Multiset ρ) + m = {r} + (rs + m) := by
  rw [← Multiset.cons_coe, ← Multiset.singleton_add, Multiset.add_assoc]

theorem coe_nil_add (m : Multiset ρ) : (([] : List ρ) : Multiset ρ) + m = m := Multiset.zero_add m

variable [DecidableEq ρ]

/-- Release a resource that is held. -/
def release (e : ε) (r : ρ) : Prog ε ω (Multiset ρ) Unit := do
  Prog.check (fun held => decide (r ∈ held)) e
  Prog.update (·.erase r)

def releaseAll (e : ε) : List ρ → Prog ε ω (Multiset ρ) Unit
  | [] => pure ()
  | r :: rs => do
      release e r
      releaseAll e rs

theorem wpIf_release {e : ε} {r : ρ} {Q : Unit → Multiset ρ → Prop} (hheld : held = {r} + frame)
    (h : Q () frame) :
    Prog.wpIf adm excused (release e r : Prog ε ω (Multiset ρ) Unit) Q held := by
  rw [Multiset.singleton_add] at hheld
  subst hheld
  refine Prog.wpIf_bind (Prog.wpIf_check (fun _ => ?_) fun _ => Prog.wpIf_update ?_)
  · exact decide_eq_true (Multiset.mem_cons_self ..)
  · rw [Multiset.erase_cons_head]
    exact h

theorem wpIf_releaseAll {e : ε} {rs : List ρ} {Q : Unit → Multiset ρ → Prop}
    (hheld : held = rs + frame) (h : Q () frame) :
    Prog.wpIf adm excused (releaseAll e rs : Prog ε ω (Multiset ρ) Unit) Q held := by
  induction rs generalizing held with
  | nil =>
      rw [coe_nil_add] at hheld
      exact Prog.wpIf_pure (hheld ▸ h)
  | cons r rs ih =>
      rw [coe_cons_add] at hheld
      exact Prog.wpIf_bind (wpIf_release hheld (ih rfl))

end Ledger

end VhostUser.Lib
