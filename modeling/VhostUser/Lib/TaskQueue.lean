import Mathlib.Data.List.Perm.Basic
import Mathlib.Algebra.Order.BigOperators.Group.List
import Mathlib.Algebra.Order.Ring.Nat
import VhostUser.Lib.Machine

/-! # A queue of tasks for a device

What a ring of descriptors is for, without descriptors and indices: tasks go to the device in
the order in which they are put, the device completes them in any order, and they come back
in the order in which they were completed. All tasks in the queue together take up no more
room than there is.
-/

namespace VhostUser.Lib

/-- The tasks on their way to the device, with the device, and on their way back. -/
structure TaskQueue (τ : Type) where
  avail : List τ
  device : List τ
  used : List (τ × Nat)

namespace TaskQueue

variable {τ : Type}

inductive Event (τ : Type) where
  | put (x : τ)
  | fetch (x : τ)
  | complete (x : τ) (len : Nat)
  | get (x : τ) (len : Nat)
  /-- there is nothing to get -/
  | empty
  deriving Repr, DecidableEq

def new : TaskQueue τ := ⟨[], [], []⟩

def tasks (q : TaskQueue τ) : List τ := q.avail ++ q.device ++ q.used.map (·.1)

section Step

variable (size : τ → Nat) (capacity : Nat)

/-- The room that the tasks in the queue take up. -/
def load (q : TaskQueue τ) : Nat := (q.tasks.map size).sum

variable [DecidableEq τ]

def step (q : TaskQueue τ) : Event τ → Option (TaskQueue τ)
  | .put x =>
      if q.load size + size x ≤ capacity then some { q with avail := q.avail ++ [x] } else none
  | .fetch x =>
      match q.avail with
      | [] => none
      | y :: rest =>
          if x = y then some { q with avail := rest, device := q.device ++ [x] } else none
  | .complete x len =>
      if x ∈ q.device then
        some { q with device := q.device.erase x, used := q.used ++ [(x, len)] }
      else none
  | .get x len =>
      match q.used with
      | [] => none
      | y :: rest => if (x, len) = y then some { q with used := rest } else none
  | .empty => if q.used = [] then some q else none

def machine : Machine (TaskQueue τ) (Event τ) := ⟨new, step size capacity⟩

end Step

/-- What a step can do. -/
inductive Moves [DecidableEq τ] (size : τ → Nat) (capacity : Nat) (q : TaskQueue τ) :
    Event τ → TaskQueue τ → Prop
  | put (x : τ) (hroom : q.load size + size x ≤ capacity) :
      Moves size capacity q (.put x) { q with avail := q.avail ++ [x] }
  | fetch (x : τ) (rest : List τ) (havail : q.avail = x :: rest) :
      Moves size capacity q (.fetch x) { q with avail := rest, device := q.device ++ [x] }
  | complete (x : τ) (len : Nat) (hmem : x ∈ q.device) :
      Moves size capacity q (.complete x len)
        { q with device := q.device.erase x, used := q.used ++ [(x, len)] }
  | get (x : τ) (len : Nat) (rest : List (τ × Nat)) (hused : q.used = (x, len) :: rest) :
      Moves size capacity q (.get x len) { q with used := rest }
  | empty (hused : q.used = []) : Moves size capacity q .empty q

variable {size : τ → Nat} {capacity : Nat} {es : List (Event τ)} {q q' : TaskQueue τ}

theorem step_moves [DecidableEq τ] {e : Event τ} (hs : step size capacity q e = some q') :
    Moves size capacity q e q' := by
  cases e with
  | put x =>
      simp only [step] at hs
      split at hs
      · next hroom =>
          cases hs
          exact .put x hroom
      · cases hs
  | fetch x =>
      simp only [step] at hs
      split at hs
      · cases hs
      · next y rest havail =>
          split at hs
          · next hxy =>
              cases hs
              exact .fetch x rest (hxy ▸ havail)
          · cases hs
  | complete x len =>
      simp only [step] at hs
      split at hs
      · next hmem =>
          cases hs
          exact .complete x len hmem
      · cases hs
  | get x len =>
      simp only [step] at hs
      split at hs
      · cases hs
      · next y rest hused =>
          split at hs
          · next hxy =>
              cases hs
              exact .get x len rest (hxy ▸ hused)
          · cases hs
  | empty =>
      simp only [step] at hs
      split at hs
      · next hused =>
          cases hs
          exact .empty hused
      · cases hs

/-! ## What goes in comes out -/

def puts (es : List (Event τ)) : List τ := es.filterMap fun | .put x => some x | _ => none

def fetches (es : List (Event τ)) : List τ := es.filterMap fun | .fetch x => some x | _ => none

def completions (es : List (Event τ)) : List (τ × Nat) :=
  es.filterMap fun | .complete x len => some (x, len) | _ => none

def gets (es : List (Event τ)) : List (τ × Nat) :=
  es.filterMap fun | .get x len => some (x, len) | _ => none

/-- Both directions are queues, and the device returns what it has fetched. -/
structure Accounts (es : List (Event τ)) (q : TaskQueue τ) : Prop where
  puts : puts es = fetches es ++ q.avail
  device : (fetches es).Perm ((completions es).map (·.1) ++ q.device)
  completions : completions es = gets es ++ q.used

theorem Accounts.move [DecidableEq τ] (h : Accounts es q) {e : Event τ} (hm : Moves size capacity q e q') :
    Accounts (es ++ [e]) q' := by
  obtain ⟨hputs, hdevice, hcompletions⟩ := h
  cases hm with
  | put x hroom =>
      refine ⟨?_, ?_, ?_⟩
      · simp only [TaskQueue.puts, fetches, List.filterMap_append] at hputs ⊢
        simp [hputs]
      · simpa [fetches, TaskQueue.completions] using hdevice
      · simpa [TaskQueue.completions, gets] using hcompletions
  | fetch x rest havail =>
      rw [havail] at hputs
      refine ⟨?_, ?_, ?_⟩
      · simpa [TaskQueue.puts, fetches] using hputs
      · have hperm := hdevice.append_right [x]
        simpa [fetches, TaskQueue.completions, List.append_assoc] using hperm
      · simpa [TaskQueue.completions, gets] using hcompletions
  | complete x len hmem =>
      refine ⟨?_, ?_, ?_⟩
      · simpa [TaskQueue.puts, fetches] using hputs
      · have hperm : ((TaskQueue.completions es).map (·.1) ++ q.device).Perm
            ((TaskQueue.completions es).map (·.1) ++ x :: q.device.erase x) :=
          (List.perm_cons_erase hmem).append_left _
        simpa [fetches, TaskQueue.completions] using hdevice.trans hperm
      · simp only [TaskQueue.completions, gets, List.filterMap_append] at hcompletions ⊢
        simp [hcompletions]
  | get x len rest hused =>
      rw [hused] at hcompletions
      refine ⟨?_, ?_, ?_⟩
      · simpa [TaskQueue.puts, fetches] using hputs
      · simpa [fetches, TaskQueue.completions] using hdevice
      · simpa [TaskQueue.completions, gets] using hcompletions
  | empty hused =>
      refine ⟨?_, ?_, ?_⟩
      · simpa [TaskQueue.puts, fetches] using hputs
      · simpa [fetches, TaskQueue.completions] using hdevice
      · simpa [TaskQueue.completions, gets] using hcompletions

/-- Nothing is lost and nothing comes back twice. -/
theorem Accounts.conserved (h : Accounts es q) :
    (TaskQueue.puts es).Perm ((gets es).map (·.1) ++ q.tasks) := by
  rw [h.puts]
  have hperm := h.device.append_right q.avail
  rw [h.completions, List.map_append] at hperm
  refine hperm.trans ?_
  simp only [tasks, List.append_assoc]
  apply List.Perm.append_left
  calc q.used.map (·.1) ++ (q.device ++ q.avail)
      _ |>.Perm (q.device ++ q.avail ++ q.used.map (·.1)) := List.perm_append_comm
      _ |>.Perm (q.avail ++ q.device ++ q.used.map (·.1)) :=
          List.Perm.append_right _ List.perm_append_comm
      _ = q.avail ++ (q.device ++ q.used.map (·.1)) := List.append_assoc ..

/-- A step keeps within the room there is. -/
theorem Moves.load_le [DecidableEq τ] {e : Event τ} (hm : Moves size capacity q e q')
    (hq : q.load size ≤ capacity) :
    q'.load size ≤ capacity := by
  cases hm with
  | put x hroom =>
      simp only [load, tasks, List.map_append, List.sum_append, List.map_cons, List.map_nil,
        List.sum_cons, List.sum_nil] at hroom ⊢
      omega
  | fetch x rest havail =>
      simp only [load, tasks, havail, List.map_append, List.sum_append, List.map_cons,
        List.map_nil, List.sum_cons, List.sum_nil] at hq ⊢
      omega
  | complete x len hmem =>
      have hsum := ((List.perm_cons_erase hmem).map size).sum_eq
      simp only [load, tasks, List.map_append, List.sum_append, List.map_cons, List.map_nil,
        List.sum_cons, List.sum_nil] at hq hsum ⊢
      omega
  | get x len rest hused =>
      simp only [load, tasks, hused, List.map_append, List.sum_append, List.map_cons,
        List.sum_cons] at hq ⊢
      omega
  | empty hused => exact hq

section Runs

variable [DecidableEq τ]

theorem Accounts.run_from {es' : List (Event τ)} (h : Accounts es q)
    (hrun : (machine size capacity).Path (fun _ _ => True) q es' q') :
    Accounts (es ++ es') q' := by
  induction hrun generalizing es with
  | nil => simpa using h
  | @cons q t u e es' _ hs _ ih =>
      have hrest := ih (h.move (step_moves hs))
      simpa using hrest

theorem Accounts.run (hrun : (machine size capacity).Path (fun _ _ => True) new es q) :
    Accounts es q := by
  have hnew : Accounts ([] : List (Event τ)) new := ⟨rfl, List.Perm.refl _, rfl⟩
  simpa using hnew.run_from hrun

theorem load_le (hrun : (machine size capacity).Path (fun _ _ => True) new es q) :
    q.load size ≤ capacity :=
  hrun.invariant (I := fun q => q.load size ≤ capacity)
    (fun _ _ _ hq _ hs => (step_moves hs).load_le hq) (by simp [new, load, tasks])

end Runs

end TaskQueue

end VhostUser.Lib
