import VhostUser.Lib.Machine
import VhostUser.Ring.Model

/-! # Producers, poller and device around one vring

Any number of calls of `vring_put_task`, one poller that calls `vring_get_task`
again and again, and a device. A call has a number of its own and is never
restarted, so a thread that puts several tasks is several calls.

The device is not part of the repository. It reads the avail ring in order up to
`avail->idx`, keeps the heads it has read, and reports each of them once, in any
order, in the used ring. It never writes the descriptor table.

Below the shared memory the state carries history: who claimed a slot, the order
in which positions of the avail ring were reserved, what was reported and what
was returned. No step of the program or of the device reads it.
-/

namespace VhostUser.Ring

open VhostUser.Lib

/-- How far a call of `vring_put_task` has come, seen from the ring. -/
inductive Stage where
  | idle
  /-- claiming slots, rolling back, or about to reserve a position -/
  | building
  /-- a position of the avail ring is reserved and the device has not read it -/
  | avail
  /-- the device has read the head -/
  | device
  /-- the head is in the used ring and its slots are not all free -/
  | used
  | gone
  deriving Repr, DecidableEq

structure Sys where
  mem : Mem
  calls : Nat → PutCall
  poller : GetPc
  /-- the sixteen-bit avail index up to which the device has read -/
  devIdx : Nat
  /-- heads read and not yet reported, each with the call that published it -/
  pending : List (Nat × Nat)
  /-- the call that claimed a slot which is still claimed -/
  owner : Nat → Option Nat
  /-- the call that is using a task object -/
  user : TaskPtr → Option Nat
  /-- how many slots of a call, counted from its first, are free again -/
  freed : Nat → Nat
  stage : Nat → Stage
  /-- calls in the order in which they reserved a position of the avail ring -/
  log : List Nat
  /-- positions below this number are below `avail->idx` -/
  publ : Nat
  /-- positions below this number have been read by the device -/
  fetched : Nat
  /-- what the device has reported: the call and the length -/
  usedLog : List (Nat × Nat)
  /-- the tasks returned so far, each with its `used_bytes` at that moment -/
  returned : List (TaskPtr × Nat)
  /-- slots reset by the current or last call of `vring_get_task`, with their owner -/
  cleared : List (Nat × Option Nat)

def init : Sys where
  mem := ⟨vringCreate, fun _ => VirtioTask.empty 0⟩
  calls := fun _ => ⟨0, 0, [], 0, .idle⟩
  poller := .idle
  devIdx := 0
  pending := []
  owner := fun _ => none
  user := fun _ => none
  freed := fun _ => 0
  stage := fun _ => .idle
  log := []
  publ := 0
  fetched := 0
  usedLog := []
  returned := []
  cleared := []

inductive Event where
  /-- call `c` enters `vring_put_task` with a task object holding these buffers -/
  | start (c : Nat) (t : TaskPtr) (vbufs : List Buffer)
  /-- the next shared access of call `c` -/
  | put (c : Nat)
  /-- the next shared access of the poller -/
  | poll
  /-- the device reads the next entry of the avail ring -/
  | fetch
  /-- the device reports the `k`-th head it holds -/
  | complete (k len : Nat)
  /-- the device changes its notification hint -/
  | usedFlags (f : Nat)
  deriving Repr, DecidableEq

/-- The put that the poller is reaping, or will reap next. -/
def Sys.current (s : Sys) : Option Nat := (s.usedLog[s.returned.length]?).map (·.1)

def putHistory (s : Sys) (c : Nat) (s' : Sys) : Sys :=
  let C := s.calls c
  match C.pc with
  | .casTask _ idx =>
      if s.mem.vring.tasks idx = none then
        { s' with owner := Function.update s.owner idx (some c) }
      else s'
  | .rollback j =>
      if j < C.i then
        { s' with
          owner := Function.update s.owner (C.slots.getD j 0) none
          freed := Function.update s.freed c (s.freed c + 1) }
      else
        { s' with
          stage := Function.update s.stage c .gone
          user := Function.update s.user C.task none }
  | .casLastAvailIdx _ idx =>
      if s.mem.vring.lastAvailIdx = idx then
        { s' with log := s.log ++ [c], stage := Function.update s.stage c .avail }
      else s'
  | .casAvailIdx idx =>
      if s.mem.vring.avail.idx = idx then { s' with publ := s.publ + 1 } else s'
  | _ => s'

def clearHistory (s : Sys) (idx : Nat) (s' : Sys) : Sys :=
  { s' with
    cleared := s.cleared ++ [(idx, s.owner idx)]
    owner := Function.update s.owner idx none
    freed := match s.current with
      | some c => Function.update s.freed c (s.freed c + 1)
      | none => s.freed }

def getHistory (s s' : Sys) : Sys :=
  match s.poller with
  | .loadUsedIdx => { s' with cleared := [] }
  | .clearTask _ _ idx => clearHistory s idx s'
  | .clearLast _ _ idx => clearHistory s idx s'
  | .storeLastUsedIdx _ t =>
      { s' with
        returned := s.returned ++ [(t, (s.mem.objs t).usedBytes)]
        user := Function.update s.user t none
        stage := match s.current with
          | some c => Function.update s.stage c .gone
          | none => s.stage }
  | _ => s'

def step (s : Sys) : Event → Option Sys
  | .start c t vbufs =>
      if (s.calls c).pc = .idle ∧ s.user t = none then
        let m := s.mem.setObj t { s.mem.objs t with vbufs := vbufs }
        some { s with
          mem := m
          calls := Function.update s.calls c (putStart m t)
          user := Function.update s.user t (some c)
          stage := Function.update s.stage c .building }
      else none
  | .put c =>
      if (s.calls c).pc = .idle then none
      else
        let r := putStep s.mem (s.calls c)
        some (putHistory s c { s with mem := r.1, calls := Function.update s.calls c r.2 })
  | .poll =>
      let r := getStep s.mem s.poller
      some (getHistory s { s with mem := r.1, poller := r.2 })
  | .fetch =>
      if s.devIdx = s.mem.vring.avail.idx then none
      else
        let c := s.log.getD s.fetched 0
        some { s with
          devIdx := (s.devIdx + 1) % 2 ^ 16
          pending := s.pending ++ [(c, s.mem.vring.avail.ring (s.devIdx &&& mask))]
          fetched := s.fetched + 1
          stage := Function.update s.stage c .device }
  | .complete k len =>
      match s.pending[k]? with
      | none => none
      | some (c, h) =>
          some { s with
            mem := s.mem.pushUsed ⟨h, len⟩
            pending := s.pending.eraseIdx k
            usedLog := s.usedLog ++ [(c, len)]
            stage := Function.update s.stage c .used }
  | .usedFlags f => some { s with mem := s.mem.setUsedFlags f }

/-- The whole system; an interleaving is a list of events. -/
def machine : Machine Sys Event := ⟨init, step⟩

end VhostUser.Ring
