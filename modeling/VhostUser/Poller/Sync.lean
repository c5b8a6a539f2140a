import VhostUser.Lib.Machine

/-! # Synchronous submission

`vring_submit_task_sync` publishes its task while it holds a mutex of its own and
then waits on a condition variable of its own; the callback of the task, run by
the poller, locks that mutex, signals and unlocks. Any number of such calls, the
poller and a device that may complete a published task at any moment.

`pthread_cond_wait` is two steps, as POSIX describes it: it releases the mutex
and goes to sleep at once, and it takes the mutex again after it was woken.
Whether a wakeup needs a signal is left to the run.
-/

namespace VhostUser.Poller

open VhostUser.Lib

/-- Where a call of `vring_submit_task_sync` stands; each constructor names what
is executed next. -/
inductive SyncPc where
  | idle
  /-- `pthread_mutex_lock(&mtx)` -/
  | lock
  /-- `vring_submit_task` with the callback and `arg` -/
  | submit
  /-- `pthread_mutex_unlock(&mtx)` after a failed submission -/
  | unlockFailed
  /-- entry of `pthread_cond_wait` -/
  | wait
  /-- asleep in `pthread_cond_wait` -/
  | asleep
  /-- woken, `pthread_cond_wait` takes the mutex again -/
  | reacquire
  /-- `pthread_mutex_unlock(&mtx)` -/
  | unlock
  | returned (rc : Int)
  /-- returned `-1` after `pthread_cond_wait` failed, with the mutex still locked -/
  | waitFailed
  deriving Repr, DecidableEq

inductive CallbackPc where
  | lock
  | signal
  | unlock
  deriving Repr, DecidableEq

inductive Owner where
  | submitter
  | poller
  deriving Repr, DecidableEq

inductive Place where
  | out
  | published
  | used
  /-- returned by `vring_get_task` -/
  | reaped
  deriving Repr, DecidableEq

/-- A call with its mutex. The last two fields are history: its callback has
executed `pthread_cond_signal`, and has come to its end. -/
structure Call where
  pc : SyncPc
  mtx : Option Owner
  place : Place
  signaled : Bool
  calledBack : Bool
  deriving Repr, DecidableEq

def Call.new : Call := ⟨.idle, none, .out, false, false⟩

structure Sys where
  calls : Nat → Call
  /-- the callback that the poller is running, and for which call -/
  poller : Option (Nat × CallbackPc)

def init : Sys := ⟨fun _ => .new, none⟩

def Sys.setCall (s : Sys) (c : Nat) (x : Call) : Sys :=
  { s with calls := Function.update s.calls c x }

inductive Event where
  /-- the next step of call `c`; `ok` is the outcome of a call that may fail -/
  | submitter (c : Nat) (ok : Bool)
  /-- `pthread_cond_wait` of call `c` wakes up without a signal -/
  | spurious (c : Nat)
  /-- the device completes the task of call `c` -/
  | complete (c : Nat)
  /-- `vring_get_task` returns the task of call `c` -/
  | reap (c : Nat)
  /-- the next step of the callback -/
  | callback
  deriving Repr, DecidableEq

def submitterStep (x : Call) (ok : Bool) : Option Call :=
  match x.pc with
  | .idle => some { x with pc := .lock }
  | .lock => if x.mtx = none then some { x with pc := .submit, mtx := some .submitter } else none
  | .submit =>
      if ok then some { x with pc := .wait, place := .published }
      else some { x with pc := .unlockFailed }
  | .unlockFailed => some { x with pc := .returned (-1), mtx := none }
  | .wait =>
      if ok then some { x with pc := .asleep, mtx := none } else some { x with pc := .waitFailed }
  | .asleep => none
  | .reacquire =>
      if x.mtx = none then some { x with pc := .unlock, mtx := some .submitter } else none
  | .unlock => some { x with pc := .returned 0, mtx := none }
  | .returned _ => none
  | .waitFailed => none

/-- `pthread_cond_signal` wakes the call if it sleeps; else it has no effect. -/
def signal (x : Call) : Call :=
  { x with pc := if x.pc = .asleep then .reacquire else x.pc, signaled := true }

/-- One step of `vring_submit_sync_callback`, with the callback's next step. -/
def callbackStep (x : Call) : CallbackPc → Option (Call × Option CallbackPc)
  | .lock => if x.mtx = none then some ({ x with mtx := some .poller }, some .signal) else none
  | .signal => some (signal x, some .unlock)
  | .unlock => some ({ x with mtx := none, calledBack := true }, none)

def step (s : Sys) : Event → Option Sys
  | .submitter c ok => (submitterStep (s.calls c) ok).map (s.setCall c)
  | .spurious c =>
      if (s.calls c).pc = .asleep then some (s.setCall c { s.calls c with pc := .reacquire })
      else none
  | .complete c =>
      if (s.calls c).place = .published then some (s.setCall c { s.calls c with place := .used })
      else none
  | .reap c =>
      if s.poller = none ∧ (s.calls c).place = .used then
        some { s.setCall c { s.calls c with place := .reaped } with poller := some (c, .lock) }
      else none
  | .callback =>
      match s.poller with
      | none => none
      | some (c, p) =>
          (callbackStep (s.calls c) p).map fun r =>
            { s.setCall c r.1 with poller := r.2.map (c, ·) }

/-- The calls, the poller and the device; an interleaving is a list of events. -/
def machine : Machine Sys Event := ⟨init, step⟩

/-! ## The invariant -/

/-- The callback that is being run for call `c`. -/
def Sys.callbackOf (s : Sys) (c : Nat) : Option CallbackPc :=
  match s.poller with
  | some (d, p) => if d = c then some p else none
  | none => none

/-- The task is published and its callback has not taken the mutex. -/
def Call.Pending (x : Call) (cb : Option CallbackPc) : Prop :=
  x.signaled = false ∧
    ((x.place = .published ∧ cb = none) ∨ (x.place = .used ∧ cb = none) ∨
      (x.place = .reaped ∧ cb = some .lock))

/-- The callback has signaled and come to its end. -/
def Call.Served (x : Call) (cb : Option CallbackPc) : Prop :=
  x.signaled = true ∧ x.calledBack = true ∧ x.place = .reaped ∧ cb = none

/-- What holds of one call, given the callback that is run for it. -/
def CallOk (x : Call) (cb : Option CallbackPc) : Prop :=
  match x.pc with
  | .idle => x.mtx = none ∧ x.place = .out ∧ cb = none ∧ x.signaled = false
  | .lock => x.mtx = none ∧ x.place = .out ∧ cb = none ∧ x.signaled = false
  | .submit => x.mtx = some .submitter ∧ x.place = .out ∧ cb = none ∧ x.signaled = false
  | .unlockFailed => x.mtx = some .submitter ∧ x.place = .out ∧ cb = none ∧ x.signaled = false
  | .wait => x.mtx = some .submitter ∧ x.Pending cb
  | .asleep => x.signaled = false ∧ ((x.mtx = none ∧ x.Pending cb) ∨
      (x.mtx = some .poller ∧ x.place = .reaped ∧ cb = some .signal))
  | .reacquire => (x.mtx = none ∧ x.Served cb) ∨
      (x.mtx = some .poller ∧ x.signaled = true ∧ x.place = .reaped ∧ cb = some .unlock)
  | .unlock => x.mtx = some .submitter ∧ x.Served cb
  | .returned rc => (rc = 0 ∧ x.Served cb) ∨
      (rc = -1 ∧ x.place = .out ∧ cb = none ∧ x.signaled = false)
  | .waitFailed => x.mtx = some .submitter ∧ x.Pending cb

def Inv (s : Sys) : Prop := ∀ c, CallOk (s.calls c) (s.callbackOf c)

/-- `pthread_cond_wait` only returns after the signal of its callback. -/
def NoSpurious (_ : Sys) (e : Event) : Prop := ∀ c, e ≠ .spurious c

theorem init_inv : Inv init := fun _ => ⟨rfl, rfl, rfl, rfl⟩

variable {s s' : Sys} {c : Nat}

theorem submitterStep_ok {x x' : Call} {cb : Option CallbackPc} {ok : Bool} (h : CallOk x cb)
    (hs : submitterStep x ok = some x') : CallOk x' cb := by
  cases hpc : x.pc <;> simp only [submitterStep, hpc] at hs <;> simp only [CallOk, hpc] at h
  case idle =>
    cases hs
    exact h
  case lock =>
    split at hs
    · cases hs
      exact ⟨rfl, h.2⟩
    · cases hs
  case submit =>
    split at hs
    · cases hs
      exact ⟨h.1, h.2.2.2, Or.inl ⟨rfl, h.2.2.1⟩⟩
    · cases hs
      exact h
  case unlockFailed =>
    cases hs
    exact Or.inr ⟨rfl, h.2⟩
  case wait =>
    split at hs
    · cases hs
      exact ⟨h.2.1, Or.inl ⟨rfl, h.2⟩⟩
    · cases hs
      exact h
  case asleep => cases hs
  case reacquire =>
    split at hs
    · next hfree =>
        cases hs
        rcases h with h | h
        · exact ⟨rfl, h.2⟩
        · rw [hfree] at h
          cases h.1
    · cases hs
  case unlock =>
    cases hs
    exact Or.inl ⟨rfl, h.2⟩
  case returned => cases hs
  case waitFailed => cases hs

theorem callbackStep_ok {x : Call} {p : CallbackPc} {r : Call × Option CallbackPc}
    (h : CallOk x (some p)) (hs : callbackStep x p = some r) : CallOk r.1 r.2 := by
  cases p with
  | lock =>
      simp only [callbackStep] at hs
      split at hs
      · next hfree =>
          cases hs
          -- the mutex is free only while the call sleeps
          cases hpc : x.pc <;> simp_all [CallOk, Call.Pending, Call.Served]
      · cases hs
  | signal =>
      simp only [callbackStep, Option.some.injEq] at hs
      subst hs
      cases hpc : x.pc <;> simp_all [CallOk, Call.Pending, Call.Served, signal]
  | unlock =>
      simp only [callbackStep, Option.some.injEq] at hs
      subst hs
      cases hpc : x.pc <;> simp_all [CallOk, Call.Pending, Call.Served]

theorem complete_ok {x : Call} {cb : Option CallbackPc} (h : CallOk x cb)
    (hp : x.place = .published) : CallOk { x with place := .used } cb := by
  cases hpc : x.pc <;> simp_all [CallOk, Call.Pending, Call.Served]

theorem reap_ok {x : Call} (h : CallOk x none) (hp : x.place = .used) :
    CallOk { x with place := .reaped } (some .lock) := by
  cases hpc : x.pc <;> simp_all [CallOk, Call.Pending, Call.Served]

theorem callbackOf_of_none (h : s.poller = none) (d : Nat) : s.callbackOf d = none := by
  simp [Sys.callbackOf, h]

theorem callbackOf_self {p : CallbackPc} (h : s.poller = some (c, p)) :
    s.callbackOf c = some p := by
  simp [Sys.callbackOf, h]

theorem callbackOf_of_ne {p : CallbackPc} {d : Nat} (h : s.poller = some (c, p)) (hd : d ≠ c) :
    s.callbackOf d = none := by
  simp [Sys.callbackOf, h, Ne.symm hd]

theorem Inv.setCall (h : Inv s) {x : Call} (hx : CallOk x (s.callbackOf c)) :
    Inv (s.setCall c x) := by
  intro d
  show CallOk (Function.update s.calls c x d) (s.callbackOf d)
  by_cases hd : d = c
  · subst hd
    rwa [Function.update_self]
  · rw [Function.update_of_ne hd]
    exact h d

/-- A step that also moves the poller, which runs no callback of another call. -/
theorem Inv.setPoller (h : Inv s) {x : Call} {q : Option (Nat × CallbackPc)}
    (hx : CallOk x (Sys.callbackOf { s with poller := q } c))
    (hother : ∀ d, d ≠ c → Sys.callbackOf { s with poller := q } d = s.callbackOf d) :
    Inv { s.setCall c x with poller := q } := by
  intro d
  show CallOk (Function.update s.calls c x d) (Sys.callbackOf { s with poller := q } d)
  by_cases hd : d = c
  · subst hd
    rwa [Function.update_self]
  · rw [Function.update_of_ne hd, hother d hd]
    exact h d

theorem step_inv {e : Event} (h : Inv s) (hok : NoSpurious s e) (hs : step s e = some s') :
    Inv s' := by
  cases e with
  | submitter c ok =>
      obtain ⟨x, hx, rfl⟩ := Option.map_eq_some_iff.mp hs
      exact h.setCall (submitterStep_ok (h c) hx)
  | spurious c => exact absurd rfl (hok c)
  | complete c =>
      simp only [step] at hs
      split at hs
      · next hp =>
          cases hs
          exact h.setCall (complete_ok (h c) hp)
      · cases hs
  | reap c =>
      simp only [step] at hs
      split at hs
      · next hp =>
          cases hs
          have hc := h c
          rw [callbackOf_of_none hp.1] at hc
          refine h.setPoller ?_ fun d hd => ?_
          · rw [callbackOf_self rfl]
            exact reap_ok hc hp.2
          · rw [callbackOf_of_ne rfl hd, callbackOf_of_none hp.1]
      · cases hs
  | callback =>
      simp only [step] at hs
      split at hs
      · cases hs
      · next c p hpoll =>
          obtain ⟨r, hr, rfl⟩ := Option.map_eq_some_iff.mp hs
          have hc := h c
          rw [callbackOf_self hpoll] at hc
          refine h.setPoller ?_ fun d hd => ?_
          · have hok := callbackStep_ok hc hr
            cases hr2 : r.2 with
            | none =>
                rw [hr2] at hok
                exact hok
            | some p' =>
                rw [hr2] at hok
                rw [Option.map_some, callbackOf_self rfl]
                exact hok
          · rw [callbackOf_of_ne hpoll hd]
            cases r.2 with
            | none => rfl
            | some p' => exact callbackOf_of_ne rfl hd

theorem path_inv {es : List Event} (h : machine.Path NoSpurious init es s) : Inv s :=
  h.invariant (fun _ _ _ hi hok hs => step_inv hi hok hs) init_inv

/-! ## The result is available on return -/

/-- Every call that has returned `0` had its task reaped and its callback run. -/
def ResultAvailable (s : Sys) : Prop :=
  ∀ c, (s.calls c).pc = .returned 0 →
    (s.calls c).place = .reaped ∧ (s.calls c).signaled = true ∧ (s.calls c).calledBack = true

/-- As long as no wait ends without the signal of its callback, in every
interleaving a call returns `0` only when its result is available. -/
theorem sync_result_available {es : List Event} (hrun : machine.Path NoSpurious init es s) :
    ResultAvailable s := by
  intro c hpc
  have hc := path_inv hrun c
  simp only [CallOk, hpc] at hc
  rcases hc with ⟨-, hsig, hback, hplace, -⟩ | ⟨hrc, -⟩
  · exact ⟨hplace, hsig, hback⟩
  · cases hrc

/-- Two calls; the task of the first completes before the first sleeps. -/
def racingSchedule : List Event :=
  [.submitter 0 true, .submitter 0 true, .submitter 1 true, .submitter 0 true, .complete 0, .reap 0,
    .submitter 1 true, .submitter 0 true, .callback, .callback, .submitter 1 true, .callback,
    .submitter 0 true, .submitter 0 true]

theorem racing_run_of {ok : Sys → Event → Prop} {test : Sys → Event → Bool}
    (htest : ∀ s e, test s e = true → ok s e)
    (hany : (machine.execIf test init racingSchedule).any (fun s =>
      (s.calls 0).pc == .returned 0 && (s.calls 1).pc == .wait) = true) :
    ∃ s, machine.Path ok init racingSchedule s ∧ (s.calls 0).pc = .returned 0 ∧
      (s.calls 1).pc = .wait := by
  obtain ⟨s, hrun, hs⟩ := Machine.Path.of_check htest hany
  simp only [Bool.and_eq_true, beq_iff_eq] at hs
  exact ⟨s, hrun, hs⟩

def noSpurious (_ : Sys) : Event → Bool
  | .spurious _ => false
  | _ => true

theorem noSpurious_sound (s : Sys) (e : Event) (h : noSpurious s e = true) : NoSpurious s e := by
  rintro c rfl
  simp [noSpurious] at h

theorem sync_result_available_racing :
    ∃ s, machine.Path NoSpurious init racingSchedule s ∧ (s.calls 0).pc = .returned 0 ∧
      ResultAvailable s := by
  obtain ⟨s, hrun, hret, -⟩ := racing_run_of noSpurious_sound (by decide)
  exact ⟨s, hrun, hret, sync_result_available hrun⟩

/-- A wait that ends without a signal, as POSIX allows: the call returns `0` while
its task is still with the device. -/
theorem sync_returns_early :
    ∃ es s, machine.exec init es = some s ∧ (s.calls 0).pc = .returned 0 ∧
      (s.calls 0).place = .published ∧ (s.calls 0).calledBack = false ∧ ¬ ResultAvailable s := by
  have hany : (machine.exec init [.submitter 0 true, .submitter 0 true, .submitter 0 true,
      .submitter 0 true, .spurious 0, .submitter 0 true, .submitter 0 true]).any (fun s =>
        (s.calls 0).pc == .returned 0 && (s.calls 0).place == .published &&
          (s.calls 0).calledBack == false) = true := by decide
  obtain ⟨s, hs, hp⟩ := (Option.any_eq_true _ _).mp hany
  simp only [Bool.and_eq_true, beq_iff_eq] at hp
  obtain ⟨⟨hpc, hplace⟩, hback⟩ := hp
  refine ⟨_, s, hs, hpc, hplace, hback, fun hres => ?_⟩
  have hreaped := (hres 0 hpc).1
  rw [hplace] at hreaped
  cases hreaped

/-! ## No wakeup is lost -/

/-- `pthread_cond_wait` succeeds and returns only on a signal. -/
def SignalOnly (s : Sys) (e : Event) : Prop :=
  NoSpurious s e ∧ ∀ c, e = .submitter c false → (s.calls c).pc ≠ .wait

/-- The call has returned, and its mutex, condition variable and argument with it. -/
def Returned : SyncPc → Prop
  | .returned _ => True
  | .waitFailed => True
  | _ => False

/-- The waiting part of the call is over or its wakeup has been delivered. -/
def Woken : SyncPc → Prop
  | .reacquire => True
  | .unlock => True
  | .returned rc => rc = 0
  | _ => False

theorem submitterStep_waitFailed {x x' : Call} {ok : Bool} (hok : ok = false → x.pc ≠ .wait)
    (hx : x.pc ≠ .waitFailed) (hs : submitterStep x ok = some x') : x'.pc ≠ .waitFailed := by
  cases hpc : x.pc <;> simp only [submitterStep, hpc] at hs
  case waitFailed => exact absurd hpc hx
  case wait =>
    cases ok with
    | false => exact absurd hpc (hok rfl)
    | true =>
        cases hs
        simp
  case lock | submit | reacquire =>
    split at hs <;> cases hs <;> simp
  all_goals cases hs
  all_goals simp

theorem callbackStep_pc {x : Call} {p : CallbackPc} {r : Call × Option CallbackPc}
    (hs : callbackStep x p = some r) (hx : x.pc ≠ .waitFailed) : r.1.pc ≠ .waitFailed := by
  cases p with
  | lock =>
      simp only [callbackStep] at hs
      split at hs
      · cases hs
        exact hx
      · cases hs
  | signal =>
      simp only [callbackStep, Option.some.injEq] at hs
      subst hs
      simp only [signal]
      split
      · simp
      · exact hx
  | unlock =>
      simp only [callbackStep, Option.some.injEq] at hs
      subst hs
      exact hx

theorem setCall_pc {x : Call} (h : ∀ d, (s.calls d).pc ≠ .waitFailed) (hx : x.pc ≠ .waitFailed)
    (d : Nat) : ((s.setCall c x).calls d).pc ≠ .waitFailed := by
  by_cases hd : d = c
  · subst hd
    simpa [Sys.setCall] using hx
  · simpa [Sys.setCall, Function.update_of_ne hd] using h d

theorem step_waitFailed {e : Event} (h : ∀ d, (s.calls d).pc ≠ .waitFailed)
    (hok : SignalOnly s e) (hs : step s e = some s') (d : Nat) :
    (s'.calls d).pc ≠ .waitFailed := by
  cases e with
  | submitter c ok =>
      obtain ⟨x, hx, rfl⟩ := Option.map_eq_some_iff.mp hs
      exact setCall_pc h (submitterStep_waitFailed (fun hf => hok.2 c (by rw [hf])) (h c) hx) d
  | spurious c => exact absurd rfl (hok.1 c)
  | complete c =>
      simp only [step] at hs
      split at hs
      · cases hs
        exact setCall_pc h (by exact h c) d
      · cases hs
  | reap c =>
      simp only [step] at hs
      split at hs
      · cases hs
        exact setCall_pc h (by exact h c) d
      · cases hs
  | callback =>
      simp only [step] at hs
      split at hs
      · cases hs
      · next c p _ =>
          obtain ⟨r, hr, rfl⟩ := Option.map_eq_some_iff.mp hs
          exact setCall_pc h (callbackStep_pc hr (h c)) d

/-- In every interleaving in which waits end by signals: a signal always finds its
call asleep, and the poller works on a call only while that call has not returned. -/
theorem sync_no_lost_wakeup {es : List Event} (hrun : machine.Path SignalOnly init es s) :
    (∀ c, (s.calls c).signaled = true → Woken (s.calls c).pc) ∧
      ∀ c p, s.poller = some (c, p) → ¬ Returned (s.calls c).pc := by
  have hinv := path_inv (hrun.mono fun _ _ h => h.1)
  have hwait : ∀ d, (s.calls d).pc ≠ .waitFailed :=
    hrun.invariant (fun _ _ _ h hok hs => step_waitFailed h hok hs) fun _ => by
      simp [init, Call.new]
  constructor
  · intro c hsig
    have hc := hinv c
    cases hpc : (s.calls c).pc <;>
      simp_all [CallOk, Call.Pending, Call.Served, Woken]
  · intro c p hpoll hret
    have hc := hinv c
    rw [callbackOf_self hpoll] at hc
    cases hpc : (s.calls c).pc <;> simp_all [CallOk, Call.Served, Returned]

def signalOnly (s : Sys) : Event → Bool
  | .spurious _ => false
  | .submitter c ok => ok || (s.calls c).pc != .wait
  | _ => true

theorem signalOnly_sound (s : Sys) (e : Event) (h : signalOnly s e = true) : SignalOnly s e := by
  constructor
  · rintro c rfl
    simp [signalOnly] at h
  · rintro c rfl
    simpa [signalOnly] using h

/-- Up to the signal for the first call, whose callback still holds the mutex. -/
theorem sync_no_lost_wakeup_racing :
    ∃ s, machine.Path SignalOnly init (racingSchedule.take 10) s ∧ (s.calls 0).signaled = true ∧
      s.poller = some (0, .unlock) ∧ Woken (s.calls 0).pc ∧ ¬ Returned (s.calls 0).pc := by
  have hany : (machine.execIf signalOnly init (racingSchedule.take 10)).any (fun s =>
      (s.calls 0).signaled && s.poller == some (0, .unlock)) = true := by
    decide
  obtain ⟨s, hrun, hs⟩ := Machine.Path.of_check signalOnly_sound hany
  simp only [Bool.and_eq_true, beq_iff_eq] at hs
  obtain ⟨hsig, hpoll⟩ := hs
  obtain ⟨hwoken, hbefore⟩ := sync_no_lost_wakeup hrun
  exact ⟨s, hrun, hsig, hpoll, hwoken 0 hsig, hbefore 0 .unlock hpoll⟩

end VhostUser.Poller
