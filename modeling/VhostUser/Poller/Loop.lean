import VhostUser.Lib.CInt
import VhostUser.Lib.Machine
import VhostUser.Ring.Atomic

/-! # The poller thread

`vring_poll` drains the used ring, once a second adapts itself to the number of
completions, and waits: for an event from the device while there are few completions,
for a fixed time while there are many. In the second mode the device is told not to
signal. The two modes are switched between the drain and the wait.

The device publishes an entry of the used ring and then decides whether to signal. Of
the used ring only its two indices matter here: `vring_get_task` is the comparison of
these indices followed by the rest of the call. The number of tasks in the ring is
bounded because each takes at least two descriptors.
-/

namespace VhostUser.PollLoop

open VhostUser.Lib VhostUser.Ring

/-! ## The adaptive sleep interval -/

def sleepMin : Int := 5

def sleepMax : Int := 150

def sleepDeltaMax : Int := 72

def defaultIopsHigh : Nat := 120000

def vringAvailFNoInterrupt : Nat := 1

/-- `struct vring_poller` without the thread id and the vring. -/
structure VringPoller where
  finish : Bool
  iops : Nat
  sleepyPoll : Bool
  sleep : Int
  sleepDelta : Int
  deriving Repr, DecidableEq

/-- `vring_poller_create`; `iops` is not initialised there and is written before it is read. -/
def vringPollerCreate : VringPoller where
  finish := false
  iops := 0
  sleepyPoll := false
  sleep := (sleepMin + sleepMax) / 2
  sleepDelta := sleepDeltaMax

def evalPerformance (p : VringPoller) (iopsOld iopsNew : Nat) : VringPoller :=
  let deltaSign : Int := if p.sleepDelta ≥ 0 then 1 else -1
  if iopsOld = 0 ∨ iopsNew = 0 then p
  else
    -- the difference of two `unsigned int`, shifted and divided as `int`
    let newDelta := toInt (Int.tdiv (toInt (toInt (iopsNew - iopsOld) * 2 ^ 9)) (toInt iopsOld))
    let newDelta := if newDelta = 0 then (if iopsNew ≥ iopsOld then 1 else -1) else newDelta
    let newDelta := toInt (newDelta * deltaSign)
    let newDelta := if newDelta > sleepDeltaMax then sleepDeltaMax else newDelta
    let newDelta := if newDelta < -sleepDeltaMax then -sleepDeltaMax else newDelta
    let sleep := p.sleep + newDelta
    let sleep := if sleep < sleepMin then sleepMin else sleep
    let sleep := if sleep > sleepMax then sleepMax else sleep
    { p with sleep := sleep, sleepDelta := newDelta }

/-! ## The loop -/

/-- Where `vring_poll` stands; each constructor names what is executed next. -/
inductive LoopPc where
  /-- `while (!self->end)` -/
  | checkEnd
  /-- `vring_get_task` up to the comparison of the indices -/
  | loadUsedIdx
  /-- the rest of `vring_get_task`, and the callback -/
  | reap
  /-- `gettimeofday` and what follows up to the change of the flags -/
  | clock
  /-- `vring->avail->flags |= VRING_AVAIL_F_NO_INTERRUPT` -/
  | setFlags
  /-- `vring->avail->flags &= ~VRING_AVAIL_F_NO_INTERRUPT` -/
  | clearFlags
  /-- `if (!self->sleepy_poll)` -/
  | wait
  /-- blocked in `poll`, called by `do_poll` -/
  | poll
  /-- `read` of the event in `do_poll` -/
  | readFd
  /-- inside `usleep` -/
  | usleep
  | exited
  deriving Repr, DecidableEq

inductive PollResult where
  | error
  | timeout
  | ready
  deriving Repr, DecidableEq

/-- The poller with the locals of `vring_poll`, the part of the vring it shares with
the device, and the device. The last two fields are history: how many entries were
ever published and reaped. -/
structure Sys where
  self : VringPoller
  pc : LoopPc
  iocount : Nat
  iocountPerSec : Nat
  second : Nat
  availFlags : Nat
  usedIdx : Nat
  lastUsedIdx : Nat
  /-- the counter of the eventfd that the device signals -/
  callfd : Nat
  /-- tasks that were put and that the device has not reported -/
  pending : Nat
  /-- the device has published an entry and not yet decided whether to signal -/
  deciding : Bool
  used : Nat
  reaped : Nat
  deriving Repr, DecidableEq

/-- A new vring and a poller that has just been started. -/
def init : Sys where
  self := vringPollerCreate
  pc := .checkEnd
  iocount := 0
  iocountPerSec := 0
  second := 0
  availFlags := 0
  usedIdx := 0
  lastUsedIdx := 0
  callfd := 0
  pending := 0
  deciding := false
  used := 0
  reaped := 0

inductive Event where
  /-- the next step of the poller that needs nothing from outside -/
  | poller
  /-- the next step is `gettimeofday`, which returns `now` -/
  | clock (now : Nat)
  /-- `poll` returns -/
  | wake (r : PollResult)
  /-- a thread puts a task -/
  | put
  /-- the device publishes an entry of the used ring -/
  | publish
  /-- the device reads the flags and signals unless told not to -/
  | decide
  /-- `vring_poller_stop` sets the flag, and then writes an event -/
  | stop
  | stopEvent
  /-- `vring_poller_start` after the thread has ended -/
  | start
  deriving Repr, DecidableEq

/-- The most tasks in the ring, with two descriptors each. -/
def maxTasks : Nat := vhostVringSize / 2

/-- The largest value of an eventfd counter. -/
def eventfdMax : Nat := 2 ^ 64 - 2

/-- A write of 1 to an eventfd; the writer does not wait if the counter is full. -/
def signalFd (n : Nat) : Nat := if n < eventfdMax then n + 1 else n

/-- The flag by which the device is told not to signal. -/
def Sys.suppressed (s : Sys) : Bool := s.availFlags &&& vringAvailFNoInterrupt != 0

def adapt (p : VringPoller) (perSec : Nat) : VringPoller :=
  let p := if p.sleepyPoll then evalPerformance p p.iops perSec else p
  { p with iops := perSec }

/-- Choose the mode, and the store that goes with a switch. -/
def chooseMode (iopsHigh : Nat) (p : VringPoller) : VringPoller × LoopPc :=
  if !p.sleepyPoll && p.iops > iopsHigh then ({ p with sleepyPoll := true }, .setFlags)
  else if p.sleepyPoll && p.iops < iopsHigh then ({ p with sleepyPoll := false }, .clearFlags)
  else (p, .wait)

/-- `gettimeofday` returned `now`: this is done once a second. -/
def clockStep (iopsHigh : Nat) (s : Sys) (now : Nat) : Sys :=
  let perSec := (s.iocountPerSec + s.iocount) % 2 ^ 32
  if now ≠ s.second then
    let r := chooseMode iopsHigh (adapt s.self perSec)
    { s with self := r.1, iocount := 0, iocountPerSec := 0, second := now, pc := r.2 }
  else { s with iocount := 0, iocountPerSec := perSec, pc := .wait }

/-- One step of `vring_poll` that needs nothing from outside. -/
def pollerStep (s : Sys) : Option Sys :=
  match s.pc with
  | .checkEnd =>
      if s.self.finish then some { s with pc := .exited }
      else some { s with iocount := 0, pc := .loadUsedIdx }
  | .loadUsedIdx =>
      if s.lastUsedIdx &&& mask = s.usedIdx &&& mask then some { s with pc := .clock }
      else some { s with pc := .reap }
  | .reap =>
      some { s with
        lastUsedIdx := (s.lastUsedIdx + 1) % 2 ^ 16
        iocount := s.iocount + 1
        reaped := s.reaped + 1
        pc := .loadUsedIdx }
  | .setFlags => some { s with availFlags := s.availFlags ||| vringAvailFNoInterrupt, pc := .wait }
  | .clearFlags =>
      some { s with
        availFlags := s.availFlags &&& (2 ^ 16 - 1 - vringAvailFNoInterrupt)
        pc := .wait }
  | .wait =>
      if s.self.sleepyPoll then some { s with pc := .usleep } else some { s with pc := .poll }
  | .readFd => some { s with callfd := 0, pc := .checkEnd }
  | .usleep => some { s with pc := .checkEnd }
  | .clock | .poll | .exited => none

def step (iopsHigh : Nat) (s : Sys) : Event → Option Sys
  | .poller => pollerStep s
  | .clock now => if s.pc = .clock then some (clockStep iopsHigh s now) else none
  | .wake r =>
      if s.pc = .poll then
        match r with
        | .error => some { s with pc := .checkEnd }
        | .timeout => if s.callfd = 0 then some { s with pc := .checkEnd } else none
        | .ready => if s.callfd = 0 then none else some { s with pc := .readFd }
      else none
  | .put =>
      if s.pending + (s.used - s.reaped) < maxTasks then some { s with pending := s.pending + 1 }
      else none
  | .publish =>
      if s.deciding = false ∧ 0 < s.pending then
        some { s with
          usedIdx := (s.usedIdx + 1) % 2 ^ 16
          pending := s.pending - 1
          deciding := true
          used := s.used + 1 }
      else none
  | .decide =>
      if s.deciding then
        some { s with
          callfd := if s.suppressed then s.callfd else signalFd s.callfd
          deciding := false }
      else none
  | .stop => some { s with self := { s.self with finish := true } }
  | .stopEvent => if s.self.finish then some { s with callfd := signalFd s.callfd } else none
  | .start =>
      if s.pc = .exited then
        some { s with
          self := { s.self with finish := false }
          iocount := 0
          iocountPerSec := 0
          second := 0
          pc := .checkEnd }
      else none

def machine (iopsHigh : Nat) : Machine Sys Event := ⟨init, step iopsHigh⟩

/-- The bound on tasks is the one of the vring: between operations the entries that
were not returned are at most that many. -/
theorem ring_backlog_le_maxTasks {s : Ring.Sys} {es : List Ring.Event}
    (hrun : Ring.machine.Path (Atomic 2) Ring.init es s) (hq : Quiet s) :
    s.usedLog.length - s.returned.length ≤ maxTasks := by
  have h := Ring.path_inv (hrun.mono fun _ _ => Atomic.noLinkRace Nat.two_pos)
  have hw : Wide 2 s := path_wide (hrun.mono fun _ _ hok =>
    ⟨Atomic.noLinkRace Nat.two_pos hok, hok.2.2⟩)
  have hback := h.backlog hw hq.2
  have hsize : vhostVringSize = 1024 := rfl
  have hmax : maxTasks = 512 := rfl
  omega

/-! ## The invariant -/

/-- The used ring was found empty and the poller has not waited since. -/
def PastDrain : LoopPc → Prop
  | .clock => True
  | .setFlags => True
  | .clearFlags => True
  | .wait => True
  | .poll => True
  | _ => False

/-- The flag of the avail ring that belongs to a mode. -/
def flagsOf (sleepy : Bool) : Nat := if sleepy then vringAvailFNoInterrupt else 0

/-- The flag follows the mode, except between the two stores of a switch; the mode
decides how to wait. -/
def ModeOk (s : Sys) : Prop :=
  match s.pc with
  | .setFlags => s.self.sleepyPoll = true ∧ s.availFlags = flagsOf false
  | .clearFlags => s.self.sleepyPoll = false ∧ s.availFlags = flagsOf true
  | .poll => s.self.sleepyPoll = false ∧ s.availFlags = flagsOf false
  | .usleep => s.self.sleepyPoll = true ∧ s.availFlags = flagsOf true
  | _ => s.availFlags = flagsOf s.self.sleepyPoll

/-- The indices are the counts reduced to sixteen bits, and the ring is not overfull. -/
structure Counters (usedIdx lastUsedIdx used reaped pending : Nat) : Prop where
  usedIdx : usedIdx = used % 2 ^ 16
  lastUsedIdx : lastUsedIdx = reaped % 2 ^ 16
  le : reaped ≤ used
  room : pending + (used - reaped) ≤ maxTasks

structure Inv (s : Sys) : Prop where
  counters : Counters s.usedIdx s.lastUsedIdx s.used s.reaped s.pending
  entry : s.pc = .reap → s.reaped < s.used
  mode : ModeOk s
  drained : PastDrain s.pc → s.suppressed = false → s.callfd = 0 → s.deciding = false →
    s.reaped = s.used

/-- No switch to events with an entry in the used ring which the device has decided not
to announce and for which there is no other event. -/
def NoBlindSwitch (s : Sys) (e : Event) : Prop :=
  e = .poller → s.pc = .clearFlags → s.callfd ≠ 0 ∨ s.deciding = true ∨ s.reaped = s.used

theorem init_inv : Inv init :=
  ⟨⟨rfl, rfl, Nat.le_refl _, Nat.zero_le _⟩, fun h => (by cases h), rfl, fun h => h.elim⟩

variable {s s' : Sys} {iopsHigh : Nat}

/-- The masked indices agree only if nothing is left: there is less than one lap between them. -/
theorem Inv.empty_iff (h : Inv s) :
    s.lastUsedIdx &&& mask = s.usedIdx &&& mask ↔ s.reaped = s.used := by
  have hroom := h.counters.room
  have hle := h.counters.le
  have hmax : maxTasks = 512 := rfl
  rw [and_mask, and_mask, h.counters.lastUsedIdx, h.counters.usedIdx, mod_two_pow_mask, mod_two_pow_mask]
  constructor
  · intro heq
    have hsize : vhostVringSize = 1024 := rfl
    exact mod_inj_of_window (Nat.le_refl s.reaped) hle (by omega) (by omega) heq
  · intro heq
    rw [heq]

/-! ### The mode -/

theorem adapt_sleepyPoll (p : VringPoller) (perSec : Nat) :
    (adapt p perSec).sleepyPoll = p.sleepyPoll := by
  unfold adapt
  by_cases hsleepy : p.sleepyPoll = true
  · simp only [if_pos hsleepy]
    unfold evalPerformance
    by_cases hzero : p.iops = 0 ∨ perSec = 0
    · simp only [if_pos hzero]
    · simp only [if_neg hzero]
  · simp only [if_neg hsleepy]

/-- A switch goes with its store, and without a switch there is none. -/
theorem chooseMode_cases (iopsHigh : Nat) (p : VringPoller) :
    (p.sleepyPoll = false ∧ chooseMode iopsHigh p = ({ p with sleepyPoll := true }, .setFlags)) ∨
      (p.sleepyPoll = true ∧ chooseMode iopsHigh p = ({ p with sleepyPoll := false }, .clearFlags)) ∨
      chooseMode iopsHigh p = (p, .wait) := by
  unfold chooseMode
  split
  · next hup =>
      rw [Bool.and_eq_true, Bool.not_eq_true'] at hup
      exact Or.inl ⟨hup.1, rfl⟩
  · split
    · next hdown =>
        rw [Bool.and_eq_true] at hdown
        exact Or.inr (Or.inl ⟨hdown.1, rfl⟩)
    · exact Or.inr (Or.inr rfl)

theorem chooseMode_ne_reap (iopsHigh : Nat) (p : VringPoller) :
    (chooseMode iopsHigh p).2 ≠ .reap := by
  rcases chooseMode_cases iopsHigh p with ⟨-, heq⟩ | ⟨-, heq⟩ | heq <;> simp [heq]

theorem ModeOk.congr (h : ModeOk s) (hpc : s'.pc = s.pc) (hflags : s'.availFlags = s.availFlags)
    (hself : s'.self.sleepyPoll = s.self.sleepyPoll) : ModeOk s' := by
  unfold ModeOk at h ⊢
  rw [hpc, hflags, hself]
  exact h

theorem ModeOk.flags (h : ModeOk s) (hup : s.pc ≠ .setFlags) (hdown : s.pc ≠ .clearFlags) :
    s.availFlags = flagsOf s.self.sleepyPoll := by
  unfold ModeOk at h
  cases hpc : s.pc <;> simp only [hpc] at h
  case setFlags => exact absurd hpc hup
  case clearFlags => exact absurd hpc hdown
  case poll => rw [h.1, h.2]
  case usleep => rw [h.1, h.2]
  all_goals exact h

theorem pollerStep_mode (h : ModeOk s) (hs : pollerStep s = some s') : ModeOk s' := by
  have hmode := h
  unfold ModeOk at hmode
  cases hpc : s.pc <;> simp only [pollerStep, hpc] at hs <;> simp only [hpc] at hmode
  case checkEnd =>
    split at hs <;> cases hs
    · exact hmode
    · exact hmode
  case loadUsedIdx =>
    split at hs <;> cases hs
    · exact hmode
    · exact hmode
  case reap =>
    cases hs
    exact hmode
  case clock => cases hs
  case setFlags =>
    cases hs
    show s.availFlags ||| vringAvailFNoInterrupt = flagsOf s.self.sleepyPoll
    rw [hmode.1, hmode.2]
    rfl
  case clearFlags =>
    cases hs
    show s.availFlags &&& (2 ^ 16 - 1 - vringAvailFNoInterrupt) = flagsOf s.self.sleepyPoll
    rw [hmode.1, hmode.2]
    rfl
  case wait =>
    split at hs
    · next hsleepy =>
        cases hs
        rw [hsleepy] at hmode
        exact ⟨hsleepy, hmode⟩
    · next hevents =>
        cases hs
        rw [Bool.not_eq_true] at hevents
        rw [hevents] at hmode
        exact ⟨hevents, hmode⟩
  case poll => cases hs
  case readFd =>
    cases hs
    exact hmode
  case usleep =>
    cases hs
    show s.availFlags = flagsOf s.self.sleepyPoll
    rw [hmode.1, hmode.2]
  case exited => cases hs

theorem clockStep_mode (h : ModeOk s) (hpc : s.pc = .clock) (now : Nat) :
    ModeOk (clockStep iopsHigh s now) := by
  have hmode := h.flags (by rw [hpc]; decide) (by rw [hpc]; decide)
  unfold clockStep
  split
  · dsimp only
    generalize hp : adapt s.self ((s.iocountPerSec + s.iocount) % 2 ^ 32) = p
    have hsame : p.sleepyPoll = s.self.sleepyPoll := by rw [← hp, adapt_sleepyPoll]
    rw [← hsame] at hmode
    rcases chooseMode_cases iopsHigh p with ⟨hsleepy, heq⟩ | ⟨hsleepy, heq⟩ | heq
    · simp only [heq]
      rw [hsleepy] at hmode
      exact ⟨rfl, hmode⟩
    · simp only [heq]
      rw [hsleepy] at hmode
      exact ⟨rfl, hmode⟩
    · simp only [heq]
      exact hmode
  · exact hmode

theorem step_mode {e : Event} (h : ModeOk s) (hs : step iopsHigh s e = some s') : ModeOk s' := by
  cases e with
  | poller => exact pollerStep_mode h hs
  | clock now =>
      simp only [step] at hs
      split at hs
      · next hpc =>
          cases hs
          exact clockStep_mode h hpc now
      · cases hs
  | wake r =>
      simp only [step] at hs
      split at hs
      · next hpc =>
          have hmode := h.flags (by rw [hpc]; decide) (by rw [hpc]; decide)
          cases r <;> simp only at hs
          case error =>
            cases hs
            exact hmode
          case timeout =>
            split at hs <;> cases hs
            exact hmode
          case ready =>
            split at hs <;> cases hs
            exact hmode
      · cases hs
  | put =>
      simp only [step] at hs
      split at hs <;> cases hs
      exact h.congr rfl rfl rfl
  | publish =>
      simp only [step] at hs
      split at hs <;> cases hs
      exact h.congr rfl rfl rfl
  | decide =>
      simp only [step] at hs
      split at hs <;> cases hs
      exact h.congr rfl rfl rfl
  | stop =>
      cases hs
      exact h.congr rfl rfl rfl
  | stopEvent =>
      simp only [step] at hs
      split at hs <;> cases hs
      exact h.congr rfl rfl rfl
  | start =>
      simp only [step] at hs
      split at hs
      · next hpc =>
          cases hs
          exact h.flags (by rw [hpc]; decide) (by rw [hpc]; decide)
      · cases hs

/-! ### The used ring -/

theorem pollerStep_inv (h : Inv s) (hok : NoBlindSwitch s .poller)
    (hs : pollerStep s = some s') : Inv s' := by
  have hmode' := pollerStep_mode h.mode hs
  have hmode := h.mode
  unfold ModeOk at hmode
  cases hpc : s.pc <;> simp only [pollerStep, hpc] at hs <;> simp only [hpc] at hmode
  case checkEnd =>
    split at hs
    · cases hs
      exact ⟨h.counters, fun hw => (by cases hw), hmode', fun hw => hw.elim⟩
    · cases hs
      exact ⟨h.counters, fun hw => (by cases hw), hmode', fun hw => hw.elim⟩
  case loadUsedIdx =>
    split at hs
    · next heq =>
        cases hs
        exact ⟨h.counters, fun hw => (by cases hw), hmode',
          fun _ _ _ _ => h.empty_iff.mp heq⟩
    · next hne =>
        cases hs
        exact ⟨h.counters,
          fun _ => Nat.lt_of_le_of_ne h.counters.le fun heq => hne (h.empty_iff.mpr heq), hmode',
          fun hw => hw.elim⟩
  case reap =>
    cases hs
    have hlt := h.entry hpc
    have hroom := h.counters.room
    refine ⟨⟨h.counters.usedIdx, ?_, hlt, ?_⟩, fun hw => (by cases hw), hmode', fun hw => hw.elim⟩
    · show (s.lastUsedIdx + 1) % 2 ^ 16 = (s.reaped + 1) % 2 ^ 16
      rw [h.counters.lastUsedIdx, Nat.mod_add_mod]
    · show s.pending + (s.used - (s.reaped + 1)) ≤ maxTasks
      omega
  case clock => cases hs
  case setFlags =>
    cases hs
    refine ⟨h.counters, fun hw => (by cases hw), hmode', fun _ hsup => ?_⟩
    simp only [Sys.suppressed, hmode.2] at hsup
    cases hsup
  case clearFlags =>
    cases hs
    refine ⟨h.counters, fun hw => (by cases hw), hmode', fun _ _ hfd hdec => ?_⟩
    rcases hok rfl hpc with hne | hdec' | heq
    · exact absurd hfd hne
    · exact absurd (hdec'.symm.trans hdec) Bool.noConfusion
    · exact heq
  case wait =>
    split at hs
    · cases hs
      exact ⟨h.counters, fun hw => (by cases hw), hmode', fun hw => hw.elim⟩
    · cases hs
      exact ⟨h.counters, fun hw => (by cases hw), hmode', fun _ => h.drained (by rw [hpc]; trivial)⟩
  case poll => cases hs
  case readFd =>
    cases hs
    exact ⟨h.counters, fun hw => (by cases hw), hmode', fun hw => hw.elim⟩
  case usleep =>
    cases hs
    exact ⟨h.counters, fun hw => (by cases hw), hmode', fun hw => hw.elim⟩
  case exited => cases hs

/-- The clock changes the poller only, and where it goes on from there. -/
theorem clockStep_inv (h : Inv s) (hpc : s.pc = .clock) (now : Nat) :
    Inv (clockStep iopsHigh s now) := by
  have hmode : ModeOk (clockStep iopsHigh s now) := clockStep_mode h.mode hpc now
  have hdrained := h.drained (by rw [hpc]; trivial)
  unfold clockStep at hmode ⊢
  split
  · next hnew =>
      rw [if_pos hnew] at hmode
      exact ⟨h.counters, fun hw => absurd hw (chooseMode_ne_reap _ _), hmode, fun _ => hdrained⟩
  · next hsame =>
      rw [if_neg hsame] at hmode
      exact ⟨h.counters, fun hw => (by cases hw), hmode, fun _ => hdrained⟩

theorem signalFd_pos (n : Nat) : 0 < signalFd n := by
  unfold signalFd
  split
  · exact Nat.succ_pos n
  · next hfull => exact Nat.lt_of_lt_of_le (by decide) (Nat.le_of_not_lt hfull)

theorem step_inv {e : Event} (h : Inv s) (hok : NoBlindSwitch s e)
    (hs : step iopsHigh s e = some s') : Inv s' := by
  have hc := h.counters
  have hmode := step_mode h.mode hs
  cases e with
  | poller => exact pollerStep_inv h hok hs
  | clock now =>
      simp only [step] at hs
      split at hs
      · next hpc =>
          cases hs
          exact clockStep_inv h hpc now
      · cases hs
  | wake r =>
      simp only [step] at hs
      split at hs
      · cases r with
          | error =>
              cases hs
              exact ⟨hc, fun hw => (by cases hw), hmode, fun hw => hw.elim⟩
          | timeout =>
              simp only at hs
              split at hs
              · cases hs
                exact ⟨hc, fun hw => (by cases hw), hmode, fun hw => hw.elim⟩
              · cases hs
          | ready =>
              simp only at hs
              split at hs
              · cases hs
              · cases hs
                exact ⟨hc, fun hw => (by cases hw), hmode, fun hw => hw.elim⟩
      · cases hs
  | put =>
      simp only [step] at hs
      split at hs
      · next hroom =>
          cases hs
          refine ⟨⟨hc.usedIdx, hc.lastUsedIdx, hc.le, ?_⟩, h.entry, hmode, h.drained⟩
          show s.pending + 1 + (s.used - s.reaped) ≤ maxTasks
          omega
      · cases hs
  | publish =>
      simp only [step] at hs
      split at hs
      · next hpend =>
          cases hs
          have hroom := hc.room
          have hle := hc.le
          -- from here to its decision the device covers the new entry
          refine ⟨⟨?_, hc.lastUsedIdx, Nat.le_succ_of_le hle, ?_⟩,
            fun hw => Nat.lt_succ_of_lt (h.entry hw), hmode,
            fun _ _ _ hdec => Bool.noConfusion hdec⟩
          · show (s.usedIdx + 1) % 2 ^ 16 = (s.used + 1) % 2 ^ 16
            rw [hc.usedIdx, Nat.mod_add_mod]
          · show s.pending - 1 + (s.used + 1 - s.reaped) ≤ maxTasks
            omega
      · cases hs
  | decide =>
      simp only [step] at hs
      split at hs
      · cases hs
        refine ⟨hc, h.entry, hmode, fun _ hsup hfd => absurd hfd ?_⟩
        have hsup : s.suppressed = false := hsup
        show (if s.suppressed = true then s.callfd else signalFd s.callfd) ≠ 0
        rw [hsup, if_neg Bool.false_ne_true]
        exact Nat.ne_of_gt (signalFd_pos _)
      · cases hs
  | stop =>
      cases hs
      exact ⟨hc, h.entry, hmode, h.drained⟩
  | stopEvent =>
      simp only [step] at hs
      split at hs
      · cases hs
        exact ⟨hc, h.entry, hmode,
          fun _ _ hfd => absurd hfd (Nat.ne_of_gt (signalFd_pos _))⟩
      · cases hs
  | start =>
      simp only [step] at hs
      split at hs
      · next hpc =>
          cases hs
          exact ⟨hc, fun hw => (by cases hw), hmode, fun hw => hw.elim⟩
      · cases hs

theorem path_inv {es : List Event} (hrun : (machine iopsHigh).Path NoBlindSwitch init es s) : Inv s :=
  hrun.invariant (I := Inv) (fun _ _ _ h hok hs => step_inv h hok hs) init_inv

/-! ## Sleeping on an entry -/

/-- The poller sleeps without an event only if everything was reaped, unless the device
is about to decide on an event. -/
def SleepsDrained (s : Sys) : Prop :=
  s.pc = .poll → s.callfd = 0 → s.deciding = false → s.reaped = s.used

/-- In every interleaving of poller, device and producers, with any number of switches
between the modes: as long as no switch is blind, the poller never sleeps on an entry
which nobody will announce. -/
theorem poller_sleeps_drained {es : List Event}
    (hrun : (machine iopsHigh).Path NoBlindSwitch init es s) : SleepsDrained s := by
  have h := path_inv hrun
  intro hpc hfd hdec
  refine h.drained (by rw [hpc]; trivial) ?_ hfd hdec
  have hmode := h.mode
  simp only [ModeOk, hpc] at hmode
  rw [Sys.suppressed, hmode.2]
  rfl

def noBlindSwitch (s : Sys) (e : Event) : Bool :=
  e != .poller || s.pc != .clearFlags || s.callfd != 0 || s.deciding || s.reaped == s.used

theorem noBlindSwitch_sound (s : Sys) (e : Event) (h : noBlindSwitch s e = true) :
    NoBlindSwitch s e := by
  intro he hpc
  simpa [noBlindSwitch, he, hpc, or_assoc] using h

/-- With a threshold of one completion a second: the poller turns to sleeping and back
to events, when an entry has been published and the device is about to decide. -/
def seenSwitchSchedule : List Event :=
  [.poller, .poller, .clock 1, .poller, .put, .put, .publish, .decide, .publish, .decide,
    .wake .ready, .poller, .poller, .poller, .poller, .poller, .poller, .poller, .clock 2, .poller,
    .poller, .poller, .poller, .poller, .put, .publish, .clock 3, .poller, .poller]

theorem poller_sleeps_drained_seen :
    ∃ s, (machine 1).Path NoBlindSwitch init seenSwitchSchedule s ∧ s.pc = .poll ∧
      s.reaped = 2 ∧ s.used = 3 ∧ s.deciding = true ∧ SleepsDrained s := by
  have hany : ((machine 1).execIf noBlindSwitch init seenSwitchSchedule).any (fun s =>
      s.pc == .poll && s.reaped == 2 && s.used == 3 && s.deciding) = true := by decide +kernel
  obtain ⟨s, hrun, hs⟩ := Machine.Path.of_check noBlindSwitch_sound hany
  simp only [Bool.and_eq_true, beq_iff_eq] at hs
  exact ⟨s, hrun, hs.1.1.1, hs.1.1.2, hs.1.2, hs.2, poller_sleeps_drained hrun⟩

/-! ## A blind switch -/

/-- The poller sleeps in event mode after `k` completions in the current second. -/
def steady (k : Nat) : Sys :=
  { init with
    pc := .poll
    iocountPerSec := k
    second := 1
    usedIdx := k % 2 ^ 16
    lastUsedIdx := k % 2 ^ 16
    used := k
    reaped := k }

/-- One more task is put, reported, announced and reaped in the same second. -/
def oneMore : List Event :=
  [.put, .publish, .decide, .wake .ready, .poller, .poller, .poller, .poller, .poller, .clock 1,
    .poller]

theorem steady_oneMore {k : Nat} (hk : k + 1 < 2 ^ 32) :
    (machine iopsHigh).Path (fun _ _ => True) (steady k) oneMore (steady (k + 1)) := by
  have hexec : (machine iopsHigh).execIf (fun _ _ => true) (steady k) oneMore =
      some (steady (k + 1)) := by
    have hne : ¬ k % 1024 = (k + 1) % 1024 := by omega
    have hcount : (k + 1) % 4294967296 = k + 1 := Nat.mod_eq_of_lt hk
    simp [Machine.execIf, machine, oneMore, steady, init, step, pollerStep, clockStep, maxTasks,
      vhostVringSize, Sys.suppressed, signalFd, eventfdMax, vringPollerCreate, hne, hcount]
  exact Machine.Path.of_execIf (fun _ _ _ => trivial) hexec

/-- Any number of completions below the range of the counter fit into a second. -/
theorem reach_steady (k : Nat) (hk : k < 2 ^ 32) :
    ∃ es, (machine iopsHigh).Path (fun _ _ => True) init es (steady k) := by
  induction k with
  | zero =>
      refine ⟨[.poller, .poller, .clock 1, .poller], ?_⟩
      exact .cons trivial rfl (.cons trivial rfl (.cons trivial rfl (.cons trivial rfl (.nil _))))
  | succ k ih =>
      obtain ⟨es, hes⟩ := ih (Nat.lt_of_succ_lt hk)
      exact ⟨es ++ oneMore, hes.trans (steady_oneMore hk)⟩

/-- The second ends and the poller turns to sleeping. After it has found the used ring
empty, an entry is published, which the device does not announce. No completion was
reaped in this second, so the poller turns to events and waits for one. -/
def blindSwitchSchedule : List Event :=
  [.wake .timeout, .poller, .poller, .clock 2, .poller, .poller, .poller, .poller, .poller, .put,
    .publish, .decide, .clock 3, .poller, .poller]

/-- With the default threshold the poller comes to sleep on an entry of the used ring
that nobody announces. -/
theorem poller_sleeps_on_entry :
    ∃ es s, (machine defaultIopsHigh).Path (fun _ _ => True) init es s ∧ s.pc = .poll ∧
      s.callfd = 0 ∧ s.deciding = false ∧ s.reaped + 1 = s.used ∧ ¬ SleepsDrained s := by
  obtain ⟨es, hes⟩ : ∃ es, (machine defaultIopsHigh).Path (fun _ _ => True) init es
      (steady 120001) := reach_steady 120001 (by decide)
  have hany : ((machine defaultIopsHigh).execIf (fun _ _ => true) (steady 120001)
      blindSwitchSchedule).any (fun s => s.pc == .poll && s.callfd == 0 && !s.deciding &&
        s.reaped + 1 == s.used) = true := by decide +kernel
  obtain ⟨s, hrun, hs⟩ := Machine.Path.of_check (fun _ _ _ => trivial) hany
  simp only [Bool.and_eq_true, beq_iff_eq, Bool.not_eq_true'] at hs
  obtain ⟨⟨⟨hpc, hfd⟩, hdec⟩, hleft⟩ := hs
  refine ⟨_, s, hes.trans hrun, hpc, hfd, hdec, hleft, fun hdrained => ?_⟩
  have := hdrained hpc hfd hdec
  omega

end VhostUser.PollLoop
