import VhostUser.Lib.CInt
import VhostUser.Lib.Machine

/-! # Waiting for completions

`virtio_completed` waits until the output ring holds enough entries. It stores the
number it waits for as a watermark and polls an eventfd; `push_to_outring`, run by
the poller, enqueues an entry and then compares the watermark with the ring. There
is no lock: every load, store and system call of the two functions is one step.
Other threads take entries out with `virtio_get_completed` at any time.

An event may be left over from a call that has timed out, and several of them are
one when they are read. A call therefore counts the ring again after each of them.
-/

namespace VhostUser.Outring

open VhostUser.Lib

/-! ## The two functions -/

def capacity : Nat := 4096 - 1

/-- The largest value of an eventfd counter. -/
def eventfdMax : Nat := 2 ^ 64 - 2

def delay : Int := 100

/-- Where a call of `virtio_completed` stands. Each constructor names what is
executed next; `n` is the local of that name. -/
inductive WaitPc where
  | idle
  /-- `dev->event_high_wm = mincount` -/
  | storeWm
  /-- `n = rte_ring_count(dev->outring)` before the loop -/
  | loadCount
  /-- `timeout >= 0 && total_time >= timeout` -/
  | checkTime (n : Int)
  /-- inside `poll` -/
  | poll
  /-- `read` of the event -/
  | readFd
  /-- the condition of the loop -/
  | recount
  /-- `dev->event_high_wm = 0` before a return -/
  | disarm (n : Int)
  | returned (n : Int)
  | failed
  deriving Repr, DecidableEq

/-- Where a call of `push_to_outring` stands. -/
inductive PushPc where
  | idle
  /-- `rte_ring_sp_enqueue` -/
  | enqueue (io : Nat)
  /-- `dev->event_high_wm > 0` -/
  | loadWm
  /-- the left side of `dev->event_high_wm <= rte_ring_count(dev->outring)` -/
  | loadWmAgain
  | loadCount (wm : Int)
  /-- `write` to the eventfd -/
  | writeFd
  | failed
  deriving Repr, DecidableEq

inductive PollResult where
  | error
  | timeout
  | ready
  deriving Repr, DecidableEq

/-- The shared part of `struct virtio_dev`, the arguments and locals of the last call
of `virtio_completed`, and where the two functions stand. -/
structure Sys where
  outring : List Nat
  outfd : Nat
  eventHighWm : Int
  mincount : Int
  timeout : Int
  totalTime : Int
  waiter : WaitPc
  poller : PushPc
  deriving Repr, DecidableEq

def init : Sys := ⟨[], 0, 0, 0, 0, 0, .idle, .idle⟩

inductive Event where
  /-- enter `virtio_completed` -/
  | call (mincount timeout : Int)
  /-- the next step of the call; the result matters if that is `poll` -/
  | waiter (r : PollResult)
  /-- the poller enters `push_to_outring` -/
  | push (io : Nat)
  /-- the next step of the poller -/
  | poller
  /-- `virtio_get_completed` on any thread -/
  | getCompleted
  deriving Repr, DecidableEq

def waiterStep (s : Sys) (r : PollResult) : Option Sys :=
  match s.waiter with
  | .idle => none
  | .storeWm => some { s with eventHighWm := s.mincount, waiter := .loadCount }
  | .loadCount =>
      if s.mincount ≤ s.outring.length then some { s with waiter := .disarm s.outring.length }
      else some { s with waiter := .checkTime s.outring.length }
  | .checkTime n =>
      if 0 ≤ s.timeout ∧ s.timeout ≤ s.totalTime then some { s with waiter := .returned n }
      else some { s with waiter := .poll }
  | .poll =>
      match r with
      | .error => some { s with totalTime := toInt (s.totalTime + delay), waiter := .recount }
      | .timeout =>
          if s.outfd = 0 then
            some { s with totalTime := toInt (s.totalTime + delay), waiter := .recount }
          else none
      | .ready => if s.outfd = 0 then none else some { s with waiter := .readFd }
  | .readFd =>
      if s.outfd = 0 then some { s with waiter := .failed }
      else some { s with
        outfd := 0
        totalTime := toInt (s.totalTime + delay)
        waiter := .recount }
  | .recount =>
      if s.outring.length < s.mincount then some { s with waiter := .checkTime s.outring.length }
      else some { s with waiter := .disarm s.outring.length }
  | .disarm n => some { s with eventHighWm := 0, waiter := .returned n }
  | .returned _ => none
  | .failed => none

def pushStep (s : Sys) : Option Sys :=
  match s.poller with
  | .idle => none
  | .enqueue io =>
      if s.outring.length < capacity then
        some { s with outring := s.outring ++ [io], poller := .loadWm }
      else some { s with poller := .failed }
  | .loadWm =>
      if 0 < s.eventHighWm then some { s with poller := .loadWmAgain }
      else some { s with poller := .idle }
  | .loadWmAgain => some { s with poller := .loadCount s.eventHighWm }
  | .loadCount wm =>
      -- the watermark is not negative, so the comparison as `unsigned int` is the same
      if wm ≤ s.outring.length then some { s with poller := .writeFd }
      else some { s with poller := .idle }
  | .writeFd =>
      if s.outfd < eventfdMax then some { s with outfd := s.outfd + 1, poller := .idle }
      else some { s with poller := .failed }
  | .failed => none

def WaitPc.over : WaitPc → Bool
  | .idle => true
  | .returned _ => true
  | _ => false

/-- The function is not reentrant: a call starts after the last one has returned. -/
def step (s : Sys) : Event → Option Sys
  | .call mincount timeout =>
      if s.waiter.over then
        some { s with
          mincount := mincount
          timeout := timeout
          totalTime := 0
          waiter := if 0 < mincount then .storeWm else .failed }
      else none
  | .waiter r => waiterStep s r
  | .push io => if s.poller = .idle then some { s with poller := .enqueue io } else none
  | .poller => pushStep s
  | .getCompleted => some { s with outring := s.outring.tail }

/-- One waiter, the poller and any number of threads that take entries. -/
def machine : Machine Sys Event := ⟨init, step⟩

/-! ## The invariant -/

/-- The watermark is the one of the current call. -/
def Armed : WaitPc → Prop
  | .loadCount => True
  | .checkTime _ => True
  | .poll => True
  | .readFd => True
  | .recount => True
  | _ => False

/-- The call has found too few entries and goes to sleep or sleeps. -/
def Committed : WaitPc → Prop
  | .checkTime _ => True
  | .poll => True
  | _ => False

/-- The poller has enqueued an entry and will find that `m` entries are enough. -/
def WillNotify (m : Int) : PushPc → Prop
  | .loadWm => True
  | .loadWmAgain => True
  | .loadCount wm => wm ≤ m
  | .writeFd => True
  | _ => False

structure Inv (s : Sys) : Prop where
  armed : Armed s.waiter → s.eventHighWm = s.mincount ∧ 0 < s.mincount
  started : s.waiter = .storeWm → 0 < s.mincount
  covered : Committed s.waiter → s.mincount ≤ s.outring.length →
    0 < s.outfd ∨ WillNotify s.mincount s.poller

theorem init_inv : Inv init := ⟨fun h => h.elim, fun h => (by cases h), fun h => h.elim⟩

variable {s s' : Sys}

theorem waiterStep_inv {r : PollResult} (h : Inv s) (hs : waiterStep s r = some s') : Inv s' := by
  cases hpc : s.waiter <;> simp only [waiterStep, hpc] at hs
  case idle => cases hs
  case storeWm =>
    cases hs
    exact ⟨fun _ => ⟨rfl, h.started hpc⟩, fun hw => (by cases hw), fun hw => hw.elim⟩
  case loadCount =>
    have harm := h.armed (by rw [hpc]; trivial)
    split at hs
    · cases hs
      exact ⟨fun hw => hw.elim, fun hw => (by cases hw), fun hw => hw.elim⟩
    · next hfew =>
        cases hs
        exact ⟨fun _ => harm, fun hw => (by cases hw), fun _ hle => absurd hle hfew⟩
  case checkTime n =>
    split at hs
    · cases hs
      exact ⟨fun hw => hw.elim, fun hw => (by cases hw), fun hw => hw.elim⟩
    · cases hs
      exact ⟨fun _ => h.armed (by rw [hpc]; trivial), fun hw => (by cases hw),
        fun _ => h.covered (by rw [hpc]; trivial)⟩
  case poll =>
    have harm := h.armed (by rw [hpc]; trivial)
    cases r with
    | error =>
        cases hs
        exact ⟨fun _ => harm, fun hw => (by cases hw), fun hw => hw.elim⟩
    | timeout =>
        simp only at hs
        split at hs
        · cases hs
          exact ⟨fun _ => harm, fun hw => (by cases hw), fun hw => hw.elim⟩
        · cases hs
    | ready =>
        simp only at hs
        split at hs
        · cases hs
        · cases hs
          exact ⟨fun _ => harm, fun hw => (by cases hw), fun hw => hw.elim⟩
  case readFd =>
    split at hs
    · cases hs
      exact ⟨fun hw => hw.elim, fun hw => (by cases hw), fun hw => hw.elim⟩
    · cases hs
      -- the event is gone, and so is the promise to sleep
      exact ⟨fun _ => h.armed (by rw [hpc]; trivial), fun hw => (by cases hw), fun hw => hw.elim⟩
  case recount =>
    split at hs
    · next hfew =>
        cases hs
        exact ⟨fun _ => h.armed (by rw [hpc]; trivial), fun hw => (by cases hw),
          fun _ hle => absurd hle (Int.not_le.mpr hfew)⟩
    · cases hs
      exact ⟨fun hw => hw.elim, fun hw => (by cases hw), fun hw => hw.elim⟩
  case disarm n =>
    cases hs
    exact ⟨fun hw => hw.elim, fun hw => (by cases hw), fun hw => hw.elim⟩
  case returned => cases hs
  case failed => cases hs

theorem Committed.armed {pc : WaitPc} (h : Committed pc) : Armed pc := by
  cases pc <;> trivial

theorem pushStep_inv (h : Inv s) (hs : pushStep s = some s') : Inv s' := by
  cases hpc : s.poller <;> simp only [pushStep, hpc] at hs
  case idle => cases hs
  case enqueue io =>
    split at hs
    · cases hs
      exact ⟨h.armed, h.started, fun _ _ => Or.inr trivial⟩
    · cases hs
      refine ⟨h.armed, h.started, fun hw hle => Or.inl ((h.covered hw hle).resolve_right ?_)⟩
      rw [hpc]
      exact id
  case loadWm =>
    split at hs
    · cases hs
      exact ⟨h.armed, h.started, fun _ _ => Or.inr trivial⟩
    · next hoff =>
        cases hs
        -- a call that goes to sleep has set the watermark
        refine ⟨h.armed, h.started, fun hw _ => absurd ?_ hoff⟩
        obtain ⟨hwm, hpos⟩ := h.armed (Committed.armed hw)
        rw [hwm]
        exact hpos
  case loadWmAgain =>
    cases hs
    exact ⟨h.armed, h.started, fun hw _ => Or.inr (Int.le_of_eq (h.armed (Committed.armed hw)).1)⟩
  case loadCount wm =>
    split at hs
    · cases hs
      exact ⟨h.armed, h.started, fun _ _ => Or.inr trivial⟩
    · next hfew =>
        cases hs
        refine ⟨h.armed, h.started, fun hw hle => Or.inl ((h.covered hw hle).resolve_right ?_)⟩
        rw [hpc]
        intro hwm
        exact hfew (Int.le_trans hwm hle)
  case writeFd =>
    split at hs
    · cases hs
      exact ⟨h.armed, h.started, fun _ _ => Or.inl (Nat.succ_pos _)⟩
    · next hfull =>
        cases hs
        exact ⟨h.armed, h.started, fun _ _ =>
          Or.inl (Nat.lt_of_lt_of_le (by decide) (Nat.le_of_not_lt hfull))⟩
  case failed => cases hs

theorem step_inv {e : Event} (h : Inv s) (hs : step s e = some s') : Inv s' := by
  cases e with
  | call mincount timeout =>
      simp only [step] at hs
      split at hs
      · cases hs
        by_cases hpos : 0 < mincount
        · rw [if_pos hpos]
          exact ⟨fun hw => hw.elim, fun _ => hpos, fun hw => hw.elim⟩
        · rw [if_neg hpos]
          exact ⟨fun hw => hw.elim, fun hw => (by cases hw), fun hw => hw.elim⟩
      · cases hs
  | waiter r => exact waiterStep_inv h hs
  | push io =>
      simp only [step] at hs
      split at hs
      · next hidle =>
          cases hs
          refine ⟨h.armed, h.started, fun hw hle => Or.inl ((h.covered hw hle).resolve_right ?_)⟩
          rw [hidle]
          exact id
      · cases hs
  | poller => exact pushStep_inv h hs
  | getCompleted =>
      cases hs
      refine ⟨h.armed, h.started, fun hw hle => h.covered hw (Int.le_trans hle ?_)⟩
      simp

theorem path_inv {es : List Event} (hrun : machine.Path (fun _ _ => True) init es s) : Inv s :=
  hrun.invariant (I := Inv) (fun _ _ _ h _ hs => step_inv h hs) init_inv

/-! ## No call is left asleep -/

/-- The poller is between its enqueue and the end of its check and its write. -/
def Pushing : PushPc → Prop
  | .loadWm => True
  | .loadWmAgain => True
  | .loadCount _ => True
  | .writeFd => True
  | _ => False

theorem WillNotify.pushing {m : Int} {pc : PushPc} (h : WillNotify m pc) : Pushing pc := by
  cases pc <;> trivial

/-- Whatever events earlier calls have left behind and whoever takes entries: a call
that sleeps although there are enough entries has an event, or is about to get one. -/
theorem completed_not_left_asleep {es : List Event}
    (hrun : machine.Path (fun _ _ => True) init es s) (hsleep : s.waiter = .poll)
    (hcount : s.mincount ≤ s.outring.length) : s.outfd ≠ 0 ∨ Pushing s.poller := by
  rcases (path_inv hrun).covered (by rw [hsleep]; trivial) hcount with hfd | hpush
  · exact Or.inl (Nat.ne_of_gt hfd)
  · exact Or.inr hpush.pushing

/-- A call for two entries times out at once and leaves its watermark, which lets the
poller write an event for two entries that are then taken out. The next call reads
that event, finds nothing and sleeps again when the poller enqueues an entry. -/
def staleSchedule : List Event :=
  [.call 2 0, .waiter .ready, .waiter .ready, .waiter .ready] ++
    [.push 7, .poller, .poller, .poller, .poller] ++
    [.push 8, .poller, .poller, .poller, .poller, .poller] ++ [.getCompleted, .getCompleted] ++
    [.call 1 (-1), .waiter .ready, .waiter .ready, .waiter .ready, .waiter .ready, .waiter .ready,
      .waiter .ready, .waiter .ready] ++ [.push 9, .poller]

theorem completed_not_left_asleep_stale :
    ∃ s, machine.Path (fun _ _ => True) init staleSchedule s ∧ s.waiter = .poll ∧
      s.mincount = 1 ∧ s.outring = [9] ∧ s.outfd = 0 ∧ s.poller = .loadWm ∧
      (s.outfd ≠ 0 ∨ Pushing s.poller) := by
  have hany : (machine.execIf (fun _ _ => true) init staleSchedule).any (fun s =>
      s.waiter == .poll && s.mincount == 1 && s.outring == [9] && s.outfd == 0 &&
        s.poller == .loadWm) = true := by
    decide +kernel
  obtain ⟨s, hrun, hs⟩ := Machine.Path.of_check (fun _ _ _ => trivial) hany
  simp only [Bool.and_eq_true, beq_iff_eq] at hs
  obtain ⟨⟨⟨⟨hsleep, hmin⟩, hring⟩, hfd⟩, hpoll⟩ := hs
  refine ⟨s, hrun, hsleep, hmin, hring, hfd, hpoll, completed_not_left_asleep hrun hsleep ?_⟩
  rw [hmin, hring]
  decide

end VhostUser.Outring
