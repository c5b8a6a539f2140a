import VhostUser.Dev.Outring

/-! # Returns of `virtio_completed`, and the watermark they leave

The system of the output ring is watched along a run: how often `poll` has returned in
the current call, whether the last call took the exit inside its loop, and whether a call
was in progress when the last push started. Nothing of this is in the program.

The watermark stays behind when a call takes that exit. A push that starts while no call
is in progress also finds a watermark if a new call overtakes it.
-/

namespace VhostUser.Outring

open VhostUser.Lib

structure Watched where
  sys : Sys
  /-- how often `poll` has returned in the last call -/
  polls : Nat
  /-- the last call has returned because its time is over -/
  timedOut : Bool
  /-- no call was in progress when the last push started -/
  outside : Bool
  deriving Repr, DecidableEq

def Sys.timeOver (s : Sys) : Bool := 0 ≤ s.timeout && s.timeout ≤ s.totalTime

def WaitPc.atCheck : WaitPc → Bool
  | .checkTime _ => true
  | _ => false

namespace Watched

def init : Watched := ⟨Outring.init, 0, false, true⟩

def step (w : Watched) (e : Event) : Option Watched := do
  let sys ← Outring.step w.sys e
  pure (match e with
    | .call _ _ => { w with sys := sys, polls := 0, timedOut := false }
    | .waiter _ =>
        { w with
          sys := sys
          polls := if w.sys.waiter = .poll then w.polls + 1 else w.polls
          timedOut := w.timedOut || w.sys.waiter.atCheck && w.sys.timeOver }
    | .push _ => { w with sys := sys, outside := w.sys.waiter.over }
    | _ => { w with sys := sys })

def machine : Machine Watched Event := ⟨init, step⟩

end Watched

/-! ## The invariant -/

/-- Between the return of `poll` and the addition of its delay. -/
def WaitPc.unaccounted : WaitPc → Int
  | .readFd => delay
  | _ => 0

def PushPc.notifying : PushPc → Bool
  | .loadWmAgain => true
  | .loadCount _ => true
  | .writeFd => true
  | _ => false

structure Watched.Inv (w : Watched) : Prop where
  sys : Outring.Inv w.sys
  low : -2 ^ 31 ≤ w.sys.totalTime
  time : w.sys.totalTime + w.sys.waiter.unaccounted ≤ delay * w.polls
  enough : ∀ n, w.sys.waiter = .disarm n → w.sys.mincount ≤ n
  returned : ∀ n, w.sys.waiter = .returned n → w.sys.mincount ≤ n ∨ w.sys.timeOver = true
  busy : w.sys.waiter.over = false → w.timedOut = false
  off : w.sys.waiter.over = true → w.timedOut = false → w.sys.eventHighWm = 0
  stays : w.sys.waiter.over = true → w.timedOut = true → 0 < w.sys.eventHighWm

theorem Watched.init_inv : Watched.init.Inv where
  sys := Outring.init_inv
  low := by decide
  time := by decide
  enough := nofun
  returned := nofun
  busy := nofun
  off := fun _ _ => rfl
  stays := nofun

variable {w w' : Watched} {s : Sys}

/-- The addition to `total_time` may wrap around, but never to a later time. -/
theorem toInt_add_delay {x : Int} (h : -2 ^ 31 ≤ x) :
    -2 ^ 31 ≤ toInt (x + delay) ∧ toInt (x + delay) ≤ x + delay := by
  unfold toInt delay
  rw [Int.bmod_def]
  split <;> omega

/-- A step inside a call, which neither starts nor ends it. -/
structure Continues (s s' : Sys) : Prop where
  before : s.waiter.over = false
  after : s'.waiter.over = false
  notLate : (s.waiter.atCheck && s.timeOver) = false
  low : -2 ^ 31 ≤ s'.totalTime
  time : s'.totalTime + s'.waiter.unaccounted ≤
    s.totalTime + s.waiter.unaccounted + if s.waiter = .poll then delay else 0
  enough : ∀ n, s'.waiter = .disarm n → s'.mincount ≤ n

/-- A call ends at the test of its time, or after it has disarmed the watermark. -/
theorem waiterStep_cases {s s' : Sys} {r : PollResult} (hlow : -2 ^ 31 ≤ s.totalTime)
    (hs : waiterStep s r = some s') :
    (∃ n, s.waiter = .checkTime n ∧ s.timeOver = true ∧ s' = { s with waiter := .returned n }) ∨
      (∃ n, s.waiter = .disarm n ∧ s' = { s with eventHighWm := 0, waiter := .returned n }) ∨
      Continues s s' := by
  have hadd := toInt_add_delay hlow
  cases hpc : s.waiter <;> simp only [waiterStep, hpc] at hs
  case idle => cases hs
  case storeWm =>
    cases hs
    refine Or.inr (Or.inr ⟨by rw [hpc]; rfl, rfl, by rw [hpc]; rfl, hlow, ?_, by rintro n ⟨⟩⟩)
    simp [hpc, WaitPc.unaccounted]
  case loadCount =>
    split at hs
    · next hle =>
        cases hs
        refine Or.inr (Or.inr ⟨by rw [hpc]; rfl, rfl, by rw [hpc]; rfl, hlow, ?_, ?_⟩)
        · simp [hpc, WaitPc.unaccounted]
        · rintro n ⟨⟩
          exact hle
    · cases hs
      refine Or.inr (Or.inr ⟨by rw [hpc]; rfl, rfl, by rw [hpc]; rfl, hlow, ?_, by rintro n ⟨⟩⟩)
      simp [hpc, WaitPc.unaccounted]
  case checkTime n =>
    split at hs
    · next hover =>
        cases hs
        exact Or.inl ⟨n, rfl, by simp [Sys.timeOver, hover], rfl⟩
    · next hover =>
        cases hs
        refine Or.inr (Or.inr ⟨by rw [hpc]; rfl, rfl, ?_, hlow, ?_, by rintro n ⟨⟩⟩)
        · simp only [hpc, WaitPc.atCheck, Bool.true_and, Sys.timeOver, Bool.and_eq_false_iff,
            decide_eq_false_iff_not]
          exact not_and_or.mp hover
        · simp [hpc, WaitPc.unaccounted]
  case poll =>
    -- `poll` has returned, with its delay added now or after the event has been read
    have hreturned : ∀ s', s'.waiter.over = false → -2 ^ 31 ≤ s'.totalTime →
        s'.totalTime + s'.waiter.unaccounted ≤ s.totalTime + delay →
        (∀ n, s'.waiter ≠ .disarm n) → Continues s s' := by
      intro s' hafter hlow' htime hne
      refine ⟨by rw [hpc]; rfl, hafter, by rw [hpc]; rfl, hlow', ?_, fun n hn => absurd hn (hne n)⟩
      simpa [hpc, WaitPc.unaccounted] using htime
    have hadded : Continues s { s with totalTime := toInt (s.totalTime + delay), waiter := .recount } :=
      hreturned _ rfl hadd.1 (by simpa [WaitPc.unaccounted] using hadd.2)
        (by rintro n ⟨⟩)
    cases r with
    | error =>
        cases hs
        exact Or.inr (Or.inr hadded)
    | timeout =>
        simp only at hs
        split at hs
        · cases hs
          exact Or.inr (Or.inr hadded)
        · cases hs
    | ready =>
        simp only at hs
        split at hs
        · cases hs
        · cases hs
          exact Or.inr (Or.inr (hreturned _ rfl hlow (Int.le_refl _) (by rintro n ⟨⟩)))
  case readFd =>
    split at hs
    · cases hs
      refine Or.inr (Or.inr ⟨by rw [hpc]; rfl, rfl, by rw [hpc]; rfl, hlow, ?_, by rintro n ⟨⟩⟩)
      simp only [hpc, WaitPc.unaccounted, delay]
      omega
    · cases hs
      refine Or.inr (Or.inr ⟨by rw [hpc]; rfl, rfl, by rw [hpc]; rfl, hadd.1, ?_, by rintro n ⟨⟩⟩)
      simpa [hpc, WaitPc.unaccounted] using hadd.2
  case recount =>
    split at hs
    · cases hs
      refine Or.inr (Or.inr ⟨by rw [hpc]; rfl, rfl, by rw [hpc]; rfl, hlow, ?_, by rintro n ⟨⟩⟩)
      simp [hpc, WaitPc.unaccounted]
    · next henough =>
        cases hs
        refine Or.inr (Or.inr ⟨by rw [hpc]; rfl, rfl, by rw [hpc]; rfl, hlow, ?_, ?_⟩)
        · simp [hpc, WaitPc.unaccounted]
        · rintro n ⟨⟩
          exact Int.not_lt.mp henough
  case disarm n =>
    cases hs
    exact Or.inr (Or.inl ⟨n, rfl, rfl⟩)
  case returned => cases hs
  case failed => cases hs

theorem Watched.Inv.waiter (h : w.Inv) {r : PollResult} (hs : waiterStep w.sys r = some s) :
    Watched.Inv { w with
      sys := s
      polls := if w.sys.waiter = .poll then w.polls + 1 else w.polls
      timedOut := w.timedOut || w.sys.waiter.atCheck && w.sys.timeOver } := by
  have hsys := waiterStep_inv h.sys hs
  rcases waiterStep_cases h.low hs with ⟨n, hpc, hover, rfl⟩ | ⟨n, hpc, rfl⟩ | hcont
  · -- the watermark of the call stays
    have htimed : (w.timedOut || w.sys.waiter.atCheck && w.sys.timeOver) = true := by
      rw [hpc, hover]
      simp [WaitPc.atCheck]
    rw [htimed, hpc]
    have htime := h.time
    rw [hpc] at htime
    refine ⟨hsys, h.low, htime, nofun, fun m hm => Or.inr hover, nofun, fun _ => nofun, fun _ _ => ?_⟩
    obtain ⟨hwm, hpos⟩ := h.sys.armed (by rw [hpc]; trivial)
    exact hwm ▸ hpos
  · have htimed : (w.timedOut || w.sys.waiter.atCheck && w.sys.timeOver) = false := by
      rw [h.busy (by rw [hpc]; rfl), hpc]
      rfl
    rw [htimed, hpc]
    have htime := h.time
    rw [hpc] at htime
    refine ⟨hsys, h.low, htime, nofun, fun m hm => ?_, nofun, fun _ _ => rfl, fun _ => nofun⟩
    cases hm
    exact Or.inl (h.enough n hpc)
  · have htimed : (w.timedOut || w.sys.waiter.atCheck && w.sys.timeOver) = false := by
      rw [h.busy hcont.before, hcont.notLate]
      rfl
    rw [htimed]
    have htime := h.time
    have hmore := hcont.time
    have hafter : ∀ {p : Prop}, s.waiter.over = true → p := fun ht =>
      absurd (hcont.after.symm.trans ht) (by decide)
    refine ⟨hsys, hcont.low, ?_, hcont.enough, fun m hm => hafter ?_, fun _ => rfl, fun ho => hafter ho,
      fun ho => hafter ho⟩
    · dsimp only
      split
      · next hpoll =>
          rw [if_pos hpoll] at hmore
          push_cast
          rw [Int.mul_add]
          omega
      · next hpoll =>
          rw [if_neg hpoll] at hmore
          omega
    · rw [hm]
      rfl

theorem Watched.called_inv (hinv : Outring.Inv s) (htime : s.totalTime = 0)
    (hpc : s.waiter = .storeWm ∨ s.waiter = .failed) (outside : Bool) :
    Watched.Inv ⟨s, 0, false, outside⟩ := by
  have hbusy : s.waiter.over = false ∧ s.waiter.unaccounted = 0 := by
    rcases hpc with h | h <;> rw [h] <;> exact ⟨rfl, rfl⟩
  constructor
  case sys => exact hinv
  case low =>
    rw [htime]
    decide
  case time =>
    rw [htime, hbusy.2]
    exact Int.le_refl 0
  case enough =>
    intro n hn
    rw [hn] at hpc
    rcases hpc with h | h <;> cases h
  case returned =>
    intro n hn
    rw [hn] at hpc
    rcases hpc with h | h <;> cases h
  case busy => exact fun _ => rfl
  case off => exact fun hover => absurd (hbusy.1.symm.trans hover) (by decide)
  case stays => exact fun _ h => nomatch h

/-- What the poller and the other threads leave alone. -/
structure SameCall (s s' : Sys) : Prop where
  eventHighWm : s'.eventHighWm = s.eventHighWm
  mincount : s'.mincount = s.mincount
  timeout : s'.timeout = s.timeout
  totalTime : s'.totalTime = s.totalTime
  waiter : s'.waiter = s.waiter

theorem Watched.Inv.sameCall (h : w.Inv) (hs : SameCall w.sys s) (hinv : Outring.Inv s)
    (outside : Bool) : Watched.Inv { w with sys := s, outside := outside } := by
  have hover : s.timeOver = w.sys.timeOver := by
    rw [Sys.timeOver, hs.timeout, hs.totalTime]
    rfl
  constructor
  case sys => exact hinv
  case low => exact hs.totalTime ▸ h.low
  case time =>
    rw [hs.totalTime, hs.waiter]
    exact h.time
  case enough =>
    rw [hs.waiter, hs.mincount]
    exact h.enough
  case returned =>
    rw [hs.waiter, hs.mincount, hover]
    exact h.returned
  case busy => exact hs.waiter ▸ h.busy
  case off =>
    rw [hs.waiter, hs.eventHighWm]
    exact h.off
  case stays =>
    rw [hs.waiter, hs.eventHighWm]
    exact h.stays

theorem pushStep_cases {s s' : Sys} (hs : pushStep s = some s') :
    SameCall s s' ∧ (s'.poller.notifying = true → s.poller.notifying = true ∨ 0 < s.eventHighWm) := by
  cases hpc : s.poller <;> simp only [pushStep, hpc] at hs
  case idle => cases hs
  case enqueue io =>
    split at hs <;> cases hs
    · exact ⟨⟨rfl, rfl, rfl, rfl, rfl⟩, by rintro ⟨⟩⟩
    · exact ⟨⟨rfl, rfl, rfl, rfl, rfl⟩, by rintro ⟨⟩⟩
  case loadWm =>
    split at hs
    · next hpos =>
        cases hs
        exact ⟨⟨rfl, rfl, rfl, rfl, rfl⟩, fun _ => Or.inr hpos⟩
    · cases hs
      exact ⟨⟨rfl, rfl, rfl, rfl, rfl⟩, by rintro ⟨⟩⟩
  case loadWmAgain =>
    cases hs
    exact ⟨⟨rfl, rfl, rfl, rfl, rfl⟩, fun _ => Or.inl rfl⟩
  case loadCount wm =>
    split at hs <;> cases hs
    · exact ⟨⟨rfl, rfl, rfl, rfl, rfl⟩, fun _ => Or.inl rfl⟩
    · exact ⟨⟨rfl, rfl, rfl, rfl, rfl⟩, by rintro ⟨⟩⟩
  case writeFd =>
    split at hs <;> cases hs
    · exact ⟨⟨rfl, rfl, rfl, rfl, rfl⟩, by rintro ⟨⟩⟩
    · exact ⟨⟨rfl, rfl, rfl, rfl, rfl⟩, by rintro ⟨⟩⟩
  case failed => cases hs

theorem Watched.Inv.step {e : Event} (h : w.Inv) (hs : w.step e = some w') : w'.Inv := by
  obtain ⟨s, hsys, hw⟩ := Option.bind_eq_some_iff.mp hs
  have hinv := step_inv h.sys hsys
  cases e with
  | call mincount timeout =>
      cases hw
      simp only [Outring.step] at hsys
      split at hsys
      · cases hsys
        by_cases hpos : 0 < mincount
        · rw [if_pos hpos] at hinv ⊢
          exact Watched.called_inv hinv rfl (Or.inl rfl) w.outside
        · rw [if_neg hpos] at hinv ⊢
          exact Watched.called_inv hinv rfl (Or.inr rfl) w.outside
      · cases hsys
  | waiter r =>
      cases hw
      exact h.waiter hsys
  | push io =>
      cases hw
      simp only [Outring.step] at hsys
      split at hsys
      · cases hsys
        have hsame : SameCall w.sys { w.sys with poller := .enqueue io } := ⟨rfl, rfl, rfl, rfl, rfl⟩
        exact h.sameCall hsame hinv w.sys.waiter.over
      · cases hsys
  | poller =>
      cases hw
      exact h.sameCall (pushStep_cases hsys).1 hinv w.outside
  | getCompleted =>
      cases hw
      cases hsys
      have hsame : SameCall w.sys { w.sys with outring := w.sys.outring.tail } :=
        ⟨rfl, rfl, rfl, rfl, rfl⟩
      exact h.sameCall hsame hinv w.outside

theorem Watched.path_inv {es : List Event}
    (hrun : Watched.machine.Path (fun _ _ => True) Watched.init es w) : w.Inv :=
  hrun.invariant (I := Watched.Inv) (fun _ _ _ h _ hs => h.step hs) Watched.init_inv

/-! ## Pushes that are not overtaken -/

/-- A push that has started outside a call goes on. -/
def Watched.pushingOutside (w : Watched) : Bool := w.outside && w.sys.poller != .idle

/-- No call returns because its time is over, and none begins during a push that has started
outside a call. -/
def Watched.Timely (w : Watched) : Event → Prop
  | .call _ _ => w.pushingOutside = false
  | .waiter _ => (w.sys.waiter.atCheck && w.sys.timeOver) = false
  | _ => True

instance (w : Watched) (e : Event) : Decidable (w.Timely e) :=
  match e with
  | .call _ _ => inferInstanceAs (Decidable (_ = _))
  | .waiter _ => inferInstanceAs (Decidable (_ = _))
  | .push _ => isTrue trivial
  | .poller => isTrue trivial
  | .getCompleted => isTrue trivial

/-- The push finds no watermark, and no call is in progress until it ends. -/
structure Watched.Quiet (w : Watched) : Prop where
  inv : w.Inv
  timedOut : w.timedOut = false
  push : w.pushingOutside = true → w.sys.waiter.over = true ∧ w.sys.poller.notifying = false

theorem Watched.init_quiet : Watched.init.Quiet := ⟨Watched.init_inv, rfl, nofun⟩

theorem waiterStep_busy {r : PollResult} {s s' : Sys} (hs : waiterStep s r = some s') :
    s.waiter.over = false := by
  cases hpc : s.waiter with
  | idle => simp [waiterStep, hpc] at hs
  | returned n => simp [waiterStep, hpc] at hs
  | storeWm => rfl
  | loadCount => rfl
  | checkTime n => rfl
  | poll => rfl
  | readFd => rfl
  | recount => rfl
  | disarm n => rfl
  | failed => rfl

theorem waiterStep_poller {r : PollResult} {s s' : Sys} (hs : waiterStep s r = some s') :
    s'.poller = s.poller := by
  unfold waiterStep at hs
  repeat' split at hs
  all_goals cases hs <;> rfl

theorem Watched.Quiet.step {e : Event} (h : w.Quiet) (hok : w.Timely e) (hs : w.step e = some w') :
    w'.Quiet := by
  have hinv := h.inv.step hs
  obtain ⟨s, hsys, hw⟩ := Option.bind_eq_some_iff.mp hs
  cases e with
  | call mincount timeout =>
      cases hw
      simp only [Outring.step] at hsys
      split at hsys
      · cases hsys
        -- the call begins between two pushes, or during one that a call has seen begin
        exact ⟨hinv, rfl, fun hpush => absurd (hok.symm.trans hpush) Bool.false_ne_true⟩
      · cases hsys
  | waiter r =>
      cases hw
      refine ⟨hinv, ?_, fun hpush => ?_⟩
      · show (w.timedOut || w.sys.waiter.atCheck && w.sys.timeOver) = false
        rw [h.timedOut, show (w.sys.waiter.atCheck && w.sys.timeOver) = false from hok]
        rfl
      · have hsame : s.poller = w.sys.poller := waiterStep_poller hsys
        have hbefore : w.pushingOutside = true := by
          rw [Watched.pushingOutside, ← hsame]
          exact hpush
        exact absurd ((waiterStep_busy hsys).symm.trans (h.push hbefore).1) Bool.false_ne_true
  | push io =>
      cases hw
      simp only [Outring.step] at hsys
      split at hsys
      · cases hsys
        refine ⟨hinv, h.timedOut, fun hpush => ⟨?_, rfl⟩⟩
        exact (Bool.and_eq_true_iff.mp hpush).1
      · cases hsys
  | poller =>
      cases hw
      obtain ⟨hsame, hnotify⟩ := pushStep_cases hsys
      refine ⟨hinv, h.timedOut, fun hpush => ?_⟩
      have hbefore : w.pushingOutside = true := by
        refine Bool.and_eq_true_iff.mpr ⟨(Bool.and_eq_true_iff.mp hpush).1, ?_⟩
        refine bne_iff_ne.mpr fun hidle => ?_
        have hnone : pushStep w.sys = none := by simp [pushStep, hidle]
        rw [show pushStep w.sys = some s from hsys] at hnone
        cases hnone
      obtain ⟨hover, hquiet⟩ := h.push hbefore
      refine ⟨hsame.waiter ▸ hover, Bool.eq_false_iff.mpr fun hn => ?_⟩
      rcases hnotify hn with hagain | hpos
      · exact Bool.eq_false_iff.mp hquiet hagain
      · rw [h.inv.off hover h.timedOut] at hpos
        exact Int.lt_irrefl 0 hpos
  | getCompleted =>
      cases hw
      cases hsys
      exact ⟨hinv, h.timedOut, h.push⟩

/-! ## Returns and the watermark -/

/-- The call has returned what was asked for, or after its time. -/
def Watched.Returns (w : Watched) : Prop :=
  ∀ n, w.sys.waiter = .returned n →
    w.sys.mincount ≤ n ∨ 0 ≤ w.sys.timeout ∧ w.sys.timeout ≤ delay * w.polls

/-- What is wanted in every state. -/
structure Watched.Disarmed (w : Watched) : Prop where
  returns : w.Returns
  off : w.sys.waiter.over = true → w.sys.eventHighWm = 0
  silent : w.outside = true → w.sys.poller ≠ .writeFd

theorem Watched.Inv.returns (h : w.Inv) : w.Returns := by
  intro n hn
  refine (h.returned n hn).imp_right fun hlate => ?_
  have htime := h.time
  rw [hn] at htime
  simp only [Sys.timeOver, Bool.and_eq_true, decide_eq_true_eq] at hlate
  refine ⟨hlate.1, Int.le_trans hlate.2 ?_⟩
  simpa [WaitPc.unaccounted] using htime

theorem Watched.Quiet.disarmed (h : w.Quiet) : w.Disarmed := by
  refine ⟨h.inv.returns, fun hover => h.inv.off hover h.timedOut, fun hout hwrite => ?_⟩
  have hpush : w.pushingOutside = true := by
    rw [Watched.pushingOutside, hout, hwrite]
    rfl
  have hquiet := (h.push hpush).2
  rw [hwrite] at hquiet
  cases hquiet

/-- In every run a call returns a count that is enough, or after its time, and while no call
is in progress the watermark is 0 if and only if the last call has not returned because its
time was over. If no call of the run does so, and none begins during a push that has started
outside a call, then the watermark is 0 while no call is in progress, and no push that has
started outside a call writes an event. -/
theorem watermark_off_iff {es : List Event}
    (hrun : Watched.machine.Path (fun _ _ => True) Watched.init es w) :
    w.Returns ∧
    (w.sys.waiter.over = true → (w.sys.eventHighWm = 0 ↔ w.timedOut = false)) ∧
    (Watched.machine.Path Watched.Timely Watched.init es w → w.Disarmed) := by
  have h := Watched.path_inv hrun
  refine ⟨h.returns, fun hover => ⟨fun hwm => ?_, h.off hover⟩, fun htimely => ?_⟩
  · refine Bool.eq_false_iff.mpr fun htimed => ?_
    have hpos := h.stays hover htimed
    rw [hwm] at hpos
    exact Int.lt_irrefl 0 hpos
  · have hquiet : w.Quiet := htimely.invariant (I := Watched.Quiet) (fun _ _ _ h hok hs => h.step hok hs)
      Watched.init_quiet
    exact hquiet.disarmed

/-- A call polls once and times out after `poll` has waited. -/
def lateSchedule : List Event :=
  [.call 1 100, .waiter .ready, .waiter .ready, .waiter .ready, .waiter .timeout, .waiter .ready,
    .waiter .ready]

/-- A call sleeps, is woken by a push and returns; after it a push starts and finds no watermark. -/
def wokenSchedule : List Event :=
  [.call 1 (-1), .waiter .ready, .waiter .ready, .waiter .ready] ++
    [.push 7, .poller, .poller, .poller, .poller, .poller] ++
    [.waiter .ready, .waiter .ready, .waiter .ready, .waiter .ready] ++ [.push 8, .poller]

theorem watermark_off_iff_runs :
    (∃ w, Watched.machine.Path (fun _ _ => True) Watched.init lateSchedule w ∧
      w.sys.waiter = .returned 0 ∧ w.sys.mincount = 1 ∧ w.sys.eventHighWm = 1 ∧
      w.sys.timeout ≤ delay * w.polls) ∧
    ∃ w, Watched.machine.Path Watched.Timely Watched.init wokenSchedule w ∧
      w.sys.waiter = .returned 1 ∧ w.outside = true ∧ w.sys.poller = .loadWm ∧
      w.sys.mincount ≤ 1 ∧ w.sys.eventHighWm = 0 ∧ w.sys.poller ≠ .writeFd := by
  constructor
  · have hany : (Watched.machine.execIf (fun _ _ => true) Watched.init lateSchedule).any
        (fun w => w.sys.waiter == .returned 0 && w.sys.mincount == 1 && w.sys.eventHighWm == 1) =
          true := by
      decide
    obtain ⟨w, hrun, hw⟩ := Machine.Path.of_check (fun _ _ _ => trivial) hany
    simp only [Bool.and_eq_true, beq_iff_eq] at hw
    obtain ⟨⟨hpc, hmin⟩, hwm⟩ := hw
    refine ⟨w, hrun, hpc, hmin, hwm, ?_⟩
    rcases (watermark_off_iff hrun).1 0 hpc with henough | hlate
    · rw [hmin] at henough
      exact absurd henough (by decide)
    · exact hlate.2
  · have hany : (Watched.machine.execIf (fun w e => decide (w.Timely e)) Watched.init wokenSchedule).any
        (fun w => w.sys.waiter == .returned 1 && w.outside && w.sys.poller == .loadWm &&
          w.sys.timeout == -1) = true := by
      decide
    obtain ⟨w, hrun, hw⟩ := Machine.Path.of_check (fun _ _ h => of_decide_eq_true h) hany
    simp only [Bool.and_eq_true, beq_iff_eq] at hw
    obtain ⟨⟨⟨hpc, hout⟩, hpoll⟩, htimeout⟩ := hw
    obtain ⟨hreturns, hoff, hdisarmed⟩ := watermark_off_iff (hrun.mono fun _ _ _ => trivial)
    have hwatched := hdisarmed hrun
    refine ⟨w, hrun, hpc, hout, hpoll, ?_, hwatched.off (by rw [hpc]; rfl), hwatched.silent hout⟩
    rcases hwatched.returns 1 hpc with henough | hlate
    · exact henough
    · rw [htimeout] at hlate
      exact absurd hlate.1 (by decide)

/-- A call times out at once, and the next push writes an event that nobody waits for. -/
def timedOutSchedule : List Event :=
  [.call 1 0, .waiter .ready, .waiter .ready, .waiter .ready] ++
    [.push 7, .poller, .poller, .poller, .poller]

/-- A push starts before any call, and a call begins before it looks for a watermark. -/
def overtakenSchedule : List Event :=
  [.push 7, .poller] ++ [.call 1 (-1), .waiter .ready] ++ [.poller, .poller, .poller]

theorem watermark_left_armed :
    (∃ w, Watched.machine.Path (fun _ _ => True) Watched.init timedOutSchedule w ∧
      w.sys.waiter = .returned 0 ∧ w.sys.eventHighWm = 1 ∧ w.outside = true ∧
      w.sys.poller = .writeFd ∧ ¬ w.Disarmed) ∧
    ∃ w, Watched.machine.Path (fun _ _ => True) Watched.init overtakenSchedule w ∧
      w.timedOut = false ∧ w.outside = true ∧ w.sys.poller = .writeFd ∧ ¬ w.Disarmed := by
  constructor
  · have hany : (Watched.machine.execIf (fun _ _ => true) Watched.init timedOutSchedule).any
        (fun w => w.sys.waiter == .returned 0 && w.sys.eventHighWm == 1 && w.outside &&
          w.sys.poller == .writeFd) = true := by
      decide
    obtain ⟨w, hrun, hw⟩ := Machine.Path.of_check (fun _ _ _ => trivial) hany
    simp only [Bool.and_eq_true, beq_iff_eq] at hw
    obtain ⟨⟨⟨hpc, hwm⟩, hout⟩, hpoll⟩ := hw
    exact ⟨w, hrun, hpc, hwm, hout, hpoll, fun h => h.silent hout hpoll⟩
  · have hany : (Watched.machine.execIf (fun _ _ => true) Watched.init overtakenSchedule).any
        (fun w => !w.timedOut && w.outside && w.sys.poller == .writeFd) = true := by
      decide
    obtain ⟨w, hrun, hw⟩ := Machine.Path.of_check (fun _ _ _ => trivial) hany
    simp only [Bool.and_eq_true, beq_iff_eq, Bool.not_eq_true'] at hw
    obtain ⟨⟨htimed, hout⟩, hpoll⟩ := hw
    exact ⟨w, hrun, htimed, hout, hpoll, fun h => h.silent hout hpoll⟩

end VhostUser.Outring
