import VhostUser.Lib.Ranking
import VhostUser.Poller.Adaptive

/-! # The poller delivers and comes to its end

The poller reaps an entry of the used ring after a number of its own steps that depends on the
entries before it alone. This holds of every run, also of those with a blind switch: `poll` and
`usleep` end by themselves, so what such a switch costs is one timeout. After
`vring_poller_stop` the poller ends within a similar number of steps, as long as the device
does not keep it busy.
-/

namespace VhostUser.PollLoop

open VhostUser.Lib VhostUser.Ring

variable {s s' t : Sys} {iopsHigh : Nat} {e : Event}

/-- The steps of the poller, with those that wait for the system. -/
def Event.ofPoller : Event → Bool
  | .poller => true
  | .clock _ => true
  | .wake _ => true
  | _ => false

/-! ## What holds in every run -/

structure Exact (s : Sys) : Prop where
  counters : Counters s.usedIdx s.lastUsedIdx s.used s.reaped s.pending
  entry : s.pc = .reap → s.reaped < s.used
  ended : s.pc = .exited → s.self.finish = true

theorem init_exact : Exact init :=
  ⟨init_inv.counters, fun hpc => (by cases hpc), fun hpc => (by cases hpc)⟩

theorem Exact.empty_iff (h : Exact s) :
    s.lastUsedIdx &&& mask = s.usedIdx &&& mask ↔ s.reaped = s.used := by
  have hinv : Inv { s with pc := .checkEnd, availFlags := flagsOf s.self.sleepyPoll } :=
    ⟨h.counters, fun hpc => (by cases hpc), rfl, fun hpc => hpc.elim⟩
  exact hinv.empty_iff

/-- Where the poller is on its way from the empty ring to the next round. -/
def LoopPc.rest : LoopPc → Nat
  | .clock => 6
  | .setFlags => 5
  | .clearFlags => 5
  | .wait => 4
  | .poll => 3
  | .readFd => 2
  | .usleep => 2
  | .checkEnd => 1
  | .loadUsedIdx => 0
  | .reap => 0
  | .exited => 0

structure SameRing (s s' : Sys) : Prop where
  usedIdx : s'.usedIdx = s.usedIdx
  lastUsedIdx : s'.lastUsedIdx = s.lastUsedIdx
  used : s'.used = s.used
  reaped : s'.reaped = s.reaped
  pending : s'.pending = s.pending
  finish : s'.self.finish = s.self.finish

theorem SameRing.counters (h : SameRing s s')
    (hc : Counters s.usedIdx s.lastUsedIdx s.used s.reaped s.pending) :
    Counters s'.usedIdx s'.lastUsedIdx s'.used s'.reaped s'.pending := by
  rw [h.usedIdx, h.lastUsedIdx, h.used, h.reaped, h.pending]
  exact hc

inductive Goes (s s' : Sys) : Prop where
  | enter (hpc : s.pc = .checkEnd) (hgo : s.self.finish = false) (hpc' : s'.pc = .loadUsedIdx)
      (hsame : SameRing s s')
  | leave (hpc : s.pc = .checkEnd) (hend : s.self.finish = true) (hpc' : s'.pc = .exited)
      (hsame : SameRing s s')
  | found (hpc : s.pc = .loadUsedIdx) (hlt : s.reaped < s.used) (hpc' : s'.pc = .reap)
      (hsame : SameRing s s')
  | drained (hpc : s.pc = .loadUsedIdx) (heq : s.reaped = s.used) (hpc' : s'.pc = .clock)
      (hsame : SameRing s s')
  | reap (hpc : s.pc = .reap) (hpc' : s'.pc = .loadUsedIdx) (hsame : SameRing { s with
      lastUsedIdx := (s.lastUsedIdx + 1) % 2 ^ 16, reaped := s.reaped + 1 } s')
  /-- from the clock to the next test of `end` -/
  | rests (hpos : 0 < s'.pc.rest) (hlt : s'.pc.rest < s.pc.rest) (hsame : SameRing s s')

theorem chooseMode_rest (iopsHigh : Nat) (p : VringPoller) :
    0 < (chooseMode iopsHigh p).2.rest ∧ (chooseMode iopsHigh p).2.rest < 6 := by
  rcases chooseMode_cases iopsHigh p with ⟨-, heq⟩ | ⟨-, heq⟩ | heq <;> simp [heq, LoopPc.rest]

theorem clockStep_rest (iopsHigh : Nat) (s : Sys) (now : Nat) :
    0 < (clockStep iopsHigh s now).pc.rest ∧ (clockStep iopsHigh s now).pc.rest < 6 := by
  unfold clockStep
  split
  · exact chooseMode_rest iopsHigh _
  · simp [LoopPc.rest]

theorem adapt_finish (p : VringPoller) (perSec : Nat) : (adapt p perSec).finish = p.finish := by
  unfold adapt
  by_cases hsleepy : p.sleepyPoll = true
  · simp only [if_pos hsleepy]
    unfold evalPerformance
    by_cases hzero : p.iops = 0 ∨ perSec = 0
    · simp only [if_pos hzero]
    · simp only [if_neg hzero]
  · simp only [if_neg hsleepy]

theorem chooseMode_finish (iopsHigh : Nat) (p : VringPoller) :
    (chooseMode iopsHigh p).1.finish = p.finish := by
  rcases chooseMode_cases iopsHigh p with ⟨-, heq⟩ | ⟨-, heq⟩ | heq <;> rw [heq]

theorem clockStep_ring (s : Sys) (now : Nat) : SameRing s (clockStep iopsHigh s now) := by
  unfold clockStep
  split
  · refine ⟨rfl, rfl, rfl, rfl, rfl, ?_⟩
    dsimp only
    rw [chooseMode_finish, adapt_finish]
  · exact ⟨rfl, rfl, rfl, rfl, rfl, rfl⟩

theorem pollerStep_goes (h : Exact s) (hs : pollerStep s = some s') : Goes s s' := by
  cases hpc : s.pc <;> simp only [pollerStep, hpc] at hs
  case checkEnd =>
    split at hs <;> cases hs
    · next hend => exact .leave hpc hend rfl ⟨rfl, rfl, rfl, rfl, rfl, rfl⟩
    · next hgo => exact .enter hpc (Bool.not_eq_true _ ▸ hgo) rfl ⟨rfl, rfl, rfl, rfl, rfl, rfl⟩
  case loadUsedIdx =>
    split at hs <;> cases hs
    · next heq => exact .drained hpc (h.empty_iff.mp heq) rfl ⟨rfl, rfl, rfl, rfl, rfl, rfl⟩
    · next hne =>
        have hlt := Nat.lt_of_le_of_ne h.counters.le fun heq => hne (h.empty_iff.mpr heq)
        exact .found hpc hlt rfl ⟨rfl, rfl, rfl, rfl, rfl, rfl⟩
  case reap =>
    cases hs
    exact .reap hpc rfl ⟨rfl, rfl, rfl, rfl, rfl, rfl⟩
  case wait =>
    split at hs <;> cases hs <;>
      exact .rests (by simp [LoopPc.rest]) (by simp [LoopPc.rest, hpc]) ⟨rfl, rfl, rfl, rfl, rfl, rfl⟩
  case setFlags | clearFlags | readFd | usleep =>
    cases hs
    exact .rests (by simp [LoopPc.rest]) (by simp [LoopPc.rest, hpc]) ⟨rfl, rfl, rfl, rfl, rfl, rfl⟩
  case clock | poll | exited => cases hs

theorem step_goes (h : Exact s) (he : e.ofPoller = true) (hs : step iopsHigh s e = some s') :
    Goes s s' := by
  cases e with
  | poller => exact pollerStep_goes h hs
  | clock now =>
      simp only [step] at hs
      split at hs
      · next hpc =>
          cases hs
          obtain ⟨hpos, hlt⟩ := clockStep_rest iopsHigh s now
          exact .rests hpos (by rwa [hpc]) (clockStep_ring s now)
      · cases hs
  | wake r =>
      simp only [step] at hs
      split at hs
      · next hpc =>
          cases r <;> simp only at hs
          case error =>
            cases hs
            exact .rests (by simp [LoopPc.rest]) (by simp [LoopPc.rest, hpc]) ⟨rfl, rfl, rfl, rfl, rfl, rfl⟩
          case timeout | ready =>
            split at hs <;> cases hs
            exact .rests (by simp [LoopPc.rest]) (by simp [LoopPc.rest, hpc]) ⟨rfl, rfl, rfl, rfl, rfl, rfl⟩
      · cases hs
  | put | publish | decide | stop | stopEvent | start => cases he

theorem SameRing.exact (hsame : SameRing s s')
    (hc : Counters s.usedIdx s.lastUsedIdx s.used s.reaped s.pending)
    (hentry : s'.pc = .reap → s.reaped < s.used)
    (hended : s'.pc = .exited → s.self.finish = true) : Exact s' := by
  refine ⟨hsame.counters hc, fun hr => ?_, fun hx => hsame.finish.trans (hended hx)⟩
  rw [hsame.used, hsame.reaped]
  exact hentry hr

theorem Goes.exact (h : Exact s) (hg : Goes s s') : Exact s' := by
  cases hg with
  | enter _ _ hpc' hsame => exact hsame.exact h.counters (by simp [hpc']) (by simp [hpc'])
  | leave _ hend hpc' hsame => exact hsame.exact h.counters (by simp [hpc']) fun _ => hend
  | found _ hlt hpc' hsame => exact hsame.exact h.counters (fun _ => hlt) (by simp [hpc'])
  | drained _ _ hpc' hsame => exact hsame.exact h.counters (by simp [hpc']) (by simp [hpc'])
  | reap hpc hpc' hsame =>
      have hlt := h.entry hpc
      have hroom := h.counters.room
      refine hsame.exact ⟨h.counters.usedIdx, ?_, hlt, ?_⟩ (by simp [hpc']) (by simp [hpc'])
      · show (s.lastUsedIdx + 1) % 2 ^ 16 = (s.reaped + 1) % 2 ^ 16
        rw [h.counters.lastUsedIdx, Nat.mod_add_mod]
      · show s.pending + (s.used - (s.reaped + 1)) ≤ maxTasks
        omega
  | rests hpos _ hsame =>
      refine hsame.exact h.counters (fun hr => ?_) fun hx => ?_
      · rw [hr] at hpos
        cases hpos
      · rw [hx] at hpos
        cases hpos

theorem step_exact (h : Exact s) (hs : step iopsHigh s e = some s') : Exact s' := by
  have hc := h.counters
  cases e with
  | poller => exact (step_goes h rfl hs).exact h
  | clock now => exact (step_goes h rfl hs).exact h
  | wake r => exact (step_goes h rfl hs).exact h
  | put =>
      simp only [step] at hs
      split at hs <;> cases hs
      next hroom =>
        refine ⟨⟨hc.usedIdx, hc.lastUsedIdx, hc.le, ?_⟩, h.entry, h.ended⟩
        show s.pending + 1 + (s.used - s.reaped) ≤ maxTasks
        omega
  | publish =>
      simp only [step] at hs
      split at hs <;> cases hs
      next hpend =>
        have hroom := hc.room
        have hle := hc.le
        refine ⟨⟨?_, hc.lastUsedIdx, Nat.le_succ_of_le hle, ?_⟩,
          fun hr => Nat.lt_succ_of_lt (h.entry hr), h.ended⟩
        · show (s.usedIdx + 1) % 2 ^ 16 = (s.used + 1) % 2 ^ 16
          rw [hc.usedIdx, Nat.mod_add_mod]
        · show s.pending - 1 + (s.used + 1 - s.reaped) ≤ maxTasks
          omega
  | decide | stopEvent =>
      simp only [step] at hs
      split at hs <;> cases hs
      exact ⟨hc, h.entry, h.ended⟩
  | stop =>
      cases hs
      exact ⟨hc, h.entry, fun _ => rfl⟩
  | start =>
      simp only [step] at hs
      split at hs <;> cases hs
      exact ⟨hc, fun hr => (by cases hr), fun hx => (by cases hx)⟩

theorem path_exact {ok : Sys → Event → Prop} {es : List Event}
    (hrun : (machine iopsHigh).Path ok init es s) : Exact s :=
  hrun.invariant (I := Exact) (fun _ _ _ h _ hs => step_exact h hs) init_exact

/-- A step of somebody else; the device may publish an entry. -/
structure Elsewhere (e : Event) (s s' : Sys) : Prop where
  pc : s'.pc = s.pc
  reaped : s'.reaped = s.reaped
  used : s'.used = s.used + [e].count .publish
  finish : e ≠ .stop → s'.self.finish = s.self.finish
  stopped : s.self.finish = true → s'.self.finish = true

theorem step_elsewhere (he : e.ofPoller = false) (hne : e ≠ .start)
    (hs : step iopsHigh s e = some s') : Elsewhere e s s' := by
  cases e with
  | poller | clock now | wake r => cases he
  | put | decide | stopEvent | publish =>
      simp only [step] at hs
      split at hs <;> cases hs
      exact ⟨rfl, rfl, rfl, fun _ => rfl, id⟩
  | stop =>
      cases hs
      exact ⟨rfl, rfl, rfl, fun hstop => absurd rfl hstop, fun _ => rfl⟩
  | start => exact absurd rfl hne

theorem Goes.finish (hg : Goes s s') : s'.self.finish = s.self.finish := by
  cases hg with
  | enter _ _ _ hsame | leave _ _ _ hsame | found _ _ _ hsame | drained _ _ _ hsame
  | rests _ _ hsame => exact hsame.finish
  | reap _ _ hsame => exact hsame.finish

theorem Goes.used (hg : Goes s s') : s'.used = s.used := by
  cases hg with
  | enter _ _ _ hsame | leave _ _ _ hsame | found _ _ _ hsame | drained _ _ _ hsame
  | rests _ _ hsame => exact hsame.used
  | reap _ _ hsame => exact hsame.used

theorem Goes.reaped_le (hg : Goes s s') : s.reaped ≤ s'.reaped := by
  cases hg with
  | enter _ _ _ hsame | leave _ _ _ hsame | found _ _ _ hsame | drained _ _ _ hsame
  | rests _ _ hsame => exact Nat.le_of_eq hsame.reaped.symm
  | reap _ _ hsame => exact Nat.le_trans (Nat.le_succ _) (Nat.le_of_eq hsame.reaped.symm)

/-! ## Delivery -/

/-- How far the poller is from a look at the used ring. -/
def LoopPc.toDrain : LoopPc → Nat
  | .reap => 0
  | .loadUsedIdx => 1
  | .exited => 0
  | pc => pc.rest + 1

theorem toDrain_of_rest {pc : LoopPc} (h : 0 < pc.rest) : pc.toDrain = pc.rest + 1 := by
  cases pc <;> first | rfl | cases h

theorem toDrain_le (pc : LoopPc) : pc.toDrain ≤ 7 := by
  cases pc <;> decide

theorem Exact.not_start (h : Exact s) (hgo : s.self.finish = false)
    (hs : step iopsHigh s e = some s') : e ≠ .start := by
  rintro rfl
  simp only [step] at hs
  split at hs
  · next hpc =>
      rw [h.ended hpc] at hgo
      cases hgo
  · cases hs

/-- While it is not told to end, the poller comes closer to entry `k` with each of its steps. -/
theorem delivery_ranking (iopsHigh k : Nat) : (machine iopsHigh).Ranking (fun _ e => e ≠ .stop)
    (fun s => Exact s ∧ s.self.finish = false ∧ k ≤ s.used) Event.ofPoller (fun s => k ≤ s.reaped)
    (fun s => 2 * (k - 1 - s.reaped) + s.pc.toDrain) (fun _ _ => 0) where
  keeps s e s' h hok hs := by
    obtain ⟨hx, hgo, hk⟩ := h
    refine ⟨step_exact hx hs, ?_⟩
    by_cases he : e.ofPoller = true
    · have hg := step_goes hx he hs
      exact ⟨hg.finish.trans hgo, hg.used ▸ hk⟩
    · have ho := step_elsewhere (Bool.not_eq_true _ ▸ he) (hx.not_start hgo hs) hs
      exact ⟨(ho.finish hok).trans hgo, ho.used ▸ Nat.le_add_right_of_le hk⟩
  stays s e s' h hok hs hdone := by
    by_cases he : e.ofPoller = true
    · exact Nat.le_trans hdone (step_goes h.1 he hs).reaped_le
    · have ho := step_elsewhere (Bool.not_eq_true _ ▸ he) (h.1.not_start h.2.1 hs) hs
      exact ho.reaped ▸ hdone
  own s e s' h hok hs he hdone := by
    cases step_goes h.1 he hs with
    | enter hpc hgo hpc' hsame =>
        rw [hpc, hpc', hsame.reaped]
        exact Nat.le_refl _
    | leave hpc hend hpc' hsame =>
        rw [h.2.1] at hend
        cases hend
    | found hpc hlt hpc' hsame =>
        rw [hpc, hpc', hsame.reaped]
        exact Nat.le_refl _
    | drained hpc heq hpc' hsame =>
        -- all entries are reaped, entry `k` among them
        rw [hsame.reaped, heq] at hdone
        exact absurd h.2.2 hdone
    | reap hpc hpc' hsame =>
        have hreaped : s'.reaped = s.reaped + 1 := hsame.reaped
        rw [hreaped] at hdone
        rw [hpc, hpc', hreaped]
        simp only [LoopPc.toDrain]
        omega
    | rests hpos hlt hsame =>
        rw [toDrain_of_rest hpos, toDrain_of_rest (Nat.lt_trans hpos hlt), hsame.reaped]
        omega
  other s e s' h hok hs he hdone := by
    have ho := step_elsewhere (Bool.not_eq_true _ ▸ he) (h.1.not_start h.2.1 hs) hs
    rw [ho.pc, ho.reaped]
    exact Nat.le_refl _

/-- The poller is never stuck: what it waits for comes to an end by itself. -/
theorem poller_canStep (iopsHigh : Nat) (s : Sys) (hpc : s.pc ≠ .exited) :
    ∃ e s', e.ofPoller = true ∧ step iopsHigh s e = some s' := by
  cases h : s.pc with
  | exited => exact absurd h hpc
  | clock => exact ⟨.clock 0, _, rfl, if_pos h⟩
  | poll =>
      by_cases hfd : s.callfd = 0
      · exact ⟨.wake .timeout, { s with pc := .checkEnd }, rfl, by simp [step, h, hfd]⟩
      · exact ⟨.wake .ready, { s with pc := .readFd }, rfl, by simp [step, h, hfd]⟩
  | checkEnd | loadUsedIdx | reap | setFlags | clearFlags | wait | readFd | usleep =>
      refine ⟨.poller, ?_⟩
      simp only [step, pollerStep, h]
      first | exact ⟨_, rfl, rfl⟩ | (split <;> exact ⟨_, rfl, rfl⟩)

/-- In every run, with any number of switches between the modes, blind ones included: what is in
the used ring is reaped when the poller has taken two steps for each entry and six more. -/
theorem poller_reaps {es es' : List Event}
    (hrun : (machine iopsHigh).Path (fun _ _ => True) init es s) (hgo : s.self.finish = false)
    (hrun' : (machine iopsHigh).Path (fun _ e => e ≠ .stop) s es' t)
    (henough : 2 * (s.used - s.reaped) + 5 < es'.countP Event.ofPoller) : s.used ≤ t.reaped := by
  have hrank := delivery_ranking iopsHigh s.used
  have hI : Exact s ∧ s.self.finish = false ∧ s.used ≤ s.used :=
    ⟨path_exact hrun, hgo, Nat.le_refl _⟩
  by_cases hdone : s.used ≤ s.reaped
  · exact hrank.stays_run hrun' hI hdone
  · refine hrank.reaches hrun' hI ?_
    have hle := toDrain_le s.pc
    rw [Machine.cost_zero]
    omega

/-- The device leaves an entry unannounced, the switch to events is blind, and the poller sleeps
until `poll` times out. -/
def lateSchedule : List Event :=
  [.wake .timeout, .poller, .poller, .poller, .poller, .clock 4, .poller, .wake .timeout, .poller,
    .poller]

theorem poller_reaps_late : ∃ es s, (machine defaultIopsHigh).Path (fun _ _ => True) init es s ∧
    s.pc = .poll ∧ s.callfd = 0 ∧ s.deciding = false ∧ s.used = s.reaped + 1 ∧
      ∃ t, (machine defaultIopsHigh).Path (fun _ e => e ≠ .stop) s lateSchedule t ∧
        s.used ≤ t.reaped := by
  obtain ⟨es, hes⟩ : ∃ es, (machine defaultIopsHigh).Path (fun _ _ => True) init es
      (steady 120001) := reach_steady 120001 (by decide)
  have hany : ((machine defaultIopsHigh).execIf (fun _ _ => true) (steady 120001)
      blindSwitchSchedule).any (fun s => (s.pc == .poll && s.callfd == 0 && !s.deciding &&
        s.used == s.reaped + 1 && !s.self.finish) && ((machine defaultIopsHigh).execIf
          (fun _ e => e != .stop) s lateSchedule).any fun _ => true) = true := by decide +kernel
  obtain ⟨s, hrun, hs⟩ := Machine.Path.of_check (fun _ _ _ => trivial) hany
  rw [Bool.and_eq_true] at hs
  obtain ⟨hsleep, hlate⟩ := hs
  simp only [Bool.and_eq_true, beq_iff_eq, Bool.not_eq_true'] at hsleep
  obtain ⟨⟨⟨⟨hpc, hfd⟩, hdec⟩, hleft⟩, hgo⟩ := hsleep
  obtain ⟨t, hrun', -⟩ : ∃ t, (machine defaultIopsHigh).Path (fun _ e => e ≠ .stop) s lateSchedule t ∧
      true = true := Machine.Path.of_check (fun _ _ h => by simpa using h) hlate
  refine ⟨_, s, hes.trans hrun, hpc, hfd, hdec, hleft, t, hrun', ?_⟩
  refine poller_reaps (hes.trans hrun) hgo hrun' ?_
  rw [hleft, Nat.add_sub_cancel_left]
  decide

/-! ## The end of the poller -/

/-- How far the poller is from the next test of `end`, once the ring is empty. -/
def LoopPc.toEnd : LoopPc → Nat
  | .loadUsedIdx => 6
  | .reap => 5
  | pc => pc.rest - 1

theorem toEnd_of_rest {pc : LoopPc} (h : 0 < pc.rest) : pc.toEnd = pc.rest - 1 := by
  cases pc <;> first | rfl | cases h

theorem toEnd_le (pc : LoopPc) : pc.toEnd ≤ 6 := by
  cases pc <;> decide

/-- When it is told to end, the poller comes closer to its end with each of its steps; an entry
that the device publishes meanwhile costs it two. -/
theorem end_ranking (iopsHigh : Nat) : (machine iopsHigh).Ranking (fun _ e => e ≠ .start)
    (fun s => Exact s ∧ s.self.finish = true) Event.ofPoller (fun s => s.pc = .exited)
    (fun s => 2 * (s.used - s.reaped) + s.pc.toEnd) (fun _ e => 2 * [e].count .publish) where
  keeps s e s' h hok hs := by
    refine ⟨step_exact h.1 hs, ?_⟩
    by_cases he : e.ofPoller = true
    · exact (step_goes h.1 he hs).finish.trans h.2
    · exact (step_elsewhere (Bool.not_eq_true _ ▸ he) hok hs).stopped h.2
  stays s e s' h hok hs hdone := by
    by_cases he : e.ofPoller = true
    · cases step_goes h.1 he hs with
      | enter hpc | leave hpc | found hpc | drained hpc | reap hpc =>
          rw [hdone] at hpc
          cases hpc
      | rests _ hlt =>
          rw [hdone] at hlt
          cases hlt
    · exact (step_elsewhere (Bool.not_eq_true _ ▸ he) hok hs).pc.trans hdone
  own s e s' h hok hs he hdone := by
    refine Nat.le_trans ?_ (Nat.le_add_right _ _)
    cases step_goes h.1 he hs with
    | enter hpc hgo hpc' hsame =>
        rw [h.2] at hgo
        cases hgo
    | leave hpc hend hpc' hsame => exact absurd hpc' hdone
    | found hpc hlt hpc' hsame =>
        rw [hpc, hpc', hsame.reaped, hsame.used]
        exact Nat.le_refl _
    | drained hpc heq hpc' hsame =>
        rw [hpc, hpc', hsame.reaped, hsame.used]
        exact Nat.le_refl _
    | reap hpc hpc' hsame =>
        have hlt := h.1.entry hpc
        have hused : s'.used = s.used := hsame.used
        have hreaped : s'.reaped = s.reaped + 1 := hsame.reaped
        rw [hpc, hpc', hused, hreaped]
        simp only [LoopPc.toEnd]
        omega
    | rests hpos hlt hsame =>
        rw [toEnd_of_rest hpos, toEnd_of_rest (Nat.lt_trans hpos hlt), hsame.reaped, hsame.used]
        omega
  other s e s' h hok hs he hdone := by
    have ho := step_elsewhere (Bool.not_eq_true _ ▸ he) hok hs
    rw [ho.pc, ho.reaped, ho.used]
    omega

/-- In every run: after `vring_poller_stop` has set the flag the poller ends when it has taken two
steps for each entry that is in the used ring or is published meanwhile, and seven more. -/
theorem poller_stops {es es' : List Event}
    (hrun : (machine iopsHigh).Path (fun _ _ => True) init es s) (hstop : s.self.finish = true)
    (hrun' : (machine iopsHigh).Path (fun _ e => e ≠ .start) s es' t)
    (henough : 2 * (s.used - s.reaped) + 2 * es'.count .publish + 6 <
      es'.countP Event.ofPoller) : t.pc = .exited := by
  refine (end_ranking iopsHigh).reaches hrun' ⟨path_exact hrun, hstop⟩ ?_
  have hle := toEnd_le s.pc
  rw [hrun'.cost_count]
  omega

/-- With a threshold of three completions a second: the poller has turned to sleeping and finds one
more entry when it is stopped. It reaps this one and the next, turns to events and ends. -/
def busySchedule : List Event :=
  [.put, .put, .put, .put, .publish, .decide, .publish, .decide, .publish, .decide, .publish, .decide] ++
    [.poller, .poller, .poller, .poller, .poller, .poller, .poller, .poller, .poller, .poller,
      .clock 1, .poller, .poller, .poller, .poller] ++ [.put, .put, .publish, .decide, .stop]

def stopSchedule : List Event :=
  [.poller, .publish, .poller, .stopEvent, .poller, .poller, .poller, .clock 2, .poller, .decide,
    .poller, .wake .ready, .poller, .poller]

theorem poller_stops_busy : ∃ s, (machine 3).Path (fun _ _ => True) init busySchedule s ∧
    s.used = s.reaped + 1 ∧ ∃ t, (machine 3).Path (fun _ e => e ≠ .start) s stopSchedule t ∧
      t.used = s.used + 1 ∧ t.pc = .exited := by
  have hany : ((machine 3).execIf (fun _ _ => true) init busySchedule).any (fun s =>
      (s.self.finish && s.used == s.reaped + 1) && ((machine 3).execIf
        (fun _ e => e != .start) s stopSchedule).any fun t => t.used == s.used + 1) = true := by
    decide +kernel
  obtain ⟨s, hrun, hs⟩ := Machine.Path.of_check (fun _ _ _ => trivial) hany
  simp only [Bool.and_eq_true, beq_iff_eq] at hs
  obtain ⟨⟨hstop, hleft⟩, hends⟩ := hs
  obtain ⟨t, hrun', ht⟩ : ∃ t, (machine 3).Path (fun _ e => e ≠ .start) s stopSchedule t ∧
      (t.used == s.used + 1) = true := Machine.Path.of_check (fun _ _ h => by simpa using h) hends
  refine ⟨s, hrun, hleft, t, hrun', eq_of_beq ht, poller_stops hrun hstop hrun' ?_⟩
  rw [hleft, Nat.add_sub_cancel_left]
  decide

end VhostUser.PollLoop
