import VhostUser.Poller.Loop

/-! # The sleep interval

While there are many completions the poller sleeps for an interval that it changes once a
second. `eval_performance` goes on in the direction of its last change if the number of
completions has not dropped, and turns round if it has.
-/

namespace VhostUser.PollLoop

open VhostUser.Lib

variable {s s' : Sys} {p : VringPoller} {iopsHigh iopsOld iopsNew : Nat}

/-! ## Checked arithmetic -/

/-- A result of type `int`, unless it overflows. -/
def checkedInt (x : Int) : Option Int := if -2 ^ 31 ≤ x ∧ x < 2 ^ 31 then some x else none

def checkedDiv (a b : Int) : Option Int := if b = 0 then none else checkedInt (a.tdiv b)

/-- `eval_performance`, which gives up at a division by zero and wherever a result is not in
the range of its type. -/
def evalPerformanceChecked (p : VringPoller) (iopsOld iopsNew : Nat) : Option VringPoller :=
  let deltaSign : Int := if p.sleepDelta ≥ 0 then 1 else -1
  if iopsOld = 0 ∨ iopsNew = 0 then some p
  else do
    let diff ← checkedInt (iopsNew - iopsOld)
    let shifted ← checkedInt (diff * 2 ^ 9)
    let divisor ← checkedInt iopsOld
    let newDelta ← checkedDiv shifted divisor
    let newDelta := if newDelta = 0 then (if iopsNew ≥ iopsOld then 1 else -1) else newDelta
    let newDelta ← checkedInt (newDelta * deltaSign)
    let newDelta := if newDelta > sleepDeltaMax then sleepDeltaMax else newDelta
    let newDelta := if newDelta < -sleepDeltaMax then -sleepDeltaMax else newDelta
    let sleep ← checkedInt (p.sleep + newDelta)
    let sleep := if sleep < sleepMin then sleepMin else sleep
    let sleep := if sleep > sleepMax then sleepMax else sleep
    pure { p with sleep := sleep, sleepDelta := newDelta }

theorem checkedInt_eq {x : Int} (hlo : -2 ^ 31 ≤ x) (hhi : x < 2 ^ 31) : checkedInt x = some x :=
  if_pos ⟨hlo, hhi⟩

/-! ## The change of the interval -/

/-- The amplified change of performance, before its direction is applied. -/
def amplified (iopsOld iopsNew : Nat) : Int :=
  let newDelta := (((iopsNew : Int) - iopsOld) * 2 ^ 9).tdiv iopsOld
  if newDelta = 0 then (if iopsNew ≥ iopsOld then 1 else -1) else newDelta

def clampDelta (d : Int) : Int :=
  let d := if d > sleepDeltaMax then sleepDeltaMax else d
  if d < -sleepDeltaMax then -sleepDeltaMax else d

def clampSleep (x : Int) : Int :=
  let x := if x < sleepMin then sleepMin else x
  if x > sleepMax then sleepMax else x

/-- The largest count of a second for which the arithmetic is exact. -/
def iopsLimit : Nat := 2 ^ 22

/-- The interval and its last change are in their ranges, and a count that may be compared is
below the limit. -/
structure Adapted (p : VringPoller) : Prop where
  sleep : sleepMin ≤ p.sleep ∧ p.sleep ≤ sleepMax
  sleepDelta : 1 ≤ p.sleepDelta.natAbs ∧ p.sleepDelta.natAbs ≤ 72
  iops : p.sleepyPoll = true → p.iops < iopsLimit

theorem clampDelta_bound (d : Int) : (clampDelta d).natAbs ≤ 72 := by
  unfold clampDelta sleepDeltaMax
  dsimp only
  split <;> split <;> omega

theorem clampDelta_sign (d : Int) : (clampDelta d).sign = d.sign := by
  unfold clampDelta sleepDeltaMax
  dsimp only
  split
  · next hhi =>
      rw [if_neg (by decide), Int.sign_eq_one_of_pos (by omega : 0 < d)]
      rfl
  · split
    · next hlo =>
        rw [Int.sign_eq_neg_one_of_neg (by omega : d < 0)]
        rfl
    · rfl

theorem clampSleep_bound (x : Int) : sleepMin ≤ clampSleep x ∧ clampSleep x ≤ sleepMax := by
  unfold clampSleep sleepMin sleepMax
  dsimp only
  split <;> split <;> omega

/-- A quotient that is rounded to zero is replaced by a change of one, so the direction is
never lost. -/
theorem amplified_sign (iopsOld iopsNew : Nat) :
    (amplified iopsOld iopsNew).sign = if iopsNew ≥ iopsOld then 1 else -1 := by
  unfold amplified
  dsimp only
  by_cases hup : iopsNew ≥ iopsOld
  · have hquot : 0 ≤ (((iopsNew : Int) - iopsOld) * 2 ^ 9).tdiv iopsOld :=
      Int.tdiv_nonneg (by omega) (by omega)
    simp only [if_pos hup]
    split
    · rfl
    · exact Int.sign_eq_one_of_pos (by omega)
  · have hquot : (((iopsNew : Int) - iopsOld) * 2 ^ 9).tdiv iopsOld ≤ 0 := by
      have hneg : 0 ≤ (-(((iopsNew : Int) - iopsOld) * 2 ^ 9)).tdiv iopsOld :=
        Int.tdiv_nonneg (by omega) (by omega)
      rw [Int.neg_tdiv] at hneg
      omega
    simp only [if_neg hup]
    split
    · rfl
    · exact Int.sign_eq_neg_one_of_neg (by omega)

theorem amplified_bound (hlo : iopsOld < iopsLimit) (hhi : iopsNew < iopsLimit) :
    (amplified iopsOld iopsNew).natAbs < 2 ^ 31 := by
  have hquot := Int.natAbs_tdiv_le_natAbs (((iopsNew : Int) - iopsOld) * 2 ^ 9) iopsOld
  unfold iopsLimit at hlo hhi
  unfold amplified
  dsimp only
  split
  · split <;> decide
  · omega

/-- With both counts below the limit nothing overflows, and the result is the clamped change
in the direction of the last one. -/
theorem evalPerformance_checked (hp : Adapted p) (hold : iopsOld ≠ 0) (hnew : iopsNew ≠ 0)
    (hlo : iopsOld < iopsLimit) (hhi : iopsNew < iopsLimit) :
    ∃ d, d = clampDelta (amplified iopsOld iopsNew * p.sleepDelta.sign) ∧
      evalPerformance p iopsOld iopsNew = { p with sleep := clampSleep (p.sleep + d), sleepDelta := d } ∧
      evalPerformanceChecked p iopsOld iopsNew = some (evalPerformance p iopsOld iopsNew) := by
  have hzero : ¬ (iopsOld = 0 ∨ iopsNew = 0) := not_or.mpr ⟨hold, hnew⟩
  have hbound := amplified_bound hlo hhi
  have hsleep := hp.sleep
  have hdelta := hp.sleepDelta
  have hsign : (if p.sleepDelta ≥ 0 then 1 else -1 : Int) = p.sleepDelta.sign := by
    split
    · rw [Int.sign_eq_one_of_pos (by omega)]
    · rw [Int.sign_eq_neg_one_of_neg (by omega)]
  unfold iopsLimit at hlo hhi
  unfold sleepMin sleepMax at hsleep
  -- the values of the intermediate results
  have hdiff : -2 ^ 22 < (iopsNew : Int) - iopsOld ∧ (iopsNew : Int) - iopsOld < 2 ^ 22 := by omega
  have hquot : -2 ^ 31 < (((iopsNew : Int) - iopsOld) * 2 ^ 9).tdiv iopsOld ∧
      (((iopsNew : Int) - iopsOld) * 2 ^ 9).tdiv iopsOld < 2 ^ 31 := by
    have := Int.natAbs_tdiv_le_natAbs (((iopsNew : Int) - iopsOld) * 2 ^ 9) iopsOld
    omega
  have hturned : -2 ^ 31 < amplified iopsOld iopsNew * p.sleepDelta.sign ∧
      amplified iopsOld iopsNew * p.sleepDelta.sign < 2 ^ 31 := by
    rcases Int.lt_trichotomy p.sleepDelta 0 with h | h | h
    · rw [Int.sign_eq_neg_one_of_neg h]
      omega
    · rw [h, Int.sign_zero]
      omega
    · rw [Int.sign_eq_one_of_pos h]
      omega
  have hclamped := clampDelta_bound (amplified iopsOld iopsNew * p.sleepDelta.sign)
  have heval : evalPerformance p iopsOld iopsNew =
      { p with
        sleep := clampSleep (p.sleep + clampDelta (amplified iopsOld iopsNew * p.sleepDelta.sign))
        sleepDelta := clampDelta (amplified iopsOld iopsNew * p.sleepDelta.sign) } := by
    unfold evalPerformance
    rw [if_neg hzero, hsign, toInt_eq (by omega) (by omega) (x := (iopsNew : Int) - iopsOld),
      toInt_eq (by omega) (by omega) (x := ((iopsNew : Int) - iopsOld) * 2 ^ 9),
      toInt_eq (by omega) (by omega) (x := (iopsOld : Int)),
      toInt_eq (by omega) hquot.2]
    have hturn := toInt_eq (by omega) hturned.2
    unfold amplified at hturn
    dsimp only at hturn ⊢
    rw [hturn]
    rfl
  refine ⟨_, rfl, heval, ?_⟩
  have hdiv : checkedDiv (((iopsNew : Int) - iopsOld) * 2 ^ 9) iopsOld =
      some ((((iopsNew : Int) - iopsOld) * 2 ^ 9).tdiv iopsOld) := by
    unfold checkedDiv
    rw [if_neg (by omega), checkedInt_eq (by omega) hquot.2]
  have hturn := checkedInt_eq (by omega) hturned.2
  have hslept := checkedInt_eq (x := p.sleep + clampDelta (amplified iopsOld iopsNew * p.sleepDelta.sign))
    (by omega) (by omega)
  unfold amplified at hturn
  unfold evalPerformanceChecked
  rw [heval, if_neg hzero, hsign]
  simp only [checkedInt_eq (by omega) (by omega) (x := (iopsNew : Int) - iopsOld),
    checkedInt_eq (by omega) (by omega) (x := ((iopsNew : Int) - iopsOld) * 2 ^ 9),
    checkedInt_eq (by omega) (by omega) (x := (iopsOld : Int)), hdiv, hturn, Option.bind_eq_bind,
    Option.bind_some]
  exact (congrArg (Option.bind · _) hslept).trans rfl

theorem evalPerformance_adapted (hp : Adapted p) (hlo : iopsOld < iopsLimit)
    (hhi : iopsNew < iopsLimit) : Adapted (evalPerformance p iopsOld iopsNew) := by
  by_cases hzero : iopsOld = 0 ∨ iopsNew = 0
  · unfold evalPerformance
    rw [if_pos hzero]
    exact hp
  · obtain ⟨hold, hnew⟩ := not_or.mp hzero
    obtain ⟨d, hd, heval, -⟩ := evalPerformance_checked hp hold hnew hlo hhi
    rw [heval]
    refine ⟨clampSleep_bound _, ⟨?_, ?_⟩, hp.iops⟩
    · show 1 ≤ d.natAbs
      have hsign : d.sign ≠ 0 := by
        rw [hd, clampDelta_sign, Int.sign_mul, amplified_sign, Int.sign_sign]
        have := hp.sleepDelta
        split
        · rw [Int.one_mul, ne_eq, Int.sign_eq_zero_iff_zero]
          omega
        · rw [Int.neg_mul, Int.one_mul, ne_eq, Int.neg_eq_zero, Int.sign_eq_zero_iff_zero]
          omega
      rw [ne_eq, Int.sign_eq_zero_iff_zero] at hsign
      omega
    · show d.natAbs ≤ 72
      exact hd ▸ clampDelta_bound _

/-- The direction is kept if the count has not dropped, and turned if it has. -/
theorem evalPerformance_direction (hp : Adapted p) (hold : iopsOld ≠ 0) (hnew : iopsNew ≠ 0)
    (hlo : iopsOld < iopsLimit) (hhi : iopsNew < iopsLimit) :
    (evalPerformance p iopsOld iopsNew).sleepDelta.sign =
      if iopsNew ≥ iopsOld then p.sleepDelta.sign else -p.sleepDelta.sign := by
  obtain ⟨d, hd, heval, -⟩ := evalPerformance_checked hp hold hnew hlo hhi
  rw [heval, hd, clampDelta_sign, Int.sign_mul, amplified_sign, Int.sign_sign]
  split
  · exact Int.one_mul _
  · rw [Int.neg_mul, Int.one_mul]

/-! ## Runs -/

def Sys.perSec (s : Sys) : Nat := (s.iocountPerSec + s.iocount) % 2 ^ 32

/-- A second ends with a count below the limit. -/
def BelowLimit (s : Sys) (e : Event) : Prop :=
  ∀ now, e = .clock now → now ≠ s.second → s.perSec < iopsLimit

def CallsEval (s : Sys) (e : Event) : Prop :=
  s.pc = .clock ∧ s.self.sleepyPoll = true ∧ ∃ now, e = .clock now ∧ now ≠ s.second

/-- The poller has chosen how to wait, or waits. -/
def Waiting : LoopPc → Prop
  | .wait => True
  | .poll => True
  | .usleep => True
  | _ => False

theorem pollerStep_self (hs : pollerStep s = some s') : s'.self = s.self := by
  cases hpc : s.pc <;> simp only [pollerStep, hpc] at hs
  case checkEnd => split at hs <;> cases hs <;> rfl
  case loadUsedIdx => split at hs <;> cases hs <;> rfl
  case wait => split at hs <;> cases hs <;> rfl
  all_goals first | cases hs; rfl | cases hs

theorem adapt_adapted (hp : Adapted p) {perSec : Nat} (hper : perSec < iopsLimit) :
    Adapted (chooseMode iopsHigh (adapt p perSec)).1 := by
  have hadapt : ∀ sleepy, Adapted { adapt p perSec with sleepyPoll := sleepy } := by
    intro sleepy
    unfold adapt
    dsimp only
    split
    · next hsleepy =>
        have h := evalPerformance_adapted hp (hp.iops hsleepy) hper
        exact ⟨h.sleep, h.sleepDelta, fun _ => hper⟩
    · exact ⟨hp.sleep, hp.sleepDelta, fun _ => hper⟩
  rcases chooseMode_cases iopsHigh (adapt p perSec) with ⟨-, heq⟩ | ⟨-, heq⟩ | heq
  · rw [heq]
    exact hadapt true
  · rw [heq]
    exact hadapt false
  · rw [heq]
    exact hadapt _

theorem init_adapted : Adapted init.self := ⟨by decide, by decide, nofun⟩

theorem step_adapted {e : Event} (h : Adapted s.self) (hok : BelowLimit s e)
    (hs : step iopsHigh s e = some s') : Adapted s'.self := by
  cases e with
  | poller => exact pollerStep_self hs ▸ h
  | clock now =>
      simp only [step] at hs
      split at hs <;> cases hs
      unfold clockStep
      dsimp only
      split
      · next hnew => exact adapt_adapted h (hok now rfl hnew)
      · exact h
  | wake r =>
      simp only [step] at hs
      split at hs
      · cases r <;> simp only at hs
        case error =>
          cases hs
          exact h
        case timeout =>
          split at hs <;> cases hs
          exact h
        case ready =>
          split at hs <;> cases hs
          exact h
      · cases hs
  | put =>
      simp only [step] at hs
      split at hs <;> cases hs
      exact h
  | publish =>
      simp only [step] at hs
      split at hs <;> cases hs
      exact h
  | decide =>
      simp only [step] at hs
      split at hs <;> cases hs
      exact h
  | stop =>
      cases hs
      exact ⟨h.sleep, h.sleepDelta, h.iops⟩
  | stopEvent =>
      simp only [step] at hs
      split at hs <;> cases hs
      exact h
  | start =>
      simp only [step] at hs
      split at hs <;> cases hs
      exact ⟨h.sleep, h.sleepDelta, h.iops⟩

/-- The flag of the avail ring is the mode wherever the poller waits. -/
theorem ModeOk.suppressed_iff (h : ModeOk s) (hwait : Waiting s.pc) :
    s.self.sleepyPoll = true ↔ s.suppressed = true := by
  have hflags := h.flags (by rintro hpc; rw [hpc] at hwait; exact hwait)
    (by rintro hpc; rw [hpc] at hwait; exact hwait)
  rw [Sys.suppressed, hflags]
  cases s.self.sleepyPoll <;> decide

theorem clockStep_sleepDelta {now : Nat} (hsleepy : s.self.sleepyPoll = true) (hnew : now ≠ s.second) :
    (clockStep iopsHigh s now).self.sleepDelta =
      (evalPerformance s.self s.self.iops s.perSec).sleepDelta := by
  unfold clockStep
  rw [if_pos hnew]
  show (chooseMode iopsHigh (adapt s.self s.perSec)).1.sleepDelta = _
  have hadapt : (adapt s.self s.perSec).sleepDelta =
      (evalPerformance s.self s.self.iops s.perSec).sleepDelta := by
    unfold adapt
    rw [if_pos hsleepy]
  rcases chooseMode_cases iopsHigh (adapt s.self s.perSec) with ⟨-, heq⟩ | ⟨-, heq⟩ | heq
  · rw [heq, ← hadapt]
  · rw [heq, ← hadapt]
  · rw [heq, hadapt]

/-- In every run with fewer than `iopsLimit` completions in each second, for any threshold and
with any stops and restarts. -/
theorem poller_adapts {es : List Event} (hrun : (machine iopsHigh).Path BelowLimit init es s) :
    (5 ≤ s.self.sleep ∧ s.self.sleep ≤ 150) ∧
    (1 ≤ s.self.sleepDelta.natAbs ∧ s.self.sleepDelta.natAbs ≤ 72) ∧
    (Waiting s.pc → (s.self.sleepyPoll = true ↔ s.suppressed = true)) ∧
    ∀ e s', BelowLimit s e → CallsEval s e → step iopsHigh s e = some s' →
      evalPerformanceChecked s.self s.self.iops s.perSec =
        some (evalPerformance s.self s.self.iops s.perSec) ∧
      (s.self.iops ≠ 0 → s.perSec ≠ 0 → s'.self.sleepDelta.sign =
        if s.perSec ≥ s.self.iops then s.self.sleepDelta.sign else -s.self.sleepDelta.sign) := by
  have hmode : ModeOk s := hrun.invariant (I := ModeOk) (fun _ _ _ h _ hs => step_mode h hs) rfl
  have h : Adapted s.self := hrun.invariant (I := fun s => Adapted s.self)
    (fun _ _ _ h hok hs => step_adapted h hok hs) init_adapted
  refine ⟨h.sleep, h.sleepDelta, hmode.suppressed_iff, ?_⟩
  rintro e s' hok ⟨hpc, hsleepy, now, rfl, hnew⟩ hs
  have hlo := h.iops hsleepy
  have hhi := hok now rfl hnew
  refine ⟨?_, fun hold hper => ?_⟩
  · by_cases hzero : s.self.iops = 0 ∨ s.perSec = 0
    · simp only [evalPerformanceChecked, evalPerformance, if_pos hzero]
    · obtain ⟨hold, hper⟩ := not_or.mp hzero
      obtain ⟨-, -, -, hchecked⟩ := evalPerformance_checked h hold hper hlo hhi
      exact hchecked
  · simp only [step, if_pos hpc] at hs
    cases hs
    rw [clockStep_sleepDelta hsleepy hnew]
    exact evalPerformance_direction h hold hper hlo hhi

def belowLimit (s : Sys) : Event → Bool
  | .clock now => now == s.second || decide (s.perSec < iopsLimit)
  | _ => true

theorem belowLimit_sound (s : Sys) (e : Event) (h : belowLimit s e = true) : BelowLimit s e := by
  rintro now rfl hnew
  simp only [belowLimit, Bool.or_eq_true, beq_iff_eq, decide_eq_true_eq] at h
  exact h.resolve_left hnew

/-- With a threshold of one completion a second: there are two in the first second, one in the
next, and the poller is about to look at the clock. -/
def fewerSchedule : List Event :=
  [.poller, .poller, .clock 1, .poller, .put, .put, .publish, .decide, .publish, .decide,
    .wake .ready, .poller, .poller, .poller, .poller, .poller, .poller, .poller, .clock 2, .poller,
    .poller, .poller, .poller, .put, .publish, .poller, .poller, .poller]

theorem poller_adapts_fewer : ∃ s, (machine 1).Path BelowLimit init fewerSchedule s ∧
    s.self.iops = 2 ∧ s.perSec = 1 ∧ s.self.sleepDelta = 72 ∧
    (clockStep 1 s 3).self.sleepDelta.sign = -1 := by
  have hany : ((machine 1).execIf belowLimit init fewerSchedule).any (fun s =>
      s.pc == .clock && s.self.sleepyPoll && s.self.iops == 2 && s.perSec == 1 && s.second == 2 &&
        s.self.sleepDelta == 72) = true := by decide +kernel
  obtain ⟨s, hrun, hs⟩ := Machine.Path.of_check belowLimit_sound hany
  simp only [Bool.and_eq_true, beq_iff_eq] at hs
  obtain ⟨⟨⟨⟨⟨hpc, hsleepy⟩, hiops⟩, hper⟩, hsecond⟩, hdelta⟩ := hs
  refine ⟨s, hrun, hiops, hper, hdelta, ?_⟩
  have hok : BelowLimit s (.clock 3) := belowLimit_sound s _ (by simp [belowLimit, hper, iopsLimit])
  have hcalls : CallsEval s (.clock 3) := ⟨hpc, hsleepy, 3, rfl, by rw [hsecond]; decide⟩
  have hturn := ((poller_adapts hrun).2.2.2 (.clock 3) (clockStep 1 s 3) hok hcalls (if_pos hpc)).2
    (by rw [hiops]; decide) (by rw [hper]; decide)
  rw [hturn, hiops, hper, hdelta]
  decide

end VhostUser.PollLoop
