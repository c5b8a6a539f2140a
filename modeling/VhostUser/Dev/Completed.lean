import VhostUser.Dev.Watermark
import VhostUser.Lib.Ranking

/-! # Calls of `virtio_completed` return

A call with a time limit needs four of its own steps for each 100 ms and three more, whatever
the poller and the other threads do. A call returns within five steps once the output ring holds
the entries that it waits for, with a limit or without. With one of the last 100 values of an
`int` as the limit the time may be added up beyond them, and wrap around.
-/

namespace VhostUser.Outring

open VhostUser.Lib

variable {s s' t : Sys} {e : Event}

def Event.ofWaiter : Event → Bool
  | .waiter _ => true
  | _ => false

def NoCall (_ : Sys) (e : Event) : Prop := ∀ mincount timeout, e ≠ .call mincount timeout

def Returned (s : Sys) : Prop := ∃ n, s.waiter = .returned n

/-! ## The steps of a call -/

/-- A call is in progress or has returned; an event that it is about to read is there. -/
structure Calling (s : Sys) : Prop where
  event : s.waiter = .readFd → 0 < s.outfd
  notIdle : s.waiter ≠ .idle
  notFailed : s.waiter ≠ .failed

/-- What a step of the call leaves as it is. -/
structure SameArgs (s s' : Sys) : Prop where
  mincount : s'.mincount = s.mincount
  timeout : s'.timeout = s.timeout
  outring : s'.outring = s.outring

inductive Goes (s s' : Sys) : Prop where
  | arm (hpc : s.waiter = .storeWm) (hpc' : s'.waiter = .loadCount)
      (htime : s'.totalTime = s.totalTime)
  | tooFew (hpc : s.waiter = .loadCount ∨ s.waiter = .recount)
      (hfew : s.outring.length < s.mincount) (hpc' : ∃ n, s'.waiter = .checkTime n)
      (htime : s'.totalTime = s.totalTime)
  | enough (hpc : s.waiter = .loadCount ∨ s.waiter = .recount) (hpc' : ∃ n, s'.waiter = .disarm n)
      (htime : s'.totalTime = s.totalTime)
  | sleep (hpc : ∃ n, s.waiter = .checkTime n)
      (hearly : 0 ≤ s.timeout → s.totalTime < s.timeout) (hpc' : s'.waiter = .poll)
      (htime : s'.totalTime = s.totalTime)
  | wake (hpc : s.waiter = .poll) (hfd : 0 < s'.outfd) (hpc' : s'.waiter = .readFd)
      (htime : s'.totalTime = s.totalTime)
  | polled (hpc : s.waiter = .poll ∨ s.waiter = .readFd) (hpc' : s'.waiter = .recount)
      (htime : s'.totalTime = toInt (s.totalTime + delay))
  | leave (hpc' : Returned s') (htime : s'.totalTime = s.totalTime)

theorem waiterStep_goes {r : PollResult} (h : Calling s) (hs : waiterStep s r = some s') :
    SameArgs s s' ∧ Goes s s' := by
  cases hpc : s.waiter <;> simp only [waiterStep, hpc] at hs
  case idle => exact absurd hpc h.notIdle
  case storeWm =>
    cases hs
    exact ⟨⟨rfl, rfl, rfl⟩, .arm hpc rfl rfl⟩
  case loadCount =>
    split at hs <;> cases hs
    · exact ⟨⟨rfl, rfl, rfl⟩, .enough (Or.inl hpc) ⟨_, rfl⟩ rfl⟩
    · next hfew => exact ⟨⟨rfl, rfl, rfl⟩, .tooFew (Or.inl hpc) (Int.not_le.mp hfew) ⟨_, rfl⟩ rfl⟩
  case checkTime n =>
    split at hs <;> cases hs
    · exact ⟨⟨rfl, rfl, rfl⟩, .leave ⟨n, rfl⟩ rfl⟩
    · next hover =>
        refine ⟨⟨rfl, rfl, rfl⟩, .sleep ⟨n, hpc⟩ (fun hpos => ?_) rfl rfl⟩
        exact Int.not_le.mp fun hle => hover ⟨hpos, hle⟩
  case poll =>
    cases r with
    | error =>
        cases hs
        exact ⟨⟨rfl, rfl, rfl⟩, .polled (Or.inl hpc) rfl rfl⟩
    | timeout =>
        simp only at hs
        split at hs <;> cases hs
        exact ⟨⟨rfl, rfl, rfl⟩, .polled (Or.inl hpc) rfl rfl⟩
    | ready =>
        simp only at hs
        split at hs <;> cases hs
        next hfd => exact ⟨⟨rfl, rfl, rfl⟩, .wake hpc (Nat.pos_of_ne_zero hfd) rfl rfl⟩
  case readFd =>
    rw [if_neg (Nat.ne_of_gt (h.event hpc))] at hs
    cases hs
    exact ⟨⟨rfl, rfl, rfl⟩, .polled (Or.inr hpc) rfl rfl⟩
  case recount =>
    split at hs <;> cases hs
    · next hfew => exact ⟨⟨rfl, rfl, rfl⟩, .tooFew (Or.inr hpc) hfew ⟨_, rfl⟩ rfl⟩
    · exact ⟨⟨rfl, rfl, rfl⟩, .enough (Or.inr hpc) ⟨_, rfl⟩ rfl⟩
  case disarm n =>
    cases hs
    exact ⟨⟨rfl, rfl, rfl⟩, .leave ⟨n, rfl⟩ rfl⟩
  case returned => cases hs
  case failed => cases hs

theorem Goes.calling (hg : Goes s s') : Calling s' := by
  cases hg with
  | arm _ hpc' _ | sleep _ _ hpc' _ | polled _ hpc' _ =>
      exact ⟨fun h => (by rw [hpc'] at h; cases h), by rw [hpc']; simp, by rw [hpc']; simp⟩
  | tooFew _ _ hpc' _ | enough _ hpc' _ | leave hpc' _ =>
      obtain ⟨n, hpc'⟩ := hpc'
      exact ⟨fun h => (by rw [hpc'] at h; cases h), by rw [hpc']; simp, by rw [hpc']; simp⟩
  | wake _ hfd hpc' _ => exact ⟨fun _ => hfd, by rw [hpc']; simp, by rw [hpc']; simp⟩

structure Elsewhere (e : Event) (s s' : Sys) : Prop where
  waiter : s'.waiter = s.waiter
  mincount : s'.mincount = s.mincount
  timeout : s'.timeout = s.timeout
  totalTime : s'.totalTime = s.totalTime
  outfd : s.outfd ≤ s'.outfd
  outring : e ≠ .getCompleted → s.outring.length ≤ s'.outring.length

theorem step_elsewhere (hcall : NoCall s e) (he : e.ofWaiter = false) (hs : step s e = some s') :
    Elsewhere e s s' := by
  cases e with
  | call mincount timeout => exact absurd rfl (hcall mincount timeout)
  | waiter r => cases he
  | push io =>
      simp only [step] at hs
      split at hs <;> cases hs
      exact ⟨rfl, rfl, rfl, rfl, Nat.le_refl _, fun _ => Nat.le_refl _⟩
  | poller =>
      have hs : pushStep s = some s' := hs
      cases hpc : s.poller <;> simp only [pushStep, hpc] at hs
      case idle | failed => cases hs
      case enqueue io =>
        split at hs <;> cases hs
        · refine ⟨rfl, rfl, rfl, rfl, Nat.le_refl _, fun _ => ?_⟩
          rw [List.length_append]
          exact Nat.le_add_right _ _
        · exact ⟨rfl, rfl, rfl, rfl, Nat.le_refl _, fun _ => Nat.le_refl _⟩
      case loadWm | loadCount =>
        split at hs <;> cases hs <;>
          exact ⟨rfl, rfl, rfl, rfl, Nat.le_refl _, fun _ => Nat.le_refl _⟩
      case loadWmAgain =>
        cases hs
        exact ⟨rfl, rfl, rfl, rfl, Nat.le_refl _, fun _ => Nat.le_refl _⟩
      case writeFd =>
        split at hs <;> cases hs
        · exact ⟨rfl, rfl, rfl, rfl, Nat.le_succ _, fun _ => Nat.le_refl _⟩
        · exact ⟨rfl, rfl, rfl, rfl, Nat.le_refl _, fun _ => Nat.le_refl _⟩
  | getCompleted =>
      cases hs
      exact ⟨rfl, rfl, rfl, rfl, Nat.le_refl _, fun h => absurd rfl h⟩

theorem Elsewhere.calling (ho : Elsewhere e s s') (h : Calling s) : Calling s' :=
  ⟨fun hpc => Nat.lt_of_lt_of_le (h.event (ho.waiter ▸ hpc)) ho.outfd, ho.waiter ▸ h.notIdle,
    ho.waiter ▸ h.notFailed⟩

theorem Calling.step (h : Calling s) (hcall : NoCall s e) (hs : step s e = some s') : Calling s' := by
  by_cases he : e.ofWaiter = true
  · cases e with
    | waiter r => exact (waiterStep_goes h hs).2.calling
    | call _ _ | push _ | poller | getCompleted => cases he
  · exact (step_elsewhere hcall (Bool.not_eq_true _ ▸ he) hs).calling h

theorem Returned.step (h : Returned s) (hcall : NoCall s e) (hs : Outring.step s e = some s') :
    Returned s' := by
  obtain ⟨n, hpc⟩ := h
  by_cases he : e.ofWaiter = true
  · cases e with
    | waiter r =>
        have hs : waiterStep s r = some s' := hs
        simp only [waiterStep, hpc] at hs
        cases hs
    | call _ _ | push _ | poller | getCompleted => cases he
  · exact ⟨n, (step_elsewhere hcall (Bool.not_eq_true _ ▸ he) hs).waiter.trans hpc⟩

/-! ## A call with a time limit -/

/-- How often `poll` may still return before the time is over. -/
def Sys.pollsLeft (s : Sys) : Nat := ((s.timeout - s.totalTime + (delay - 1)) / delay).toNat

def WaitPc.timeRank (polls : Nat) : WaitPc → Nat
  | .storeWm => 4 * polls + 2
  | .loadCount => 4 * polls + 1
  | .recount => 4 * polls + 1
  | .checkTime _ => 4 * polls
  | .poll => 4 * polls - 1
  | .readFd => 4 * polls - 2
  | _ => 0

structure Timed (s : Sys) : Prop where
  calling : Calling s
  limit : 0 ≤ s.timeout ∧ s.timeout ≤ 2 ^ 31 - delay
  started : 0 ≤ s.totalTime
  early : s.waiter = .poll ∨ s.waiter = .readFd → s.totalTime < s.timeout

theorem Timed.polled (h : Timed s) (hpc : s.waiter = .poll ∨ s.waiter = .readFd) :
    toInt (s.totalTime + delay) = s.totalTime + delay := by
  have hlimit := h.limit.2
  have hearly := h.early hpc
  have hstarted := h.started
  refine toInt_eq ?_ ?_ <;> unfold delay at * <;> omega

theorem Timed.step (h : Timed s) (hcall : NoCall s e) (hs : step s e = some s') : Timed s' := by
  have hnext := h.calling.step hcall hs
  by_cases he : e.ofWaiter = true
  · cases e with
    | waiter r =>
        obtain ⟨hsame, hg⟩ := waiterStep_goes h.calling hs
        have hlimit : 0 ≤ s'.timeout ∧ s'.timeout ≤ 2 ^ 31 - delay := hsame.timeout ▸ h.limit
        cases hg with
        | arm _ hpc' htime =>
            exact ⟨hnext, hlimit, htime ▸ h.started, fun hpc => by simp [hpc'] at hpc⟩
        | tooFew _ _ hpc' htime | enough _ hpc' htime | leave hpc' htime =>
            obtain ⟨n, hpc'⟩ := hpc'
            exact ⟨hnext, hlimit, htime ▸ h.started, fun hpc => by simp [hpc'] at hpc⟩
        | sleep _ hearly _ htime =>
            refine ⟨hnext, hlimit, htime ▸ h.started, fun _ => ?_⟩
            rw [htime, hsame.timeout]
            exact hearly h.limit.1
        | wake hpc _ _ htime =>
            refine ⟨hnext, hlimit, htime ▸ h.started, fun _ => ?_⟩
            rw [htime, hsame.timeout]
            exact h.early (Or.inl hpc)
        | polled hpc hpc' htime =>
            refine ⟨hnext, hlimit, ?_, fun hpc => by simp [hpc'] at hpc⟩
            rw [htime, h.polled hpc]
            exact Int.add_nonneg h.started (by decide)
    | call _ _ | push _ | poller | getCompleted => cases he
  · have ho := step_elsewhere hcall (Bool.not_eq_true _ ▸ he) hs
    exact ⟨hnext, ho.timeout ▸ h.limit, ho.totalTime ▸ h.started,
      fun hpc => by rw [ho.totalTime, ho.timeout]; exact h.early (ho.waiter ▸ hpc)⟩

theorem pollsLeft_congr (htimeout : s'.timeout = s.timeout) (htime : s'.totalTime = s.totalTime) :
    s'.pollsLeft = s.pollsLeft := by
  rw [Sys.pollsLeft, htimeout, htime, Sys.pollsLeft]

theorem pollsLeft_pos (hearly : s.totalTime < s.timeout) : 0 < s.pollsLeft := by
  unfold Sys.pollsLeft delay
  omega

theorem pollsLeft_polled (htimeout : s'.timeout = s.timeout)
    (htime : s'.totalTime = s.totalTime + delay) : s'.pollsLeft = s.pollsLeft - 1 := by
  unfold Sys.pollsLeft
  rw [htimeout, htime]
  unfold delay
  omega

/-- Before its time is over, a call comes closer to its return with each of its steps. -/
theorem time_ranking : machine.Ranking NoCall Timed Event.ofWaiter Returned
    (fun s => s.waiter.timeRank s.pollsLeft) (fun _ _ => 0) where
  keeps _ _ _ h hcall hs := h.step hcall hs
  stays _ _ _ _ hcall hs hdone := hdone.step hcall hs
  own s e s' h hcall hs he hdone := by
    cases e with
    | waiter r =>
        obtain ⟨hsame, hg⟩ := waiterStep_goes h.calling hs
        cases hg with
        | arm hpc hpc' htime =>
            rw [hpc, hpc', pollsLeft_congr hsame.timeout htime]
            exact Nat.le_refl _
        | tooFew hpc _ hpc' htime =>
            obtain ⟨n, hpc'⟩ := hpc'
            rw [hpc', pollsLeft_congr hsame.timeout htime]
            rcases hpc with hpc | hpc <;> rw [hpc] <;> exact Nat.le_refl _
        | enough hpc hpc' htime =>
            obtain ⟨n, hpc'⟩ := hpc'
            rw [hpc', pollsLeft_congr hsame.timeout htime]
            rcases hpc with hpc | hpc <;> rw [hpc] <;> simp [WaitPc.timeRank]
        | sleep hpc hearly hpc' htime =>
            obtain ⟨n, hpc⟩ := hpc
            have hpos := pollsLeft_pos (hearly h.limit.1)
            rw [hpc, hpc', pollsLeft_congr hsame.timeout htime]
            simp only [WaitPc.timeRank]
            omega
        | wake hpc _ hpc' htime =>
            have hpos := pollsLeft_pos (h.early (Or.inl hpc))
            rw [hpc, hpc', pollsLeft_congr hsame.timeout htime]
            simp only [WaitPc.timeRank]
            omega
        | polled hpc hpc' htime =>
            have hpos := pollsLeft_pos (h.early hpc)
            rw [hpc', pollsLeft_polled hsame.timeout (htime.trans (h.polled hpc))]
            rcases hpc with hpc | hpc <;> rw [hpc] <;> simp only [WaitPc.timeRank] <;> omega
        | leave hpc' _ => exact absurd hpc' hdone
    | call _ _ | push _ | poller | getCompleted => cases he
  other s e s' h hcall hs he _ := by
    have ho := step_elsewhere hcall (Bool.not_eq_true _ ▸ he) hs
    rw [ho.waiter, pollsLeft_congr ho.timeout ho.totalTime]
    exact Nat.le_refl _

/-! ## Enough entries -/

def WaitPc.countRank : WaitPc → Nat
  | .checkTime _ => 4
  | .poll => 3
  | .storeWm => 2
  | .readFd => 2
  | .loadCount => 1
  | .recount => 1
  | _ => 0

/-- With enough entries in the ring, and nobody who takes one, a call comes closer to its return
with each of its steps. -/
theorem count_ranking : machine.Ranking (fun s e => NoCall s e ∧ e ≠ .getCompleted)
    (fun s => Calling s ∧ s.mincount ≤ s.outring.length) Event.ofWaiter Returned
    (fun s => s.waiter.countRank) (fun _ _ => 0) where
  keeps s e s' h hok hs := by
    refine ⟨h.1.step hok.1 hs, ?_⟩
    by_cases he : e.ofWaiter = true
    · cases e with
      | waiter r =>
          obtain ⟨hsame, -⟩ := waiterStep_goes h.1 hs
          rw [hsame.mincount, hsame.outring]
          exact h.2
      | call _ _ | push _ | poller | getCompleted => cases he
    · have ho := step_elsewhere hok.1 (Bool.not_eq_true _ ▸ he) hs
      rw [ho.mincount]
      exact Int.le_trans h.2 (Int.ofNat_le.mpr (ho.outring hok.2))
  stays _ _ _ _ hok hs hdone := hdone.step hok.1 hs
  own s e s' h hok hs he hdone := by
    cases e with
    | waiter r =>
        obtain ⟨hsame, hg⟩ := waiterStep_goes h.1 hs
        cases hg with
        | arm hpc hpc' _ =>
            rw [hpc, hpc']
            exact Nat.le_refl _
        | tooFew _ hfew _ _ => exact absurd h.2 (Int.not_le.mpr hfew)
        | enough hpc hpc' _ =>
            obtain ⟨n, hpc'⟩ := hpc'
            rw [hpc']
            rcases hpc with hpc | hpc <;> rw [hpc] <;> exact Nat.le_refl _
        | sleep hpc _ hpc' _ =>
            obtain ⟨n, hpc⟩ := hpc
            rw [hpc, hpc']
            exact Nat.le_refl _
        | wake hpc _ hpc' _ =>
            rw [hpc, hpc']
            exact Nat.le_refl _
        | polled hpc hpc' _ =>
            rw [hpc']
            rcases hpc with hpc | hpc <;> rw [hpc] <;> simp [WaitPc.countRank]
        | leave hpc' _ => exact absurd hpc' hdone
    | call _ _ | push _ | poller | getCompleted => cases he
  other s e s' h hok hs he _ := by
    rw [(step_elsewhere hok.1 (Bool.not_eq_true _ ▸ he) hs).waiter]
    exact Nat.le_refl _

/-! ## Returns -/

theorem called {mincount timeout : Int} (hpos : 0 < mincount)
    (hs : step s (.call mincount timeout) = some s') :
    Calling s' ∧ s'.waiter = .storeWm ∧ s'.timeout = timeout ∧ s'.totalTime = 0 := by
  simp only [step] at hs
  rw [if_pos hpos] at hs
  split at hs <;> cases hs
  exact ⟨⟨fun h => (by cases h), by simp, by simp⟩, rfl, rfl, rfl⟩

/-- In every interleaving with the poller and with threads that take entries: a call has returned
after four of its steps for each 100 ms of its limit and three more, and it has returned after
five of its steps from a moment on in which the ring holds enough entries, if nobody takes one. -/
theorem completed_returns {as bs : List Event} {s₁ u : Sys} {mincount timeout : Int}
    (hpos : 0 < mincount)
    (hcall : step s (.call mincount timeout) = some s₁) (hrun : machine.Path NoCall s₁ as u)
    (hrun' : machine.Path (fun s e => NoCall s e ∧ e ≠ .getCompleted) u bs t)
    (henough : (0 ≤ timeout ∧ timeout ≤ 2 ^ 31 - delay ∧
        4 * ((timeout + (delay - 1)) / delay).toNat + 2 < (as ++ bs).countP Event.ofWaiter) ∨
      (u.mincount ≤ u.outring.length ∧ 4 < bs.countP Event.ofWaiter)) : Returned t := by
  obtain ⟨hcalling, hpc, htimeout, htime⟩ := called hpos hcall
  rcases henough with ⟨hlo, hhi, hcount⟩ | ⟨hle, hcount⟩
  · have htimed : Timed s₁ :=
      ⟨hcalling, htimeout ▸ ⟨hlo, hhi⟩, Int.le_of_eq htime.symm, fun h => by simp [hpc] at h⟩
    refine time_ranking.reaches (hrun.trans (hrun'.mono fun _ _ h => h.1)) htimed ?_
    rw [Machine.cost_zero, hpc, Sys.pollsLeft, htimeout, htime, Int.sub_zero]
    exact hcount
  · have hu : Calling u :=
      hrun.invariant (I := Calling) (fun _ _ _ h hcall hs => h.step hcall hs) hcalling
    refine count_ranking.reaches hrun' ⟨hu, hle⟩ ?_
    rw [Machine.cost_zero]
    refine Nat.lt_of_le_of_lt ?_ hcount
    cases u.waiter <;> simp [WaitPc.countRank]

def announced : List Event :=
  [.push 7, .poller, .poller, .poller, .poller, .push 8, .poller, .poller, .poller, .poller, .poller]

/-- Two entries are announced twice, and each time they are taken out before the call has counted
them. Its limit is 150 ms. -/
def takenSchedule : List Event :=
  [.waiter .ready, .waiter .ready, .waiter .ready] ++ announced ++ [.getCompleted, .getCompleted,
    .waiter .ready, .waiter .ready, .waiter .ready, .waiter .ready] ++ announced ++ [.getCompleted,
    .getCompleted, .waiter .ready, .waiter .ready, .waiter .ready, .waiter .ready]

/-- The entry comes after the call has counted and before it sleeps. -/
def pushedSchedule : List Event := [.waiter .ready, .waiter .ready, .push 7, .poller]

def foundSchedule : List Event :=
  [.waiter .ready, .poller, .poller, .poller, .poller, .waiter .ready, .waiter .ready, .waiter .ready,
    .waiter .ready]

def noCall (_ : Sys) : Event → Bool
  | .call _ _ => false
  | _ => true

theorem noCall_sound (s : Sys) (e : Event) (h : noCall s e = true) : NoCall s e := by
  rintro m n rfl
  cases h

/-- A call with a limit of 150 ms ends without entries, and one without a limit with an entry. -/
theorem completed_returns_both :
    (∃ s t, step init (.call 2 150) = some s ∧ machine.Path NoCall s takenSchedule t ∧
      t.outring = [] ∧ Returned t) ∧
    ∃ s u t, step init (.call 1 (-1)) = some s ∧ machine.Path NoCall s pushedSchedule u ∧
      machine.Path (fun s e => NoCall s e ∧ e ≠ .getCompleted) u foundSchedule t ∧
      t.outring = [7] ∧ Returned t := by
  constructor
  · have hcall : step init (.call 2 150) =
        some { init with mincount := 2, timeout := 150, waiter := .storeWm } := rfl
    have hany : (machine.execIf noCall { init with mincount := 2, timeout := 150, waiter := .storeWm }
        takenSchedule).any (fun t => t.outring == []) = true := by decide +kernel
    obtain ⟨t, hrun, ht⟩ := Machine.Path.of_check noCall_sound hany
    exact ⟨_, t, hcall, hrun, eq_of_beq ht, completed_returns (by decide) hcall hrun (.nil t)
      (Or.inl ⟨by decide, by decide, by decide⟩)⟩
  · have hcall : step init (.call 1 (-1)) =
        some { init with mincount := 1, timeout := -1, waiter := .storeWm } := rfl
    have hany : (machine.execIf noCall { init with mincount := 1, timeout := -1, waiter := .storeWm }
        pushedSchedule).any (fun u => decide (u.mincount ≤ u.outring.length) && (machine.execIf
          (fun s e => noCall s e && e != .getCompleted) u foundSchedule).any
            fun t => t.outring == [7]) = true := by decide +kernel
    obtain ⟨u, hrun, hu⟩ := Machine.Path.of_check noCall_sound hany
    rw [Bool.and_eq_true] at hu
    obtain ⟨t, hrun', ht⟩ : ∃ t, machine.Path (fun s e => NoCall s e ∧ e ≠ .getCompleted) u
        foundSchedule t ∧ (t.outring == [7]) = true := by
      refine Machine.Path.of_check (fun s e h => ?_) hu.2
      rw [Bool.and_eq_true] at h
      exact ⟨noCall_sound s e h.1, by simpa using h.2⟩
    exact ⟨_, u, t, hcall, hrun, hrun', eq_of_beq ht, completed_returns (by decide) hcall hrun hrun'
      (Or.inr ⟨of_decide_eq_true hu.1, by decide⟩)⟩

end VhostUser.Outring
