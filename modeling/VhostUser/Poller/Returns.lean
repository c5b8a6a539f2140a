import VhostUser.Lib.Ranking
import VhostUser.Poller.Sync
import Mathlib.Algebra.Order.BigOperators.Group.Finset

/-! # Synchronous submissions come to their end

A call of `vring_submit_task_sync` needs eleven steps: six of its own, one of the device and
four of the poller. No step is taken twice, so whatever the order, a run of `N` calls is over
after `11 * N` steps. And no order gets stuck: while a call is under way, one of the calls,
the device or the poller can take a step. No scheduler has to be fair for this.
-/

namespace VhostUser.Poller

open VhostUser.Lib

variable {s s' : Sys} {c N : Nat} {e : Event}

/-! ## The steps before a call -/

/-- The steps that the submitter has before it. -/
def SyncPc.rank : SyncPc → Nat
  | .idle => 6
  | .lock => 5
  | .submit => 4
  | .wait => 3
  | .asleep => 2
  | .reacquire => 2
  | .unlockFailed => 1
  | .unlock => 1
  | .returned _ => 0
  | .waitFailed => 0

/-- The device completes a task, and the poller reaps it and runs the callback. -/
def Place.rank : Place → Nat
  | .out => 5
  | .published => 5
  | .used => 4
  | .reaped => 0

def CallbackPc.rank : CallbackPc → Nat
  | .lock => 3
  | .signal => 2
  | .unlock => 1

def Call.rank (x : Call) (cb : Option CallbackPc) : Nat :=
  x.pc.rank + x.place.rank + cb.elim 0 CallbackPc.rank

/-- The steps before the first `N` calls. -/
def Sys.rank (N : Nat) (s : Sys) : Nat :=
  ∑ c ∈ Finset.range N, (s.calls c).rank (s.callbackOf c)

theorem init_rank (N : Nat) : init.rank N = 11 * N := by
  have hone : ∀ c ∈ Finset.range N, (init.calls c).rank (init.callbackOf c) = 11 := fun _ _ => rfl
  rw [Sys.rank, Finset.sum_congr rfl hone, Finset.sum_const, Finset.card_range, Nat.nsmul_eq_mul,
    Nat.mul_comm]

theorem submitterStep_rank {x x' : Call} {cb : Option CallbackPc} {ok : Bool} (h : CallOk x cb)
    (hs : submitterStep x ok = some x') : x'.rank cb < x.rank cb := by
  cases hpc : x.pc <;> simp only [submitterStep, hpc] at hs <;> simp only [CallOk, hpc] at h
  case submit =>
    have hout := h.2.1
    split at hs <;> cases hs
    · simp only [Call.rank, hpc, hout, SyncPc.rank, Place.rank]
      omega
    · simp only [Call.rank, hpc, hout, SyncPc.rank, Place.rank]
      omega
  case idle | unlockFailed | unlock =>
    cases hs
    simp only [Call.rank, hpc, SyncPc.rank]
    omega
  case lock | wait | reacquire =>
    split at hs <;> cases hs <;> simp only [Call.rank, hpc, SyncPc.rank] <;> omega
  case asleep | returned | waitFailed => cases hs

theorem signal_rank (x : Call) : (signal x).pc.rank = x.pc.rank := by
  unfold signal
  split
  · next hpc =>
      rw [hpc]
      rfl
  · rfl

theorem callbackStep_rank {x : Call} {p : CallbackPc} {r : Call × Option CallbackPc}
    (hs : callbackStep x p = some r) : r.1.rank r.2 < x.rank (some p) := by
  cases p with
  | lock =>
      simp only [callbackStep] at hs
      split at hs <;> cases hs
      simp only [Call.rank, Option.elim_some, CallbackPc.rank]
      omega
  | signal =>
      cases hs
      simp only [Call.rank, Option.elim_some, CallbackPc.rank, signal_rank]
      simp only [signal]
      omega
  | unlock =>
      cases hs
      simp only [Call.rank, Option.elim_some, Option.elim_none, CallbackPc.rank]
      omega

/-! ## One step -/

/-- A step is about one call, and brings it closer to its end. -/
structure Advances (e : Event) (c : Nat) (s s' : Sys) : Prop where
  closer : (s'.calls c).rank (s'.callbackOf c) < (s.calls c).rank (s.callbackOf c)
  begins : (s.calls c).pc = .idle → ∃ ok, e = .submitter c ok
  others : ∀ d, d ≠ c → s'.calls d = s.calls d ∧ s'.callbackOf d = s.callbackOf d

theorem setCall_self (s : Sys) (c : Nat) (x : Call) : (s.setCall c x).calls c = x :=
  Function.update_self ..

theorem setCall_of_ne (s : Sys) (x : Call) {c d : Nat} (hd : d ≠ c) :
    (s.setCall c x).calls d = s.calls d := Function.update_of_ne hd ..

theorem CallOk.begun {x : Call} {cb : Option CallbackPc} (h : CallOk x cb)
    (hx : x.place ≠ .out ∨ cb ≠ none) : x.pc ≠ .idle := by
  intro hpc
  simp only [CallOk, hpc] at h
  rcases hx with hplace | hcb
  · exact hplace h.2.1
  · exact hcb h.2.2.1

theorem step_advances (h : Inv s) (hok : NoSpurious s e) (hs : step s e = some s') :
    ∃ c, Advances e c s s' := by
  cases e with
  | submitter c ok =>
      obtain ⟨x, hx, rfl⟩ := Option.map_eq_some_iff.mp hs
      refine ⟨c, ?_, fun _ => ⟨ok, rfl⟩, fun d hd => ⟨setCall_of_ne s x hd, rfl⟩⟩
      rw [setCall_self]
      exact submitterStep_rank (h c) hx
  | spurious c => exact absurd rfl (hok c)
  | complete c =>
      simp only [step] at hs
      split at hs
      · next hp =>
          cases hs
          refine ⟨c, ?_, fun hidle => absurd hidle ((h c).begun (Or.inl (by rw [hp]; decide))),
            fun d hd => ⟨setCall_of_ne s _ hd, rfl⟩⟩
          rw [setCall_self]
          simp only [Call.rank, hp, Place.rank]
          exact Nat.add_lt_add_right (Nat.lt_succ_self _) _
      · cases hs
  | reap c =>
      simp only [step] at hs
      split at hs
      · next hp =>
          cases hs
          refine ⟨c, ?_, fun hidle => absurd hidle ((h c).begun (Or.inl (by rw [hp.2]; decide))),
            fun d hd => ⟨setCall_of_ne s _ hd, ?_⟩⟩
          · rw [callbackOf_of_none hp.1, callbackOf_self rfl]
            show Call.rank ((s.setCall c _).calls c) _ < _
            rw [setCall_self]
            simp only [Call.rank, hp.2, Place.rank, Option.elim_some, Option.elim_none, CallbackPc.rank]
            omega
          · rw [callbackOf_of_ne rfl hd, callbackOf_of_none hp.1]
      · cases hs
  | callback =>
      simp only [step] at hs
      split at hs
      · cases hs
      · next c p hpoll =>
          obtain ⟨r, hr, rfl⟩ := Option.map_eq_some_iff.mp hs
          have hc := h c
          rw [callbackOf_self hpoll] at hc
          have hcb : Sys.callbackOf { s.setCall c r.1 with poller := r.2.map (c, ·) } c = r.2 := by
            cases hr2 : r.2 with
            | none => rfl
            | some p' => exact callbackOf_self rfl
          refine ⟨c, ?_, fun hidle => absurd hidle (hc.begun (Or.inr (by simp))),
            fun d hd => ⟨setCall_of_ne s _ hd, ?_⟩⟩
          · rw [hcb, callbackOf_self hpoll]
            show Call.rank ((s.setCall c r.1).calls c) _ < _
            rw [setCall_self]
            exact callbackStep_rank hr
          · rw [callbackOf_of_ne hpoll hd]
            cases r.2 with
            | none => rfl
            | some p' => exact callbackOf_of_ne rfl hd

/-- What is known of a run that has started calls below `N` only. -/
structure Within (N : Nat) (s : Sys) : Prop where
  inv : Inv s
  idle : ∀ c, N ≤ c → (s.calls c).pc = .idle

theorem Within.step (h : Within N s) (hok : NoSpurious s e)
    (hN : ∀ c ok, e = .submitter c ok → c < N) (hs : Poller.step s e = some s') :
    Within N s' ∧ s'.rank N < s.rank N := by
  obtain ⟨c, hadv⟩ := step_advances h.inv hok hs
  have hc : c < N := by
    by_contra hge
    obtain ⟨ok, he⟩ := hadv.begins (h.idle c (Nat.le_of_not_lt hge))
    exact hge (hN c ok he)
  refine ⟨⟨step_inv h.inv hok hs, fun d hd => ?_⟩, ?_⟩
  · rw [(hadv.others d (Nat.ne_of_gt (Nat.lt_of_lt_of_le hc hd))).1]
    exact h.idle d hd
  · refine Finset.sum_lt_sum (fun d _ => ?_) ⟨c, Finset.mem_range.mpr hc, hadv.closer⟩
    by_cases hd : d = c
    · subst hd
      exact Nat.le_of_lt hadv.closer
    · rw [(hadv.others d hd).1, (hadv.others d hd).2]

theorem calls_ranking (N : Nat) : machine.Ranking
    (fun s e => NoSpurious s e ∧ ∀ c ok, e = .submitter c ok → c < N) (Within N) (fun _ => true)
    (fun _ => False) (Sys.rank N) (fun _ _ => 0) where
  keeps _ _ _ h hok hs := (h.step hok.1 hok.2 hs).1
  stays _ _ _ _ _ _ hdone := hdone
  own _ _ _ h hok hs _ _ := (h.step hok.1 hok.2 hs).2
  other _ _ _ _ _ _ hmine _ := absurd rfl hmine

/-! ## No run gets stuck -/

/-- A step that starts a call. -/
def Event.Starts (s : Sys) (e : Event) : Prop := ∃ c ok, e = .submitter c ok ∧ (s.calls c).pc = .idle

/-- A call under way, or the device or the poller on its behalf, can take a step. -/
def CanStep (s : Sys) : Prop := ∃ e s', SignalOnly s e ∧ ¬ e.Starts s ∧ step s e = some s'

theorem canStep_submitter {x : Call} (hpc : (s.calls c).pc ≠ .idle)
    (hs : submitterStep (s.calls c) true = some x) : CanStep s := by
  refine ⟨.submitter c true, s.setCall c x, ⟨fun d hd => (by cases hd), fun d hd => (by cases hd)⟩,
    ?_, ?_⟩
  · rintro ⟨d, ok, heq, hidle⟩
    cases heq
    exact hpc hidle
  · simp only [step, hs, Option.map_some]

theorem canStep_of (hs : step s e = some s') (he : ∀ c ok, e ≠ .submitter c ok)
    (hsp : ∀ c, e ≠ .spurious c) : CanStep s :=
  ⟨e, s', ⟨hsp, fun c hc => absurd hc (he c false)⟩, fun ⟨c, ok, heq, _⟩ => he c ok heq, hs⟩

theorem canStep_callback {p : CallbackPc} (h : Inv s) (hwait : (s.calls c).pc ≠ .waitFailed)
    (hpoll : s.poller = some (c, p)) : CanStep s := by
  have hc := h c
  rw [callbackOf_self hpoll] at hc
  have hgo : ∀ r, callbackStep (s.calls c) p = some r → CanStep s := by
    intro r hr
    have hstep : step s .callback = some { s.setCall c r.1 with poller := r.2.map (c, ·) } := by
      simp only [step, hpoll, hr, Option.map_some]
    exact canStep_of hstep (fun _ _ he => by cases he) (fun _ he => by cases he)
  cases p with
  | lock =>
      by_cases hfree : (s.calls c).mtx = none
      · exact hgo _ (if_pos hfree)
      · -- the submitter holds the mutex until it sleeps
        cases hpc : (s.calls c).pc <;> simp_all [CallOk, Call.Pending, Call.Served]
        exact canStep_submitter (c := c) (by rw [hpc]; simp) (by simp only [submitterStep, hpc]; rfl)
  | signal => exact hgo (_, _) rfl
  | unlock => exact hgo (_, _) rfl

/-- The call has not begun, or it has ended: with 0 after its callback, or with -1 and a task
that was never published. -/
def Settled (x : Call) : Prop :=
  x.pc = .idle ∨ (x.pc = .returned 0 ∧ x.place = .reaped ∧ x.calledBack = true) ∨
    (x.pc = .returned (-1) ∧ x.place = .out)

theorem poller_of_callbackOf {p : CallbackPc} (h : s.callbackOf c = some p) :
    s.poller = some (c, p) := by
  unfold Sys.callbackOf at h
  split at h
  · next d q hpoll =>
      split at h
      · next hd =>
          cases h
          rw [hpoll, hd]
      · cases h
  · cases h

theorem Call.Pending.canStep (h : Inv s) (hwait : ∀ d, (s.calls d).pc ≠ .waitFailed)
    (hp : (s.calls c).Pending (s.callbackOf c)) : CanStep s := by
  obtain ⟨-, ⟨hplace, -⟩ | ⟨hplace, -⟩ | ⟨-, hcb⟩⟩ := hp
  · exact canStep_of (e := .complete c) (if_pos hplace) (fun _ _ he => by cases he)
      (fun _ he => by cases he)
  · cases hpoll : s.poller with
    | none =>
        exact canStep_of (e := .reap c) (if_pos ⟨hpoll, hplace⟩) (fun _ _ he => by cases he)
          (fun _ he => by cases he)
    | some dp => exact canStep_callback h (hwait dp.1) hpoll
  · exact canStep_callback h (hwait c) (poller_of_callbackOf hcb)

theorem settled_of_returned (h : Inv s) {rc : Int} (hpc : (s.calls c).pc = .returned rc) :
    Settled (s.calls c) := by
  have hc := h c
  simp only [CallOk, hpc] at hc
  rcases hc with ⟨rfl, -, hback, hplace, -⟩ | ⟨rfl, hout, -⟩
  · exact Or.inr (Or.inl ⟨hpc, hplace, hback⟩)
  · exact Or.inr (Or.inr ⟨hpc, hout⟩)

theorem settled_or_canStep (h : Inv s) (hwait : ∀ d, (s.calls d).pc ≠ .waitFailed) (c : Nat) :
    Settled (s.calls c) ∨ CanStep s := by
  have hc := h c
  by_cases hidle : (s.calls c).pc = .idle
  · exact Or.inl (Or.inl hidle)
  have hgo : (submitterStep (s.calls c) true).isSome = true → CanStep s := fun hsome => by
    obtain ⟨x, hx⟩ := Option.isSome_iff_exists.mp hsome
    exact canStep_submitter hidle hx
  cases hpc : (s.calls c).pc <;> simp only [CallOk, hpc] at hc
  case idle => exact absurd hpc hidle
  case lock =>
    refine Or.inr (hgo ?_)
    simp only [submitterStep, hpc, if_pos hc.1]
    rfl
  case submit | unlockFailed | wait | unlock =>
    refine Or.inr (hgo ?_)
    simp only [submitterStep, hpc]
    rfl
  case asleep =>
    rcases hc.2 with ⟨-, hpend⟩ | ⟨-, -, hcb⟩
    · exact Or.inr (hpend.canStep h hwait)
    · exact Or.inr (canStep_callback h (hwait c) (poller_of_callbackOf hcb))
  case reacquire =>
    rcases hc with ⟨hfree, -⟩ | ⟨-, -, -, hcb⟩
    · refine Or.inr (hgo ?_)
      simp only [submitterStep, hpc, if_pos hfree]
      rfl
    · exact Or.inr (canStep_callback h (hwait c) (poller_of_callbackOf hcb))
  case returned rc => exact Or.inl (settled_of_returned h hpc)
  case waitFailed => exact absurd hpc (hwait c)

/-- In every interleaving in which waits end by signals, whatever the scheduler does: `N` calls
take `11 * N` steps at most, a call that has returned has done so with 0 after the callback or
with -1 and a task that was never published, and when no step is left all calls have returned. -/
theorem sync_calls_return {es : List Event} (hrun : machine.Path SignalOnly init es s)
    (hN : ∀ c ok, Event.submitter c ok ∈ es → c < N) :
    es.length ≤ 11 * N ∧ (∀ c rc, (s.calls c).pc = .returned rc → Settled (s.calls c)) ∧
      ((∀ c, Settled (s.calls c)) ∨ CanStep s) := by
  have hinv : Inv s := path_inv (hrun.mono fun _ _ h => h.1)
  have hwait : ∀ d, (s.calls d).pc ≠ .waitFailed :=
    hrun.invariant (fun _ _ _ h hok hs => step_waitFailed h hok hs) fun _ => by
      simp [init, Call.new]
  refine ⟨?_, fun c rc hpc => settled_of_returned hinv hpc, ?_⟩
  · have hplan : ∀ e ∈ es, ∀ c ok, e = .submitter c ok → c < N := by
      rintro e he c ok rfl
      exact hN c ok he
    have hpath := (hrun.and_events hplan).mono fun _ _ h => And.intro h.1.1 h.2
    have hle := (calls_ranking N).count_le hpath ⟨init_inv, fun _ _ => rfl⟩ id
    rw [Machine.cost_zero, List.countP_true, init_rank] at hle
    omega
  · by_cases hcan : CanStep s
    · exact Or.inr hcan
    · exact Or.inl fun c => (settled_or_canStep hinv hwait c).resolve_right hcan

/-- Two calls: the first has returned when the second goes to wait, which is then able to go on. -/
theorem sync_calls_return_racing : ∃ s, machine.Path SignalOnly init racingSchedule s ∧
    (s.calls 0).pc = .returned 0 ∧ racingSchedule.length ≤ 11 * 2 ∧ Settled (s.calls 0) ∧
      CanStep s := by
  obtain ⟨s, hrun, hret, hwait⟩ := racing_run_of signalOnly_sound (by decide)
  have htwo : ∀ c ok, Event.submitter c ok ∈ racingSchedule → c < 2 := by
    simp [racingSchedule]
  obtain ⟨hlen, hsettled, hend⟩ := sync_calls_return hrun htwo
  refine ⟨s, hrun, hret, hlen, hsettled 0 0 hret, hend.resolve_left fun hall => ?_⟩
  rcases hall 1 with hpc | ⟨hpc, -⟩ | ⟨hpc, -⟩ <;> rw [hwait] at hpc <;> cases hpc

end VhostUser.Poller
