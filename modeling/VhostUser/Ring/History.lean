import VhostUser.Ring.GetStep

/-! # Where a call has gone

The stages of a call against what can be observed of it: a put that succeeded is
in the log of reservations, a put whose slots are all free again was reported by
the device and returned by the poller, and the buffers of a task stay what they
were while its put is alive.
-/

namespace VhostUser.Ring

open VhostUser.Lib

variable {s s' : Sys} {c : Nat}

/-! ## What one access of a call can change -/

theorem putStep_task (m : Mem) (C : PutCall) : (putStep m C).2.task = C.task := by
  unfold putStep
  cases C.pc <;> simp only <;> repeat' split
  all_goals rfl

theorem putStep_vbufs (m : Mem) (C : PutCall) (t : TaskPtr) :
    ((putStep m C).1.objs t).vbufs = (m.objs t).vbufs := by
  unfold putStep
  cases C.pc <;> simp only <;> repeat' split
  case storeLink.isTrue =>
    by_cases ht : t = C.task
    · subst ht
      simp [Mem.setObj]
    · simp [Mem.setObj, Function.update_of_ne ht]
  all_goals rfl

/-- The parts of the state outside call `c` that its accesses leave alone. -/
structure PutFrame (s : Sys) (c : Nat) (s' : Sys) : Prop where
  calls : ∀ d, d ≠ c → s'.calls d = s.calls d
  stage : ∀ d, d ≠ c → s'.stage d = s.stage d
  task : (s'.calls c).task = (s.calls c).task
  vbufs : ∀ t, (s'.mem.objs t).vbufs = (s.mem.objs t).vbufs
  usedLog : s'.usedLog = s.usedLog
  returned : s'.returned = s.returned
  log : ∀ d, d ∈ s.log → d ∈ s'.log

/-- The stages a call moves between by its own accesses. -/
inductive PutMove (s : Sys) (c : Nat) (s' : Sys) : Prop
  | stay (hst : s'.stage c = s.stage c)
  | reserve (d idx : Nat) (hpc : (s.calls c).pc = .casLastAvailIdx d idx)
      (hst : s'.stage c = .avail)
  | giveUp (j : Nat) (hpc : (s.calls c).pc = .rollback j) (hst : s'.stage c = .gone)
      (hpc' : (s'.calls c).pc = .done (-1))

theorem put_frame (hs : step s (.put c) = some s') : PutFrame s c s' := by
  simp only [step] at hs
  split at hs
  · cases hs
  · simp only [Option.some.injEq] at hs
    subst hs
    have hcalls : ∀ d, d ≠ c →
        Function.update s.calls c (putStep s.mem (s.calls c)).2 d = s.calls d :=
      fun d hd => Function.update_of_ne hd _ _
    have htask : (Function.update s.calls c (putStep s.mem (s.calls c)).2 c).task =
        (s.calls c).task := by rw [Function.update_self, putStep_task]
    cases hpc : (s.calls c).pc <;> simp only [putHistory, hpc] <;> try split
    all_goals refine ⟨hcalls, fun d hd => ?_, htask, putStep_vbufs _ _, rfl, rfl, fun d hd => ?_⟩
    all_goals first
      | rfl
      | exact Function.update_of_ne hd _ _
      | exact hd
      | exact List.mem_append_left _ hd

theorem put_move (hs : step s (.put c) = some s') : PutMove s c s' := by
  simp only [step] at hs
  split at hs
  · cases hs
  · simp only [Option.some.injEq] at hs
    subst hs
    cases hpc : (s.calls c).pc <;> simp only [putHistory, hpc]
    case rollback j =>
      split
      · exact .stay rfl
      · next hj =>
          refine .giveUp j hpc (by simp) ?_
          simp [putStep, hpc, hj]
    case casLastAvailIdx d idx =>
      split
      · exact .reserve d idx hpc (by simp)
      · exact .stay rfl
    all_goals try split
    all_goals exact .stay rfl

theorem put_call (hs : step s (.put c) = some s') :
    s'.calls c = (putStep s.mem (s.calls c)).2 := by
  simp only [step] at hs
  split at hs
  · cases hs
  · simp only [Option.some.injEq] at hs
    subst hs
    cases hpc : (s.calls c).pc <;> simp only [putHistory, hpc] <;> try split
    all_goals exact Function.update_self ..

theorem loopPc_not_published (o : Task) (i : Nat) : ¬ Published (loopPc o i) := by
  unfold loopPc
  split <;> simp [Published]

theorem putStep_published {m : Mem} {C : PutCall} (hp : Published (putStep m C).2.pc) :
    Published C.pc ∨ ∃ idx, C.pc = .casAvailIdx idx := by
  cases hpc : C.pc <;> simp only [putStep, hpc] at hp
  case casAvailIdx idx => exact Or.inr ⟨idx, rfl⟩
  case loadUsedFlags | writeKickfd => exact Or.inl trivial
  case done rc => exact Or.inl hp
  all_goals repeat' split at hp
  case storeFlags => exact absurd hp (loopPc_not_published _ _)
  all_goals simp [Published] at hp

/-! ## Settled calls -/

/-- The observable history of published, reported and finished puts. -/
structure Settled (s : Sys) : Prop where
  logged : ∀ c, Published (s.calls c).pc → c ∈ s.log
  reported : ∀ c, s.stage c = .used → ∃ (j : Nat) (len : Nat), s.usedLog[j]? = some (c, len)
  reaped : ∀ c, s.stage c = .gone → Published (s.calls c).pc →
    ∃ j len, j < s.returned.length ∧ s.usedLog[j]? = some (c, len)

theorem init_settled : Settled init := by constructor <;> simp [init, Published]

theorem settled_start (hse : Settled s) {t : TaskPtr} {vbufs : List Buffer}
    (hs : step s (.start c t vbufs) = some s') : Settled s' := by
  simp only [step] at hs
  split at hs
  · simp only [Option.some.injEq] at hs
    subst hs
    have hnew := loopPc_not_published { s.mem.objs t with vbufs := vbufs } 0
    constructor
    · intro d hp
      by_cases hd : d = c
      · subst hd
        simp [putStart, Mem.setObj, hnew] at hp
      · simp only [Function.update_of_ne hd] at hp
        exact hse.logged d hp
    · intro d hst
      by_cases hd : d = c
      · subst hd
        simp at hst
      · simp only [Function.update_of_ne hd] at hst
        exact hse.reported d hst
    · intro d hst hp
      by_cases hd : d = c
      · subst hd
        simp at hst
      · simp only [Function.update_of_ne hd] at hst hp
        exact hse.reaped d hst hp
  · cases hs

theorem settled_put (h : Inv s) (hse : Settled s) (hs : step s (.put c) = some s') :
    Settled s' := by
  have hf := put_frame hs
  constructor
  · intro d hp
    apply hf.log
    by_cases hd : d = c
    · subst hd
      rw [put_call hs] at hp
      rcases putStep_published hp with hp | ⟨idx, hpc⟩
      · exact hse.logged d hp
      · exact h.log.mem d (h.avail_of_pc (Or.inr hpc))
    · rw [hf.calls d hd] at hp
      exact hse.logged d hp
  · intro d hst
    rw [hf.usedLog]
    by_cases hd : d = c
    · subst hd
      rcases put_move hs with hst' | ⟨_, _, _, hst'⟩ | ⟨_, _, hst', _⟩
      · exact hse.reported d (hst'.symm.trans hst)
      · rw [hst'] at hst
        cases hst
      · rw [hst'] at hst
        cases hst
    · rw [hf.stage d hd] at hst
      exact hse.reported d hst
  · intro d hst hp
    rw [hf.usedLog, hf.returned]
    by_cases hd : d = c
    · subst hd
      rcases put_move hs with hst' | ⟨_, _, _, hst'⟩ | ⟨_, _, _, hpc'⟩
      · rw [hst'] at hst
        have hcall := h.calls d
        rw [hst] at hcall
        rcases hcall.2 with hpc | hpub
        · rw [put_call hs] at hp
          simp [putStep, hpc, Published] at hp
        · exact hse.reaped d hst hpub
      · rw [hst'] at hst
        cases hst
      · simp [hpc', Published] at hp
    · rw [hf.stage d hd] at hst
      rw [hf.calls d hd] at hp
      exact hse.reaped d hst hp

theorem settled_poll (h : Inv s) (hse : Settled s) (hs : step s .poll = some s') :
    Settled s' := by
  have hp := h.poll
  simp only [step, Option.some.injEq] at hs
  subst hs
  cases hpc : s.poller
  case storeLastUsedIdx u t =>
    simp only [PollOk, hpc] at hp
    obtain ⟨c, len, hr, -⟩ := hp
    simp only [getHistory, getStep, hpc, hr.current]
    refine ⟨hse.logged, fun d hst => ?_, fun d hst hpub => ?_⟩
    · by_cases hd : d = c
      · subst hd
        exact ⟨_, len, hr.entry⟩
      · simp only [Function.update_of_ne hd] at hst
        exact hse.reported d hst
    · simp only [List.length_append, List.length_singleton]
      by_cases hd : d = c
      · subst hd
        exact ⟨_, len, Nat.lt_succ_self _, hr.entry⟩
      · simp only [Function.update_of_ne hd] at hst
        obtain ⟨j, l, hj, hget⟩ := hse.reaped d hst hpub
        exact ⟨j, l, by omega, hget⟩
  all_goals simp only [getHistory, getStep, hpc]
  all_goals exact ⟨hse.logged, hse.reported, hse.reaped⟩

theorem settled_complete (hse : Settled s) {k len : Nat}
    (hs : step s (.complete k len) = some s') : Settled s' := by
  simp only [step] at hs
  split at hs
  · cases hs
  · next c head hk =>
      simp only [Option.some.injEq] at hs
      subst hs
      have hgrow : ∀ {j : Nat} {p : Nat × Nat}, s.usedLog[j]? = some p →
          (s.usedLog ++ [(c, len)])[j]? = some p := by
        intro j p hj
        rw [List.getElem?_append_left (List.getElem?_eq_some_iff.mp hj).1]
        exact hj
      refine ⟨hse.logged, fun d hst => ?_, fun d hst hp => ?_⟩
      · by_cases hd : d = c
        · subst hd
          exact ⟨s.usedLog.length, len, by simp⟩
        · simp only [Function.update_of_ne hd] at hst
          obtain ⟨j, l, hget⟩ := hse.reported d hst
          exact ⟨j, l, hgrow hget⟩
      · by_cases hd : d = c
        · subst hd
          simp at hst
        · simp only [Function.update_of_ne hd] at hst
          obtain ⟨j, l, hj, hget⟩ := hse.reaped d hst hp
          exact ⟨j, l, hj, hgrow hget⟩

theorem settled_step {e : Event} (h : Inv s) (hse : Settled s) (hs : step s e = some s') :
    Settled s' := by
  cases e with
  | start c t vbufs => exact settled_start hse hs
  | put c => exact settled_put h hse hs
  | poll => exact settled_poll h hse hs
  | fetch =>
      obtain ⟨c, -, -, -, -, -, rfl⟩ := h.fetch_cases hs
      refine ⟨hse.logged, fun d hst => hse.reported d ?_, fun d hst hp => hse.reaped d ?_ hp⟩
      all_goals
        by_cases hd : d = c
        · subst hd
          simp at hst
        · simpa only [Function.update_of_ne hd] using hst
  | complete k len => exact settled_complete hse hs
  | usedFlags f =>
      simp only [step, Option.some.injEq] at hs
      subst hs
      exact ⟨hse.logged, hse.reported, hse.reaped⟩

theorem path_settled {es : List Event} (h : machine.Path NoLinkRace init es s) : Settled s :=
  (h.invariant (I := fun s => Inv s ∧ Settled s)
    (fun _ _ _ hi hok hs => ⟨step_inv hi.1 hok hs, settled_step hi.1 hi.2 hs⟩)
    ⟨init_inv, init_settled⟩).2

/-! ## Buffers of live calls -/

/-- The task of every live call has at least `m` buffers. -/
def Wide (m : Nat) (s : Sys) : Prop :=
  ∀ c, s.Live c → m ≤ (s.mem.objs (s.calls c).task).count

variable {m : Nat}

theorem Wide.frame (hw : Wide m s)
    (hlive : ∀ c, s'.Live c → s.Live c ∧ (s'.calls c).task = (s.calls c).task)
    (hvbufs : ∀ t, (s'.mem.objs t).vbufs = (s.mem.objs t).vbufs) : Wide m s' := by
  intro c hc
  obtain ⟨hc', htask⟩ := hlive c hc
  rw [htask, VirtioTask.count, hvbufs]
  exact hw c hc'

theorem wide_start (h : Inv s) (hw : Wide m s) {t : TaskPtr} {vbufs : List Buffer}
    (hm : m ≤ vbufs.length) (hs : step s (.start c t vbufs) = some s') : Wide m s' := by
  simp only [step] at hs
  split at hs
  · next hfree =>
      simp only [Option.some.injEq] at hs
      subst hs
      intro d hd
      by_cases hdc : d = c
      · subst hdc
        simpa [putStart, Mem.setObj, VirtioTask.count] using hm
      · simp only [Sys.Live, Function.update_of_ne hdc] at hd
        have hne : (s.calls d).task ≠ t := by
          intro heq
          have huse := (h.owned.user t d).mpr ⟨heq, hd⟩
          rw [hfree.2] at huse
          cases huse
        simp only [Function.update_of_ne hdc, Mem.setObj, Function.update_of_ne hne]
        exact hw d hd
  · cases hs

theorem put_live (h : Inv s) (hs : step s (.put c) = some s') (d : Nat) (hd : s'.Live d) :
    s.Live d := by
  have hf := put_frame hs
  unfold Sys.Live at hd ⊢
  by_cases hdc : d = c
  · subst hdc
    rcases put_move hs with hst | ⟨e, idx, hpc, -⟩ | ⟨_, _, hst, _⟩
    · rwa [hst] at hd
    · have hb := h.building_of_pc (c := d) (by simp [hpc]) (by simp [hpc, Published])
        (by simp [hpc]) (by simp [hpc]) (by simp [hpc])
      simp [hb]
    · exact absurd hst hd.2
  · rwa [hf.stage d hdc] at hd

theorem poll_vbufs (hs : step s .poll = some s') (t : TaskPtr) :
    (s'.mem.objs t).vbufs = (s.mem.objs t).vbufs := by
  simp only [step, Option.some.injEq] at hs
  subst hs
  cases hpc : s.poller
  case storeUsedBytes u d t' =>
    simp only [getHistory, getStep, hpc]
    by_cases ht : t = t'
    · subst ht
      simp [Mem.setObj]
    · simp [Mem.setObj, Function.update_of_ne ht]
  all_goals simp only [getHistory, getStep, hpc]
  case loadUsedIdx | loadTask | checkVringIdx | loadFlags | checkTask => split <;> rfl
  all_goals rfl

theorem poll_calls (hs : step s .poll = some s') : s'.calls = s.calls := by
  simp only [step, Option.some.injEq] at hs
  subst hs
  cases hpc : s.poller
  all_goals simp only [getHistory, getStep, hpc, clearHistory]

theorem poll_live (hs : step s .poll = some s') (d : Nat) (hd : s'.Live d) : s.Live d := by
  simp only [step, Option.some.injEq] at hs
  subst hs
  cases hpc : s.poller
  case storeLastUsedIdx u t =>
    simp only [getHistory, getStep, hpc] at hd
    cases hcur : s.current with
    | none => simpa [Sys.Live, hcur] using hd
    | some c =>
        by_cases hdc : d = c
        · subst hdc
          simp [Sys.Live, hcur] at hd
        · simpa [Sys.Live, hcur, Function.update_of_ne hdc] using hd
  all_goals simp only [getHistory, getStep, hpc] at hd
  all_goals exact hd

theorem wide_step {e : Event} (h : Inv s) (hw : Wide m s)
    (hm : ∀ c t vbufs, e = .start c t vbufs → m ≤ vbufs.length) (hs : step s e = some s') :
    Wide m s' := by
  cases e with
  | start c t vbufs => exact wide_start h hw (hm c t vbufs rfl) hs
  | put c =>
      have hf := put_frame hs
      refine hw.frame (fun d hd => ⟨put_live h hs d hd, ?_⟩) hf.vbufs
      by_cases hdc : d = c
      · rw [hdc]; exact hf.task
      · rw [hf.calls d hdc]
  | poll =>
      exact hw.frame (fun d hd => ⟨poll_live hs d hd, by rw [poll_calls hs]⟩) (poll_vbufs hs)
  | fetch =>
      obtain ⟨c, -, -, hst, -, -, rfl⟩ := h.fetch_cases hs
      refine hw.frame (fun d hd => ⟨?_, rfl⟩) fun _ => rfl
      by_cases hdc : d = c
      · simp [hdc, Sys.Live, hst]
      · simpa [Sys.Live, Function.update_of_ne hdc] using hd
  | complete k len =>
      simp only [step] at hs
      split at hs
      · cases hs
      · next c head hk =>
          simp only [Option.some.injEq] at hs
          subst hs
          refine hw.frame (fun d hd => ⟨?_, rfl⟩) fun _ => rfl
          by_cases hdc : d = c
          · simp [hdc, Sys.Live, (h.used.pending c head (List.mem_of_getElem? hk)).1]
          · simpa [Sys.Live, Function.update_of_ne hdc] using hd
  | usedFlags f =>
      simp only [step, Option.some.injEq] at hs
      subst hs
      exact hw

/-- In a run that only puts tasks of at least `m` buffers, live calls have as many. -/
theorem path_wide {es : List Event} (h : machine.Path (fun s e => NoLinkRace s e ∧
    ∀ c t vbufs, e = .start c t vbufs → m ≤ vbufs.length) init es s) : Wide m s := by
  refine (h.invariant (I := fun s => Inv s ∧ Wide m s) ?_ ⟨init_inv, ?_⟩).2
  · intro s e s' hi hok hs
    exact ⟨step_inv hi.1 hok.1 hs, wide_step hi.1 hi.2 hok.2 hs⟩
  · intro c hc
    simp [init, Sys.Live] at hc

end VhostUser.Ring
