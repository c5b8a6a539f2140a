import VhostUser.Lib.Ranking
import VhostUser.Ring.Queue

/-! # Progress of `vring_put_task`

The loops of a put end, whatever the other producers, the poller and the device do: a round of
the search passes over a slot once, and a compare-and-swap fails only because another call
claimed a slot or reserved a position. Only the loop that publishes a position waits. It waits
for the calls that reserved lower positions, which store their head and publish, two accesses
each.
-/

namespace VhostUser.Ring

open VhostUser.Lib

variable {s s' : Sys} {c : Nat}

/-! ## What others do to a call -/

/-- A step of another call that takes what a compare-and-swap was about to take: it claims a
slot or reserves a position. -/
def contends (c : Nat) (s : Sys) : Event → Nat
  | .put d =>
      if d = c then 0
      else
        match (s.calls d).pc with
        | .casTask _ idx => if s.mem.vring.tasks idx = none then 1 else 0
        | .casLastAvailIdx _ idx => if s.mem.vring.lastAvailIdx = idx then 1 else 0
        | _ => 0
  | _ => 0

/-- A step of the call that finds lower positions unpublished. -/
def waits (c : Nat) (s : Sys) : Event → Nat
  | .put d =>
      if d = c then
        match (s.calls d).pc with
        | .casAvailIdx idx => if s.mem.vring.avail.idx = idx then 0 else 1
        | _ => 0
      else 0
  | _ => 0

/-- What a step of somebody else leaves to call `c`. -/
structure Undisturbed (c : Nat) (s s' : Sys) (e : Event) : Prop where
  calls : s'.calls c = s.calls c
  count : s.stage c = .building →
    (s'.mem.objs (s.calls c).task).count = (s.mem.objs (s.calls c).task).count
  free : contends c s e = 0 → ∀ x, s.mem.vring.tasks x = none → s'.mem.vring.tasks x = none
  lastAvailIdx : contends c s e = 0 → s'.mem.vring.lastAvailIdx = s.mem.vring.lastAvailIdx

theorem put_undisturbed {d : Nat} (hd : d ≠ c) (hs : step s (.put d) = some s') :
    Undisturbed c s s' (.put d) := by
  have hf := put_frame hs
  refine ⟨hf.calls c (Ne.symm hd), fun _ => ?_, ?_, ?_⟩
  · rw [VirtioTask.count, hf.vbufs, VirtioTask.count]
  all_goals
    simp only [step] at hs
    split at hs
    · cases hs
  · intro hzero x hx
    simp only [Option.some.injEq] at hs
    subst hs
    simp only [contends, if_neg hd] at hzero
    cases hpc : (s.calls d).pc <;> simp only [putHistory, putStep, hpc] at hzero ⊢
    case casTask saved idx =>
      -- the slot was taken before, or this step takes it and contends
      cases htask : s.mem.vring.tasks idx with
      | none => simp [htask] at hzero
      | some t => simpa [htask] using hx
    case rollback j =>
      split
      · simp only [Mem.setTask]
        by_cases hxs : x = (s.calls d).slots.getD j 0
        · rw [hxs, Function.update_self]
        · rw [Function.update_of_ne hxs, hx]
      · exact hx
    all_goals repeat' split
    all_goals exact hx
  · intro hzero
    simp only [Option.some.injEq] at hs
    subst hs
    simp only [contends, if_neg hd] at hzero
    cases hpc : (s.calls d).pc <;> simp only [putHistory, putStep, hpc] at hzero ⊢
    case casLastAvailIdx h idx =>
      by_cases heq : s.mem.vring.lastAvailIdx = idx
      · simp [heq] at hzero
      · simp [heq]
    all_goals repeat' split
    all_goals rfl

theorem poll_undisturbed (hs : step s .poll = some s') : Undisturbed c s s' .poll := by
  refine ⟨congrFun (poll_calls hs) c, fun _ => ?_, fun _ => ?_, fun _ => ?_⟩
  · rw [VirtioTask.count, poll_vbufs hs, VirtioTask.count]
  all_goals
    simp only [step, Option.some.injEq] at hs
    subst hs
  · intro x hx
    cases hpc : s.poller <;> simp only [getHistory, getStep, hpc, clearHistory]
    case clearTask u t idx | clearLast u t idx =>
      simp only [Mem.setTask]
      by_cases hxi : x = idx
      · rw [hxi, Function.update_self]
      · rw [Function.update_of_ne hxi, hx]
    all_goals repeat' split
    all_goals exact hx
  · cases hpc : s.poller <;> simp only [getHistory, getStep, hpc, clearHistory]
    all_goals repeat' split
    all_goals rfl

theorem start_undisturbed (h : Inv s) {d : Nat} {t : TaskPtr} {vbufs : List Buffer}
    (hidle : (s.calls c).pc ≠ .idle) (hs : step s (.start d t vbufs) = some s') :
    Undisturbed c s s' (.start d t vbufs) := by
  simp only [step] at hs
  split at hs
  · next hfree =>
      cases hs
      have hdc : c ≠ d := fun heq => hidle (heq ▸ hfree.1)
      refine ⟨Function.update_of_ne hdc _ _, fun hb => ?_, fun _ _ hx => hx, fun _ => rfl⟩
      -- the task object of a call under construction is in use
      have huse : s.user (s.calls c).task = some c :=
        (h.owned.user _ c).mpr ⟨rfl, by simp [hb], by simp [hb]⟩
      have hne : (s.calls c).task ≠ t := by
        intro heq
        rw [heq, hfree.2] at huse
        cases huse
      simp only [Mem.setObj, Function.update_of_ne hne]
  · cases hs

theorem Inv.undisturbed (h : Inv s) {e : Event} (hidle : (s.calls c).pc ≠ .idle)
    (he : e ≠ .put c) (hs : step s e = some s') : Undisturbed c s s' e := by
  cases e with
  | start d t vbufs => exact start_undisturbed h hidle hs
  | put d => exact put_undisturbed (fun hd => he (hd ▸ rfl)) hs
  | poll => exact poll_undisturbed hs
  | fetch =>
      simp only [step] at hs
      split at hs
      · cases hs
      · cases hs
        exact ⟨rfl, fun _ => rfl, fun _ _ hx => hx, fun _ => rfl⟩
  | complete k len =>
      simp only [step] at hs
      split at hs
      · cases hs
      · cases hs
        exact ⟨rfl, fun _ => rfl, fun _ _ hx => hx, fun _ => rfl⟩
  | usedFlags f =>
      cases hs
      exact ⟨rfl, fun _ => rfl, fun _ _ hx => hx, fun _ => rfl⟩

/-! ## The rank of a put -/

/-- How many slots the search has still to pass before it is back where it began. -/
def round (saved idx : Nat) : Nat := (saved + (vhostVringSize - 1) - idx) % vhostVringSize

/-- The accesses that a put still needs if nobody interferes. A compare-and-swap that will fail
costs two more. -/
def putRank (m : Mem) (C : PutCall) : Nat :=
  let n := (m.objs C.task).count
  let rest := (vhostVringSize + 7) * (n - (C.i + 1)) + n + 7
  match C.pc with
  | .idle => 0
  | .loadTaskIdx => rest + (vhostVringSize + 7)
  | .loadTask saved idx => rest + 7 + round saved idx
  | .casTask saved idx =>
      rest + 6 + round saved idx + if m.vring.tasks idx = none then 0 else 2
  | .storeTaskIdx _ => rest + 5
  | .storeLink _ => rest + 4
  | .storeAddr _ => rest + 3
  | .storeLen _ => rest + 2
  | .storeFlags _ => rest + 1
  | .rollback j => C.i - j + 1
  | .loadVringIdx => 7
  | .loadLastAvailIdx _ => 6
  | .casLastAvailIdx _ idx => 5 + if m.vring.lastAvailIdx = idx then 0 else 2
  | .storeAvailRing _ _ => 4
  | .casAvailIdx _ => 3
  | .loadUsedFlags => 2
  | .writeKickfd => 1
  | .done _ => 0

/-- An upper bound on the accesses of a put of `n` buffers that nobody interferes with. -/
def putBound (n : Nat) : Nat := (vhostVringSize + 8) * n + 7

theorem round_next {saved idx : Nat} (hsaved : saved < vhostVringSize)
    (hidx : idx < vhostVringSize) (hne : (idx + 1) &&& mask ≠ saved) :
    round saved ((idx + 1) &&& mask) + 1 = round saved idx := by
  rw [and_mask] at hne ⊢
  simp only [round, vhostVringSize] at *
  omega

theorem round_self (saved : Nat) : round saved saved = vhostVringSize - 1 := by
  simp only [round, vhostVringSize]
  omega

def Returned (C : PutCall) : Prop := ∃ rc, C.pc = .done rc

/-- A call that searches does so within the table, for a buffer of its task. -/
def Searching (m : Mem) (C : PutCall) : Prop :=
  ∀ saved idx, C.pc = .loadTask saved idx →
    saved < vhostVringSize ∧ idx < vhostVringSize ∧ C.i < (m.objs C.task).count

theorem Inv.searching (h : Inv s) (c : Nat) : Searching s.mem (s.calls c) := by
  intro saved idx hpc
  have hb := h.building_of_pc (c := c) (by simp [hpc]) (by simp [hpc, Published]) (by simp [hpc])
    (by simp [hpc]) (by simp [hpc])
  have hcall := h.calls c
  simp only [hb, CallOk, BuildOk, hpc] at hcall
  exact ⟨hcall.2.2.2.1, hcall.2.2.2.2, hcall.2.2.1.lt⟩

theorem putRank_loop (m : Mem) (C : PutCall) :
    putRank m { C with pc := loopPc (m.objs C.task) C.i } ≤
      (vhostVringSize + 7) * ((m.objs C.task).count - C.i) + (m.objs C.task).count + 7 := by
  by_cases hlt : C.i < (m.objs C.task).count
  · have hsplit : (m.objs C.task).count - C.i = (m.objs C.task).count - (C.i + 1) + 1 := by omega
    simp only [loopPc, if_pos hlt, putRank]
    rw [hsplit, Nat.mul_add]
    omega
  · simp only [loopPc, if_neg hlt, putRank]
    omega

/-- An access of the call itself: it comes closer to its return, or it waits. -/
theorem putStep_rank {m : Mem} {C : PutCall} (hs : Searching m C) (hidle : C.pc ≠ .idle)
    (hwait : ∀ idx, C.pc = .casAvailIdx idx → m.vring.avail.idx = idx) (hret : ¬ Returned C) :
    putRank (putStep m C).1 (putStep m C).2 + 1 ≤ putRank m C := by
  have hsize : vhostVringSize = 1024 := rfl
  cases hpc : C.pc
  case idle => exact absurd hpc hidle
  case done rc => exact absurd ⟨rc, hpc⟩ hret
  case loadTaskIdx =>
    simp only [putStep, putRank, hpc, round_self]
    omega
  case loadTask saved idx =>
    obtain ⟨hsaved, hidx, hi⟩ := hs saved idx hpc
    simp only [putStep, hpc]
    cases htask : m.vring.tasks idx with
    | none =>
        simp only [putRank, hpc, htask, if_true]
        omega
    | some t =>
        simp only
        split
        · simp only [putRank, hpc]
          omega
        · next hne =>
            have hround := round_next hsaved hidx hne
            simp only [putRank, hpc]
            omega
  case casTask saved idx =>
    simp only [putStep, hpc]
    cases htask : m.vring.tasks idx with
    | none =>
        simp only [putRank, hpc, htask, Mem.setTask, if_true]
        omega
    | some t =>
        simp only [putRank, hpc, htask, reduceCtorEq, if_false]
        omega
  case storeLink idx =>
    simp only [putStep, hpc]
    split
    · simp only [putRank, hpc, Mem.setObj, Function.update_self, VirtioTask.count]
      omega
    · simp only [putRank, hpc, Mem.setDesc]
      omega
  case storeFlags idx =>
    have hloop := putRank_loop
      (m.setDesc idx { m.vring.desc idx with
        flags := descFlags (vbufAt (m.objs C.task) C.i) (C.i + 1 == (m.objs C.task).count) })
      { C with i := C.i + 1, prevIdx := idx }
    simp only [Mem.setDesc] at hloop
    simp only [putStep, hpc, Mem.setDesc]
    refine (Nat.add_le_add_right hloop 1).trans ?_
    simp only [putRank, hpc]
    omega
  case rollback j =>
    simp only [putStep, hpc]
    split
    · simp only [putRank, hpc]
      omega
    · simp only [putRank, hpc]
      omega
  case casLastAvailIdx d idx =>
    simp only [putStep, hpc]
    split
    · next heq => simp only [putRank, hpc, if_pos heq]; omega
    · next hne => simp only [putRank, hpc, if_neg hne]; omega
  case casAvailIdx idx =>
    simp only [putStep, hpc, if_pos (hwait idx hpc), putRank]
    omega
  case loadUsedFlags =>
    simp only [putStep, hpc]
    split <;> simp [putRank, hpc]
  case loadLastAvailIdx d => simp [putStep, putRank, hpc]
  all_goals simp [putStep, putRank, hpc, Mem.setDesc, Mem.setTaskIdx]

theorem Undisturbed.rank {e : Event} (hu : Undisturbed c s s' e) (h : Inv s) :
    putRank s'.mem (s'.calls c) ≤ putRank s.mem (s.calls c) + 2 * contends c s e := by
  rw [hu.calls]
  cases hpc : (s.calls c).pc <;> simp only [putRank, hpc]
  case casTask saved idx =>
    rw [hu.count (h.building_of_pc (by simp [hpc]) (by simp [hpc, Published]) (by simp [hpc])
      (by simp [hpc]) (by simp [hpc]))]
    rcases Nat.eq_zero_or_pos (contends c s e) with hzero | hpos
    · have hfree := hu.free hzero idx
      by_cases htask : s.mem.vring.tasks idx = none
      · rw [if_pos htask, if_pos (hfree htask)]
        omega
      · rw [if_neg htask]
        split <;> omega
    · split <;> split <;> omega
  case casLastAvailIdx d idx =>
    rcases Nat.eq_zero_or_pos (contends c s e) with hzero | hpos
    · rw [hu.lastAvailIdx hzero]
      omega
    · split <;> split <;> omega
  case loadTaskIdx | loadTask | storeTaskIdx | storeLink | storeAddr | storeLen | storeFlags =>
    rw [hu.count (h.building_of_pc (by simp [hpc]) (by simp [hpc, Published]) (by simp [hpc])
      (by simp [hpc]) (by simp [hpc]))]
    omega
  all_goals omega

theorem putStep_idle {m : Mem} {C : PutCall} (hidle : C.pc ≠ .idle) :
    (putStep m C).2.pc ≠ .idle := by
  cases hpc : C.pc <;> simp only [putStep, hpc, ne_eq]
  case idle => exact absurd hpc hidle
  case storeFlags =>
    unfold loopPc
    split <;> simp
  all_goals repeat' split
  all_goals simp [hpc]

theorem put_mem (hs : step s (.put c) = some s') : s'.mem = (putStep s.mem (s.calls c)).1 := by
  simp only [step] at hs
  split at hs
  · cases hs
  · simp only [Option.some.injEq] at hs
    subst hs
    cases hpc : (s.calls c).pc <;> simp only [putHistory, hpc] <;> try split
    all_goals rfl

/-- A call of `vring_put_task` comes closer to its return with each access that does not wait. -/
theorem put_ranking (c : Nat) : machine.Ranking NoLinkRace
    (fun s => Inv s ∧ (s.calls c).pc ≠ .idle) (· == .put c) (fun s => Returned (s.calls c))
    (fun s => putRank s.mem (s.calls c)) (fun s e => 2 * contends c s e + waits c s e) where
  keeps s e s' hI hok hs := by
    refine ⟨step_inv hI.1 hok hs, ?_⟩
    by_cases he : e = .put c
    · subst he
      rw [put_call hs]
      exact putStep_idle hI.2
    · rw [(hI.1.undisturbed hI.2 he hs).calls]
      exact hI.2
  stays s e s' hI _ hs hret := by
    obtain ⟨rc, hpc⟩ := hret
    by_cases he : e = .put c
    · subst he
      refine ⟨rc, ?_⟩
      rw [put_call hs]
      simp only [putStep, hpc]
    · exact ⟨rc, by rw [(hI.1.undisturbed hI.2 he hs).calls, hpc]⟩
  own s e s' hI _ hs he hret := by
    cases eq_of_beq he
    rw [put_call hs] at hret ⊢
    rw [put_mem hs]
    by_cases hwait : ∀ idx, (s.calls c).pc = .casAvailIdx idx → s.mem.vring.avail.idx = idx
    · have hbusy : ¬ Returned (s.calls c) := by
        rintro ⟨rc, hpc⟩
        exact hret ⟨rc, by simp only [putStep, hpc]⟩
      have hlower := putStep_rank (hI.1.searching c) hI.2 hwait hbusy
      omega
    · -- a call that waits stays where it is, and pays for it
      push Not at hwait
      obtain ⟨idx, hpc, hne⟩ := hwait
      simp only [putStep, hpc, if_neg hne, waits, if_true]
      omega
  other s e s' hI _ hs he _ := by
    have hne : e ≠ .put c := fun heq => he (by simp [heq])
    have hle := (hI.1.undisturbed hI.2 hne hs).rank hI.1
    omega

theorem start_rank {t : TaskPtr} {vbufs : List Buffer}
    (hs : step s (.start c t vbufs) = some s') :
    (s'.calls c).pc ≠ .idle ∧ putRank s'.mem (s'.calls c) ≤ putBound vbufs.length := by
  simp only [step] at hs
  split at hs
  · cases hs
    simp only [Function.update_self]
    refine ⟨?_, ?_⟩
    · simp only [putStart, loopPc]
      split <;> simp
    · have hloop := putRank_loop (s.mem.setObj t { s.mem.objs t with vbufs := vbufs })
        (putStart (s.mem.setObj t { s.mem.objs t with vbufs := vbufs }) t)
      simp only [Mem.setObj, Function.update_self, VirtioTask.count, putStart, Nat.sub_zero] at hloop ⊢
      refine hloop.trans ?_
      rw [putBound, Nat.add_mul, Nat.add_mul]
      omega
  · cases hs

theorem putRank_pos {m : Mem} {C : PutCall} (hidle : C.pc ≠ .idle)
    (hdone : ¬ ∃ rc, C.pc = .done rc) : 0 < putRank m C := by
  cases hpc : C.pc with
  | idle => exact absurd hpc hidle
  | done rc => exact absurd ⟨rc, hpc⟩ hdone
  | _ =>
      simp only [putRank, hpc]
      omega

/-- Among any number of other producers, the poller and the device: a put of `n` buffers returns
within `putBound n` of its own accesses, not counting those in which it waits for lower
positions to be published, and two for each slot or position that another put took from it. -/
theorem put_returns {es es' : List Event} {s₁ : Sys} {t : TaskPtr} {vbufs : List Buffer}
    (hrun : machine.Path NoLinkRace init es s) (hne : vbufs ≠ [])
    (hstart : step s (.start c t vbufs) = some s₁) (hrun' : machine.Path NoLinkRace s₁ es' s')
    (henough : putBound vbufs.length + 2 * machine.cost (contends c) s₁ es' +
      machine.cost (waits c) s₁ es' ≤ es'.count (.put c)) :
    ∃ rc, (s'.calls c).pc = .done rc := by
  have h₁ : Inv s₁ := step_inv (path_inv hrun) (e := .start c t vbufs) hne hstart
  obtain ⟨hidle, hrank⟩ := start_rank hstart
  apply (put_ranking c).reaches_of_pos (fun s h hdone => putRank_pos h.2 hdone) hrun' ⟨h₁, hidle⟩
  rw [Machine.cost_add (fun s e => 2 * contends c s e) (waits c), Machine.cost_mul]
  rw [List.count] at henough
  omega

/-- Call 1 takes the slot that call 0 has found free, and the position it was about to reserve.
Call 0 then waits once for call 1 to publish. -/
def contendedSchedule : List Event :=
  List.replicate 2 (.put 0) ++ [.start 1 101 [sector 3]] ++ List.replicate 10 (.put 1) ++
    List.replicate 11 (.put 0) ++ [.put 1] ++ List.replicate 5 (.put 0) ++
    List.replicate 2 (.put 1) ++ List.replicate 1030 (.put 0)

theorem put_returns_contended : ∃ s₁ s', step init (.start 0 100 [sector 1]) = some s₁ ∧
    machine.Path NoLinkRace s₁ contendedSchedule s' ∧
    machine.cost (contends 0) s₁ contendedSchedule = 2 ∧
    machine.cost (waits 0) s₁ contendedSchedule = 1 ∧ ∃ rc, (s'.calls 0).pc = .done rc := by
  have hany : (machine.execIf noLinkRace init [.start 0 100 [sector 1]]).any (fun s₁ =>
      (machine.execIf noLinkRace s₁ contendedSchedule).any (fun _ =>
        machine.cost (contends 0) s₁ contendedSchedule == 2 &&
          machine.cost (waits 0) s₁ contendedSchedule == 1)) = true := by decide +kernel
  obtain ⟨s₁, hstart, hs₁⟩ := Machine.Path.of_check noLinkRace_sound hany
  obtain ⟨s', hrun, hs'⟩ := Machine.Path.of_check noLinkRace_sound hs₁
  simp only [Bool.and_eq_true, beq_iff_eq] at hs'
  cases hstart with
  | cons hok hstep hnil =>
      cases hnil
      refine ⟨s₁, s', hstep, hrun, hs'.1, hs'.2, put_returns (.nil _) (by simp) hstep hrun ?_⟩
      rw [hs'.1, hs'.2]
      decide +kernel

/-! ## Publication -/

/-- Reservations and publications are never taken back. -/
structure Grows (s s' : Sys) : Prop where
  log : ∃ l, s'.log = s.log ++ l
  publ : s.publ ≤ s'.publ

theorem step_grows {e : Event} (hs : step s e = some s') : Grows s s' := by
  cases e with
  | put d =>
      obtain ⟨-, -, -, hlog, hpubl⟩ := put_rings hs
      refine ⟨?_, ?_⟩
      · rcases hlog with hlog | hlog
        · exact ⟨[], by rw [hlog, List.append_nil]⟩
        · exact ⟨[d], hlog⟩
      · rcases hpubl with hpubl | ⟨idx, -, -, hpubl, -⟩ <;> omega
  | poll =>
      obtain ⟨hlog, hpubl, -, -, -⟩ := poll_rings hs
      exact ⟨⟨[], by rw [hlog, List.append_nil]⟩, hpubl.ge⟩
  | _ =>
      simp only [step] at hs
      repeat' split at hs
      all_goals cases hs
      all_goals exact ⟨⟨[], (List.append_nil _).symm⟩, Nat.le_refl _⟩

theorem Grows.getElem? (h : Grows s s') {q : Nat} (hq : s.log[q]? = some c) :
    s'.log[q]? = some c := by
  obtain ⟨l, hl⟩ := h.log
  rw [hl, List.getElem?_append_left (List.getElem?_eq_some_iff.mp hq).1, hq]

/-- Position `p` is reserved by call `c`, and all positions below it are published. -/
structure Holds (c p : Nat) (s : Sys) : Prop where
  inv : Inv s
  entry : s.log[p]? = some c
  le : p ≤ s.publ

/-- Whether the call has still to store its head. -/
def headRank (C : PutCall) : Nat :=
  match C.pc with
  | .storeAvailRing _ _ => 1
  | _ => 0

theorem Holds.pc {p : Nat} (h : Holds c p s) (hle : s.publ ≤ p) :
    (∃ d idx, (s.calls c).pc = .storeAvailRing d idx) ∨
      (s.calls c).pc = .casAvailIdx s.mem.vring.avail.idx := by
  have hp : p = s.publ := Nat.le_antisymm h.le hle
  rcases h.inv.log.pc_ge p c h.entry hle with ⟨d, hpc⟩ | hpc
  · exact Or.inl ⟨d, _, hpc⟩
  · rw [h.inv.counters.availIdx, ← hp]
    exact Or.inr hpc

theorem publication_ranking (c p : Nat) : machine.Ranking NoLinkRace (Holds c p)
    (· == .put c) (fun s => p < s.publ) (fun s => headRank (s.calls c)) (fun _ _ => 0) where
  keeps s e s' hI hok hs :=
    ⟨step_inv hI.inv hok hs, (step_grows hs).getElem? hI.entry, hI.le.trans (step_grows hs).publ⟩
  stays _ _ _ _ _ hs hdone := hdone.trans_le (step_grows hs).publ
  own s e s' hI _ hs he hdone := by
    have hle : s.publ ≤ p := (step_grows hs).publ.trans (Nat.le_of_not_lt hdone)
    cases eq_of_beq he
    rcases hI.pc hle with ⟨d, idx, hpc⟩ | hpc
    · rw [put_call hs]
      simp [putStep, headRank, hpc]
    · -- the compare-and-swap of the lowest position succeeds
      have hs : step s (.put c) = some s' := hs
      simp only [step, hpc, reduceCtorEq, if_false, Option.some.injEq, putHistory, if_true] at hs
      subst hs
      have hge : s.publ + 1 ≤ p := Nat.le_of_not_lt hdone
      have := hI.le
      omega
  other s e s' hI _ hs he hdone := by
    have hne : e ≠ .put c := fun heq => he (by simp [heq])
    have hle : s.publ ≤ p := (step_grows hs).publ.trans (Nat.le_of_not_lt hdone)
    have hidle : (s.calls c).pc ≠ .idle := by
      rcases hI.pc hle with ⟨d, idx, hpc⟩ | hpc <;> simp [hpc]
    rw [(hI.inv.undisturbed hidle hne hs).calls, Nat.add_zero]

/-- The lowest reserved position is published by two accesses of its call. -/
theorem Holds.publishes {p : Nat} (h : Holds c p s) {es : List Event}
    (hrun : machine.Path NoLinkRace s es s') (htwo : 2 ≤ es.count (.put c)) : p < s'.publ := by
  apply (publication_ranking c p).reaches hrun h
  rw [Machine.cost_zero]
  have hrank : headRank (s.calls c) ≤ 1 := by
    unfold headRank
    split <;> omega
  rw [List.count] at htwo
  omega

/-- The calls that hold the unpublished positions up to `q`. -/
def Sys.ahead (s : Sys) (q : Nat) : List Nat := (s.log.take (q + 1)).drop s.publ

theorem Grows.ahead (h : Grows s s') {q d : Nat} (hq : q < s.log.length)
    (hd : d ∈ s'.ahead q) : d ∈ s.ahead q := by
  obtain ⟨l, hl⟩ := h.log
  rw [Sys.ahead, hl, List.take_append_of_le_length (by omega)] at hd
  exact List.drop_subset_drop_left _ h.publ hd

theorem path_grows {es : List Event} (hrun : machine.Path NoLinkRace s es s') : Grows s s' := by
  induction hrun with
  | nil => exact ⟨⟨[], (List.append_nil _).symm⟩, Nat.le_refl _⟩
  | cons _ hst _ ih =>
      obtain ⟨l, hl⟩ := (step_grows hst).log
      obtain ⟨l', hl'⟩ := ih.log
      exact ⟨⟨l ++ l', by rw [hl', hl, List.append_assoc]⟩, (step_grows hst).publ.trans ih.publ⟩

theorem Inv.rounds_publish {q : Nat} {rounds : List (List Event)} (h : Inv s)
    (hq : s.log[q]? = some c) (hround : ∀ r ∈ rounds, ∀ d ∈ s.ahead q, 2 ≤ r.count (.put d))
    (hmany : q < s.publ + rounds.length)
    (hrun : machine.Path NoLinkRace s rounds.flatten s') : q < s'.publ := by
  induction rounds generalizing s with
  | nil => exact hmany.trans_le (path_grows hrun).publ
  | cons r rs ih =>
      rw [List.flatten_cons] at hrun
      obtain ⟨t, hfirst, hrest⟩ := hrun.split
      have hgrow := path_grows hfirst
      have hlt := (List.getElem?_eq_some_iff.mp hq).1
      have ht : Inv t := hfirst.invariant (fun _ _ _ => step_inv) h
      apply ih ht (hgrow.getElem? hq) _ _ hrest
      · intro r' hr' d hd
        exact hround r' (List.mem_cons_of_mem _ hr') d (hgrow.ahead hlt hd)
      · rcases Nat.lt_or_ge q s.publ with hdone | hopen
        · have := hgrow.publ
          omega
        · -- the round publishes the lowest position
          obtain ⟨d, hd⟩ : ∃ d, s.log[s.publ]? = some d :=
            ⟨_, List.getElem?_eq_getElem (hopen.trans_lt hlt)⟩
          have hmem : d ∈ s.ahead q := by
            apply List.mem_of_getElem? (i := 0)
            rw [Sys.ahead, List.getElem?_drop, List.getElem?_take_of_lt (by omega)]
            exact hd
          have hone := Holds.publishes ⟨h, hd, Nat.le_refl _⟩ hfirst
            (hround r (List.mem_cons_self ..) d hmem)
          simp only [List.length_cons] at hmany
          omega

/-- A position that a call has reserved is published in as many rounds as there are unpublished
positions up to it, if in each round the calls that hold them make two accesses each. Calls
that are not ahead of it have no part in this. -/
theorem published_in_rounds {es : List Event} {q : Nat} {rounds : List (List Event)}
    (hrun : machine.Path NoLinkRace init es s) (hq : s.log[q]? = some c)
    (hround : ∀ r ∈ rounds, ∀ d ∈ s.ahead q, 2 ≤ r.count (.put d))
    (hmany : q < s.publ + rounds.length)
    (hrun' : machine.Path NoLinkRace s rounds.flatten s') : q < s'.publ :=
  (path_inv hrun).rounds_publish hq hround hmany hrun'

/-- Call 1 has reserved the lowest position and stalls, and call 0 waits for it. -/
def stalledSchedule : List Event :=
  [.start 0 100 [sector 1, sector 2]] ++ List.replicate 3 (.put 0) ++
    [.start 1 101 [sector 3]] ++ List.replicate 12 (.put 1) ++ List.replicate 22 (.put 0)

def twoRounds : List (List Event) :=
  [[.put 0, .put 1, .put 0, .put 1], [.put 1, .put 0, .fetch, .put 1, .put 0]]

theorem published_in_rounds_stalled : ∃ s s', machine.Path NoLinkRace init stalledSchedule s ∧
    s.log = [1, 0] ∧ s.publ = 0 ∧ machine.Path NoLinkRace s twoRounds.flatten s' ∧
    1 < s'.publ := by
  have hany : (machine.execIf noLinkRace init stalledSchedule).any (fun s =>
      s.log == [1, 0] && s.publ == 0 &&
        (machine.execIf noLinkRace s twoRounds.flatten).any fun _ => true) = true := by
    decide +kernel
  obtain ⟨s, hrun, hs⟩ := Machine.Path.of_check noLinkRace_sound hany
  simp only [Bool.and_eq_true, beq_iff_eq] at hs
  obtain ⟨⟨hlog, hpubl⟩, hs'⟩ := hs
  obtain ⟨s', hrun', -⟩ := Machine.Path.of_check noLinkRace_sound hs'
  refine ⟨s, s', hrun, hlog, hpubl, hrun',
    published_in_rounds (c := 0) hrun (by rw [hlog]; rfl) ?_ (by rw [hpubl]; decide) hrun'⟩
  rw [Sys.ahead, hlog, hpubl]
  decide

end VhostUser.Ring
