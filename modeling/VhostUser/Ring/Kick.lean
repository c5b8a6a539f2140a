import VhostUser.Ring.Progress

/-! # Kicks and a device that sleeps

A device that polls sets `VRING_USED_F_NO_NOTIFY`. Before it sleeps on `kickfd` it clears the
flag and looks at `avail->idx` once more. `vring_flush` stores the index first and reads the
flag afterwards, so a position that is published after that last look is kicked.
-/

namespace VhostUser.Ring

open VhostUser.Lib

variable {s s' : Sys} {c : Nat}

/-- The device asks for kicks. -/
def Clear (s : Sys) : Prop := s.mem.vring.used.flags &&& vringUsedFNoNotify = 0

/-- The steps of a run in which the device goes on asking for kicks. -/
def Asleep (s : Sys) (e : Event) : Prop :=
  NoLinkRace s e ∧ ∀ f, e = .usedFlags f → f &&& vringUsedFNoNotify = 0

/-- A call that has published its position and has neither kicked nor returned. -/
def Notifying (C : PutCall) : Prop := C.pc = .loadUsedFlags ∨ C.pc = .writeKickfd

theorem step_kickfd {e : Event} (hs : step s e = some s') :
    s'.mem.vring.kickfd = s.mem.vring.kickfd ∨
      ∃ d, e = .put d ∧ (s.calls d).pc = .writeKickfd ∧
        s'.mem.vring.kickfd = s.mem.vring.kickfd + 1 := by
  cases e with
  | put d =>
      rw [put_mem hs]
      cases hpc : (s.calls d).pc
      case writeKickfd => exact Or.inr ⟨d, rfl, hpc, by simp only [putStep, hpc, Mem.kick]⟩
      all_goals
        left
        simp only [putStep, hpc]
        repeat' split
      all_goals rfl
  | poll =>
      left
      simp only [step, Option.some.injEq] at hs
      subst hs
      cases hpc : s.poller <;> simp only [getHistory, getStep, hpc, clearHistory]
      all_goals repeat' split
      all_goals rfl
  | _ =>
      left
      simp only [step] at hs
      repeat' split at hs
      all_goals cases hs
      all_goals rfl

theorem step_clear {e : Event} (hclear : Clear s)
    (hasks : ∀ f, e = .usedFlags f → f &&& vringUsedFNoNotify = 0) (hs : step s e = some s') :
    Clear s' := by
  cases e with
  | put d =>
      rw [Clear, put_mem hs]
      cases hpc : (s.calls d).pc
      all_goals
        simp only [putStep, hpc]
        repeat' split
      all_goals exact hclear
  | poll =>
      simp only [step, Option.some.injEq] at hs
      subst hs
      cases hpc : s.poller <;> simp only [getHistory, getStep, hpc, clearHistory]
      all_goals repeat' split
      all_goals exact hclear
  | usedFlags f =>
      cases hs
      exact hasks f rfl
  | _ =>
      simp only [step] at hs
      repeat' split at hs
      all_goals cases hs
      all_goals exact hclear

/-- The device fell asleep when `p` positions were published and `kickfd` was `k`. -/
structure Watched (p k : Nat) (s : Sys) : Prop where
  inv : Inv s
  clear : Clear s
  kickfd : k ≤ s.mem.vring.kickfd
  kicked : p < s.publ → k < s.mem.vring.kickfd ∨ ∃ c, s.log[p]? = some c ∧ Notifying (s.calls c)

/-- A call on its way to a kick gets there, and nobody else takes it off. -/
theorem notifying_step {e : Event} (h : Inv s) (hclear : Clear s) (hn : Notifying (s.calls c))
    (hs : step s e = some s') :
    Notifying (s'.calls c) ∨ s'.mem.vring.kickfd = s.mem.vring.kickfd + 1 := by
  have hidle : (s.calls c).pc ≠ .idle := by rcases hn with hpc | hpc <;> simp [hpc]
  by_cases he : e = .put c
  · subst he
    rcases hn with hpc | hpc
    · left
      right
      rw [put_call hs]
      simp only [putStep, hpc, if_pos (show _ = 0 from hclear)]
    · right
      rw [put_mem hs]
      simp only [putStep, hpc, Mem.kick]
  · left
    rw [(h.undisturbed hidle he hs).calls]
    exact hn

theorem Watched.step {p k : Nat} {e : Event} (h : Watched p k s) (hok : Asleep s e)
    (hs : step s e = some s') : Watched p k s' := by
  have hgrow := step_grows hs
  have hkick : s.mem.vring.kickfd ≤ s'.mem.vring.kickfd := by
    rcases step_kickfd hs with heq | ⟨d, -, -, heq⟩ <;> omega
  refine ⟨step_inv h.inv hok.1 hs, step_clear h.clear hok.2 hs, h.kickfd.trans hkick, ?_⟩
  intro hp
  rcases Nat.lt_or_ge p s.publ with hold | hnew
  · rcases h.kicked hold with hlt | ⟨c, hc, hn⟩
    · exact Or.inl (hlt.trans_le hkick)
    · rcases notifying_step h.inv h.clear hn hs with hn' | hnow
      · exact Or.inr ⟨c, hgrow.getElem? hc, hn'⟩
      · have := h.kickfd
        exact Or.inl (by omega)
  · -- position `p` is published by this step, whose call reads the flag next
    right
    cases e with
    | put d =>
        obtain ⟨-, -, -, -, hpubl⟩ := put_rings hs
        rcases hpubl with hsame | ⟨idx, hpc, heq, hnext, -⟩
        · omega
        · have hpos : p = s.publ := by omega
          have hentry := h.inv.publishes hpc heq
          rw [← hpos] at hentry
          refine ⟨d, hgrow.getElem? hentry, Or.inl ?_⟩
          rw [put_call hs]
          simp only [putStep, hpc, if_pos heq]
    | poll =>
        have := (poll_rings hs).2.1
        omega
    | _ =>
        simp only [Ring.step] at hs
        repeat' split at hs
        all_goals cases hs
        all_goals exact absurd hp (Nat.not_lt.mpr hnew)

theorem Watched.notifies {p k : Nat} {e : Event} (h : Watched p k s)
    (hn : k < s.mem.vring.kickfd ∨ Notifying (s.calls c)) (hs : Ring.step s e = some s') :
    k < s'.mem.vring.kickfd ∨ Notifying (s'.calls c) := by
  rcases hn with hlt | hn
  · left
    rcases step_kickfd hs with heq | ⟨d, -, -, heq⟩ <;> omega
  · rcases notifying_step h.inv h.clear hn hs with hn' | hnow
    · exact Or.inr hn'
    · have := h.kickfd
      exact Or.inl (by omega)

theorem kick_ranking (c p k : Nat) : machine.Ranking Asleep
    (fun s => Watched p k s ∧ (k < s.mem.vring.kickfd ∨ Notifying (s.calls c))) (· == .put c)
    (fun s => k < s.mem.vring.kickfd)
    (fun s => if (s.calls c).pc = .loadUsedFlags then 1 else 0) (fun _ _ => 0) where
  keeps _ _ _ hI hok hs := ⟨hI.1.step hok hs, hI.1.notifies hI.2 hs⟩
  stays s e s' _ _ hs hdone := by
    rcases step_kickfd hs with heq | ⟨d, -, -, heq⟩
    · rwa [heq]
    · rw [heq]
      exact Nat.lt_succ_of_lt hdone
  own s e s' hI _ hs he hdone := by
    have hkick := hI.1.kickfd
    have hmono := step_kickfd hs
    cases eq_of_beq he
    rcases hI.2 with hlt | hpc | hpc
    · rcases hmono with heq | ⟨d, -, -, heq⟩ <;> omega
    · rw [put_call hs]
      simp [putStep, hpc, if_pos (show _ = 0 from hI.1.clear)]
    · have hmem := put_mem hs
      simp only [putStep, hpc] at hmem
      simp only [hmem, Mem.kick] at hdone
      omega
  other s e s' hI _ hs he hdone := by
    have hne : e ≠ .put c := fun heq => he (by simp [heq])
    rcases hI.2 with hlt | hn
    · rcases step_kickfd hs with heq | ⟨d, -, -, heq⟩ <;> omega
    · have hidle : (s.calls c).pc ≠ .idle := by rcases hn with hpc | hpc <;> simp [hpc]
      rw [(hI.1.inv.undisturbed hidle hne hs).calls, Nat.add_zero]

/-- A device that has cleared the flag and goes to sleep is not left asleep: when a position is
published afterwards, `kickfd` has been written since, or the call that published the first
such position is about to write it, and two accesses of this call are enough. -/
theorem sleeping_device_kicked {es es' : List Event} (hrun : machine.Path NoLinkRace init es s)
    (hclear : Clear s) (hsleep : machine.Path Asleep s es' s') (hnew : s.publ < s'.publ) :
    ∃ c, s'.log[s.publ]? = some c ∧
      (s.mem.vring.kickfd < s'.mem.vring.kickfd ∨ Notifying (s'.calls c)) ∧
      ∀ es'' s'', machine.Path Asleep s' es'' s'' → 2 ≤ es''.count (.put c) →
        s.mem.vring.kickfd < s''.mem.vring.kickfd := by
  have hstart : Watched s.publ s.mem.vring.kickfd s :=
    ⟨path_inv hrun, hclear, Nat.le_refl _, fun h => absurd h (Nat.lt_irrefl _)⟩
  have h := hsleep.invariant (fun _ _ _ h hok hs => Watched.step h hok hs) hstart
  obtain ⟨c, hc, hn⟩ : ∃ c, s'.log[s.publ]? = some c ∧
      (s.mem.vring.kickfd < s'.mem.vring.kickfd ∨ Notifying (s'.calls c)) := by
    rcases h.kicked hnew with hlt | ⟨c, hc, hn⟩
    · have hlen := h.inv.counters.publ_le
      exact ⟨_, List.getElem?_eq_getElem (by omega), Or.inl hlt⟩
    · exact ⟨c, hc, Or.inr hn⟩
  refine ⟨c, hc, hn, fun es'' s'' hrun'' htwo => ?_⟩
  apply (kick_ranking c s.publ s.mem.vring.kickfd).reaches hrun'' ⟨h, hn⟩
  rw [Machine.cost_zero]
  rw [List.count] at htwo
  split <;> omega

/-- The device polls, clears the flag, finds the ring empty and sleeps, with call 0 between its
two compare-and-swaps. -/
def sleepSchedule : List Event :=
  [.usedFlags 1, .start 0 100 [sector 1]] ++ List.replicate 11 (.put 0) ++ [.usedFlags 0]

def asleep (s : Sys) (e : Event) : Bool :=
  noLinkRace s e &&
    match e with
    | .usedFlags f => f &&& vringUsedFNoNotify == 0
    | _ => true

theorem asleep_sound (s : Sys) (e : Event) (h : asleep s e = true) : Asleep s e := by
  unfold asleep at h
  rw [Bool.and_eq_true] at h
  refine ⟨noLinkRace_sound s e h.1, fun f hf => ?_⟩
  subst hf
  exact beq_iff_eq.mp h.2

theorem sleeping_device_kicked_once : ∃ s s' s'', machine.Path NoLinkRace init sleepSchedule s ∧
    s.devIdx = s.mem.vring.avail.idx ∧ s.mem.vring.kickfd = 0 ∧
    machine.Path Asleep s [.put 0, .put 0] s' ∧ s'.mem.vring.kickfd = 0 ∧
    machine.Path Asleep s' [.put 0, .put 0] s'' ∧ 0 < s''.mem.vring.kickfd := by
  have hany : (machine.execIf noLinkRace init sleepSchedule).any (fun s =>
      s.devIdx == s.mem.vring.avail.idx && s.mem.vring.kickfd == 0 && s.publ == 0 &&
        s.mem.vring.used.flags == 0 && (machine.execIf asleep s [.put 0, .put 0]).any fun s' =>
          s'.mem.vring.kickfd == 0 && s'.publ == 1 && s'.log == [0] &&
            (machine.execIf asleep s' [.put 0, .put 0]).any fun _ => true) = true := by
    decide +kernel
  obtain ⟨s, hrun, hs⟩ := Machine.Path.of_check noLinkRace_sound hany
  simp only [Bool.and_eq_true, beq_iff_eq] at hs
  obtain ⟨⟨⟨⟨hidx, hkick⟩, hpubl⟩, hflags⟩, hs⟩ := hs
  obtain ⟨s', hrun', hs'⟩ := Machine.Path.of_check asleep_sound hs
  simp only [Bool.and_eq_true, beq_iff_eq] at hs'
  obtain ⟨⟨⟨hkick', hpubl'⟩, hlog'⟩, hs'⟩ := hs'
  obtain ⟨s'', hrun'', -⟩ := Machine.Path.of_check asleep_sound hs'
  have hclear : Clear s := by rw [Clear, hflags]; rfl
  obtain ⟨c, hc, -, hkicked⟩ :=
    sleeping_device_kicked hrun hclear hrun' (by rw [hpubl, hpubl']; decide)
  rw [hlog', hpubl] at hc
  cases hc
  have hlast := hkicked _ _ hrun'' (by decide)
  rw [hkick] at hlast
  exact ⟨s, s', s'', hrun, hidx, hkick, hrun', hkick', hrun'', hlast⟩

end VhostUser.Ring
