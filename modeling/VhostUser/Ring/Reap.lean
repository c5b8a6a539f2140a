import VhostUser.Ring.GetStep

/-! # What one call of `vring_get_task` frees

The poller walks the chain of a completed task through the descriptor table and
resets `tasks[]` slot by slot, while producers claim, fill and link any slot that
has become free. The walk reads the link of a slot after it has reset it, so it
stays on the chain exactly as long as nobody stores that link in between.
-/

namespace VhostUser.Ring

open VhostUser.Lib

variable {s s' : Sys} {c : Nat}

/-- The slots reset by the current or last call of `vring_get_task` are those the
completed put had claimed, in order and all of them when the call returns, and
each of them was still claimed by that put when it was reset. -/
def ReapsOwnChain (s : Sys) : Prop :=
  match s.poller with
  | .idle => True
  | .loadUsedIdx => True
  | .ret none => s.cleared = []
  | .ret (some t) => ∃ c len, s.usedLog[s.returned.length - 1]? = some (c, len) ∧
      (s.calls c).task = t ∧ s.cleared = (s.calls c).slots.map (·, some c)
  | .failed => False
  | _ => ∃ c k, s.current = some c ∧ s.cleared = ((s.calls c).slots.take k).map (·, some c)

theorem Reaping.reapsOwn {u len k : Nat} (hr : Reaping s u c len k) :
    ∃ c k, s.current = some c ∧ s.cleared = ((s.calls c).slots.take k).map (·, some c) :=
  ⟨c, k, hr.current, hr.cleared⟩

theorem Inv.reapsOwnChain (h : Inv s) : ReapsOwnChain s := by
  have hp := h.poll
  unfold PollOk at hp
  unfold ReapsOwnChain
  cases hpc : s.poller with
  | idle => trivial
  | loadUsedIdx => trivial
  | failed => simp only [hpc] at hp
  | ret r =>
      cases r with
      | none =>
          simp only [hpc] at hp ⊢
          exact hp.2
      | some t =>
          simp only [hpc] at hp ⊢
          obtain ⟨-, n, c, len, hn, hget, ht, hcl⟩ := hp
          refine ⟨c, len, ?_, ht, hcl⟩
          rw [hn]
          exact hget
  | loadId u =>
      simp only [hpc] at hp ⊢
      obtain ⟨c, len, hr⟩ := hp
      exact hr.reapsOwn
  | loadTask u d =>
      simp only [hpc] at hp ⊢
      obtain ⟨c, len, hr, -⟩ := hp
      exact hr.reapsOwn
  | storeUsedBytes u d t =>
      simp only [hpc] at hp ⊢
      obtain ⟨c, len, hr, -⟩ := hp
      exact hr.reapsOwn
  | checkVringIdx u d t =>
      simp only [hpc] at hp ⊢
      obtain ⟨c, len, hw⟩ := hp
      exact hw.reapsOwn
  | loadFlags u t idx =>
      simp only [hpc] at hp ⊢
      obtain ⟨c, len, k, hw⟩ := hp
      exact hw.reapsOwn
  | checkTask u t idx =>
      simp only [hpc] at hp ⊢
      obtain ⟨c, len, k, hw, -⟩ := hp
      exact hw.reapsOwn
  | clearTask u t idx =>
      simp only [hpc] at hp ⊢
      obtain ⟨c, len, k, hw, -⟩ := hp
      exact hw.reapsOwn
  | loadNext u t idx =>
      simp only [hpc] at hp ⊢
      obtain ⟨c, len, k, y, hw, -⟩ := hp
      exact hw.reapsOwn
  | clearLast u t idx =>
      simp only [hpc] at hp ⊢
      obtain ⟨c, len, k, hw, -⟩ := hp
      exact hw.reapsOwn
  | storeLastUsedIdx u t =>
      simp only [hpc] at hp ⊢
      obtain ⟨c, len, hr, -⟩ := hp
      exact hr.reapsOwn

/-- In every interleaving of the shared accesses of any number of producers, the
poller and the device in which no step stores the link that the poller is about
to read, the poller only ever resets the slots of the put it is reaping. -/
theorem get_frees_own_chain {es : List Event} (hrun : machine.Path NoLinkRace init es s) :
    ReapsOwnChain s :=
  (path_inv hrun).reapsOwnChain

/-! ## Two schedules -/

def sector (addr : Nat) : Buffer := ⟨addr, 512, false, false, 0, 512⟩

def noLinkRace (s : Sys) : Event → Bool
  | .start _ _ vbufs => !vbufs.isEmpty
  | .put c =>
      match (s.calls c).pc, s.poller with
      | .storeLink _, .loadNext _ _ x => (s.calls c).i == 0 || (s.calls c).prevIdx != x
      | _, _ => true
  | _ => true

theorem noLinkRace_sound (s : Sys) (e : Event) (h : noLinkRace s e = true) : NoLinkRace s e := by
  cases e with
  | start c t vbufs =>
      simp only [noLinkRace, Bool.not_eq_true', List.isEmpty_eq_false_iff] at h
      exact h
  | put c =>
      intro idx u t x hpc hi hpoll
      simp only [noLinkRace, hpc, hpoll, Bool.or_eq_true, beq_iff_eq, bne_iff_ne] at h
      exact h.resolve_left hi
  | poll => trivial
  | fetch => trivial
  | complete k len => trivial
  | usedFlags f => trivial

/-- One task of two buffers is put, completed and reaped. A second producer links
its two slots while the poller walks, and stores no link the poller reads. -/
def quietSchedule : List Event :=
  [.start 0 100 [sector 1, sector 2]] ++ List.replicate 24 (.put 0) ++ [.fetch, .complete 0 12] ++
    [.start 1 101 [sector 3, sector 4]] ++ List.replicate 12 (.put 1) ++
    List.replicate 10 .poll ++ List.replicate 4 (.put 1) ++ List.replicate 3 .poll

theorem get_frees_own_chain_quiet :
    ∃ s, machine.Path NoLinkRace init quietSchedule s ∧ s.poller = .ret (some 100) ∧
      s.cleared = [(0, some 0), (1, some 0)] ∧ ReapsOwnChain s := by
  have hany : (machine.execIf noLinkRace init quietSchedule).any (fun s =>
      s.poller == .ret (some 100) && s.cleared == [(0, some 0), (1, some 0)]) = true := by
    decide +kernel
  obtain ⟨s, hrun, hs⟩ := Machine.Path.of_check noLinkRace_sound hany
  simp only [Bool.and_eq_true, beq_iff_eq] at hs
  exact ⟨s, hrun, hs.1, hs.2, get_frees_own_chain hrun⟩

/-- Call 0 stands before its second claim when call 1 takes slots 1 and 2 and
publishes its task. While the poller reaps that task, after it has reset slot 1
and before it reads the link of slot 1, call 0 claims slot 1 and slot 3 and links
them. -/
def linkRaceSchedule : List Event :=
  [.start 0 100 [sector 1, sector 2, sector 3]] ++ List.replicate 3 (.put 0) ++
    [.start 1 101 [sector 4, sector 5]] ++ List.replicate 24 (.put 1) ++
    List.replicate 6 (.put 0) ++ [.fetch, .complete 0 12] ++ List.replicate 9 .poll ++
    List.replicate 13 (.put 0) ++ List.replicate 4 .poll

/-- The poller returns the task of call 1, whose slots are 1 and 2, after it has
reset slot 1 and slot 3; slot 3 is claimed by call 0. -/
theorem get_frees_foreign_slot :
    ∃ es s, machine.exec init es = some s ∧
      (∀ c t vbufs, Event.start c t vbufs ∈ es → vbufs ≠ []) ∧
      s.poller = .ret (some 101) ∧ (s.calls 1).task = 101 ∧ (s.calls 1).slots = [1, 2] ∧
      s.cleared = [(1, some 1), (3, some 0)] ∧ ¬ ReapsOwnChain s := by
  have hany : (machine.exec init linkRaceSchedule).any (fun s => s.poller == .ret (some 101) &&
      (s.calls 1).task == 101 && (s.calls 1).slots == [1, 2] &&
      s.cleared == [(1, some 1), (3, some 0)]) = true := by decide +kernel
  obtain ⟨s, hs, hp⟩ := (Option.any_eq_true _ _).mp hany
  simp only [Bool.and_eq_true, beq_iff_eq] at hp
  obtain ⟨⟨⟨hpoll, htask⟩, hslots⟩, hcl⟩ := hp
  refine ⟨linkRaceSchedule, s, hs, ?_, hpoll, htask, hslots, hcl, ?_⟩
  · intro c t vbufs hmem
    simp [linkRaceSchedule] at hmem
    rcases hmem with h | h <;> simp [h.2.2]
  · intro hown
    simp only [ReapsOwnChain, hpoll] at hown
    obtain ⟨c, len, -, -, hc⟩ := hown
    rw [hcl] at hc
    -- both resets would have to hit slots of the same call
    have h1 : some c = some 1 := by
      have : ((1, some 1) : Nat × Option Nat) ∈ (s.calls c).slots.map (·, some c) := by
        rw [← hc]; simp
      obtain ⟨_, -, heq⟩ := List.mem_map.mp this
      exact (Prod.ext_iff.mp heq).2
    have h0 : some c = some 0 := by
      have : ((3, some 0) : Nat × Option Nat) ∈ (s.calls c).slots.map (·, some c) := by
        rw [← hc]; simp
      obtain ⟨_, -, heq⟩ := List.mem_map.mp this
      exact (Prod.ext_iff.mp heq).2
    simp [h1] at h0

end VhostUser.Ring
