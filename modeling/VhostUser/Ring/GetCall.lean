import VhostUser.Ring.GetStep

/-! # One call of `vring_get_task` run to its end

The poller takes its steps with nothing in between. The walk over the chain
comes to its end because every round gives back one slot of the put that is
reaped, and the effect of the call is read off the invariant at its two ends.
-/

namespace VhostUser.Ring

open VhostUser.Lib

variable {s s' s'' : Sys} {c : Nat}

/-- No call of `vring_get_task` is under way. -/
def AtRest : GetPc → Prop
  | .idle => True
  | .ret _ => True
  | _ => False

/-- `vring_get_task` is one step: while a call is under way, nobody else moves.
Tasks have at least `m` buffers. -/
def GetAtomic (m : Nat) (s : Sys) (e : Event) : Prop :=
  (¬ AtRest s.poller → e = .poll) ∧ ∀ c t vbufs, e = .start c t vbufs → m ≤ vbufs.length

def getAtomic (m : Nat) (s : Sys) (e : Event) : Bool :=
  (match s.poller with
    | .idle => true
    | .ret _ => true
    | _ => e == .poll) &&
  match e with
  | .start _ _ vbufs => decide (m ≤ vbufs.length)
  | _ => true

theorem getAtomic_sound (m : Nat) (s : Sys) (e : Event) (h : getAtomic m s e = true) :
    GetAtomic m s e := by
  simp only [getAtomic, Bool.and_eq_true] at h
  constructor
  · intro hrest
    cases hpc : s.poller <;> simp_all [AtRest]
  · rintro c t vbufs rfl
    simpa using h.2

theorem GetAtomic.noLinkRace {m : Nat} (hm : 0 < m) {e : Event} (h : GetAtomic m s e) :
    NoLinkRace s e := by
  cases e with
  | start c t vbufs => exact List.ne_nil_of_length_pos (Nat.lt_of_lt_of_le hm (h.2 c t vbufs rfl))
  | put c =>
      intro idx u t x _ _ hpoll
      have := h.1 (by simp [hpoll, AtRest])
      cases this
  | poll => trivial
  | fetch => trivial
  | complete k len => trivial
  | usedFlags f => trivial

/-- Let the poller run until its call returns, for a bounded number of accesses. -/
def pollUntil : Nat → Sys → Option (Option TaskPtr × Sys)
  | 0, _ => none
  | n + 1, s =>
      (step s .poll).bind fun s' =>
        match s'.poller with
        | .ret r => some (r, s')
        | _ => pollUntil n s'

/-- `vring_get_task` as one step. A chain has at most `vhostVringSize` slots, and
the walk makes four accesses on each of them. -/
def vringGetTask (s : Sys) : Option (Option TaskPtr × Sys) :=
  pollUntil (4 * vhostVringSize + 9) s

/-! ## The walk ends -/

/-- The call has found an element in the used ring and has not returned. -/
def InWalk : GetPc → Prop
  | .idle => False
  | .loadUsedIdx => False
  | .ret _ => False
  | .failed => False
  | _ => True

def Sys.remaining (s : Sys) : Nat :=
  match s.current with
  | some c => (s.held c).length
  | none => 0

/-- How many accesses the current call may still make. -/
def pollRank (s : Sys) : Nat :=
  match s.poller with
  | .idle => 4 * vhostVringSize + 9
  | .ret _ => 4 * vhostVringSize + 9
  | .loadUsedIdx => 4 * vhostVringSize + 8
  | .loadId _ => 4 * vhostVringSize + 7
  | .loadTask _ _ => 4 * vhostVringSize + 6
  | .storeUsedBytes _ _ _ => 4 * vhostVringSize + 5
  | .checkVringIdx _ _ _ => 4 * vhostVringSize + 4
  | .loadFlags _ _ _ => 4 * s.remaining + 3
  | .checkTask _ _ _ => 4 * s.remaining + 2
  | .clearTask _ _ _ => 4 * s.remaining + 1
  | .loadNext _ _ _ => 4 * s.remaining + 4
  | .clearLast _ _ _ => 4 * s.remaining + 2
  | .storeLastUsedIdx _ _ => 1
  | .failed => 0

/-- What a step inside a call leaves alone. -/
structure Within (s s' : Sys) : Prop where
  calls : s'.calls = s.calls
  usedLog : s'.usedLog = s.usedLog
  returned : s'.returned = s.returned
  desc : s'.mem.vring.desc = s.mem.vring.desc
  freed : ∀ d, s.current ≠ some d → s'.freed d = s.freed d

/-- The call has returned `t`, the task of the next put in the used ring. -/
def GetDone (s : Sys) (t : TaskPtr) (s' : Sys) : Prop :=
  ∃ c len, s.usedLog[s.returned.length]? = some (c, len) ∧ (s.calls c).task = t ∧
    s'.returned = s.returned ++ [(t, len)] ∧ s'.calls = s.calls ∧ s'.usedLog = s.usedLog ∧
    s'.mem.vring.desc = s.mem.vring.desc ∧ ∀ d, d ≠ c → s'.freed d = s.freed d

theorem GetDone.after (h : Within s s') {t : TaskPtr} (hd : GetDone s' t s'') :
    GetDone s t s'' := by
  obtain ⟨c, len, hentry, ht, hret, hcalls, hused, hdesc, hfreed⟩ := hd
  rw [h.usedLog, h.returned] at hentry
  refine ⟨c, len, hentry, by rw [← h.calls]; exact ht, by rw [hret, h.returned],
    hcalls.trans h.calls, hused.trans h.usedLog, hdesc.trans h.desc, fun d hd => ?_⟩
  rw [hfreed d hd]
  apply h.freed
  rw [Sys.current, hentry]
  simpa using Ne.symm hd

theorem remaining_le (h : Inv s) : s.remaining ≤ vhostVringSize := by
  unfold Sys.remaining
  split
  · next c _ =>
      exact length_le_of_nodup_lt (h.owned.held_nodup c) (fun _ hx => h.owned.held_lt hx)
  · exact Nat.zero_le _

theorem remaining_of_current (hc : s.current = some c) : s.remaining = (s.held c).length := by
  simp [Sys.remaining, hc]

theorem clear_remaining {u len k idx : Nat} {t : TaskPtr} (hw : Walking s u t idx c len k)
    (hcalls : s'.calls = s.calls) (hcur : s'.current = s.current)
    (hfreed : s'.freed c = s.freed c + 1) : s'.remaining + 1 = s.remaining := by
  rw [remaining_of_current hw.current, remaining_of_current (hcur.trans hw.current), Sys.held,
    Sys.held, hcalls, hfreed, List.length_drop, List.length_drop, hw.freed]
  have := (List.getElem?_eq_some_iff.mp hw.slot).1
  omega

theorem Inv.not_failed (h : Inv s) : s.poller ≠ .failed := by
  intro hpc
  have hp := h.poll
  simp only [PollOk, hpc] at hp

/-- One access inside a call: it returns, or it comes closer to its end. -/
theorem Inv.walk_step (h : Inv s) (hw : InWalk s.poller) (hs : step s .poll = some s') :
    (∃ t, s'.poller = .ret (some t) ∧ GetDone s t s') ∨
      (InWalk s'.poller ∧ pollRank s' < pollRank s ∧ Within s s') := by
  have hnf := (poll_inv h hs).not_failed
  have hp := h.poll
  have hrem := remaining_le h
  simp only [step, Option.some.injEq] at hs
  subst hs
  -- steps that leave memory, calls and history alone differ only in the rank
  have hquiet : ∀ pc m, m.vring.desc = s.mem.vring.desc →
      Within s { s with mem := m, poller := pc } := fun _ _ hm =>
    ⟨rfl, rfl, rfl, hm, fun _ _ => rfl⟩
  cases hpc : s.poller <;> simp only [PollOk, hpc] at hp <;>
    simp only [getHistory, getStep, hpc] at hnf ⊢
  case idle | loadUsedIdx | ret => simp only [InWalk, hpc] at hw
  case loadId u =>
    right
    exact ⟨trivial, by simp only [pollRank, hpc]; omega, hquiet _ _ rfl⟩
  case loadTask u d =>
    right
    cases ht : s.mem.vring.tasks d with
    | none => simp [ht] at hnf
    | some t => exact ⟨trivial, by simp only [pollRank, hpc]; omega, hquiet _ _ rfl⟩
  case storeUsedBytes u d t =>
    right
    exact ⟨trivial, by simp only [pollRank, hpc]; omega, hquiet _ _ rfl⟩
  case checkVringIdx u d t =>
    right
    by_cases hidx : (s.mem.objs t).vringIdx = d
    · simp only [if_pos hidx]
      refine ⟨trivial, ?_, hquiet _ _ rfl⟩
      simp only [pollRank, hpc]
      show 4 * s.remaining + 3 < _
      omega
    · simp [if_neg hidx] at hnf
  case loadFlags u t idx =>
    right
    by_cases hf : (s.mem.vring.desc idx).flags &&& virtioDescFNext = 0
    · simp only [if_pos hf]
      refine ⟨trivial, ?_, hquiet _ _ rfl⟩
      simp only [pollRank, hpc]
      exact Nat.lt_succ_self _
    · simp only [if_neg hf]
      refine ⟨trivial, ?_, hquiet _ _ rfl⟩
      simp only [pollRank, hpc]
      exact Nat.lt_succ_self _
  case checkTask u t idx =>
    right
    by_cases hn : s.mem.vring.tasks idx = none
    · simp [if_pos hn] at hnf
    · simp only [if_neg hn]
      refine ⟨trivial, ?_, hquiet _ _ rfl⟩
      simp only [pollRank, hpc]
      exact Nat.lt_succ_self _
  case clearTask u t idx =>
    right
    obtain ⟨c, len, k, hwk, -⟩ := hp
    refine ⟨trivial, ?_, rfl, rfl, rfl, rfl, fun d hd => ?_⟩
    · simp only [pollRank, hpc]
      have hclear : (clearHistory s idx
          { s with mem := s.mem.setTask idx none, poller := .loadNext u t idx }).remaining + 1 =
          s.remaining :=
        clear_remaining hwk rfl rfl (by simp [clearHistory, hwk.current])
      show 4 * Sys.remaining (clearHistory s idx _) + 4 < _
      omega
    · simp only [clearHistory, hwk.current]
      exact Function.update_of_ne (fun he => hd (by rw [he]; exact hwk.current)) _ _
  case loadNext u t idx =>
    right
    refine ⟨trivial, ?_, hquiet _ _ rfl⟩
    simp only [pollRank, hpc]
    exact Nat.lt_succ_self _
  case clearLast u t idx =>
    right
    obtain ⟨c, len, k, hwk, -⟩ := hp
    refine ⟨trivial, ?_, rfl, rfl, rfl, rfl, fun d hd => ?_⟩
    · simp only [pollRank, hpc]
      have hclear : (clearHistory s idx
          { s with mem := s.mem.setTask idx none, poller := .storeLastUsedIdx u t }).remaining + 1 =
          s.remaining :=
        clear_remaining hwk rfl rfl (by simp [clearHistory, hwk.current])
      show 1 < _
      omega
    · simp only [clearHistory, hwk.current]
      exact Function.update_of_ne (fun he => hd (by rw [he]; exact hwk.current)) _ _
  case storeLastUsedIdx u t =>
    left
    obtain ⟨c, len, hr, ht, hb⟩ := hp
    exact ⟨t, rfl, c, len, hr.entry, ht, by rw [hb], rfl, rfl, rfl, fun _ _ => rfl⟩

theorem poll_enabled (s : Sys) : ∃ s', step s .poll = some s' := ⟨_, rfl⟩

/-- From anywhere inside a call, the call returns the task it found. -/
theorem Inv.walk_returns (n : Nat) (h : Inv s) (hw : InWalk s.poller) (hn : pollRank s ≤ n) :
    ∃ t s', pollUntil n s = some (some t, s') ∧ Inv s' ∧ s'.poller = .ret (some t) ∧
      GetDone s t s' := by
  induction n generalizing s with
  | zero => cases hpc : s.poller <;> simp [pollRank, hpc, InWalk] at hn hw
  | succ n ih =>
      obtain ⟨s', hs⟩ := poll_enabled s
      have hinv := poll_inv h hs
      rcases h.walk_step hw hs with ⟨t, hret, hdone⟩ | ⟨hw', hlt, hwithin⟩
      · refine ⟨t, s', ?_, hinv, hret, hdone⟩
        simp only [pollUntil, hs, Option.bind_some, hret]
      · obtain ⟨t, s'', hpoll, hinv'', hret, hdone⟩ := ih hinv hw' (by omega)
        refine ⟨t, s'', ?_, hinv'', hret, hdone.after hwithin⟩
        rw [← hpoll]
        simp only [pollUntil, hs, Option.bind_some]
        cases hpc : s'.poller <;> simp only [hpc, InWalk] at hw' ⊢

/-! ## The effect of the call -/

/-- The call has found nothing: the two indices agree where they are compared. -/
def GetEmpty (s s' : Sys) : Prop :=
  s.returned.length % vhostVringSize = s.usedLog.length % vhostVringSize ∧ Within s s' ∧
    s'.mem = s.mem

theorem get_enter (hrest : AtRest s.poller) (hs : step s .poll = some s') :
    s' = { s with poller := .loadUsedIdx } := by
  simp only [step, Option.some.injEq] at hs
  subst hs
  cases hpc : s.poller <;> simp only [hpc, AtRest] at hrest <;>
    simp only [getHistory, getStep, hpc]

theorem Inv.masked_indices (h : Inv s) :
    s.mem.vring.lastUsedIdx &&& mask = s.mem.vring.used.idx &&& mask ↔
      s.returned.length % vhostVringSize = s.usedLog.length % vhostVringSize := by
  rw [and_mask, and_mask, h.counters.lastUsedIdx, h.counters.usedIdx,
    Nat.mod_mod_of_dvd _ (by decide), Nat.mod_mod_of_dvd _ (by decide)]

/-- `vring_get_task` returns. It returns no task exactly if the masked indices
agree, and otherwise the task of the next put in the used ring. -/
theorem Inv.get_call (h : Inv s) (hrest : AtRest s.poller) :
    ∃ r s', vringGetTask s = some (r, s') ∧ Inv s' ∧ s'.poller = .ret r ∧
      match r with
      | none => GetEmpty s s'
      | some t => GetDone s t s' ∧
          s.returned.length % vhostVringSize ≠ s.usedLog.length % vhostVringSize := by
  obtain ⟨s₁, hs₁⟩ := poll_enabled s
  have hinv₁ := poll_inv h hs₁
  have hw₁ : Within s s₁ := by
    rw [get_enter hrest hs₁]
    exact ⟨rfl, rfl, rfl, rfl, fun _ _ => rfl⟩
  have hm₁ : s₁.mem = s.mem := by rw [get_enter hrest hs₁]
  have hpc₁ : s₁.poller = .loadUsedIdx := by rw [get_enter hrest hs₁]
  obtain ⟨s₂, hs₂⟩ := poll_enabled s₁
  have hinv₂ := poll_inv hinv₁ hs₂
  have hstep := hs₂
  simp only [step, getHistory, getStep, hpc₁, Option.some.injEq] at hstep
  have hmasks := hinv₁.masked_indices
  rw [hw₁.returned, hw₁.usedLog] at hmasks
  by_cases hempty : s.returned.length % vhostVringSize = s.usedLog.length % vhostVringSize
  · rw [if_pos (hmasks.mpr hempty)] at hstep
    have hpc₂ : s₂.poller = .ret none := by rw [← hstep]
    refine ⟨none, s₂, ?_, hinv₂, hpc₂, hempty, ?_, by rw [← hstep, ← hm₁]⟩
    · simp only [vringGetTask, pollUntil, hs₁, hs₂, Option.bind_some, hpc₁, hpc₂]
    · rw [← hstep]
      exact ⟨hw₁.calls, hw₁.usedLog, hw₁.returned, hw₁.desc, hw₁.freed⟩
  · rw [if_neg (fun hm => hempty (hmasks.mp hm))] at hstep
    have hpc₂ : s₂.poller = .loadId s₁.mem.vring.lastUsedIdx := by rw [← hstep]
    have hw₂ : Within s s₂ := by
      rw [← hstep]
      exact ⟨hw₁.calls, hw₁.usedLog, hw₁.returned, hw₁.desc, hw₁.freed⟩
    obtain ⟨t, s', hpoll, hinv', hret, hdone⟩ := hinv₂.walk_returns (4 * vhostVringSize + 7)
      (by simp [hpc₂, InWalk]) (by simp [pollRank, hpc₂])
    refine ⟨some t, s', ?_, hinv', hret, hdone.after hw₂, hempty⟩
    rw [← hpoll]
    simp only [vringGetTask, pollUntil, hs₁, hs₂, Option.bind_some, hpc₁, hpc₂]

end VhostUser.Ring
