import VhostUser.Ring.PutStep

/-! # The poller and the device keep the invariant

One lemma for every shared access of `vring_get_task` that changes memory, then
the two steps of the device and the start of a call. The walk along a chain is
safe because the slot it stands on is still held by the completed call; the one
access to a slot that is already free is the load of its link, and what protects
that load is the condition on the producers.
-/

namespace VhostUser.Ring

open VhostUser.Lib

variable {s s' : Sys} {c : Nat}

/-! ## The poller -/

theorem Inv.poll_local (h : Inv s) {pc : GetPc} {cl : List (Nat × Option Nat)}
    (hun : Unread pc → Unread s.poller) (hp : PollOk { s with poller := pc, cleared := cl }) :
    Inv { s with poller := pc, cleared := cl } :=
  ⟨{ h.counters with }, { h.owned with }, h.calls, { h.log with },
    h.used.frame rfl rfl rfl rfl hun fun _ _ => ⟨rfl, rfl, rfl, rfl⟩, hp⟩

theorem Reaping.used {u len k : Nat} (hr : Reaping s u c len k) (h : Inv s) :
    Built (s.calls c) (s.mem.objs (s.calls c).task) s.mem.vring.desc k ∧
      Published (s.calls c).pc := by
  have hcall := h.calls c
  rw [h.used.current_used hr.current, hr.freed] at hcall
  exact hcall

theorem Reaping.ringIndex {u len k : Nat} (hr : Reaping s u c len k) :
    u &&& mask = s.returned.length % vhostVringSize := by
  rw [and_mask, hr.index, vhostVringSize]
  omega

/-- The element of the used ring the poller is about to read. -/
theorem Reaping.element {u len : Nat} (hr : Reaping s u c len 0) (h : Inv s)
    (hun : Unread s.poller) :
    ∃ d, (s.calls c).slots[0]? = some d ∧
      s.mem.vring.used.ring (u &&& mask) = ⟨d, len⟩ := by
  obtain ⟨d, hd, hring⟩ := h.used.ring _ c len hr.entry (Or.inr ⟨rfl, hun⟩)
  exact ⟨d, hd, by rw [hr.ringIndex]; exact hring⟩

theorem Reaping.slot_held {u len k idx : Nat} (hr : Reaping s u c len k)
    (hslot : (s.calls c).slots[k]? = some idx) : idx ∈ s.held c := by
  rw [Sys.held, hr.freed]
  exact mem_drop_of_getElem? hslot (Nat.le_refl k)

theorem Inv.get_loadId (h : Inv s) {u : Nat} (hpc : s.poller = .loadId u) :
    Inv { s with poller := .loadTask u ((s.mem.vring.used.ring (u &&& mask)).id % 2 ^ 16) } := by
  have hp := h.poll
  simp only [PollOk, hpc] at hp
  obtain ⟨c, len, hr⟩ := hp
  obtain ⟨d, hd, hring⟩ := hr.element h (by simp [hpc, Unread])
  have hlt : d < vhostVringSize := h.owned.bound c d (List.mem_of_getElem? hd)
  have hid : (s.mem.vring.used.ring (u &&& mask)).id % 2 ^ 16 = d := by
    rw [vhostVringSize] at hlt
    rw [hring]
    simp only
    omega
  refine h.poll_local (fun _ => by simp [hpc, Unread]) ?_
  simp only [PollOk, hid]
  exact ⟨c, len, ⟨hr.index, hr.entry, hr.freed, hr.cleared⟩, hd⟩

theorem Inv.get_storeUsedBytes (h : Inv s) {u d : Nat} {t : TaskPtr}
    (hpc : s.poller = .storeUsedBytes u d t) :
    Inv { s with
      mem := s.mem.setObj t
        { s.mem.objs t with usedBytes := (s.mem.vring.used.ring (u &&& mask)).len }
      poller := .checkVringIdx u d t } := by
  have hp := h.poll
  simp only [PollOk, hpc] at hp
  obtain ⟨c, len, hr, hd, ht⟩ := hp
  obtain ⟨d', hd', hring⟩ := hr.element h (by simp [hpc, Unread])
  refine ⟨{ h.counters with }, { h.owned with }, ?_, { h.log with }, ?_, ?_⟩
  · intro e
    refine (h.calls e).congr (fun _ _ => rfl) fun _ _ => ?_
    by_cases he : (s.calls e).task = t
    · simp [Mem.setObj, he]
    · simp [Mem.setObj, Function.update_of_ne he]
  · exact h.used.frame rfl rfl rfl rfl (by simp [Unread]) fun _ _ => ⟨rfl, rfl, rfl, rfl⟩
  · simp only [PollOk]
    refine ⟨c, len, ⟨⟨hr.index, hr.entry, hr.freed, hr.cleared⟩, hd, ht, ?_⟩⟩
    simp only [Mem.setObj, Function.update_self, hring]

theorem Inv.get_clear (h : Inv s) {u len k idx : Nat} {t : TaskPtr}
    (hw : Walking s u t idx c len k) {pc : GetPc} (hpc : ¬ Unread pc)
    (hp : PollOk (clearHistory s idx { s with mem := s.mem.setTask idx none, poller := pc })) :
    Inv (clearHistory s idx { s with mem := s.mem.setTask idx none, poller := pc }) := by
  have hcur := hw.current
  have hst := h.used.current_used hcur
  have hslot : (s.calls c).slots[s.freed c]? = some idx := by rw [hw.freed]; exact hw.slot
  simp only [clearHistory, hcur] at hp ⊢
  refine ⟨{ h.counters with }, ?_, ?_, { h.log with }, ?_, hp⟩
  · exact h.owned.release hslot rfl rfl rfl rfl (fun _ => ⟨rfl, rfl⟩) fun _ => Iff.rfl
  · intro e
    by_cases he : e = c
    · subst he
      have hcall := h.calls e
      rw [hst] at hcall
      simp only [Function.update_self, hst, CallOk]
      exact ⟨⟨hcall.1.length, hcall.1.pos, hcall.1.head, hcall.1.chain.mono (by omega)⟩, hcall.2⟩
    · simp only [Function.update_of_ne he]
      exact h.calls e
  · refine { h.used with fresh := ?_, ring := ?_ }
    · intro j e l hj hlt
      have hne : e ≠ c := by
        rintro rfl
        have h1 : (s.usedLog.map (·.1))[j]? = some e := by rw [List.getElem?_map, hj]; rfl
        have h2 : (s.usedLog.map (·.1))[s.returned.length]? = some e := by
          rw [List.getElem?_map, hw.entry]; rfl
        simp only at hlt
        exact getElem?_ne_of_nodup h.used.nodup h1 h2 (by omega) rfl
      simp only [Function.update_of_ne hne]
      exact h.used.fresh j e l hj hlt
    · intro j e l hj hor
      apply h.used.ring j e l hj
      rcases hor with hlt | ⟨_, hun⟩
      · exact Or.inl hlt
      · exact absurd hun hpc

theorem Inv.get_clearTask (h : Inv s) {u idx : Nat} {t : TaskPtr}
    (hpc : s.poller = .clearTask u t idx) :
    Inv (clearHistory s idx
      { s with mem := s.mem.setTask idx none, poller := .loadNext u t idx }) := by
  have hp := h.poll
  simp only [PollOk, hpc] at hp
  obtain ⟨c, len, k, hw, hk⟩ := hp
  apply h.get_clear hw (by simp [Unread])
  have howner := (h.owned.owner idx c).mpr (hw.slot_held hw.slot)
  have hbuilt := (hw.toReaping.used h).1
  obtain ⟨y, hy⟩ : ∃ y, (s.calls c).slots[k + 1]? = some y :=
    ⟨_, List.getElem?_eq_getElem hk⟩
  have hnext := hbuilt.chain.links k idx y hw.slot hy (Nat.le_refl k)
    (by have := hbuilt.length; omega)
  simp only [PollOk, clearHistory, hw.current, howner]
  refine ⟨c, len, k, y, ⟨⟨hw.index, hw.entry, ?_, ?_⟩, hy, hw.task, hw.bytes⟩, hw.slot, hnext⟩
  · simp [hw.freed]
  · simp only [hw.cleared]
    rw [List.take_add_one, hw.slot]
    simp

theorem Inv.get_clearLast (h : Inv s) {u idx : Nat} {t : TaskPtr}
    (hpc : s.poller = .clearLast u t idx) :
    Inv (clearHistory s idx
      { s with mem := s.mem.setTask idx none, poller := .storeLastUsedIdx u t }) := by
  have hp := h.poll
  simp only [PollOk, hpc] at hp
  obtain ⟨c, len, k, hw, hk⟩ := hp
  apply h.get_clear hw (by simp [Unread])
  have howner := (h.owned.owner idx c).mpr (hw.slot_held hw.slot)
  simp only [PollOk, clearHistory, hw.current, howner]
  refine ⟨c, len, ⟨hw.index, hw.entry, ?_, ?_⟩, hw.task, hw.bytes⟩
  · simp [hw.freed, hk]
  · simp only [hw.cleared, ← hk]
    rw [List.take_add_one, hw.slot]
    simp

theorem Inv.get_return (h : Inv s) {u : Nat} {t : TaskPtr}
    (hpc : s.poller = .storeLastUsedIdx u t) :
    Inv (getHistory s
      { s with mem := s.mem.setLastUsedIdx ((u + 1) % 2 ^ 16), poller := .ret (some t) }) := by
  have hp := h.poll
  simp only [PollOk, hpc] at hp
  obtain ⟨c, len, hr, ht, hbytes⟩ := hp
  have hcur := hr.current
  have hst := h.used.current_used hcur
  have hlt := (List.getElem?_eq_some_iff.mp hr.entry).1
  have huser : s.user t = some c := (h.owned.user t c).mpr ⟨ht, by simp [Sys.Live, hst]⟩
  simp only [getHistory, hpc, hcur]
  -- another entry of the used log belongs to another call
  have hother : ∀ {j e l : Nat}, s.usedLog[j]? = some (e, l) → j ≠ s.returned.length → e ≠ c := by
    rintro j e l hj hne rfl
    have h1 : (s.usedLog.map (·.1))[j]? = some e := by rw [List.getElem?_map, hj]; rfl
    have h2 : (s.usedLog.map (·.1))[s.returned.length]? = some e := by
      rw [List.getElem?_map, hr.entry]; rfl
    exact getElem?_ne_of_nodup h.used.nodup h1 h2 hne rfl
  refine ⟨?_, ?_, ?_, ?_, ?_, ?_⟩
  · refine { h.counters with lastUsedIdx := ?_, returned_le := ?_ }
    · simp only [Mem.setLastUsedIdx, hr.index, List.length_append, List.length_singleton]
      omega
    · simp only [List.length_append, List.length_singleton]
      omega
  · refine { h.owned with user := ?_ }
    intro t' e
    by_cases ht' : t' = t
    · subst ht'
      simp only [Function.update_self, Sys.Live]
      constructor
      · intro hno; cases hno
      · rintro ⟨hte, hlive⟩
        by_cases he : e = c
        · subst he; simp at hlive
        · simp only [Function.update_of_ne he] at hlive
          have hue := (h.owned.user t' e).mpr ⟨hte, hlive⟩
          rw [huser] at hue
          exact absurd (by simpa using hue.symm) he
    · simp only [Function.update_of_ne ht', Sys.Live]
      by_cases he : e = c
      · subst he
        have hne : (s.calls e).task ≠ t' := by rw [ht]; exact Ne.symm ht'
        have hno : ¬ s.user t' = some e := fun hu => hne ((h.owned.user t' e).mp hu).1
        simp [hno]
      · simp only [Function.update_of_ne he]
        exact h.owned.user t' e
  · intro e
    by_cases he : e = c
    · subst he
      simp only [Function.update_self, CallOk]
      exact ⟨by rw [hr.freed], Or.inr (hr.used h).2⟩
    · simp only [Function.update_of_ne he]
      exact h.calls e
  · refine h.log.frame rfl rfl rfl rfl (fun _ _ => rfl) (fun _ _ => Or.inl rfl) ?_ ?_
    · intro e
      by_cases he : e = c
      · subst he; simp [hst]
      · simp [Function.update_of_ne he]
    · intro e _ hpast
      by_cases he : e = c
      · subst he; simp [Stage.Past]
      · simpa [Function.update_of_ne he] using hpast
  · have hpend : ∀ e d, (e, d) ∈ s.pending → e ≠ c := by
      rintro e d hmem rfl
      simp [(h.used.pending e d hmem).1] at hst
    constructor
    · exact h.used.pending_nodup
    · intro e d hmem
      simp only [Function.update_of_ne (hpend e d hmem)]
      exact h.used.pending e d hmem
    · exact h.used.nodup
    · intro j e l hj hlt'
      simp only [List.length_append, List.length_singleton] at hlt'
      by_cases hje : j = s.returned.length
      · subst hje
        rw [hr.entry] at hj
        cases hj
        simp
      · simp only [Function.update_of_ne (hother hj hje)]
        exact h.used.stage_lt j e l hj (by omega)
    · intro j e l hj hge
      simp only [List.length_append, List.length_singleton] at hge
      simp only [Function.update_of_ne (hother hj (by omega))]
      exact h.used.stage_ge j e l hj (by omega)
    · intro j e l hj hlt'
      simp only [List.length_append, List.length_singleton] at hlt'
      exact h.used.fresh j e l hj (by omega)
    · intro j e l hj hor
      simp only [List.length_append, List.length_singleton] at hor
      exact h.used.ring j e l hj (Or.inl (by omega))
    · intro j t' b hj
      rcases Nat.lt_trichotomy j s.returned.length with hjl | hjl | hjl
      · rw [List.getElem?_append_left hjl] at hj
        exact h.used.returned j t' b hj
      · subst hjl
        simp only [List.getElem?_concat_length, Option.some.injEq, Prod.mk.injEq] at hj
        obtain ⟨rfl, rfl⟩ := hj
        exact ⟨c, by rw [hbytes]; exact hr.entry, ht⟩
      · rw [List.getElem?_eq_none (by simp; omega)] at hj
        cases hj
  · simp only [PollOk]
    refine ⟨?_, s.returned.length, c, len, by simp, hr.entry, ht, ?_⟩
    · intro e he
      obtain ⟨⟨e', l⟩, hget, rfl⟩ := Option.map_eq_some_iff.mp he
      simp only [List.length_append, List.length_singleton] at hget
      exact h.used.fresh _ _ _ hget (by omega)
    · simpa using hr.cleared

theorem poll_inv (h : Inv s) (hs : step s .poll = some s') : Inv s' := by
  simp only [step, Option.some.injEq] at hs
  subst hs
  have hp := h.poll
  cases hpc : s.poller <;> simp only [PollOk, hpc] at hp
  case idle =>
    simp only [getHistory, getStep, hpc]
    exact h.poll_local (fun _ => by simp [hpc, Unread]) hp
  case loadUsedIdx =>
    simp only [getHistory, getStep, hpc]
    split
    · exact h.poll_local (fun _ => by simp [hpc, Unread]) ⟨hp, rfl⟩
    · rename_i hne
      refine h.poll_local (fun _ => by simp [hpc, Unread]) ?_
      have hlt : s.returned.length < s.usedLog.length := by
        rcases Nat.lt_or_ge s.returned.length s.usedLog.length with hlt | hge
        · exact hlt
        · have heq : s.returned.length = s.usedLog.length :=
            Nat.le_antisymm h.counters.returned_le hge
          rw [h.counters.lastUsedIdx, h.counters.usedIdx, heq] at hne
          exact absurd rfl hne
      obtain ⟨⟨c, len⟩, hget⟩ : ∃ p, s.usedLog[s.returned.length]? = some p :=
        ⟨_, List.getElem?_eq_getElem hlt⟩
      refine ⟨c, len, h.counters.lastUsedIdx, hget, hp c ?_, rfl⟩
      rw [Sys.current, hget]
      rfl
  case loadId u =>
    simpa only [getHistory, getStep, hpc] using h.get_loadId hpc
  case loadTask u d =>
    obtain ⟨c, len, hr, hd⟩ := hp
    have htask := h.owned.task_of_held (hr.slot_held hd)
    simp only [getHistory, getStep, hpc, htask]
    refine h.poll_local (fun _ => by simp [hpc, Unread]) ?_
    exact ⟨c, len, ⟨hr.index, hr.entry, hr.freed, hr.cleared⟩, hd, rfl⟩
  case storeUsedBytes u d t =>
    simpa only [getHistory, getStep, hpc] using h.get_storeUsedBytes hpc
  case checkVringIdx u d t =>
    obtain ⟨c, len, hw⟩ := hp
    have hhead := (hw.toReaping.used h).1.head
    rw [hw.task, hw.slot] at hhead
    have hidx : (s.mem.objs t).vringIdx = d := by simpa using hhead.symm
    simp only [getHistory, getStep, hpc, if_pos hidx]
    apply h.poll_local (by simp [Unread])
    exact ⟨c, len, 0, ⟨⟨hw.index, hw.entry, hw.freed, hw.cleared⟩, hw.slot, hw.task, hw.bytes⟩⟩
  case loadFlags u t idx =>
    obtain ⟨c, len, k, hw⟩ := hp
    have hbuilt := (hw.toReaping.used h).1
    have hk := (List.getElem?_eq_some_iff.mp hw.slot).1
    obtain ⟨b, -, -, -, hflags⟩ := hbuilt.chain.carries k idx hw.slot (Nat.le_refl k)
      (by have := hbuilt.length; omega)
    have hlen : (s.mem.objs (s.calls c).task).vbufs.length = (s.calls c).slots.length :=
      hbuilt.length.symm
    have hw' : ∀ pc, Walking { s with poller := pc } u t idx c len k := fun pc =>
      ⟨⟨hw.index, hw.entry, hw.freed, hw.cleared⟩, hw.slot, hw.task, hw.bytes⟩
    simp only [getHistory, getStep, hpc, hflags, descFlags_next, hlen, beq_iff_eq]
    split
    · rename_i hlast
      exact h.poll_local (by simp [Unread]) ⟨c, len, k, hw' _, hlast⟩
    · rename_i hlast
      exact h.poll_local (by simp [Unread]) ⟨c, len, k, hw' _, by simp only; omega⟩
  case checkTask u t idx =>
    obtain ⟨c, len, k, hw, hk⟩ := hp
    have htask := h.owned.task_of_held (hw.slot_held hw.slot)
    simp only [getHistory, getStep, hpc, htask, reduceCtorEq, if_false]
    apply h.poll_local (by simp [Unread])
    exact ⟨c, len, k,
      ⟨⟨hw.index, hw.entry, hw.freed, hw.cleared⟩, hw.slot, hw.task, hw.bytes⟩, hk⟩
  case clearTask u t idx =>
    simpa only [getHistory, getStep, hpc] using h.get_clearTask hpc
  case loadNext u t idx =>
    obtain ⟨c, len, k, y, hw, hk, hy⟩ := hp
    simp only [getHistory, getStep, hpc, hy]
    apply h.poll_local (by simp [Unread])
    exact ⟨c, len, k + 1,
      ⟨⟨hw.index, hw.entry, hw.freed, hw.cleared⟩, hw.slot, hw.task, hw.bytes⟩⟩
  case clearLast u t idx =>
    simpa only [getHistory, getStep, hpc] using h.get_clearLast hpc
  case storeLastUsedIdx u t =>
    simpa only [getStep, hpc] using h.get_return hpc
  case ret r =>
    simp only [getHistory, getStep, hpc]
    refine h.poll_local (fun _ => by simp [hpc, Unread]) ?_
    cases r <;> exact hp.1

/-! ## The start of a call -/

theorem start_inv (h : Inv s) {t : TaskPtr} {vbufs : List Buffer}
    (hok : NoLinkRace s (.start c t vbufs)) (hs : step s (.start c t vbufs) = some s') :
    Inv s' := by
  have hguard : (s.calls c).pc = .idle ∧ s.user t = none := by
    by_contra hno
    simp [step, hno] at hs
  obtain ⟨hidle, hfree⟩ := hguard
  simp only [step, hidle, hfree, and_self, if_true, Option.some.injEq] at hs
  subst hs
  have hst : s.stage c = .idle := by
    have hcall := h.calls c
    cases hst : s.stage c <;> rw [hst] at hcall
    all_goals simp [CallOk, BuildOk, AvailPc, Published, hidle] at hcall
  obtain ⟨-, hslots, hfreed⟩ : CallOk (s.calls c) _ _ _ .idle := hst ▸ h.calls c
  have hpos : 0 < vbufs.length := List.length_pos_iff.mpr hok
  have howner : ∀ x, s.owner x ≠ some c := by
    intro x hx
    have hmem := (h.owned.owner x c).mp hx
    simp [Sys.held, hslots] at hmem
  have hlog : c ∉ s.log := by
    intro hmem
    obtain ⟨q, hq⟩ := List.getElem?_of_mem hmem
    by_cases hlt : q < s.fetched
    · simpa [hst] using h.log.stage_lt q c hq hlt
    · simpa [hst] using h.log.stage_ge q c hq (by omega)
  have hpast : ∀ d, (s.stage d).Past → d ≠ c := by
    rintro d hd rfl
    simp [Stage.Past, hst] at hd
  have htask : ∀ d, s.Live d → (s.calls d).task ≠ t := by
    rintro d hd rfl
    rw [(h.owned.user _ d).mpr ⟨rfl, hd⟩] at hfree
    cases hfree
  refine ⟨{ h.counters with }, ?_, ?_, ?_, ?_, ?_⟩
  · constructor
    · intro x
      simp only [Mem.setObj, h.owned.tasks x]
      cases hx : s.owner x with
      | none => rfl
      | some d =>
          have hd : d ≠ c := fun heq => howner x (by rw [hx, heq])
          simp [Function.update_of_ne hd]
    · intro x d
      by_cases hd : d = c
      · subst hd
        simp [Sys.held, putStart, howner x]
      · simp only [Sys.held, Function.update_of_ne hd]
        exact h.owned.owner x d
    · intro d
      by_cases hd : d = c
      · subst hd; simp [putStart]
      · simpa [Function.update_of_ne hd] using h.owned.nodup d
    · intro d x
      by_cases hd : d = c
      · subst hd; simp [putStart]
      · simpa [Function.update_of_ne hd] using h.owned.bound d x
    · intro t' d
      by_cases hd : d = c
      · subst hd
        by_cases ht : t' = t
        · subst ht; simp [Sys.Live, putStart]
        · have hno : ¬ s.user t' = some d := by
            intro hu
            have hlive := ((h.owned.user t' d).mp hu).2
            simp [Sys.Live, hst] at hlive
          simp [Sys.Live, putStart, Function.update_of_ne ht, hno, Ne.symm ht]
      · simp only [Sys.Live, Function.update_of_ne hd]
        by_cases ht : t' = t
        · subst ht
          simp only [Function.update_self]
          constructor
          · intro heq; exact absurd (by simpa using heq.symm) hd
          · rintro ⟨hte, hlive⟩; exact absurd hte (htask d hlive)
        · rw [Function.update_of_ne ht]
          exact h.owned.user t' d
  · intro d
    by_cases hd : d = c
    · subst hd
      simp only [Function.update_self, CallOk, BuildOk, putStart, loopPc, Mem.setObj,
        VirtioTask.count, hpos, if_true]
      refine ⟨hfreed, rfl, hpos, fun hlt => absurd hlt (Nat.lt_irrefl 0),
        fun hlt => absurd hlt (Nat.lt_irrefl 0), ?_, ?_⟩
      · intro k x hx; simp at hx
      · intro k x y hx; simp at hx
    · simp only [Function.update_of_ne hd]
      refine (h.calls d).congr (fun _ _ => rfl) fun h1 h2 => ?_
      simp [Mem.setObj, Function.update_of_ne (htask d ⟨h1, h2⟩)]
  · refine h.log.frame rfl rfl rfl rfl ?_ ?_ ?_ ?_
    · intro d hd
      have hne : d ≠ c := fun heq => hlog (heq ▸ hd)
      simp [Function.update_of_ne hne]
    · intro d hd
      have hne : d ≠ c := fun heq => hlog (heq ▸ hd)
      exact Or.inl (by simp [Function.update_of_ne hne])
    · intro d
      by_cases hd : d = c
      · subst hd; simp [hst]
      · simp [Function.update_of_ne hd]
    · intro d hd hp
      have hne : d ≠ c := fun heq => hlog (heq ▸ hd)
      simpa [Function.update_of_ne hne] using hp
  · refine h.used.frame rfl rfl rfl rfl id ?_
    intro d hd
    simp [Function.update_of_ne (hpast d hd)]
  · refine h.poll.frame h.used rfl rfl rfl rfl ?_ ?_ (fun _ _ _ _ => rfl)
    · intro d hd
      simp [Function.update_of_ne (hpast d hd)]
    · intro d hd
      have hlive : s.Live d := by simp [Sys.Live, hd]
      simp [Mem.setObj, Function.update_of_ne (htask d hlive)]

/-! ## The device -/

/-- The device reads a head that was published and stored at its position. -/
theorem Inv.fetch_cases (h : Inv s) (hs : step s .fetch = some s') :
    ∃ c, s.log[s.fetched]? = some c ∧ s.fetched < s.publ ∧ s.stage c = .avail ∧
      Published (s.calls c).pc ∧
      (s.calls c).slots[0]? = some (s.mem.vring.avail.ring (s.fetched % vhostVringSize)) ∧
      s' = { s with
        devIdx := (s.devIdx + 1) % 2 ^ 16
        pending := s.pending ++ [(c, s.mem.vring.avail.ring (s.fetched % vhostVringSize))]
        fetched := s.fetched + 1
        stage := Function.update s.stage c .device } := by
  have hne : s.devIdx ≠ s.mem.vring.avail.idx := by
    intro heq
    simp [step, heq] at hs
  simp only [step, if_neg hne, Option.some.injEq] at hs
  have hle := h.counters.fetched_le
  have hle' := h.counters.publ_le
  have hlt : s.fetched < s.publ := by
    rcases Nat.lt_or_ge s.fetched s.publ with hlt | hge
    · exact hlt
    · rw [h.counters.devIdx, h.counters.availIdx, Nat.le_antisymm hle hge] at hne
      exact absurd rfl hne
  obtain ⟨c, hc⟩ : ∃ c, s.log[s.fetched]? = some c :=
    ⟨_, List.getElem?_eq_getElem (by omega)⟩
  have hgetD : s.log.getD s.fetched 0 = c := by
    rw [List.getD_eq_getElem?_getD, hc]
    rfl
  have hslot : s.devIdx &&& mask = s.fetched % vhostVringSize := by
    rw [and_mask, h.counters.devIdx, vhostVringSize]
    omega
  have hpub := h.log.pc_lt _ c hc hlt
  refine ⟨c, hc, hlt, h.log.stage_ge _ c hc (Nat.le_refl _), hpub, ?_, ?_⟩
  · apply h.log.ring _ c hc (Nat.le_refl _)
    intro d i hpc
    simp [hpc, Published] at hpub
  · rw [← hs, hgetD, hslot]

theorem fetch_inv (h : Inv s) (hs : step s .fetch = some s') : Inv s' := by
  obtain ⟨c, hc, hlt, hst, hpub, hhead, rfl⟩ := h.fetch_cases hs
  have hcall := h.calls c
  rw [hst] at hcall
  have huniq : ∀ {q e : Nat}, s.log[q]? = some e → q ≠ s.fetched → e ≠ c := by
    rintro q e hq hqne rfl
    exact getElem?_ne_of_nodup h.log.nodup hq hc hqne rfl
  have hpast : ∀ e, (s.stage e).Past → e ≠ c := by
    rintro e he rfl
    simp [Stage.Past, hst] at he
  refine ⟨?_, ?_, ?_, ?_, ?_, ?_⟩
  · refine { h.counters with devIdx := ?_, fetched_le := ?_ }
    · simp only [h.counters.devIdx]
      omega
    · simp only
      omega
  · refine h.owned.frame rfl rfl rfl rfl (fun _ => ⟨rfl, rfl⟩) ?_
    intro e
    by_cases he : e = c
    · subst he; simp [Sys.Live, hst]
    · simp [Sys.Live, Function.update_of_ne he]
  · intro e
    by_cases he : e = c
    · subst he
      simp only [Function.update_self, CallOk]
      exact ⟨hcall.1, hcall.2.1, hpub⟩
    · simp only [Function.update_of_ne he]
      exact h.calls e
  · refine { h.log with mem := ?_, stage_lt := ?_, stage_ge := ?_, ring := ?_ }
    · intro e he
      by_cases hec : e = c
      · subst hec; simp at he
      · simp only [Function.update_of_ne hec] at he
        exact h.log.mem e he
    · intro q e hq hqlt
      simp only at hqlt
      by_cases hqf : q = s.fetched
      · subst hqf
        rw [hc] at hq
        cases hq
        simp
      · simp only [Function.update_of_ne (huniq hq hqf)]
        exact h.log.stage_lt q e hq (by omega)
    · intro q e hq hqge
      simp only at hqge
      simp only [Function.update_of_ne (huniq hq (by omega))]
      exact h.log.stage_ge q e hq (by omega)
    · intro q e hq hqge
      simp only at hqge
      exact h.log.ring q e hq (by omega)
  · have hnot : c ∉ s.pending.map (·.1) := by
      intro hmem
      obtain ⟨⟨e, d⟩, hed, rfl⟩ := List.mem_map.mp hmem
      simp [(h.used.pending e d hed).1] at hst
    have hused : ∀ {j e l : Nat}, s.usedLog[j]? = some (e, l) → e ≠ c := by
      intro j e l hj
      apply hpast e
      rcases Nat.lt_or_ge j s.returned.length with hjl | hjl
      · exact Or.inr (Or.inr (h.used.stage_lt j e l hj hjl))
      · exact Or.inr (Or.inl (h.used.stage_ge j e l hj hjl))
    refine { h.used with pending_nodup := ?_, pending := ?_, stage_lt := ?_, stage_ge := ?_ }
    · simp only [List.map_append, List.map_cons, List.map_nil]
      exact List.Nodup.append h.used.pending_nodup (List.nodup_singleton c) (by simpa using hnot)
    · intro e d hmem
      simp only [List.mem_append, List.mem_singleton] at hmem
      rcases hmem with hmem | hmem
      · obtain ⟨hste, hd⟩ := h.used.pending e d hmem
        simp only [Function.update_of_ne (hpast e (Or.inl hste))]
        exact ⟨hste, hd⟩
      · cases hmem
        simpa using hhead
    · intro j e l hj hlt'
      simp only [Function.update_of_ne (hused hj)]
      exact h.used.stage_lt j e l hj hlt'
    · intro j e l hj hge'
      simp only [Function.update_of_ne (hused hj)]
      exact h.used.stage_ge j e l hj hge'
  · exact h.poll.frame h.used rfl rfl rfl rfl (fun _ _ => ⟨rfl, rfl, rfl⟩) (fun _ _ => rfl)
      (fun _ _ _ _ => rfl)

/-- The call at the front of the used ring still holds all its slots while the
poller has not begun to reset them. -/
theorem Inv.current_fresh (h : Inv s) (hun : Unread s.poller) {j e l : Nat}
    (hj : s.usedLog[j]? = some (e, l)) (hge : s.returned.length ≤ j) : s.freed e = 0 := by
  rcases Nat.lt_or_ge s.returned.length j with hlt | hle
  · exact h.used.fresh j e l hj hlt
  · have heq : j = s.returned.length := Nat.le_antisymm hle hge
    subst heq
    have hcur : s.current = some e := by rw [Sys.current, hj]; rfl
    have hentry : ∀ {u e' l'}, Reaping s u e' l' 0 → s.freed e = 0 := by
      intro u e' l' hr
      have heq := hr.current
      rw [hcur] at heq
      cases heq
      exact hr.freed
    have hp := h.poll
    cases hpc : s.poller <;> simp only [hpc, Unread] at hun <;> simp only [PollOk, hpc] at hp
    case idle => exact hp e hcur
    case loadUsedIdx => exact hp e hcur
    case loadId => obtain ⟨_, _, hr⟩ := hp; exact hentry hr
    case loadTask => obtain ⟨_, _, hr, _⟩ := hp; exact hentry hr
    case storeUsedBytes => obtain ⟨_, _, hr, _⟩ := hp; exact hentry hr
    case ret r => cases r <;> exact hp.1 e hcur

/-- Entries of the used ring from position `lo` on, together with one head the
device still holds: each of them pins a descriptor. -/
theorem Inv.used_window (h : Inv s) {lo d : Nat} (hlo : s.returned.length ≤ lo)
    (hfresh : ∀ j e l, s.usedLog[j]? = some (e, l) → lo ≤ j → s.freed e = 0)
    (hc : (c, d) ∈ s.pending) : s.usedLog.length < lo + vhostVringSize := by
  have hstc := (h.used.pending c d hc).1
  have hstage : ∀ e ∈ (s.usedLog.drop lo).map (·.1), s.stage e = .used ∧ s.freed e = 0 := by
    intro e he
    obtain ⟨⟨e', l⟩, hmem, rfl⟩ := List.mem_map.mp he
    obtain ⟨k, hk⟩ := List.getElem?_of_mem hmem
    rw [List.getElem?_drop] at hk
    exact ⟨h.used.stage_ge _ _ _ hk (by omega), hfresh _ _ _ hk (by omega)⟩
  have hnodup : (c :: (s.usedLog.drop lo).map (·.1)).Nodup := by
    rw [List.nodup_cons, List.map_drop]
    refine ⟨?_, h.used.nodup.sublist (List.drop_sublist _ _)⟩
    intro hmem
    rw [← List.map_drop] at hmem
    rw [(hstage c hmem).1] at hstc
    cases hstc
  have hcount := h.owned.pinned (m := 1) hnodup (by
    intro e he
    rcases List.mem_cons.mp he with rfl | he
    · have hlen := h.held_length (Or.inr (Or.inl hstc))
      omega
    · have hlen := h.held_length (Or.inr (Or.inr (hstage e he)))
      omega)
  simp only [List.length_cons, List.length_map, List.length_drop, Nat.one_mul] at hcount
  omega

theorem complete_inv (h : Inv s) {k len : Nat} (hs : step s (.complete k len) = some s') :
    Inv s' := by
  cases hk : s.pending[k]? with
  | none => simp [step, hk] at hs
  | some p =>
    obtain ⟨c, d⟩ := p
    simp only [step, hk, Option.some.injEq] at hs
    subst hs
    have hmem : (c, d) ∈ s.pending := List.mem_of_getElem? hk
    obtain ⟨hst, hhead⟩ := h.used.pending c d hmem
    have hcall := h.calls c
    rw [hst] at hcall
    have hcne : ∀ {j e l : Nat}, s.usedLog[j]? = some (e, l) → e ≠ c := by
      rintro j e l hj rfl
      rcases Nat.lt_or_ge j s.returned.length with hjl | hjl
      · simp [h.used.stage_lt j e l hj hjl] at hst
      · simp [h.used.stage_ge j e l hj hjl] at hst
    have hidx : s.mem.vring.used.idx &&& mask = s.usedLog.length % vhostVringSize := by
      rw [and_mask, h.counters.usedIdx, vhostVringSize]
      omega
    have hold : ∀ {j e l : Nat}, (s.usedLog ++ [(c, len)])[j]? = some (e, l) →
        (s.usedLog[j]? = some (e, l) ∧ e ≠ c) ∨ (j = s.usedLog.length ∧ e = c ∧ l = len) := by
      intro j e l hj
      rcases Nat.lt_trichotomy j s.usedLog.length with hlt | hlt | hlt
      · rw [List.getElem?_append_left hlt] at hj
        exact Or.inl ⟨hj, hcne hj⟩
      · subst hlt
        simp at hj
        exact Or.inr ⟨rfl, hj.1.symm, hj.2.symm⟩
      · rw [List.getElem?_eq_none (by simp; omega)] at hj
        cases hj
    have hret := h.counters.returned_le
    refine ⟨?_, ?_, ?_, ?_, ?_, ?_⟩
    · refine { h.counters with usedIdx := ?_, returned_le := ?_ }
      · simp only [Mem.pushUsed, h.counters.usedIdx, List.length_append, List.length_singleton]
        omega
      · simp only [List.length_append, List.length_singleton]
        omega
    · refine h.owned.frame rfl rfl rfl rfl (fun _ => ⟨rfl, rfl⟩) ?_
      intro e
      by_cases he : e = c
      · subst he; simp [Sys.Live, hst]
      · simp [Sys.Live, Function.update_of_ne he]
    · intro e
      by_cases he : e = c
      · subst he
        simp only [Function.update_self, CallOk, Mem.pushUsed]
        rw [hcall.1]
        exact hcall.2
      · simp only [Function.update_of_ne he]
        exact h.calls e
    · refine h.log.frame rfl rfl rfl rfl (fun _ _ => rfl) (fun _ _ => Or.inl rfl) ?_ ?_
      · intro e
        by_cases he : e = c
        · subst he; simp [hst]
        · simp [Function.update_of_ne he]
      · intro e _ hpast
        by_cases he : e = c
        · subst he; simp [Stage.Past]
        · simpa [Function.update_of_ne he] using hpast
    · have hpend : ∀ e d', (e, d') ∈ s.pending.eraseIdx k → (e, d') ∈ s.pending ∧ e ≠ c := by
        intro e d' he
        obtain ⟨i, hik, hi⟩ := List.mem_eraseIdx_iff_getElem?.mp he
        refine ⟨List.mem_of_getElem? hi, ?_⟩
        rintro rfl
        have h1 : (s.pending.map (·.1))[i]? = some e := by rw [List.getElem?_map, hi]; rfl
        have h2 : (s.pending.map (·.1))[k]? = some e := by rw [List.getElem?_map, hk]; rfl
        exact getElem?_ne_of_nodup h.used.pending_nodup h1 h2 hik rfl
      constructor
      · exact h.used.pending_nodup.sublist ((List.eraseIdx_sublist _ _).map _)
      · intro e d' he
        obtain ⟨hin, hne⟩ := hpend e d' he
        simp only [Function.update_of_ne hne]
        exact h.used.pending e d' hin
      · simp only [List.map_append, List.map_cons, List.map_nil]
        apply List.Nodup.append h.used.nodup (List.nodup_singleton c)
        simp only [List.disjoint_singleton]
        intro hin
        obtain ⟨⟨e, l⟩, hel, rfl⟩ := List.mem_map.mp hin
        obtain ⟨j, hj⟩ := List.getElem?_of_mem hel
        exact hcne hj rfl
      · intro j e l hj hlt
        simp only at hlt
        rcases hold hj with ⟨hj, hne⟩ | ⟨rfl, rfl, rfl⟩
        · simp only [Function.update_of_ne hne]
          exact h.used.stage_lt j e l hj hlt
        · omega
      · intro j e l hj hge
        rcases hold hj with ⟨hj, hne⟩ | ⟨rfl, rfl, rfl⟩
        · simp only [Function.update_of_ne hne]
          exact h.used.stage_ge j e l hj hge
        · simp
      · intro j e l hj hlt
        rcases hold hj with ⟨hj, hne⟩ | ⟨rfl, rfl, rfl⟩
        · exact h.used.fresh j e l hj hlt
        · exact hcall.1
      · intro j e l hj hor
        simp only [Mem.pushUsed, hidx]
        rcases hold hj with ⟨hj, hne⟩ | ⟨rfl, rfl, rfl⟩
        · have hjlt := (List.getElem?_eq_some_iff.mp hj).1
          -- the element written now lies less than one round ahead of the entry
          have hwin : s.usedLog.length < j + vhostVringSize := by
            simp only at hor
            rcases hor with hlt | ⟨rfl, hun⟩
            · refine h.used_window (by omega) ?_ hmem
              intro j' e' l' hj' hge'
              exact h.used.fresh j' e' l' hj' (by omega)
            · exact h.used_window (Nat.le_refl _)
                (fun j' e' l' hj' hge' => h.current_fresh hun hj' hge') hmem
          have hres : j % vhostVringSize ≠ s.usedLog.length % vhostVringSize := by
            intro heq
            have := mod_inj_of_window (Nat.le_refl j) (by omega)
              (by simp [vhostVringSize]) hwin heq
            omega
          rw [Function.update_of_ne hres]
          exact h.used.ring j e l hj hor
        · rw [Function.update_self]
          exact ⟨d, hhead, rfl⟩
      · intro j t b hj
        obtain ⟨e, he, ht⟩ := h.used.returned j t b hj
        refine ⟨e, ?_, ht⟩
        rw [List.getElem?_append_left (List.getElem?_eq_some_iff.mp he).1]
        exact he
    · refine h.poll.extend h.used rfl ?_ rfl rfl ?_ (fun _ _ => ⟨rfl, rfl, rfl⟩)
        (fun _ _ => rfl) (fun _ _ _ _ => rfl)
      · intro j p hj
        simp only
        rw [List.getElem?_append_left (List.getElem?_eq_some_iff.mp hj).1]
        exact hj
      · intro hf e he
        obtain ⟨⟨e', l⟩, hget, rfl⟩ := Option.map_eq_some_iff.mp he
        rcases hold hget with ⟨hget, -⟩ | ⟨-, rfl, -⟩
        · exact hf e' (by rw [Sys.current]; simp [hget])
        · exact hcall.1

/-- Every step that meets the condition keeps the invariant. -/
theorem step_inv {e : Event} (h : Inv s) (hok : NoLinkRace s e) (hs : step s e = some s') :
    Inv s' := by
  cases e with
  | start c t vbufs => exact start_inv h hok hs
  | put c => exact put_inv h hok hs
  | poll => exact poll_inv h hs
  | fetch => exact fetch_inv h hs
  | complete k len => exact complete_inv h hs
  | usedFlags f =>
      simp only [step, Option.some.injEq] at hs
      subst hs
      exact ⟨{ h.counters with }, { h.owned with }, h.calls, { h.log with }, { h.used with },
        h.poll.frame h.used rfl rfl rfl rfl (fun _ _ => ⟨rfl, rfl, rfl⟩) (fun _ _ => rfl)
          (fun _ _ _ _ => rfl)⟩

/-- Every run whose steps all meet the condition stays within the invariant. -/
theorem path_inv {es : List Event} (h : machine.Path NoLinkRace init es s) : Inv s :=
  h.invariant (fun _ _ _ hi hok hs => step_inv hi hok hs) init_inv

end VhostUser.Ring
