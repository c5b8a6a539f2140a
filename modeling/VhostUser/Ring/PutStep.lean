import VhostUser.Ring.Frame

/-! # `vring_put_task` keeps the invariant

One lemma for every shared access of `vring_put_task` and `vring_flush`. Up to
the reservation of a position a call only touches what it owns; the reservation,
the store to the avail ring and the publication are the three accesses that
others look at, and there the window of unread positions has to be bounded.
-/

namespace VhostUser.Ring

open VhostUser.Lib

variable {s s' : Sys} {c : Nat}

/-- Everything but the task table, the descriptors and the calls is as before. -/
structure SameRings (s s' : Sys) : Prop where
  avail : s'.mem.vring.avail = s.mem.vring.avail
  used : s'.mem.vring.used = s.mem.vring.used
  lastAvailIdx : s'.mem.vring.lastAvailIdx = s.mem.vring.lastAvailIdx
  lastUsedIdx : s'.mem.vring.lastUsedIdx = s.mem.vring.lastUsedIdx
  poller : s'.poller = s.poller
  devIdx : s'.devIdx = s.devIdx
  pending : s'.pending = s.pending
  log : s'.log = s.log
  publ : s'.publ = s.publ
  fetched : s'.fetched = s.fetched
  usedLog : s'.usedLog = s.usedLog
  returned : s'.returned = s.returned
  cleared : s'.cleared = s.cleared

theorem Counters.frame (h : Counters s) (hr : SameRings s s')
    (hcur : s'.mem.vring.taskIdx < vhostVringSize) : Counters s' where
  lastAvailIdx := by rw [hr.lastAvailIdx, hr.log]; exact h.lastAvailIdx
  availIdx := by rw [hr.avail, hr.publ]; exact h.availIdx
  devIdx := by rw [hr.devIdx, hr.fetched]; exact h.devIdx
  usedIdx := by rw [hr.used, hr.usedLog]; exact h.usedIdx
  lastUsedIdx := by rw [hr.lastUsedIdx, hr.returned]; exact h.lastUsedIdx
  fetched_le := by rw [hr.fetched, hr.publ]; exact h.fetched_le
  publ_le := by rw [hr.publ, hr.log]; exact h.publ_le
  returned_le := by rw [hr.returned, hr.usedLog]; exact h.returned_le
  cursor := hcur

/-- A call that holds a position has left the stage of building. -/
theorem LogOk.not_mem_of_building (h : LogOk s) (hb : s.stage c = .building) : c ∉ s.log := by
  intro hmem
  obtain ⟨q, hq⟩ := List.getElem?_of_mem hmem
  by_cases hlt : q < s.fetched
  · simpa [hb] using h.stage_lt q c hq hlt
  · simpa [hb] using h.stage_ge q c hq (by omega)

/-- A call that is building touches its own slots, its own task object and the
search cursor; everybody else's part of the invariant stands. -/
theorem Inv.building_step (h : Inv s) (hb : s.stage c = .building) (hr : SameRings s s')
    (hcur : s'.mem.vring.taskIdx < vhostVringSize)
    (hothers : ∀ d, d ≠ c → s'.calls d = s.calls d ∧ s'.stage d = s.stage d ∧
      s'.freed d = s.freed d)
    (hstage : s'.stage c = .building ∨ s'.stage c = .gone)
    (hdesc : ∀ x, x ∉ s.held c → s'.mem.vring.desc x = s.mem.vring.desc x)
    (hnext : ∀ u t x, s.poller = .loadNext u t x →
      (s'.mem.vring.desc x).next = (s.mem.vring.desc x).next)
    (hobjs : ∀ t, t ≠ (s.calls c).task → s'.mem.objs t = s.mem.objs t)
    (howned : Owned s')
    (hcall : CallOk (s'.calls c) (s'.mem.objs (s'.calls c).task) s'.mem.vring.desc
      (s'.freed c) (s'.stage c)) : Inv s' := by
  have hlive : s.Live c := by simp [Sys.Live, hb]
  have hpastne : ∀ d, (s.stage d).Past → d ≠ c := by
    rintro d hp rfl
    simp [Stage.Past, hb] at hp
  have hne : ∀ d ∈ s.log, d ≠ c := by
    rintro d hd rfl
    exact h.log.not_mem_of_building hb hd
  have hobj : ∀ d, d ≠ c → s.Live d →
      s'.mem.objs (s.calls d).task = s.mem.objs (s.calls d).task :=
    fun d hd hl => hobjs _ (h.owned.task_ne hl hlive hd)
  refine ⟨h.counters.frame hr hcur, howned, ?_, ?_, ?_, ?_⟩
  · intro d
    by_cases hd : d = c
    · subst hd; exact hcall
    · obtain ⟨hc, hst, hfr⟩ := hothers d hd
      rw [hc, hst, hfr]
      refine (h.calls d).congr ?_ ?_
      · intro x hx
        exact hdesc x fun hxc => hd (h.owned.held_disjoint hx hxc)
      · intro h1 h2
        rw [hobj d hd ⟨h1, h2⟩]
        exact ⟨rfl, rfl⟩
  · refine h.log.frame hr.log hr.publ hr.fetched (by rw [hr.avail]) ?_ ?_ ?_ ?_
    · intro d hd; rw [(hothers d (hne d hd)).1]
    · intro d hd; exact Or.inl (by rw [(hothers d (hne d hd)).1])
    · intro d
      by_cases hd : d = c
      · subst hd
        rcases hstage with hg | hg <;> simp [hg, hb]
      · rw [(hothers d hd).2.1]
    · intro d hd; rw [(hothers d (hne d hd)).2.1]; exact id
  · refine h.used.frame hr.pending hr.usedLog hr.returned (by rw [hr.used])
      (by rw [hr.poller]; exact id) ?_
    intro d hd
    obtain ⟨hc, hst, hfr⟩ := hothers d (hpastne d hd)
    rw [hc]
    exact ⟨rfl, rfl, hfr, hst⟩
  · refine h.poll.frame h.used hr.poller hr.usedLog hr.returned hr.cleared ?_ ?_ hnext
    · intro d hd
      obtain ⟨hc, _, hfr⟩ := hothers d (hpastne d hd)
      rw [hc]
      exact ⟨rfl, rfl, hfr⟩
    · intro d hd
      have hdc : d ≠ c := hpastne d (Or.inr (Or.inl hd))
      rw [hobj d hdc (by simp [Sys.Live, hd])]

/-- A building call keeps its slots and its task: only memory it owns changes. -/
theorem Inv.private_step (h : Inv s) (hb : s.stage c = .building) {m : Mem} {C : PutCall}
    (htask : C.task = (s.calls c).task) (hslots : C.slots = (s.calls c).slots)
    (hvring : m.vring = { s.mem.vring with desc := m.vring.desc, taskIdx := m.vring.taskIdx })
    (hcur : m.vring.taskIdx < vhostVringSize)
    (hdesc : ∀ x, x ∉ s.held c → m.vring.desc x = s.mem.vring.desc x)
    (hnext : ∀ u t x, s.poller = .loadNext u t x →
      (m.vring.desc x).next = (s.mem.vring.desc x).next)
    (hobjs : ∀ t, t ≠ (s.calls c).task → m.objs t = s.mem.objs t)
    (hcall : BuildOk C (m.objs C.task) m.vring.desc (s.freed c)) :
    Inv { s with mem := m, calls := Function.update s.calls c C } := by
  have hcalls : ∀ d, (Function.update s.calls c C d).task = (s.calls d).task ∧
      (Function.update s.calls c C d).slots = (s.calls d).slots := by
    intro d
    by_cases hd : d = c
    · subst hd; simp [htask, hslots]
    · simp [Function.update_of_ne hd]
  refine h.building_step hb ?_ hcur ?_ (Or.inl hb) hdesc hnext hobjs ?_ ?_
  · constructor <;> first | rfl | (simp only; rw [hvring])
  · intro d hd; simp [Function.update_of_ne hd]
  · refine h.owned.frame ?_ rfl rfl rfl hcalls fun _ => Iff.rfl
    simp only; rw [hvring]
  · simpa [hb, CallOk] using hcall

theorem Inv.advance (h : Inv s) (hb : s.stage c = .building) {pc : PutPc}
    (hcall : BuildOk { s.calls c with pc := pc } (s.mem.objs (s.calls c).task)
      s.mem.vring.desc (s.freed c)) :
    Inv { s with calls := Function.update s.calls c { s.calls c with pc := pc } } :=
  h.private_step hb rfl rfl rfl h.counters.cursor (fun _ _ => rfl) (fun _ _ _ _ => rfl)
    (fun _ _ => rfl) hcall

/-! ## Claiming and giving back a slot -/

theorem Inv.claim (h : Inv s) (hb : s.stage c = .building) {saved idx : Nat}
    (hpc : (s.calls c).pc = .casTask saved idx) (hfree : s.mem.vring.tasks idx = none) :
    Inv { s with
      mem := s.mem.setTask idx (some (s.calls c).task)
      calls := Function.update s.calls c
        { s.calls c with slots := (s.calls c).slots ++ [idx], pc := .storeTaskIdx idx }
      owner := Function.update s.owner idx (some c) } := by
  have hcall := h.calls c
  rw [hb] at hcall
  simp only [CallOk, BuildOk, hpc] at hcall
  obtain ⟨hfr, hlen, hpart, -, hidx⟩ := hcall
  have hnone := h.owned.owner_none hfree
  have hheld : s.held c = (s.calls c).slots := by rw [Sys.held, hfr, List.drop_zero]
  have hnotin : ∀ d, idx ∉ s.held d := by
    intro d hd
    have hsome := (h.owned.owner idx d).mpr hd
    rw [hnone] at hsome
    cases hsome
  refine h.building_step hb (by constructor <;> rfl) h.counters.cursor ?_ (Or.inl hb)
    (fun _ _ => rfl) (fun _ _ _ _ => rfl) (fun _ _ => rfl) ?_ ?_
  · intro d hd; simp [Function.update_of_ne hd]
  · have htask : ∀ d, (Function.update s.calls c { s.calls c with
        slots := (s.calls c).slots ++ [idx], pc := .storeTaskIdx idx } d).task
        = (s.calls d).task := by
      intro d
      by_cases hd : d = c
      · subst hd; simp
      · simp [Function.update_of_ne hd]
    constructor
    · intro x
      by_cases hx : x = idx
      · subst hx; simp [Mem.setTask]
      · simp only [Mem.setTask, Function.update_of_ne hx, htask]
        exact h.owned.tasks x
    · intro x d
      simp only [Sys.held]
      by_cases hd : d = c
      · subst hd
        by_cases hx : x = idx
        · subst hx
          simp [hfr]
        · have hold := h.owned.owner x d
          rw [hheld] at hold
          simp [hfr, hx, hold]
      · by_cases hx : x = idx
        · subst hx
          have hno := hnotin d
          simp only [Function.update_self, Function.update_of_ne hd]
          constructor
          · intro heq; exact absurd (by simpa using heq.symm) hd
          · intro hmem; exact absurd hmem hno
        · simp only [Function.update_of_ne hx, Function.update_of_ne hd]
          exact h.owned.owner x d
    · intro d
      by_cases hd : d = c
      · subst hd
        have hno := hnotin d
        rw [hheld] at hno
        simpa using List.Nodup.append (h.owned.nodup d) (List.nodup_singleton idx)
          (by simpa using hno)
      · simpa [Function.update_of_ne hd] using h.owned.nodup d
    · intro d x
      by_cases hd : d = c
      · subst hd
        simp only [Function.update_self, List.mem_append, List.mem_singleton]
        rintro (hx | rfl)
        · exact h.owned.bound d x hx
        · exact hidx
      · simpa [Function.update_of_ne hd] using h.owned.bound d x
    · intro t d
      simp only [htask]
      exact h.owned.user t d
  · simp only [hb, CallOk, BuildOk, Function.update_self]
    refine ⟨hfr, ?_, ?_, ?_, ?_, ?_, ?_⟩
    · simp [hlen]
    · simp [← hlen]
    · exact hpart.lt
    · intro hi
      simp only at hi ⊢
      rw [List.getElem?_append_left (by omega)]
      exact hpart.prev hi
    · intro hi
      simp only at hi ⊢
      rw [List.getElem?_append_left (by omega)]
      exact hpart.head hi
    · exact hpart.chain.append (by omega) (by omega) idx

theorem Inv.unclaim (h : Inv s) (hb : s.stage c = .building) {j : Nat}
    (hpc : (s.calls c).pc = .rollback j) (hj : j < (s.calls c).i) :
    Inv { s with
      mem := s.mem.setTask ((s.calls c).slots.getD j 0) none
      calls := Function.update s.calls c { s.calls c with pc := .rollback (j + 1) }
      owner := Function.update s.owner ((s.calls c).slots.getD j 0) none
      freed := Function.update s.freed c (s.freed c + 1) } := by
  have hcall := h.calls c
  rw [hb] at hcall
  simp only [CallOk, BuildOk, hpc] at hcall
  obtain ⟨hfr, hlen, -⟩ := hcall
  have hget : (s.calls c).slots[s.freed c]? = some ((s.calls c).slots.getD j 0) := by
    rw [hfr, List.getD_eq_getElem?_getD, List.getElem?_eq_getElem (by omega)]
    rfl
  refine h.building_step hb (by constructor <;> rfl) h.counters.cursor ?_ (Or.inl hb)
    (fun _ _ => rfl) (fun _ _ _ _ => rfl) (fun _ _ => rfl) ?_ ?_
  · intro d hd; simp [Function.update_of_ne hd]
  · refine h.owned.release hget rfl rfl rfl rfl ?_ fun _ => Iff.rfl
    intro d
    by_cases hd : d = c
    · subst hd; simp
    · simp [Function.update_of_ne hd]
  · simp only [hb, CallOk, BuildOk, Function.update_self]
    exact ⟨by omega, hlen, by omega⟩

theorem Inv.giveUp (h : Inv s) (hb : s.stage c = .building) {j : Nat}
    (hpc : (s.calls c).pc = .rollback j) (hj : ¬ j < (s.calls c).i) :
    Inv { s with
      calls := Function.update s.calls c { s.calls c with pc := .done (-1) }
      stage := Function.update s.stage c .gone
      user := Function.update s.user (s.calls c).task none } := by
  have hcall := h.calls c
  rw [hb] at hcall
  simp only [CallOk, BuildOk, hpc] at hcall
  obtain ⟨hfr, hlen, hle⟩ := hcall
  refine h.building_step hb (by constructor <;> rfl) h.counters.cursor ?_ (Or.inr (by simp))
    (fun _ _ => rfl) (fun _ _ _ _ => rfl) (fun _ _ => rfl) ?_ ?_
  · intro d hd; simp [Function.update_of_ne hd]
  · have hcalls : ∀ d, (Function.update s.calls c { s.calls c with pc := .done (-1) } d).task =
        (s.calls d).task ∧ (Function.update s.calls c { s.calls c with pc := .done (-1) } d).slots =
        (s.calls d).slots := by
      intro d
      by_cases hd : d = c
      · subst hd; simp
      · simp [Function.update_of_ne hd]
    constructor
    · intro x
      simp only [(hcalls _).1]
      exact h.owned.tasks x
    · intro x d
      simp only [Sys.held, (hcalls d).2]
      exact h.owned.owner x d
    · intro d; rw [(hcalls d).2]; exact h.owned.nodup d
    · intro d x; rw [(hcalls d).2]; exact h.owned.bound d x
    · intro t d
      rw [(hcalls d).1]
      have hself : s.user (s.calls c).task = some c :=
        (h.owned.user _ c).mpr ⟨rfl, by simp [Sys.Live, hb]⟩
      by_cases hd : d = c
      · subst hd
        by_cases ht : t = (s.calls d).task
        · subst ht
          simp [Sys.Live]
        · have hno : ¬ s.user t = some d := fun hu => ht ((h.owned.user t d).mp hu).1.symm
          simp [Sys.Live, Function.update_of_ne ht, hno]
      · simp only [Sys.Live, Function.update_of_ne hd]
        by_cases ht : t = (s.calls c).task
        · subst ht
          have hno := (h.owned.user (s.calls c).task d).not.mp (by
            rw [hself]; intro heq; exact hd (by simpa using heq.symm))
          simpa [Sys.Live] using hno
        · rw [Function.update_of_ne ht]
          exact h.owned.user t d
  · simp only [CallOk, Function.update_self]
    exact ⟨by omega, Or.inl trivial⟩

/-! ## Writing the chain -/

theorem ChainOk.congr_upto {desc desc' : Nat → VringDesc} {bufs : List Buffer}
    {slots : List Nat} {lo f l i : Nat} (h : ChainOk desc bufs slots lo f l) (hf : f ≤ i)
    (hl : l ≤ i + 1) (hd : ∀ k x, slots[k]? = some x → k < i → desc' x = desc x) :
    ChainOk desc' bufs slots lo f l where
  carries k x hx hlo hk := by
    rw [hd k x hx (by omega)]
    exact h.carries k x hx hlo hk
  links k x y hx hy hlo hk := by
    rw [hd k x hx (by omega)]
    exact h.links k x y hx hy hlo hk

theorem getElem?_ne_of_nodup {slots : List Nat} (hn : slots.Nodup) {k i x y : Nat}
    (hx : slots[k]? = some x) (hy : slots[i]? = some y) (hne : k ≠ i) : x ≠ y := by
  rintro rfl
  obtain ⟨hk, hk'⟩ := List.getElem?_eq_some_iff.mp hx
  obtain ⟨hi, hi'⟩ := List.getElem?_eq_some_iff.mp hy
  exact hne ((hn.getElem_inj_iff).mp (hk'.trans hi'.symm))

theorem Claimed.setDesc {C : PutCall} {o : Task} {desc : Nat → VringDesc} {idx : Nat}
    (h : Claimed C o desc idx (C.i + 1)) (hn : C.slots.Nodup) (d : VringDesc) :
    Claimed C o (Function.update desc idx d) idx (C.i + 1) := by
  refine ⟨h.length, h.last, h.part.lt, h.part.prev, h.part.head,
    h.part.chain.congr_upto (Nat.le_refl _) (Nat.le_refl _) ?_⟩
  intro k x hx hk
  exact Function.update_of_ne (getElem?_ne_of_nodup hn hx h.last (by omega)) d desc

theorem Claimed.link {C : PutCall} {o : Task} {desc : Nat → VringDesc} {idx : Nat}
    (h : Claimed C o desc idx C.i) (hn : C.slots.Nodup) (hi : C.i ≠ 0) :
    Claimed C o (Function.update desc C.prevIdx { desc C.prevIdx with next := idx }) idx
      (C.i + 1) := by
  have hprev := h.part.prev (by omega)
  refine ⟨h.length, h.last, h.part.lt, h.part.prev, fun _ => h.part.head (by omega), ?_, ?_⟩
  · intro k x hx _ hk
    have hc := h.part.chain.carries k x hx (by omega) hk
    by_cases hxp : x = C.prevIdx
    · subst hxp
      rw [Function.update_self]
      exact hc
    · rw [Function.update_of_ne hxp]
      exact hc
  · intro k x y hx hy _ hk
    by_cases hki : k = C.i - 1
    · subst hki
      rw [hprev] at hx
      rw [show C.i - 1 + 1 = C.i by omega, h.last] at hy
      cases hx
      cases hy
      rw [Function.update_self]
    · rw [Function.update_of_ne (getElem?_ne_of_nodup hn hx hprev hki)]
      exact h.part.chain.links k x y hx hy (by omega) (by omega)

/-- The last store of an iteration completes the descriptor of its slot. -/
theorem Claimed.filled {C : PutCall} {o : Task} {desc : Nat → VringDesc} {idx : Nat}
    (h : Claimed C o desc idx (C.i + 1)) (hn : C.slots.Nodup)
    (haddr : (desc idx).addr = (vbufAt o C.i).buf)
    (hlen : (desc idx).len = (vbufAt o C.i).size % 2 ^ 32) :
    ChainOk (Function.update desc idx
        { desc idx with flags := descFlags (vbufAt o C.i) (C.i + 1 == o.count) })
      o.vbufs C.slots 0 (C.i + 1) (C.i + 1) := by
  have hset := (h.setDesc hn
    { desc idx with flags := descFlags (vbufAt o C.i) (C.i + 1 == o.count) }).part.chain
  refine ⟨?_, hset.links⟩
  intro k x hx hlo hk
  by_cases hki : k = C.i
  · subst hki
    rw [h.last] at hx
    cases hx
    rw [Function.update_self]
    have hlt : C.i < o.vbufs.length := h.part.lt
    refine ⟨vbufAt o C.i, ?_, haddr, hlen, rfl⟩
    rw [vbufAt, List.getD_eq_getElem?_getD, List.getElem?_eq_getElem hlt]
    rfl
  · exact hset.carries k x hx hlo (by omega)

theorem Inv.storeLink (h : Inv s) (hb : s.stage c = .building) {idx : Nat}
    (hpc : (s.calls c).pc = .storeLink idx) (hok : NoLinkRace s (.put c)) :
    Inv { s with
      mem := (putStep s.mem (s.calls c)).1
      calls := Function.update s.calls c (putStep s.mem (s.calls c)).2 } := by
  have hcall := h.calls c
  rw [hb] at hcall
  simp only [CallOk, BuildOk, hpc] at hcall
  obtain ⟨hfr, hcl⟩ := hcall
  have hn := h.owned.nodup c
  by_cases hi : (s.calls c).i = 0
  · simp only [putStep, hpc, if_pos hi]
    refine h.private_step hb rfl rfl rfl h.counters.cursor (fun _ _ => rfl)
      (fun _ _ _ _ => rfl) ?_ ?_
    · intro t ht
      exact Function.update_of_ne ht _ _
    · simp only [BuildOk, Mem.setObj, Function.update_self]
      refine ⟨hfr, ⟨hcl.length, hcl.last, hcl.part.lt, hcl.part.prev, ?_, ?_, ?_⟩⟩
      · intro _
        simpa [hi] using hcl.last
      · intro k x _ _ hk
        simp only [hi] at hk
        omega
      · intro k x y _ _ _ hk
        simp only [hi] at hk
        omega
  · simp only [putStep, hpc, if_neg hi]
    have hmem : (s.calls c).prevIdx ∈ s.held c := by
      rw [Sys.held, hfr, List.drop_zero]
      exact List.mem_of_getElem? (hcl.part.prev (by omega))
    refine h.private_step hb rfl rfl rfl h.counters.cursor ?_ ?_ (fun _ _ => rfl) ?_
    · intro x hx
      exact Function.update_of_ne (fun heq => hx (by rw [heq]; exact hmem)) _ _
    · intro u t x hp
      simp only [Mem.setDesc]
      rw [Function.update_of_ne (Ne.symm (hok idx u t x hpc hi hp))]
    · simp only [BuildOk, Mem.setDesc]
      exact ⟨hfr, (hcl.link hn hi).withPc _⟩

theorem Inv.storeDesc (h : Inv s) (hb : s.stage c = .building) {idx : Nat}
    (hpc : (s.calls c).pc = .storeAddr idx ∨ (s.calls c).pc = .storeLen idx ∨
      (s.calls c).pc = .storeFlags idx) :
    Inv { s with
      mem := (putStep s.mem (s.calls c)).1
      calls := Function.update s.calls c (putStep s.mem (s.calls c)).2 } := by
  have hcall := h.calls c
  rw [hb] at hcall
  have hn := h.owned.nodup c
  have hcl : s.freed c = 0 ∧ Claimed (s.calls c) (s.mem.objs (s.calls c).task)
      s.mem.vring.desc idx ((s.calls c).i + 1) := by
    rcases hpc with hpc | hpc | hpc <;> simp only [CallOk, BuildOk, hpc] at hcall
    · exact hcall
    · exact ⟨hcall.1, hcall.2.1⟩
    · exact ⟨hcall.1, hcall.2.1⟩
  obtain ⟨hfr, hcl⟩ := hcl
  -- all three stores go to `idx`, which the call holds, and leave its link alone
  have hmem : idx ∈ s.held c := by
    rw [Sys.held, hfr, List.drop_zero]
    exact hcl.mem
  have hdesc : ∀ d x, x ∉ s.held c →
      (s.mem.setDesc idx d).vring.desc x = s.mem.vring.desc x := by
    intro d x hx
    exact Function.update_of_ne (fun heq => hx (by rw [heq]; exact hmem)) _ _
  have hnext : ∀ d : VringDesc, d.next = (s.mem.vring.desc idx).next → ∀ x,
      ((s.mem.setDesc idx d).vring.desc x).next = (s.mem.vring.desc x).next := by
    intro d hd x
    by_cases hx : x = idx
    · subst hx; simpa [Mem.setDesc] using hd
    · simp [Mem.setDesc, Function.update_of_ne hx]
  rcases hpc with hpc | hpc | hpc <;> simp only [CallOk, BuildOk, hpc] at hcall
  · simp only [putStep, hpc]
    refine h.private_step hb rfl rfl rfl h.counters.cursor (hdesc _)
      (fun _ _ x _ => hnext _ (by rfl) x) (fun _ _ => rfl) ?_
    simp only [BuildOk, Mem.setDesc]
    exact ⟨hfr, (hcl.setDesc hn _).withPc _, by simp⟩
  · simp only [putStep, hpc]
    refine h.private_step hb rfl rfl rfl h.counters.cursor (hdesc _)
      (fun _ _ x _ => hnext _ (by rfl) x) (fun _ _ => rfl) ?_
    simp only [BuildOk, Mem.setDesc]
    exact ⟨hfr, (hcl.setDesc hn _).withPc _, by simpa using hcall.2.2, by simp⟩
  · simp only [putStep, hpc]
    refine h.private_step hb rfl rfl rfl h.counters.cursor (hdesc _)
      (fun _ _ x _ => hnext _ (by rfl) x) (fun _ _ => rfl) ?_
    have hchain := hcl.filled hn hcall.2.2.1 hcall.2.2.2
    have hhead := hcl.part.head (by omega)
    have hlt := hcl.part.lt
    by_cases hmore : (s.calls c).i + 1 < (s.mem.objs (s.calls c).task).count
    · simp only [BuildOk, loopPc, hmore, if_true]
      exact ⟨hfr, hcl.length, hmore, fun _ => hcl.last, fun _ => hhead, hchain⟩
    · simp only [BuildOk, loopPc, hmore, if_false]
      have heq : (s.calls c).i + 1 = (s.mem.objs (s.calls c).task).count := by omega
      refine ⟨hfr, hcl.length.trans heq, by simp only [Mem.setDesc]; omega, hhead, ?_⟩
      simpa only [Mem.setDesc, ← heq] using hchain

/-! ## `vring_flush` -/

/-- How many slots a call holds while nothing of its chain is free yet. -/
theorem Inv.held_length (h : Inv s) (hst : s.stage c = .avail ∨ s.stage c = .device ∨
      s.stage c = .used ∧ s.freed c = 0) :
    (s.held c).length = (s.mem.objs (s.calls c).task).count ∧
      0 < (s.mem.objs (s.calls c).task).count := by
  have hcall := h.calls c
  rcases hst with hst | hst | ⟨hst, hf⟩ <;> rw [hst] at hcall <;> simp only [CallOk] at hcall
  · exact ⟨by simp [Sys.held, hcall.1, hcall.2.1.length], hcall.2.1.pos⟩
  · exact ⟨by simp [Sys.held, hcall.1, hcall.2.1.length], hcall.2.1.pos⟩
  · exact ⟨by simp [Sys.held, hf, hcall.1.length], hcall.1.pos⟩

/-- Unread positions of the avail ring: each of them pins a descriptor. -/
theorem Inv.avail_window (h : Inv s) : s.log.length ≤ s.fetched + vhostVringSize := by
  have hcount := h.owned.pinned (L := s.log.drop s.fetched) (m := 1)
    (h.log.nodup.sublist (List.drop_sublist _ _)) (by
      intro d hd
      obtain ⟨k, hk⟩ := List.getElem?_of_mem hd
      rw [List.getElem?_drop] at hk
      have hlen := h.held_length (Or.inl (h.log.stage_ge _ d hk (by omega)))
      omega)
  simp only [List.length_drop, Nat.one_mul] at hcount
  omega

theorem Inv.reserve (h : Inv s) (hb : s.stage c = .building) {d idx : Nat}
    (hpc : (s.calls c).pc = .casLastAvailIdx d idx) (heq : s.mem.vring.lastAvailIdx = idx) :
    Inv { s with
      mem := s.mem.setLastAvailIdx ((idx + 1) % 2 ^ 16)
      calls := Function.update s.calls c { s.calls c with pc := .storeAvailRing d idx }
      log := s.log ++ [c]
      stage := Function.update s.stage c .avail } := by
  have hcall := h.calls c
  rw [hb] at hcall
  simp only [CallOk, BuildOk, hpc] at hcall
  obtain ⟨hfr, hbuilt, hd⟩ := hcall
  have hidx : idx = s.log.length % 2 ^ 16 := heq.symm.trans h.counters.lastAvailIdx
  have hnot := h.log.not_mem_of_building hb
  have hcalls : ∀ e, (Function.update s.calls c
      { s.calls c with pc := .storeAvailRing d idx } e).task = (s.calls e).task ∧
      (Function.update s.calls c { s.calls c with pc := .storeAvailRing d idx } e).slots =
      (s.calls e).slots := by
    intro e
    by_cases he : e = c
    · subst he; simp
    · simp [Function.update_of_ne he]
  have hpast : ∀ e, (s.stage e).Past → e ≠ c := by
    rintro e he rfl
    simp [Stage.Past, hb] at he
  have hold : ∀ {q e : Nat}, (s.log ++ [c])[q]? = some e →
      (s.log[q]? = some e ∧ e ≠ c) ∨ (q = s.log.length ∧ e = c) := by
    intro q e hq
    rcases Nat.lt_trichotomy q s.log.length with hlt | hlt | hlt
    · rw [List.getElem?_append_left hlt] at hq
      refine Or.inl ⟨hq, ?_⟩
      rintro rfl
      exact hnot (List.mem_of_getElem? hq)
    · subst hlt
      simp at hq
      exact Or.inr ⟨rfl, hq.symm⟩
    · rw [List.getElem?_eq_none (by simp; omega)] at hq
      cases hq
  have hle := h.counters.fetched_le
  have hle' := h.counters.publ_le
  refine ⟨?_, ?_, ?_, ?_, ?_, ?_⟩
  · refine { h.counters with lastAvailIdx := ?_, publ_le := ?_ }
    · simp only [Mem.setLastAvailIdx, List.length_append, List.length_singleton]
      omega
    · simp only [List.length_append, List.length_singleton]
      omega
  · refine h.owned.frame rfl rfl rfl rfl hcalls ?_
    intro e
    by_cases he : e = c
    · subst he; simp [Sys.Live, hb]
    · simp [Sys.Live, Function.update_of_ne he]
  · intro e
    by_cases he : e = c
    · subst he
      simp only [Function.update_self, CallOk, AvailPc]
      exact ⟨hfr, hbuilt.withPc _, hd⟩
    · simp only [Function.update_of_ne he]
      exact h.calls e
  · constructor
    · exact List.Nodup.append h.log.nodup (List.nodup_singleton c) (by simpa using hnot)
    · intro e he
      by_cases hec : e = c
      · subst hec; simp
      · simp only [Function.update_of_ne hec] at he
        exact List.mem_append_left _ (h.log.mem e he)
    · intro q e hq hlt
      rcases hold hq with ⟨hq, hec⟩ | ⟨rfl, rfl⟩
      · simp only [Function.update_of_ne hec]
        exact h.log.stage_lt q e hq hlt
      · simp only at hlt
        omega
    · intro q e hq hge
      rcases hold hq with ⟨hq, hec⟩ | ⟨rfl, rfl⟩
      · simp only [Function.update_of_ne hec]
        exact h.log.stage_ge q e hq hge
      · exact Function.update_self _ _ _
    · intro q e hq hlt
      rcases hold hq with ⟨hq, hec⟩ | ⟨rfl, rfl⟩
      · simp only [Function.update_of_ne hec]
        exact h.log.pc_lt q e hq hlt
      · simp only at hlt
        omega
    · intro q e hq hge
      rcases hold hq with ⟨hq, hec⟩ | ⟨rfl, rfl⟩
      · simp only [Function.update_of_ne hec]
        exact h.log.pc_ge q e hq hge
      · exact Or.inl ⟨d, by simp [hidx]⟩
    · intro q e hq hge hne
      rcases hold hq with ⟨hq, hec⟩ | ⟨rfl, rfl⟩
      · simp only [Function.update_of_ne hec] at hne ⊢
        exact h.log.ring q e hq hge hne
      · exact absurd (by simp) (hne d idx)
  · refine h.used.frame rfl rfl rfl rfl id ?_
    intro e he
    exact ⟨(hcalls e).2, (hcalls e).1, rfl, Function.update_of_ne (hpast e he) _ _⟩
  · refine h.poll.frame h.used rfl rfl rfl rfl ?_ (fun _ _ => rfl) (fun _ _ _ _ => rfl)
    intro e _
    exact ⟨(hcalls e).2, (hcalls e).1, rfl⟩

/-- A call that has reserved a position and not yet published it. -/
theorem Inv.position (h : Inv s) {idx : Nat} (hst : s.stage c = .avail)
    (hpc : (∃ d, (s.calls c).pc = .storeAvailRing d idx) ∨ (s.calls c).pc = .casAvailIdx idx) :
    ∃ q, s.log[q]? = some c ∧ s.publ ≤ q ∧ idx = q % 2 ^ 16 := by
  obtain ⟨q, hq⟩ := List.getElem?_of_mem (h.log.mem c hst)
  have hge : s.publ ≤ q := by
    by_contra hlt
    have hpub := h.log.pc_lt q c hq (by omega)
    rcases hpc with ⟨d, hpc⟩ | hpc <;> simp [hpc, Published] at hpub
  refine ⟨q, hq, hge, ?_⟩
  rcases h.log.pc_ge q c hq hge with ⟨d', hd'⟩ | hd' <;> rcases hpc with ⟨d, hpc⟩ | hpc <;>
    rw [hpc] at hd' <;> cases hd' <;> rfl

/-- Positions that the device has not read are told apart by their ring index. -/
theorem Inv.position_inj (h : Inv s) {q q' : Nat} (hq : s.fetched ≤ q) (hq' : s.fetched ≤ q')
    (hlt : q < s.log.length) (hlt' : q' < s.log.length)
    (heq : q % vhostVringSize = q' % vhostVringSize) : q = q' := by
  have hw := h.avail_window
  exact mod_inj_of_window hq hq' (by omega) (by omega) heq

theorem Inv.storeAvailRing (h : Inv s) (hst : s.stage c = .avail) {d idx : Nat}
    (hpc : (s.calls c).pc = .storeAvailRing d idx) :
    Inv { s with
      mem := s.mem.setAvailRing (idx &&& mask) d
      calls := Function.update s.calls c { s.calls c with pc := .casAvailIdx idx } } := by
  obtain ⟨q, hq, hge, hidx⟩ := h.position hst (Or.inl ⟨d, hpc⟩)
  have hcall := h.calls c
  rw [hst] at hcall
  simp only [CallOk, AvailPc, hpc] at hcall
  obtain ⟨hfr, hbuilt, hd⟩ := hcall
  have hslot : idx &&& mask = q % vhostVringSize := by
    rw [and_mask, hidx, vhostVringSize]
    omega
  have hcalls : ∀ e, (Function.update s.calls c { s.calls c with pc := .casAvailIdx idx } e).task =
      (s.calls e).task ∧
      (Function.update s.calls c { s.calls c with pc := .casAvailIdx idx } e).slots =
      (s.calls e).slots := by
    intro e
    by_cases he : e = c
    · subst he; simp
    · simp [Function.update_of_ne he]
  have hle := h.counters.fetched_le
  have hqlt := (List.getElem?_eq_some_iff.mp hq).1
  -- the position of a call is unique in the log
  have huniq : ∀ {q' e : Nat}, s.log[q']? = some e → q' ≠ q → e ≠ c := by
    rintro q' e hq' hne rfl
    exact getElem?_ne_of_nodup h.log.nodup hq' hq hne rfl
  refine ⟨{ h.counters with }, ?_, ?_, ?_, ?_, ?_⟩
  · exact h.owned.frame rfl rfl rfl rfl hcalls fun _ => Iff.rfl
  · intro e
    by_cases he : e = c
    · subst he
      simp only [Function.update_self, hst, CallOk, AvailPc]
      exact ⟨hfr, hbuilt.withPc _, trivial⟩
    · simp only [Function.update_of_ne he]
      exact h.calls e
  · refine { h.log with pc_lt := ?_, pc_ge := ?_, ring := ?_ }
    · intro q' e hq' hlt
      have hec := huniq hq' (by simp only at hlt; omega)
      simp only [Function.update_of_ne hec]
      exact h.log.pc_lt q' e hq' hlt
    · intro q' e hq' hge'
      by_cases hqq : q' = q
      · subst hqq
        rw [hq] at hq'
        cases hq'
        exact Or.inr (by simp [hidx])
      · simp only [Function.update_of_ne (huniq hq' hqq)]
        exact h.log.pc_ge q' e hq' hge'
    · intro q' e hq' hge' hne
      simp only at hge'
      by_cases hqq : q' = q
      · subst hqq
        rw [hq] at hq'
        cases hq'
        simp only [Mem.setAvailRing, hslot, Function.update_self]
        exact hd
      · have hlt' := (List.getElem?_eq_some_iff.mp hq').1
        have hres : q' % vhostVringSize ≠ q % vhostVringSize := fun heq =>
          hqq (h.position_inj hge' (by omega) hlt' hqlt heq)
        simp only [Function.update_of_ne (huniq hq' hqq)] at hne ⊢
        simp only [Mem.setAvailRing, hslot, Function.update_of_ne hres]
        exact h.log.ring q' e hq' hge' hne
  · refine h.used.frame rfl rfl rfl rfl id ?_
    intro e _
    exact ⟨(hcalls e).2, (hcalls e).1, rfl, rfl⟩
  · refine h.poll.frame h.used rfl rfl rfl rfl ?_ (fun _ _ => rfl) (fun _ _ _ _ => rfl)
    intro e _
    exact ⟨(hcalls e).2, (hcalls e).1, rfl⟩

/-- The second compare-and-swap of `vring_flush` succeeds for one call only: the
one whose position is next to be published. -/
theorem Inv.publish (h : Inv s) (hst : s.stage c = .avail) {idx : Nat}
    (hpc : (s.calls c).pc = .casAvailIdx idx) (heq : s.mem.vring.avail.idx = idx) :
    Inv { s with
      mem := s.mem.setAvailIdx ((idx + 1) % 2 ^ 16)
      calls := Function.update s.calls c { s.calls c with pc := .loadUsedFlags }
      publ := s.publ + 1 } := by
  obtain ⟨q, hq, hge, hidx⟩ := h.position hst (Or.inr hpc)
  have hcall := h.calls c
  rw [hst] at hcall
  simp only [CallOk, AvailPc, hpc] at hcall
  obtain ⟨hfr, hbuilt, -⟩ := hcall
  have hqlt := (List.getElem?_eq_some_iff.mp hq).1
  have hw := h.avail_window
  have hle := h.counters.fetched_le
  have hnext : q = s.publ := by
    rw [h.counters.availIdx, hidx] at heq
    rw [vhostVringSize] at hw
    exact mod_inj_of_window hge (Nat.le_refl _) (by omega) (by omega) heq.symm
  subst hnext
  have hcalls : ∀ e, (Function.update s.calls c { s.calls c with pc := .loadUsedFlags } e).task =
      (s.calls e).task ∧
      (Function.update s.calls c { s.calls c with pc := .loadUsedFlags } e).slots =
      (s.calls e).slots := by
    intro e
    by_cases he : e = c
    · subst he; simp
    · simp [Function.update_of_ne he]
  have huniq : ∀ {q' e : Nat}, s.log[q']? = some e → q' ≠ s.publ → e ≠ c := by
    rintro q' e hq' hne rfl
    exact getElem?_ne_of_nodup h.log.nodup hq' hq hne rfl
  refine ⟨?_, ?_, ?_, ?_, ?_, ?_⟩
  · refine { h.counters with availIdx := ?_, fetched_le := ?_, publ_le := ?_ }
    · simp only [Mem.setAvailIdx, hidx]
      omega
    · simp only; omega
    · simp only; omega
  · exact h.owned.frame rfl rfl rfl rfl hcalls fun _ => Iff.rfl
  · intro e
    by_cases he : e = c
    · subst he
      simp only [Function.update_self, hst, CallOk, AvailPc, Published]
      exact ⟨hfr, hbuilt.withPc _, trivial⟩
    · simp only [Function.update_of_ne he]
      exact h.calls e
  · refine { h.log with pc_lt := ?_, pc_ge := ?_, ring := ?_ }
    · intro q' e hq' hlt
      by_cases hqq : q' = s.publ
      · subst hqq
        rw [hq] at hq'
        cases hq'
        simp [Published]
      · simp only [Function.update_of_ne (huniq hq' hqq)]
        exact h.log.pc_lt q' e hq' (by simp only at hlt; omega)
    · intro q' e hq' hge'
      simp only at hge'
      simp only [Function.update_of_ne (huniq hq' (by omega))]
      exact h.log.pc_ge q' e hq' (by omega)
    · intro q' e hq' hge' hne
      by_cases hec : e = c
      · subst hec
        simp only [Function.update_self]
        exact h.log.ring q' e hq' hge' (by simp [hpc])
      · simp only [Function.update_of_ne hec] at hne ⊢
        exact h.log.ring q' e hq' hge' hne
  · refine h.used.frame rfl rfl rfl rfl id ?_
    intro e _
    exact ⟨(hcalls e).2, (hcalls e).1, rfl, rfl⟩
  · refine h.poll.frame h.used rfl rfl rfl rfl ?_ (fun _ _ => rfl) (fun _ _ _ _ => rfl)
    intro e _
    exact ⟨(hcalls e).2, (hcalls e).1, rfl⟩

/-- After the publication a call reads the notification hint and may kick; it
touches nothing that the invariant mentions. -/
theorem Inv.published_step (h : Inv s) {pc : PutPc} (k : Nat)
    (hp : Published (s.calls c).pc) (hp' : Published pc) :
    Inv { s with
      mem := { s.mem with vring := { s.mem.vring with kickfd := k } }
      calls := Function.update s.calls c { s.calls c with pc := pc } } := by
  have hcalls : ∀ e, (Function.update s.calls c { s.calls c with pc := pc } e).task =
      (s.calls e).task ∧
      (Function.update s.calls c { s.calls c with pc := pc } e).slots = (s.calls e).slots := by
    intro e
    by_cases he : e = c
    · subst he; simp
    · simp [Function.update_of_ne he]
  refine ⟨{ h.counters with }, h.owned.frame rfl rfl rfl rfl hcalls fun _ => Iff.rfl, ?_, ?_, ?_, ?_⟩
  · intro e
    by_cases he : e = c
    · subst he
      have hcall := h.calls e
      simp only [Function.update_self]
      cases hst : s.stage e <;> rw [hst] at hcall <;> simp only [CallOk] at hcall ⊢
      case idle => simp [hcall.1, Published] at hp
      case building =>
        cases hpc : (s.calls e).pc <;> simp [BuildOk, hpc, Published] at hcall hp
      case avail =>
        refine ⟨hcall.1, hcall.2.1.withPc _, ?_⟩
        cases pc <;> simp_all [AvailPc, Published]
      case device => exact ⟨hcall.1, hcall.2.1.withPc _, hp'⟩
      case used => exact ⟨hcall.1.withPc _, hp'⟩
      case gone => exact ⟨hcall.1, Or.inr hp'⟩
    · simp only [Function.update_of_ne he]
      exact h.calls e
  · refine h.log.frame rfl rfl rfl rfl (fun e _ => (hcalls e).2) ?_ (fun _ => Iff.rfl)
      (fun _ _ => id)
    intro e _
    by_cases he : e = c
    · subst he
      exact Or.inr ⟨hp, by simpa using hp'⟩
    · exact Or.inl (by simp [Function.update_of_ne he])
  · refine h.used.frame rfl rfl rfl rfl id ?_
    intro e _
    exact ⟨(hcalls e).2, (hcalls e).1, rfl, rfl⟩
  · refine h.poll.frame h.used rfl rfl rfl rfl ?_ (fun _ _ => rfl) (fun _ _ _ _ => rfl)
    intro e _
    exact ⟨(hcalls e).2, (hcalls e).1, rfl⟩

/-! ## One step of a call -/

theorem Inv.building_of_pc (h : Inv s) (hidle : (s.calls c).pc ≠ .idle)
    (hpub : ¬ Published (s.calls c).pc) (hfail : (s.calls c).pc ≠ .done (-1))
    (hring : ∀ d i, (s.calls c).pc ≠ .storeAvailRing d i)
    (hcas : ∀ i, (s.calls c).pc ≠ .casAvailIdx i) : s.stage c = .building := by
  have hcall := h.calls c
  cases hst : s.stage c <;> rw [hst] at hcall <;> simp only [CallOk] at hcall
  case idle => exact absurd hcall.1 hidle
  case avail =>
    obtain ⟨-, -, hpc⟩ := hcall
    cases hc : (s.calls c).pc <;> simp_all [AvailPc]
  case device => exact absurd hcall.2.2 hpub
  case used => exact absurd hcall.2 hpub
  case gone => rcases hcall.2 with hc | hc <;> contradiction

theorem Inv.avail_of_pc (h : Inv s) {idx : Nat}
    (hpc : (∃ d, (s.calls c).pc = .storeAvailRing d idx) ∨ (s.calls c).pc = .casAvailIdx idx) :
    s.stage c = .avail := by
  have hcall := h.calls c
  cases hst : s.stage c <;> rw [hst] at hcall
  all_goals rcases hpc with ⟨d, hpc⟩ | hpc <;> simp [CallOk, BuildOk, Published, hpc] at hcall

theorem put_inv (h : Inv s) (hok : NoLinkRace s (.put c)) (hs : step s (.put c) = some s') :
    Inv s' := by
  have hidle : (s.calls c).pc ≠ .idle := by
    intro hpc
    simp [step, hpc] at hs
  simp only [step, if_neg hidle, Option.some.injEq] at hs
  subst hs
  cases hpc : (s.calls c).pc
  case idle => exact absurd hpc hidle
  case storeAvailRing d idx =>
    simp only [putHistory, putStep, hpc]
    exact h.storeAvailRing (h.avail_of_pc (Or.inl ⟨d, hpc⟩)) hpc
  case casAvailIdx idx =>
    simp only [putHistory, putStep, hpc]
    by_cases heq : s.mem.vring.avail.idx = idx
    · simp only [if_pos heq]
      exact h.publish (h.avail_of_pc (Or.inr hpc)) hpc heq
    · simp only [if_neg heq, Function.update_eq_self]
      exact h
  case loadUsedFlags =>
    simp only [putHistory, putStep, hpc]
    split
    · exact h.published_step s.mem.vring.kickfd (by simp [hpc, Published]) (by simp [Published])
    · exact h.published_step s.mem.vring.kickfd (by simp [hpc, Published]) (by simp [Published])
  case writeKickfd =>
    simp only [putHistory, putStep, hpc]
    exact h.published_step _ (by simp [hpc, Published]) (by simp [Published])
  case done rc =>
    simp only [putHistory, putStep, hpc, Function.update_eq_self]
    exact h
  -- the remaining control points lie before the reservation
  all_goals
    have hb : s.stage c = .building := h.building_of_pc hidle (by simp [hpc, Published])
      (by simp [hpc]) (by simp [hpc]) (by simp [hpc])
    have hcall := h.calls c
    rw [hb] at hcall
    simp only [CallOk, BuildOk, hpc] at hcall
  case loadTaskIdx =>
    simp only [putHistory, putStep, hpc]
    apply h.advance hb
    exact ⟨hcall.1, hcall.2.1, hcall.2.2.withPc _, h.counters.cursor, h.counters.cursor⟩
  case loadTask saved idx =>
    simp only [putHistory, putStep, hpc]
    cases hfree : s.mem.vring.tasks idx with
    | none =>
        apply h.advance hb
        exact ⟨hcall.1, hcall.2.1, hcall.2.2.1.withPc _, hcall.2.2.2⟩
    | some t =>
        simp only
        split
        · exact h.advance hb ⟨hcall.1, hcall.2.1, by simp⟩
        · refine h.advance hb ⟨hcall.1, hcall.2.1, hcall.2.2.1.withPc _, hcall.2.2.2.1, ?_⟩
          rw [and_mask]
          exact Nat.mod_lt _ (by decide)
  case casTask saved idx =>
    simp only [putHistory, putStep, hpc]
    cases hfree : s.mem.vring.tasks idx with
    | none => exact h.claim hb hpc hfree
    | some t =>
        exact h.advance hb ⟨hcall.1, hcall.2.1, hcall.2.2.1.withPc _, hcall.2.2.2⟩
  case storeTaskIdx idx =>
    simp only [putHistory, putStep, hpc]
    refine h.private_step hb rfl rfl rfl ?_ (fun _ _ => rfl) (fun _ _ _ _ => rfl)
      (fun _ _ => rfl) ⟨hcall.1, hcall.2.withPc _⟩
    simp only [Mem.setTaskIdx, and_mask]
    exact Nat.mod_lt _ (by decide)
  case storeLink idx =>
    simpa only [putHistory, hpc] using h.storeLink hb hpc hok
  case storeAddr idx =>
    simpa only [putHistory, hpc] using h.storeDesc hb (Or.inl hpc)
  case storeLen idx =>
    simpa only [putHistory, hpc] using h.storeDesc hb (Or.inr (Or.inl hpc))
  case storeFlags idx =>
    simpa only [putHistory, hpc] using h.storeDesc hb (Or.inr (Or.inr hpc))
  case rollback j =>
    simp only [putHistory, putStep, hpc]
    by_cases hj : j < (s.calls c).i
    · simp only [if_pos hj]
      exact h.unclaim hb hpc hj
    · simp only [if_neg hj]
      exact h.giveUp hb hpc hj
  case loadVringIdx =>
    simp only [putHistory, putStep, hpc]
    exact h.advance hb ⟨hcall.1, hcall.2.withPc _, hcall.2.head⟩
  case loadLastAvailIdx d =>
    simp only [putHistory, putStep, hpc]
    exact h.advance hb ⟨hcall.1, hcall.2.1.withPc _, hcall.2.2⟩
  case casLastAvailIdx d idx =>
    simp only [putHistory, putStep, hpc]
    by_cases heq : s.mem.vring.lastAvailIdx = idx
    · simp only [if_pos heq]
      exact h.reserve hb hpc heq
    · simp only [if_neg heq]
      exact h.advance hb ⟨hcall.1, hcall.2.1.withPc _, hcall.2.2⟩

end VhostUser.Ring
