import VhostUser.Ring.Atomic

/-! # One call of `vring_put_task`

A call with nothing in between. It claims slots one by one, looking round the ring from the
cursor, and has either claimed one for each buffer or found the ring full. What it returns
depends on the number of free slots only.
-/

namespace VhostUser.Ring

open VhostUser.Lib

/-- The call runs alone. -/
inductive Alone : Mem → PutCall → Mem → PutCall → Prop
  | refl (m : Mem) (C : PutCall) : Alone m C m C
  | step {m m' : Mem} {C C' : PutCall} (rest : Alone (putStep m C).1 (putStep m C).2 m' C') :
      Alone m C m' C'

variable {m m' m₀ : Mem} {C C' : PutCall} {t : TaskPtr}

namespace Alone

theorem trans {m'' : Mem} {C'' : PutCall} (h : Alone m C m' C') (h' : Alone m' C' m'' C'') :
    Alone m C m'' C'' := by
  induction h with
  | refl => exact h'
  | step _ ih => exact .step (ih h')

theorem next {m₁ : Mem} {C₁ : PutCall} (hstep : putStep m C = (m₁, C₁)) (rest : Alone m₁ C₁ m' C') :
    Alone m C m' C' := by
  refine .step ?_
  rw [hstep]
  exact rest

theorem of_done {rc : Int} (h : Alone m C m' C') (hpc : C.pc = .done rc) : m' = m ∧ C' = C := by
  induction h with
  | refl => exact ⟨rfl, rfl⟩
  | @step m m' C C' _ ih =>
      have hstay : putStep m C = (m, C) := by
        unfold putStep
        rw [hpc]
      rw [hstay] at ih
      exact ih hpc

theorem unique {m'' : Mem} {C'' : PutCall} {rc rc' : Int} (h : Alone m C m' C')
    (hrc : C'.pc = .done rc) (h' : Alone m C m'' C'') (hrc' : C''.pc = .done rc') :
    m'' = m' ∧ C'' = C' := by
  induction h with
  | refl => exact h'.of_done hrc
  | step rest ih =>
      cases h' with
      | refl => exact ⟨((Alone.step rest).of_done hrc').1.symm, ((Alone.step rest).of_done hrc').2.symm⟩
      | step rest' => exact ih hrc rest'

end Alone

/-! ## The search -/

/-- The slots from the cursor on, once round the ring, are all slots. -/
theorem forall_of_round {p : Nat → Prop} {saved : Nat} (hsaved : saved < vhostVringSize)
    (h : ∀ j < vhostVringSize, p ((saved + j) % vhostVringSize)) : ∀ idx < vhostVringSize, p idx := by
  intro idx hidx
  by_cases hle : saved ≤ idx
  · have hpos := h (idx - saved) (by omega)
    rwa [show saved + (idx - saved) = idx by omega, Nat.mod_eq_of_lt hidx] at hpos
  · have hpos := h (idx + vhostVringSize - saved) (by omega)
    rwa [show saved + (idx + vhostVringSize - saved) = idx + vhostVringSize by omega,
      Nat.add_mod_right, Nat.mod_eq_of_lt hidx] at hpos

theorem Alone.search {saved k n : Nat} (hsaved : saved < vhostVringSize)
    (hk : k + n + 1 = vhostVringSize) (hpc : C.pc = .loadTask saved ((saved + k) % vhostVringSize))
    (htaken : ∀ j < k, m.vring.tasks ((saved + j) % vhostVringSize) ≠ none) :
    (∃ idx, idx < vhostVringSize ∧ m.vring.tasks idx = none ∧
      Alone m C m { C with pc := .casTask saved idx }) ∨
    (∀ idx < vhostVringSize, m.vring.tasks idx ≠ none) ∧ Alone m C m { C with pc := .rollback 0 } := by
  -- induction on the number of slots behind the `k`th
  induction n generalizing k C with
  | zero =>
      cases hslot : m.vring.tasks ((saved + k) % vhostVringSize) with
      | none =>
          refine Or.inl ⟨_, Nat.mod_lt _ (by decide), hslot, .next ?_ (.refl ..)⟩
          simp only [putStep, hpc, hslot]
      | some t =>
          have hround : ((saved + k) % vhostVringSize + 1) &&& mask = saved := by
            rw [and_mask, Nat.mod_add_mod, show saved + k + 1 = saved + vhostVringSize by omega,
              Nat.add_mod_right, Nat.mod_eq_of_lt hsaved]
          refine Or.inr ⟨forall_of_round hsaved fun j hj => ?_, .next ?_ (.refl ..)⟩
          · by_cases hjk : j < k
            · exact htaken j hjk
            · rw [show j = k by omega, hslot]
              exact Option.some_ne_none t
          · simp only [putStep, hpc, hslot, if_pos hround]
  | succ n ih =>
      cases hslot : m.vring.tasks ((saved + k) % vhostVringSize) with
      | none =>
          refine Or.inl ⟨_, Nat.mod_lt _ (by decide), hslot, .next ?_ (.refl ..)⟩
          simp only [putStep, hpc, hslot]
      | some t =>
          have hnext : ((saved + k) % vhostVringSize + 1) &&& mask = (saved + (k + 1)) % vhostVringSize := by
            rw [and_mask, Nat.mod_add_mod, Nat.add_assoc]
          have hgo : (saved + (k + 1)) % vhostVringSize ≠ saved := by
            intro heq
            rcases Nat.lt_or_ge (saved + (k + 1)) vhostVringSize with hlt | hge
            · rw [Nat.mod_eq_of_lt hlt] at heq
              omega
            · rw [Nat.mod_eq_sub_mod hge, Nat.mod_eq_of_lt (by omega)] at heq
              omega
          have hstep : putStep m C =
              (m, { C with pc := .loadTask saved ((saved + (k + 1)) % vhostVringSize) }) := by
            simp only [putStep, hpc, hslot, hnext, if_neg hgo]
          have htaken' : ∀ j < k + 1, m.vring.tasks ((saved + j) % vhostVringSize) ≠ none := by
            intro j hj
            by_cases hjk : j < k
            · exact htaken j hjk
            · rw [show j = k by omega, hslot]
              exact Option.some_ne_none t
          rcases ih (k := k + 1) (C := { C with pc := .loadTask saved ((saved + (k + 1)) % vhostVringSize) })
            (by omega) rfl htaken' with ⟨idx, hidx, hfree, hrun⟩ | ⟨hfull, hrun⟩
          · exact Or.inl ⟨idx, hidx, hfree, .next hstep hrun⟩
          · exact Or.inr ⟨hfull, .next hstep hrun⟩

/-! ## One iteration -/

/-- The call has claimed these slots and written to nothing but them and its task. -/
structure Taken (m₀ : Mem) (t : TaskPtr) (m : Mem) (slots : List Nat) : Prop where
  nodup : slots.Nodup
  free : ∀ x ∈ slots, x < vhostVringSize ∧ m₀.vring.tasks x = none
  tasks : ∀ x, m.vring.tasks x = if x ∈ slots then some t else m₀.vring.tasks x
  desc : ∀ x, x ∉ slots → m.vring.desc x = m₀.vring.desc x
  vbufs : (m.objs t).vbufs = (m₀.objs t).vbufs
  avail : m.vring.avail = m₀.vring.avail
  lastAvailIdx : m.vring.lastAvailIdx = m₀.vring.lastAvailIdx
  cursor : m.vring.taskIdx < vhostVringSize

theorem Taken.claim {slots : List Nat} (h : Taken m₀ t m slots) {idx : Nat}
    (hidx : idx < vhostVringSize) (hfree : m.vring.tasks idx = none) :
    Taken m₀ t ((m.setTask idx (some t)).setTaskIdx ((idx + 1) &&& mask)) (slots ++ [idx]) := by
  have hnew : idx ∉ slots := by
    intro hmem
    rw [h.tasks, if_pos hmem] at hfree
    cases hfree
  have hfree₀ : m₀.vring.tasks idx = none := by
    rw [h.tasks, if_neg hnew] at hfree
    exact hfree
  refine ⟨?_, ?_, fun x => ?_, fun x hx => ?_, h.vbufs, h.avail, h.lastAvailIdx, ?_⟩
  · exact List.nodup_append.mpr ⟨h.nodup, List.nodup_singleton idx, fun x hx y hy => by
      rintro rfl
      exact hnew (List.mem_singleton.mp hy ▸ hx)⟩
  · intro x hx
    rcases List.mem_append.mp hx with hold | hlast
    · exact h.free x hold
    · rw [List.mem_singleton.mp hlast]
      exact ⟨hidx, hfree₀⟩
  · show Function.update m.vring.tasks idx (some t) x = _
    by_cases hx : x = idx
    · subst hx
      simp
    · rw [Function.update_of_ne hx, h.tasks]
      simp [hx]
  · exact h.desc x fun hmem => hx (List.mem_append.mpr (Or.inl hmem))
  · show (idx + 1) &&& mask < vhostVringSize
    rw [and_mask]
    exact Nat.mod_lt _ (by decide)

theorem Taken.setDesc {slots : List Nat} (h : Taken m₀ t m slots) {x : Nat} (hx : x ∈ slots)
    (d : VringDesc) : Taken m₀ t (m.setDesc x d) slots where
  nodup := h.nodup
  free := h.free
  tasks := h.tasks
  desc y hy := by
    have hne : y ≠ x := fun heq => hy (heq ▸ hx)
    exact (Function.update_of_ne hne ..).trans (h.desc y hy)
  vbufs := h.vbufs
  avail := h.avail
  lastAvailIdx := h.lastAvailIdx
  cursor := h.cursor

theorem Taken.setVringIdx {slots : List Nat} (h : Taken m₀ t m slots) (idx : Nat) :
    Taken m₀ t (m.setObj t { m.objs t with vringIdx := idx }) slots where
  nodup := h.nodup
  free := h.free
  tasks := h.tasks
  desc := h.desc
  vbufs := by
    show (Function.update m.objs t _ t).vbufs = _
    rw [Function.update_self]
    exact h.vbufs
  avail := h.avail
  lastAvailIdx := h.lastAvailIdx
  cursor := h.cursor

/-- What has been done of the call when iteration `C.i` begins. -/
structure Filling (m₀ : Mem) (t : TaskPtr) (m : Mem) (C : PutCall) : Prop
    extends Taken m₀ t m C.slots where
  task : C.task = t
  length : C.slots.length = C.i
  le : C.i ≤ (m₀.objs t).count
  chain : ChainOk m.vring.desc (m₀.objs t).vbufs C.slots 0 C.i C.i
  prev : 0 < C.i → C.slots[C.i - 1]? = some C.prevIdx
  head : 0 < C.i → C.slots[0]? = some (m.objs t).vringIdx

theorem Filling.init (hcursor : m₀.vring.taskIdx < vhostVringSize) :
    Filling m₀ t m₀ (putStart m₀ t) :=
  ⟨⟨List.nodup_nil, nofun, fun _ => rfl, fun _ _ => rfl, rfl, rfl, rfl, hcursor⟩, rfl, rfl,
    Nat.zero_le _, ⟨nofun, nofun⟩, nofun, nofun⟩

/-- The store of the link, which is the head of the chain in the first iteration. -/
theorem Claimed.storeLink {idx : Nat} (h : Claimed C (m.objs t) m.vring.desc idx C.i)
    (ht : Taken m₀ t m C.slots) (htask : C.task = t) (hpc : C.pc = .storeLink idx) :
    ∃ m', putStep m C = (m', { C with pc := .storeAddr idx }) ∧ Taken m₀ t m' C.slots ∧
      Claimed { C with pc := .storeAddr idx } (m'.objs t) m'.vring.desc idx (C.i + 1) := by
  by_cases hi : C.i = 0
  · refine ⟨m.setObj t { m.objs t with vringIdx := idx }, ?_, ht.setVringIdx idx, ?_⟩
    · simp only [putStep, hpc, htask, if_pos hi]
    · have hobj : ((m.setObj t { m.objs t with vringIdx := idx }).objs t) =
          { m.objs t with vringIdx := idx } := Function.update_self ..
      rw [hobj]
      refine ⟨h.length, h.last, h.part.lt, h.part.prev, fun _ => hi ▸ h.last, ?_, ?_⟩
      · intro k x _ _ (hk : k < C.i)
        omega
      · intro k x y _ _ _ (hk : k + 1 < C.i + 1)
        omega
  · have hprev := h.part.prev (by omega)
    refine ⟨m.setDesc C.prevIdx { m.vring.desc C.prevIdx with next := idx }, ?_,
      ht.setDesc (List.mem_of_getElem? hprev) _, (h.link ht.nodup hi).withPc _⟩
    simp only [putStep, hpc, if_neg hi]

theorem Claimed.storeDesc {idx : Nat} (h : Claimed C (m.objs t) m.vring.desc idx (C.i + 1))
    (ht : Taken m₀ t m C.slots) (htask : C.task = t) (hpc : C.pc = .storeAddr idx) :
    ∃ m' pc, Alone m C m' { C with i := C.i + 1, prevIdx := idx, pc := pc } ∧
      pc = loopPc (m₀.objs t) (C.i + 1) ∧ Taken m₀ t m' C.slots ∧
      ChainOk m'.vring.desc (m₀.objs t).vbufs C.slots 0 (C.i + 1) (C.i + 1) ∧
      (m'.objs t).vringIdx = (m.objs t).vringIdx := by
  let d₁ : VringDesc := { m.vring.desc idx with addr := (vbufAt (m.objs t) C.i).buf }
  let d₂ : VringDesc := { d₁ with len := (vbufAt (m.objs t) C.i).size % 2 ^ 32 }
  let d₃ : VringDesc :=
    { d₂ with flags := descFlags (vbufAt (m.objs t) C.i) (C.i + 1 == (m.objs t).count) }
  let m₂ := (m.setDesc idx d₁).setDesc idx d₂
  have hself : ∀ (n : Mem) (d : VringDesc), (n.setDesc idx d).vring.desc idx = d := fun n d =>
    Function.update_self ..
  have hcount : (m.objs t).count = (m₀.objs t).count := congrArg List.length ht.vbufs
  have hcl : Claimed C (m.objs t) m₂.vring.desc idx (C.i + 1) :=
    (h.setDesc ht.nodup d₁).setDesc ht.nodup d₂
  have hchain : ChainOk (m₂.setDesc idx d₃).vring.desc (m.objs t).vbufs C.slots 0 (C.i + 1) (C.i + 1) := by
    have hfilled := hcl.filled ht.nodup (by rw [hself]) (by rw [hself])
    rw [hself] at hfilled
    exact hfilled
  refine ⟨m₂.setDesc idx d₃, loopPc (m₀.objs t) (C.i + 1), ?_, rfl,
    ((ht.setDesc h.mem d₁).setDesc h.mem d₂).setDesc h.mem d₃, ht.vbufs ▸ hchain, rfl⟩
  have hloop : loopPc (m.objs t) (C.i + 1) = loopPc (m₀.objs t) (C.i + 1) := by
    rw [loopPc, loopPc, hcount]
  have haddr : putStep m C = (m.setDesc idx d₁, { C with pc := .storeLen idx }) := by
    simp only [putStep, hpc, htask]
    rfl
  have hlen : putStep (m.setDesc idx d₁) { C with pc := .storeLen idx } =
      (m₂, { C with pc := .storeFlags idx }) := by
    simp only [putStep, htask, hself]
    rfl
  have hflags : putStep m₂ { C with pc := .storeFlags idx } = (m₂.setDesc idx d₃,
      { C with i := C.i + 1, prevIdx := idx, pc := loopPc (m₀.objs t) (C.i + 1) }) := by
    rw [← hloop]
    simp only [putStep, htask]
    rw [show m₂.vring.desc idx = d₂ from hself _ _]
    rfl
  exact .next haddr (.next hlen (.next hflags (.refl ..)))

theorem Filling.iterate (h : Filling m₀ t m C) (hpc : C.pc = .loadTaskIdx)
    (hi : C.i < (m₀.objs t).count) :
    (∃ m' C', Alone m C m' C' ∧ Filling m₀ t m' C' ∧ C'.i = C.i + 1 ∧
      C'.pc = loopPc (m₀.objs t) (C.i + 1)) ∨
    (∀ idx < vhostVringSize, m.vring.tasks idx ≠ none) ∧ Alone m C m { C with pc := .rollback 0 } := by
  have hstart : putStep m C = (m, { C with pc := .loadTask m.vring.taskIdx m.vring.taskIdx }) := by
    simp only [putStep, hpc]
  have hsearch : (∃ idx, idx < vhostVringSize ∧ m.vring.tasks idx = none ∧
      Alone m { C with pc := .loadTask m.vring.taskIdx m.vring.taskIdx } m
        { C with pc := .casTask m.vring.taskIdx idx }) ∨
      (∀ idx < vhostVringSize, m.vring.tasks idx ≠ none) ∧
        Alone m { C with pc := .loadTask m.vring.taskIdx m.vring.taskIdx } m
          { C with pc := .rollback 0 } := by
    refine Alone.search (k := 0) (n := vhostVringSize - 1) h.cursor (by decide) ?_ fun j hj =>
      absurd hj (Nat.not_lt_zero j)
    rw [Nat.add_zero, Nat.mod_eq_of_lt h.cursor]
  rcases hsearch with ⟨idx, hidx, hfree, hrun⟩ | ⟨hfull, hrun⟩
  · apply Or.inl
    let m₂ := (m.setTask idx (some t)).setTaskIdx ((idx + 1) &&& mask)
    let C₂ : PutCall := { C with slots := C.slots ++ [idx], pc := .storeLink idx }
    have htaken : Taken m₀ t m₂ C₂.slots := h.toTaken.claim hidx hfree
    have hclaim : putStep m { C with pc := .casTask m.vring.taskIdx idx } =
        (m.setTask idx (some t), { C with slots := C.slots ++ [idx], pc := .storeTaskIdx idx }) := by
      simp only [putStep, hfree, h.task]
    have hcursor : putStep (m.setTask idx (some t))
        { C with slots := C.slots ++ [idx], pc := .storeTaskIdx idx } = (m₂, C₂) := rfl
    have hcl : Claimed C₂ (m₂.objs t) m₂.vring.desc idx C₂.i := by
      have hleft : ∀ k, k < C.i → (C.slots ++ [idx])[k]? = C.slots[k]? := fun k hk =>
        List.getElem?_append_left (by rw [h.length]; exact hk)
      constructor
      case length => rw [List.length_append, h.length, List.length_singleton]
      case last =>
        show (C.slots ++ [idx])[C.i]? = some idx
        rw [← h.length]
        exact List.getElem?_concat_length
      case part =>
        refine ⟨?_, fun hpos => ?_, fun hpos => ?_, ?_⟩
        · exact lt_of_lt_of_eq hi (congrArg List.length htaken.vbufs).symm
        · exact (hleft _ (Nat.sub_one_lt_of_lt hpos)).trans (h.prev hpos)
        · exact (hleft 0 hpos).trans (h.head hpos)
        · rw [htaken.vbufs]
          exact h.chain.append h.length.ge h.length.ge idx
    obtain ⟨m₃, hlink, htaken₃, hcl₃⟩ := hcl.storeLink htaken h.task rfl
    obtain ⟨m', pc, hstores, rfl, htaken', hchain, hhead⟩ := hcl₃.storeDesc htaken₃ h.task rfl
    refine ⟨m', { C₂ with i := C.i + 1, prevIdx := idx, pc := loopPc (m₀.objs t) (C.i + 1) }, ?_, ⟨htaken', h.task, hcl₃.length, hi, hchain, fun _ => hcl₃.last, fun _ => ?_⟩, rfl, rfl⟩
    · exact .next hstart (hrun.trans (.next hclaim (.next hcursor (.next hlink hstores))))
    · rw [hhead]
      exact hcl₃.part.head (Nat.succ_pos _)
  · exact Or.inr ⟨hfull, .next hstart hrun⟩

/-- All iterations: the loop ends behind the last buffer, or where the ring is full. -/
theorem Filling.loop {n : Nat} (h : Filling m₀ t m C) (hn : C.i + n = (m₀.objs t).count)
    (hpc : C.pc = loopPc (m₀.objs t) C.i) :
    ∃ m' C', Filling m₀ t m' C' ∧
      (Alone m C m' C' ∧ C'.i = (m₀.objs t).count ∧ C'.pc = .loadVringIdx ∨
        Alone m C m' { C' with pc := .rollback 0 } ∧ C'.i < (m₀.objs t).count ∧
          ∀ idx < vhostVringSize, m'.vring.tasks idx ≠ none) := by
  induction n generalizing m C with
  | zero =>
      refine ⟨m, C, h, Or.inl ⟨.refl .., hn, ?_⟩⟩
      rw [hpc, loopPc, if_neg (by omega)]
  | succ n ih =>
      have hi : C.i < (m₀.objs t).count := by omega
      rw [loopPc, if_pos hi] at hpc
      rcases h.iterate hpc hi with ⟨m', C', hrun, h', hi', hpc'⟩ | ⟨hfull, hrun⟩
      · rw [← hi'] at hpc'
        obtain ⟨m'', C'', h'', hend⟩ := ih h' (by omega) hpc'
        refine ⟨m'', C'', h'', hend.imp (fun hl => ⟨hrun.trans hl.1, hl.2⟩) fun hr => ?_⟩
        exact ⟨hrun.trans hr.1, hr.2⟩
      · exact ⟨m, C, h, Or.inr ⟨hrun, hi, hfull⟩⟩

/-! ## The two ends of a call -/

/-- Nothing of the ring but the task table has changed between two memories. -/
structure SameRing (m m' : Mem) : Prop where
  desc : m'.vring.desc = m.vring.desc
  avail : m'.vring.avail = m.vring.avail
  lastAvailIdx : m'.vring.lastAvailIdx = m.vring.lastAvailIdx

theorem Alone.rollback (m₀ : Mem) (t : TaskPtr) {n j : Nat} (hn : j + n = C.i) (hlen : C.slots.length = C.i)
    (hpc : C.pc = .rollback j) (hnodup : C.slots.Nodup)
    (hfree : ∀ x ∈ C.slots, m₀.vring.tasks x = none)
    (htasks : ∀ x, m.vring.tasks x = if x ∈ C.slots.drop j then some t else m₀.vring.tasks x) :
    ∃ m' C', Alone m C m' C' ∧ C'.pc = .done (-1) ∧ m'.vring.tasks = m₀.vring.tasks ∧
      SameRing m m' := by
  induction n generalizing m C j with
  | zero =>
      have hstop : putStep m C = (m, { C with pc := .done (-1) }) := by
        simp only [putStep, hpc]
        rw [if_neg (by omega)]
      refine ⟨m, _, .next hstop (.refl ..), rfl, funext fun x => ?_, ⟨rfl, rfl, rfl⟩⟩
      rw [htasks, List.drop_eq_nil_of_le (by omega)]
      rfl
  | succ n ih =>
      have hj : j < C.slots.length := by omega
      have hdrop : C.slots.drop j = C.slots[j] :: C.slots.drop (j + 1) := List.drop_eq_getElem_cons hj
      have hslot : C.slots.getD j 0 = C.slots[j] := (List.getElem_eq_getD 0).symm
      have hlast : C.slots[j] ∉ C.slots.drop (j + 1) := by
        have hsub := hnodup.sublist (List.drop_sublist j C.slots)
        rw [hdrop] at hsub
        exact (List.nodup_cons.mp hsub).1
      have hstep : putStep m C = (m.setTask C.slots[j] none, { C with pc := .rollback (j + 1) }) := by
        simp only [putStep, hpc, hslot]
        rw [if_pos (by omega)]
      have htasks' : ∀ x, (m.setTask C.slots[j] none).vring.tasks x =
          if x ∈ C.slots.drop (j + 1) then some t else m₀.vring.tasks x := by
        intro x
        show Function.update m.vring.tasks C.slots[j] none x = _
        by_cases hx : x = C.slots[j]
        · subst hx
          rw [Function.update_self, if_neg hlast, hfree _ (List.getElem_mem hj)]
        · have hmem : x ∈ C.slots.drop j ↔ x ∈ C.slots.drop (j + 1) := by
            rw [hdrop, List.mem_cons]
            exact or_iff_right hx
          rw [Function.update_of_ne hx, htasks]
          simp only [hmem]
      obtain ⟨m', C', hrun, hdone, heq, hsame⟩ := ih (C := { C with pc := .rollback (j + 1) })
        (by show j + 1 + n = C.i; omega) hlen rfl hnodup hfree htasks'
      exact ⟨m', C', .next hstep hrun, hdone, heq, ⟨hsame.desc, hsame.avail, hsame.lastAvailIdx⟩⟩

/-- The entry of the avail ring, and the two indices. -/
def Mem.publish (m : Mem) (d : Nat) : Mem :=
  ((m.setLastAvailIdx ((m.vring.lastAvailIdx + 1) % 2 ^ 16)).setAvailRing
    (m.vring.lastAvailIdx &&& mask) d).setAvailIdx ((m.vring.lastAvailIdx + 1) % 2 ^ 16)

/-- `vring_flush`, which does not wait as nobody else has reserved a position. -/
theorem Alone.flush (hav : m.vring.avail.idx = m.vring.lastAvailIdx) (hpc : C.pc = .loadVringIdx) :
    ∃ m' C', Alone m C m' C' ∧ C'.pc = .done 0 ∧
      (m' = m.publish (m.objs C.task).vringIdx ∨ m' = (m.publish (m.objs C.task).vringIdx).kick) := by
  let d := (m.objs C.task).vringIdx
  let idx := m.vring.lastAvailIdx
  let m₁ := m.setLastAvailIdx ((idx + 1) % 2 ^ 16)
  let m₂ := m₁.setAvailRing (idx &&& mask) d
  have hhead : putStep m C = (m, { C with pc := .loadLastAvailIdx d }) := by
    simp only [putStep, hpc]
    rfl
  have hload : putStep m { C with pc := .loadLastAvailIdx d } =
      (m, { C with pc := .casLastAvailIdx d idx }) := rfl
  have hreserve : putStep m { C with pc := .casLastAvailIdx d idx } =
      (m₁, { C with pc := .storeAvailRing d idx }) := if_pos rfl
  have hring : putStep m₁ { C with pc := .storeAvailRing d idx } =
      (m₂, { C with pc := .casAvailIdx idx }) := rfl
  have hpublish : putStep m₂ { C with pc := .casAvailIdx idx } =
      (m.publish d, { C with pc := .loadUsedFlags }) := if_pos hav
  have hrun : Alone m C (m.publish d) { C with pc := .loadUsedFlags } :=
    .next hhead (.next hload (.next hreserve (.next hring (.next hpublish (.refl ..)))))
  by_cases hkick : (m.publish d).vring.used.flags &&& vringUsedFNoNotify = 0
  · have hflags : putStep (m.publish d) { C with pc := .loadUsedFlags } =
        (m.publish d, { C with pc := .writeKickfd }) := if_pos hkick
    have hwrite : putStep (m.publish d) { C with pc := .writeKickfd } =
        ((m.publish d).kick, { C with pc := .done 0 }) := rfl
    exact ⟨_, _, hrun.trans (.next hflags (.next hwrite (.refl ..))), rfl, Or.inr rfl⟩
  · have hflags : putStep (m.publish d) { C with pc := .loadUsedFlags } =
        (m.publish d, { C with pc := .done 0 }) := if_neg hkick
    exact ⟨_, _, hrun.trans (.next hflags (.refl ..)), rfl, Or.inl rfl⟩

/-! ## The call -/

def Mem.freeSlots (m : Mem) : Nat :=
  (List.range vhostVringSize).countP fun x => (m.vring.tasks x).isNone

/-- The task is in the ring with these slots, and the other tasks are as they were. -/
structure Enqueued (m₀ : Mem) (t : TaskPtr) (m : Mem) (slots : List Nat) : Prop where
  length : slots.length = (m₀.objs t).count
  nodup : slots.Nodup
  free : ∀ x ∈ slots, x < vhostVringSize ∧ m₀.vring.tasks x = none
  tasks : ∀ x, m.vring.tasks x = if x ∈ slots then some t else m₀.vring.tasks x
  desc : ∀ x, x ∉ slots → m.vring.desc x = m₀.vring.desc x
  walk : Follows m.vring.desc (m.vring.avail.ring (m₀.vring.avail.idx &&& mask)) slots
  buffers : ∀ (k x : Nat) (b : Buffer), slots[k]? = some x → (m₀.objs t).vbufs[k]? = some b →
    (m.vring.desc x).addr = b.buf ∧ (m.vring.desc x).len = b.size % 2 ^ 32 ∧
    ((m.vring.desc x).flags &&& virtioDescFNext ≠ 0 ↔ k + 1 ≠ (m₀.objs t).count) ∧
    ((m.vring.desc x).flags &&& virtioDescFWrite ≠ 0 ↔ b.response = true)
  lastAvailIdx : m.vring.lastAvailIdx = (m₀.vring.lastAvailIdx + 1) % 2 ^ 16
  availIdx : m.vring.avail.idx = (m₀.vring.avail.idx + 1) % 2 ^ 16
  ring : ∀ i, i ≠ m₀.vring.avail.idx &&& mask → m.vring.avail.ring i = m₀.vring.avail.ring i

/-- The ring is as it was, as far as anybody uses it. -/
structure Restored (m₀ m : Mem) : Prop where
  tasks : m.vring.tasks = m₀.vring.tasks
  lastAvailIdx : m.vring.lastAvailIdx = m₀.vring.lastAvailIdx
  avail : m.vring.avail = m₀.vring.avail
  desc : ∀ x, m₀.vring.tasks x ≠ none → m.vring.desc x = m₀.vring.desc x

theorem Mem.mem_free {m : Mem} {x : Nat} :
    x ∈ (List.range vhostVringSize).filter (fun x => (m.vring.tasks x).isNone) ↔
      x < vhostVringSize ∧ m.vring.tasks x = none := by
  rw [List.mem_filter, List.mem_range, Option.isNone_iff_eq_none]

theorem Taken.length_le {slots : List Nat} (h : Taken m₀ t m slots) :
    slots.length ≤ m₀.freeSlots := by
  rw [Mem.freeSlots, List.countP_eq_length_filter]
  exact (h.nodup.subperm fun x hx => Mem.mem_free.mpr (h.free x hx)).length_le

/-- In a full ring every slot that was free has been claimed. -/
theorem Taken.full {slots : List Nat} (h : Taken m₀ t m slots)
    (hfull : ∀ idx < vhostVringSize, m.vring.tasks idx ≠ none) : m₀.freeSlots ≤ slots.length := by
  rw [Mem.freeSlots, List.countP_eq_length_filter]
  refine (((List.nodup_range).filter _).subperm fun x hx => ?_).length_le
  obtain ⟨hlt, hfree⟩ := Mem.mem_free.mp hx
  by_contra hmem
  have htaken := hfull x hlt
  rw [h.tasks, if_neg hmem] at htaken
  exact htaken hfree

theorem Filling.enqueued (h : Filling m₀ t m C) (hi : C.i = (m₀.objs t).count) (hpos : C.i ≠ 0)
    (hav : m₀.vring.avail.idx = m₀.vring.lastAvailIdx)
    (hm' : m' = m.publish (m.objs t).vringIdx ∨ m' = (m.publish (m.objs t).vringIdx).kick) :
    Enqueued m₀ t m' C.slots := by
  have htasks : m'.vring.tasks = m.vring.tasks := by rcases hm' with rfl | rfl <;> rfl
  have hdesc : m'.vring.desc = m.vring.desc := by rcases hm' with rfl | rfl <;> rfl
  have hlast : m'.vring.lastAvailIdx = (m.vring.lastAvailIdx + 1) % 2 ^ 16 := by
    rcases hm' with rfl | rfl <;> rfl
  have hidx : m'.vring.avail.idx = (m.vring.lastAvailIdx + 1) % 2 ^ 16 := by
    rcases hm' with rfl | rfl <;> rfl
  have hring : m'.vring.avail.ring =
      Function.update m.vring.avail.ring (m.vring.lastAvailIdx &&& mask) (m.objs t).vringIdx := by
    rcases hm' with rfl | rfl <;> rfl
  have hlen : C.slots.length = (m₀.objs t).vbufs.length := h.length.trans hi
  have hchain := h.chain
  rw [hi] at hchain
  refine ⟨hlen, h.nodup, h.free, fun x => ?_, fun x hx => ?_, ?_, fun k x b hx hb => ?_, ?_, ?_,
    fun i hne => ?_⟩
  · rw [htasks]
    exact h.tasks x
  · rw [hdesc]
    exact h.desc x hx
  · rw [hring, hav, ← h.lastAvailIdx, Function.update_self, hdesc]
    have hone : 0 < C.slots.length := by
      rw [h.length]
      exact Nat.pos_of_ne_zero hpos
    exact hchain.follows hlen (C.slots.length - 1) (by omega) (Nat.le_refl 0)
      (h.head (Nat.pos_of_ne_zero hpos))
  · have hk : k < (m₀.objs t).count := (List.getElem?_eq_some_iff.mp hb).choose
    obtain ⟨b', hb', haddr, hlen', hflags⟩ := hchain.carries k x hx (Nat.zero_le k) hk
    rw [hb] at hb'
    cases hb'
    rw [hdesc]
    refine ⟨haddr, hlen', ?_, ?_⟩
    · rw [hflags, ne_eq, descFlags_next, beq_iff_eq]
      rfl
    · rw [hflags, ne_eq, descFlags_write, Bool.not_eq_false]
  · rw [hlast, h.lastAvailIdx]
  · rw [hidx, hav, h.lastAvailIdx]
  · rw [hring, Function.update_of_ne, h.avail]
    rw [h.lastAvailIdx, ← hav]
    exact hne

/-- A call with nothing in between always ends. It succeeds if and only if there are as many
free slots as buffers, wherever the search begins. -/
theorem putTask_ends (hcursor : m.vring.taskIdx < vhostVringSize) (hpos : (m.objs t).count ≠ 0)
    (hav : m.vring.avail.idx = m.vring.lastAvailIdx) :
    ∃ m' C' rc, Alone m (putStart m t) m' C' ∧ C'.pc = .done rc ∧
      (rc = 0 ∧ (m.objs t).count ≤ m.freeSlots ∧ (∃ slots, Enqueued m t m' slots) ∨
        rc = -1 ∧ m.freeSlots < (m.objs t).count ∧ Restored m m') := by
  obtain ⟨m₁, C₁, h, hend⟩ := (Filling.init (t := t) hcursor).loop (Nat.zero_add _) rfl
  rcases hend with ⟨hrun, hi, hpc⟩ | ⟨hrun, hi, hfull⟩
  · have hav₁ : m₁.vring.avail.idx = m₁.vring.lastAvailIdx := by rw [h.avail, h.lastAvailIdx, hav]
    obtain ⟨m', C', hflush, hdone, hm'⟩ := Alone.flush hav₁ hpc
    rw [h.task] at hm'
    refine ⟨m', C', 0, hrun.trans hflush, hdone, Or.inl ⟨rfl, ?_, C₁.slots, ?_⟩⟩
    · rw [← hi, ← h.length]
      exact h.toTaken.length_le
    · exact h.enqueued hi (by rw [hi]; exact hpos) hav hm'
  · obtain ⟨m', C', hback, hdone, htasks, hsame⟩ := Alone.rollback m t (m := m₁)
      (C := { C₁ with pc := .rollback 0 }) (n := C₁.i) (Nat.zero_add _) h.length rfl h.nodup
      (fun x hx => (h.free x hx).2) h.tasks
    refine ⟨m', C', -1, hrun.trans hback, hdone, Or.inr ⟨rfl, ?_, ?_⟩⟩
    · have hle := h.toTaken.full hfull
      rw [h.length] at hle
      omega
    · refine ⟨htasks, hsame.lastAvailIdx.trans h.lastAvailIdx, hsame.avail.trans h.avail, fun x hx => ?_⟩
      rw [hsame.desc]
      exact h.desc x fun hmem => hx (h.free x hmem).2

/-! ## Reachable states -/

/-- The memory when a task with these buffers is put and the search begins at `cursor`. -/
def Mem.withTask (m : Mem) (t : TaskPtr) (vbufs : List Buffer) (cursor : Nat) : Mem :=
  (m.setObj t { m.objs t with vbufs := vbufs }).setTaskIdx cursor

theorem Inv.availIdx_eq {s : Sys} (h : Inv s) (hq : ∀ c, ¬ InPut (s.calls c).pc) :
    s.mem.vring.avail.idx = s.mem.vring.lastAvailIdx := by
  have heq : s.publ = s.log.length := by
    refine Nat.le_antisymm h.counters.publ_le (Nat.le_of_not_lt fun hlt => ?_)
    obtain ⟨c, hc⟩ : ∃ c, s.log[s.publ]? = some c := ⟨_, List.getElem?_eq_getElem hlt⟩
    have hno := hq c
    rcases h.log.pc_ge s.publ c hc (Nat.le_refl _) with ⟨d, hpc⟩ | hpc
    · rw [hpc] at hno
      exact hno trivial
    · rw [hpc] at hno
      exact hno trivial
  rw [h.counters.availIdx, h.counters.lastAvailIdx, heq]

/-- In every state that is reached by single operations, for every task with a buffer and every
value of the cursor. -/
theorem put_succeeds_iff {s : Sys} {es : List Event} (hrun : machine.Path (Atomic 1) init es s)
    (hq : ∀ c, ¬ InPut (s.calls c).pc) (t : TaskPtr) (vbufs : List Buffer) (hpos : vbufs ≠ [])
    (cursor : Nat) (hcursor : cursor < vhostVringSize) :
    ∃ m' C' rc, Alone (s.mem.withTask t vbufs cursor) (putStart (s.mem.withTask t vbufs cursor) t) m' C' ∧
      C'.pc = .done rc ∧
      (∀ m'' C'' rc', Alone (s.mem.withTask t vbufs cursor)
        (putStart (s.mem.withTask t vbufs cursor) t) m'' C'' → C''.pc = .done rc' →
          m'' = m' ∧ rc' = rc) ∧
      (rc = 0 ∨ rc = -1) ∧ (rc = 0 ↔ vbufs.length ≤ s.mem.freeSlots) ∧
      (rc = 0 → ∃ slots, Enqueued (s.mem.withTask t vbufs cursor) t m' slots) ∧
      (rc = -1 → Restored (s.mem.withTask t vbufs cursor) m') := by
  have h := path_inv (hrun.mono fun _ _ => Atomic.noLinkRace Nat.one_pos)
  have hobj : (s.mem.withTask t vbufs cursor).objs t = { s.mem.objs t with vbufs := vbufs } :=
    Function.update_self ..
  have hcount : ((s.mem.withTask t vbufs cursor).objs t).count = vbufs.length := by
    rw [hobj]
    rfl
  have hne : ((s.mem.withTask t vbufs cursor).objs t).count ≠ 0 := by
    rw [hcount]
    exact fun h0 => hpos (List.length_eq_zero_iff.mp h0)
  obtain ⟨m', C', rc, hput, hdone, hend⟩ := putTask_ends (m := s.mem.withTask t vbufs cursor) hcursor hne
    (h.availIdx_eq hq)
  rw [hcount] at hend
  refine ⟨m', C', rc, hput, hdone, fun m'' C'' rc' hput' hdone' => ?_, ?_⟩
  · obtain ⟨hmem, hcall⟩ := hput.unique hdone hput' hdone'
    rw [hcall, hdone] at hdone'
    exact ⟨hmem, (PutPc.done.inj hdone').symm⟩
  rcases hend with ⟨rfl, hroom, henq⟩ | ⟨rfl, hfew, hback⟩
  · exact ⟨Or.inl rfl, iff_of_true rfl hroom, fun _ => henq, fun h => absurd h (by decide)⟩
  · exact ⟨Or.inr rfl, iff_of_false (by decide) (Nat.not_le.mpr hfew), fun h => absurd h (by decide),
      fun _ => hback⟩

/-- After two puts and one return: a task of two buffers, where the search begins at a slot that
is taken, and a task of one buffer too many. -/
theorem put_succeeds_iff_reordered : ∃ s, machine.Path (Atomic 1) init reorderedSchedule s ∧
    s.mem.vring.tasks 1 ≠ none ∧ s.mem.freeSlots = 1022 ∧
    (∃ m' slots, Enqueued (s.mem.withTask 102 [sector 5, sector 6] 1) 102 m' slots ∧
      slots.length = 2) ∧
    ∃ m' C', Alone (s.mem.withTask 102 (List.replicate 1023 (sector 7)) 1)
        (putStart (s.mem.withTask 102 (List.replicate 1023 (sector 7)) 1) 102) m' C' ∧
      C'.pc = .done (-1) ∧
      Restored (s.mem.withTask 102 (List.replicate 1023 (sector 7)) 1) m' := by
  have hany : (machine.execIf (atomic 2 1) init reorderedSchedule).any (fun s =>
      (s.calls 0).pc == .done 0 && (s.calls 1).pc == .done 0 && (s.mem.vring.tasks 1).isSome &&
        s.mem.freeSlots == 1022) = true := by
    decide +kernel
  obtain ⟨s, hrun, hs⟩ := Machine.Path.of_check (fun _ _ h => h) hany
  obtain ⟨hrun, hidle⟩ := atomic_sound (fun _ _ => rfl) hrun
  simp only [Bool.and_eq_true, beq_iff_eq] at hs
  obtain ⟨⟨⟨h0, h1⟩, htaken⟩, hfree⟩ := hs
  have hq : ∀ c, ¬ InPut (s.calls c).pc := fun c => by
    obtain rfl | rfl | hc : c = 0 ∨ c = 1 ∨ 2 ≤ c := by omega
    · simp [h0, InPut]
    · simp [h1, InPut]
    · simp [hidle c hc, InPut]
  refine ⟨s, hrun, fun hnone => ?_, hfree, ?_, ?_⟩
  · rw [hnone] at htaken
    cases htaken
  · obtain ⟨m', -, rc, -, -, -, -, hrc, hok, -⟩ := put_succeeds_iff hrun hq 102 [sector 5, sector 6]
      (by simp) 1 (by decide)
    obtain ⟨slots, h⟩ := hok (hrc.mpr (by rw [hfree]; decide))
    exact ⟨m', slots, h, h.length⟩
  · obtain ⟨m', C', rc, hput, hdone, -, hor, hrc, -, hback⟩ := put_succeeds_iff hrun hq 102
      (List.replicate 1023 (sector 7)) (List.length_pos_iff.mp (by rw [List.length_replicate]; decide)) 1
      (by decide)
    rcases hor with rfl | rfl
    · have hroom := hrc.mp rfl
      rw [hfree, List.length_replicate] at hroom
      exact absurd hroom (by decide)
    · exact ⟨m', C', hput, hdone, hback rfl⟩

end VhostUser.Ring
