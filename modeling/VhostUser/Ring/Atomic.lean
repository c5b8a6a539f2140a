import VhostUser.Ring.GetCall
import VhostUser.Ring.History
import VhostUser.Ring.Reap

/-! # The vring between operations

Runs in which `vring_put_task` and `vring_get_task` are single steps, looked at
between two operations. Here the task table is described without history: its
entries are the chains of the tasks in the ring, each found by following the
links of the descriptor table from `task->vring_idx`.
-/

namespace VhostUser.Ring

open VhostUser.Lib

variable {s s' : Sys} {c m : Nat}

/-! ## Chains in the descriptor table -/

/-- The slots reached from `idx` along `next` while `VIRTIO_DESC_F_NEXT` is set. -/
inductive Follows (desc : Nat → VringDesc) : Nat → List Nat → Prop
  | last {idx : Nat} (h : (desc idx).flags &&& virtioDescFNext = 0) : Follows desc idx [idx]
  | next {idx : Nat} {l : List Nat} (h : (desc idx).flags &&& virtioDescFNext ≠ 0)
      (rest : Follows desc (desc idx).next l) : Follows desc idx (idx :: l)

theorem Follows.unique {desc : Nat → VringDesc} {idx : Nat} {l l' : List Nat}
    (h : Follows desc idx l) (h' : Follows desc idx l') : l = l' := by
  induction h generalizing l' with
  | last hf =>
      cases h' with
      | last => rfl
      | next hf' => exact absurd hf hf'
  | next hf _ ih =>
      cases h' with
      | last hf' => exact absurd hf' hf
      | next _ hrest => rw [ih hrest]

theorem ChainOk.follows {desc : Nat → VringDesc} {bufs : List Buffer} {slots : List Nat} {lo : Nat}
    (h : ChainOk desc bufs slots lo bufs.length bufs.length) (hlen : slots.length = bufs.length)
    (n : Nat) {k x : Nat} (hn : slots.length = k + 1 + n) (hlo : lo ≤ k)
    (hx : slots[k]? = some x) : Follows desc x (slots.drop k) := by
  -- induction on the number of slots behind position `k`
  induction n generalizing k x with
  | zero =>
      obtain ⟨b, -, -, -, hflags⟩ := h.carries k x hx hlo (by omega)
      have hdrop : slots.drop k = [x] := by
        obtain ⟨hlt, hget⟩ := List.getElem?_eq_some_iff.mp hx
        rw [List.drop_eq_getElem_cons hlt, hget, List.drop_eq_nil_of_le (by omega)]
      rw [hdrop]
      refine .last ?_
      rw [hflags, descFlags_next, beq_iff_eq]
      omega
  | succ n ih =>
      obtain ⟨b, -, -, -, hflags⟩ := h.carries k x hx hlo (by omega)
      obtain ⟨y, hy⟩ : ∃ y, slots[k + 1]? = some y := ⟨_, List.getElem?_eq_getElem (by omega)⟩
      have hnext := h.links k x y hx hy hlo (by omega)
      have hdrop : slots.drop k = x :: slots.drop (k + 1) := by
        obtain ⟨hlt, hget⟩ := List.getElem?_eq_some_iff.mp hx
        rw [List.drop_eq_getElem_cons hlt, hget]
      rw [hdrop]
      refine .next ?_ ?_
      · rw [hflags, ne_eq, descFlags_next, beq_iff_eq]
        omega
      · rw [hnext]
        exact ih (by omega) (by omega) hy

theorem Built.follows {C : PutCall} {o : Task} {desc : Nat → VringDesc} (h : Built C o desc 0) :
    Follows desc o.vringIdx C.slots := by
  have hpos := h.pos
  have hlen := h.length
  exact h.chain.follows hlen (o.count - 1) (by omega) (Nat.le_refl 0) h.head

/-! ## Runs of single operations -/

def InPut : PutPc → Prop
  | .idle => False
  | .done _ => False
  | _ => True

/-- Both operations are single steps, and tasks have at least `m` buffers. -/
def Atomic (m : Nat) (s : Sys) (e : Event) : Prop :=
  (∀ c, InPut (s.calls c).pc → e = .put c) ∧ GetAtomic m s e

def Quiet (s : Sys) : Prop := (∀ c, ¬ InPut (s.calls c).pc) ∧ AtRest s.poller

/-- The put has succeeded and its task has not been returned. -/
def Sys.Outstanding (s : Sys) (c : Nat) : Prop :=
  (s.calls c).pc = .done 0 ∧ ∀ (j len : Nat), j < s.returned.length → s.usedLog[j]? ≠ some (c, len)

/-- The slots of the task of call `c`, read from the descriptor table. -/
def Sys.Chain (s : Sys) (c : Nat) (slots : List Nat) : Prop :=
  Follows s.mem.vring.desc (s.mem.objs (s.calls c).task).vringIdx slots

theorem published_quiet {pc : PutPc} (hp : Published pc) (hq : ¬ InPut pc) : pc = .done 0 := by
  cases pc <;> simp_all [Published, InPut]

theorem Inv.outstanding_iff (h : Inv s) (hse : Settled s) (hq : Quiet s) :
    s.Outstanding c ↔ s.Live c := by
  have hcall := h.calls c
  constructor
  · rintro ⟨hpc, hnot⟩
    constructor
    · intro hst
      rw [hst] at hcall
      simp [hcall.1] at hpc
    · intro hst
      obtain ⟨j, len, hj, hget⟩ := hse.reaped c hst (by simp [hpc, Published])
      exact hnot j len hj hget
  · rintro ⟨hidle, hgone⟩
    refine ⟨?_, fun j len hj hget => hgone (h.used.stage_lt j c len hget hj)⟩
    have hpc := hq.1 c
    cases hst : s.stage c <;> rw [hst] at hcall <;> simp only [CallOk] at hcall
    case idle => exact absurd hst hidle
    case gone => exact absurd hst hgone
    case building => cases hp : (s.calls c).pc <;> simp_all [BuildOk, InPut]
    case avail =>
      obtain ⟨-, -, havail⟩ := hcall
      refine published_quiet ?_ hpc
      cases hp : (s.calls c).pc <;> simp_all [AvailPc, InPut]
    case device => exact published_quiet hcall.2.2 hpc
    case used => exact published_quiet hcall.2 hpc

theorem AtRest.unread {pc : GetPc} (h : AtRest pc) : Unread pc := by
  cases pc <;> simp_all [AtRest, Unread]

theorem Inv.built_of_live (h : Inv s) (hse : Settled s) (hq : Quiet s) (hl : s.Live c) :
    s.freed c = 0 ∧ Built (s.calls c) (s.mem.objs (s.calls c).task) s.mem.vring.desc 0 := by
  have hcall := h.calls c
  have hpc := hq.1 c
  cases hst : s.stage c <;> rw [hst] at hcall <;> simp only [CallOk] at hcall
  case idle => exact absurd hst hl.1
  case gone => exact absurd hst hl.2
  case building => cases hp : (s.calls c).pc <;> simp_all [BuildOk, InPut]
  case avail => exact ⟨hcall.1, hcall.2.1⟩
  case device => exact ⟨hcall.1, hcall.2.1⟩
  case used =>
    obtain ⟨j, len, hget⟩ := hse.reported c hst
    have hge : s.returned.length ≤ j := by
      rcases Nat.lt_or_ge j s.returned.length with hlt | hge
      · rw [h.used.stage_lt j c len hget hlt] at hst
        cases hst
      · exact hge
    have hfree := h.current_fresh hq.2.unread hget hge
    exact ⟨hfree, hfree ▸ hcall.1⟩

/-! ## The task table -/

def CarriesBuffer (d : VringDesc) (b : Buffer) : Prop :=
  d.addr = b.buf ∧ (b.size < 2 ^ 32 → d.len = b.size) ∧
    (d.flags &&& virtioDescFWrite ≠ 0 ↔ b.response = true)

/-- The task table and the descriptor table hold the tasks that were put and not
yet returned, and nothing else. -/
structure Represents (s : Sys) : Prop where
  chain : ∀ c, s.Outstanding c → ∃ slots, s.Chain c slots ∧
    slots.length = (s.mem.objs (s.calls c).task).count ∧ slots.Nodup ∧
    (∀ x ∈ slots, s.mem.vring.tasks x = some (s.calls c).task) ∧
    ∀ (k x : Nat), slots[k]? = some x → ∃ b, (s.mem.objs (s.calls c).task).vbufs[k]? = some b ∧
      CarriesBuffer (s.mem.vring.desc x) b
  entries : ∀ x, s.mem.vring.tasks x ≠ none ↔
    ∃ c slots, s.Outstanding c ∧ s.Chain c slots ∧ x ∈ slots
  disjoint : ∀ c d slots slots', s.Outstanding c → s.Outstanding d → c ≠ d →
    s.Chain c slots → s.Chain d slots' →
    (s.calls c).task ≠ (s.calls d).task ∧ slots.Disjoint slots'

/-- `vring_get_task` comes to its end with no failed assertion, and it frees the
chain of the task it returns and nothing else. -/
def FreesReturned (s : Sys) : Prop :=
  ∃ r s', vringGetTask s = some (r, s') ∧
    match r with
    | none => s'.mem = s.mem
    | some t => ∃ c slots, s.Outstanding c ∧ (s.calls c).task = t ∧ s.Chain c slots ∧
        ∀ x, s'.mem.vring.tasks x = if x ∈ slots then none else s.mem.vring.tasks x

theorem Built.carriesBuffer {k x : Nat}
    (hb : Built (s.calls c) (s.mem.objs (s.calls c).task) s.mem.vring.desc 0)
    (hx : (s.calls c).slots[k]? = some x) :
    ∃ b, (s.mem.objs (s.calls c).task).vbufs[k]? = some b ∧
      CarriesBuffer (s.mem.vring.desc x) b := by
  have hk := (List.getElem?_eq_some_iff.mp hx).1
  obtain ⟨b, hget, haddr, hlen, hflags⟩ :=
    hb.chain.carries k x hx (Nat.zero_le k) (by rw [← hb.length]; exact hk)
  refine ⟨b, hget, haddr, fun hsize => ?_, ?_⟩
  · rw [hlen, Nat.mod_eq_of_lt hsize]
  · rw [hflags, ne_eq, descFlags_write]
    simp

theorem Inv.represents (h : Inv s) (hse : Settled s) (hq : Quiet s) : Represents s := by
  have hchain : ∀ {c slots}, s.Outstanding c → s.Chain c slots → slots = s.held c ∧ s.Live c := by
    intro c slots hout hsl
    have hl := (h.outstanding_iff hse hq).mp hout
    obtain ⟨hf, hb⟩ := h.built_of_live hse hq hl
    rw [Sys.held, hf, List.drop_zero]
    exact ⟨hsl.unique hb.follows, hl⟩
  refine ⟨?_, ?_, ?_⟩
  · intro c hout
    obtain ⟨hf, hb⟩ := h.built_of_live hse hq ((h.outstanding_iff hse hq).mp hout)
    refine ⟨(s.calls c).slots, hb.follows, hb.length, h.owned.nodup c, fun x hx => ?_,
      fun k x => hb.carriesBuffer⟩
    apply h.owned.task_of_held
    rwa [Sys.held, hf, List.drop_zero]
  · intro x
    constructor
    · intro hx
      rw [h.owned.tasks] at hx
      obtain ⟨c, hc⟩ : ∃ c, s.owner x = some c := by
        cases hown : s.owner x with
        | none => simp [hown] at hx
        | some c => exact ⟨c, rfl⟩
      have hmem := (h.owned.owner x c).mp hc
      have hl : s.Live c := by
        have hcall := h.calls c
        have hpos := List.length_pos_of_mem hmem
        rw [Sys.held, List.length_drop] at hpos
        constructor
        · intro hst
          rw [hst] at hcall
          simp [hcall.2.1] at hpos
        · intro hst
          rw [hst] at hcall
          have hle : (s.calls c).slots.length ≤ s.freed c := hcall.1
          omega
      obtain ⟨hf, hb⟩ := h.built_of_live hse hq hl
      refine ⟨c, (s.calls c).slots, (h.outstanding_iff hse hq).mpr hl, hb.follows, ?_⟩
      rwa [Sys.held, hf, List.drop_zero] at hmem
    · rintro ⟨c, slots, hout, hsl, hx⟩
      rw [(hchain hout hsl).1] at hx
      rw [h.owned.task_of_held hx]
      simp
  · intro c d slots slots' hc hd hne hsl hsl'
    obtain ⟨rfl, hlc⟩ := hchain hc hsl
    obtain ⟨rfl, hld⟩ := hchain hd hsl'
    exact ⟨h.owned.task_ne hlc hld hne, fun x hx hx' => hne (h.owned.held_disjoint hx hx')⟩

/-- The effect of a call on the task table follows from ownership at its two ends. -/
theorem Inv.get_frees (h : Inv s) (h' : Inv s') (hcalls : s'.calls = s.calls)
    (hfreed : ∀ d, d ≠ c → s'.freed d = s.freed d) (hf : s.freed c = 0)
    (hgone : s'.stage c = .gone) (x : Nat) :
    s'.mem.vring.tasks x = if x ∈ (s.calls c).slots then none else s.mem.vring.tasks x := by
  have hheld : s'.held c = [] := by
    have hcall := h'.calls c
    rw [hgone] at hcall
    exact List.drop_eq_nil_of_le hcall.1
  have hother : ∀ d, d ≠ c → s'.held d = s.held d := fun d hd => by
    rw [Sys.held, Sys.held, hcalls, hfreed d hd]
  have hslots : s.held c = (s.calls c).slots := by rw [Sys.held, hf, List.drop_zero]
  rw [h'.owned.tasks, h.owned.tasks, hcalls]
  split
  · next hx =>
      have hnone : s'.owner x = none := by
        cases hown : s'.owner x with
        | none => rfl
        | some d =>
            have hmem := (h'.owned.owner x d).mp hown
            by_cases hd : d = c
            · subst hd
              simp [hheld] at hmem
            · rw [hother d hd] at hmem
              exact absurd (h.owned.held_disjoint hmem (hslots ▸ hx)) hd
      rw [hnone]
      rfl
  · next hx =>
      have hsame : s'.owner x = s.owner x := by
        apply Option.ext
        intro d
        rw [h'.owned.owner, h.owned.owner]
        by_cases hd : d = c
        · subst hd
          simp [hheld, hslots, hx]
        · rw [hother d hd]
      rw [hsame]

theorem Inv.freesReturned (h : Inv s) (hse : Settled s) (hq : Quiet s) : FreesReturned s := by
  obtain ⟨r, s', hget, h', hret, hres⟩ := h.get_call hq.2
  refine ⟨r, s', hget, ?_⟩
  cases r with
  | none => exact hres.2.2
  | some t =>
      obtain ⟨⟨c, len, hentry, htask, hreturned, hcalls, hused, -, hfreed⟩, -⟩ := hres
      have hst := h.used.stage_ge _ c len hentry (Nat.le_refl _)
      have hl : s.Live c := ⟨by simp [hst], by simp [hst]⟩
      obtain ⟨hf, hb⟩ := h.built_of_live hse hq hl
      have hgone : s'.stage c = .gone := by
        apply h'.used.stage_lt s.returned.length c len
        · rw [hused]; exact hentry
        · rw [hreturned, List.length_append, List.length_singleton]
          exact Nat.lt_succ_self _
      exact ⟨c, (s.calls c).slots, (h.outstanding_iff hse hq).mpr hl, htask, hb.follows,
        h.get_frees h' hcalls hfreed hf hgone⟩

theorem Atomic.noLinkRace (hm : 0 < m) {e : Event} (h : Atomic m s e) : NoLinkRace s e :=
  h.2.noLinkRace hm

/-- Whatever was put, completed and returned before. -/
theorem ring_representation {es : List Event} (hrun : machine.Path (Atomic 1) init es s)
    (hq : Quiet s) : Represents s ∧ FreesReturned s := by
  have hrun' := hrun.mono fun _ _ => Atomic.noLinkRace Nat.one_pos
  have h := path_inv hrun'
  have hse := path_settled hrun'
  exact ⟨h.represents hse hq, h.freesReturned hse hq⟩

/-- `Atomic` as a test, where only calls below `n` are ever made. -/
def atomic (n m : Nat) (s : Sys) (e : Event) : Bool :=
  getAtomic m s e && ((List.range n).all fun c =>
    match (s.calls c).pc with
    | .idle => true
    | .done _ => true
    | _ => e == .put c) &&
  match e with
  | .start c _ _ => decide (c < n)
  | .put c => decide (c < n)
  | _ => true

theorem idle_above {n : Nat} {e : Event} (hidle : ∀ c, n ≤ c → (s.calls c).pc = .idle)
    (htest : atomic n m s e = true) (hs : step s e = some s') (d : Nat) (hd : n ≤ d) :
    (s'.calls d).pc = .idle := by
  simp only [atomic, Bool.and_eq_true] at htest
  cases e with
  | start c t vbufs =>
      have hc : c < n := by simpa using htest.2
      simp only [step] at hs
      split at hs
      · simp only [Option.some.injEq] at hs
        subst hs
        simp only [Function.update_of_ne (show d ≠ c by omega)]
        exact hidle d hd
      · cases hs
  | put c =>
      have hc : c < n := by simpa using htest.2
      rw [(put_frame hs).calls d (by omega)]
      exact hidle d hd
  | poll => rw [poll_calls hs]; exact hidle d hd
  | fetch =>
      simp only [step] at hs
      split at hs
      · cases hs
      · simp only [Option.some.injEq] at hs
        subst hs
        exact hidle d hd
  | complete k len =>
      simp only [step] at hs
      split at hs
      · cases hs
      · simp only [Option.some.injEq] at hs
        subst hs
        exact hidle d hd
  | usedFlags f =>
      simp only [step, Option.some.injEq] at hs
      subst hs
      exact hidle d hd

theorem atomic_sound {n : Nat} {es : List Event} (hidle : ∀ c, n ≤ c → (s.calls c).pc = .idle)
    (hrun : machine.Path (fun s e => atomic n m s e = true) s es s') :
    machine.Path (Atomic m) s es s' ∧ ∀ c, n ≤ c → (s'.calls c).pc = .idle := by
  induction hrun with
  | nil => exact ⟨.nil _, hidle⟩
  | @cons s t u e es htest hs _ ih =>
      obtain ⟨hrest, hlast⟩ := ih (idle_above hidle htest hs)
      refine ⟨.cons ⟨fun c hc => ?_, ?_⟩ hs hrest, hlast⟩
      · simp only [atomic, Bool.and_eq_true, List.all_eq_true, List.mem_range] at htest
        have hlt : c < n := by
          rcases Nat.lt_or_ge c n with hlt | hge
          · exact hlt
          · simp [hidle c hge, InPut] at hc
        have := htest.1.2 c hlt
        cases hpc : (s.calls c).pc <;> simp_all [InPut]
      · simp only [atomic, Bool.and_eq_true] at htest
        exact getAtomic_sound m s e htest.1.1

/-- Two puts, of which the second is reported first, and one call that returns it. -/
def reorderedSchedule : List Event :=
  [.start 0 100 [sector 1, sector 2]] ++ List.replicate 24 (.put 0) ++
    [.start 1 101 [sector 3, sector 4]] ++ List.replicate 24 (.put 1) ++
    [.fetch, .fetch, .complete 1 12, .complete 0 7] ++ List.replicate 13 .poll

theorem reordered_run :
    ∃ s, machine.Path (Atomic 2) init reorderedSchedule s ∧ Quiet s ∧
      s.usedLog = [(1, 12), (0, 7)] ∧ s.returned = [(101, 12)] := by
  have hany : (machine.execIf (atomic 2 2) init reorderedSchedule).any (fun s =>
      (s.calls 0).pc == .done 0 && (s.calls 1).pc == .done 0 && s.poller == .ret (some 101) &&
        s.usedLog == [(1, 12), (0, 7)] && s.returned == [(101, 12)]) = true := by
    decide +kernel
  obtain ⟨s, hrun, hs⟩ := Machine.Path.of_check (fun _ _ h => h) hany
  obtain ⟨hrun, hidle⟩ := atomic_sound (fun _ _ => rfl) hrun
  simp only [Bool.and_eq_true, beq_iff_eq] at hs
  obtain ⟨⟨⟨⟨h0, h1⟩, hpoll⟩, hused⟩, hret⟩ := hs
  refine ⟨s, hrun, ⟨fun c => ?_, by simp [hpoll, AtRest]⟩, hused, hret⟩
  obtain rfl | rfl | hc : c = 0 ∨ c = 1 ∨ 2 ≤ c := by omega
  · simp [h0, InPut]
  · simp [h1, InPut]
  · simp [hidle c hc, InPut]

theorem Atomic.mono {m m' : Nat} (hm : m ≤ m') {e : Event} (h : Atomic m' s e) : Atomic m s e :=
  ⟨h.1, h.2.1, fun c t vbufs he => Nat.le_trans hm (h.2.2 c t vbufs he)⟩

theorem ring_representation_reordered :
    ∃ s, machine.Path (Atomic 1) init reorderedSchedule s ∧ Quiet s ∧
      s.returned = [(101, 12)] ∧ Represents s ∧ FreesReturned s := by
  obtain ⟨s, hrun, hq, -, hret⟩ := reordered_run
  have hrun' := hrun.mono fun _ _ => Atomic.mono (Nat.le_succ 1)
  exact ⟨s, hrun', hq, hret, ring_representation hrun' hq⟩

/-! ## The order of returned tasks -/

/-- Every entry of the used ring that was not returned pins as many slots as its
task has buffers. -/
theorem Inv.backlog (h : Inv s) (hw : Wide m s) (hrest : AtRest s.poller) :
    m * (s.usedLog.length - s.returned.length) ≤ vhostVringSize := by
  have hnodup : ((s.usedLog.drop s.returned.length).map (·.1)).Nodup :=
    h.used.nodup.sublist ((List.drop_sublist _ _).map _)
  have hheld : ∀ c ∈ (s.usedLog.drop s.returned.length).map (·.1), m ≤ (s.held c).length := by
    intro c hc
    obtain ⟨⟨c, len⟩, hmem, rfl⟩ := List.mem_map.mp hc
    obtain ⟨j, hj⟩ := List.getElem?_of_mem hmem
    rw [List.getElem?_drop] at hj
    have hst := h.used.stage_ge _ c len hj (Nat.le_add_right _ _)
    have hfree := h.current_fresh hrest.unread hj (Nat.le_add_right _ _)
    have hcall := h.calls c
    rw [hst] at hcall
    rw [Sys.held, hfree, List.drop_zero, hcall.1.length]
    exact hw c ⟨by simp [hst], by simp [hst]⟩
  have hpin := h.owned.pinned hnodup hheld
  rwa [List.length_map, List.length_drop] at hpin

/-- With two buffers a task, the masked indices agree only if nothing is left. -/
theorem Inv.masked_eq_iff (h : Inv s) (hw : Wide 2 s) (hrest : AtRest s.poller) :
    s.returned.length % vhostVringSize = s.usedLog.length % vhostVringSize ↔
      s.returned.length = s.usedLog.length := by
  have hback := h.backlog hw hrest
  have hle := h.counters.returned_le
  constructor
  · intro heq
    have hsize : vhostVringSize = 1024 := rfl
    exact mod_inj_of_window (Nat.le_refl s.returned.length) hle (by omega) (by omega) heq
  · intro heq
    rw [heq]

theorem Inv.returned_prefix (h : Inv s) :
    s.returned <+: s.usedLog.map fun e => ((s.calls e.1).task, e.2) := by
  rw [List.prefix_iff_getElem?]
  intro j hj
  obtain ⟨c, hc, ht⟩ := h.used.returned j s.returned[j].1 s.returned[j].2
    (List.getElem?_eq_getElem hj)
  rw [List.getElem?_map, hc]
  simp [ht]

/-- The tasks returned are those the device has reported, in its order and with
its lengths, each put once; and the call that finds nothing to return is the one
made when everything reported has been returned. -/
theorem get_returns_in_order {es : List Event} (hrun : machine.Path (Atomic 2) init es s) :
    (s.returned <+: s.usedLog.map fun e => ((s.calls e.1).task, e.2)) ∧
      (s.usedLog.map (·.1)).Nodup ∧
      (Quiet s → ∃ r s', vringGetTask s = some (r, s') ∧
        (r = none ↔ s.returned.length = s.usedLog.length) ∧
        (r = none → s'.returned = s.returned) ∧
        ∀ t, r = some t → ∃ c len, s.usedLog[s.returned.length]? = some (c, len) ∧
          (s.calls c).task = t ∧ s'.returned = s.returned ++ [(t, len)]) := by
  have h := path_inv (hrun.mono fun _ _ => Atomic.noLinkRace Nat.two_pos)
  have hw : Wide 2 s := path_wide (hrun.mono fun _ _ hok =>
    ⟨Atomic.noLinkRace Nat.two_pos hok, hok.2.2⟩)
  refine ⟨h.returned_prefix, h.used.nodup, fun hq => ?_⟩
  obtain ⟨r, s', hget, -, -, hres⟩ := h.get_call hq.2
  refine ⟨r, s', hget, ?_⟩
  cases r with
  | none =>
      refine ⟨⟨fun _ => (h.masked_eq_iff hw hq.2).mp hres.1, fun _ => rfl⟩,
        fun _ => hres.2.1.returned, fun t ht => by cases ht⟩
  | some t =>
      obtain ⟨⟨c, len, hentry, htask, hreturned, -⟩, hne⟩ := hres
      refine ⟨⟨fun hn => ?_, fun heq => ?_⟩, fun hn => ?_, fun t' ht => ?_⟩
      · cases hn
      · exact absurd ((h.masked_eq_iff hw hq.2).mpr heq) hne
      · cases hn
      · cases ht
        exact ⟨c, len, hentry, htask, hreturned⟩

theorem get_returns_in_order_reordered :
    ∃ s r s', machine.Path (Atomic 2) init reorderedSchedule s ∧
      s.usedLog = [(1, 12), (0, 7)] ∧ s.returned = [(101, 12)] ∧
      vringGetTask s = some (r, s') ∧ r ≠ none := by
  obtain ⟨s, hrun, hq, hused, hret⟩ := reordered_run
  obtain ⟨-, -, hget⟩ := get_returns_in_order hrun
  obtain ⟨r, s', hcall, hnone, -⟩ := hget hq
  refine ⟨s, r, s', hrun, hused, hret, hcall, fun hr => ?_⟩
  have hlen := hnone.mp hr
  simp [hused, hret] at hlen

end VhostUser.Ring
