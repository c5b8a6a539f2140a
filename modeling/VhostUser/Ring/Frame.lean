import VhostUser.Ring.Invariant

/-! # Frames of the vring invariant

How the parts of the invariant survive steps that concern somebody else: a
descriptor written by its owner does not disturb the chain of another call, and
a call that has not published its task cannot be the one that is reaped.
-/

namespace VhostUser.Ring

open VhostUser.Lib

/-! ## Chains -/

theorem mem_drop_of_getElem? {slots : List Nat} {k lo x : Nat} (hx : slots[k]? = some x)
    (hlo : lo ≤ k) : x ∈ slots.drop lo := by
  apply List.mem_of_getElem? (i := k - lo)
  rw [List.getElem?_drop, ← hx]
  congr 1
  omega

theorem ChainOk.congr {desc desc' : Nat → VringDesc} {bufs : List Buffer} {slots : List Nat}
    {lo f l : Nat} (h : ChainOk desc bufs slots lo f l)
    (hd : ∀ x ∈ slots.drop lo, desc' x = desc x) : ChainOk desc' bufs slots lo f l where
  carries k x hx hlo hf := by
    rw [hd x (mem_drop_of_getElem? hx hlo)]
    exact h.carries k x hx hlo hf
  links k x y hx hy hlo hl := by
    rw [hd x (mem_drop_of_getElem? hx hlo)]
    exact h.links k x y hx hy hlo hl

theorem ChainOk.mono {desc : Nat → VringDesc} {bufs : List Buffer} {slots : List Nat}
    {lo lo' f l : Nat} (h : ChainOk desc bufs slots lo f l) (hlo : lo ≤ lo') :
    ChainOk desc bufs slots lo' f l where
  carries k x hx hk := h.carries k x hx (hlo.trans hk)
  links k x y hx hy hk := h.links k x y hx hy (hlo.trans hk)

/-- A slot claimed later does not concern the part that is already built. -/
theorem ChainOk.append {desc : Nat → VringDesc} {bufs : List Buffer} {slots : List Nat}
    {lo f l : Nat} (h : ChainOk desc bufs slots lo f l) (hf : f ≤ slots.length)
    (hl : l ≤ slots.length) (x : Nat) : ChainOk desc bufs (slots ++ [x]) lo f l where
  carries k y hy hlo hk := by
    rw [List.getElem?_append_left (by omega)] at hy
    exact h.carries k y hy hlo hk
  links k y z hy hz hlo hk := by
    rw [List.getElem?_append_left (by omega)] at hy hz
    exact h.links k y z hy hz hlo hk

theorem Built.congr {C : PutCall} {o o' : Task} {desc desc' : Nat → VringDesc} {lo : Nat}
    (h : Built C o desc lo) (hd : ∀ x ∈ C.slots.drop lo, desc' x = desc x)
    (hb : o'.vbufs = o.vbufs) (hi : o'.vringIdx = o.vringIdx) : Built C o' desc' lo where
  length := by simpa [VirtioTask.count, hb] using h.length
  pos := by simpa [VirtioTask.count, hb] using h.pos
  head := by rw [hi]; exact h.head
  chain := by simpa only [VirtioTask.count, hb] using h.chain.congr hd

theorem Part.congr {C : PutCall} {o o' : Task} {desc desc' : Nat → VringDesc} {f l : Nat}
    (h : Part C o desc f l) (hd : ∀ x ∈ C.slots, desc' x = desc x)
    (hb : o'.vbufs = o.vbufs) (hi : o'.vringIdx = o.vringIdx) : Part C o' desc' f l where
  lt := by simpa [VirtioTask.count, hb] using h.lt
  prev := h.prev
  head hl := by rw [hi]; exact h.head hl
  chain := by simpa only [hb] using h.chain.congr (by simpa using hd)

theorem Claimed.congr {C : PutCall} {o o' : Task} {desc desc' : Nat → VringDesc} {idx l : Nat}
    (h : Claimed C o desc idx l) (hd : ∀ x ∈ C.slots, desc' x = desc x)
    (hb : o'.vbufs = o.vbufs) (hi : o'.vringIdx = o.vringIdx) : Claimed C o' desc' idx l :=
  ⟨h.length, h.last, h.part.congr hd hb hi⟩

/-! The chain of a call does not depend on where in its program the call stands. -/

theorem Built.withPc {C : PutCall} {o : Task} {desc : Nat → VringDesc} {lo : Nat}
    (h : Built C o desc lo) (pc : PutPc) : Built { C with pc := pc } o desc lo :=
  ⟨h.length, h.pos, h.head, h.chain⟩

theorem Part.withPc {C : PutCall} {o : Task} {desc : Nat → VringDesc} {f l : Nat}
    (h : Part C o desc f l) (pc : PutPc) : Part { C with pc := pc } o desc f l :=
  ⟨h.lt, h.prev, h.head, h.chain⟩

theorem Claimed.withPc {C : PutCall} {o : Task} {desc : Nat → VringDesc} {idx l : Nat}
    (h : Claimed C o desc idx l) (pc : PutPc) : Claimed { C with pc := pc } o desc idx l :=
  ⟨h.length, h.last, h.part.withPc pc⟩

theorem Claimed.mem {C : PutCall} {o : Task} {desc : Nat → VringDesc} {idx l : Nat}
    (h : Claimed C o desc idx l) : idx ∈ C.slots := List.mem_of_getElem? h.last

theorem BuildOk.congr {C : PutCall} {o o' : Task} {desc desc' : Nat → VringDesc} {freed : Nat}
    (h : BuildOk C o desc freed) (hd : ∀ x ∈ C.slots.drop freed, desc' x = desc x)
    (hb : o'.vbufs = o.vbufs) (hi : o'.vringIdx = o.vringIdx) : BuildOk C o' desc' freed := by
  have hv : vbufAt o' C.i = vbufAt o C.i := by simp [vbufAt, hb]
  -- every control point but the rollback holds all slots, so `freed` is zero there
  cases hpc : C.pc <;> simp only [BuildOk, hpc] at h ⊢
  case rollback => exact h
  all_goals obtain ⟨rfl, h⟩ := h
  all_goals simp only [List.drop_zero] at hd
  case loadTaskIdx => exact ⟨rfl, h.1, h.2.congr hd hb hi⟩
  case loadTask | casTask => exact ⟨rfl, h.1, h.2.1.congr hd hb hi, h.2.2⟩
  case storeTaskIdx | storeLink | storeAddr => exact ⟨rfl, h.congr hd hb hi⟩
  case storeLen =>
    rw [hv, hd _ h.1.mem]
    exact ⟨rfl, h.1.congr hd hb hi, h.2⟩
  case storeFlags =>
    rw [hv, hd _ h.1.mem]
    exact ⟨rfl, h.1.congr hd hb hi, h.2⟩
  case loadVringIdx => exact ⟨rfl, h.congr (by simpa using hd) hb hi⟩
  case loadLastAvailIdx | casLastAvailIdx =>
    exact ⟨rfl, h.1.congr (by simpa using hd) hb hi, h.2⟩

/-- A call is unaffected by what happens outside its slots and its task object. -/
theorem CallOk.congr {C : PutCall} {o o' : Task} {desc desc' : Nat → VringDesc} {freed : Nat}
    {st : Stage} (h : CallOk C o desc freed st)
    (hd : ∀ x ∈ C.slots.drop freed, desc' x = desc x)
    (ho : st ≠ .idle → st ≠ .gone → o'.vbufs = o.vbufs ∧ o'.vringIdx = o.vringIdx) :
    CallOk C o' desc' freed st := by
  cases st with
  | idle => exact h
  | gone => exact h
  | building =>
      obtain ⟨hb, hi⟩ := ho (by simp) (by simp)
      exact BuildOk.congr h hd hb hi
  | avail =>
      obtain ⟨hb, hi⟩ := ho (by simp) (by simp)
      obtain ⟨hf, hbuilt, hpc⟩ := h
      subst hf
      exact ⟨rfl, hbuilt.congr hd hb hi, hpc⟩
  | device =>
      obtain ⟨hb, hi⟩ := ho (by simp) (by simp)
      obtain ⟨hf, hbuilt, hpc⟩ := h
      subst hf
      exact ⟨rfl, hbuilt.congr hd hb hi, hpc⟩
  | used =>
      obtain ⟨hb, hi⟩ := ho (by simp) (by simp)
      exact ⟨h.1.congr hd hb hi, h.2⟩

/-! ## Ownership -/

namespace Owned

variable {s : Sys}

theorem held_disjoint (h : Owned s) {c d x : Nat} (hc : x ∈ s.held c) (hd : x ∈ s.held d) :
    c = d := by
  have h1 := (h.owner x c).mpr hc
  have h2 := (h.owner x d).mpr hd
  simpa using h1.symm.trans h2

theorem held_nodup (h : Owned s) (c : Nat) : (s.held c).Nodup :=
  (h.nodup c).sublist (List.drop_sublist _ _)

theorem held_lt (h : Owned s) {c x : Nat} (hx : x ∈ s.held c) : x < vhostVringSize :=
  h.bound c x (List.mem_of_mem_drop hx)

theorem task_of_held (h : Owned s) {c x : Nat} (hx : x ∈ s.held c) :
    s.mem.vring.tasks x = some (s.calls c).task := by
  rw [h.tasks, (h.owner x c).mpr hx]
  rfl

theorem owner_none (h : Owned s) {x : Nat} (hx : s.mem.vring.tasks x = none) :
    s.owner x = none := by
  rw [h.tasks] at hx
  simpa using hx

theorem task_ne (h : Owned s) {c d : Nat} (hc : s.Live c) (hd : s.Live d) (hne : c ≠ d) :
    (s.calls c).task ≠ (s.calls d).task := by
  intro heq
  have h1 := (h.user (s.calls d).task c).mpr ⟨heq, hc⟩
  have h2 := (h.user (s.calls d).task d).mpr ⟨rfl, hd⟩
  exact hne (by simpa using h1.symm.trans h2)

/-- Calls that hold at least `m` slots each: their number is bounded by the ring. -/
theorem pinned (h : Owned s) {L : List Nat} {m : Nat} (hL : L.Nodup)
    (hm : ∀ c ∈ L, m ≤ (s.held c).length) : m * L.length ≤ vhostVringSize :=
  mul_length_le_of_held hL (fun c _ => h.held_nodup c) (fun _ _ _ => h.held_disjoint)
    (fun _ _ _ => h.held_lt) hm

theorem frame {s' : Sys} (h : Owned s) (htasks : s'.mem.vring.tasks = s.mem.vring.tasks)
    (howner : s'.owner = s.owner) (hfreed : s'.freed = s.freed) (huser : s'.user = s.user)
    (hcalls : ∀ c, (s'.calls c).task = (s.calls c).task ∧ (s'.calls c).slots = (s.calls c).slots)
    (hlive : ∀ c, s'.Live c ↔ s.Live c) : Owned s' where
  tasks x := by
    rw [htasks, howner, h.tasks x]
    congr 1
    funext c
    rw [(hcalls c).1]
  owner x c := by simpa only [howner, Sys.held, hfreed, (hcalls c).2] using h.owner x c
  nodup c := by rw [(hcalls c).2]; exact h.nodup c
  bound c x := by rw [(hcalls c).2]; exact h.bound c x
  user t c := by rw [huser, (hcalls c).1, hlive]; exact h.user t c

theorem release {s' : Sys} (h : Owned s) {c x : Nat}
    (hx : (s.calls c).slots[s.freed c]? = some x)
    (htasks : s'.mem.vring.tasks = Function.update s.mem.vring.tasks x none)
    (howner : s'.owner = Function.update s.owner x none)
    (hfreed : s'.freed = Function.update s.freed c (s.freed c + 1)) (huser : s'.user = s.user)
    (hcalls : ∀ c, (s'.calls c).task = (s.calls c).task ∧ (s'.calls c).slots = (s.calls c).slots)
    (hlive : ∀ c, s'.Live c ↔ s.Live c) : Owned s' where
  tasks y := by
    rw [htasks, howner]
    by_cases hy : y = x
    · subst hy; simp
    · simp only [Function.update_of_ne hy, h.tasks y]
      congr 1
      funext d
      rw [(hcalls d).1]
  owner y d := by
    obtain ⟨hlt, hget⟩ := List.getElem?_eq_some_iff.mp hx
    have hsplit : s.held c = x :: (s.calls c).slots.drop (s.freed c + 1) := by
      rw [Sys.held, List.drop_eq_getElem_cons hlt, hget]
    have hnd := h.held_nodup c
    rw [hsplit, List.nodup_cons] at hnd
    have hxc : x ∈ s.held c := by rw [hsplit]; exact List.mem_cons_self
    simp only [howner, Sys.held, hfreed, (hcalls d).2]
    by_cases hy : y = x
    · subst hy
      simp only [Function.update_self]
      by_cases hd : d = c
      · subst hd
        simpa using hnd.1
      · rw [Function.update_of_ne hd]
        constructor
        · intro hno; cases hno
        · intro hmem
          exact absurd (h.held_disjoint hmem hxc) hd
    · rw [Function.update_of_ne hy, h.owner y d]
      by_cases hd : d = c
      · subst hd
        rw [hsplit, Function.update_self]
        simp [hy]
      · rw [Function.update_of_ne hd, Sys.held]
  nodup d := by rw [(hcalls d).2]; exact h.nodup d
  bound d y := by rw [(hcalls d).2]; exact h.bound d y
  user t d := by rw [huser, (hcalls d).1, hlive]; exact h.user t d

end Owned

/-! ## Rings, device and poller -/

def Stage.Past (st : Stage) : Prop := st = .device ∨ st = .used ∨ st = .gone

theorem LogOk.frame {s s' : Sys} (h : LogOk s) (hlog : s'.log = s.log) (hpubl : s'.publ = s.publ)
    (hfetched : s'.fetched = s.fetched)
    (hring : s'.mem.vring.avail.ring = s.mem.vring.avail.ring)
    (hslots : ∀ c ∈ s.log, (s'.calls c).slots = (s.calls c).slots)
    (hpc : ∀ c ∈ s.log, (s'.calls c).pc = (s.calls c).pc ∨
      Published (s.calls c).pc ∧ Published (s'.calls c).pc)
    (havail : ∀ c, s'.stage c = .avail ↔ s.stage c = .avail)
    (hpast : ∀ c ∈ s.log, (s.stage c).Past → (s'.stage c).Past) : LogOk s' where
  nodup := by rw [hlog]; exact h.nodup
  mem c hc := by rw [hlog]; exact h.mem c ((havail c).mp hc)
  stage_lt q c hq hlt := by
    rw [hlog] at hq
    exact hpast c (List.mem_of_getElem? hq) (h.stage_lt q c hq (by omega))
  stage_ge q c hq hge := by
    rw [hlog] at hq
    exact (havail c).mpr (h.stage_ge q c hq (by omega))
  pc_lt q c hq hlt := by
    rw [hlog] at hq
    rcases hpc c (List.mem_of_getElem? hq) with heq | ⟨_, hp⟩
    · rw [heq]; exact h.pc_lt q c hq (by omega)
    · exact hp
  pc_ge q c hq hge := by
    rw [hlog] at hq
    have hold := h.pc_ge q c hq (by omega)
    rcases hpc c (List.mem_of_getElem? hq) with heq | ⟨hp, _⟩
    · rw [heq]; exact hold
    · rcases hold with ⟨d, hd⟩ | hd <;> simp [hd, Published] at hp
  ring q c hq hge hne := by
    rw [hlog] at hq
    rw [hring, hslots c (List.mem_of_getElem? hq)]
    apply h.ring q c hq (by omega)
    rcases hpc c (List.mem_of_getElem? hq) with heq | ⟨hp, _⟩
    · rw [← heq]; exact hne
    · intro d i hd
      simp [hd, Published] at hp

theorem UsedOk.frame {s s' : Sys} (h : UsedOk s) (hpending : s'.pending = s.pending)
    (husedLog : s'.usedLog = s.usedLog) (hreturned : s'.returned = s.returned)
    (hring : s'.mem.vring.used.ring = s.mem.vring.used.ring)
    (hpoller : Unread s'.poller → Unread s.poller)
    (hcalls : ∀ c, (s.stage c).Past → (s'.calls c).slots = (s.calls c).slots ∧
      (s'.calls c).task = (s.calls c).task ∧ s'.freed c = s.freed c ∧ s'.stage c = s.stage c) :
    UsedOk s' where
  pending_nodup := by rw [hpending]; exact h.pending_nodup
  pending c hd hmem := by
    rw [hpending] at hmem
    obtain ⟨hst, hhead⟩ := h.pending c hd hmem
    obtain ⟨hs, _, _, hstage⟩ := hcalls c (Or.inl hst)
    rw [hstage, hs]
    exact ⟨hst, hhead⟩
  nodup := by rw [husedLog]; exact h.nodup
  stage_lt j c len hj hlt := by
    rw [husedLog] at hj
    rw [hreturned] at hlt
    have hst := h.stage_lt j c len hj hlt
    rw [(hcalls c (Or.inr (Or.inr hst))).2.2.2, hst]
  stage_ge j c len hj hge := by
    rw [husedLog] at hj
    rw [hreturned] at hge
    have hst := h.stage_ge j c len hj hge
    rw [(hcalls c (Or.inr (Or.inl hst))).2.2.2, hst]
  fresh j c len hj hlt := by
    rw [husedLog] at hj
    rw [hreturned] at hlt
    have hst := h.stage_ge j c len hj (by omega)
    rw [(hcalls c (Or.inr (Or.inl hst))).2.2.1]
    exact h.fresh j c len hj hlt
  ring j c len hj hor := by
    rw [husedLog] at hj
    rw [hreturned] at hor
    have hst := h.stage_ge j c len hj (by omega)
    rw [(hcalls c (Or.inr (Or.inl hst))).1, hring]
    exact h.ring j c len hj (hor.imp_right fun hu => ⟨hu.1, hpoller hu.2⟩)
  returned j t b hj := by
    rw [hreturned] at hj
    obtain ⟨c, hc, ht⟩ := h.returned j t b hj
    refine ⟨c, by rw [husedLog]; exact hc, ?_⟩
    have hst := h.stage_lt j c b hc (List.getElem?_eq_some_iff.mp hj).1
    rw [(hcalls c (Or.inr (Or.inr hst))).2.1]
    exact ht

theorem UsedOk.current_used {s : Sys} (h : UsedOk s) {c : Nat} (hc : s.current = some c) :
    s.stage c = .used := by
  obtain ⟨⟨d, len⟩, hget, rfl⟩ := Option.map_eq_some_iff.mp hc
  exact h.stage_ge _ _ _ hget (Nat.le_refl _)

theorem Reaping.current {s : Sys} {u c len k : Nat} (h : Reaping s u c len k) :
    s.current = some c := by
  rw [Sys.current, h.entry]
  rfl

/-- The poller is unaffected by what happens outside the calls it may look at;
the used ring may grow meanwhile. -/
theorem PollOk.extend {s s' : Sys} (h : PollOk s) (hu : UsedOk s) (hpoller : s'.poller = s.poller)
    (hentry : ∀ (j : Nat) (p : Nat × Nat), s.usedLog[j]? = some p → s'.usedLog[j]? = some p)
    (hreturned : s'.returned = s.returned) (hcleared : s'.cleared = s.cleared)
    (hidle : (∀ c, s.current = some c → s.freed c = 0) →
      ∀ c, s'.current = some c → s'.freed c = 0)
    (hcalls : ∀ c, (s.stage c).Past → (s'.calls c).slots = (s.calls c).slots ∧
      (s'.calls c).task = (s.calls c).task ∧ s'.freed c = s.freed c)
    (hbytes : ∀ c, s.stage c = .used →
      (s'.mem.objs (s.calls c).task).usedBytes = (s.mem.objs (s.calls c).task).usedBytes)
    (hnext : ∀ u t x, s.poller = .loadNext u t x →
      (s'.mem.vring.desc x).next = (s.mem.vring.desc x).next) : PollOk s' := by
  have hreap : ∀ {u c len k}, Reaping s u c len k → Reaping s' u c len k := by
    intro u c len k hr
    have hc := hcalls c (Or.inr (Or.inl (hu.current_used hr.current)))
    exact ⟨by rw [hreturned]; exact hr.index, by rw [hreturned]; exact hentry _ _ hr.entry,
      by rw [hc.2.2]; exact hr.freed, by rw [hcleared, hc.1]; exact hr.cleared⟩
  have hpast : ∀ {u c len k}, Reaping s u c len k → (s'.calls c).slots = (s.calls c).slots ∧
      (s'.calls c).task = (s.calls c).task := by
    intro u c len k hr
    have hc := hcalls c (Or.inr (Or.inl (hu.current_used hr.current)))
    exact ⟨hc.1, hc.2.1⟩
  have hwalk : ∀ {u t idx c len k}, Walking s u t idx c len k → Walking s' u t idx c len k := by
    intro u t idx c len k hw
    obtain ⟨hs, ht⟩ := hpast hw.toReaping
    have hb := hbytes c (hu.current_used hw.current)
    rw [hw.task] at hb
    exact ⟨hreap hw.toReaping, by rw [hs]; exact hw.slot, by rw [ht]; exact hw.task,
      by rw [hb]; exact hw.bytes⟩
  unfold PollOk at h ⊢
  rw [hpoller]
  cases hp : s.poller with
  | idle => simp only [hp] at h ⊢; exact hidle h
  | loadUsedIdx => simp only [hp] at h ⊢; exact hidle h
  | failed => simp only [hp] at h
  | ret r =>
      cases r with
      | none => simp only [hp] at h ⊢; exact ⟨hidle h.1, by rw [hcleared]; exact h.2⟩
      | some t =>
          simp only [hp] at h ⊢
          obtain ⟨hf, n, c, len, hn, hget, ht, hcl⟩ := h
          have hst := hu.stage_lt n c len hget (by omega)
          have hc := hcalls c (Or.inr (Or.inr hst))
          exact ⟨hidle hf, n, c, len, by rw [hreturned]; exact hn, hentry n _ hget,
            by rw [hc.2.1]; exact ht, by rw [hcleared, hc.1]; exact hcl⟩
  | loadId u =>
      simp only [hp] at h ⊢
      obtain ⟨c, len, hr⟩ := h
      exact ⟨c, len, hreap hr⟩
  | loadTask u d =>
      simp only [hp] at h ⊢
      obtain ⟨c, len, hr, hd⟩ := h
      exact ⟨c, len, hreap hr, by rw [(hpast hr).1]; exact hd⟩
  | storeUsedBytes u d t =>
      simp only [hp] at h ⊢
      obtain ⟨c, len, hr, hd, ht⟩ := h
      exact ⟨c, len, hreap hr, by rw [(hpast hr).1]; exact hd, by rw [(hpast hr).2]; exact ht⟩
  | checkVringIdx u d t =>
      simp only [hp] at h ⊢
      obtain ⟨c, len, hw⟩ := h
      exact ⟨c, len, hwalk hw⟩
  | loadFlags u t idx =>
      simp only [hp] at h ⊢
      obtain ⟨c, len, k, hw⟩ := h
      exact ⟨c, len, k, hwalk hw⟩
  | checkTask u t idx =>
      simp only [hp] at h ⊢
      obtain ⟨c, len, k, hw, hk⟩ := h
      exact ⟨c, len, k, hwalk hw, by rw [(hpast hw.toReaping).1]; exact hk⟩
  | clearTask u t idx =>
      simp only [hp] at h ⊢
      obtain ⟨c, len, k, hw, hk⟩ := h
      exact ⟨c, len, k, hwalk hw, by rw [(hpast hw.toReaping).1]; exact hk⟩
  | loadNext u t idx =>
      simp only [hp] at h ⊢
      obtain ⟨c, len, k, y, hw, hk, hy⟩ := h
      exact ⟨c, len, k, y, hwalk hw, by rw [(hpast hw.toReaping).1]; exact hk,
        by rw [hnext u t idx hp]; exact hy⟩
  | clearLast u t idx =>
      simp only [hp] at h ⊢
      obtain ⟨c, len, k, hw, hk⟩ := h
      exact ⟨c, len, k, hwalk hw, by rw [(hpast hw.toReaping).1]; exact hk⟩
  | storeLastUsedIdx u t =>
      simp only [hp] at h ⊢
      obtain ⟨c, len, hr, ht, hb⟩ := h
      have hbytes' := hbytes c (hu.current_used hr.current)
      rw [ht] at hbytes'
      obtain ⟨hs, htask⟩ := hpast hr
      exact ⟨c, len, by rw [hs]; exact hreap hr, by rw [htask]; exact ht,
        by rw [hbytes']; exact hb⟩

theorem PollOk.frame {s s' : Sys} (h : PollOk s) (hu : UsedOk s) (hpoller : s'.poller = s.poller)
    (husedLog : s'.usedLog = s.usedLog) (hreturned : s'.returned = s.returned)
    (hcleared : s'.cleared = s.cleared)
    (hcalls : ∀ c, (s.stage c).Past → (s'.calls c).slots = (s.calls c).slots ∧
      (s'.calls c).task = (s.calls c).task ∧ s'.freed c = s.freed c)
    (hbytes : ∀ c, s.stage c = .used →
      (s'.mem.objs (s.calls c).task).usedBytes = (s.mem.objs (s.calls c).task).usedBytes)
    (hnext : ∀ u t x, s.poller = .loadNext u t x →
      (s'.mem.vring.desc x).next = (s.mem.vring.desc x).next) : PollOk s' := by
  refine h.extend hu hpoller (fun j p hj => by rw [husedLog]; exact hj) hreturned hcleared ?_
    hcalls hbytes hnext
  intro hf c hc
  have hcur : s'.current = s.current := by rw [Sys.current, Sys.current, husedLog, hreturned]
  rw [hcur] at hc
  rw [(hcalls c (Or.inr (Or.inl (hu.current_used hc)))).2.2]
  exact hf c hc

end VhostUser.Ring
