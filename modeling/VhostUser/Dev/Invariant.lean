import VhostUser.Dev.Step
import Mathlib.Data.List.Perm.Subperm

/-! # Descriptors, tasks and histories

The state of a descriptor determines everything the histories say about it, and a
busy descriptor belongs to exactly one task in the vring. Both are kept by every
step, so no step ends in a fault, whatever the device and the allocator do.
-/

namespace VhostUser.Dev

open VhostUser.Lib Prog

variable {w w' : World} {dev : VirtioDev} {disk : Bytes}

/-! ## The books -/

namespace IoState

def waiting : IoState → Nat
  | .pushed => 1
  | _ => 0

def unfinished : IoState → Nat
  | .busy => 1
  | .pushed => 1
  | _ => 0

def pushCount : IoState → Nat
  | .pushed => 1
  | .collected => 1
  | _ => 0

def returnCode : IoState → Option Int
  | .fresh => none
  | .rejected => some (-1)
  | _ => some 0

end IoState

/-- Rings and histories say about a descriptor what they should in state `s`. -/
structure Entry (w : World) (io : Nat) (s : IoState) : Prop where
  outring : w.outring.count io = s.waiting
  uncollected : w.uncollected.count io = s.unfinished
  pushes : w.pushes.count io = s.pushCount
  returned : w.returned io = s.returnCode

/-- Rings and histories agree with the states of the descriptors. -/
structure Entries (w : World) : Prop where
  entry : ∀ io, Entry w io (w.ios io).state

/-- And no more is submitted than the output ring holds. -/
structure Books (w : World) : Prop extends Entries w where
  room : w.uncollected.length ≤ outringCapacity

/-- The position of a command in its chain. -/
def TaskCb.rank : TaskCb → Nat
  | .blkReadDone => 1
  | .blkReadFirstBlockDone => 1
  | .blkWriteFullBlocksDone => 2
  | .blkReadLastBlockDone => 3
  | .blkWriteLastBlockDone => 4

/-- Tasks in the vring and busy descriptors belong together. -/
structure Chains (w : World) : Prop where
  fresh : ∀ t, w.nextTask ≤ t → w.flights t = none
  live : ∀ t, w.live t = (w.flights t).isSome
  balanced : Balanced w
  busy : ∀ t f, w.flights t = some f → (w.ios f.io).state = .busy
  range : ∀ t f, w.flights t = some f → InRange w.dev (w.ios f.io).desc
  shape : ∀ t f, w.flights t = some f → Shape w.dev (w.ios f.io).desc f.cb f.task.vbufs
  one : ∀ t f t' f', w.flights t = some f → w.flights t' = some f' → f.io = f'.io → t = t'
  owner : ∀ io, (w.ios io).state = .busy → ∃ t f, w.flights t = some f ∧ f.io = io
  rank : ∀ t f, w.flights t = some f → w.sent f.io ≤ f.cb.rank
  sent : ∀ io, w.sent io ≤ 4
  unsent : ∀ io, (w.ios io).state = .fresh → w.sent io = 0

/-! ## Descriptors that change their state -/

theorem count_snoc_self (l : List Nat) (io : Nat) : (l ++ [io]).count io = l.count io + 1 := by
  rw [List.count_append, List.count_singleton_self]

theorem count_snoc_of_ne (l : List Nat) {io i : Nat} (h : i ≠ io) :
    (l ++ [io]).count i = l.count i := by
  have hzero : [io].count i = 0 := List.count_eq_zero_of_not_mem (by simp [h])
  rw [List.count_append, hzero, Nat.add_zero]

/-- There is room in the output ring for every busy descriptor. -/
theorem Books.space (h : Books w) {io : Nat} (hb : (w.ios io).state = .busy) :
    w.outring.length < outringCapacity := by
  have hsub : (w.outring ++ [io]).Subperm w.uncollected := by
    refine List.subperm_ext_iff.mpr fun i _ => ?_
    have hi := h.entry i
    by_cases heq : i = io
    · subst heq
      rw [hb] at hi
      rw [count_snoc_self, hi.outring, hi.uncollected]
      exact Nat.le_refl _
    · rw [count_snoc_of_ne _ heq, hi.outring, hi.uncollected]
      cases (w.ios i).state <;> simp [IoState.waiting, IoState.unfinished]
  have hlen := hsub.length_le
  rw [List.length_append, List.length_singleton] at hlen
  exact Nat.lt_of_lt_of_le hlen h.room

theorem Entry.frame {io : Nat} {s : IoState} (h : Entry w io s)
    (hout : w'.outring.count io = w.outring.count io)
    (hunc : w'.uncollected.count io = w.uncollected.count io)
    (hpush : w'.pushes.count io = w.pushes.count io) (hret : w'.returned io = w.returned io) :
    Entry w' io s :=
  ⟨hout.trans h.outring, hunc.trans h.uncollected, hpush.trans h.pushes, hret.trans h.returned⟩

theorem Entries.closed (h : Entries w) {t io : Nat} {desc : AsyncIoDesc}
    (hb : (w.ios io).state = .busy) (hc : Closed (w.take t) t io desc w') : Entries w' := by
  refine ⟨fun i => ?_⟩
  have hi := h.entry i
  by_cases heq : i = io
  · subst heq
    rw [hb] at hi
    rw [hc.own]
    refine ⟨?_, by rw [hc.uncollected]; exact hi.uncollected, ?_,
      by rw [hc.returned]; exact hi.returned⟩
    · rw [hc.outring, count_snoc_self]
      exact congrArg (· + 1) hi.outring
    · rw [hc.pushes, count_snoc_self]
      exact congrArg (· + 1) hi.pushes
  · rw [hc.ios i heq]
    refine hi.frame ?_ (by rw [hc.uncollected]; rfl) ?_ (by rw [hc.returned]; rfl)
    · rw [hc.outring, count_snoc_of_ne _ heq]
      rfl
    · rw [hc.pushes, count_snoc_of_ne _ heq]
      rfl

theorem Entries.passed (h : Entries w) {t io : Nat} {desc : AsyncIoDesc} {cb : TaskCb}
    {vbufs : List Buffer} (hb : (w.ios io).state = .busy)
    (hp : Passed (w.take t) t io desc cb vbufs w') : Entries w' := by
  refine ⟨fun i => ?_⟩
  have hstate : (w'.ios i).state = (w.ios i).state := by
    by_cases heq : i = io
    · rw [heq, hp.own, hb]
    · rw [hp.ios i heq]
      rfl
  rw [hstate]
  exact (h.entry i).frame (by rw [hp.outring]; rfl) (by rw [hp.uncollected]; rfl)
    (by rw [hp.pushes]; rfl) (by rw [hp.returned]; rfl)

theorem Entries.started (h : Entries w) {io : Nat} {desc₀ desc : AsyncIoDesc} {cb : TaskCb}
    {vbufs : List Buffer} (hf : (w.ios io).state = .fresh)
    (hp : Passed (w.enter io desc₀) w.nextTask io desc cb vbufs w') : Entries (w'.leave io 0) := by
  refine ⟨fun i => ?_⟩
  have hi := h.entry i
  show Entry _ i (w'.ios i).state
  by_cases heq : i = io
  · subst heq
    rw [hf] at hi
    rw [hp.own]
    refine ⟨by show w'.outring.count i = _; rw [hp.outring]; exact hi.outring, ?_,
      by show w'.pushes.count i = _; rw [hp.pushes]; exact hi.pushes, Function.update_self ..⟩
    show (w'.uncollected ++ [i]).count i = _
    rw [hp.uncollected, count_snoc_self]
    exact congrArg (· + 1) hi.uncollected
  · rw [hp.ios i heq]
    show Entry _ i (Function.update w.ios io _ i).state
    rw [Function.update_of_ne heq]
    refine hi.frame ?_ ?_ ?_ ?_
    · show w'.outring.count i = _
      rw [hp.outring]
      rfl
    · show (w'.uncollected ++ [io]).count i = _
      rw [hp.uncollected, count_snoc_of_ne _ heq]
      rfl
    · show w'.pushes.count i = _
      rw [hp.pushes]
      rfl
    · show Function.update w'.returned io _ i = _
      rw [Function.update_of_ne heq, hp.returned]
      rfl

theorem Entries.refused (h : Entries w) {io : Nat} {desc₀ desc : AsyncIoDesc} {live : Nat → Bool}
    (hf : (w.ios io).state = .fresh) (hm : Mid (w.enter io desc₀) io desc live w') :
    Entries (w'.leave io (-1)) := by
  refine ⟨fun i => ?_⟩
  have hi := h.entry i
  have hframe : w'.outring.count i = w.outring.count i ∧
      w'.uncollected.count i = w.uncollected.count i ∧ w'.pushes.count i = w.pushes.count i := by
    rw [hm.outring, hm.uncollected, hm.pushes]
    exact ⟨rfl, rfl, rfl⟩
  show Entry _ i (Function.update w'.ios io _ i).state
  by_cases heq : i = io
  · subst heq
    rw [hf] at hi
    rw [Function.update_self]
    exact ⟨hframe.1.trans hi.outring, hframe.2.1.trans hi.uncollected,
      hframe.2.2.trans hi.pushes, Function.update_self ..⟩
  · rw [Function.update_of_ne heq, hm.ios i heq]
    show Entry _ i (Function.update w.ios io _ i).state
    rw [Function.update_of_ne heq]
    refine hi.frame hframe.1 hframe.2.1 hframe.2.2 ?_
    show Function.update w'.returned io _ i = _
    rw [Function.update_of_ne heq, hm.returned]
    rfl

theorem Entries.collected (h : Entries w) {io : Nat} {rest : List Nat}
    (hout : w.outring = io :: rest) : Entries (w.collectIo io rest) := by
  have hpushed : (w.ios io).state = .pushed := by
    have hio := (h.entry io).outring
    rw [hout, List.count_cons_self] at hio
    cases hs : (w.ios io).state <;> rw [hs] at hio <;> simp [IoState.waiting] at hio ⊢
  refine ⟨fun i => ?_⟩
  have hi := h.entry i
  have hcount := hi.outring
  rw [hout] at hcount
  show Entry _ i (Function.update w.ios io _ i).state
  by_cases heq : i = io
  · subst heq
    rw [hpushed] at hi hcount
    rw [Function.update_self]
    rw [List.count_cons_self] at hcount
    refine ⟨Nat.succ.inj hcount, ?_, hi.pushes, hi.returned⟩
    show (w.uncollected.erase i).count i = _
    rw [List.count_erase_self, hi.uncollected]
    rfl
  · rw [Function.update_of_ne heq]
    rw [List.count_cons_of_ne (Ne.symm heq)] at hcount
    refine ⟨hcount, ?_, hi.pushes, hi.returned⟩
    show (w.uncollected.erase io).count i = _
    rw [List.count_erase_of_ne heq]
    exact hi.uncollected

/-! ## Tasks that come and go -/

theorem Chains.ready {excused : Prop} (h : Chains w) (hb : ¬ excused → Books w) {t : Nat}
    {f : Flight} (hf : w.flights t = some f) : Ready excused (w.take t) t f.io := by
  have hne : w.nextTask ≠ t := by
    rintro rfl
    have := h.fresh _ (Nat.le_refl _)
    rw [hf] at this
    cases this
  have hnext := h.fresh _ (Nat.le_refl _)
  refine ⟨⟨?_, Function.update_self .., h.busy t f hf,
    fun hx => (hb hx).space (h.busy t f hf)⟩, ?_, ?_⟩
  · show w.live t = true
    rw [h.live, hf]
    rfl
  · show w.live w.nextTask = false
    rw [h.live, hnext]
    rfl
  · show Function.update w.flights t none w.nextTask = none
    rw [Function.update_of_ne hne]
    exact hnext

/-- The other tasks in the vring, after a callback has given its descriptor back. -/
theorem Chains.closed (h : Chains w) {t : Nat} {f : Flight} {desc : AsyncIoDesc}
    (hf : w.flights t = some f) (hc : Closed (w.take t) t f.io desc w') : Chains w' := by
  have hflights : w'.flights = Function.update w.flights t none := hc.flights
  -- what is in the ring now was there before, for another descriptor
  have hold : ∀ x g, w'.flights x = some g → w.flights x = some g ∧ g.io ≠ f.io := fun x g hg => by
    rw [hflights] at hg
    by_cases hx : x = t
    · rw [hx, Function.update_self] at hg
      cases hg
    · rw [Function.update_of_ne hx] at hg
      exact ⟨hg, fun heq => hx (h.one x g t f hg hf heq)⟩
  have hios : ∀ x g, w'.flights x = some g → w'.ios g.io = w.ios g.io := fun x g hg =>
    hc.ios g.io (hold x g hg).2
  have hdev : w'.dev = w.dev := hc.dev
  have hsent : w'.sent = w.sent := hc.sent
  constructor
  · intro x hx
    rw [hflights]
    have hx' := h.fresh x (Nat.le_trans hc.nextTask hx)
    by_cases hxt : x = t
    · rw [hxt, Function.update_self]
    · rw [Function.update_of_ne hxt]
      exact hx'
  · intro x
    rw [hc.live x, hflights]
    show (w.live x && x != t) = _
    by_cases hxt : x = t
    · simp [hxt]
    · rw [Function.update_of_ne hxt, h.live, bne_iff_ne.mpr hxt, Bool.and_true]
  · exact hc.balanced h.balanced
  · intro x g hg
    rw [hios x g hg]
    exact h.busy x g (hold x g hg).1
  · intro x g hg
    rw [hios x g hg, hdev]
    exact h.range x g (hold x g hg).1
  · intro x g hg
    rw [hios x g hg, hdev]
    exact h.shape x g (hold x g hg).1
  · intro x g x' g' hg hg'
    exact h.one x g x' g' (hold x g hg).1 (hold x' g' hg').1
  · intro i hi
    by_cases heq : i = f.io
    · rw [heq, hc.own] at hi
      cases hi
    · rw [hc.ios i heq] at hi
      obtain ⟨x, g, hg, hio⟩ := h.owner i hi
      refine ⟨x, g, ?_, hio⟩
      rw [hflights, Function.update_of_ne]
      · exact hg
      · rintro rfl
        rw [hf] at hg
        cases hg
        exact heq hio.symm
  · intro x g hg
    rw [hsent]
    exact h.rank x g (hold x g hg).1
  · rw [hsent]
    exact h.sent
  · intro i hi
    rw [hsent]
    by_cases heq : i = f.io
    · rw [heq, hc.own] at hi
      cases hi
    · rw [hc.ios i heq] at hi
      exact h.unsent i hi

/-- A new command for a descriptor that at most task `t` belonged to. -/
theorem Chains.passed (h : Chains w) {v : World} {t io : Nat} {desc : AsyncIoDesc} {cb : TaskCb}
    {vbufs : List Buffer} (hp : Passed v t io desc cb vbufs w')
    (hv : v.flights = Function.update w.flights t none) (hlive : v.live = w.live)
    (hnext : v.nextTask = w.nextTask) (hdev : v.dev = w.dev) (hsent : v.sent = w.sent)
    (hios : ∀ i, i ≠ io → v.ios i = w.ios i) (hbal : Balanced v)
    (hown : ∀ x g, w.flights x = some g → (g.io = io ↔ x = t)) (hrange : InRange w.dev desc)
    (hshape : Shape w.dev desc cb vbufs) (hrank : w.sent io < cb.rank) : Chains w' := by
  obtain ⟨task, rfl, hflights⟩ := hp.flights
  rw [hv, hnext] at hflights
  have hios' : ∀ i, i ≠ io → w'.ios i = w.ios i := fun i hi => (hp.ios i hi).trans (hios i hi)
  have hdev' : w'.dev = w.dev := hp.dev.trans hdev
  have hsent' : w'.sent = Function.update w.sent io (w.sent io + 1) := by
    rw [hp.sent, hsent]
  have hself : w'.flights w.nextTask = some ⟨task, cb, io, false⟩ := by
    rw [hflights, Function.update_self]
  -- any other task was in the ring before, for another descriptor
  have hold : ∀ x g, w'.flights x = some g → (x = w.nextTask ∧ g = ⟨task, cb, io, false⟩) ∨
      (x ≠ w.nextTask ∧ w.flights x = some g ∧ g.io ≠ io) := fun x g hg => by
    by_cases hx : x = w.nextTask
    · rw [hx, hself] at hg
      cases hg
      exact Or.inl ⟨hx, rfl⟩
    · rw [hflights, Function.update_of_ne hx] at hg
      by_cases hxt : x = t
      · rw [hxt, Function.update_self] at hg
        cases hg
      · rw [Function.update_of_ne hxt] at hg
        exact Or.inr ⟨hx, hg, fun heq => hxt ((hown x g hg).mp heq)⟩
  constructor
  · intro x hx
    rw [hp.nextTask, hnext] at hx
    rw [hflights, Function.update_of_ne (by omega)]
    by_cases hxt : x = t
    · rw [hxt, Function.update_self]
    · rw [Function.update_of_ne hxt]
      exact h.fresh x (by omega)
  · intro x
    rw [hp.live x, hlive, hnext]
    by_cases hx : x = w.nextTask
    · simp [hx, hself]
    · rw [hflights, Function.update_of_ne hx, beq_false_of_ne hx, Bool.false_or]
      by_cases hxt : x = t
      · simp [hxt]
      · rw [Function.update_of_ne hxt, h.live, bne_iff_ne.mpr hxt, Bool.and_true]
  · exact hp.balanced hbal
  · intro x g hg
    obtain ⟨-, rfl⟩ | ⟨-, hg, hne⟩ := hold x g hg
    · rw [hp.own]
    · rw [hios' g.io hne]
      exact h.busy x g hg
  · intro x g hg
    rw [hdev']
    obtain ⟨-, rfl⟩ | ⟨-, hg, hne⟩ := hold x g hg
    · rw [hp.own]
      exact hrange
    · rw [hios' g.io hne]
      exact h.range x g hg
  · intro x g hg
    rw [hdev']
    obtain ⟨-, rfl⟩ | ⟨-, hg, hne⟩ := hold x g hg
    · rw [hp.own]
      exact hshape
    · rw [hios' g.io hne]
      exact h.shape x g hg
  · intro x g x' g' hg hg' heq
    obtain ⟨rfl, rfl⟩ | ⟨hx, hg, hne⟩ := hold x g hg
    · obtain ⟨rfl, rfl⟩ | ⟨-, -, hne'⟩ := hold x' g' hg'
      · rfl
      · exact absurd heq.symm hne'
    · obtain ⟨-, rfl⟩ | ⟨-, hg', -⟩ := hold x' g' hg'
      · exact absurd heq hne
      · exact h.one x g x' g' hg hg' heq
  · intro i hi
    by_cases heq : i = io
    · exact ⟨w.nextTask, _, hself, heq.symm⟩
    · rw [hios' i heq] at hi
      obtain ⟨x, g, hg, hio⟩ := h.owner i hi
      refine ⟨x, g, ?_, hio⟩
      have hlt : x ≠ w.nextTask := by
        rintro rfl
        rw [h.fresh _ (Nat.le_refl _)] at hg
        cases hg
      rw [hflights, Function.update_of_ne hlt, Function.update_of_ne]
      · exact hg
      · intro hxt
        exact heq (hio ▸ (hown x g hg).mpr hxt)
  · intro x g hg
    rw [hsent']
    obtain ⟨-, rfl⟩ | ⟨-, hg, hne⟩ := hold x g hg
    · rw [Function.update_self]
      exact hrank
    · rw [Function.update_of_ne hne]
      exact h.rank x g hg
  · intro i
    rw [hsent']
    by_cases heq : i = io
    · rw [heq, Function.update_self]
      apply Nat.le_trans hrank
      cases cb <;> simp [TaskCb.rank]
    · rw [Function.update_of_ne heq]
      exact h.sent i
  · intro i hi
    have heq : i ≠ io := by
      rintro rfl
      rw [hp.own] at hi
      cases hi
    rw [hsent', Function.update_of_ne heq]
    rw [hios' i heq] at hi
    exact h.unsent i hi

theorem Chains.answered (h : Chains w) {t : Nat} {f : Flight} {task : Task}
    (hf : w.flights t = some f)
    (hflights : w'.flights = Function.update w.flights t
      (some { f with task := task, answered := true }))
    (hios : ∀ i, (w'.ios i).state = (w.ios i).state ∧ SameRequest (w.ios i).desc (w'.ios i).desc)
    (hshape : Shape w.dev (w.ios f.io).desc f.cb task.vbufs) (hlive : w'.live = w.live)
    (hnext : w'.nextTask = w.nextTask) (hbal : Balanced w') (hdev : w'.dev = w.dev)
    (hsent : w'.sent = w.sent) : Chains w' := by
  -- every task in the ring was there before, with the same callback and descriptor
  have hold : ∀ x g, w'.flights x = some g → ∃ g₀, w.flights x = some g₀ ∧ g.io = g₀.io ∧
      g.cb = g₀.cb ∧ Shape w.dev (w.ios g.io).desc g.cb g.task.vbufs := fun x g hg => by
    rw [hflights] at hg
    by_cases hx : x = t
    · subst hx
      rw [Function.update_self] at hg
      cases hg
      exact ⟨f, hf, rfl, rfl, hshape⟩
    · rw [Function.update_of_ne hx] at hg
      exact ⟨g, hg, rfl, rfl, h.shape x g hg⟩
  have hsome : ∀ x, (w'.flights x).isSome = (w.flights x).isSome := fun x => by
    rw [hflights]
    by_cases hx : x = t
    · subst hx
      rw [Function.update_self, hf]
      rfl
    · rw [Function.update_of_ne hx]
  constructor
  · intro x hx
    have hnone := h.fresh x (by omega)
    have hx' := hsome x
    rw [hnone] at hx'
    exact Option.not_isSome_iff_eq_none.mp (by rw [hx']; exact Bool.false_ne_true)
  · intro x
    rw [hlive, hsome, h.live]
  · exact hbal
  · intro x g hg
    obtain ⟨g₀, hg₀, hio, -, -⟩ := hold x g hg
    rw [(hios g.io).1, hio]
    exact h.busy x g₀ hg₀
  · intro x g hg
    obtain ⟨g₀, hg₀, hio, -, -⟩ := hold x g hg
    rw [hdev, hio]
    exact (h.range x g₀ hg₀).congr (hios g₀.io).2
  · intro x g hg
    obtain ⟨g₀, hg₀, hio, -, hsh⟩ := hold x g hg
    rw [hdev]
    exact hsh.congr (hios g.io).2
  · intro x g x' g' hg hg' heq
    obtain ⟨g₀, hg₀, hio, -, -⟩ := hold x g hg
    obtain ⟨g₁, hg₁, hio', -, -⟩ := hold x' g' hg'
    exact h.one x g₀ x' g₁ hg₀ hg₁ (by rw [← hio, ← hio', heq])
  · intro i hi
    rw [(hios i).1] at hi
    obtain ⟨x, g, hg, hio⟩ := h.owner i hi
    by_cases hx : x = t
    · subst hx
      rw [hf] at hg
      cases hg
      exact ⟨x, { f with task := task, answered := true },
        by rw [hflights, Function.update_self], hio⟩
    · exact ⟨x, g, by rw [hflights, Function.update_of_ne hx]; exact hg, hio⟩
  · intro x g hg
    obtain ⟨g₀, hg₀, hio, hcb, -⟩ := hold x g hg
    rw [hsent, hio, hcb]
    exact h.rank x g₀ hg₀
  · rw [hsent]
    exact h.sent
  · intro i hi
    rw [(hios i).1] at hi
    rw [hsent]
    exact h.unsent i hi

theorem Chains.frame (h : Chains w) (io : Nat) (hflights : w'.flights = w.flights)
    (hlive : w'.live = w.live) (hnext : w.nextTask ≤ w'.nextTask) (hbal : Balanced w')
    (hdev : w'.dev = w.dev) (hsent : w'.sent = w.sent) (hios : ∀ i, i ≠ io → w'.ios i = w.ios i)
    (hold : (w.ios io).state ≠ .busy)
    (hnew : (w'.ios io).state ≠ .busy ∧ (w'.ios io).state ≠ .fresh) : Chains w' := by
  have hne : ∀ x g, w.flights x = some g → g.io ≠ io := fun x g hg heq => by
    have hb := h.busy x g hg
    rw [heq] at hb
    exact hold hb
  constructor
  · intro x hx
    rw [hflights]
    exact h.fresh x (Nat.le_trans hnext hx)
  · intro x
    rw [hlive, hflights]
    exact h.live x
  · exact hbal
  · intro x g hg
    rw [hflights] at hg
    rw [hios _ (hne x g hg)]
    exact h.busy x g hg
  · intro x g hg
    rw [hflights] at hg
    rw [hios _ (hne x g hg), hdev]
    exact h.range x g hg
  · intro x g hg
    rw [hflights] at hg
    rw [hios _ (hne x g hg), hdev]
    exact h.shape x g hg
  · rw [hflights]
    exact h.one
  · intro i hi
    have heq : i ≠ io := by
      rintro rfl
      exact hnew.1 hi
    rw [hios i heq] at hi
    rw [hflights]
    exact h.owner i hi
  · rw [hflights, hsent]
    exact h.rank
  · rw [hsent]
    exact h.sent
  · intro i hi
    have heq : i ≠ io := by
      rintro rfl
      exact hnew.2 hi
    rw [hios i heq] at hi
    rw [hsent]
    exact h.unsent i hi

/-! ## One step -/

def Ranged (w : World) : Event → Prop
  | .submit _ desc _ => 0 < desc.nbytes ∧ desc.offset + desc.nbytes ≤ w.dev.cap
  | _ => True

/-- Requests are in range, and no more are submitted than the output ring holds. -/
def Admitted (w : World) : Event → Prop
  | .submit _ desc _ => 0 < desc.nbytes ∧ desc.offset + desc.nbytes ≤ w.dev.cap ∧
      w.uncollected.length < outringCapacity
  | _ => True

inductive Transition (w : World) : Event → World → Prop
  | refused (io : Nat) (desc : AsyncIoDesc) (outcomes : List (Option Bytes)) (w₁ : World)
      (hf : (w.ios io).state = .fresh) (hd : InRange w.dev desc)
      (h : Refused (w.enter io desc) io w₁) :
      Transition w (.submit io desc outcomes) (w₁.leave io (-1))
  | accepted (io : Nat) (desc : AsyncIoDesc) (outcomes : List (Option Bytes)) (w₁ : World)
      (hf : (w.ios io).state = .fresh) (hd : InRange w.dev desc)
      (h : Accepted (w.enter io desc) io w₁) :
      Transition w (.submit io desc outcomes) (w₁.leave io 0)
  | executed (t : Nat) (f : Flight) (a : Answer) (w' : World) (hf : w.flights t = some f)
      (hans : f.answered = false) (h : Executed w t f a w') : Transition w (.exec t a) w'
  | reaped (t : Nat) (f : Flight) (outcomes : List (Option Bytes)) (w' : World)
      (hf : w.flights t = some f) (hans : f.answered = true) (h : Reaped (w.take t) t f w') :
      Transition w (.reap t outcomes) w'
  | collected (io : Nat) (rest : List Nat) (hout : w.outring = io :: rest) :
      Transition w .collect (w.collectIo io rest)
  | watermark (n : Nat) : Transition w (.watermark n) { w with eventHighWm := n }

theorem enter_own (w : World) (io : Nat) (desc : AsyncIoDesc) :
    (w.enter io desc).ios io = ⟨desc, .busy⟩ := Function.update_self ..

theorem Chains.entered (h : Chains w) (io : Nat) (desc : AsyncIoDesc) :
    Entered (w.enter io desc) io := by
  have hnext := h.fresh _ (Nat.le_refl _)
  refine ⟨by rw [enter_own], ?_, hnext⟩
  show w.live w.nextTask = false
  rw [h.live, hnext]
  rfl

/-- No step ends in a fault but the one of a full output ring. -/
theorem step_ends {excused : Prop} (hc : Chains w) (hb : ¬ excused → Books w)
    (hg : w.dev.Geometry) {e : Event} (hadm : Ranged w e) {s : Except Fault World}
    (hs : stepWorld w e = some s) :
    (∃ w', s = .ok w' ∧ Transition w e w') ∨ excused ∧ ∃ e, s = .error e := by
  cases e with
  | submit io desc outcomes =>
      obtain ⟨hpos, hle⟩ := hadm
      have hd := hg.inRange hpos hle
      simp only [stepWorld] at hs
      split at hs
      · next hf =>
          have hspec := virtioSubmit_spec (hc.entered io desc) (by rw [enter_own]; exact hd)
          obtain ⟨rc, w₁, os', hrun, hpost⟩ := hspec outcomes
          rw [hrun] at hs
          cases hs
          obtain ⟨rfl, href⟩ | ⟨rfl, hacc⟩ := hpost
          · exact Or.inl ⟨_, rfl, .refused io desc outcomes w₁ hf hd href⟩
          · exact Or.inl ⟨_, rfl, .accepted io desc outcomes w₁ hf hd hacc⟩
      · cases hs
  | exec t a =>
      simp only [stepWorld] at hs
      cases hf : w.flights t with
      | none =>
          rw [hf] at hs
          cases hs
      | some f =>
          simp only [hf] at hs
          split at hs
          · cases hs
          · next hans =>
              cases hs
              exact Or.inl ⟨_, rfl, .executed t f a _ hf (by simpa using hans)
                (exec_spec (hc.shape t f hf) a)⟩
  | reap t outcomes =>
      simp only [stepWorld] at hs
      cases hf : w.flights t with
      | none =>
          rw [hf] at hs
          cases hs
      | some f =>
          simp only [hf] at hs
          split at hs
          · next hans =>
              have hspec := runCallback_spec (hc.ready hb hf) (hc.range t f hf) (hc.shape t f hf)
              rcases hspec outcomes fun _ _ => False.elim with
                ⟨_, w', os', hrun, -, hpost⟩ | ⟨hx, fault, hrun⟩
              · rw [hrun] at hs
                cases hs
                exact Or.inl ⟨_, rfl, .reaped t f outcomes w' hf hans hpost⟩
              · rw [hrun] at hs
                cases hs
                exact Or.inr ⟨hx, _, rfl⟩
          · cases hs
  | collect =>
      simp only [stepWorld] at hs
      cases hout : w.outring with
      | nil =>
          rw [hout] at hs
          cases hs
      | cons io rest =>
          rw [hout] at hs
          cases hs
          exact Or.inl ⟨_, rfl, .collected io rest hout⟩
  | watermark n =>
      cases hs
      exact Or.inl ⟨_, rfl, .watermark n⟩

theorem Admitted.ranged {e : Event} (h : Admitted w e) : Ranged w e := by
  cases e with
  | submit io desc outcomes => exact ⟨h.1, h.2.1⟩
  | exec | reap | collect | watermark => trivial

/-- No step ends in a fault. -/
theorem step_cases (hc : Chains w) (hb : Books w) (hg : w.dev.Geometry) {e : Event}
    (hadm : Admitted w e) {s : Except Fault World} (hs : stepWorld w e = some s) :
    ∃ w', s = .ok w' ∧ Transition w e w' :=
  (step_ends hc (fun _ => hb) hg hadm.ranged hs).resolve_right fun h => h.1

/-- What a task in the ring becomes if its descriptor stays busy. -/
theorem Chains.passedOn (h : Chains w) {t : Nat} {f : Flight} {desc : AsyncIoDesc} {cb : TaskCb}
    {vbufs : List Buffer} (hf : w.flights t = some f)
    (hp : Passed (w.take t) t f.io desc cb vbufs w') (hrange : InRange w.dev desc)
    (hshape : Shape w.dev desc cb vbufs) (hrank : f.cb.rank < cb.rank) : Chains w' := by
  refine h.passed hp rfl rfl rfl rfl rfl (fun _ _ => rfl) h.balanced ?_ hrange hshape ?_
  · refine fun x g hg => ⟨h.one x g t f hg hf, ?_⟩
    rintro rfl
    rw [hf] at hg
    cases hg
    rfl
  · exact Nat.lt_of_le_of_lt (h.rank t f hf) hrank

theorem Reaped.outside {t : Nat} {f : Flight} (h : Reaped w t f w') : SameOutside w w' f.io := by
  obtain ⟨desc, -, -, hc | ⟨cb, vbufs, hp⟩⟩ := h.ends
  · exact hc.toSameOutside
  · exact hp.toSameOutside

theorem Chains.writing (h : Chains w) {t : Nat} {f : Flight} (hf : w.flights t = some f)
    (hcb : f.cb ≠ .blkReadDone) :
    (w.ios f.io).desc.type = .write ∧ partExists w.dev (w.ios f.io).desc f.cb := by
  cases h.shape t f hf with
  | read hread => exact absurd hread hcb
  | write htype hpart => exact ⟨htype, hpart⟩

theorem Chains.reading (h : Chains w) {t : Nat} {f : Flight} (hf : w.flights t = some f)
    (hcb : f.cb = .blkReadDone) : (w.ios f.io).desc.type ≠ .write := fun htype => by
  cases h.shape t f hf with
  | read _ hread _ =>
      rw [hread] at htype
      cases htype
  | write _ hpart =>
      rw [hcb] at hpart
      exact hpart

theorem bodyLen_pos_of_head {d : AsyncIoDesc} (hd : InRange dev d) (hr : firstResid dev d ≠ 0) :
    0 < bodyLen dev d := Nat.lt_of_lt_of_le (headLen_pos hd hr) (Nat.le_add_right ..)

theorem Chains.reaped (h : Chains w) {t : Nat} {f : Flight} (hf : w.flights t = some f)
    (hr : Reaped (w.take t) t f w') : Chains w' := by
  have hd := h.range t f hf
  cases hr with
  | read desc hcb hreq hc => exact h.closed hf hc
  | dropped r m hbufs hfail hkind hc => exact h.closed hf hc
  | bodyWritten r m hcb hbufs hgood hfail hc => exact h.closed hf hc
  | tailWritten r m hcb hbufs hgood hc => exact h.closed hf hc
  | headRead r m m' hcb hbufs hgood hblock hp =>
      obtain ⟨htype, hpart⟩ := h.writing hf (by rw [hcb]; decide)
      rw [hcb] at hpart
      apply h.passedOn hf hp hd (.write htype (bodyLen_pos_of_head hd hpart) _ m' rfl)
      rw [hcb]
      decide
  | bodyNext r m m' hcb hbufs hgood hne hp =>
      obtain ⟨htype, -⟩ := h.writing hf (by rw [hcb]; decide)
      have hshape : Shape w.dev (w.ios f.io).desc .blkReadLastBlockDone
        (lastReadBufs w.dev (w.ios f.io).desc ⟨0, 0⟩ m') := .write htype hne _ m' rfl
      apply h.passedOn hf hp (hd.retval _) (hshape.congr (.retval _ _))
      rw [hcb]
      decide
  | tailRead r m m' hcb hbufs hgood hblock hp =>
      obtain ⟨htype, hpart⟩ := h.writing hf (by rw [hcb]; decide)
      rw [hcb] at hpart
      apply h.passedOn hf hp hd (.write htype hpart _ m' rfl)
      rw [hcb]
      decide

theorem Entries.reaped (h : Entries w) {t : Nat} {f : Flight} (hb : (w.ios f.io).state = .busy)
    (hr : Reaped (w.take t) t f w') : Entries w' := by
  obtain ⟨desc, -, -, hc | ⟨cb, vbufs, hp⟩⟩ := hr.ends
  · exact h.closed hb hc
  · exact h.passed hb hp

theorem Executed.shape {t : Nat} {f : Flight} {a : Answer} (he : Executed w t f a w')
    (hshape : Shape w.dev (w.ios f.io).desc f.cb f.task.vbufs) :
    ∃ task : Task, Shape w.dev (w.ios f.io).desc f.cb task.vbufs ∧
      w'.flights = Function.update w.flights t (some { f with task := task, answered := true }) := by
  cases he with
  | read a vbufs buf usedBytes failed hcb hbufs hfail =>
      refine ⟨⟨vbufs, _, _, _⟩, ?_, rfl⟩
      cases hshape with
      | read _ htype _ => exact .read hcb htype hbufs
      | write _ hpart =>
          rw [hcb] at hpart
          exact hpart.elim
  | failed r resp m usedBytes hbufs =>
      refine ⟨⟨_, _, _, _⟩, ?_, rfl⟩
      cases hshape with
      | read hcb htype hread =>
          obtain ⟨lba, n, r', rest, hread, -⟩ := hread
          rw [hcb, hread] at hbufs
          cases hbufs
      | write htype hpart => exact .write htype hpart resp m rfl
  | blockRead r m transferred rest usedBytes hcb hbufs =>
      refine ⟨⟨_, _, _, _⟩, ?_, rfl⟩
      cases hshape with
      | read hcb htype hread =>
          obtain ⟨lba, n, r', rest, hread, -⟩ := hread
          rw [hcb, hread] at hbufs
          cases hbufs
      | write htype hpart => exact .write htype hpart _ _ rfl
  | written r m transferred rest usedBytes hcb hbufs =>
      refine ⟨⟨_, _, _, _⟩, ?_, rfl⟩
      cases hshape with
      | read hcb' =>
          rw [hcb'] at hcb
          cases hcb
      | write htype hpart => exact .write htype hpart _ m rfl

structure DeviceFrame (w w' : World) : Prop where
  dev : w'.dev = w.dev
  live : w'.live = w.live
  nextTask : w'.nextTask = w.nextTask
  destroyed : w'.destroyed = w.destroyed
  sent : w'.sent = w.sent
  outring : w'.outring = w.outring
  uncollected : w'.uncollected = w.uncollected
  pushes : w'.pushes = w.pushes
  returned : w'.returned = w.returned
  ios : ∀ i, (w'.ios i).state = (w.ios i).state ∧ SameRequest (w.ios i).desc (w'.ios i).desc

theorem Executed.frame {t : Nat} {f : Flight} {a : Answer} (he : Executed w t f a w') :
    DeviceFrame w w' := by
  have hsame : ∀ i, (w.ios i).state = (w.ios i).state ∧ SameRequest (w.ios i).desc (w.ios i).desc :=
    fun i => ⟨rfl, rfl, rfl, rfl⟩
  cases he with
  | read a vbufs buf usedBytes failed hcb hbufs hfail =>
      refine ⟨rfl, rfl, rfl, rfl, rfl, rfl, rfl, rfl, rfl, fun i => ?_⟩
      show (Function.update w.ios f.io _ i).state = _ ∧
        SameRequest _ (Function.update w.ios f.io _ i).desc
      by_cases hi : i = f.io
      · rw [hi, Function.update_self]
        exact ⟨rfl, rfl, rfl, rfl⟩
      · rw [Function.update_of_ne hi]
        exact hsame i
  | failed => exact ⟨rfl, rfl, rfl, rfl, rfl, rfl, rfl, rfl, rfl, hsame⟩
  | blockRead => exact ⟨rfl, rfl, rfl, rfl, rfl, rfl, rfl, rfl, rfl, hsame⟩
  | written => exact ⟨rfl, rfl, rfl, rfl, rfl, rfl, rfl, rfl, rfl, hsame⟩

theorem Chains.executed (h : Chains w) {t : Nat} {f : Flight} {a : Answer}
    (hf : w.flights t = some f) (he : Executed w t f a w') : Chains w' := by
  obtain ⟨task, hshape, hflights⟩ := he.shape (h.shape t f hf)
  have hframe := he.frame
  refine h.answered hf hflights hframe.ios hshape hframe.live hframe.nextTask ?_ hframe.dev
    hframe.sent
  intro x
  rw [hframe.destroyed, hframe.live, hframe.nextTask]
  exact h.balanced x

theorem Entries.executed (h : Entries w) {t : Nat} {f : Flight} {a : Answer}
    (he : Executed w t f a w') : Entries w' := by
  have hframe := he.frame
  refine ⟨fun i => ?_⟩
  rw [(hframe.ios i).1]
  exact (h.entry i).frame (by rw [hframe.outring]) (by rw [hframe.uncollected])
    (by rw [hframe.pushes]) (by rw [hframe.returned])

theorem Chains.started (h : Chains w) {io : Nat} {desc₀ desc : AsyncIoDesc} {cb : TaskCb}
    {vbufs : List Buffer} (hf : (w.ios io).state = .fresh)
    (hp : Passed (w.enter io desc₀) w.nextTask io desc cb vbufs w') (hrange : InRange w.dev desc)
    (hshape : Shape w.dev desc cb vbufs) : Chains (w'.leave io 0) := by
  have hnext := h.fresh _ (Nat.le_refl _)
  have hchains : Chains w' := by
    refine h.passed hp ?_ rfl rfl rfl rfl ?_ h.balanced ?_ hrange hshape ?_
    · show w.flights = _
      rw [Function.update_eq_self_iff.mpr hnext.symm]
    · exact fun i hi => Function.update_of_ne hi ..
    · refine fun x g hg => ⟨fun heq => ?_, ?_⟩
      · have hb := h.busy x g hg
        rw [heq, hf] at hb
        cases hb
      · rintro rfl
        rw [hnext] at hg
        cases hg
    · rw [h.unsent io hf]
      cases cb <;> simp [TaskCb.rank]
  exact ⟨hchains.fresh, hchains.live, hchains.balanced, hchains.busy, hchains.range,
    hchains.shape, hchains.one, hchains.owner, hchains.rank, hchains.sent, hchains.unsent⟩

theorem Chains.refused (h : Chains w) {io : Nat} {desc₀ desc : AsyncIoDesc}
    (hf : (w.ios io).state = .fresh) (hm : Mid (w.enter io desc₀) io desc w.live w') :
    Chains (w'.leave io (-1)) := by
  refine h.frame io hm.flights hm.live hm.nextTask (hm.balanced h.balanced) hm.dev hm.sent
    (fun i hi => ?_) (by rw [hf]; decide) ?_
  · show Function.update w'.ios io _ i = _
    rw [Function.update_of_ne hi, hm.ios i hi]
    exact Function.update_of_ne hi ..
  · show (Function.update w'.ios io _ io).state ≠ _ ∧ (Function.update w'.ios io _ io).state ≠ _
    simp

theorem Chains.collected (h : Chains w) (hb : Entries w) {io : Nat} {rest : List Nat}
    (hout : w.outring = io :: rest) : Chains (w.collectIo io rest) := by
  refine h.frame io rfl rfl (Nat.le_refl _) h.balanced rfl rfl
    (fun i hi => Function.update_of_ne hi ..) (fun hbusy => ?_) ?_
  · have hio := (hb.entry io).outring
    rw [hout, List.count_cons_self, hbusy] at hio
    cases hio
  · show (Function.update w.ios io _ io).state ≠ _ ∧ (Function.update w.ios io _ io).state ≠ _
    simp

theorem FirstWriteCommand.shape {d : AsyncIoDesc} {cb : TaskCb} {vbufs : List Buffer}
    (h : FirstWriteCommand dev d cb vbufs) (hd : InRange dev d) (htype : d.type = .write) :
    Shape dev d cb vbufs := by
  cases h with
  | head m hr => exact .write htype hr _ m rfl
  | body m hr hmid =>
      refine .write htype ?_ _ m rfl
      exact Nat.lt_of_lt_of_le (Nat.mul_pos hmid hd.ok.pos) (Nat.le_add_left ..)
  | tail m hbody =>
      refine .write htype (fun heq => ?_) _ m rfl
      have := hd.pos
      omega

/-- What every step preserves. -/
structure Sound (dev : VirtioDev) (w : World) : Prop where
  dev : w.dev = dev
  chains : Chains w
  books : Books w

/-- What every step preserves, however many requests are submitted. -/
structure Linked (dev : VirtioDev) (w : World) : Prop where
  dev : w.dev = dev
  chains : Chains w
  entries : Entries w

theorem Sound.linked (h : Sound dev w) : Linked dev w := ⟨h.dev, h.chains, h.books.toEntries⟩

theorem Linked.step (h : Linked dev w) {e : Event} (ht : Transition w e w') : Linked dev w' := by
  obtain ⟨hdev, hc, hb⟩ := h
  cases ht with
  | refused io desc outcomes w₁ hf hd href =>
      obtain ⟨⟨desc', hm⟩, -⟩ := href
      exact ⟨hm.dev.trans hdev, hc.refused hf hm, hb.refused hf hm⟩
  | accepted io desc outcomes w₁ hf hd hacc =>
      cases hacc with
      | read vbufs hbufs htype hp =>
          rw [enter_own] at htype hp hbufs
          exact ⟨hp.dev.trans hdev, hc.started hf hp hd (.read rfl htype hbufs), hb.started hf hp⟩
      | write cb vbufs hfirst htype hp =>
          rw [enter_own] at htype hp hfirst
          exact ⟨hp.dev.trans hdev, hc.started hf hp (hd.retval _)
            ((hfirst.shape hd htype).congr (.retval _ _)), hb.started hf hp⟩
  | executed t f a w' hf hans he =>
      exact ⟨he.frame.dev.trans hdev, hc.executed hf he, hb.executed he⟩
  | reaped t f outcomes w' hf hans hr =>
      exact ⟨hr.outside.dev.trans hdev, hc.reaped hf hr, hb.reaped (hc.busy t f hf) hr⟩
  | collected io rest hout => exact ⟨hdev, hc.collected hb hout, hb.collected hout⟩
  | watermark n =>
      exact ⟨hdev, ⟨hc.fresh, hc.live, hc.balanced, hc.busy, hc.range, hc.shape, hc.one, hc.owner,
        hc.rank, hc.sent, hc.unsent⟩, ⟨fun i => (hb.entry i).frame rfl rfl rfl rfl⟩⟩

theorem Transition.uncollected_le {e : Event} (ht : Transition w e w') (hadm : Admitted w e)
    (hroom : w.uncollected.length ≤ outringCapacity) : w'.uncollected.length ≤ outringCapacity := by
  cases ht with
  | refused io desc outcomes w₁ hf hd href =>
      obtain ⟨⟨desc', hm⟩, -⟩ := href
      show w₁.uncollected.length ≤ _
      rw [hm.uncollected]
      exact hroom
  | accepted io desc outcomes w₁ hf hd hacc =>
      have hlen : w₁.uncollected = w.uncollected := by
        cases hacc with
        | read vbufs hbufs htype hp => exact hp.uncollected
        | write cb vbufs hfirst htype hp => exact hp.uncollected
      show (w₁.uncollected ++ [io]).length ≤ _
      rw [hlen, List.length_append]
      exact hadm.2.2
  | executed t f a w' hf hans he =>
      rw [he.frame.uncollected]
      exact hroom
  | reaped t f outcomes w' hf hans hr =>
      rw [hr.outside.uncollected]
      exact hroom
  | collected io rest hout => exact Nat.le_trans (List.length_erase_le ..) hroom
  | watermark n => exact hroom

theorem Sound.step (h : Sound dev w) {e : Event} (hadm : Admitted w e) (ht : Transition w e w') :
    Sound dev w' := by
  obtain ⟨hdev, hc, hb⟩ := h.linked.step ht
  exact ⟨hdev, hc, hb, ht.uncollected_le hadm h.books.room⟩

/-! ## Every run -/

def AdmittedStep : Except Fault World → Event → Prop
  | .ok w, e => Admitted w e
  | .error _, _ => True

/-- All requests are in range, however many there are. -/
def RangedStep : Except Fault World → Event → Prop
  | .ok w, e => Ranged w e
  | .error _, _ => True

instance (w : World) (e : Event) : Decidable (Ranged w e) :=
  match e with
  | .submit _ _ _ => inferInstanceAs (Decidable (_ ∧ _))
  | .exec _ _ => .isTrue trivial
  | .reap _ _ => .isTrue trivial
  | .collect => .isTrue trivial
  | .watermark _ => .isTrue trivial

instance (s : Except Fault World) (e : Event) : Decidable (RangedStep s e) :=
  match s with
  | .ok w => inferInstanceAs (Decidable (Ranged w e))
  | .error _ => inferInstanceAs (Decidable True)

instance (w : World) (e : Event) : Decidable (Admitted w e) :=
  match e with
  | .submit _ _ _ => inferInstanceAs (Decidable (_ ∧ _ ∧ _))
  | .exec _ _ => .isTrue trivial
  | .reap _ _ => .isTrue trivial
  | .collect => .isTrue trivial
  | .watermark _ => .isTrue trivial

instance (s : Except Fault World) (e : Event) : Decidable (AdmittedStep s e) :=
  match s with
  | .ok w => inferInstanceAs (Decidable (Admitted w e))
  | .error _ => inferInstanceAs (Decidable True)

theorem Sound.init (dev : VirtioDev) (disk : Bytes) : Sound dev (init dev disk) := by
  refine ⟨rfl, ?_, ⟨⟨fun _ => ⟨rfl, rfl, rfl, rfl⟩⟩, Nat.zero_le _⟩⟩
  refine ⟨fun _ _ => rfl, fun _ => rfl, fun t => ?_, ?_, ?_, ?_, ?_, ?_, ?_, fun _ => Nat.zero_le _,
    fun _ _ => rfl⟩
  · show 0 + false.toNat = (decide (t < 0)).toNat
    simp
  · exact fun t f hf => nomatch hf
  · exact fun t f hf => nomatch hf
  · exact fun t f hf => nomatch hf
  · exact fun t f t' f' hf => nomatch hf
  · exact fun io hi => nomatch hi
  · exact fun t f hf => nomatch hf

/-- A step of a request in range goes on without a fault, or the output ring is too small. -/
theorem Linked.next (h : Linked dev w) (hg : dev.Geometry) {e : Event} {s : Except Fault World}
    (hok : RangedStep (.ok w) e) (hs : Dev.step (.ok w) e = some s) :
    (∃ w', s = .ok w' ∧ Transition w e w') ∨ ∃ f, s = .error f := by
  have hends : (∃ w', s = .ok w' ∧ Transition w e w') ∨ True ∧ ∃ f, s = .error f :=
    step_ends h.chains (fun hx => absurd trivial hx) (h.dev ▸ hg) hok hs
  exact hends.imp_right And.right

theorem Linked.run (hg : dev.Geometry) {es : List Event} {s : Except Fault World}
    (hrun : (machine dev disk).Path RangedStep (machine dev disk).init es s) :
    ∀ w, s = .ok w → Linked dev w := by
  refine hrun.invariant (I := fun s => ∀ w, s = .ok w → Linked dev w) (fun s e s' hs hok hstep => ?_) ?_
  · cases s with
    | error f => cases hstep
    | ok w =>
        have h := hs w rfl
        obtain ⟨w₁, rfl, ht⟩ | ⟨f, rfl⟩ := h.next hg hok hstep
        · intro w' hw'
          cases hw'
          exact h.step ht
        · exact fun w' hw' => nomatch hw'
  · intro w hw
    cases hw
    exact (Sound.init dev disk).linked

/-- Every run stays without a fault, and every state it reaches is sound. -/
theorem Sound.run (hg : dev.Geometry) {es : List Event} {s : Except Fault World}
    (h : (machine dev disk).Path AdmittedStep (machine dev disk).init es s) :
    ∃ w, s = .ok w ∧ Sound dev w := by
  refine h.invariant (I := fun s => ∃ w, s = .ok w ∧ Sound dev w) ?_ ⟨_, rfl, .init dev disk⟩
  rintro s e s' ⟨w, rfl, hw⟩ hadm hstep
  obtain ⟨w', rfl, ht⟩ := step_cases hw.chains hw.books (hw.dev ▸ hg) hadm hstep
  exact ⟨w', rfl, hw.step hadm ht⟩

end VhostUser.Dev
