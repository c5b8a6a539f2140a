import VhostUser.Dev.SyncTasks
import VhostUser.Handle.Account

/-! # All calls of a process

A process opens devices, reads and writes through the handles it got, and closes them. What
every call of `open_virtio_dev` has leaked stays, whatever is called afterwards; everything
else that a handle stands for is gone when it is closed, and so are the tasks of its I/O.
-/

namespace VhostUser.Handle

open VhostUser.Lib Ledger Prog

variable {s : Surroundings} {held leak : Multiset Resource} {dev : VirtioDev} {p p' : Process}

/-- Every task of the device's I/O was destroyed exactly once. -/
def IoReleased (w : Dev.World) : Prop :=
  (∀ t, w.live t = false) ∧ ∀ t < w.nextTask, w.destroyed t = 1

/-- No handle is left, and all I/O of the handles was collected before they were closed. A
process that has crashed has no handles. -/
def AllClosed (q : Except Crash Process) : Prop :=
  ∀ p, q = .ok p → (∀ k, p.handles k = none) ∧ ∀ w ∈ p.closed, w.uncollected = []

/-- Everything that was acquired since the start has been released, and exactly once. -/
def AllReleased (q : Except Crash Process) : Prop :=
  ∃ p, q = .ok p ∧ (∀ k, p.held k = 0) ∧ ∀ w ∈ p.closed, IoReleased w

/-! ## The leaks -/

def opensOf (es : List Event) : List Surroundings :=
  es.filterMap fun
    | .openDev s _ => some s
    | _ => none

/-- Of what the calls have acquired exactly their leaks are left. -/
structure OnlyLeaksLeft (calls : List Surroundings) (held : Nat → Multiset Resource) : Prop where
  call : ∀ (k : Nat) (s : Surroundings), calls[k]? = some s → s.Leaks (held k)
  rest : ∀ k, calls.length ≤ k → held k = 0

/-- Beside its leak a call holds what its handle stands for. -/
def HoldsLeak (s : Surroundings) (x : Option DevHandle) (held : Multiset Resource) : Prop :=
  ∃ leak, s.Leaks leak ∧ HeldBeyond leak (x.map (·.dev)) held

/-- The ledgers of all calls. -/
structure Accounts (calls : List Surroundings) (p : Process) : Prop where
  opens : p.opens = calls.length
  call : ∀ (k : Nat) (s : Surroundings), calls[k]? = some s → HoldsLeak s (p.handles k) (p.held k)
  rest : ∀ k, p.opens ≤ k → p.handles k = none ∧ p.held k = 0

theorem HoldsLeak.released (h : HoldsLeak s none held) : s.Leaks held := by
  obtain ⟨leak, hleak, hheld, -⟩ := h
  rw [show held = leak from hheld.trans (Multiset.zero_add leak)]
  exact hleak

theorem Accounts.onlyLeaksLeft {calls : List Surroundings} (h : Accounts calls p)
    (hnone : ∀ k, p.handles k = none) : OnlyLeaksLeft calls p.held := by
  refine ⟨fun k s hk => ?_, fun k hk => (h.rest k (h.opens ▸ hk)).2⟩
  have hcall := h.call k s hk
  rw [hnone k] at hcall
  exact hcall.released

namespace Accounts

variable {calls : List Surroundings}

theorem same (h : Accounts calls p) (hopens : p'.opens = p.opens) (hheld : p'.held = p.held)
    (hdev : ∀ k, (p'.handles k).map (·.dev) = (p.handles k).map (·.dev)) : Accounts calls p' := by
  refine ⟨hopens.trans h.opens, fun k s hk => ?_, fun k hk => ?_⟩
  · obtain ⟨leak, hleak, hbeyond⟩ := h.call k s hk
    refine ⟨leak, hleak, ?_⟩
    rw [hdev, hheld]
    exact hbeyond
  · obtain ⟨hnone, hzero⟩ := h.rest k (hopens ▸ hk)
    have hk' := hdev k
    rw [hnone] at hk'
    exact ⟨Option.map_eq_none_iff.mp hk', hheld ▸ hzero⟩

theorem afterIo (h : Accounts calls p) {k : Nat} {x : DevHandle} {res : Except Dev.Fault Dev.World}
    (hx : p.handles k = some x) (hok : p.afterIo k x res = .ok p') : Accounts calls p' := by
  cases res with
  | error e => cases hok
  | ok world =>
      cases hok
      refine h.same rfl rfl fun i => ?_
      by_cases hi : i = k
      · rw [hi, Process.setHandle_handles, Function.update_self, hx]
        rfl
      · rw [Process.setHandle_handles, Function.update_of_ne hi]

theorem opened (h : Accounts calls p) {disk : Bytes} {res : Option VirtioDev} {os : List Empty}
    (hrun : openVirtioDev s (0, []) = .ok (res, held, os)) :
    Accounts (calls ++ [s]) (p.opened disk res held) := by
  obtain ⟨leak, hbeyond⟩ : ∃ leak, HeldBeyond leak res held := by
    rcases openVirtioDev_ends s with ⟨res', held', os', hrun', hres⟩ | ⟨-, e, hrun'⟩
    · rw [hrun] at hrun'
      cases hrun'
      exact hres.beyond
    · rw [hrun] at hrun'
      cases hrun'
  constructor
  · show p.opens + 1 = _
    rw [h.opens, List.length_append, List.length_singleton]
  · intro k s' hk
    rw [Process.opened_handles, Process.opened_held]
    by_cases hlt : k < calls.length
    · have hne : k ≠ p.opens := by
        rw [h.opens]
        exact Nat.ne_of_lt hlt
      rw [Function.update_of_ne hne, Function.update_of_ne hne]
      rw [List.getElem?_append_left hlt] at hk
      exact h.call k s' hk
    · have hlast : k = p.opens ∧ s = s' := by
        rw [List.getElem?_append_right (Nat.le_of_not_lt hlt)] at hk
        obtain ⟨hzero, hs⟩ := List.getElem?_eq_some_iff.mp hk
        rw [List.length_singleton] at hzero
        refine ⟨by rw [h.opens]; omega, ?_⟩
        simpa using hs
      obtain ⟨rfl, rfl⟩ := hlast
      refine ⟨leak, ⟨res, held, os, hrun, hbeyond⟩, ?_⟩
      rw [Function.update_self, Function.update_self, Option.map_map]
      cases res <;> exact hbeyond
  · intro k hk
    have hne : k ≠ p.opens := Nat.ne_of_gt hk
    rw [Process.opened_handles, Process.opened_held, Function.update_of_ne hne,
      Function.update_of_ne hne]
    exact h.rest k (Nat.le_of_succ_le hk)

theorem closed (h : Accounts calls p) {k : Nat} {x : DevHandle}
    {res : Unit × Multiset Resource × List Empty}
    (hx : p.handles k = some x) (hclose : closeVirtioDev s x.dev (p.held k, []) = .ok res) :
    Accounts calls (p.close k x.world res.2.1) := by
  have hlt : k < calls.length := by
    by_contra hge
    rw [(h.rest k (h.opens ▸ Nat.le_of_not_lt hge)).1] at hx
    cases hx
  obtain ⟨leak, hleak, hbeyond⟩ := h.call k _ (List.getElem?_eq_getElem hlt)
  rw [hx] at hbeyond
  obtain ⟨os, hrun⟩ := closeVirtioDev_leaves (s := s) (hbeyond.2 x.dev rfl) hbeyond.1
  rw [hrun] at hclose
  cases hclose
  refine ⟨h.opens, fun i s' hi => ?_, fun i hi => ?_⟩
  · rw [Process.close_handles, Process.close_held]
    by_cases hik : i = k
    · subst hik
      rw [List.getElem?_eq_getElem hlt] at hi
      cases hi
      rw [Function.update_self, Function.update_self]
      exact ⟨leak, hleak, (Multiset.zero_add leak).symm, nofun⟩
    · rw [Function.update_of_ne hik, Function.update_of_ne hik]
      exact h.call i s' hi
  · have hik : i ≠ k := by
      rintro rfl
      exact absurd hlt (Nat.not_lt.mpr (h.opens ▸ hi))
    rw [Process.close_handles, Process.close_held, Function.update_of_ne hik,
      Function.update_of_ne hik]
    exact h.rest i hi

theorem step (h : Accounts calls p) {e : Event} (hstep : p.step e = some (.ok p')) :
    Accounts (calls ++ opensOf [e]) p' := by
  cases e with
  | openDev s disk =>
      cases hrun : openVirtioDev s (0, []) with
      | error e =>
          simp only [Process.step, hrun] at hstep
          cases hstep
      | ok res =>
          simp only [Process.step, hrun] at hstep
          cases hstep
          exact h.opened hrun
  | async k e =>
      simp only [Process.step, Option.bind_eq_bind, Option.bind_eq_some_iff] at hstep
      obtain ⟨x, hx, res, -, hres⟩ := hstep
      rw [show opensOf [Event.async k e] = [] from rfl, List.append_nil]
      exact h.afterIo hx (Option.some.inj hres)
  | sync k isWrite device io offset nbytes outcomes =>
      simp only [Process.step, Option.bind_eq_bind, Option.bind_eq_some_iff] at hstep
      obtain ⟨x, hx, hres⟩ := hstep
      rw [show opensOf [Event.sync k isWrite device io offset nbytes outcomes] = [] from rfl,
        List.append_nil]
      exact h.afterIo hx (Option.some.inj hres)
  | closeDev k s =>
      simp only [Process.step, Option.bind_eq_bind, Option.bind_eq_some_iff] at hstep
      obtain ⟨x, hx, hres⟩ := hstep
      rw [show opensOf [Event.closeDev k s] = [] from rfl, List.append_nil]
      cases hclose : closeVirtioDev s x.dev (p.held k, []) with
      | error e =>
          rw [hclose] at hres
          cases hres
      | ok res =>
          rw [hclose] at hres
          cases hres
          exact h.closed hx hclose

theorem init : Accounts [] .init := ⟨rfl, nofun, fun _ _ => ⟨rfl, rfl⟩⟩

theorem run {es : List Event} {q : Except Crash Process}
    (hrun : machine.Path (fun _ _ => True) machine.init es q) :
    ∀ p, q = .ok p → Accounts (opensOf es) p := by
  refine Machine.Path.history (I := fun es q => ∀ p, q = .ok p → Accounts (opensOf es) p) ?_
    (.nil _) hrun ?_
  · intro as q e q' _ hq _ hstep p' hp'
    subst hp'
    cases q with
    | error c => cases hstep
    | ok p =>
        rw [show opensOf (as ++ [e]) = opensOf as ++ opensOf [e] from List.filterMap_append ..]
        exact (hq p rfl).step hstep
  · intro p hp
    cases hp
    exact init

end Accounts

/-! ## Runs of clean calls -/

/-- Only clean calls were made. -/
def Untouched (q : Except Crash Process) : Prop :=
  ∃ p, q = .ok p ∧ (∀ k, p.held k = 0) ∧ (∀ k, p.handles k = none) ∧ p.closed = []

theorem Untouched.allReleased {q : Except Crash Process} (h : Untouched q) : AllReleased q := by
  obtain ⟨p, hq, hheld, -, hclosed⟩ := h
  refine ⟨p, hq, hheld, fun w hw => ?_⟩
  rw [hclosed] at hw
  cases hw

theorem Untouched.step {q q' : Except Crash Process} {e : Event} (h : Untouched q)
    (hclean : ∀ s disk, e = .openDev s disk → s.Clean) (hstep : step q e = some q') :
    Untouched q' := by
  obtain ⟨p, rfl, hheld, hhandles, hclosed⟩ := h
  change p.step e = some q' at hstep
  cases e with
  | openDev s disk =>
      have hs := hclean s disk rfl
      rcases openVirtioDev_ends s with ⟨res, held, os, hrun, hres, -⟩ | ⟨hdirty, -⟩
      · obtain ⟨rfl, rfl⟩ := hres hs
        simp only [Process.step, hrun, Option.some.injEq] at hstep
        refine ⟨_, hstep.symm, fun k => ?_, fun k => ?_, hclosed⟩
        · by_cases hk : k = p.opens
          · subst hk
            exact Function.update_self ..
          · exact (Function.update_of_ne hk ..).trans (hheld k)
        · by_cases hk : k = p.opens
          · subst hk
            exact Function.update_self ..
          · exact (Function.update_of_ne hk ..).trans (hhandles k)
      · exact absurd hs hdirty
  | async k e =>
      simp only [Process.step, hhandles k] at hstep
      cases hstep
  | sync k isWrite device io offset nbytes outcomes =>
      simp only [Process.step, hhandles k] at hstep
      cases hstep
  | closeDev k s =>
      simp only [Process.step, hhandles k] at hstep
      cases hstep

theorem init_untouched : Untouched machine.init := ⟨.init, rfl, fun _ => rfl, fun _ => rfl, rfl⟩

/-! ## The I/O of the handles -/

/-- Asynchronous requests are made within the device, and its block size is not negative. -/
def InRangeStep : Except Crash Process → Event → Prop
  | .ok p, .async k e => ∀ x ∈ p.handles k, x.dev.geometry.Geometry ∧ Dev.Ranged x.world e
  | _, _ => True

instance (dev : Dev.VirtioDev) : Decidable dev.Geometry :=
  decidable_of_iff (dev.blockSize < 2 ^ 31 ∧ dev.numBlocks < 2 ^ 64 ∧
    dev.cap = dev.blockSize * dev.numBlocks % 2 ^ 64)
    ⟨fun h => ⟨h.1, h.2.1, h.2.2⟩, fun h => ⟨h.int, h.size, h.cap⟩⟩

instance (q : Except Crash Process) (e : Event) : Decidable (InRangeStep q e) :=
  match q, e with
  | .ok p, .async k e =>
      inferInstanceAs (Decidable (∀ x ∈ p.handles k, x.dev.geometry.Geometry ∧ Dev.Ranged x.world e))
  | .ok _, .openDev _ _ => .isTrue trivial
  | .ok _, .sync _ _ _ _ _ _ _ => .isTrue trivial
  | .ok _, .closeDev _ _ => .isTrue trivial
  | .error _, _ => .isTrue trivial

/-- Tasks and descriptors of every device belong together. -/
structure Devices (p : Process) : Prop where
  opened : ∀ k x, p.handles k = some x → Dev.Linked x.dev.geometry x.world
  closed : ∀ w ∈ p.closed, ∃ dev, Dev.Linked dev w

theorem ioReleased {dev : Dev.VirtioDev} {w : Dev.World} (h : Dev.Linked dev w)
    (hcollected : w.uncollected = []) : IoReleased w := by
  have hflights : ∀ t, w.flights t = none := fun t => by
    cases hf : w.flights t with
    | none => rfl
    | some f =>
        have hentry := (h.entries.entry f.io).uncollected
        rw [hcollected, h.chains.busy t f hf] at hentry
        cases hentry
  have hlive : ∀ t, w.live t = false := fun t => by
    rw [h.chains.live, hflights]
    rfl
  refine ⟨hlive, fun t ht => ?_⟩
  have hbalanced := h.chains.balanced t
  rw [hlive, decide_eq_true ht] at hbalanced
  exact hbalanced

namespace Devices

theorem afterIo (h : Devices p) {k : Nat} {x : DevHandle} {res : Except Dev.Fault Dev.World}
    (hok : p.afterIo k x res = .ok p')
    (hres : ∀ w, res = .ok w → Dev.Linked x.dev.geometry w) : Devices p' := by
  cases res with
  | error e => cases hok
  | ok world =>
      cases hok
      refine ⟨fun i y hy => ?_, h.closed⟩
      rw [Process.setHandle_handles] at hy
      by_cases hi : i = k
      · rw [hi, Function.update_self] at hy
        cases hy
        exact hres world rfl
      · rw [Function.update_of_ne hi] at hy
        exact h.opened i y hy

theorem step (h : Devices p) {e : Event} (hok : InRangeStep (.ok p) e)
    (hstep : p.step e = some (.ok p')) : Devices p' := by
  cases e with
  | openDev s disk =>
      cases hrun : openVirtioDev s (0, []) with
      | error e =>
          simp only [Process.step, hrun] at hstep
          cases hstep
      | ok res =>
          simp only [Process.step, hrun] at hstep
          cases hstep
          refine ⟨fun i y hy => ?_, h.closed⟩
          rw [Process.opened_handles] at hy
          by_cases hi : i = p.opens
          · rw [hi, Function.update_self] at hy
            obtain ⟨dev, -, rfl⟩ := Option.map_eq_some_iff.mp hy
            exact (Dev.Sound.init dev.geometry disk).linked
          · rw [Function.update_of_ne hi] at hy
            exact h.opened i y hy
  | async k e =>
      simp only [Process.step, Option.bind_eq_bind, Option.bind_eq_some_iff] at hstep
      obtain ⟨x, hx, res, hdev, hres⟩ := hstep
      obtain ⟨hg, hrange⟩ := hok x hx
      have hx' := h.opened k x hx
      refine h.afterIo (Option.some.inj hres) fun w hw => ?_
      subst hw
      rcases hx'.next hg hrange hdev with ⟨w', hw', ht⟩ | ⟨e, he⟩
      · cases hw'
        exact hx'.step ht
      · cases he
  | sync k isWrite device io offset nbytes outcomes =>
      simp only [Process.step, Option.bind_eq_bind, Option.bind_eq_some_iff] at hstep
      obtain ⟨x, hx, hres⟩ := hstep
      have hx' := h.opened k x hx
      refine h.afterIo (Option.some.inj hres) fun w hw => ?_
      cases isWrite with
      | true =>
          cases hcall : Dev.writeVirtioDev device io offset nbytes (x.world, outcomes) with
          | error e =>
              rw [if_pos rfl, hcall] at hw
              cases hw
          | ok r =>
              rw [if_pos rfl, hcall] at hw
              cases hw
              exact hx'.called ((Dev.tidy_write offset nbytes).run _ _ _ hcall hx'.chains.balanced)
      | false =>
          cases hcall : Dev.readVirtioDev device io offset nbytes (x.world, outcomes) with
          | error e =>
              rw [if_neg Bool.false_ne_true, hcall] at hw
              cases hw
          | ok r =>
              rw [if_neg Bool.false_ne_true, hcall] at hw
              cases hw
              exact hx'.called ((Dev.tidy_read offset nbytes).run _ _ _ hcall hx'.chains.balanced)
  | closeDev k s =>
      simp only [Process.step, Option.bind_eq_bind, Option.bind_eq_some_iff] at hstep
      obtain ⟨x, hx, hres⟩ := hstep
      cases hclose : closeVirtioDev s x.dev (p.held k, []) with
      | error e =>
          rw [hclose] at hres
          cases hres
      | ok res =>
          rw [hclose] at hres
          cases hres
          refine ⟨fun i y hy => ?_, fun w hw => ?_⟩
          · rw [Process.close_handles] at hy
            by_cases hi : i = k
            · rw [hi, Function.update_self] at hy
              cases hy
            · rw [Function.update_of_ne hi] at hy
              exact h.opened i y hy
          · rcases List.mem_cons.mp hw with rfl | hw
            · exact ⟨_, h.opened k x hx⟩
            · exact h.closed w hw

theorem run {es : List Event} {q : Except Crash Process}
    (hrun : machine.Path InRangeStep machine.init es q) : ∀ p, q = .ok p → Devices p := by
  refine hrun.invariant (I := fun q => ∀ p, q = .ok p → Devices p) (fun q e q' hq hok hstep => ?_) ?_
  · intro p' hp'
    subst hp'
    cases q with
    | error c => cases hstep
    | ok p => exact (hq p rfl).step hok hstep
  · intro p hp
    cases hp
    exact ⟨nofun, nofun⟩

end Devices

/-! ## Everything that was acquired -/

/-- In a run of any calls that ends with every handle closed, everything was released exactly
once if and only if every call of `open_virtio_dev` was clean. None of these returns a handle.
What the calls have leaked is all that is left beside the tasks of the I/O, and of these none is
left if every request was in range. -/
theorem handles_released_iff {es : List Event} {q : Except Crash Process}
    (hrun : machine.Path (fun _ _ => True) machine.init es q) (hclosed : AllClosed q) :
    (AllReleased q ↔ ∀ s disk, Event.openDev s disk ∈ es → s.Clean) ∧
      (∀ p, q = .ok p → OnlyLeaksLeft (opensOf es) p.held) ∧
      (machine.Path InRangeStep machine.init es q → ∀ p, q = .ok p → ∀ w ∈ p.closed, IoReleased w) := by
  have hleft : ∀ p, q = .ok p → OnlyLeaksLeft (opensOf es) p.held := fun p hp =>
    (Accounts.run hrun p hp).onlyLeaksLeft (hclosed p hp).1
  refine ⟨⟨?_, ?_⟩, hleft, ?_⟩
  · rintro ⟨p, hp, hheld, -⟩ s disk hmem
    have hopen : s ∈ opensOf es := List.mem_filterMap.mpr ⟨_, hmem, rfl⟩
    obtain ⟨k, hk⟩ := List.mem_iff_getElem?.mp hopen
    exact ((hleft p hp).call k s hk).clean_iff.mpr (hheld k)
  · intro hclean
    have hclean' := hrun.and_events (Q := fun e => ∀ s disk, e = .openDev s disk → s.Clean)
      fun e he s disk heq => hclean s disk (heq ▸ he)
    exact (hclean'.invariant (I := Untouched) (fun _ _ _ h hok => h.step hok.2)
      init_untouched).allReleased
  · intro hrange p hp w hw
    obtain ⟨dev, hlinked⟩ := (Devices.run hrange p hp).closed w hw
    exact ioReleased hlinked ((hclosed p hp).2 w hw)

/-- The device answers the inquiry with an error, and everything else succeeds. -/
def inquiryRefused : Surroundings := ⟨fun step => step ≠ .respGood .inquiry, 1, 5, false, fun _ => 0⟩

theorem inquiryRefused_clean : inquiryRefused.Clean := by
  refine Or.inr (Or.inr ⟨by decide, by decide, Or.inr (Or.inr (Or.inr ⟨by decide, ?_⟩))⟩)
  exact Or.inr (Or.inr ⟨by decide, Or.inr (Or.inr ⟨by decide, Or.inr ⟨by decide, by decide⟩⟩)⟩)

theorem step_openDev_clean {p : Process} {disk : Bytes} (h : s.Clean) :
    machine.step (.ok p) (.openDev s disk) = some (.ok (p.opened disk none 0)) := by
  show p.step (.openDev s disk) = _
  rcases openVirtioDev_ends s with ⟨res, held, os, hrun, hres, -⟩ | ⟨hdirty, -⟩
  · obtain ⟨rfl, rfl⟩ := hres h
    simp only [Process.step, hrun]
  · exact absurd h hdirty

def smallDisk : Surroundings := { allGood with payload := fourBlocks }

def oneBlock : Dev.Device := fun _ _ => .done 512 (fun _ => 0) 620

/-- A handle is used for an asynchronous write and for a read, and closed. -/
def writeAndRead : List Event :=
  [.openDev smallDisk fun _ => 0, .async 0 (.submit 0 (Dev.writeDesc 512 512 fun _ => 7) []),
    .async 0 (.exec 0 Dev.allDone), .async 0 (.reap 0 []), .async 0 .collect,
    .sync 0 false oneBlock 1 100 600 [], .closeDev 0 smallDisk]

theorem writeAndRead_runs : (machine.execIf (fun q e => decide (InRangeStep q e)) machine.init
    writeAndRead).any (fun q => q.toOption.any fun p => decide (p.opens = 1 ∧
      (p.handles 0).isNone ∧ p.held 0 ≠ 0 ∧
        p.closed.map (·.uncollected) = [[]] ∧ p.closed.map (·.nextTask) = [3])) = true := by
  decide +kernel

theorem handles_released_iff_closed :
    (AllReleased (.ok (Process.init.opened (fun _ => 0) none 0)) ↔
      ∀ s disk, Event.openDev s disk ∈ [Event.openDev inquiryRefused fun _ => 0] → s.Clean) ∧
    ∃ p, machine.Path InRangeStep machine.init writeAndRead (.ok p) ∧ ¬ AllReleased (.ok p) ∧
      p.held 0 ≠ 0 ∧ smallDisk.Leaks (p.held 0) ∧ p.closed.map (·.nextTask) = [3] ∧
      ∀ w ∈ p.closed, IoReleased w := by
  constructor
  · refine (handles_released_iff (.cons trivial (step_openDev_clean inquiryRefused_clean) (.nil _)) ?_).1
    intro p hp
    cases hp
    refine ⟨fun k => ?_, fun _ h => nomatch h⟩
    rw [Process.opened_handles, Option.map_none]
    exact congrFun (Function.update_eq_self (f := fun _ : Nat => (none : Option DevHandle)) 0) k
  · obtain ⟨p, hrun, hopens, hnone, hheld, hcollected, htasks⟩ :
        ∃ p, machine.Path InRangeStep machine.init writeAndRead (.ok p) ∧ _ :=
      Machine.Path.of_check_ok writeAndRead_runs
    have hany : machine.Path (fun _ _ => True) machine.init writeAndRead (.ok p) :=
      hrun.mono fun _ _ _ => trivial
    have hclosed : AllClosed (.ok p) := by
      intro p' hp
      cases hp
      refine ⟨fun k => ?_, fun w hw => ?_⟩
      · cases k with
        | zero => exact Option.isNone_iff_eq_none.mp hnone
        | succ k => exact ((Accounts.run hany p rfl).rest (k + 1) (by omega)).1
      · have hmem := List.mem_map_of_mem (f := (·.uncollected)) hw
        rw [hcollected] at hmem
        exact List.mem_singleton.mp hmem
    obtain ⟨hiff, hleft, hio⟩ := handles_released_iff hany hclosed
    have hleak := (hleft p rfl).call 0 smallDisk rfl
    refine ⟨p, hrun, fun hreleased => hheld ?_, hheld, hleak, htasks, hio hrun p rfl⟩
    exact hleak.clean_iff.mp (hiff.mp hreleased smallDisk _ (List.mem_cons_self ..))

theorem step_closeDev {p : Process} {k : Nat} {x : DevHandle} {os : List Empty}
    (hx : p.handles k = some x) (hclose : closeVirtioDev s x.dev (p.held k, []) = .ok ((), leak, os)) :
    machine.step (.ok p) (.closeDev k s) = some (.ok (p.close k x.world leak)) := by
  show p.step (.closeDev k s) = _
  simp only [Process.step, hx, Option.bind_eq_bind, Option.bind_some, hclose]
  rfl

/-- A device is opened and closed, and its probe tasks are still there. -/
theorem probe_tasks_leaked : ¬ ∀ es q, machine.Path (fun _ _ => True) machine.init es q →
    AllClosed q → AllReleased q := by
  intro h
  obtain ⟨dev, leak, os, hleak, hcomplete, hopen⟩ := allGood_leaks
  obtain ⟨os', hclose⟩ := closeVirtioDev_leaves (s := allGood) hcomplete rfl
  let disk : Bytes := fun _ => 0
  let opened := Process.init.opened disk (some dev) (dev.closing + leak)
  have hopened : machine.step (.ok .init) (.openDev allGood disk) = some (.ok opened) := by
    show Process.init.step (.openDev allGood disk) = _
    simp only [Process.step, hopen]
    rfl
  have hx : opened.handles 0 = some ⟨dev, Dev.init dev.geometry disk⟩ := rfl
  have hclosed : machine.step (.ok opened) (.closeDev 0 allGood) =
      some (.ok (opened.close 0 (Dev.init dev.geometry disk) leak)) := step_closeDev hx hclose
  have hall : AllClosed (.ok (opened.close 0 (Dev.init dev.geometry disk) leak)) := by
    intro p hp
    cases hp
    refine ⟨fun k => ?_, fun w hw => ?_⟩
    · by_cases hk : k = 0
      · subst hk
        rfl
      · rw [Process.close_handles, Function.update_of_ne hk, Process.opened_handles]
        exact Function.update_of_ne hk ..
    · obtain rfl := List.mem_singleton.mp hw
      rfl
  obtain ⟨p, hp, hheld, -⟩ := h _ _ (.cons trivial hopened (.cons trivial hclosed (.nil _))) hall
  cases hp
  exact hleak (hheld 0)

end VhostUser.Handle
