import VhostUser.Lib.Simulation
import VhostUser.Lib.TaskQueue
import VhostUser.Ring.Atomic
import VhostUser.Ring.Publication

/-! # The vring is a queue of tasks

The abstraction of a ring forgets descriptors, indices and slots and keeps the tasks with
their buffers. A put takes effect when `avail->idx` passes its position, and
`vring_get_task` when it finds that the used ring is not empty; every other access of
producers and poller only prepares a step of the queue or finishes one.

The walk of `vring_get_task` gives the slots of its task back one by one, and a producer may
take them at once. The queue is rid of the task before, so that it never holds more buffers
than the ring has descriptors.
-/

namespace VhostUser.Ring

open VhostUser.Lib

variable {s s' : Sys} {c : Nat}

/-- A put as the queue sees it: the call, its task and the buffers of the task. -/
structure Item where
  call : Nat
  task : TaskPtr
  vbufs : List Buffer
  deriving Repr, DecidableEq

def Item.size (x : Item) : Nat := x.vbufs.length

namespace Sys

def item (s : Sys) (c : Nat) : Item :=
  ⟨c, (s.calls c).task, (s.mem.objs (s.calls c).task).vbufs⟩

/-- Whether `vring_get_task` is at work on a task that it has not returned. -/
def taking (s : Sys) : Nat :=
  match s.poller with
  | .idle => 0
  | .loadUsedIdx => 0
  | .ret _ => 0
  | .failed => 0
  | _ => 1

/-- The calls whose tasks are on their way to the device. -/
def unread (s : Sys) : List Nat := (s.log.take s.publ).drop s.fetched

/-- What the device has reported and the poller has not taken. -/
def reported (s : Sys) : List (Nat × Nat) := s.usedLog.drop (s.returned.length + s.taking)

def queue (s : Sys) : TaskQueue Item where
  avail := s.unread.map s.item
  device := s.pending.map fun p => s.item p.1
  used := s.reported.map fun e => (s.item e.1, e.2)

end Sys

/-- The queue that a vring is to be. -/
def taskQueue : Machine (TaskQueue Item) (TaskQueue.Event Item) :=
  TaskQueue.machine Item.size vhostVringSize

def shows (s : Sys) : Event → List (TaskQueue.Event Item)
  | .put c =>
      match (s.calls c).pc with
      | .casAvailIdx idx => if s.mem.vring.avail.idx = idx then [.put (s.item c)] else []
      | _ => []
  | .poll =>
      match s.poller with
      | .loadUsedIdx =>
          if s.mem.vring.lastUsedIdx &&& mask = s.mem.vring.used.idx &&& mask then [.empty]
          else
            match s.usedLog[s.returned.length]? with
            | some (c, len) => [.get (s.item c) len]
            | none => []
      | _ => []
  | .fetch => [.fetch (s.item (s.log.getD s.fetched 0))]
  | .complete k len =>
      match s.pending[k]? with
      | some (c, _) => [.complete (s.item c) len]
      | none => []
  | _ => []

/-! ## The tasks of the queue are alive -/

theorem mem_unread {c : Nat} (hc : c ∈ s.unread) :
    ∃ q, s.fetched ≤ q ∧ q < s.publ ∧ s.log[q]? = some c := by
  obtain ⟨k, hk⟩ := List.getElem?_of_mem hc
  rw [Sys.unread, List.getElem?_drop, List.getElem?_take] at hk
  split at hk
  · next hlt => exact ⟨s.fetched + k, Nat.le_add_right _ _, hlt, hk⟩
  · cases hk

theorem Inv.unread_stage (h : Inv s) (hc : c ∈ s.unread) : s.stage c = .avail := by
  obtain ⟨q, hge, -, hq⟩ := mem_unread hc
  exact h.log.stage_ge q c hq hge

theorem Inv.pending_stage (h : Inv s) {p : Nat × Nat} (hp : p ∈ s.pending) :
    s.stage p.1 = .device := (h.used.pending p.1 p.2 hp).1

theorem mem_reported {e : Nat × Nat} (he : e ∈ s.reported) :
    ∃ j, s.returned.length + s.taking ≤ j ∧ s.usedLog[j]? = some e := by
  obtain ⟨k, hk⟩ := List.getElem?_of_mem he
  rw [Sys.reported, List.getElem?_drop] at hk
  exact ⟨_, Nat.le_add_right _ _, hk⟩

/-- A task that the poller has not taken still has all its slots. -/
theorem Inv.reported_stage (h : Inv s) {e : Nat × Nat} (he : e ∈ s.reported) :
    s.stage e.1 = .used ∧ s.freed e.1 = 0 := by
  obtain ⟨j, hge, hj⟩ := mem_reported he
  refine ⟨h.used.stage_ge j e.1 e.2 hj (by omega), ?_⟩
  by_cases hun : Unread s.poller
  · exact h.current_fresh hun hj (by omega)
  · refine h.used.fresh j e.1 e.2 hj ?_
    have hone : s.taking = 1 := by
      have hp := h.poll
      cases hpc : s.poller <;> simp_all [Unread, Sys.taking, PollOk]
    omega

theorem Inv.queue_congr (h : Inv s) (hunread : s'.unread = s.unread)
    (hpending : s'.pending = s.pending) (hreported : s'.reported = s.reported)
    (hitem : ∀ c, s.Live c → s'.item c = s.item c) : s'.queue = s.queue := by
  simp only [Sys.queue, hunread, hpending, hreported, TaskQueue.mk.injEq]
  refine ⟨List.map_congr_left fun c hc => hitem c ?_, List.map_congr_left fun p hp => hitem p.1 ?_,
    List.map_congr_left fun e he => ?_⟩
  · have hst := h.unread_stage hc
    exact ⟨by simp [hst], by simp [hst]⟩
  · have hst := h.pending_stage hp
    exact ⟨by simp [hst], by simp [hst]⟩
  · obtain ⟨hst, -⟩ := h.reported_stage he
    rw [hitem e.1 ⟨by simp [hst], by simp [hst]⟩]

/-! ## The room in the ring -/

/-- The calls whose tasks are in the queue. -/
def Sys.queued (s : Sys) : List Nat := s.unread ++ s.pending.map (·.1) ++ s.reported.map (·.1)

theorem Inv.queued_held (h : Inv s) (hc : c ∈ s.queued) :
    (s.held c).length = (s.item c).size := by
  simp only [Sys.queued, List.mem_append, List.mem_map] at hc
  have hstage : s.stage c = .avail ∨ s.stage c = .device ∨ s.stage c = .used ∧ s.freed c = 0 := by
    rcases hc with (hc | ⟨p, hp, rfl⟩) | ⟨e, he, rfl⟩
    · exact Or.inl (h.unread_stage hc)
    · exact Or.inr (Or.inl (h.pending_stage hp))
    · exact Or.inr (Or.inr (h.reported_stage he))
  exact (h.held_length hstage).1

theorem Inv.queued_nodup (h : Inv s) : s.queued.Nodup := by
  have havail : s.unread.Nodup :=
    h.log.nodup.sublist ((List.drop_sublist _ _).trans (List.take_sublist _ _))
  have hused : (s.reported.map (·.1)).Nodup := by
    rw [Sys.reported, List.map_drop]
    exact h.used.nodup.sublist (List.drop_sublist _ _)
  refine List.Nodup.append (List.Nodup.append havail h.used.pending_nodup ?_) hused ?_
  · intro d hd hd'
    obtain ⟨p, hp, rfl⟩ := List.mem_map.mp hd'
    have hst := h.unread_stage hd
    rw [h.pending_stage hp] at hst
    cases hst
  · intro d hd hd'
    obtain ⟨e, he, rfl⟩ := List.mem_map.mp hd'
    obtain ⟨hst, -⟩ := h.reported_stage he
    rcases List.mem_append.mp hd with hd | hd
    · rw [h.unread_stage hd] at hst
      cases hst
    · obtain ⟨p, hp, hpe⟩ := List.mem_map.mp hd
      rw [← hpe, h.pending_stage hp] at hst
      cases hst

theorem Inv.queue_load (h : Inv s) : s.queue.load Item.size ≤ vhostVringSize := by
  have htasks : s.queue.tasks = s.queued.map s.item := by
    simp [TaskQueue.tasks, Sys.queue, Sys.queued, Function.comp_def]
  have hsum : (s.queued.map fun c => (s.held c).length).sum ≤ vhostVringSize :=
    sum_length_le_of_held h.queued_nodup (fun c _ => h.owned.held_nodup c)
      (fun _ _ _ => h.owned.held_disjoint) (fun _ _ _ => h.owned.held_lt)
  rw [TaskQueue.load, htasks, List.map_map]
  rwa [List.map_congr_left fun c hc => h.queued_held hc] at hsum

/-! ## One access -/

theorem matched_nil (h : s'.queue = s.queue) :
    taskQueue.Path (fun _ _ => True) s.queue [] s'.queue := by
  rw [h]
  exact .nil _

theorem matched_one {e : TaskQueue.Event Item} (h : taskQueue.step s.queue e = some s'.queue) :
    taskQueue.Path (fun _ _ => True) s.queue [e] s'.queue := .cons trivial h (.nil _)

theorem start_matched (h : Inv s) {t : TaskPtr} {vbufs : List Buffer}
    (hs : step s (.start c t vbufs) = some s') : s'.queue = s.queue := by
  simp only [step] at hs
  split at hs
  · next hfree =>
      simp only [Option.some.injEq] at hs
      subst hs
      refine h.queue_congr rfl rfl rfl fun d hd => ?_
      have hcall := h.calls d
      have hdc : d ≠ c := by
        rintro rfl
        cases hst : s.stage d <;> rw [hst] at hcall
        case idle => exact hd.1 hst
        case gone => exact hd.2 hst
        all_goals simp [CallOk, BuildOk, AvailPc, Published, hfree.1] at hcall
      have hne : (s.calls d).task ≠ t := by
        intro heq
        have huse := (h.owned.user t d).mpr ⟨heq, hd⟩
        rw [hfree.2] at huse
        cases huse
      simp only [Sys.item, Function.update_of_ne hdc, Mem.setObj, Function.update_of_ne hne]
  · cases hs

theorem put_rings (hs : step s (.put c) = some s') :
    s'.pending = s.pending ∧ s'.fetched = s.fetched ∧ s'.poller = s.poller ∧
      (s'.log = s.log ∨ s'.log = s.log ++ [c]) ∧
      (s'.publ = s.publ ∨ ∃ idx, (s.calls c).pc = .casAvailIdx idx ∧
        s.mem.vring.avail.idx = idx ∧ s'.publ = s.publ + 1 ∧ s'.log = s.log) := by
  simp only [step] at hs
  split at hs
  · cases hs
  · simp only [Option.some.injEq] at hs
    subst hs
    cases hpc : (s.calls c).pc <;> simp only [putHistory, hpc]
    case casTask | casLastAvailIdx | rollback => split <;> simp
    case casAvailIdx idx =>
      split
      · next heq => exact ⟨rfl, rfl, rfl, Or.inl rfl, Or.inr ⟨idx, rfl, heq, rfl, rfl⟩⟩
      · exact ⟨rfl, rfl, rfl, Or.inl rfl, Or.inl rfl⟩
    all_goals simp

theorem put_item (hs : step s (.put c) = some s') (d : Nat) : s'.item d = s.item d := by
  have hf := put_frame hs
  have htask : (s'.calls d).task = (s.calls d).task := by
    by_cases hdc : d = c
    · rw [hdc]
      exact hf.task
    · rw [hf.calls d hdc]
  simp only [Sys.item, htask, hf.vbufs]

theorem taking_congr (h : s'.poller = s.poller) : s'.taking = s.taking := by
  simp only [Sys.taking, h]

/-- The position that is published next belongs to the call that publishes it. -/
theorem Inv.publishes (h : Inv s) {idx : Nat} (hpc : (s.calls c).pc = .casAvailIdx idx)
    (heq : s.mem.vring.avail.idx = idx) : s.log[s.publ]? = some c := by
  obtain ⟨q, hq, hge, hidx⟩ := h.position (h.avail_of_pc (Or.inr hpc)) (Or.inr hpc)
  have hlt := (List.getElem?_eq_some_iff.mp hq).1
  have hw := h.avail_window
  have hle := h.counters.fetched_le
  rw [h.counters.availIdx, hidx] at heq
  rw [vhostVringSize] at hw
  have hnext : q = s.publ := by omega
  rwa [hnext] at hq

/-- An access of a producer publishes a position, or the queue does not see it. -/
theorem put_cases (h : Inv s) (hs : step s (.put c) = some s') :
    shows s (.put c) = [] ∧ s'.publ = s.publ ∧ s'.log.take s.publ = s.log.take s.publ ∨
      shows s (.put c) = [.put (s.item c)] ∧ s'.publ = s.publ + 1 ∧
        s'.log.take (s.publ + 1) = s.log.take s.publ ++ [c] := by
  obtain ⟨-, -, -, hlog, hpubl⟩ := put_rings hs
  rcases hpubl with hsame | ⟨idx, hpc, heq, hnext, hlog⟩
  · refine Or.inl ⟨?_, hsame, ?_⟩
    · simp only [shows]
      cases hpc : (s.calls c).pc <;> simp only
      case casAvailIdx idx =>
        split
        · next heq =>
            -- a successful compare-and-swap publishes a position
            simp only [step, hpc, reduceCtorEq, if_false, Option.some.injEq, putHistory,
              if_pos heq] at hs
            rw [← hs] at hsame
            simp at hsame
        · rfl
    · rcases hlog with hlog | hlog
      · rw [hlog]
      · rw [hlog, List.take_append_of_le_length h.counters.publ_le]
  · refine Or.inr ⟨by simp only [shows, hpc, if_pos heq], hnext, ?_⟩
    rw [hlog, List.take_add_one, h.publishes hpc heq, Option.toList_some]

theorem put_matched (h : Inv s) (h' : Inv s') (hs : step s (.put c) = some s') :
    taskQueue.Path (fun _ _ => True) s.queue (shows s (.put c)) s'.queue := by
  obtain ⟨hpending, hfetched, hpoller, -, -⟩ := put_rings hs
  have hf := put_frame hs
  have hreported : s'.reported = s.reported := by
    rw [Sys.reported, Sys.reported, hf.usedLog, hf.returned, taking_congr hpoller]
  rcases put_cases h hs with ⟨hshow, hpubl, htake⟩ | ⟨hshow, hpubl, htake⟩
  · have hunread : s'.unread = s.unread := by rw [Sys.unread, Sys.unread, hfetched, hpubl, htake]
    rw [hshow]
    exact matched_nil (h.queue_congr hunread hpending hreported fun d _ => put_item hs d)
  · have hunread : s'.unread = s.unread ++ [c] := by
      have hlen : s.fetched ≤ (s.log.take s.publ).length := by
        rw [List.length_take, Nat.min_eq_left h.counters.publ_le]
        exact h.counters.fetched_le
      rw [Sys.unread, hpubl, htake, hfetched, List.drop_append_of_le_length hlen, Sys.unread]
    have hqueue : s'.queue = { s.queue with avail := s.queue.avail ++ [s.item c] } := by
      simp only [Sys.queue, hunread, hpending, hreported, put_item hs, List.map_append,
        List.map_cons, List.map_nil, funext (put_item hs)]
    have hload := h'.queue_load
    rw [hqueue] at hload
    have hroom : s.queue.load Item.size + (s.item c).size ≤ vhostVringSize := by
      simp only [TaskQueue.load, TaskQueue.tasks, List.map_append, List.sum_append, List.map_cons,
        List.map_nil, List.sum_cons, List.sum_nil] at hload ⊢
      omega
    rw [hshow]
    apply matched_one
    show TaskQueue.step Item.size vhostVringSize s.queue (.put (s.item c)) = some s'.queue
    rw [TaskQueue.step, if_pos hroom, hqueue]

/-- With two buffers a task, the indices that `vring_get_task` compares agree only if the poller
has returned everything. -/
theorem Inv.used_empty (h : Inv s) (hw : Wide 2 s) (hpc : s.poller = .loadUsedIdx)
    (heq : s.mem.vring.lastUsedIdx &&& mask = s.mem.vring.used.idx &&& mask) :
    s.returned.length = s.usedLog.length := by
  have htaking : s.taking = 0 := by simp only [Sys.taking, hpc]
  have hsub : (s.reported.map (·.1)).Nodup := by
    have hnodup := h.queued_nodup
    exact hnodup.sublist (List.sublist_append_right _ _)
  have hback := h.owned.pinned hsub (m := 2) fun d hd => by
    rw [h.queued_held (List.mem_append_right _ hd)]
    obtain ⟨e, he, rfl⟩ := List.mem_map.mp hd
    obtain ⟨hst, -⟩ := h.reported_stage he
    exact hw e.1 ⟨by simp [hst], by simp [hst]⟩
  rw [List.length_map, Sys.reported, htaking, List.length_drop, Nat.add_zero] at hback
  have hle := h.counters.returned_le
  rw [and_mask, and_mask, h.counters.lastUsedIdx, h.counters.usedIdx, mod_two_pow_mask,
    mod_two_pow_mask] at heq
  have hsize : vhostVringSize = 1024 := rfl
  exact mod_inj_of_window (Nat.le_refl _) hle (by omega) (by omega) heq

theorem poll_rings (hs : step s .poll = some s') :
    s'.log = s.log ∧ s'.publ = s.publ ∧ s'.fetched = s.fetched ∧ s'.pending = s.pending ∧
      s'.usedLog = s.usedLog := by
  simp only [step, Option.some.injEq] at hs
  subst hs
  cases hpc : s.poller
  all_goals simp only [getHistory, getStep, hpc, clearHistory, and_self]

theorem poll_item (hs : step s .poll = some s') (d : Nat) : s'.item d = s.item d := by
  simp only [Sys.item, poll_calls hs, poll_vbufs hs]

/-- The poller takes a task with the access that finds one, and keeps it until it returns it. -/
theorem poll_taking (h' : Inv s') (hs : step s .poll = some s') :
    s'.returned.length + s'.taking = s.returned.length + s.taking ∨
      s.poller = .loadUsedIdx ∧
        s.mem.vring.lastUsedIdx &&& mask ≠ s.mem.vring.used.idx &&& mask ∧
        s'.returned = s.returned ∧ s.taking = 0 ∧ s'.taking = 1 := by
  have hp := h'.poll
  simp only [step, Option.some.injEq] at hs
  cases hpc : s.poller <;> simp only [getHistory, getStep, hpc, clearHistory] at hs
  case loadUsedIdx =>
    split at hs
    · subst hs
      left
      simp [Sys.taking, hpc]
    · next hne =>
        subst hs
        right
        simpa [Sys.taking, hpc] using hne
  case storeLastUsedIdx u t =>
    subst hs
    left
    simp [Sys.taking, hpc]
  case loadTask | checkVringIdx | checkTask =>
    split at hs <;> subst hs
    all_goals first
      | exact (hp : False).elim
      | exact Or.inl (by simp [Sys.taking, hpc])
  case loadFlags =>
    split at hs <;> subst hs <;> left <;> simp [Sys.taking, hpc]
  all_goals
    subst hs
    left
    simp [Sys.taking, hpc]

theorem Inv.taken_le (h : Inv s) : s.returned.length + s.taking ≤ s.usedLog.length := by
  have hle := h.counters.returned_le
  have hlt : ∀ {u c len k : Nat}, Reaping s u c len k → s.returned.length < s.usedLog.length :=
    fun hr => (List.getElem?_eq_some_iff.mp hr.entry).1
  have hp := h.poll
  unfold Sys.taking
  cases hpc : s.poller <;> simp only [PollOk, hpc] at hp <;> simp only <;> try omega
  case loadId => obtain ⟨_, _, hr⟩ := hp; exact hlt hr
  case loadTask => obtain ⟨_, _, hr, -⟩ := hp; exact hlt hr
  case storeUsedBytes => obtain ⟨_, _, hr, -⟩ := hp; exact hlt hr
  case checkVringIdx => obtain ⟨_, _, hr⟩ := hp; exact hlt hr.toReaping
  case loadFlags => obtain ⟨_, _, _, hr⟩ := hp; exact hlt hr.toReaping
  case checkTask => obtain ⟨_, _, _, hr, -⟩ := hp; exact hlt hr.toReaping
  case clearTask => obtain ⟨_, _, _, hr, -⟩ := hp; exact hlt hr.toReaping
  case loadNext => obtain ⟨_, _, _, _, hr, -⟩ := hp; exact hlt hr.toReaping
  case clearLast => obtain ⟨_, _, _, hr, -⟩ := hp; exact hlt hr.toReaping
  case storeLastUsedIdx => obtain ⟨_, _, hr, -⟩ := hp; exact hlt hr

/-- An access of the poller takes a task, or finds that there is none, or the queue does not
see it. -/
theorem poll_cases (h : Inv s) (h' : Inv s') (hw : Wide 2 s) (hs : step s .poll = some s') :
    s'.returned.length + s'.taking = s.returned.length + s.taking ∧
        (shows s .poll = [] ∨ shows s .poll = [.empty] ∧ s.reported = []) ∨
      ∃ c len, shows s .poll = [.get (s.item c) len] ∧
        s.usedLog[s.returned.length + s.taking]? = some (c, len) ∧
        s'.returned.length + s'.taking = s.returned.length + s.taking + 1 := by
  rcases poll_taking h' hs with htaken | ⟨hpc, hne, hret, hold, hnew⟩
  · refine Or.inl ⟨htaken, ?_⟩
    by_cases hpc : s.poller = .loadUsedIdx
    · have heq : s.mem.vring.lastUsedIdx &&& mask = s.mem.vring.used.idx &&& mask := by
        by_contra hne
        simp only [step, getHistory, getStep, hpc, if_neg hne, Option.some.injEq] at hs
        rw [← hs] at htaken
        simp [Sys.taking, hpc] at htaken
      refine Or.inr ⟨by simp only [shows, hpc, if_pos heq], ?_⟩
      simp [Sys.reported, h.used_empty hw hpc heq]
    · exact Or.inl (by simp only [shows])
  · have hlt : s.returned.length < s.usedLog.length := by
      refine Nat.lt_of_le_of_ne h.counters.returned_le fun heq => hne ?_
      rw [and_mask, and_mask, h.counters.lastUsedIdx, h.counters.usedIdx, heq]
    obtain ⟨c, len, hentry⟩ : ∃ c len, s.usedLog[s.returned.length]? = some (c, len) :=
      ⟨_, _, List.getElem?_eq_getElem hlt⟩
    refine Or.inr ⟨c, len, by simp only [shows, hpc, if_neg hne, hentry], ?_, ?_⟩
    · rw [hold]
      exact hentry
    · rw [hret, hold, hnew]

theorem poll_matched (h : Inv s) (h' : Inv s') (hw : Wide 2 s) (hs : step s .poll = some s') :
    taskQueue.Path (fun _ _ => True) s.queue (shows s .poll) s'.queue := by
  obtain ⟨hlog, hpubl, hfetched, hpending, husedLog⟩ := poll_rings hs
  have hunread : s'.unread = s.unread := by rw [Sys.unread, Sys.unread, hlog, hpubl, hfetched]
  rcases poll_cases h h' hw hs with ⟨htaken, hshow⟩ | ⟨c, len, hshow, hentry, htaken⟩
  · have hqueue : s'.queue = s.queue := by
      refine h.queue_congr hunread hpending ?_ fun d _ => poll_item hs d
      rw [Sys.reported, Sys.reported, husedLog, htaken]
    rcases hshow with hshow | ⟨hshow, hempty⟩
    · rw [hshow]
      exact matched_nil hqueue
    · have hused : s.queue.used = [] := by simp [Sys.queue, hempty]
      rw [hshow]
      apply matched_one
      show TaskQueue.step Item.size vhostVringSize s.queue .empty = some s'.queue
      rw [TaskQueue.step, if_pos hused, hqueue]
  · obtain ⟨hlt, hget⟩ := List.getElem?_eq_some_iff.mp hentry
    have hcons : s.reported = (c, len) :: s'.reported := by
      rw [Sys.reported, Sys.reported, htaken, husedLog, List.drop_eq_getElem_cons hlt, hget]
    have hitems : s'.item = s.item := funext (poll_item hs)
    have hused : s.queue.used = (s.item c, len) :: s'.queue.used := by
      simp only [Sys.queue, hcons, hitems, List.map_cons]
    have hqueue : s'.queue = { s.queue with used := s'.queue.used } := by
      simp only [Sys.queue, hunread, hpending, hitems]
    rw [hshow]
    apply matched_one
    show TaskQueue.step Item.size vhostVringSize s.queue (.get (s.item c) len) = some s'.queue
    rw [hqueue]
    simp only [TaskQueue.step, hused, if_true]

theorem fetch_matched (h : Inv s) (hs : step s .fetch = some s') :
    taskQueue.Path (fun _ _ => True) s.queue (shows s .fetch) s'.queue := by
  obtain ⟨c, hc, hlt, -, -, -, rfl⟩ := h.fetch_cases hs
  have hshow : shows s .fetch = [.fetch (s.item c)] := by
    simp only [shows, List.getD_eq_getElem?_getD, hc, Option.getD_some]
  have hcons : s.unread = c :: (s.log.take s.publ).drop (s.fetched + 1) := by
    have htake : (s.log.take s.publ)[s.fetched]? = some c := by
      rw [List.getElem?_take, if_pos hlt, hc]
    obtain ⟨hlen, hget⟩ := List.getElem?_eq_some_iff.mp htake
    rw [Sys.unread, List.drop_eq_getElem_cons hlen, hget]
  rw [hshow]
  apply matched_one
  show TaskQueue.step Item.size vhostVringSize s.queue (.fetch (s.item c)) = some _
  simp only [TaskQueue.step, Sys.queue, hcons, List.map_cons, if_true, Option.some.injEq,
    TaskQueue.mk.injEq, List.map_append, List.map_nil]
  exact ⟨rfl, rfl, rfl⟩

theorem complete_matched (h : Inv s) {k len : Nat} (hs : step s (.complete k len) = some s') :
    taskQueue.Path (fun _ _ => True) s.queue (shows s (.complete k len)) s'.queue := by
  simp only [step] at hs
  split at hs
  · cases hs
  · next c head hk =>
      simp only [Option.some.injEq] at hs
      subst hs
      have hshow : shows s (.complete k len) = [.complete (s.item c) len] := by
        simp only [shows, hk]
      obtain ⟨hlt, hget⟩ := List.getElem?_eq_some_iff.mp hk
      have hmem : s.item c ∈ s.queue.device :=
        List.mem_map.mpr ⟨(c, head), List.mem_of_getElem? hk, rfl⟩
      -- the calls of pending heads are distinct, so the first match is the one at position `k`
      have hinj : (s.queue.device).Nodup := by
        have hnodup := h.used.pending_nodup
        rw [Sys.queue]
        refine List.Nodup.of_map (f := Item.call) ?_
        rwa [List.map_map]
      have herase : s.queue.device.erase (s.item c) =
          (s.pending.eraseIdx k).map fun p => s.item p.1 := by
        have hbound : k < s.queue.device.length := by simpa [Sys.queue] using hlt
        have hidx : s.queue.device[k] = s.item c := by simp [Sys.queue, hget]
        rw [← hidx, hinj.erase_getElem]
        simp [Sys.queue, List.eraseIdx_map]
      have hreported : (s.usedLog ++ [(c, len)]).drop (s.returned.length + s.taking) =
          s.reported ++ [(c, len)] := List.drop_append_of_le_length h.taken_le
      rw [hshow]
      apply matched_one
      show TaskQueue.step Item.size vhostVringSize s.queue (.complete (s.item c) len) = some _
      rw [TaskQueue.step, if_pos hmem, herase]
      show some _ = some (TaskQueue.mk _ _ (((s.usedLog ++ [(c, len)]).drop
        (s.returned.length + s.taking)).map fun e => (s.item e.1, e.2)))
      rw [hreported, List.map_append]
      rfl

/-! ## Whole runs -/

/-- No producer stores a link that the poller reads, and tasks have two buffers or more. -/
def Linking (s : Sys) (e : Event) : Prop :=
  NoLinkRace s e ∧ ∀ c t vbufs, e = .start c t vbufs → 2 ≤ vbufs.length

/-- Every access is a step of the queue or leaves it alone. -/
theorem queue_simulation :
    Machine.Simulation machine taskQueue Linking (fun s => Inv s ∧ Wide 2 s) Sys.queue shows where
  init := ⟨init_inv, fun c hc => absurd rfl hc.1⟩
  absInit := rfl
  keeps := fun _ _ _ hi hok hs => ⟨step_inv hi.1 hok.1 hs, wide_step hi.1 hi.2 hok.2 hs⟩
  matched := by
    rintro s e s' ⟨h, hw⟩ hok hs
    have h' := step_inv h hok.1 hs
    cases e with
    | start c t vbufs => exact matched_nil (start_matched h hs)
    | put c => exact put_matched h h' hs
    | poll => exact poll_matched h h' hw hs
    | fetch => exact fetch_matched h hs
    | complete k len => exact complete_matched h hs
    | usedFlags f =>
        cases hs
        exact matched_nil rfl

/-- The tasks that the poller has taken, with their lengths. -/
def Sys.taken (s : Sys) : List (TaskPtr × Nat) :=
  (s.usedLog.take (s.returned.length + s.taking)).map fun e => ((s.calls e.1).task, e.2)

/-- What has been published is what was put, and in this order. -/
theorem step_published {e : Event} (h : Inv s) (hs : step s e = some s') :
    s'.log.take s'.publ =
      s.log.take s.publ ++ (TaskQueue.puts (shows s e)).map Item.call := by
  cases e with
  | put c =>
      rcases put_cases h hs with ⟨hshow, hpubl, htake⟩ | ⟨hshow, hpubl, htake⟩
      · rw [hshow, hpubl, htake]
        exact (List.append_nil _).symm
      · rw [hshow, hpubl, htake]
        rfl
  | poll =>
      obtain ⟨hlog, hpubl, -, -, -⟩ := poll_rings hs
      have hnone : TaskQueue.puts (shows s .poll) = [] := by
        simp only [shows]
        repeat' split
        all_goals rfl
      rw [hnone, hlog, hpubl]
      exact (List.append_nil _).symm
  | start c t vbufs =>
      simp only [step] at hs
      split at hs
      · cases hs
        exact (List.append_nil _).symm
      · cases hs
  | fetch =>
      obtain ⟨c, -, -, -, -, -, rfl⟩ := h.fetch_cases hs
      exact (List.append_nil _).symm
  | complete k len =>
      simp only [step] at hs
      split at hs
      · cases hs
      · next c head hk =>
          cases hs
          simp only [shows, hk]
          exact (List.append_nil _).symm
  | usedFlags f =>
      cases hs
      exact (List.append_nil _).symm

/-- The task of a call that was reported stays what it was. -/
theorem reported_task {e : Event} (h : Inv s) (hs : step s e = some s') {j len : Nat}
    (hj : s.usedLog[j]? = some (c, len)) : (s'.calls c).task = (s.calls c).task := by
  cases e with
  | start d t vbufs =>
      simp only [step] at hs
      split at hs
      · next hfree =>
          have hcd : c ≠ d := by
            rintro rfl
            have hcall := h.calls c
            rcases Nat.lt_or_ge j s.returned.length with hlt | hge
            · rw [h.used.stage_lt j c len hj hlt] at hcall
              simp [CallOk, Published, hfree.1] at hcall
            · rw [h.used.stage_ge j c len hj hge] at hcall
              simp [CallOk, Published, hfree.1] at hcall
          cases hs
          simp only [Function.update_of_ne hcd]
      · cases hs
  | put d =>
      have hf := put_frame hs
      by_cases hcd : c = d
      · rw [hcd]
        exact hf.task
      · rw [hf.calls c hcd]
  | poll => rw [poll_calls hs]
  | fetch =>
      obtain ⟨d, -, -, -, -, -, rfl⟩ := h.fetch_cases hs
      rfl
  | complete k len =>
      simp only [step] at hs
      split at hs
      · cases hs
      · cases hs
        rfl
  | usedFlags f =>
      cases hs
      rfl

theorem taken_congr {e : Event} (h : Inv s) (hs : step s e = some s')
    (htake : s'.usedLog.take (s'.returned.length + s'.taking) =
      s.usedLog.take (s.returned.length + s.taking)) : s'.taken = s.taken := by
  rw [Sys.taken, Sys.taken, htake]
  refine List.map_congr_left fun x hx => ?_
  obtain ⟨j, hj⟩ := List.getElem?_of_mem (List.mem_of_mem_take hx)
  have hj : s.usedLog[j]? = some (x.1, x.2) := hj
  rw [reported_task h hs hj]

/-- What the poller has taken is what was got, and in this order. -/
theorem step_taken {e : Event} (h : Inv s) (hw : Wide 2 s) (hok : Linking s e)
    (hs : step s e = some s') :
    s'.taken = s.taken ++ (TaskQueue.gets (shows s e)).map fun x => (x.1.task, x.2) := by
  have hsame : TaskQueue.gets (shows s e) = [] →
      s'.usedLog.take (s'.returned.length + s'.taking) =
        s.usedLog.take (s.returned.length + s.taking) →
      s'.taken = s.taken ++ (TaskQueue.gets (shows s e)).map fun x => (x.1.task, x.2) := by
    intro hnone htake
    rw [hnone, taken_congr h hs htake]
    exact (List.append_nil _).symm
  cases e with
  | put c =>
      have hf := put_frame hs
      obtain ⟨-, -, hpoller, -, -⟩ := put_rings hs
      refine hsame ?_ (by rw [hf.usedLog, hf.returned, taking_congr hpoller])
      rcases put_cases h hs with ⟨hshow, -⟩ | ⟨hshow, -⟩ <;> rw [hshow] <;> rfl
  | poll =>
      have h' := step_inv h hok.1 hs
      obtain ⟨-, -, -, -, husedLog⟩ := poll_rings hs
      rcases poll_cases h h' hw hs with ⟨htaken, hshow⟩ | ⟨c, len, hshow, hentry, htaken⟩
      · refine hsame ?_ (by rw [husedLog, htaken])
        rcases hshow with hshow | ⟨hshow, -⟩ <;> rw [hshow] <;> rfl
      · rw [hshow, Sys.taken, Sys.taken, poll_calls hs, husedLog, htaken, List.take_add_one, hentry,
          List.map_append]
        rfl
  | start c t vbufs =>
      refine hsame rfl ?_
      simp only [step] at hs
      split at hs
      · cases hs
        rfl
      · cases hs
  | fetch =>
      refine hsame rfl ?_
      obtain ⟨c, -, -, -, -, -, rfl⟩ := h.fetch_cases hs
      rfl
  | complete k len =>
      simp only [step] at hs
      split at hs
      · cases hs
      · next c head hk =>
          refine hsame (by simp only [shows, hk]; rfl) ?_
          cases hs
          exact List.take_append_of_le_length h.taken_le
  | usedFlags f =>
      cases hs
      exact hsame rfl rfl

/-- What a run of the ring has done, read off the trace of the queue. -/
structure QueueView (s : Sys) (es : List (TaskQueue.Event Item)) : Prop where
  /-- the trace is a run of the queue -/
  run : taskQueue.Path (fun _ _ => True) taskQueue.init es s.queue
  /-- a put that has returned 0 has put its task once, and one that has returned -1 has not -/
  put : ∀ c, (s.calls c).pc = .done 0 → ((TaskQueue.puts es).map Item.call).count c = 1
  full : ∀ c, (s.calls c).pc = .done (-1) → c ∉ (TaskQueue.puts es).map Item.call
  /-- between two calls, the tasks that were returned are those that came out of the queue -/
  got : AtRest s.poller → s.returned = (TaskQueue.gets es).map fun x => (x.1.task, x.2)
  /-- no task is lost or comes back twice -/
  conserved : (TaskQueue.puts es).Perm ((TaskQueue.gets es).map (·.1) ++ s.queue.tasks)
  load : s.queue.load Item.size ≤ vhostVringSize
  /-- behind a head that the device holds are the buffers of its task, in their order -/
  seen : ∀ c head, (c, head) ∈ s.pending → ∃ slots, Follows s.mem.vring.desc head slots ∧
    slots.length = (s.item c).size ∧ ∀ (k x : Nat), slots[k]? = some x →
      ∃ b, (s.item c).vbufs[k]? = some b ∧ CarriesBuffer (s.mem.vring.desc x) b

theorem Inv.pending_chain (h : Inv s) {head : Nat} (hc : (c, head) ∈ s.pending) :
    ∃ slots, Follows s.mem.vring.desc head slots ∧ slots.length = (s.item c).size ∧
      ∀ (k x : Nat), slots[k]? = some x →
        ∃ b, (s.item c).vbufs[k]? = some b ∧ CarriesBuffer (s.mem.vring.desc x) b := by
  obtain ⟨hst, hhead⟩ := h.used.pending c head hc
  have hcall := h.calls c
  rw [hst] at hcall
  obtain ⟨-, hbuilt, -⟩ := hcall
  have hidx : head = (s.mem.objs (s.calls c).task).vringIdx := by
    have heq := hbuilt.head
    rw [hhead] at heq
    exact Option.some.inj heq
  exact ⟨(s.calls c).slots, hidx ▸ hbuilt.follows, hbuilt.length, fun k x => hbuilt.carriesBuffer⟩

/-- Every interleaving of producers, poller and device is a run of the queue, in which the calls
have the results that the ring gave them. -/
theorem ring_refines_queue {es : List Event} (hrun : machine.Path Linking init es s) :
    QueueView s (machine.trace shows init es) := by
  have hqueue := queue_simulation.run hrun
  obtain ⟨h, -⟩ := queue_simulation.inv hrun
  have hse := path_settled (hrun.mono fun _ _ hok => hok.1)
  have hinit := queue_simulation.init
  have hpublished : s.log.take s.publ =
      (TaskQueue.puts (machine.trace shows init es)).map Item.call := by
    have hmeasure := Machine.trace_measure (f := fun s : Sys => s.log.take s.publ)
      (g := fun x l => x ++ (TaskQueue.puts l).map Item.call) (fun x => List.append_nil x)
      (fun x l l' => by simp [TaskQueue.puts, List.filterMap_append])
      queue_simulation.keeps (fun s e s' hi _ hs => step_published hi.1 hs) hrun hinit
    exact hmeasure
  have htaken : s.taken =
      (TaskQueue.gets (machine.trace shows init es)).map fun x => (x.1.task, x.2) := by
    have hmeasure := Machine.trace_measure (f := Sys.taken)
      (g := fun x l => x ++ (TaskQueue.gets l).map fun x : Item × Nat => (x.1.task, x.2))
      (fun x => List.append_nil x)
      (fun x l l' => by simp [TaskQueue.gets, List.filterMap_append])
      queue_simulation.keeps (fun s e s' hi hok hs => step_taken hi.1 hi.2 hok hs) hrun hinit
    exact hmeasure
  refine ⟨hqueue, fun c hpc => ?_, fun c hpc => ?_, fun hrest => ?_,
    (TaskQueue.Accounts.run hqueue).conserved, TaskQueue.load_le hqueue, fun c head => h.pending_chain⟩
  · rw [← hpublished]
    exact h.count_published hse (by simp [hpc, Published])
  · rw [← hpublished]
    exact fun hmem => h.failed_not_logged hpc (List.mem_of_mem_take hmem)
  · have hzero : s.taking = 0 := by
      cases hpc : s.poller <;> simp_all [AtRest, Sys.taking]
    rw [← htaken, Sys.taken, hzero, Nat.add_zero, List.map_take]
    exact List.prefix_iff_eq_take.mp h.returned_prefix

def linking (s : Sys) (e : Event) : Bool :=
  noLinkRace s e &&
  match e with
  | .start _ _ vbufs => decide (2 ≤ vbufs.length)
  | _ => true

theorem linking_sound (s : Sys) (e : Event) (h : linking s e = true) : Linking s e := by
  simp only [linking, Bool.and_eq_true] at h
  refine ⟨noLinkRace_sound s e h.1, ?_⟩
  rintro c t vbufs rfl
  exact of_decide_eq_true h.2

/-- The second task is put while the poller is at work on the first. -/
theorem ring_refines_queue_quiet : ∃ s, machine.Path Linking init quietSchedule s ∧
    QueueView s (machine.trace shows init quietSchedule) ∧ s.returned = [(100, 12)] ∧
    (TaskQueue.puts (machine.trace shows init quietSchedule)).map Item.call = [0] := by
  have hcheck : (machine.execIf linking init quietSchedule).any
      (fun s => decide (s.returned = [(100, 12)])) = true := by decide +kernel
  have hputs : (TaskQueue.puts (machine.trace shows init quietSchedule)).map Item.call = [0] := by
    decide +kernel
  obtain ⟨s, hrun, hs⟩ := Machine.Path.of_check linking_sound hcheck
  exact ⟨s, hrun, ring_refines_queue hrun, of_decide_eq_true hs, hputs⟩

end VhostUser.Ring
