import VhostUser.Dev.Layout

/-! # What the callbacks and the submission functions do

One rule for each primitive of the library programs, and from them one
specification for each function: it gives the descriptor back and frees what it
owns, or it hands the descriptor over to exactly one new command.
-/

namespace VhostUser.Dev

open VhostUser.Lib Prog

variable {w w' : World} {α : Type}

/-! ## Primitives -/

/-- The weakest precondition of a library function. Under `calm` no allocation and no
submission to the vring fails; a fault is an end only where it is excused. -/
abbrev Calls (calm excused : Prop) (m : M α) (Q : α → World → Prop) (w : World) : Prop :=
  wpIf (fun o : Option Bytes => calm → o.isSome = true) excused m Q w

variable {calm excused : Prop}

theorem wp_of_calls {m : M α} {Q : α → World → Prop} (h : Calls False False m Q w) : wp m Q w :=
  h.total id fun _ => False.elim

theorem calls_attempt {Q : Option Bytes → World → Prop} (hfail : ¬ calm → Q none w.setFailed)
    (hok : ∀ m, Q (some m) w) : Calls calm excused attempt Q w := by
  refine wpIf_bind (wpIf_outcome fun o ho => ?_)
  match o, ho with
  | some (some m), _ => exact wpIf_pure (hok m)
  | some none, ho =>
      refine wpIf_bind (wpIf_update (wpIf_pure (hfail fun hcalm => ?_)))
      have hsome := ho none rfl hcalm
      cases hsome
  | none, _ => exact wpIf_pure (hok _)

theorem calls_check {p : World → Bool} {e : Fault} {Q : Unit → World → Prop} (hp : p w = true)
    (h : Q () w) : Calls calm excused (check p e) Q w := wpIf_check (fun _ => hp) fun _ => h

theorem calls_assertThat {b : Bool} {Q : Unit → World → Prop} (hb : b = true) (h : Q () w) :
    Calls calm excused (assertThat b) Q w := calls_check hb h

theorem calls_divideBy {n : Nat} {Q : Unit → World → Prop} (hn : 0 < n) (h : Q () w) :
    Calls calm excused (divideBy n) Q w := calls_check (by simpa using Nat.ne_of_gt hn) h

theorem calls_useTask {t : TaskRef} {Q : Unit → World → Prop} (ho : w.owns t.id = true)
    (h : Q () w) : Calls calm excused (useTask t) Q w := calls_check ho h

theorem calls_useIo {io : Nat} {Q : AsyncIoDesc → World → Prop} (hb : w.ioBusy io = true)
    (h : Q (w.ios io).desc w) : Calls calm excused (useIo io) Q w :=
  wpIf_bind (calls_check hb (wpIf_bind (wpIf_state (wpIf_pure h))))

theorem calls_setRetval {io : Nat} {r : Int} {Q : Unit → World → Prop} (hb : w.ioBusy io = true)
    (h : Q () (w.setRetval io r)) : Calls calm excused (setRetval io r) Q w :=
  wpIf_bind (calls_check hb (wpIf_update h))

theorem calls_create {n : Nat} {Q : Option TaskRef → World → Prop}
    (hfail : ¬ calm → Q none w.setFailed) (hok : Q (some ⟨w.nextTask, .empty n⟩) w.addTask) :
    Calls calm excused (virtioTaskCreate n) Q w := by
  refine wpIf_bind (calls_attempt (fun hc => ?_) fun m => ?_)
  · exact wpIf_pure (hfail hc)
  · exact wpIf_bind (wpIf_state (wpIf_bind (wpIf_update (wpIf_pure hok))))

theorem calls_destroy {t : TaskRef} {Q : Unit → World → Prop} (ho : w.owns t.id = true)
    (h : Q () (w.freeTask t.id)) : Calls calm excused (virtioTaskDestroy t) Q w :=
  wpIf_bind (calls_useTask ho (wpIf_update h))

theorem calls_allocPart {t : TaskRef} {type : Bytes → BufPtr} {size : Nat} {response zero : Bool}
    {lo hi : Nat} {Q : Option (TaskRef × Nat) → World → Prop} (ho : w.owns t.id = true)
    (hlim : t.task.count < t.task.limit) (hfail : ¬ calm → Q none w.setFailed)
    (hok : ∀ m : Bytes, (zero = true → m = fun _ => 0) →
      Q (some (t.push ⟨type m, size, response, true, lo, hi⟩, t.task.count)) w) :
    Calls calm excused (virtioTaskAllocBufPart t type size response zero lo hi) Q w := by
  refine wpIf_bind (calls_useTask ho (wpIf_bind (calls_assertThat (decide_eq_true hlim) ?_)))
  refine wpIf_bind (calls_attempt (fun hc => wpIf_pure (hfail hc)) fun m =>
    wpIf_pure (hok _ fun hz => ?_))
  rw [hz]
  rfl

theorem calls_allocBuf {t : TaskRef} {type : Bytes → BufPtr} {size : Nat} {response : Bool}
    {Q : Option (TaskRef × Nat) → World → Prop} (ho : w.owns t.id = true)
    (hlim : t.task.count < t.task.limit) (hfail : ¬ calm → Q none w.setFailed)
    (hok : Q (some (t.push ⟨type fun _ => 0, size, response, true, 0, size⟩, t.task.count)) w) :
    Calls calm excused (virtioTaskAllocBuf t type size response true) Q w :=
  calls_allocPart ho hlim hfail fun m hm => by rw [hm rfl]; exact hok

theorem calls_addBuf {t : TaskRef} {buf : BufPtr} {size : Nat} {response : Bool}
    {Q : TaskRef → World → Prop} (ho : w.owns t.id = true)
    (hlim : t.task.count < t.task.limit)
    (h : Q (t.push ⟨buf, size, response, false, 0, size⟩) w) :
    Calls calm excused (virtioTaskAddBuf t buf size response) Q w :=
  wpIf_bind (calls_useTask ho (wpIf_bind (calls_assertThat (decide_eq_true hlim) (wpIf_pure h))))

theorem calls_getBuf {t : TaskRef} {i : Nat} {Q : Option BufPtr → World → Prop}
    (ho : w.owns t.id = true) (h : Q (t.task.vbufs[i]?.map (·.buf)) w) :
    Calls calm excused (virtioTaskGetBuf t i) Q w := wpIf_bind (calls_useTask ho (wpIf_pure h))

theorem calls_vbufOf {t : TaskRef} {i : Nat} {b : Buffer} {Q : Buffer → World → Prop}
    (ho : w.owns t.id = true) (hb : t.task.vbufs[i]? = some b) (h : Q b w) :
    Calls calm excused (vbufOf t i) Q w := by
  refine wpIf_bind (calls_useTask ho ?_)
  rw [hb]
  exact wpIf_pure h

theorem calls_respGood {r : VirtioScsiCmdResp} {Q : Bool → World → Prop} (h : Q r.good w) :
    Calls calm excused (respGood (some (.resp r))) Q w := wpIf_pure h

theorem calls_submitTask {t : TaskRef} {cb : TaskCb} {io : Nat} {Q : Int → World → Prop}
    (ho : w.owns t.id = true) (hfail : ¬ calm → Q (-1) w.setFailed)
    (hok : Q 0 (w.putFlight t.id ⟨t.task, cb, io, false⟩)) :
    Calls calm excused (vringSubmitTask t cb io) Q w := by
  refine wpIf_bind (calls_useTask ho (wpIf_bind (calls_attempt (fun hc => wpIf_pure (hfail hc))
    fun m => ?_)))
  exact wpIf_bind (wpIf_update (wpIf_pure hok))

theorem calls_push {io : Nat} {Q : Unit → World → Prop} (hb : w.ioBusy io = true)
    (hspace : ¬ excused → w.outring.length < outringCapacity) (h : Q () (w.pushIo io)) :
    Calls calm excused (pushToOutring io) Q w :=
  wpIf_bind (calls_check hb (wpIf_bind (wpIf_check (fun hx => decide_eq_true (hspace hx))
    fun _ => wpIf_update h)))

/-! ## Worlds before and after a callback -/

/-- What every callback needs: it owns its task, the descriptor is busy, and there is
room in the output ring, or the fault of a full ring is excused. -/
structure Held (excused : Prop) (w : World) (t io : Nat) : Prop where
  live : w.live t = true
  flight : w.flights t = none
  busy : (w.ios io).state = .busy
  space : ¬ excused → w.outring.length < outringCapacity

/-- What a callback needs that may create a task. -/
structure Ready (excused : Prop) (w : World) (t io : Nat) : Prop extends Held excused w t io where
  nextLive : w.live w.nextTask = false
  nextFlight : w.flights w.nextTask = none

/-- Every task that was created is allocated or was destroyed once. -/
def Balanced (w : World) : Prop :=
  ∀ t, w.destroyed t + (w.live t).toNat = (decide (t < w.nextTask)).toNat

/-- The parts of the world that only a submission, the device or the application change. -/
structure SameOutside (w w' : World) (io : Nat) : Prop where
  dev : w'.dev = w.dev
  disk : w'.disk = w.disk
  ios : ∀ i, i ≠ io → w'.ios i = w.ios i
  eventHighWm : w'.eventHighWm = w.eventHighWm
  uncollected : w'.uncollected = w.uncollected
  returned : w'.returned = w.returned
  failed : w.failed = true → w'.failed = true
  balanced : Balanced w → Balanced w'

/-- The descriptor was pushed and the tasks that were owned are freed. -/
structure Closed (w : World) (t io : Nat) (desc : AsyncIoDesc) (w' : World) : Prop
    extends SameOutside w w' io where
  live : ∀ x, w'.live x = (w.live x && x != t)
  nextTask : w.nextTask ≤ w'.nextTask
  flights : w'.flights = w.flights
  own : w'.ios io = ⟨desc, .pushed⟩
  outring : w'.outring = w.outring ++ [io]
  pushes : w'.pushes = w.pushes ++ [io]
  sent : w'.sent = w.sent

/-- A new command was sent and the old task is freed. -/
structure Passed (w : World) (t io : Nat) (desc : AsyncIoDesc) (cb : TaskCb) (vbufs : List Buffer)
    (w' : World) : Prop extends SameOutside w w' io where
  live : ∀ x, w'.live x = (x == w.nextTask || (w.live x && x != t))
  nextTask : w'.nextTask = w.nextTask + 1
  flights : ∃ task : Task, task.vbufs = vbufs ∧
    w'.flights = Function.update w.flights w.nextTask (some ⟨task, cb, io, false⟩)
  own : w'.ios io = ⟨desc, .busy⟩
  outring : w'.outring = w.outring
  pushes : w'.pushes = w.pushes
  sent : w'.sent = Function.update w.sent io (w.sent io + 1)

/-! ## Ownership in changed worlds -/

section Owns

variable {t io : Nat}

theorem owns_addTask_self (h : w.flights w.nextTask = none) : w.addTask.owns w.nextTask = true := by
  simp [World.owns, World.addTask, h]

theorem owns_addTask_of_ne (h : t ≠ w.nextTask) : w.addTask.owns t = w.owns t := by
  simp [World.owns, World.addTask, Function.update_of_ne h]

theorem owns_freeTask_of_ne {x : Nat} (h : t ≠ x) : (w.freeTask x).owns t = w.owns t := by
  simp [World.owns, World.freeTask, Function.update_of_ne h]

theorem owns_putFlight_of_ne {x : Nat} {f : Flight} (h : t ≠ x) :
    (w.putFlight x f).owns t = w.owns t := by
  simp [World.owns, World.putFlight, Function.update_of_ne h]

theorem Held.owns (h : Held excused w t io) : w.owns t = true := by
  simp [World.owns, h.live, h.flight]

theorem Held.ioBusy (h : Held excused w t io) : w.ioBusy io = true := by
  simp [World.ioBusy, h.busy]

theorem Ready.ne_next (h : Ready excused w t io) : t ≠ w.nextTask := by
  rintro rfl
  have := h.live
  rw [h.nextLive] at this
  cases this

end Owns

/-! ## Created and destroyed tasks -/

theorem Balanced.addTask (h : Balanced w) : Balanced w.addTask := by
  intro t
  have ht := h t
  simp only [World.addTask]
  by_cases hx : t = w.nextTask
  · subst hx
    simp only [Nat.lt_irrefl, decide_false, Bool.toNat_false, Function.update_self,
      Nat.lt_succ_self, decide_true, Bool.toNat_true] at ht ⊢
    omega
  · rw [Function.update_of_ne hx, ht]
    simp only [show t < w.nextTask + 1 ↔ t < w.nextTask by omega]

theorem Balanced.freeTask (h : Balanced w) {t : Nat} (hl : w.live t = true) :
    Balanced (w.freeTask t) := by
  intro x
  have hx := h x
  simp only [World.freeTask]
  by_cases hxt : x = t
  · subst hxt
    rw [hl] at hx
    rw [Function.update_self, Function.update_self]
    exact hx
  · rw [Function.update_of_ne hxt, Function.update_of_ne hxt]
    exact hx

/-! ## Worlds inside a callback -/

/-- Between its first step and its exit a function has at most changed which tasks
are allocated, and the descriptor it works for. -/
structure Mid (w : World) (io : Nat) (desc : AsyncIoDesc) (live : Nat → Bool) (v : World) : Prop
    extends SameOutside w v io where
  live : v.live = live
  nextTask : w.nextTask ≤ v.nextTask
  flights : v.flights = w.flights
  own : v.ios io = ⟨desc, .busy⟩
  outring : v.outring = w.outring
  pushes : v.pushes = w.pushes
  sent : v.sent = w.sent

namespace Mid

variable {v : World} {io : Nat} {desc : AsyncIoDesc} {live : Nat → Bool}

theorem refl (hb : (w.ios io).state = .busy) : Mid w io (w.ios io).desc w.live w :=
  ⟨⟨rfl, rfl, fun _ _ => rfl, rfl, rfl, rfl, id, id⟩, rfl, Nat.le_refl _, rfl, by rw [← hb], rfl, rfl,
    rfl⟩

theorem setFailed (h : Mid w io desc live v) : Mid w io desc live v.setFailed :=
  { h with failed := fun _ => rfl }

theorem addTask (h : Mid w io desc live v) :
    Mid w io desc (Function.update live v.nextTask true) v.addTask :=
  { h with
    live := by rw [← h.live]; rfl
    nextTask := Nat.le_succ_of_le h.nextTask
    balanced := fun hb => (h.balanced hb).addTask }

theorem freeTask (h : Mid w io desc live v) {t : Nat} (ht : live t = true) :
    Mid w io desc (Function.update live t false) (v.freeTask t) :=
  { h with
    live := by rw [← h.live]; rfl
    balanced := fun hb => (h.balanced hb).freeTask (by rw [h.live]; exact ht) }

theorem setDesc (h : Mid w io desc live v) (desc' : AsyncIoDesc) :
    Mid w io desc' live (v.setIo io ⟨desc', .busy⟩) :=
  { h with
    ios := fun i hi => by
      show Function.update v.ios io _ i = _
      rw [Function.update_of_ne hi]
      exact h.ios i hi
    own := by
      show Function.update v.ios io _ io = _
      rw [Function.update_self] }

theorem setRetval (h : Mid w io desc live v) (r : Int) :
    Mid w io { desc with retval := r } live (v.setRetval io r) := by
  have hs : v.setRetval io r = v.setIo io ⟨{ desc with retval := r }, .busy⟩ := by
    rw [World.setRetval, h.own]
  rw [hs]
  exact h.setDesc _

theorem ioBusy (h : Mid w io desc live v) : v.ioBusy io = true := by
  simp [World.ioBusy, h.own]

theorem owns (h : Mid w io desc live v) {t : Nat} (hl : live t = true) (hf : w.flights t = none) :
    v.owns t = true := by
  simp [World.owns, h.live, h.flights, hl, hf]

theorem space (h : Mid w io desc live v) (hs : ¬ excused → w.outring.length < outringCapacity) :
    ¬ excused → v.outring.length < outringCapacity := by
  rw [h.outring]
  exact hs

theorem closed (h : Mid w io desc live v) {t : Nat} (hl : ∀ x, live x = (w.live x && x != t)) :
    Closed w t io desc (v.pushIo io) :=
  { h with
    ios := fun i hi => by
      show Function.update v.ios io _ i = _
      rw [Function.update_of_ne hi]
      exact h.ios i hi
    live := fun x => by rw [← hl x, ← h.live]; rfl
    own := by
      show Function.update v.ios io _ io = _
      rw [Function.update_self, h.own]
    outring := by rw [← h.outring]; rfl
    pushes := by rw [← h.pushes]; rfl }

theorem passed (h : Mid w io desc live v) {t : Nat} {task : Task} {cb : TaskCb}
    {vbufs : List Buffer} (hvbufs : task.vbufs = vbufs) (hnext : v.nextTask = w.nextTask + 1)
    (hl : ∀ x, live x = (x == w.nextTask || (w.live x && x != t))) :
    Passed w t io desc cb vbufs (v.putFlight w.nextTask ⟨task, cb, io, false⟩) :=
  { h with
    live := fun x => by rw [← hl x, ← h.live]; rfl
    nextTask := hnext
    flights := ⟨task, hvbufs, by rw [← h.flights]; rfl⟩
    sent := by rw [← h.sent]; rfl }

end Mid

/-! ## Allocated tasks at the exits -/

section Live

variable {live : Nat → Bool} {t n : Nat}

theorem live_free (x : Nat) : Function.update live t false x = (live x && x != t) := by
  by_cases hx : x = t
  · simp [hx]
  · simp [hx]

theorem live_free_new (hn : live n = false) (x : Nat) :
    Function.update (Function.update (Function.update live n true) t false) n false x =
      (live x && x != t) := by
  rw [live_free, live_free]
  by_cases hx : x = n
  · simp [hx, hn]
  · simp [hx]

theorem live_new_free (hn : live n = false) (x : Nat) :
    Function.update (Function.update (Function.update live t false) n true) n false x =
      (live x && x != t) := by
  rw [live_free]
  by_cases hx : x = n
  · simp [hx, hn]
  · simp [hx, live_free]

theorem live_pass (hne : t ≠ n) (x : Nat) :
    Function.update (Function.update live n true) t false x = (x == n || (live x && x != t)) := by
  rw [live_free]
  by_cases hx : x = n
  · simp [hx, Ne.symm hne]
  · simp [hx]

theorem live_pass' (x : Nat) :
    Function.update (Function.update live t false) n true x = (x == n || (live x && x != t)) := by
  by_cases hx : x = n
  · simp [hx]
  · simp [hx, live_free]

end Live

/-! ## The exits of the write callbacks -/

theorem calls_writeDone {io : Nat} {t : TaskRef} {Q : Unit → World → Prop}
    (hb : w.ioBusy io = true) (hs : ¬ excused → w.outring.length < outringCapacity)
    (ht : w.owns t.id = true) (h : Q () ((w.freeTask t.id).pushIo io)) :
    Calls calm excused (writeDone io t none) Q w :=
  wpIf_bind (calls_push hb hs (wpIf_bind (calls_destroy ht (wpIf_pure h))))

theorem calls_writeDone_new {io : Nat} {t n : TaskRef} {Q : Unit → World → Prop}
    (hb : w.ioBusy io = true) (hs : ¬ excused → w.outring.length < outringCapacity)
    (ht : w.owns t.id = true) (hn : w.owns n.id = true) (hne : n.id ≠ t.id)
    (h : Q () (((w.freeTask t.id).freeTask n.id).pushIo io)) :
    Calls calm excused (writeDone io t (some n)) Q w :=
  wpIf_bind (calls_push hb hs (wpIf_bind (calls_destroy ht (calls_destroy
    (by rw [owns_freeTask_of_ne hne]; exact hn) h))))

/-- The descriptor was pushed unchanged, because the device or something here failed. -/
def Abandoned (w : World) (t io : Nat) (r : VirtioScsiCmdResp) (w' : World) : Prop :=
  Closed w t io (w.ios io).desc w' ∧ (r.good = true → w'.failed = true)

/-- As far as the outcomes are calm, it was the device. -/
def Dropped (calm : Prop) (w : World) (t io : Nat) (r : VirtioScsiCmdResp) (w' : World) : Prop :=
  (calm → r.good = false) ∧ Abandoned w t io r w'

/-- A callback that owns its old task and a new one gives both up. -/
theorem Ready.abandon {t io : Nat} (h : Ready excused w t io) {old new : TaskRef}
    {r : VirtioScsiCmdResp} {P : World → Prop} (ho : old.id = t) (hn : new.id = w.nextTask)
    {v : World} (hmid : Mid w io (w.ios io).desc (Function.update w.live w.nextTask true) v)
    (hfail : v.failed = true) (hcalm : ¬ calm) :
    Calls calm excused (writeDone io old (some new))
      (fun _ w' => Dropped calm w t io r w' ∨ P w') v := by
  have hne := h.ne_next
  have hold : Function.update w.live w.nextTask true t = true := by
    rw [Function.update_of_ne hne]
    exact h.live
  refine calls_writeDone_new hmid.ioBusy (hmid.space h.space) ?_ ?_ ?_
    (Or.inl ⟨fun hc => absurd hc hcalm, ?_⟩)
  · rw [ho]
    exact hmid.owns hold h.flight
  · rw [hn]
    exact hmid.owns (Function.update_self ..) h.nextFlight
  · rw [ho, hn]
    exact hne.symm
  · rw [ho, hn]
    have hnew : Function.update (Function.update w.live w.nextTask true) t false w.nextTask = true := by
      rw [Function.update_of_ne hne.symm, Function.update_self]
    exact ⟨((hmid.freeTask hold).freeTask hnew).closed (live_free_new h.nextLive), fun _ => hfail⟩

/-- A callback that owns nothing but its old task gives it up. -/
theorem Ready.abandonOld {t io : Nat} (h : Ready excused w t io) {old : TaskRef}
    {r : VirtioScsiCmdResp} {P : World → Prop} (ho : old.id = t) {v : World}
    (hmid : Mid w io (w.ios io).desc w.live v) (hfail : r.good = true → v.failed = true)
    (hcalm : calm → r.good = false) :
    Calls calm excused (writeDone io old none)
      (fun _ w' => Dropped calm w t io r w' ∨ P w') v := by
  refine calls_writeDone hmid.ioBusy (hmid.space h.space) ?_ (Or.inl ⟨hcalm, ?_⟩)
  · rw [ho]
    exact hmid.owns h.live h.flight
  · rw [ho]
    exact ⟨(hmid.freeTask h.live).closed live_free, hfail⟩

/-! ## Specifications of the write callbacks

The first four say what a callback does for any descriptor, in the terms of the source.
For a request within the device this is one of the commands the request is cut into. -/

section WriteCallbacks

variable {t io : Nat} {task : Task} {r : VirtioScsiCmdResp} {m : Bytes} {q : Buffer} {lo hi : Nat}

theorem calls_addFullBlocks {t : TaskRef} {desc : AsyncIoDesc} {dev : VirtioDev} {delta : Nat}
    {Q : TaskRef × Nat → World → Prop} (ho : w.owns t.id = true)
    (hlim : t.task.count < t.task.limit)
    (hmore : delta < desc.nbytes → Q (t.push (userBuf delta
      (subSize desc.nbytes delta / dev.blockSize * dev.blockSize) false),
        subSize desc.nbytes delta / dev.blockSize + 1) w)
    (hone : ¬ delta < desc.nbytes → Q (t, 1) w) :
    Calls calm excused (addFullBlocks dev desc t delta) Q w := by
  refine wpIf_ite (fun hlt => ?_) fun hge => wpIf_pure (hone hge)
  exact wpIf_bind (calls_addBuf ho hlim (wpIf_pure (hmore hlt)))

theorem Ready.writeBack (h : Ready excused w t io) {old new : TaskRef} {cb : TaskCb} {P : World → Prop}
    (ho : old.id = t) (hn : new.id = w.nextTask) (hlim : new.task.count < new.task.limit)
    (hP : ∀ w', Passed w t io (w.ios io).desc cb (new.task.vbufs ++ [respBuf ⟨0, 0⟩]) w' → P w') :
    Calls calm excused (submitWriteBack io old new cb)
      (fun _ w' => Dropped calm w t io r w' ∨ P w') w.addTask := by
  have hmid := (Mid.refl h.busy).addTask
  have hnew : w.addTask.owns new.id = true := by
    rw [hn]
    exact owns_addTask_self h.nextFlight
  refine wpIf_bind (calls_allocBuf hnew hlim (h.abandon ho hn hmid.setFailed rfl) ?_)
  refine wpIf_bind (calls_submitTask hnew (h.abandon ho hn hmid.setFailed rfl) ?_)
  refine calls_destroy ?_ (Or.inr (hP _ ?_))
  · show (w.addTask.putFlight new.id _).owns old.id = true
    rw [owns_putFlight_of_ne (by rw [ho, hn]; exact h.ne_next), ho,
      owns_addTask_of_ne h.ne_next]
    exact h.owns
  · rw [ho]
    show Passed w t io _ cb _ ((w.addTask.freeTask t).putFlight new.id _)
    rw [hn]
    refine (hmid.freeTask ?_).passed rfl rfl (live_pass h.ne_next)
    rw [Function.update_of_ne h.ne_next]
    exact h.live

/-- A block copied over uninitialized memory, with bytes of the request copied in. -/
theorem patch_block {size : Nat} (junk m src : Bytes) (pos len k : Nat) (hk : k < size) :
    (junk.patch 0 size m).patch pos len src k = m.patch pos len src k := by
  simp only [Bytes.patch]
  split
  · rfl
  · rw [if_pos (by omega), Nat.sub_zero]

/-- What `blk_read_first_block_done` writes back: the block, and whole blocks after it. -/
def headWriteBufs (dev : VirtioDev) (d : AsyncIoDesc) (m : Bytes) (lo hi : Nat) : List Buffer :=
  if subSize hi lo < d.nbytes then
    [reqBuf dev (d.offset / dev.blockSize) (subSize d.nbytes (subSize hi lo) / dev.blockSize + 1) true,
      blockBuf dev m false lo hi,
      userBuf (subSize hi lo) (subSize d.nbytes (subSize hi lo) / dev.blockSize * dev.blockSize) false,
      respBuf ⟨0, 0⟩]
  else
    [reqBuf dev (d.offset / dev.blockSize) 1 true, blockBuf dev m false lo hi, respBuf ⟨0, 0⟩]

theorem blkReadFirstBlockDone_calls (h : Ready excused w t io)
    (hbufs : task.vbufs = [q, respBuf r, blockBuf w.dev m true lo hi]) :
    Calls calm excused (blkReadFirstBlockDone ⟨t, task⟩ io)
      (fun _ w' => Dropped calm w t io r w' ∨
        r.good = true ∧ ∃ m' : Bytes,
          (∀ k < w.dev.blockSize, m' k = m.patch lo (subSize hi lo) (w.ios io).desc.buf k) ∧
          Passed w t io (w.ios io).desc .blkWriteFullBlocksDone
            (headWriteBufs w.dev (w.ios io).desc m' lo hi) w') w := by
  have hmid := Mid.refl h.busy
  have hnew := hmid.addTask.setFailed
  have howns : w.addTask.owns w.nextTask = true := owns_addTask_self h.nextFlight
  refine wpIf_bind (calls_useIo h.ioBusy (wpIf_bind (calls_getBuf h.owns ?_)))
  refine wpIf_bind (calls_assertThat (by simp [VirtioTask.count, hbufs]) ?_)
  simp only [hbufs, respBuf, List.getElem?_cons_succ, List.getElem?_cons_zero, Option.map_some]
  refine wpIf_bind (calls_respGood ?_)
  cases hgood : r.good with
  | false => exact h.abandonOld rfl hmid (fun hg => by rw [hgood] at hg; cases hg) fun _ => hgood
  | true =>
      refine wpIf_bind (calls_create (fun hc => h.abandonOld rfl hmid.setFailed (fun _ => rfl)
        fun hcalm => absurd hcalm hc) ?_)
      refine wpIf_bind (calls_allocBuf howns (by simp [VirtioTask.count, VirtioTask.empty])
        (h.abandon rfl rfl hnew rfl) ?_)
      refine wpIf_bind (calls_vbufOf ?_ (by rw [hbufs]; rfl) ?_)
      · rw [owns_addTask_of_ne h.ne_next]
        exact h.owns
      refine wpIf_bind (wpIf_state (wpIf_bind (calls_allocPart howns ?_ (h.abandon rfl rfl hnew rfl)
        fun junk _ => ?_)))
      · simp [VirtioTask.count, VirtioTask.empty, TaskRef.push]
      refine wpIf_bind (calls_useIo h.ioBusy ?_)
      simp only [blockBuf, show (w.addTask.ios io).desc = (w.ios io).desc from rfl]
      refine wpIf_bind (calls_addFullBlocks howns ?_ (fun hmore => ?_) fun hone => ?_)
      · simp [VirtioTask.count, VirtioTask.empty, TaskRef.push, memcpyTo, TaskRef.modify]
      · refine h.writeBack rfl rfl ?_ fun w' hw => ⟨trivial, _, patch_block junk m _ _ _, ?_⟩
        · simp [VirtioTask.count, VirtioTask.empty, TaskRef.push, memcpyTo, TaskRef.modify,
            createRwCdbAt]
        · rw [headWriteBufs, if_pos hmore]
          exact hw
      · refine h.writeBack rfl rfl ?_ fun w' hw => ⟨trivial, _, patch_block junk m _ _ _, ?_⟩
        · simp [VirtioTask.count, VirtioTask.empty, TaskRef.push, memcpyTo, TaskRef.modify,
            createRwCdbAt]
        · rw [headWriteBufs, if_neg hone]
          exact hw

theorem blkReadLastBlockDone_calls (h : Ready excused w t io)
    (hbufs : task.vbufs = [q, respBuf r, blockBuf w.dev m true lo hi]) :
    Calls calm excused (blkReadLastBlockDone ⟨t, task⟩ io)
      (fun _ w' => Dropped calm w t io r w' ∨
        r.good = true ∧ ∃ m' : Bytes,
          (∀ k < w.dev.blockSize, m' k = m.patch 0 (subSize hi lo)
            (fun k => (w.ios io).desc.buf (subSize (w.ios io).desc.nbytes (subSize hi lo) + k)) k) ∧
          Passed w t io (w.ios io).desc .blkWriteLastBlockDone
            [reqBuf w.dev (addSize (w.ios io).desc.offset (w.ios io).desc.nbytes / w.dev.blockSize)
              1 true, blockBuf w.dev m' false lo hi, respBuf ⟨0, 0⟩] w') w := by
  have hmid := Mid.refl h.busy
  have hnew := hmid.addTask.setFailed
  have howns : w.addTask.owns w.nextTask = true := owns_addTask_self h.nextFlight
  refine wpIf_bind (calls_useIo h.ioBusy (wpIf_bind (calls_getBuf h.owns ?_)))
  refine wpIf_bind (calls_assertThat (by simp [VirtioTask.count, hbufs]) ?_)
  simp only [hbufs, respBuf, List.getElem?_cons_succ, List.getElem?_cons_zero, Option.map_some]
  refine wpIf_bind (calls_respGood ?_)
  cases hgood : r.good with
  | false => exact h.abandonOld rfl hmid (fun hg => by rw [hgood] at hg; cases hg) fun _ => hgood
  | true =>
      refine wpIf_bind (calls_create (fun hc => h.abandonOld rfl hmid.setFailed (fun _ => rfl)
        fun hcalm => absurd hcalm hc) ?_)
      refine wpIf_bind (calls_allocBuf howns (by simp [VirtioTask.count, VirtioTask.empty])
        (h.abandon rfl rfl hnew rfl) ?_)
      refine wpIf_bind (calls_vbufOf ?_ (by rw [hbufs]; rfl) ?_)
      · rw [owns_addTask_of_ne h.ne_next]
        exact h.owns
      refine wpIf_bind (wpIf_state (wpIf_bind (calls_allocPart howns ?_ (h.abandon rfl rfl hnew rfl)
        fun junk _ => ?_)))
      · simp [VirtioTask.count, VirtioTask.empty, TaskRef.push]
      refine wpIf_bind (calls_useIo h.ioBusy ?_)
      simp only [blockBuf, show (w.addTask.ios io).desc = (w.ios io).desc from rfl]
      refine h.writeBack rfl rfl ?_ fun w' hw => ⟨trivial, _, patch_block junk m _ _ _, hw⟩
      simp [VirtioTask.count, VirtioTask.empty, TaskRef.push, memcpyTo, TaskRef.modify,
        createRwCdbAt]

theorem blkWriteLastBlockDone_calls (h : Ready excused w t io)
    (hbufs : task.vbufs = [q, blockBuf w.dev m false lo hi, respBuf r]) :
    Calls calm excused (blkWriteLastBlockDone ⟨t, task⟩ io)
      (fun _ w' => (r.good = false ∧ Closed w t io (w.ios io).desc w') ∨
        (r.good = true ∧ Closed w t io { (w.ios io).desc with
          retval := if (w.ios io).desc.retval < 0 then toSsize (subSize hi lo)
            else toSsize (addSize (w.ios io).desc.retval.toNat (subSize hi lo)) } w')) w := by
  have hmid := Mid.refl h.busy
  refine wpIf_bind (calls_useIo h.ioBusy (wpIf_bind (calls_getBuf h.owns ?_)))
  refine wpIf_bind (calls_assertThat (by simp [VirtioTask.count, hbufs]) ?_)
  simp only [hbufs, respBuf, List.getElem?_cons_succ, List.getElem?_cons_zero, Option.map_some]
  refine wpIf_bind (calls_respGood ?_)
  cases hgood : r.good with
  | false =>
      refine wpIf_bind (calls_push h.ioBusy h.space (calls_destroy h.owns (Or.inl ⟨rfl, ?_⟩)))
      exact (hmid.freeTask h.live).closed live_free
  | true =>
      refine wpIf_bind (calls_vbufOf h.owns (by rw [hbufs]; rfl) ?_)
      refine wpIf_bind (calls_useIo h.ioBusy ?_)
      have hret := hmid.setRetval (if (w.ios io).desc.retval < 0 then toSsize (subSize hi lo)
        else toSsize (addSize (w.ios io).desc.retval.toNat (subSize hi lo)))
      refine wpIf_bind (calls_setRetval h.ioBusy ?_)
      refine wpIf_bind (calls_push hret.ioBusy (hret.space h.space) ?_)
      refine calls_destroy h.owns (Or.inr ⟨rfl, ?_⟩)
      exact (hret.freeTask h.live).closed live_free

/-- The part of `blk_write_full_blocks_done` after the old task was destroyed gives up. -/
theorem Ready.abandonFull (h : Ready excused w t io) {new : TaskRef} {desc : AsyncIoDesc}
    {P : World → Prop} (hn : new.id = w.nextTask) {v : World}
    (hmid : Mid w io desc (Function.update (Function.update w.live t false) w.nextTask true) v)
    (hfail : v.failed = true) (hcalm : ¬ calm) :
    Calls calm excused (writeDoneFull io (some new))
      (fun _ w' => (¬ calm ∧ Closed w t io desc w' ∧ w'.failed = true) ∨ P w') v := by
  refine wpIf_bind (calls_push hmid.ioBusy (hmid.space h.space) (calls_destroy ?_
    (Or.inl ⟨hcalm, ?_, hfail⟩)))
  · rw [hn]
    exact hmid.owns (Function.update_self ..) h.nextFlight
  · rw [hn]
    exact (hmid.freeTask (Function.update_self ..)).closed (live_new_free h.nextLive)

/-- The remaining bytes are not all of their block, or the assertion fails. -/
theorem Ready.lastRead (h : Ready excused w t io) {desc : AsyncIoDesc} {v : World}
    (hresid : ¬ excused → addSize desc.offset desc.nbytes % w.dev.blockSize ≠ 0)
    (hmid : Mid w io desc (Function.update w.live t false) v) (hnext : v.nextTask = w.nextTask) :
    Calls calm excused (submitLastRead io desc)
      (fun _ w' => (¬ calm ∧ Closed w t io desc w' ∧ w'.failed = true) ∨
        addSize desc.offset desc.nbytes % w.dev.blockSize ≠ 0 ∧
        ∃ m' : Bytes, Passed w t io desc .blkReadLastBlockDone
          [reqBuf w.dev (addSize desc.offset desc.nbytes / w.dev.blockSize) 1 false, respBuf ⟨0, 0⟩,
            blockBuf w.dev m' true 0 (addSize desc.offset desc.nbytes % w.dev.blockSize)] w') v := by
  have hnew := hmid.addTask
  rw [hnext] at hnew
  have howns := hnew.owns (Function.update_self ..) h.nextFlight
  refine wpIf_bind (calls_create (fun hc => ?_) ?_)
  · exact wpIf_bind (calls_push hmid.setFailed.ioBusy (hmid.setFailed.space h.space)
      (wpIf_pure (Or.inl ⟨hc, hmid.setFailed.closed live_free, rfl⟩)))
  rw [hnext]
  refine wpIf_bind (calls_allocBuf howns (by simp [VirtioTask.count, VirtioTask.empty])
    (fun hc => ?_) ?_)
  · refine wpIf_bind (calls_allocBuf howns (by simp [VirtioTask.count, VirtioTask.empty])
      (fun _ => ?_) ?_)
    · exact h.abandonFull rfl hnew.setFailed.setFailed rfl hc
    · exact h.abandonFull rfl hnew.setFailed rfl hc
  · refine wpIf_bind (calls_allocBuf howns (by simp [VirtioTask.count, VirtioTask.empty,
      TaskRef.push]) (h.abandonFull rfl hnew.setFailed rfl) ?_)
    refine wpIf_bind (wpIf_state ?_)
    rw [hnew.dev]
    refine wpIf_bind (wpIf_check (fun hx => bne_iff_ne.mpr (hresid hx)) fun hne => ?_)
    refine wpIf_bind (calls_allocPart howns ?_ (h.abandonFull rfl hnew.setFailed rfl) fun m' _ => ?_)
    · simp [VirtioTask.count, VirtioTask.empty, TaskRef.push, createRwCdbAt, TaskRef.modify]
    refine wpIf_bind (calls_submitTask howns (h.abandonFull rfl hnew.setFailed rfl) ?_)
    refine wpIf_pure (Or.inr ⟨bne_iff_ne.mp hne, m',
      hnew.passed ?_ (congrArg (· + 1) hnext) live_pass'⟩)
    rfl

/-- What was written is all of the request, or the block with the remaining bytes is read. -/
theorem blkWriteFullBlocksDone_calls (h : Ready excused w t io) {data : List Buffer} (hdata : data ≠ [])
    (hbufs : task.vbufs = q :: (data ++ [respBuf r]))
    (hresid : ¬ excused → sumRanges data ≠ (w.ios io).desc.nbytes →
      addSize (w.ios io).desc.offset (w.ios io).desc.nbytes % w.dev.blockSize ≠ 0) :
    Calls calm excused (blkWriteFullBlocksDone ⟨t, task⟩ io) (fun _ w' => (r.good = false ∧
        Closed w t io (w.ios io).desc w') ∨
      (r.good = true ∧ ∃ desc, desc = { (w.ios io).desc with retval := toSsize (sumRanges data) } ∧
        ((sumRanges data = (w.ios io).desc.nbytes ∧ Closed w t io desc w') ∨
          sumRanges data ≠ (w.ios io).desc.nbytes ∧
          ((¬ calm ∧ Closed w t io desc w' ∧ w'.failed = true) ∨
            addSize desc.offset desc.nbytes % w.dev.blockSize ≠ 0 ∧
            ∃ m' : Bytes, Passed w t io desc .blkReadLastBlockDone
              [reqBuf w.dev (addSize desc.offset desc.nbytes / w.dev.blockSize) 1 false,
                respBuf ⟨0, 0⟩, blockBuf w.dev m' true 0
                  (addSize desc.offset desc.nbytes % w.dev.blockSize)] w')))) w := by
  have hmid := Mid.refl h.busy
  have hcount : task.count = data.length + 2 := by
    simp [VirtioTask.count, hbufs]
  have hpos := List.length_pos_iff.mpr hdata
  refine wpIf_bind (calls_useIo h.ioBusy (wpIf_bind (calls_getBuf h.owns ?_)))
  refine wpIf_bind (calls_assertThat (by simp only [hcount, gt_iff_lt, decide_eq_true_eq]; omega) ?_)
  have hresp : task.vbufs[task.count - 1]?.map (·.buf) = some (.resp r) := by
    rw [hcount, hbufs]
    simp [respBuf]
  have hsum : (task.vbufs.drop 1).dropLast = data := by
    rw [hbufs]
    simp
  simp only [hresp, hsum]
  refine wpIf_bind (calls_respGood ?_)
  cases hgood : r.good with
  | false =>
      refine wpIf_bind (calls_push h.ioBusy h.space (calls_destroy h.owns (Or.inl ⟨rfl, ?_⟩)))
      exact (hmid.freeTask h.live).closed live_free
  | true =>
      -- the value is a conversion of a 64 bit number, which nothing here should unfold
      generalize toSsize (sumRanges data) = x
      have hret := hmid.setRetval x
      have howns := hret.owns h.live h.flight
      refine wpIf_bind (calls_setRetval h.ioBusy (wpIf_bind (calls_useIo hret.ioBusy ?_)))
      simp only [hret.own]
      refine wpIf_ite (fun heq => ?_) fun hdiff => ?_
      · refine wpIf_bind (calls_push hret.ioBusy (hret.space h.space) (calls_destroy howns (Or.inr ?_)))
        exact ⟨trivial, _, rfl, Or.inl ⟨heq, (hret.freeTask h.live).closed live_free⟩⟩
      have hread : Calls calm excused (submitLastRead io { (w.ios io).desc with retval := x }) _ _ :=
        h.lastRead (fun hx => hresid hx hdiff) (hret.freeTask h.live) rfl
      refine wpIf_bind (calls_destroy howns (wpIf_mono hread fun _ w' hw => ?_))
      exact Or.inr ⟨trivial, _, rfl, Or.inr ⟨hdiff, hw⟩⟩

/-! ## Requests within the device -/

theorem head_range {dev : VirtioDev} {d : AsyncIoDesc} (hok : dev.Ok) :
    subSize (firstResid dev d + headLen dev d) (firstResid dev d) = headLen dev d := by
  have hblock := head_in_block (d := d) hok
  have hint := hok.int
  rw [subSize_eq (Nat.le_add_right ..) (by omega), Nat.add_sub_cancel_left]

theorem tail_range {dev : VirtioDev} {d : AsyncIoDesc} (hok : dev.Ok) :
    subSize (lastResid dev d) 0 = lastResid dev d := by
  have hlt := lastResid_lt (d := d) hok
  have hint := hok.int
  rw [subSize_eq (Nat.zero_le _) (by omega), Nat.sub_zero]

theorem headWriteBufs_eq {dev : VirtioDev} {d : AsyncIoDesc} (hd : InRange dev d)
    (hr : firstResid dev d ≠ 0) : headWriteBufs dev d m (firstResid dev d)
      (firstResid dev d + headLen dev d) = bodyWriteBufs dev d ⟨0, 0⟩ m := by
  have hlt := hd.lt
  rw [headWriteBufs, bodyWriteBufs, head_range hd.ok, if_neg hr,
    subSize_eq (headLen_le dev d) (by omega)]
  rfl

theorem blkReadFirstBlockDone_spec (h : Ready excused w t io) (hd : InRange w.dev (w.ios io).desc)
    (hr : firstResid w.dev (w.ios io).desc ≠ 0)
    (hbufs : task.vbufs = firstReadBufs w.dev (w.ios io).desc r m) :
    Calls False excused (blkReadFirstBlockDone ⟨t, task⟩ io) (fun _ w' => Abandoned w t io r w' ∨
      r.good = true ∧ ∃ m' : Bytes,
        (∀ k < w.dev.blockSize, m' k = m.patch (firstResid w.dev (w.ios io).desc)
          (headLen w.dev (w.ios io).desc) (w.ios io).desc.buf k) ∧
        Passed w t io (w.ios io).desc .blkWriteFullBlocksDone
          (bodyWriteBufs w.dev (w.ios io).desc ⟨0, 0⟩ m') w') w := by
  refine wpIf_mono (blkReadFirstBlockDone_calls h hbufs) fun _ w' hw => ?_
  rw [head_range hd.ok] at hw
  rcases hw with ⟨-, habandoned⟩ | ⟨hgood, m', hblock, hpass⟩
  · exact Or.inl habandoned
  · rw [headWriteBufs_eq hd hr] at hpass
    exact Or.inr ⟨hgood, m', hblock, hpass⟩

theorem blkReadLastBlockDone_spec (h : Ready excused w t io) (hd : InRange w.dev (w.ios io).desc)
    (hle : lastResid w.dev (w.ios io).desc ≤ (w.ios io).desc.nbytes)
    (hbufs : task.vbufs = lastReadBufs w.dev (w.ios io).desc r m) :
    Calls False excused (blkReadLastBlockDone ⟨t, task⟩ io) (fun _ w' => Abandoned w t io r w' ∨
      r.good = true ∧ ∃ m' : Bytes,
        (∀ k < w.dev.blockSize, m' k = m.patch 0 (lastResid w.dev (w.ios io).desc)
          (fun k => (w.ios io).desc.buf
            ((w.ios io).desc.nbytes - lastResid w.dev (w.ios io).desc + k)) k) ∧
        Passed w t io (w.ios io).desc .blkWriteLastBlockDone
          (lastWriteBufs w.dev (w.ios io).desc ⟨0, 0⟩ m') w') w := by
  have hlt := hd.lt
  refine wpIf_mono (blkReadLastBlockDone_calls h hbufs) fun _ w' hw => ?_
  rw [tail_range hd.ok, subSize_eq hle (by omega), addSize_eq hlt] at hw
  rcases hw with ⟨-, habandoned⟩ | hpass
  · exact Or.inl habandoned
  · exact Or.inr hpass

/-- What `blk_write_last_block_done` stores in `io_desc->retval`. -/
def lastRetval (dev : VirtioDev) (d : AsyncIoDesc) : Int :=
  if d.retval < 0 then toSsize (lastResid dev d)
  else toSsize (addSize d.retval.toNat (lastResid dev d))

theorem blkWriteLastBlockDone_spec (h : Ready excused w t io) (hd : InRange w.dev (w.ios io).desc)
    (hbufs : task.vbufs = lastWriteBufs w.dev (w.ios io).desc r m) :
    Calls False excused (blkWriteLastBlockDone ⟨t, task⟩ io) (fun _ w' => (r.good = false ∧
        Closed w t io (w.ios io).desc w') ∨
      (r.good = true ∧ Closed w t io { (w.ios io).desc with
        retval := lastRetval w.dev (w.ios io).desc } w')) w := by
  refine wpIf_mono (blkWriteLastBlockDone_calls h hbufs) fun _ w' hw => ?_
  rw [tail_range hd.ok] at hw
  exact hw

/-- The request, the data and the response of the command for head and middle. -/
theorem bodyWriteBufs_split {dev : VirtioDev} {d : AsyncIoDesc} (hd : InRange dev d) :
    ∃ q data, bodyWriteBufs dev d r m = q :: (data ++ [respBuf r]) ∧ data ≠ [] ∧
      sumRanges data = bodyLen dev d := by
  have hlt := hd.lt
  have hbody := bodyLen_le dev d
  have hhead := head_range (d := d) hd.ok
  unfold bodyLen at hbody ⊢
  have hmid : subSize (midBlocks dev d * dev.blockSize) 0 = midBlocks dev d * dev.blockSize := by
    rw [subSize_eq (Nat.zero_le _) (by omega), Nat.sub_zero]
  unfold bodyWriteBufs
  split
  · next hr =>
      refine ⟨_, [userBuf 0 (midBlocks dev d * dev.blockSize) false], rfl, by simp, ?_⟩
      simp only [sumRanges, List.foldl_cons, List.foldl_nil, userBuf, hmid,
        headLen_of_aligned hr]
      rw [addSize_eq (by omega)]
  · split
    · refine ⟨_, [blockBuf dev m false (firstResid dev d) (firstResid dev d + headLen dev d),
        userBuf (headLen dev d) (midBlocks dev d * dev.blockSize) false], rfl, by simp, ?_⟩
      simp only [sumRanges, List.foldl_cons, List.foldl_nil, userBuf, blockBuf, hmid, hhead]
      rw [show addSize 0 (headLen dev d) = headLen dev d by rw [addSize_eq (by omega), Nat.zero_add],
        addSize_eq (by omega)]
    · next hone =>
        refine ⟨_, [blockBuf dev m false (firstResid dev d) (firstResid dev d + headLen dev d)],
          rfl, by simp, ?_⟩
        have hall : headLen dev d = d.nbytes := by
          have := headLen_le dev d
          omega
        simp only [sumRanges, List.foldl_cons, List.foldl_nil, blockBuf, hhead,
          midBlocks_of_head hall]
        rw [addSize_eq (by omega)]
        omega

theorem blkWriteFullBlocksDone_spec (h : Ready excused w t io) (hd : InRange w.dev (w.ios io).desc)
    (hbufs : task.vbufs = bodyWriteBufs w.dev (w.ios io).desc r m) :
    Calls False excused (blkWriteFullBlocksDone ⟨t, task⟩ io) (fun _ w' => (r.good = false ∧
        Closed w t io (w.ios io).desc w') ∨
      (r.good = true ∧ ∃ desc, desc = { (w.ios io).desc with
          retval := toSsize (bodyLen w.dev (w.ios io).desc) } ∧
        ((bodyLen w.dev (w.ios io).desc = (w.ios io).desc.nbytes ∧ Closed w t io desc w') ∨
          bodyLen w.dev (w.ios io).desc ≠ (w.ios io).desc.nbytes ∧
          ((Closed w t io desc w' ∧ w'.failed = true) ∨ ∃ m' : Bytes,
            Passed w t io desc .blkReadLastBlockDone
              (lastReadBufs w.dev (w.ios io).desc ⟨0, 0⟩ m') w')))) w := by
  obtain ⟨q, data, hsplit, hne, hsum⟩ := bodyWriteBufs_split (r := r) (m := m) hd
  rw [hsplit] at hbufs
  have hresid : sumRanges data ≠ (w.ios io).desc.nbytes →
      addSize (w.ios io).desc.offset (w.ios io).desc.nbytes % w.dev.blockSize ≠ 0 := fun hdiff => by
    rw [hsum] at hdiff
    rw [addSize_eq hd.lt]
    exact Nat.ne_of_gt (lastResid_pos hd.ok hdiff)
  refine wpIf_mono (blkWriteFullBlocksDone_calls h hne hbufs fun _ => hresid)
    fun _ w' hw => ?_
  rw [hsum] at hw
  rcases hw with hbad | ⟨hgood, desc, rfl, hall | ⟨hdiff, ⟨-, hfail⟩ | ⟨-, m', hpass⟩⟩⟩
  · exact Or.inl hbad
  · exact Or.inr ⟨hgood, _, rfl, Or.inl hall⟩
  · exact Or.inr ⟨hgood, _, rfl, Or.inr ⟨hdiff, Or.inl hfail⟩⟩
  · rw [addSize_eq hd.lt] at hpass
    exact Or.inr ⟨hgood, _, rfl, Or.inr ⟨hdiff, Or.inr ⟨m', hpass⟩⟩⟩

end WriteCallbacks

/-! ## The read callback -/

section ReadCallback

variable {t io : Nat} {task : Task} {r : VirtioScsiCmdResp}

/-- The request a descriptor stands for; buffer and result may change under way. -/
structure SameRequest (d d' : AsyncIoDesc) : Prop where
  type : d'.type = d.type
  offset : d'.offset = d.offset
  nbytes : d'.nbytes = d.nbytes

theorem SameRequest.result (d : AsyncIoDesc) (m : Bytes) (x : Int) :
    SameRequest d { d with buf := m, retval := x } := ⟨rfl, rfl, rfl⟩

theorem SameRequest.retval (d : AsyncIoDesc) (x : Int) : SameRequest d { d with retval := x } :=
  ⟨rfl, rfl, rfl⟩

theorem blkReadLoop_le {bytes : BufPtr → Bytes} {usedBytes : Nat} (hused : usedBytes < 2 ^ 64)
    (vbufs : List Buffer) (nbytes : Nat) (m : Bytes) (hle : nbytes ≤ usedBytes) :
    (blkReadLoop bytes usedBytes vbufs nbytes m).1 ≤ usedBytes := by
  induction vbufs generalizing nbytes m with
  | nil => exact hle
  | cons vbuf rest ih =>
      -- a range that would go beyond the transferred bytes is cut there
      have hnext : addSize nbytes (if addSize nbytes (subSize vbuf.offsetTo vbuf.offsetFrom) >
          usedBytes then subSize usedBytes nbytes
          else subSize vbuf.offsetTo vbuf.offsetFrom) ≤ usedBytes := by
        split
        · rw [subSize_eq hle hused, addSize_eq (by omega)]
          omega
        · next hcut => exact Nat.le_of_not_gt hcut
      simp only [blkReadLoop]
      generalize (if addSize nbytes (subSize vbuf.offsetTo vbuf.offsetFrom) > usedBytes then
        subSize usedBytes nbytes else subSize vbuf.offsetTo vbuf.offsetFrom) = delta at hnext ⊢
      split
      · exact hnext
      · exact ih _ _ hnext

/-- The descriptor is given back with the bytes that the loop over the data buffers has copied. -/
theorem blkReadDone_calls (h : Held excused w t io) {b : Buffer} (hbuf : task.vbufs[1]? = some b)
    (hresp : b.buf = .resp r) : Calls calm excused (blkReadDone ⟨t, task⟩ io) (fun _ w' =>
      (r.good = false ∧ Closed w t io { (w.ios io).desc with retval := -1 } w') ∨
      r.good = true ∧ ∃ res, res = blkReadLoop (w.bytes io) (subSize task.usedBytes sizeofResp)
          (task.vbufs.drop 2) 0 (w.ios io).desc.buf ∧
        Closed w t io { (w.ios io).desc with buf := res.2, retval := toSsize res.1 } w') w := by
  have hmid := Mid.refl h.busy
  have hret := hmid.setRetval (-1)
  refine wpIf_bind (calls_useIo h.ioBusy (wpIf_bind (calls_getBuf h.owns ?_)))
  simp only [hbuf, Option.map_some, hresp]
  refine wpIf_bind (calls_setRetval h.ioBusy (wpIf_bind (calls_respGood ?_)))
  cases hgood : r.good with
  | false =>
      refine wpIf_bind (calls_push hret.ioBusy (hret.space h.space) (calls_destroy h.owns ?_))
      exact Or.inl ⟨rfl, (hret.freeTask h.live).closed live_free⟩
  | true =>
      refine wpIf_bind (calls_useIo hret.ioBusy (wpIf_bind (wpIf_state ?_)))
      refine wpIf_bind (calls_assertThat (decide_eq_true (blkReadLoop_le ?_ _ _ _ (Nat.zero_le _))) ?_)
      · exact Nat.mod_lt _ (by decide)
      have hbytes : (w.setRetval io (-1)).bytes io = w.bytes io := by
        funext p
        cases p with
        | user off =>
            simp only [World.bytes, hret.own]
        | _ => rfl
      simp only [hret.own, hbytes]
      refine wpIf_bind (wpIf_update (wpIf_bind ?_))
      generalize hres : blkReadLoop _ _ _ _ _ = res
      have hdone := hret.setDesc { (w.ios io).desc with buf := res.2, retval := toSsize res.1 }
      refine calls_push hdone.ioBusy (hdone.space h.space) (calls_destroy h.owns (Or.inr ⟨trivial, ?_⟩))
      exact ⟨res, rfl, (hdone.freeTask h.live).closed live_free⟩

theorem blkReadDone_spec (h : Held excused w t io) {b : Buffer} (hbuf : task.vbufs[1]? = some b)
    (hresp : b.buf = .resp r) :
    Calls False excused (blkReadDone ⟨t, task⟩ io) (fun _ w' => ∃ desc, SameRequest (w.ios io).desc desc ∧
      Closed w t io desc w') w := by
  refine wpIf_mono (blkReadDone_calls h hbuf hresp) fun _ w' hw => ?_
  rcases hw with ⟨-, hclosed⟩ | ⟨-, res, -, hclosed⟩
  · exact ⟨_, .retval _ _, hclosed⟩
  · exact ⟨_, .result _ _ _, hclosed⟩

end ReadCallback

end VhostUser.Dev
