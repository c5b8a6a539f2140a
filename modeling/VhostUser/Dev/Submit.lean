import VhostUser.Dev.Spec

/-! # What a submission does

`virtio_submit` refuses a request and leaves nothing behind, or it hands the
descriptor over to exactly one command: a read, the read of a block that is written
in part, or the write of head and middle.
-/

namespace VhostUser.Dev

open VhostUser.Lib Prog

variable {w : World} {io : Nat} {calm excused : Prop}

structure Entered (w : World) (io : Nat) : Prop where
  busy : (w.ios io).state = .busy
  nextLive : w.live w.nextTask = false
  nextFlight : w.flights w.nextTask = none

theorem calls_giveUp (h : Entered w io) {task : TaskRef} {desc : AsyncIoDesc} {v : World}
    {Q : Int → World → Prop} (ht : task.id = w.nextTask)
    (hmid : Mid w io desc (Function.update w.live w.nextTask true) v) (hfail : v.failed = true)
    (hQ : ¬ calm → ∀ w', Mid w io desc w.live w' → w'.failed = true → Q (-1) w') (hcalm : ¬ calm) :
    Calls calm excused (giveUp task) Q v := by
  have howns := hmid.owns (Function.update_self ..) h.nextFlight
  rw [← ht] at howns
  refine wpIf_bind (calls_destroy howns (wpIf_pure (hQ hcalm _ ?_ hfail)))
  have hfree := hmid.freeTask (Function.update_self ..)
  rw [Function.update_idem, Function.update_eq_self_iff.mpr h.nextLive.symm] at hfree
  rw [ht]
  exact hfree

/-- A submission has sent its first command. No task was owned before, so none is freed. -/
theorem Mid.started {desc : AsyncIoDesc} {v : World} {task : Task} {cb : TaskCb}
    {vbufs : List Buffer} (hmid : Mid w io desc (Function.update w.live w.nextTask true) v)
    (hnext : v.nextTask = w.nextTask + 1) (hvbufs : task.vbufs = vbufs) :
    Passed w w.nextTask io desc cb vbufs (v.putFlight w.nextTask ⟨task, cb, io, false⟩) := by
  refine hmid.passed hvbufs hnext fun x => ?_
  by_cases hx : x = w.nextTask
  · simp [hx]
  · rw [Function.update_of_ne hx, beq_false_of_ne hx, bne_iff_ne.mpr hx, Bool.and_true,
      Bool.false_or]

/-- The end of every submission: publish the task or give it up. -/
theorem calls_submitOrGiveUp (h : Entered w io) {task : TaskRef} {cb : TaskCb}
    {desc : AsyncIoDesc} {v : World} {vbufs : List Buffer} {Q : Int → World → Prop}
    (ht : task.id = w.nextTask)
    (hmid : Mid w io desc (Function.update w.live w.nextTask true) v)
    (hnext : v.nextTask = w.nextTask + 1) (hvbufs : task.task.vbufs = vbufs)
    (hfail : ¬ calm → ∀ w', Mid w io desc w.live w' → w'.failed = true → Q (-1) w')
    (hok : ∀ w', Passed w w.nextTask io desc cb vbufs w' → Q 0 w') :
    Calls calm excused (do
      let rc ← vringSubmitTask task cb io
      if rc ≠ 0 then giveUp task else pure 0) Q v := by
  have howns := hmid.owns (Function.update_self ..) h.nextFlight
  rw [← ht] at howns
  refine wpIf_bind (calls_submitTask howns (calls_giveUp h ht hmid.setFailed rfl hfail) ?_)
  refine wpIf_pure (hok _ ?_)
  rw [ht]
  exact hmid.started hnext hvbufs

/-! ## Writes -/

theorem calls_submitPartialRead (h : Entered w io) {task : TaskRef} {cb : TaskCb}
    {desc : AsyncIoDesc} {v : World} {q : Buffer} {lo hi : Nat} {Q : Int → World → Prop}
    (ht : task.id = w.nextTask)
    (hmid : Mid w io desc (Function.update w.live w.nextTask true) v)
    (hnext : v.nextTask = w.nextTask + 1) (hvbufs : task.task.vbufs = [q])
    (hlim : task.task.limit = 4)
    (hfail : ¬ calm → ∀ w', Mid w io desc w.live w' → w'.failed = true → Q (-1) w')
    (hok : ∀ m w', Passed w w.nextTask io desc cb
      [q, respBuf ⟨0, 0⟩, blockBuf w.dev m true lo hi] w' → Q 0 w') :
    Calls calm excused (submitPartialRead w.dev task lo hi cb io) Q v := by
  have howns := hmid.owns (Function.update_self ..) h.nextFlight
  rw [← ht] at howns
  refine wpIf_bind (calls_allocBuf howns ?_ (calls_giveUp h ht hmid.setFailed rfl hfail) ?_)
  · simp [VirtioTask.count, hvbufs, hlim]
  refine wpIf_bind (calls_allocPart howns ?_ (calls_giveUp h ht hmid.setFailed rfl hfail)
    fun m _ => ?_)
  · simp [VirtioTask.count, TaskRef.push, hvbufs, hlim]
  refine calls_submitOrGiveUp h ht hmid hnext ?_ hfail (hok m)
  simp only [TaskRef.push, hvbufs, List.cons_append, List.nil_append]
  rfl

inductive OpeningCommand (dev : VirtioDev) (d : AsyncIoDesc) : TaskCb → List Buffer → Prop
  | head (m : Bytes) (hr : firstResid dev d ≠ 0) : OpeningCommand dev d .blkReadFirstBlockDone
      [reqBuf dev (d.offset / dev.blockSize) 1 false, respBuf ⟨0, 0⟩,
        blockBuf dev m true (firstResid dev d) (addSize (firstResid dev d) (clippedHead dev d))]
  | body (hr : firstResid dev d = 0) (hmany : 0 < clippedLen dev d / dev.blockSize) :
      OpeningCommand dev d .blkWriteFullBlocksDone
      [reqBuf dev (d.offset / dev.blockSize) (clippedLen dev d / dev.blockSize) true,
        userBuf 0 (clippedLen dev d / dev.blockSize * dev.blockSize) false, respBuf ⟨0, 0⟩]
  | tail (m : Bytes) (hr : firstResid dev d = 0) (hone : clippedLen dev d < dev.blockSize) :
      OpeningCommand dev d .blkReadLastBlockDone
      [reqBuf dev (d.offset / dev.blockSize) 1 false, respBuf ⟨0, 0⟩,
        blockBuf dev m true 0 (clippedLen dev d % dev.blockSize)]

theorem writeVirtioDevAsync_calls (h : Entered w io) (hpos : 0 < w.dev.blockSize)
    (hoff : (w.ios io).desc.offset ≤ w.dev.cap) (hn : 0 < (w.ios io).desc.nbytes) :
    Calls calm excused (writeVirtioDevAsync io) (fun rc w' =>
      ∃ desc, desc = { (w.ios io).desc with retval := -1 } ∧
        ((rc = -1 ∧ ¬ calm ∧ Mid w io desc w.live w' ∧ w'.failed = true) ∨
          (rc = 0 ∧ ∃ cb vbufs, OpeningCommand w.dev (w.ios io).desc cb vbufs ∧
            Passed w w.nextTask io desc cb vbufs w'))) w := by
  have hmid := (Mid.refl h.busy).setRetval (-1)
  have hnew := hmid.addTask
  have hfail : ¬ calm → ∀ w', Mid w io { (w.ios io).desc with retval := -1 } w.live w' →
      w'.failed = true → ∃ desc, desc = { (w.ios io).desc with retval := -1 } ∧
      (((-1 : Int) = -1 ∧ ¬ calm ∧ Mid w io desc w.live w' ∧ w'.failed = true) ∨
        ((-1 : Int) = 0 ∧ ∃ cb vbufs, OpeningCommand w.dev (w.ios io).desc cb vbufs ∧
          Passed w w.nextTask io desc cb vbufs w')) := fun hc w' hw hf =>
    ⟨_, rfl, Or.inl ⟨rfl, hc, hw, hf⟩⟩
  refine wpIf_bind (calls_useIo (by simp [World.ioBusy, h.busy]) (wpIf_bind (wpIf_state ?_)))
  refine wpIf_ite (fun hbig => by omega) fun _ => wpIf_ite (fun hzero => by omega) fun _ => ?_
  refine wpIf_bind (calls_setRetval (by simp [World.ioBusy, h.busy]) (wpIf_bind
    (calls_create (fun hc => ?_) ?_)))
  · exact wpIf_pure (hfail hc _ hmid.setFailed rfl)
  have howns := hnew.owns (Function.update_self ..) h.nextFlight
  refine wpIf_bind (calls_allocBuf howns (by simp [VirtioTask.count, VirtioTask.empty])
    (calls_giveUp h rfl hnew.setFailed rfl hfail) ?_)
  refine wpIf_bind (calls_divideBy hpos (wpIf_ite (fun hr => ?_) fun hr => ?_))
  · refine calls_submitPartialRead h rfl hnew rfl rfl rfl hfail fun m w' hw => ?_
    refine ⟨_, rfl, Or.inr ⟨rfl, _, _, .head m hr, ?_⟩⟩
    rw [clippedHead, if_neg (show firstResid w.dev (w.ios io).desc ≠ 0 from hr)]
    exact hw
  have hr' : firstResid w.dev (w.ios io).desc = 0 := Decidable.not_not.mp hr
  refine wpIf_ite (fun hmany => ?_) fun hnone => ?_
  · refine wpIf_bind (calls_addBuf howns ?_ ?_)
    · simp [VirtioTask.count, VirtioTask.empty, TaskRef.push, createRwCdbAt, TaskRef.modify]
    refine wpIf_bind (calls_allocBuf howns ?_ (calls_giveUp h rfl hnew.setFailed rfl hfail) ?_)
    · simp [VirtioTask.count, VirtioTask.empty, TaskRef.push, createRwCdbAt, TaskRef.modify]
    refine calls_submitOrGiveUp h rfl hnew rfl rfl hfail fun w' hw => ?_
    exact ⟨_, rfl, Or.inr ⟨rfl, _, _, .body hr' hmany, hw⟩⟩
  · have hsmall : clippedLen w.dev (w.ios io).desc < w.dev.blockSize := by
      rcases Nat.div_eq_zero_iff.mp (Nat.le_zero.mp (Nat.not_lt.mp hnone)) with hz | hlt
      · omega
      · exact hlt
    refine wpIf_bind (calls_assertThat (decide_eq_true hsmall) ?_)
    refine calls_submitPartialRead h rfl hnew rfl rfl rfl hfail fun m w' hw => ?_
    exact ⟨_, rfl, Or.inr ⟨rfl, _, _, .tail m hr' hsmall, hw⟩⟩

/-- The first command of a write within the device. -/
inductive FirstWriteCommand (dev : VirtioDev) (d : AsyncIoDesc) : TaskCb → List Buffer → Prop
  | head (m : Bytes) (hr : firstResid dev d ≠ 0) :
      FirstWriteCommand dev d .blkReadFirstBlockDone (firstReadBufs dev d ⟨0, 0⟩ m)
  | body (m : Bytes) (hr : firstResid dev d = 0) (hmid : 0 < midBlocks dev d) :
      FirstWriteCommand dev d .blkWriteFullBlocksDone (bodyWriteBufs dev d ⟨0, 0⟩ m)
  | tail (m : Bytes) (hbody : bodyLen dev d = 0) :
      FirstWriteCommand dev d .blkReadLastBlockDone (lastReadBufs dev d ⟨0, 0⟩ m)

section InRange

variable {dev : VirtioDev} {d : AsyncIoDesc}

theorem InRange.clippedLen (h : InRange dev d) : clippedLen dev d = d.nbytes := by
  rw [Dev.clippedLen, clipToCap, addSize_eq h.lt, if_neg (Nat.not_lt.mpr h.le)]

theorem InRange.clippedHead (h : InRange dev d) : clippedHead dev d = headLen dev d := by
  have hlt := h.lt
  have hfirst : firstResid dev d ≤ d.offset := Nat.mod_le d.offset dev.blockSize
  rw [Dev.clippedHead, headLen, h.clippedLen, addSize_eq (by omega)]
  split
  · rfl
  · split
    · omega
    · omega

/-- A request that starts with a block and does not fill it is a tail. -/
theorem tail_of_aligned (h : InRange dev d) (hr : firstResid dev d = 0)
    (hlt : d.nbytes < dev.blockSize) :
    bodyLen dev d = 0 ∧ d.nbytes % dev.blockSize = lastResid dev d ∧
      d.offset / dev.blockSize = (d.offset + d.nbytes) / dev.blockSize := by
  have hbody : bodyLen dev d = 0 := by
    simp [bodyLen, midBlocks, headLen_of_aligned hr, Nat.div_eq_of_lt hlt]
  have hpos := h.pos
  obtain ⟨hlast, hstart⟩ := tail_spec h.ok (d := d) (by omega)
  refine ⟨hbody, ?_, ?_⟩
  · rw [hlast, hbody, Nat.mod_eq_of_lt hlt, Nat.sub_zero]
  · have hblock := first_block dev d
    rw [hr] at hblock
    apply Nat.eq_of_mul_eq_mul_right h.ok.pos
    omega

theorem OpeningCommand.first (h : InRange dev d) {cb : TaskCb} {vbufs : List Buffer}
    (hopen : OpeningCommand dev d cb vbufs) : FirstWriteCommand dev d cb vbufs := by
  cases hopen with
  | head m hr =>
      have hfits := head_in_block (d := d) h.ok
      have hint := h.ok.int
      rw [h.clippedHead, addSize_eq (by omega)]
      exact .head m hr
  | body hr hmany =>
      rw [h.clippedLen] at hmany ⊢
      have hblocks : d.nbytes / dev.blockSize = midBlocks dev d := by
        rw [midBlocks, headLen_of_aligned hr, Nat.sub_zero]
      have hbody : FirstWriteCommand dev d .blkWriteFullBlocksDone
          (bodyWriteBufs dev d ⟨0, 0⟩ fun _ => 0) := .body _ hr (hblocks ▸ hmany)
      rw [bodyWriteBufs, if_pos hr, ← hblocks] at hbody
      exact hbody
  | tail m hr hone =>
      rw [h.clippedLen] at hone ⊢
      obtain ⟨hbody, hlast, hblock⟩ := tail_of_aligned h hr hone
      rw [hlast, hblock]
      exact .tail m hbody

end InRange

theorem writeVirtioDevAsync_spec (h : Entered w io) (hd : InRange w.dev (w.ios io).desc) :
    Calls calm excused (writeVirtioDevAsync io) (fun rc w' =>
      ∃ desc, desc = { (w.ios io).desc with retval := -1 } ∧
        ((rc = -1 ∧ Mid w io desc w.live w' ∧ w'.failed = true) ∨
          (rc = 0 ∧ ∃ cb vbufs, FirstWriteCommand w.dev (w.ios io).desc cb vbufs ∧
            Passed w w.nextTask io desc cb vbufs w'))) w := by
  have hle := hd.le
  refine wpIf_mono (writeVirtioDevAsync_calls h hd.ok.pos (by omega) hd.pos) fun rc w' hw => ?_
  obtain ⟨desc, hdesc, ⟨hrc, -, hmid⟩ | ⟨hrc, cb, vbufs, hopen, hpass⟩⟩ := hw
  · exact ⟨desc, hdesc, Or.inl ⟨hrc, hmid⟩⟩
  · exact ⟨desc, hdesc, Or.inr ⟨hrc, cb, vbufs, hopen.first hd, hpass⟩⟩

/-! ## Reads -/

/-- The size of a buffer that receives data: one block, or the whole blocks. -/
def ReadPart (dev : VirtioDev) (d : AsyncIoDesc) (size : Nat) : Prop :=
  size = dev.blockSize ∨ 0 < midBlocks dev d ∧ size = midBlocks dev d * dev.blockSize

/-- The buffers of a read: request, response and what receives the data. -/
def ReadBufs (dev : VirtioDev) (d : AsyncIoDesc) (vbufs : List Buffer) : Prop :=
  ∃ lba n r rest, vbufs = reqBuf dev lba n false :: respBuf r :: rest ∧
    ∀ size ∈ rest.map VirtioBuffer.size, ReadPart dev d size

structure Extends (t t' : TaskRef) (more : List Buffer) : Prop where
  id : t'.id = t.id
  limit : t'.task.limit = t.task.limit
  vbufs : t'.task.vbufs = t.task.vbufs ++ more

theorem Extends.push (t : TaskRef) (b : Buffer) : Extends t (t.push b) (partBuf true b) :=
  ⟨rfl, rfl, rfl⟩

theorem Extends.refl (t : TaskRef) (b : Buffer) : Extends t t (partBuf false b) :=
  ⟨rfl, rfl, (List.append_nil _).symm⟩

theorem Extends.count_le {t t' : TaskRef} {c : Bool} {b : Buffer} (h : Extends t t' (partBuf c b)) :
    t'.task.count ≤ t.task.count + 1 := by
  rw [VirtioTask.count, h.vbufs, List.length_append]
  refine Nat.add_le_add_left ?_ _
  cases c <;> simp [partBuf]

theorem calls_addPartialBlock {dev : VirtioDev} {task : TaskRef} {partly : Bool} {lo hi : Nat}
    {Q : Option TaskRef → World → Prop} (ho : w.owns task.id = true)
    (hlim : task.task.count < task.task.limit) (hfail : ¬ calm → Q none w.setFailed)
    (hok : ∀ m task', Extends task task' (partBuf partly (blockBuf dev m true lo hi)) →
      Q (some task') w) :
    Calls calm excused (addPartialBlock dev task partly lo hi) Q w := by
  cases partly with
  | true =>
      exact wpIf_bind (calls_allocPart ho hlim (fun hc => wpIf_pure (hfail hc)) fun m _ =>
        wpIf_pure (hok m _ (.push _ _)))
  | false => exact wpIf_pure (hok (fun _ => 0) task (.refl _ _))

theorem calls_addWholeBlocks {dev : VirtioDev} {task : TaskRef} {pos nblk : Nat}
    {Q : TaskRef → World → Prop} (ho : w.owns task.id = true)
    (hlim : task.task.count < task.task.limit)
    (hok : ∀ task', Extends task task'
      (partBuf (decide (nblk > 0)) (userBuf pos (nblk * dev.blockSize) true)) → Q task' w) :
    Calls calm excused (addWholeBlocks dev task pos nblk) Q w := by
  refine wpIf_ite (fun hpos => calls_addBuf ho hlim (hok _ ?_)) fun hzero => wpIf_pure (hok task ?_)
  · rw [decide_eq_true hpos]
    exact .push _ _
  · rw [decide_eq_false hzero]
    exact .refl _ _

/-- The parts of a read as the submission computes them one after the other. -/
theorem read_parts {dev : VirtioDev} {d : AsyncIoDesc} (hlen : clippedLen dev d < 2 ^ 64) :
    (if (firstResid dev d != 0) = false then 0
      else if addSize (firstResid dev d) (clippedLen dev d) ≤ dev.blockSize then clippedLen dev d
      else dev.blockSize - firstResid dev d) = clippedHead dev d ∧
    subSize (clippedLen dev d) (clippedHead dev d) / dev.blockSize = clippedBlocks dev d ∧
    subSize (clippedLen dev d) (clippedHead dev d + clippedBlocks dev d * dev.blockSize) %
      dev.blockSize = clippedTail dev d ∧
    (decide (clippedHead dev d + clippedBlocks dev d * dev.blockSize < clippedLen dev d) &&
      clippedTail dev d != 0) = (clippedTail dev d != 0) := by
  have hhead := clippedHead_le dev d
  have hparts := clipped_parts dev d
  refine ⟨by simp [clippedHead], ?_, ?_, ?_⟩
  · rw [subSize_eq hhead hlen, clippedBlocks]
  · rw [subSize_eq (by omega) hlen, ← hparts, Nat.add_sub_cancel_left, clippedTail, Nat.mod_mod]
  · by_cases hzero : clippedTail dev d = 0
    · simp [hzero]
    · rw [decide_eq_true (by omega), Bool.true_and]

theorem readVirtioDevAsync_calls (h : Entered w io) (hpos : 0 < w.dev.blockSize)
    (hcap : w.dev.cap < 2 ^ 64) (hoff : (w.ios io).desc.offset ≤ w.dev.cap)
    (hn : 0 < (w.ios io).desc.nbytes) (hsize : (w.ios io).desc.nbytes < 2 ^ 64) :
    Calls calm excused (readVirtioDevAsync io) (fun rc w' =>
      (rc = -1 ∧ ¬ calm ∧ Mid w io (w.ios io).desc w.live w' ∧ w'.failed = true) ∨
        (rc = 0 ∧ ∃ head tail, Passed w w.nextTask io (w.ios io).desc .blkReadDone
          (readBufs w.dev (w.ios io).desc ⟨0, 0⟩ head tail) w')) w := by
  have hmid := Mid.refl h.busy
  have hnew := hmid.addTask
  have hfail : ¬ calm → ∀ w', Mid w io (w.ios io).desc w.live w' → w'.failed = true →
      ((-1 : Int) = -1 ∧ ¬ calm ∧ Mid w io (w.ios io).desc w.live w' ∧ w'.failed = true) ∨
        ((-1 : Int) = 0 ∧ ∃ head tail, Passed w w.nextTask io (w.ios io).desc .blkReadDone
          (readBufs w.dev (w.ios io).desc ⟨0, 0⟩ head tail) w') := fun hc w' hw hf =>
    Or.inl ⟨rfl, hc, hw, hf⟩
  have hlen : clippedLen w.dev (w.ios io).desc < 2 ^ 64 := clippedLen_lt hcap hsize
  have hhead := clippedHead_le w.dev (w.ios io).desc
  have hparts := clipped_parts w.dev (w.ios io).desc
  refine wpIf_bind (calls_useIo (by simp [World.ioBusy, h.busy]) (wpIf_bind (wpIf_state ?_)))
  refine wpIf_ite (fun hbig => by omega) fun _ => wpIf_ite (fun hzero => by omega) fun _ => ?_
  refine wpIf_bind (calls_create (fun hc => wpIf_pure (hfail hc _ hmid.setFailed rfl)) ?_)
  have howns := hnew.owns (Function.update_self ..) h.nextFlight
  refine wpIf_bind (calls_allocBuf howns (by simp [VirtioTask.count, VirtioTask.empty])
    (fun hc => ?_) ?_)
  · refine wpIf_bind (calls_allocBuf howns (by simp [VirtioTask.count, VirtioTask.empty])
      (fun _ => ?_) ?_)
    · exact calls_giveUp h rfl hnew.setFailed.setFailed rfl hfail hc
    · exact calls_giveUp h rfl hnew.setFailed rfl hfail hc
  refine wpIf_bind (calls_allocBuf howns (by simp [VirtioTask.count, VirtioTask.empty,
    TaskRef.push]) (calls_giveUp h rfl hnew.setFailed rfl hfail) ?_)
  refine wpIf_bind (calls_divideBy hpos ?_)
  obtain ⟨hfirst, hwhole, hlast, hpart⟩ := read_parts hlen
  have hclip : clipToCap w.dev (w.ios io).desc.offset (w.ios io).desc.nbytes =
      clippedLen w.dev (w.ios io).desc := rfl
  have hresid : (w.ios io).desc.offset % w.dev.blockSize = firstResid w.dev (w.ios io).desc := rfl
  simp only [hclip, hresid, hfirst, hwhole, hlast, hpart]
  -- at most three more buffers, and the limit is five
  refine wpIf_bind (calls_addPartialBlock howns (by simp [VirtioTask.count, VirtioTask.empty,
    TaskRef.push]) (calls_giveUp h rfl hnew.setFailed rfl hfail) fun head task₁ h₁ => ?_)
  refine wpIf_bind (calls_addWholeBlocks (by rw [h₁.id]; exact howns) ?_ fun task₂ h₂ => ?_)
  · have := h₁.count_le
    rw [h₁.limit]
    simp only [VirtioTask.count, VirtioTask.empty, TaskRef.push, Option.elim_some,
      List.nil_append, List.cons_append, List.length_cons, List.length_nil] at this ⊢
    omega
  refine wpIf_bind (calls_addPartialBlock (by rw [h₂.id, h₁.id]; exact howns) ?_
    (calls_giveUp h (h₂.id.trans h₁.id) hnew.setFailed rfl hfail) fun tail task₃ h₃ => ?_)
  · have := h₁.count_le
    have := h₂.count_le
    rw [h₂.limit, h₁.limit]
    simp only [VirtioTask.count, VirtioTask.empty, TaskRef.push, Option.elim_some,
      List.nil_append, List.cons_append, List.length_cons, List.length_nil] at *
    omega
  refine calls_submitOrGiveUp h (h₃.id.trans (h₂.id.trans h₁.id)) hnew rfl ?_ hfail
    fun w' hw => Or.inr ⟨rfl, head, tail, hw⟩
  simp only [createRwCdbAt, TaskRef.modify, h₃.vbufs, h₂.vbufs, h₁.vbufs, readBufs, readData,
    List.append_assoc]
  rfl

theorem InRange.readData_sizes {dev : VirtioDev} {d : AsyncIoDesc} (h : InRange dev d)
    (head tail : Bytes) : ∀ size ∈ (readData dev d head tail).map VirtioBuffer.size,
      ReadPart dev d size := by
  have hblocks : clippedBlocks dev d = midBlocks dev d := by
    rw [clippedBlocks, h.clippedLen, h.clippedHead, midBlocks]
  have hpart : ∀ {c : Bool} {b : Buffer}, (c = true → ReadPart dev d b.size) →
      ∀ size ∈ (partBuf c b).map VirtioBuffer.size, ReadPart dev d size := fun {c b} hsize size hmem => by
    cases c with
    | true => exact List.mem_singleton.mp hmem ▸ hsize rfl
    | false => exact absurd hmem List.not_mem_nil
  unfold readData
  rw [List.map_append, List.map_append]
  refine List.forall_mem_append.mpr ⟨hpart fun _ => Or.inl rfl,
    List.forall_mem_append.mpr ⟨hpart fun hmany => ?_, hpart fun _ => Or.inl rfl⟩⟩
  rw [hblocks] at hmany ⊢
  exact Or.inr ⟨of_decide_eq_true hmany, rfl⟩

theorem readVirtioDevAsync_spec (h : Entered w io) (hd : InRange w.dev (w.ios io).desc) :
    Calls calm excused (readVirtioDevAsync io) (fun rc w' =>
      (rc = -1 ∧ Mid w io (w.ios io).desc w.live w' ∧ w'.failed = true) ∨
        (rc = 0 ∧ ∃ vbufs, ReadBufs w.dev (w.ios io).desc vbufs ∧
          Passed w w.nextTask io (w.ios io).desc .blkReadDone vbufs w')) w := by
  have hle := hd.le
  have hlt := hd.lt
  refine wpIf_mono (readVirtioDevAsync_calls h hd.ok.pos hd.ok.cap (by omega) hd.pos (by omega))
    fun rc w' hw => ?_
  rcases hw with ⟨hrc, -, hmid⟩ | ⟨hrc, head, tail, hpass⟩
  · exact Or.inl ⟨hrc, hmid⟩
  · exact Or.inr ⟨hrc, _, ⟨_, _, _, _, rfl, hd.readData_sizes head tail⟩, hpass⟩

/-! ## Every submission -/

/-- What `virtio_submit` leaves behind if it takes the request. -/
inductive Accepted (w : World) (io : Nat) (w' : World) : Prop
  | read (vbufs : List Buffer) (hbufs : ReadBufs w.dev (w.ios io).desc vbufs)
      (htype : (w.ios io).desc.type = .read)
      (h : Passed w w.nextTask io (w.ios io).desc .blkReadDone vbufs w')
  | write (cb : TaskCb) (vbufs : List Buffer)
      (hfirst : FirstWriteCommand w.dev (w.ios io).desc cb vbufs)
      (htype : (w.ios io).desc.type = .write)
      (h : Passed w w.nextTask io { (w.ios io).desc with retval := -1 } cb vbufs w')

def Refused (w : World) (io : Nat) (w' : World) : Prop :=
  (∃ desc, Mid w io desc w.live w') ∧ ((w.ios io).desc.type ≠ .other → w'.failed = true)

theorem virtioSubmit_spec (h : Entered w io) (hd : InRange w.dev (w.ios io).desc) :
    wp (virtioSubmit io)
      (fun rc w' => (rc = -1 ∧ Refused w io w') ∨ (rc = 0 ∧ Accepted w io w')) w := by
  refine wp_of_calls (wpIf_bind (calls_useIo (by simp [World.ioBusy, h.busy]) ?_))
  cases htype : (w.ios io).desc.type with
  | read =>
      refine wpIf_mono (readVirtioDevAsync_spec h hd) fun rc w' hw => ?_
      rcases hw with ⟨hrc, hmid, hfail⟩ | ⟨hrc, vbufs, hbufs, hpass⟩
      · exact Or.inl ⟨hrc, ⟨_, hmid⟩, fun _ => hfail⟩
      · exact Or.inr ⟨hrc, .read vbufs hbufs htype hpass⟩
  | write =>
      refine wpIf_mono (writeVirtioDevAsync_spec h hd) fun rc w' hw => ?_
      obtain ⟨desc, rfl, ⟨hrc, hmid, hfail⟩ | ⟨hrc, cb, vbufs, hfirst, hpass⟩⟩ := hw
      · exact Or.inl ⟨hrc, ⟨_, hmid⟩, fun _ => hfail⟩
      · exact Or.inr ⟨hrc, .write cb vbufs hfirst htype hpass⟩
  | other =>
      refine wpIf_pure (Or.inl ⟨rfl, ⟨_, Mid.refl h.busy⟩, fun hne => absurd htype hne⟩)

end VhostUser.Dev
