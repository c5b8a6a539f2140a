import VhostUser.Dev.Sync

/-! # What the synchronous functions do

A call goes on only as long as its commands are executed, so the world after a number
of executed commands is known exactly up to the disk and the caller's buffer. Under
`calm` no allocation and no submission to the vring fails; then it is the device alone
that decides, and the address of the task of each command is known too.
-/

namespace VhostUser.Dev

open VhostUser.Lib Prog

variable {w w' : World} {α : Type} {calm : Prop} {device : Device} {io : Nat}

/-- The weakest precondition of a synchronous function. A bounce buffer that was not
allocated is a fault, which only calm outcomes rule out. -/
abbrev Runs (calm : Prop) (m : M α) (Q : α → World → Prop) (w : World) : Prop :=
  Calls calm (¬ calm) m Q w

theorem runs_submitSync {t : TaskRef} (task : Task) (v : World)
    {Q : Option TaskRef → World → Prop} (ho : w.owns t.id = true)
    (hfail : ¬ calm → Q none w.setFailed)
    (htask : ((w.exec t.id ⟨t.task, .blkReadDone, io, false⟩
      (device t.id (commandOf t.task))).flights t.id).map (·.task) = some task)
    (hworld : (w.exec t.id ⟨t.task, .blkReadDone, io, false⟩
      (device t.id (commandOf t.task))).take t.id = v)
    (hok : Q (some ⟨t.id, task⟩) v) : Runs calm (vringSubmitTaskSync device t io) Q w := by
  refine wpIf_bind (calls_useTask ho (wpIf_bind (calls_attempt (fun hc => wpIf_pure (hfail hc))
    fun m => ?_)))
  refine wpIf_bind (wpIf_update (wpIf_bind (wpIf_state (wpIf_bind (wpIf_update ?_)))))
  obtain ⟨f, hf, rfl⟩ := Option.map_eq_some_iff.mp htask
  rw [hf, hworld]
  exact wpIf_pure hok

/-- A task that was answered and taken leaves the ring as it was. -/
theorem take_answer {t : Nat} (hf : w.flights t = none) (f : Flight) (vbufs : List Buffer)
    (used : Nat) : (w.answer t f vbufs used).take t = w := by
  have hflights : ∀ x : Option Flight,
      Function.update (Function.update w.flights t x) t none = w.flights := fun x => by
    rw [Function.update_idem, ← hf, Function.update_eq_self]
  simp only [World.take, World.answer, hflights]

/-! ## Worlds between commands -/

/-- The addresses of new tasks are new. -/
def World.Fresh (w : World) : Prop := ∀ t, w.nextTask ≤ t → w.flights t = none

structure Served (w w' : World) (k : Nat) : Prop where
  dev : w'.dev = w.dev
  flights : w'.flights = w.flights
  next : w'.nextTask = w.nextTask + k
  failed : w'.failed = w.failed

namespace Served

variable {w₁ w₂ : World} {j k : Nat}

theorem refl (w : World) : Served w w 0 := ⟨rfl, rfl, rfl, rfl⟩

theorem trans (h₁ : Served w w₁ j) (h₂ : Served w₁ w₂ k) : Served w w₂ (j + k) :=
  ⟨h₂.dev.trans h₁.dev, h₂.flights.trans h₁.flights, by rw [h₂.next, h₁.next, Nat.add_assoc],
    h₂.failed.trans h₁.failed⟩

theorem fresh (h : Served w w' k) (hw : w.Fresh) : w'.Fresh := by
  intro t ht
  rw [h.next] at ht
  rw [h.flights]
  exact hw t (by omega)

end Served

/-- A command was not executed, and changed nothing. -/
structure Missed (w w' : World) : Prop where
  disk : w'.disk = w.disk
  ios : w'.ios = w.ios
  failed : w'.failed = true

def Answer.isFailed : Answer → Bool
  | .failed _ _ => true
  | .done _ _ _ => false

def Device.fails (device : Device) (t : Nat) (cmd : RwCommand) : Bool :=
  (device t (some cmd)).isFailed

/-- What the device may answer: a failure shows in the response, and a read fills a
prefix of its data buffer and reports its length with the one of the response. -/
structure Device.Honest (device : Device) (dev : VirtioDev) : Prop where
  failed : ∀ t cmd resp used, device t cmd = .failed resp used → resp.good = false
  read : ∀ t lba count transferred rest used,
    device t (some ⟨false, lba, count⟩) = .done transferred rest used →
      transferred ≤ count * dev.blockSize ∧ used = transferred + sizeofResp

/-- A read that is executed transfers everything. -/
def Device.Full (device : Device) (dev : VirtioDev) : Prop :=
  ∀ t lba count transferred rest used,
    device t (some ⟨false, lba, count⟩) = .done transferred rest used →
      transferred = count * dev.blockSize

/-! ## One command -/

/-- What a transfer leaves behind a data pointer, and in the caller's buffer. -/
def BufPtr.land (size : Nat) (src : Bytes) : BufPtr → BufPtr
  | .data m => .data (m.patch 0 size src)
  | p => p

def World.land (w : World) (io size : Nat) (src : Bytes) : BufPtr → World
  | .user off => w.memcpyUser io off size src
  | _ => w

/-- What a read transfers, and what follows it. -/
def readSrc (w : World) (lba transferred : Nat) (rest : Bytes) : Bytes := fun k =>
  if k < transferred then w.disk (lba * w.dev.blockSize + k) else rest k

def syncReadBufs (dev : VirtioDev) (lba n : Nat) (r : VirtioScsiCmdResp) (buf : BufPtr)
    (size : Nat) : List Buffer :=
  [reqBuf dev lba n false, respBuf r, ⟨buf, size, true, false, 0, size⟩]

def syncWriteBufs (dev : VirtioDev) (lba n : Nat) (r : VirtioScsiCmdResp) (buf : BufPtr)
    (size : Nat) : List Buffer :=
  [reqBuf dev lba n true, ⟨buf, size, false, false, 0, size⟩, respBuf r]

theorem fillIn_syncRead (dev : VirtioDev) (lba n : Nat) (r : VirtioScsiCmdResp) (buf : BufPtr)
    (size : Nat) (src : Bytes) : fillIn src false 0 (syncReadBufs dev lba n r buf size) =
      syncReadBufs dev lba n r (buf.land size src) size := by
  cases buf <;> simp [syncReadBufs, fillIn, reqBuf, respBuf, BufPtr.land]

theorem setIo_fillUser_syncRead (dev : VirtioDev) (lba n : Nat) (r : VirtioScsiCmdResp)
    (buf : BufPtr) (size : Nat) (src : Bytes) :
    w.setIo io ⟨{ (w.ios io).desc with
        buf := fillUser src false 0 (syncReadBufs dev lba n r buf size) (w.ios io).desc.buf },
      (w.ios io).state⟩ = w.land io size src buf := by
  cases buf <;> simp [syncReadBufs, fillUser, reqBuf, respBuf, World.land, World.memcpyUser,
    World.setIo]

theorem runs_blkFailed {t : TaskRef} {buf : BufPtr} {Q : Int × BufPtr → World → Prop}
    (ho : w.owns t.id = true) (h : Q (-1, buf) (w.freeTask t.id)) :
    Runs calm (blkFailed t buf) Q w := wpIf_bind (calls_destroy ho (wpIf_pure h))

theorem setResp_syncRead (dev : VirtioDev) (lba n : Nat) (r r' : VirtioScsiCmdResp) (buf : BufPtr)
    (size : Nat) : setResp r' (syncReadBufs dev lba n r buf size) =
      syncReadBufs dev lba n r' buf size := rfl

theorem setResp_syncWrite (dev : VirtioDev) (lba n : Nat) (r r' : VirtioScsiCmdResp) (buf : BufPtr)
    (size : Nat) : setResp r' (syncWriteBufs dev lba n r buf size) =
      syncWriteBufs dev lba n r' buf size := rfl

section Commands

variable {lba n : Nat} {buf : BufPtr} {Q : Int × BufPtr → World → Prop}

theorem runs_respGood {r : VirtioScsiCmdResp} {Q : Bool → World → Prop} (h : Q r.good w) :
    Runs calm (respGood (some (.resp r))) Q w := wpIf_pure h

theorem exec_syncRead {t size transferred used : Nat} {f : Flight} {rest : Bytes}
    (hbufs : f.task.vbufs = syncReadBufs w.dev lba n ⟨0, 0⟩ buf size) :
    w.exec t f (.done transferred rest used) =
      (w.answer t f (syncReadBufs w.dev lba n ⟨0, 0⟩ (buf.land size
        (readSrc w (lba % 2 ^ lbaBits w.dev) transferred rest)) size) used).land f.io size
        (readSrc w (lba % 2 ^ lbaBits w.dev) transferred rest) buf := by
  simp only [World.exec, commandOf_reqBuf hbufs, hbufs, setResp_syncRead]
  rw [← fillIn_syncRead]
  exact setIo_fillUser_syncRead ..

theorem take_land {t size : Nat} {src : Bytes} :
    (w.land io size src buf).take t = (w.take t).land io size src buf := by
  cases buf <;> rfl

theorem flights_land {size : Nat} {src : Bytes} :
    (w.land io size src buf).flights = w.flights := by
  cases buf <;> rfl

theorem runs_sendRead {task : TaskRef} {size : Nat} {cmd : RwCommand}
    (ho : w.owns task.id = true) (hf : w.flights task.id = none)
    (hbufs : task.task.vbufs = syncReadBufs w.dev lba n ⟨0, 0⟩ buf size)
    (hcmd : cmd = ⟨false, lba % 2 ^ lbaBits w.dev, n % 2 ^ countBits w.dev⟩)
    (hbad : ∀ t cmd resp used, device t cmd = .failed resp used → resp.good = false)
    (hused : ∀ transferred rest used, device task.id (some cmd) = .done transferred rest used →
      0 ≤ toInt (subSize (used % 2 ^ 32) sizeofResp))
    (hunsent : ¬ calm → Q (-1, buf) (w.setFailed.freeTask task.id))
    (hfail : device.fails task.id cmd = true → Q (-1, buf) (w.setFailed.freeTask task.id))
    (hdone : ∀ transferred rest used, device task.id (some cmd) = .done transferred rest used →
      Q (toInt (subSize (used % 2 ^ 32) sizeofResp),
        buf.land size (readSrc w cmd.lba transferred rest))
        ((w.land io size (readSrc w cmd.lba transferred rest) buf).freeTask task.id)) :
    Runs calm (sendRead device io task 1 buf) Q w := by
  have hcommand : commandOf task.task = some cmd := hcmd ▸ commandOf_reqBuf hbufs
  cases hdev : device task.id (some cmd) with
  | failed resp used =>
      refine wpIf_bind (runs_submitSync { task.task with
        vbufs := syncReadBufs w.dev lba n resp buf size, usedBytes := used % 2 ^ 32 } w.setFailed ho
        (fun hc => runs_blkFailed ho (hunsent hc)) ?_ ?_ ?_)
      · rw [hcommand, hdev]
        simp [World.exec, World.answer, World.setFailed, hbufs, setResp_syncRead]
      · rw [hcommand, hdev]
        exact congrArg World.setFailed (take_answer hf _ _ _)
      · refine wpIf_bind (calls_vbufOf ho rfl (wpIf_bind (calls_getBuf ho (wpIf_bind
          (runs_respGood ?_)))))
        rw [hbad _ _ _ _ hdev]
        exact runs_blkFailed ho (hfail (by rw [Device.fails, hdev]; rfl))
  | done transferred rest used =>
      have hland : (w.land io size (readSrc w cmd.lba transferred rest) buf).owns task.id = true := by
        rw [← ho]
        cases buf <;> rfl
      refine wpIf_bind (runs_submitSync { task.task with
        vbufs := syncReadBufs w.dev lba n ⟨0, 0⟩ (buf.land size (readSrc w cmd.lba transferred rest))
          size, usedBytes := used % 2 ^ 32 } (w.land io size (readSrc w cmd.lba transferred rest) buf)
        ho (fun hc => runs_blkFailed ho (hunsent hc)) ?_ ?_ ?_)
      · rw [hcommand, hdev, hcmd, exec_syncRead hbufs, flights_land]
        simp [World.answer]
      · rw [hcommand, hdev, hcmd, exec_syncRead hbufs, take_land, take_answer hf]
      · refine wpIf_bind (calls_vbufOf hland rfl (wpIf_bind (calls_getBuf hland (wpIf_bind
          (runs_respGood ?_)))))
        refine wpIf_bind (calls_assertThat (decide_eq_true (hused _ _ _ hdev)) ?_)
        exact wpIf_bind (calls_destroy hland (wpIf_pure (hdone _ _ _ hdev)))

theorem runs_blkRead (hfresh : w.Fresh) (cmd : RwCommand)
    (hcmd : cmd = ⟨false, lba % 2 ^ lbaBits w.dev, n % 2 ^ countBits w.dev⟩)
    (hbad : ∀ t cmd resp used, device t cmd = .failed resp used → resp.good = false)
    (hused : ∀ transferred rest used, device w.nextTask (some cmd) = .done transferred rest used →
      0 ≤ toInt (subSize (used % 2 ^ 32) sizeofResp))
    (hfail : ∀ buf' w', Missed w w' → (calm → device.fails w.nextTask cmd = true) → Q (-1, buf') w')
    (hdone : ∀ transferred rest used w',
      device w.nextTask (some cmd) = .done transferred rest used → Served w w' 1 →
      w'.disk = w.disk → w'.ios = (w.land io (mulSize n w.dev.blockSize)
        (readSrc w cmd.lba transferred rest) buf).ios →
      Q (toInt (subSize (used % 2 ^ 32) sizeofResp),
        buf.land (mulSize n w.dev.blockSize) (readSrc w cmd.lba transferred rest)) w') :
    Runs calm (blkReadVirtioDev device io buf lba n) Q w := by
  have hnone := hfresh w.nextTask (Nat.le_refl _)
  have howns : w.addTask.owns w.nextTask = true := owns_addTask_self hnone
  have howns' : w.addTask.setFailed.owns w.nextTask = true := howns
  have hmissed : ¬ calm → ∀ buf', Q (-1, buf') (w.addTask.setFailed.freeTask w.nextTask) :=
    fun hc buf' => hfail buf' _ ⟨rfl, rfl, rfl⟩ fun h => absurd h hc
  refine wpIf_bind (calls_create (fun hc => wpIf_pure ?_) ?_)
  · exact hfail buf _ ⟨rfl, rfl, rfl⟩ fun h => absurd h hc
  refine wpIf_bind (wpIf_state (wpIf_bind (calls_allocBuf howns (show 0 < 3 by decide)
    (fun hc => ?_) ?_)))
  · -- without a request the task is given up, whatever happens to the response
    refine wpIf_bind (calls_allocBuf howns' (show 0 < 3 by decide) (fun _ => ?_) ?_)
    · exact wpIf_bind (calls_addBuf howns' (show 0 < 3 by decide)
        (runs_blkFailed howns' (hmissed hc buf)))
    · exact wpIf_bind (calls_addBuf howns' (show 1 < 3 by decide)
        (runs_blkFailed howns' (hmissed hc buf)))
  refine wpIf_bind (calls_allocBuf howns (show 1 < 3 by decide) (fun hc => ?_) ?_)
  · exact wpIf_bind (calls_addBuf howns' (show 1 < 3 by decide)
      (runs_blkFailed howns' (hmissed hc buf)))
  refine wpIf_bind (calls_addBuf howns (show 2 < 3 by decide) ?_)
  refine runs_sendRead howns hnone rfl hcmd hbad hused (fun hc => hmissed hc buf)
    (fun hf => hfail buf _ ⟨rfl, rfl, rfl⟩ fun _ => hf) fun transferred rest used hd => ?_
  refine hdone transferred rest used _ hd ⟨?_, ?_, ?_, ?_⟩ ?_ ?_
  all_goals (cases buf <;> rfl)

/-- What the device finds behind the data pointer of a write. -/
def writeSrc (w : World) (io : Nat) (buf : BufPtr) (size : Nat) : Bytes := fun k =>
  if k < size then w.bytes io buf k else 0

def World.setDisk (w : World) (disk : Bytes) : World := { w with disk := disk }

/-- The disk after an executed write of `n` blocks, as far as the count fits. -/
def writtenDisk (w : World) (io : Nat) (buf : BufPtr) (cmd : RwCommand) (size : Nat) : Bytes :=
  w.disk.patch (cmd.lba * w.dev.blockSize) (cmd.count * w.dev.blockSize) (writeSrc w io buf size)

theorem runs_sendWrite {task : TaskRef} {size : Nat} {cmd : RwCommand} {nbytes : Int}
    (ho : w.owns task.id = true) (hf : w.flights task.id = none)
    (hbufs : task.task.vbufs = syncWriteBufs w.dev lba n ⟨0, 0⟩ buf size)
    (hcmd : cmd = ⟨true, lba % 2 ^ lbaBits w.dev, n % 2 ^ countBits w.dev⟩)
    (hbad : ∀ t cmd resp used, device t cmd = .failed resp used → resp.good = false)
    (hunsent : ¬ calm → Q (-1, buf) (w.setFailed.freeTask task.id))
    (hfail : device.fails task.id cmd = true → Q (-1, buf) (w.setFailed.freeTask task.id))
    (hdone : device.fails task.id cmd = false →
      Q (nbytes, buf) ((w.setDisk (writtenDisk w io buf cmd size)).freeTask task.id)) :
    Runs calm (sendWrite device io task 2 nbytes buf) Q w := by
  have hcommand : commandOf task.task = some cmd := hcmd ▸ commandOf_reqBuf hbufs
  cases hdev : device task.id (some cmd) with
  | failed resp used =>
      refine wpIf_bind (runs_submitSync { task.task with
        vbufs := syncWriteBufs w.dev lba n resp buf size, usedBytes := used % 2 ^ 32 } w.setFailed ho
        (fun hc => runs_blkFailed ho (hunsent hc)) ?_ ?_ ?_)
      · rw [hcommand, hdev]
        simp [World.exec, World.answer, World.setFailed, hbufs, setResp_syncWrite]
      · rw [hcommand, hdev]
        exact congrArg World.setFailed (take_answer hf _ _ _)
      · refine wpIf_bind (calls_getBuf ho (wpIf_bind (runs_respGood ?_)))
        rw [hbad _ _ _ _ hdev]
        exact runs_blkFailed ho (hfail (by rw [Device.fails, hdev]; rfl))
  | done transferred rest used =>
      have hown : (w.setDisk (writtenDisk w io buf cmd size)).owns task.id = true := ho
      refine wpIf_bind (runs_submitSync { task.task with
        vbufs := syncWriteBufs w.dev lba n ⟨0, 0⟩ buf size, usedBytes := used % 2 ^ 32 }
        (w.setDisk (writtenDisk w io buf cmd size)) ho
        (fun hc => runs_blkFailed ho (hunsent hc)) ?_ ?_ ?_)
      · rw [hcommand, hdev]
        simp [World.exec, hcommand, hcmd, World.answer, hbufs, setResp_syncWrite]
      · have htake : (w.answer task.id ⟨task.task, .blkReadDone, io, false⟩
            (syncWriteBufs w.dev lba n ⟨0, 0⟩ buf size) used).take task.id = w := take_answer hf ..
        rw [hcommand, hdev]
        simp only [World.exec, hcommand, hcmd, hbufs, setResp_syncWrite]
        exact congrArg (fun v : World => v.setDisk (writtenDisk w io buf
          ⟨true, lba % 2 ^ lbaBits w.dev, n % 2 ^ countBits w.dev⟩ size)) htake
      · refine wpIf_bind (calls_getBuf hown (wpIf_bind (runs_respGood ?_)))
        exact wpIf_bind (calls_destroy hown (wpIf_pure (hdone (by rw [Device.fails, hdev]; rfl))))

theorem runs_blkWrite (hfresh : w.Fresh) (cmd : RwCommand)
    (hcmd : cmd = ⟨true, lba % 2 ^ lbaBits w.dev, n % 2 ^ countBits w.dev⟩)
    (hbad : ∀ t cmd resp used, device t cmd = .failed resp used → resp.good = false)
    (hfail : ∀ w', Missed w w' → (calm → device.fails w.nextTask cmd = true) → Q (-1, buf) w')
    (hdone : ∀ w', device.fails w.nextTask cmd = false → Served w w' 1 → w'.ios = w.ios →
      w'.disk = writtenDisk w io buf cmd (toSize (toInt (mulSize n w.dev.blockSize))) →
      Q (toInt (mulSize n w.dev.blockSize), buf) w') :
    Runs calm (blkWriteVirtioDev device io buf lba n) Q w := by
  have hnone := hfresh w.nextTask (Nat.le_refl _)
  have howns : w.addTask.owns w.nextTask = true := owns_addTask_self hnone
  have howns' : w.addTask.setFailed.owns w.nextTask = true := howns
  have hmissed : ¬ calm → Q (-1, buf) (w.addTask.setFailed.freeTask w.nextTask) :=
    fun hc => hfail _ ⟨rfl, rfl, rfl⟩ fun h => absurd h hc
  refine wpIf_bind (wpIf_state (wpIf_bind (calls_create (fun hc => wpIf_pure ?_) ?_)))
  · exact hfail _ ⟨rfl, rfl, rfl⟩ fun h => absurd h hc
  refine wpIf_bind (calls_allocBuf howns (show 0 < 3 by decide) (fun hc => ?_) ?_)
  · refine wpIf_bind (calls_addBuf howns' (show 0 < 3 by decide) ?_)
    refine wpIf_bind (calls_allocBuf howns' (show 1 < 3 by decide) (fun _ => ?_) ?_)
    · exact runs_blkFailed howns' (hmissed hc)
    · exact runs_blkFailed howns' (hmissed hc)
  refine wpIf_bind (calls_addBuf howns (show 1 < 3 by decide) ?_)
  refine wpIf_bind (calls_allocBuf howns (show 2 < 3 by decide) (fun hc => ?_) ?_)
  · exact runs_blkFailed howns' (hmissed hc)
  refine runs_sendWrite howns hnone rfl hcmd hbad hmissed
    (fun hf => hfail _ ⟨rfl, rfl, rfl⟩ fun _ => hf) fun hd => ?_
  exact hdone _ hd ⟨rfl, rfl, rfl, rfl⟩ rfl rfl

end Commands

/-! ## One block -/

/-- A block that begins before the end of the device has an address that fits. -/
theorem VirtioDev.Geometry.block_lt {dev : VirtioDev} (hg : dev.Geometry) {blk : Nat}
    (hlt : blk * dev.blockSize < dev.cap) : blk < 2 ^ lbaBits dev := by
  have hle : dev.cap ≤ dev.blockSize * dev.numBlocks := hg.cap ▸ Nat.mod_le ..
  have hblk : blk < dev.numBlocks := by
    apply Nat.lt_of_mul_lt_mul_right (a := dev.blockSize)
    rw [Nat.mul_comm dev.numBlocks]
    omega
  exact lba_lt dev hg.size (Nat.le_refl 1) hblk

theorem lt_countBits {dev : VirtioDev} {n : Nat} (h : n < 2 ^ 16) : n < 2 ^ countBits dev := by
  unfold countBits
  split
  · omega
  · exact h

theorem mulSize_eq {a b : Nat} (h : a * b < 2 ^ 64) : mulSize a b = a * b := Nat.mod_eq_of_lt h

theorem clipToBlock_eq {dev : VirtioDev} (h : dev.Ok) {off n : Nat} (hoff : off ≤ dev.blockSize)
    (hn : off + n < 2 ^ 64) : clipToBlock dev off n = min n (dev.blockSize - off) := by
  have hint := h.int
  unfold clipToBlock
  rw [addSize_eq hn, subSize_eq hoff (by omega)]
  split
  · omega
  · omega

theorem usedBytes_eq {transferred : Nat} (h : transferred < 2 ^ 31) :
    toInt (subSize ((transferred + sizeofResp) % 2 ^ 32) sizeofResp) = transferred := by
  rw [Nat.mod_eq_of_lt (by unfold sizeofResp; omega), subSize_eq (Nat.le_add_left ..) (by
    unfold sizeofResp; omega), Nat.add_sub_cancel, toInt_eq (by omega) (by omega)]

section Block

variable {lba : Nat} {Q : Int × BufPtr → World → Prop}

theorem runs_readBlock (hfresh : w.Fresh) (hok : w.dev.Ok) (hd : device.Honest w.dev)
    (hlba : lba < 2 ^ lbaBits w.dev) {m : Bytes}
    (hfail : ∀ buf' w', Missed w w' →
      (calm → device.fails w.nextTask ⟨false, lba, 1⟩ = true) → Q (-1, buf') w')
    (hdone : ∀ (transferred : Nat) rest used w',
      device w.nextTask (some ⟨false, lba, 1⟩) = .done transferred rest used →
      transferred ≤ w.dev.blockSize → Served w w' 1 → w'.disk = w.disk → w'.ios = w.ios →
      Q (transferred, .data (m.patch 0 w.dev.blockSize (readSrc w lba transferred rest))) w') :
    Runs calm (blkReadVirtioDev device io (.data m) lba 1) Q w := by
  have hint := hok.int
  have hsize : mulSize 1 w.dev.blockSize = w.dev.blockSize := by
    rw [mulSize_eq (by omega), Nat.one_mul]
  have hbound : ∀ transferred rest used,
      device w.nextTask (some ⟨false, lba, 1⟩) = .done transferred rest used →
      transferred ≤ w.dev.blockSize ∧ used = transferred + sizeofResp := fun _ _ _ h => by
    have hread := hd.read _ _ _ _ _ _ h
    rw [Nat.one_mul] at hread
    exact hread
  refine runs_blkRead hfresh ⟨false, lba, 1⟩ ?_ hd.failed ?_ hfail ?_
  · rw [Nat.mod_eq_of_lt hlba, one_mod_countBits]
  · intro transferred rest used h
    obtain ⟨hle, rfl⟩ := hbound _ _ _ h
    rw [usedBytes_eq (by omega)]
    exact Int.natCast_nonneg _
  · intro transferred rest used w' h hserved hdisk hios
    obtain ⟨hle, rfl⟩ := hbound _ _ _ h
    rw [usedBytes_eq (by omega), hsize]
    exact hdone transferred rest _ w' h hle hserved hdisk hios

end Block

theorem runs_allocBounceBuf {Q : Bytes → World → Prop} (h : ∀ m, Q m w) :
    Runs calm allocBounceBuf Q w :=
  wpIf_bind (calls_attempt (fun hc => wpIf_fault hc) fun m => wpIf_pure (h m))

end VhostUser.Dev
