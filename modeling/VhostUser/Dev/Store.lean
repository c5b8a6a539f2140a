import VhostUser.Dev.Length
import VhostUser.Dev.SyncRead
import VhostUser.Dev.SyncWrite
import VhostUser.Lib.ByteStore

/-! # The synchronous interface as a store of bytes

Blocks, commands and bounce buffers are not to be seen through `read_virtio_dev` and
`write_virtio_dev`: whatever calls are made one after the other, and whatever the device fails
or transfers only in part, they behave as the reads and writes of a store of bytes.
-/

namespace VhostUser.Dev

open VhostUser.Lib Prog

variable {w w' : World} {device : Device} {io : Nat}

/-! ## What calls leave alone -/

/-- A call neither changes the geometry nor leaves a task behind. -/
structure Kept (w w' : World) : Prop where
  dev : w'.dev = w.dev
  fresh : w.Fresh → w'.Fresh
  failed : w.failed = true → w'.failed = true

theorem Kept.refl (w : World) : Kept w w := ⟨rfl, id, id⟩

theorem Kept.trans (u v w : World) (h : Kept u v) (h' : Kept v w) : Kept u w :=
  ⟨h'.dev.trans h.dev, h'.fresh ∘ h.fresh, h'.failed ∘ h.failed⟩

/-- A read does not change the disk either. -/
def ReadKept (w w' : World) : Prop := Kept w w' ∧ (w.Fresh → w'.disk = w.disk)

theorem ReadKept.refl (w : World) : ReadKept w w := ⟨.refl w, fun _ => rfl⟩

theorem ReadKept.trans (u v w : World) (h : ReadKept u v) (h' : ReadKept v w) : ReadKept u w :=
  ⟨.trans u v w h.1 h'.1, fun hu => (h'.2 (h.1.fresh hu)).trans (h.2 hu)⟩

/-- Relations between worlds that hold of every step that concerns neither tasks nor the disk. -/
structure Outline (R : World → World → Prop) : Prop where
  refl : ∀ w, R w w
  trans : ∀ u v w, R u v → R v w → R u w
  failed : ∀ w, R w w.setFailed
  memcpy : ∀ w io pos len src, R w (w.memcpyUser io pos len src)

/-- Relations between worlds that hold of every step that does not concern the disk. -/
structure Frame (R : World → World → Prop) : Prop extends Outline R where
  addTask : ∀ w, R w w.addTask
  freeTask : ∀ w t, R w (w.freeTask t)

theorem kept_frame : Frame Kept where
  refl := Kept.refl
  trans := Kept.trans
  failed _ := ⟨rfl, id, fun _ => rfl⟩
  addTask w := by
    refine ⟨rfl, fun hw t ht => hw t ?_, id⟩
    exact Nat.le_of_succ_le ht
  freeTask _ _ := ⟨rfl, id, id⟩
  memcpy _ _ _ _ _ := ⟨rfl, id, id⟩

theorem readKept_frame : Frame ReadKept where
  refl := ReadKept.refl
  trans := ReadKept.trans
  failed w := ⟨kept_frame.failed w, fun _ => rfl⟩
  addTask w := ⟨kept_frame.addTask w, fun _ => rfl⟩
  freeTask w t := ⟨kept_frame.freeTask w t, fun _ => rfl⟩
  memcpy w io pos len src := ⟨kept_frame.memcpy w io pos len src, fun _ => rfl⟩

section Outline

variable {R : World → World → Prop} (h : Outline R)

include h

theorem Outline.useTask (t : TaskRef) : Keeps R (useTask t) := keeps_check h.refl _ _

theorem Outline.assertThat (b : Bool) : Keeps R (assertThat b) := keeps_check h.refl _ _

theorem Outline.attempt : Keeps R attempt := by
  refine keeps_bind h.trans (keeps_outcome h.refl) fun o => ?_
  split
  · exact keeps_pure h.refl _
  · exact keeps_bind h.trans (keeps_update h.failed) fun _ => keeps_pure h.refl _
  · exact keeps_pure h.refl _

theorem Outline.allocBuf (t : TaskRef) (type : Bytes → BufPtr) (size : Nat) (response zero : Bool) :
    Keeps R (virtioTaskAllocBuf t type size response zero) := by
  refine keeps_bind h.trans (h.useTask t) fun _ => keeps_bind h.trans (h.assertThat _) fun _ => ?_
  refine keeps_bind h.trans h.attempt fun o => ?_
  split
  · exact keeps_pure h.refl _
  · exact keeps_pure h.refl _

theorem Outline.addBuf (t : TaskRef) (buf : BufPtr) (size : Nat) (response : Bool) :
    Keeps R (virtioTaskAddBuf t buf size response) :=
  keeps_bind h.trans (h.useTask t) fun _ =>
    keeps_bind h.trans (h.assertThat _) fun _ => keeps_pure h.refl _

theorem Outline.getBuf (t : TaskRef) (i : Nat) : Keeps R (virtioTaskGetBuf t i) :=
  keeps_bind h.trans (h.useTask t) fun _ => keeps_pure h.refl _

theorem Outline.vbufOf (t : TaskRef) (i : Nat) : Keeps R (vbufOf t i) := by
  refine keeps_bind h.trans (h.useTask t) fun _ => ?_
  split
  · exact keeps_pure h.refl _
  · exact keeps_fault _

theorem Outline.respGood (b : Option BufPtr) : Keeps R (respGood b) := by
  unfold Dev.respGood
  split
  · exact keeps_pure h.refl _
  · exact keeps_fault _

theorem Outline.allocBounceBuf : Keeps R allocBounceBuf := by
  refine keeps_bind h.trans h.attempt fun o => ?_
  split
  · exact keeps_pure h.refl _
  · exact keeps_fault _

end Outline

section Frame

variable {R : World → World → Prop} (h : Frame R)

include h

theorem Frame.create (n : Nat) : Keeps R (virtioTaskCreate n) := by
  refine keeps_bind h.trans h.attempt fun o => ?_
  split
  · exact keeps_pure h.refl _
  · refine keeps_bind h.trans (keeps_state h.refl) fun w => ?_
    exact keeps_bind h.trans (keeps_update h.addTask) fun _ => keeps_pure h.refl _

theorem Frame.destroy (t : TaskRef) : Keeps R (virtioTaskDestroy t) :=
  keeps_bind h.trans (h.useTask t) fun _ => keeps_update fun w => h.freeTask w t.id

theorem Frame.blkFailed (task : TaskRef) (buf : BufPtr) : Keeps R (blkFailed task buf) :=
  keeps_bind h.trans (h.destroy task) fun _ => keeps_pure h.refl _

end Frame

/-! ## Commands -/

/-- A command that was waited for is not in the ring any more. -/
theorem kept_exec (w : World) (t : Nat) (f : Flight) (a : Answer) :
    Kept w ((w.exec t f a).take t) := by
  have hflights : ∃ g, (w.exec t f a).flights = Function.update w.flights t (some g) := by
    cases a with
    | failed resp used => exact ⟨_, rfl⟩
    | done transferred rest used =>
        simp only [World.exec]
        split
        all_goals exact ⟨_, rfl⟩
  obtain ⟨g, hg⟩ := hflights
  refine ⟨?_, fun hw x hx => ?_, ?_⟩
  · cases a with
    | failed resp used => rfl
    | done transferred rest used =>
        simp only [World.exec]
        split
        all_goals rfl
  · have hnext : (w.exec t f a).nextTask = w.nextTask := by
      cases a with
      | failed resp used => rfl
      | done transferred rest used =>
          simp only [World.exec]
          split
          all_goals rfl
    have hx' : w.nextTask ≤ x := hnext ▸ hx
    show Function.update (w.exec t f a).flights t none x = none
    rw [hg, Function.update_idem]
    by_cases hxt : x = t
    · rw [hxt, Function.update_self]
    · rw [Function.update_of_ne hxt, hw x hx']
  · intro hfailed
    cases a with
    | failed resp used => rfl
    | done transferred rest used =>
        simp only [World.exec]
        split
        all_goals exact hfailed

def NotWrite (task : Task) : Prop := ∀ lba count, commandOf task ≠ some ⟨true, lba, count⟩

theorem exec_disk {t : Nat} {f : Flight} (hread : NotWrite f.task) (a : Answer) :
    (w.exec t f a).disk = w.disk := by
  cases a with
  | failed resp used => rfl
  | done transferred rest used =>
      simp only [World.exec]
      split
      · next lba count hcmd => exact absurd hcmd (hread lba count)
      · rfl
      · rfl

theorem Frame.submitSync {R : World → World → Prop} (h : Frame R) (t : TaskRef)
    (hexec : ∀ w, R w ((w.exec t.id ⟨t.task, .blkReadDone, io, false⟩
      (device t.id (commandOf t.task))).take t.id)) :
    Keeps R (vringSubmitTaskSync device t io) := by
  refine keeps_bind h.trans (h.useTask t) fun _ => keeps_bind h.trans h.attempt fun o => ?_
  split
  · exact keeps_pure h.refl _
  · refine ⟨fun p a q hrun => ?_⟩
    cases hrun
    exact hexec p.1

theorem Frame.sendRead {R : World → World → Prop} (h : Frame R) (task : TaskRef) (resp : Nat)
    (buf : BufPtr) (hexec : ∀ w, R w ((w.exec task.id ⟨task.task, .blkReadDone, io, false⟩
      (device task.id (commandOf task.task))).take task.id)) :
    Keeps R (sendRead device io task resp buf) := by
  refine keeps_bind h.trans (h.submitSync task hexec) fun o => ?_
  split
  · exact h.blkFailed _ _
  · refine keeps_bind h.trans (h.vbufOf _ _) fun b => keeps_bind h.trans (h.getBuf _ _) fun r => ?_
    refine keeps_bind h.trans (h.respGood _) fun good => keeps_ite ?_ (h.blkFailed _ _)
    refine keeps_bind h.trans (h.assertThat _) fun _ => ?_
    exact keeps_bind h.trans (h.destroy _) fun _ => keeps_pure h.refl _

theorem kept_blkRead (buf : BufPtr) (lba n : Nat) :
    Keeps Kept (blkReadVirtioDev device io buf lba n) := by
  have h := kept_frame
  refine keeps_bind h.trans (h.create 3) fun o => ?_
  split
  · exact keeps_pure h.refl _
  refine keeps_bind h.trans (keeps_state h.refl) fun w => ?_
  refine keeps_bind h.trans (h.allocBuf _ _ _ _ _) fun req => ?_
  refine keeps_bind h.trans (h.allocBuf _ _ _ _ _) fun resp => ?_
  refine keeps_bind h.trans (h.addBuf _ _ _ _) fun task => ?_
  split
  · exact h.sendRead _ _ _ fun w => kept_exec w _ _ _
  · exact h.blkFailed _ _

theorem kept_blkWrite (buf : BufPtr) (lba n : Nat) :
    Keeps Kept (blkWriteVirtioDev device io buf lba n) := by
  have h := kept_frame
  refine keeps_bind h.trans (keeps_state h.refl) fun w => ?_
  refine keeps_bind h.trans (h.create 3) fun o => ?_
  split
  · exact keeps_pure h.refl _
  refine keeps_bind h.trans (h.allocBuf _ _ _ _ _) fun req => ?_
  refine keeps_bind h.trans (h.addBuf _ _ _ _) fun task => ?_
  refine keeps_bind h.trans (h.allocBuf _ _ _ _ _) fun resp => ?_
  split
  · refine keeps_bind h.trans (h.submitSync _ fun w => kept_exec w _ _ _) fun o => ?_
    split
    · exact h.blkFailed _ _
    · refine keeps_bind h.trans (h.getBuf _ _) fun r => keeps_bind h.trans (h.respGood _) fun good => ?_
      exact keeps_ite (keeps_bind h.trans (h.destroy _) fun _ => keeps_pure h.refl _)
        (h.blkFailed _ _)
  · exact h.blkFailed _ _

/-- The request of a read is no write, so the disk stays what it was. -/
theorem readKept_blkRead (buf : BufPtr) (lba n : Nat) :
    Keeps ReadKept (blkReadVirtioDev device io buf lba n) := by
  have h := readKept_frame
  refine ⟨fun p a q hrun => ⟨(kept_blkRead buf lba n).run p a q hrun, fun hfresh => ?_⟩⟩
  have hnone := hfresh p.1.nextTask (Nat.le_refl _)
  have howns : p.1.addTask.owns p.1.nextTask = true := owns_addTask_self hnone
  have hfailed : ∀ (task : TaskRef) (w : World), w.disk = p.1.disk →
      Runs False (blkFailed task buf) (fun _ w' => w'.disk = p.1.disk) w := fun task w hdisk =>
    wpIf_bind (wpIf_bind (wpIf_check (fun hx => absurd id hx) fun _ => wpIf_update (wpIf_pure hdisk)))
  have hspec : Runs False (blkReadVirtioDev device io buf lba n)
      (fun _ w' => w'.disk = p.1.disk) p.1 := by
    refine wpIf_bind (calls_create (fun _ => wpIf_pure rfl) ?_)
    refine wpIf_bind (wpIf_state (wpIf_bind (calls_allocBuf howns (show 0 < 3 by decide)
      (fun _ => ?_) ?_)))
    · refine wpIf_bind (calls_allocBuf howns (show 0 < 3 by decide) (fun _ => ?_) ?_)
      · exact wpIf_bind (calls_addBuf howns (show 0 < 3 by decide) (hfailed _ _ rfl))
      · exact wpIf_bind (calls_addBuf howns (show 1 < 3 by decide) (hfailed _ _ rfl))
    refine wpIf_bind (calls_allocBuf howns (show 1 < 3 by decide) (fun _ => ?_) ?_)
    · exact wpIf_bind (calls_addBuf howns (show 1 < 3 by decide) (hfailed _ _ rfl))
    refine wpIf_bind (calls_addBuf howns (show 2 < 3 by decide) ?_)
    -- all three buffers are there, and the first is the request of a read
    have hread : ∀ task : Task, task.vbufs = syncReadBufs p.1.dev lba n ⟨0, 0⟩ buf
        (mulSize n p.1.dev.blockSize) → NotWrite task := fun task hbufs lba' count hcmd => by
      rw [commandOf_reqBuf hbufs] at hcmd
      cases hcmd
    refine wpIf_mono (wpIf_of_keeps (R := ReadKept) (h.sendRead _ _ _ fun w =>
      ⟨kept_exec w _ _ _, fun _ => exec_disk ?_ _⟩) (fun _ hc => hc.elim) id) fun _ _ hkept =>
      hkept.2 ((kept_frame.addTask p.1).fresh hfresh)
    exact hread _ rfl
  exact hspec.result (fun _ _ => False.elim) hrun

/-! ## Whole calls -/

section Calls

variable {R : World → World → Prop} (h : Outline R)

include h

theorem Outline.readPartial (hread : ∀ buf b n, Keeps R (blkReadVirtioDev device io buf b n))
    (blk off data n : Nat) : Keeps R (readPartialBlock device io blk off data n) := by
  refine keeps_bind h.trans h.allocBounceBuf fun m => keeps_bind h.trans (keeps_state h.refl) fun w => ?_
  refine keeps_bind h.trans (hread _ _ _) fun r => keeps_ite (keeps_pure h.refl _) ?_
  refine keeps_bind h.trans (keeps_state h.refl) fun w => ?_
  exact keeps_bind h.trans (keeps_update fun w => h.memcpy w ..) fun _ => keeps_pure h.refl _

theorem Outline.writePartial (hread : ∀ buf b n, Keeps R (blkReadVirtioDev device io buf b n))
    (hwrite : ∀ buf b n, Keeps R (blkWriteVirtioDev device io buf b n)) (blk off data n : Nat) :
    Keeps R (writePartialBlock device io blk off data n) := by
  refine keeps_bind h.trans h.allocBounceBuf fun m => keeps_bind h.trans (keeps_state h.refl) fun w => ?_
  refine keeps_bind h.trans (hread _ _ _) fun r => keeps_ite (keeps_pure h.refl _) ?_
  refine keeps_bind h.trans (keeps_state h.refl) fun w => ?_
  exact keeps_bind h.trans (hwrite _ _ _) fun _ => keeps_pure h.refl _

variable {part : Nat → Nat → Nat → Nat → M Int} {whole : BufPtr → Nat → Nat → M (Int × BufPtr)}
  (hpart : ∀ b o d n, Keeps R (part b o d n))

include hpart

theorem Outline.syncTail (blk done n : Nat) : Keeps R (syncTail part blk done n) := by
  refine keeps_bind h.trans (keeps_state h.refl) fun w => keeps_ite ?_ (keeps_pure h.refl _)
  exact keeps_bind h.trans (hpart _ _ _ _) fun r =>
    keeps_ite (keeps_pure h.refl _) (keeps_pure h.refl _)

variable (hwhole : ∀ buf b n, Keeps R (whole buf b n))

include hwhole

theorem Outline.syncRest (blk done n : Nat) : Keeps R (syncRest part whole blk done n) := by
  refine keeps_bind h.trans (keeps_state h.refl) fun w => keeps_ite ?_ (h.syncTail hpart _ _ _)
  refine keeps_bind h.trans (hwhole _ _ _) fun r => keeps_ite (keeps_pure h.refl _) ?_
  exact keeps_ite (keeps_pure h.refl _) (h.syncTail hpart _ _ _)

theorem Outline.syncCall (off n : Nat) : Keeps R (syncCall part whole off n) := by
  refine keeps_bind h.trans (keeps_state h.refl) fun w => keeps_ite (keeps_pure h.refl _) ?_
  refine keeps_ite (keeps_pure h.refl _) ?_
  refine keeps_bind h.trans (keeps_check h.refl _ _) fun _ => keeps_ite ?_ (h.syncRest hpart hwhole _ _ _)
  refine keeps_bind h.trans (hpart _ _ _ _) fun r => keeps_ite (keeps_pure h.refl _) ?_
  exact keeps_ite (keeps_pure h.refl _) (h.syncRest hpart hwhole _ _ _)

end Calls

theorem readKept_read (off n : Nat) : Keeps ReadKept (readVirtioDev device io off n) := by
  rw [readVirtioDev_eq]
  have h := readKept_frame.toOutline
  exact h.syncCall (h.readPartial readKept_blkRead) readKept_blkRead off n

theorem kept_write (off n : Nat) : Keeps Kept (writeVirtioDev device io off n) := by
  rw [writeVirtioDev_eq]
  have h := kept_frame.toOutline
  exact h.syncCall (h.writePartial kept_blkRead kept_blkWrite) kept_blkWrite off n

/-! ## The content of the disk after a write -/

/-- Whatever becomes of a write, the disk has a first part of its bytes, and a result that is not
negative is the length of this part. -/
theorem WriteExit.stores {calm : Prop} {d : AsyncIoDesc} {r : Int}
    (h : WriteExit calm device w d r w') (hn : d.nbytes < 2 ^ 31)
    (hblocks : d.nbytes / w.dev.blockSize < 2 ^ 16) :
    ∃ p ≤ d.nbytes, w'.disk = w.disk.patch d.offset p d.buf ∧ (0 ≤ r → r = p) := by
  have hbytes : bodyBytes w d ≤ d.nbytes := Nat.le_trans (mid_mul_le w.dev d) (Nat.sub_le ..)
  have hmid : midBlocks w.dev d < 2 ^ countBits w.dev :=
    lt_countBits (Nat.lt_of_le_of_lt (Nat.div_le_div_right (Nat.sub_le ..)) hblocks)
  have hstored : storedLen w d = bodyLen w.dev d := by
    rw [storedLen, bodyCommand, Nat.mod_eq_of_lt hmid]
    rfl
  cases h with
  | nothing hzero => exact ⟨0, Nat.zero_le _, (Bytes.patch_zero ..).symm, fun _ => rfl⟩
  | headFailed _ hdisk =>
      exact ⟨0, Nat.zero_le _, by rw [hdisk, Bytes.patch_zero], fun hneg => absurd hneg (by decide)⟩
  | bodyFailed _ _ hdisk => exact ⟨_, headLen_le w.dev d, hdisk, fun _ => rfl⟩
  | bodyNarrowed _ _ _ _ hbig => omega
  | tailFailed _ _ _ hsmall hdisk =>
      refine ⟨bodyLen w.dev d, bodyLen_le w.dev d, ?_, fun hneg => absurd hneg (by decide)⟩
      rw [hdisk, bodyDisk_eq hsmall, hstored]
  | stored _ _ _ _ hsmall hdisk =>
      refine ⟨d.nbytes, Nat.le_refl _, ?_, fun _ => toInt_eq (by omega) (by omega)⟩
      rw [hdisk, tailDisk_eq hsmall hmid]

/-! ## Runs of calls -/

/-- A call of an application, with the bytes of its buffer if it writes. -/
inductive SyncCall where
  | read (offset nbytes : Nat)
  | write (offset nbytes : Nat) (data : Bytes)

def World.fillBuf (w : World) (io : Nat) (data : Bytes) : World :=
  w.setIo io ⟨{ (w.ios io).desc with buf := data }, (w.ios io).state⟩

namespace SyncCall

def run (device : Device) (io : Nat) : SyncCall → M Int
  | .read offset nbytes => readVirtioDev device io offset nbytes
  | .write offset nbytes data => do
      Prog.update (·.fillBuf io data)
      writeVirtioDev device io offset nbytes

def nbytes : SyncCall → Nat
  | .read _ n => n
  | .write _ n _ => n

/-- The call as one of a store, with what it has returned, the bytes that are in its buffer then,
and how many were stored. -/
def event (r : Int) (buf : Bytes) (stored : Nat) : SyncCall → ByteStore.Event
  | .read off n => .read off n r buf
  | .write off n data => .write off n r data stored

end SyncCall

/-- A call with its buffer and the outcomes of what may fail in it. -/
structure SyncEvent where
  io : Nat
  call : SyncCall
  outcomes : List (Option Bytes)

/-- The length is an `int`, and the number of blocks fits in every command. -/
def SyncEvent.Small (dev : VirtioDev) (e : SyncEvent) : Prop :=
  e.call.nbytes < 2 ^ 31 ∧ e.call.nbytes / dev.blockSize < 2 ^ 16

instance (dev : VirtioDev) (e : SyncEvent) : Decidable (e.Small dev) :=
  inferInstanceAs (Decidable (_ ∧ _))

def syncRun (device : Device) (w : World) (e : SyncEvent) : Option (Int × World) :=
  match e.call.run device e.io (w, e.outcomes) with
  | .ok (r, w', _) => some (r, w')
  | .error _ => none

/-- Calls one after the other. A call that runs into a fault ends the process. -/
def syncMachine (device : Device) (dev : VirtioDev) (disk : Bytes) : Machine World SyncEvent :=
  ⟨init dev disk, fun w e => (syncRun device w e).map (·.2)⟩

/-- What the application sees of a call: the result and its buffer. -/
def syncSeen (device : Device) (w : World) (e : SyncEvent) : List (SyncCall × Int × Bytes) :=
  ((syncRun device w e).map fun r => (e.call, r.1, (r.2.ios e.io).desc.buf)).toList

structure Resting (dev : VirtioDev) (w : World) : Prop where
  dev : w.dev = dev
  fresh : w.Fresh

section Step

variable {dev : VirtioDev} {r : Int} {os os' : List (Option Bytes)} {off n : Nat}

theorem read_refused (hbig : w.dev.cap < off) :
    readVirtioDev device io off n (w, os) = .ok (-1, w, os) := by
  show (if off > w.dev.cap then (pure (-1) : M Int) else _) (w, os) = _
  rw [if_pos hbig]
  rfl

theorem write_refused (hbig : w.dev.cap < off) :
    writeVirtioDev device io off n (w, os) = .ok (-1, w, os) := by
  show (if off > w.dev.cap then (pure (-1) : M Int) else _) (w, os) = _
  rw [if_pos hbig]
  rfl

theorem read_stored (h : Resting dev w) (hg : dev.Geometry) (hpos : 0 < dev.blockSize)
    (hcap : dev.cap < 2 ^ 63) (hd : device.Honest dev) (hn : n < 2 ^ 31)
    (hblocks : n / dev.blockSize < 2 ^ 16)
    (hrun : readVirtioDev device io off n (w, os) = .ok (r, w', os')) :
    ByteStore.Event.Allowed dev.cap w.disk (.read off n r (w'.ios io).desc.buf) ∧
      w'.disk = w.disk ∧ (device.Full dev → w'.failed = false →
        (ByteStore.Event.read off n r (w'.ios io).desc.buf).Complete dev.cap) := by
  obtain ⟨rfl, hfresh⟩ := h
  have hdisk := ((readKept_read off n).run _ _ _ hrun).2 hfresh
  rcases Nat.lt_or_ge w.dev.cap off with hbig | hoff
  · rw [read_refused hbig] at hrun
    cases hrun
    refine ⟨⟨fun hneg => absurd hneg (by decide), fun k hk => ?_⟩, rfl, fun _ _ hle => ?_⟩
    · exact absurd hk (Nat.not_lt_zero k)
    · omega
  · have hspec : Runs False (readVirtioDev device io off n) _ w :=
      runs_readVirtioDev hfresh hg hpos hd hcap hoff hn hblocks
    have hback := hspec.result (fun _ _ => False.elim) hrun
    refine ⟨⟨fun hr => ⟨hoff, (hback.sound hr).1⟩, fun k hk => ?_⟩, hdisk, fun hfull hfail _ =>
      hback.complete hfull hfail⟩
    exact (hback.sound (by omega)).2 k hk

theorem write_stored (h : Resting dev w) (hg : dev.Geometry) (hpos : 0 < dev.blockSize)
    (hcap : dev.cap < 2 ^ 63) (hd : device.Honest dev) (hn : n < 2 ^ 31)
    (hblocks : n / dev.blockSize < 2 ^ 16)
    (hrun : writeVirtioDev device io off n (w, os) = .ok (r, w', os')) :
    ∃ p, ByteStore.Event.Allowed dev.cap w.disk (.write off n r (w.ios io).desc.buf p) ∧
      w'.disk = w.disk.patch off p (w.ios io).desc.buf ∧ (device.Full dev → w'.failed = false →
        (ByteStore.Event.write off n r (w.ios io).desc.buf p).Complete dev.cap) := by
  obtain ⟨rfl, hfresh⟩ := h
  rcases Nat.lt_or_ge w.dev.cap off with hbig | hoff
  · rw [write_refused hbig] at hrun
    cases hrun
    refine ⟨0, ⟨Nat.zero_le _, fun hneg => absurd hneg (by decide)⟩, (Bytes.patch_zero ..).symm,
      fun _ _ hle => ?_⟩
    omega
  · have hok : w.dev.Ok := ⟨hpos, hg.int, by omega⟩
    have hspec : Runs False (writeVirtioDev device io off n) (WriteExit False device w
        (callDesc w io off (min n (w.dev.cap - off)))) w :=
      runs_writeVirtioDev hfresh hg hok hd hoff (clip_eq hoff (by omega)) (by omega)
    have hexit := hspec.result (fun _ _ => False.elim) hrun
    have hclip : min n (w.dev.cap - off) < 2 ^ 31 := Nat.lt_of_le_of_lt (Nat.min_le_left ..) hn
    have hclip' : min n (w.dev.cap - off) / w.dev.blockSize < 2 ^ 16 :=
      Nat.lt_of_le_of_lt (Nat.div_le_div_right (Nat.min_le_left ..)) hblocks
    obtain ⟨p, hp, hdisk, hr⟩ := hexit.stores hclip hclip'
    exact ⟨p, ⟨hp, fun hneg => ⟨hoff, hr hneg⟩⟩, hdisk, fun hfull hfail _ =>
      (hexit.counted hfull hclip hclip').2 hfail⟩

theorem sync_returns {e : SyncEvent} (h : Resting dev w) (hg : dev.Geometry)
    (hpos : 0 < dev.blockSize) (hcap : dev.cap < 2 ^ 63) (hd : device.Honest dev)
    (hsmall : e.Small dev) (hcalm : ∀ o ∈ e.outcomes, o.isSome = true) :
    ∃ r w', syncRun device w e = some (r, w') := by
  obtain ⟨io, call, outcomes⟩ := e
  obtain ⟨hn, hblocks⟩ := hsmall
  obtain ⟨rfl, hfresh⟩ := h
  have hends : ∀ {m : M Int} {v : World} {Q : Int → World → Prop}, Runs True m Q v →
      ∃ r v' os', m (v, outcomes) = .ok (r, v', os') := fun hspec => by
    obtain ⟨r, v', os', hrun, -⟩ := hspec.ends (not_not_intro trivial) fun o ho _ => hcalm o ho
    exact ⟨r, v', os', hrun⟩
  have hrun : ∃ r w' os', call.run device io (w, outcomes) = .ok (r, w', os') := by
    cases call with
    | read off n =>
        rcases Nat.lt_or_ge w.dev.cap off with hbig | hoff
        · exact ⟨-1, w, outcomes, read_refused hbig⟩
        · exact hends (runs_readVirtioDev hfresh hg hpos hd hcap hoff hn hblocks)
    | write off n data =>
        rcases Nat.lt_or_ge w.dev.cap off with hbig | hoff
        · exact ⟨-1, w.fillBuf io data, outcomes, write_refused hbig⟩
        · have hfresh' : (w.fillBuf io data).Fresh := hfresh
          have hn : n < 2 ^ 31 := hn
          have hok : w.dev.Ok := ⟨hpos, hg.int, by omega⟩
          have hclip : clipToCap w.dev off n = min n (w.dev.cap - off) := clip_eq hoff (by omega)
          have hend : off + min n (w.dev.cap - off) ≤ w.dev.cap := by omega
          exact hends (runs_writeVirtioDev (w := w.fillBuf io data) hfresh' hg hok hd hoff
            hclip hend)
  obtain ⟨r, w', os', hok⟩ := hrun
  refine ⟨r, w', ?_⟩
  unfold syncRun
  rw [hok]

end Step

theorem sync_step {dev : VirtioDev} {e : SyncEvent} {r : Int} (h : Resting dev w)
    (hg : dev.Geometry) (hpos : 0 < dev.blockSize) (hcap : dev.cap < 2 ^ 63)
    (hd : device.Honest dev) (hsmall : e.Small dev) (hrun : syncRun device w e = some (r, w')) :
    Resting dev w' ∧ (w.failed = true → w'.failed = true) ∧
      ∃ p, (e.call.event r (w'.ios e.io).desc.buf p).Allowed dev.cap w.disk ∧
        w'.disk = (e.call.event r (w'.ios e.io).desc.buf p).apply w.disk ∧
        (device.Full dev → w'.failed = false →
          (e.call.event r (w'.ios e.io).desc.buf p).Complete dev.cap) := by
  obtain ⟨io, call, outcomes⟩ := e
  unfold syncRun at hrun
  split at hrun
  · next r' w'' os' hok =>
      cases hrun
      obtain ⟨hn, hblocks⟩ := hsmall
      cases call with
      | read off n =>
          have hkept := ((readKept_read off n).run _ _ _ hok).1
          refine ⟨⟨hkept.dev.trans h.dev, hkept.fresh h.fresh⟩, hkept.failed, 0, ?_⟩
          exact read_stored h hg hpos hcap hd hn hblocks hok
      | write off n data =>
          have hok' : writeVirtioDev device io off n (w.fillBuf io data, outcomes) =
              .ok (r, w', os') := hok
          have hkept := (kept_write off n).run _ _ _ hok'
          have hrest : Resting dev (w.fillBuf io data) := ⟨h.dev, h.fresh⟩
          obtain ⟨p, hp⟩ := write_stored hrest hg hpos hcap hd hn hblocks hok'
          have hbuf : ((w.fillBuf io data).ios io).desc.buf = data := by
            simp [World.fillBuf, World.setIo]
          rw [hbuf] at hp
          exact ⟨⟨hkept.dev.trans h.dev, hkept.fresh h.fresh⟩, hkept.failed, p, hp⟩
  · cases hrun

/-- The calls that were seen, as calls of a store. -/
def history (seen : List (SyncCall × Int × Bytes)) (stored : List Nat) : List ByteStore.Event :=
  List.zipWith (fun c p => c.1.event c.2.1 c.2.2 p) seen stored

/-- What an application may rely on after a number of calls. `stored` tells how many bytes of each
write are on the disk. -/
structure StoreView (device : Device) (dev : VirtioDev) (disk : Bytes)
    (seen : List (SyncCall × Int × Bytes)) (stored : List Nat) (w : World) : Prop where
  length : stored.length = seen.length
  /-- the calls are a run of the store, which ends in the content of the disk -/
  run : (ByteStore.machine dev.cap disk).Path (fun _ _ => True) disk (history seen stored) w.disk
  /-- a byte that was read is the one that was stored last, or was there from the beginning -/
  read : ∀ es off n r data es', history seen stored = es ++ .read off n r data :: es' →
    ∀ k < r.toNat, data k = ByteStore.lastStored (off + k) (disk (off + k)) es
  /-- if nothing fails, everything within the device is transferred -/
  complete : device.Full dev → w.failed = false → ∀ e ∈ history seen stored, e.Complete dev.cap

theorem sync_run {dev : VirtioDev} {disk : Bytes} {es : List SyncEvent} (hg : dev.Geometry)
    (hpos : 0 < dev.blockSize) (hcap : dev.cap < 2 ^ 63) (hd : device.Honest dev)
    (h : Resting dev w)
    (hrun : (syncMachine device dev disk).Path (fun _ e => e.Small dev) w es w') :
    Resting dev w' ∧ (w.failed = true → w'.failed = true) ∧ ∃ stored : List Nat,
      stored.length = ((syncMachine device dev disk).trace (syncSeen device) w es).length ∧
      (ByteStore.machine dev.cap disk).Path (fun _ _ => True) w.disk
        (history ((syncMachine device dev disk).trace (syncSeen device) w es) stored) w'.disk ∧
      (device.Full dev → w'.failed = false → ∀ e ∈
        history ((syncMachine device dev disk).trace (syncSeen device) w es) stored,
        e.Complete dev.cap) := by
  induction hrun with
  | nil w => exact ⟨h, id, [], rfl, .nil _, by simp [Machine.trace, history]⟩
  | @cons w w₁ w' e es hok hs hrest ih =>
      obtain ⟨⟨r, v⟩, hone, heq⟩ := Option.map_eq_some_iff.mp hs
      have heq : v = w₁ := heq
      subst heq
      obtain ⟨h₁, hfail₁, p, hallowed, hdisk, hcomplete⟩ := sync_step h hg hpos hcap hd hok hone
      obtain ⟨h', hfail', stored, hlen, hpath, hall⟩ := ih h₁
      have htrace : (syncMachine device dev disk).trace (syncSeen device) w (e :: es) =
          (e.call, r, (v.ios e.io).desc.buf) ::
            (syncMachine device dev disk).trace (syncSeen device) v es := by
        rw [Machine.trace, hs, syncSeen, hone]
        rfl
      rw [htrace]
      refine ⟨h', fun hf => hfail' (hfail₁ hf), p :: stored, by simp [hlen], ?_, ?_⟩
      · refine .cons trivial (ByteStore.step_allowed hallowed) ?_
        rwa [← hdisk]
      · intro hfull hf x hx
        rcases List.mem_cons.mp hx with rfl | hx
        · refine hcomplete hfull ?_
          cases hw : v.failed with
          | true =>
              rw [hfail' hw] at hf
              cases hf
          | false => rfl
        · exact hall hfull hf x hx

/-- Any calls of `read_virtio_dev` and `write_virtio_dev`, one after the other, at any offsets, with
lengths that fit in an `int` and in the commands, on a device that may fail any command and may
transfer a read in part: they are the calls of a store of bytes. Only a failed allocation can
keep a call from returning. -/
theorem sync_calls_are_store (device : Device) (dev : VirtioDev) (disk : Bytes)
    (hg : dev.Geometry) (hpos : 0 < dev.blockSize) (hcap : dev.cap < 2 ^ 63)
    (hd : device.Honest dev) {es : List SyncEvent}
    (hrun : (syncMachine device dev disk).Path (fun _ e => e.Small dev) (init dev disk) es w) :
    (∃ stored, StoreView device dev disk
      ((syncMachine device dev disk).trace (syncSeen device) (init dev disk) es) stored w) ∧
    ∀ e : SyncEvent, e.Small dev → (∀ o ∈ e.outcomes, o.isSome = true) →
      ∃ w', (syncMachine device dev disk).step w e = some w' := by
  obtain ⟨hrest, -, stored, hlen, hpath, hall⟩ :=
    sync_run hg hpos hcap hd (w := init dev disk) ⟨rfl, fun _ _ => rfl⟩ hrun
  constructor
  · refine ⟨stored, hlen, hpath, fun es off n r data es' hsplit => ?_, hall⟩
    rw [hsplit] at hpath
    exact ByteStore.read_lastStored hpath
  · intro e hsmall hcalm
    obtain ⟨r, w', hone⟩ := sync_returns hrest hg hpos hcap hd hsmall hcalm
    exact ⟨w', Option.map_eq_some_iff.mpr ⟨(r, w'), hone, rfl⟩⟩

/-- The command for the whole blocks of the first write fails, and the read ends behind the
device. -/
def storeSchedule : List SyncEvent :=
  [⟨0, .write 2 11 (fun k => UInt8.ofNat (100 + k)), []⟩, ⟨1, .write 3 6 (fun _ => 7), []⟩,
    ⟨0, .read 1 99, []⟩]

theorem sync_calls_are_store_failing : ∃ w stored,
    ((syncMachine (failingDevice (· == 2)) smallDev countingDisk).trace
      (syncSeen (failingDevice (· == 2))) (init smallDev countingDisk) storeSchedule).map (·.2.1) =
        [2, 6, 15] ∧
    StoreView (failingDevice (· == 2)) smallDev countingDisk
      ((syncMachine (failingDevice (· == 2)) smallDev countingDisk).trace
        (syncSeen (failingDevice (· == 2))) (init smallDev countingDisk) storeSchedule) stored w := by
  have hany : ((syncMachine (failingDevice (· == 2)) smallDev countingDisk).execIf
      (fun _ e => decide (e.Small smallDev)) (init smallDev countingDisk) storeSchedule).any
      (fun _ => true) = true := by decide +kernel
  obtain ⟨w, hrun, -⟩ := Machine.Path.of_check (fun _ _ => of_decide_eq_true) hany
  obtain ⟨⟨stored, hview⟩, -⟩ := sync_calls_are_store (failingDevice (· == 2)) smallDev countingDisk
    ⟨by decide, by decide, by decide⟩ (by decide) (by decide) (failingDevice_serves _).1 hrun
  exact ⟨w, stored, by decide +kernel, hview⟩

end VhostUser.Dev
