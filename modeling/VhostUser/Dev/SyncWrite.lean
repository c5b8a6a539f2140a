import VhostUser.Dev.SyncSpec

/-! # What a synchronous write stores

`write_virtio_dev` has three phases, each with exits of its own: the first block if it
is written in part, the blocks that are written as a whole, and the last block if it
is written in part. `WriteExit` lists the exits with the result of the call and with
what is on the disk. Which of them is taken depends on which commands fail, and on
the number of bytes of the middle phase as an `int`.
-/

namespace VhostUser.Dev

open VhostUser.Lib Prog

variable {w v w' : World} {calm : Prop} {device : Device} {io : Nat}

/-! ## Partial blocks -/

theorem toInt_failed {b n : Nat} (hn : n ≤ b) (hb : b < 2 ^ 31) :
    toInt (addSize (toSize (-1 - b)) n) = n - 1 - b := by
  have hsize : toSize (-1 - b) = 2 ^ 64 - 1 - b := by
    unfold toSize
    omega
  rw [hsize, addSize_eq (by omega), ← toInt_mod]
  have hmod : ((2 ^ 64 - 1 - b + n : Nat) : Int) % 2 ^ 32 = (n - 1 - b) % 2 ^ 32 := by omega
  rw [hmod, toInt_mod, toInt_eq (by omega) (by omega)]

theorem toInt_written {b n : Nat} (hn : n < 2 ^ 31) : toInt (addSize (toSize (b - b)) n) = n := by
  have hsize : toSize ((b : Int) - b) = 0 := by
    rw [Int.sub_self]
    rfl
  rw [hsize, addSize_eq (by omega), toInt_eq (by omega) (by omega)]
  omega

theorem writeBack_disk (disk m read src : Bytes) {pos len off n : Nat} {data : Bytes}
    (hn : off + n ≤ len) (hread : ∀ k < len, read k = disk (pos + k))
    (hsrc : ∀ k < len, src k = ((m.patch 0 len read).patch off n data) k) :
    disk.patch pos len src = disk.patch (pos + off) n data := by
  funext x
  by_cases hx : pos ≤ x ∧ x < pos + len
  · rw [Bytes.patch_inside _ _ hx.1 hx.2, hsrc _ (by omega)]
    by_cases hin : pos + off ≤ x ∧ x < pos + off + n
    · rw [Bytes.patch_inside _ _ (by omega) (by omega), Bytes.patch_inside _ _ hin.1 hin.2]
      congr 1
      omega
    · rw [Bytes.patch_outside _ _ (by omega), Bytes.patch_inside _ _ (by omega) (by omega),
        Bytes.patch_outside _ _ (by omega), hread _ (by omega)]
      congr 1
      omega
  · rw [Bytes.patch_outside _ _ (by omega), Bytes.patch_outside _ _ (by omega)]

/-- The two commands of a partial block are executed. -/
def blockStored (device : Device) (t lba : Nat) : Bool :=
  !device.fails t ⟨false, lba, 1⟩ && !device.fails (t + 1) ⟨true, lba, 1⟩

/-- `write_partial_block`: it writes back only a block of which everything was read. -/
theorem runs_writePartial (hfresh : v.Fresh) (hok : v.dev.Ok) (hd : device.Honest v.dev)
    {lba off pos n : Nat} (hlba : lba < 2 ^ lbaBits v.dev) (hoff : off ≤ v.dev.blockSize)
    (hn : off + n < 2 ^ 64) {Q : Int → World → Prop}
    (hfail : ∀ r w', r < 0 → w'.disk = v.disk → (device.Full v.dev → w'.failed = true) →
      (calm → device.Full v.dev → blockStored device v.nextTask lba = false) → Q r w')
    (hdone : ∀ w', blockStored device v.nextTask lba = true → Served v w' 2 → w'.ios = v.ios →
      w'.disk = v.disk.patch (lba * v.dev.blockSize + off) (min n (v.dev.blockSize - off))
        (fun k => (v.ios io).desc.buf (pos + k)) →
      Q (min n (v.dev.blockSize - off) : Nat) w') :
    Runs calm (writePartialBlock device io lba off pos n) Q v := by
  have hint := hok.int
  have hclip := clipToBlock_eq hok hoff hn
  refine wpIf_bind (runs_allocBounceBuf fun m => wpIf_bind (wpIf_state (wpIf_bind ?_)))
  refine runs_readBlock hfresh hok hd hlba ?_ ?_
  · intro buf' w' hmissed hcalm
    refine wpIf_ite (fun _ => wpIf_pure ?_) fun hne => ?_
    · refine hfail (-1) w' (by decide) hmissed.disk (fun _ => hmissed.failed) fun hc _ => ?_
      simp [blockStored, hcalm hc]
    · omega
  · intro transferred rest used w₁ hdev hle hserved hdisk hios
    refine wpIf_ite (fun hne => wpIf_pure ?_) fun heq => ?_
    · have hshort : ¬ device.Full v.dev := fun hfull => by
        have hall := hfull _ _ _ _ _ _ hdev
        omega
      exact hfail (-1) w₁ (by decide) hdisk (fun hfull => absurd hfull hshort) fun _ hfull =>
        absurd hfull hshort
    · have hall : transferred = v.dev.blockSize := by omega
      subst hall
      have hread : device.fails v.nextTask ⟨false, lba, 1⟩ = false := by
        rw [Device.fails, hdev]
        rfl
      rw [hclip]
      refine wpIf_bind (wpIf_state (wpIf_bind (runs_blkWrite (hserved.fresh hfresh) ⟨true, lba, 1⟩
        ?_ hd.failed ?_ ?_)))
      · rw [hserved.dev, Nat.mod_eq_of_lt hlba, one_mod_countBits]
      · intro w₂ hmissed hcalm
        refine wpIf_pure (hfail _ w₂ ?_ (hmissed.disk.trans hdisk) (fun _ => hmissed.failed)
          fun hc _ => ?_)
        · rw [toInt_failed (by omega) hint]
          omega
        · have hwrite := hcalm hc
          rw [hserved.next] at hwrite
          simp [blockStored, hwrite]
      · intro w₂ hwrite hserved₂ hios₂ hdisk₂
        rw [hserved.next] at hwrite
        have hsize : toInt (mulSize 1 w₁.dev.blockSize) = v.dev.blockSize := by
          rw [hserved.dev, mulSize_eq (by omega), Nat.one_mul, toInt_eq (by omega) (by omega)]
        rw [hsize, toSize_eq (by omega) (by omega), Int.toNat_natCast] at hdisk₂
        apply wpIf_pure
        rw [hsize, toInt_written (by omega)]
        refine hdone w₂ (by simp [blockStored, hread, hwrite]) (hserved.trans hserved₂)
          (hios₂.trans hios) ?_
        rw [hdisk₂, writtenDisk, hserved.dev, hdisk, Nat.one_mul]
        refine writeBack_disk _ m (readSrc v lba v.dev.blockSize rest) _ (by omega) (fun k hk => ?_)
          fun k hk => ?_
        · rw [readSrc, if_pos hk]
        · rw [writeSrc, if_pos hk, ← hios]
          rfl

/-! ## Phases -/

/-- The request of a call, with the memory behind its buffer. -/
def callDesc (w : World) (io offset nbytes : Nat) : AsyncIoDesc :=
  writeDesc offset nbytes (w.ios io).desc.buf

section Phases

variable (device : Device) (w : World) (d : AsyncIoDesc)

def headStored : Bool :=
  firstResid w.dev d == 0 || blockStored device w.nextTask (d.offset / w.dev.blockSize)

def bodyTask : Nat := w.nextTask + if firstResid w.dev d = 0 then 0 else 2

def bodyCommand : RwCommand :=
  ⟨true, (d.offset + headLen w.dev d) / w.dev.blockSize, midBlocks w.dev d % 2 ^ countBits w.dev⟩

def bodyStored : Bool :=
  midBlocks w.dev d == 0 || !device.fails (bodyTask w d) (bodyCommand w d)

def tailTask : Nat := bodyTask w d + if midBlocks w.dev d = 0 then 0 else 1

def tailStored : Bool :=
  bodyLen w.dev d == d.nbytes ||
    blockStored device (tailTask w d) ((d.offset + d.nbytes) / w.dev.blockSize)

def bodyBytes : Nat := midBlocks w.dev d * w.dev.blockSize

def headDisk : Bytes := w.disk.patch d.offset (headLen w.dev d) d.buf

/-- The disk after the second phase: as many blocks as the command counts, and as many bytes of
the buffer as its size tells. -/
def bodyDisk : Bytes :=
  (headDisk w d).patch (d.offset + headLen w.dev d) ((bodyCommand w d).count * w.dev.blockSize)
    fun k => if k < toSize (toInt (bodyBytes w d)) then d.buf (headLen w.dev d + k) else 0

def tailDisk : Bytes :=
  (bodyDisk w d).patch (d.offset + bodyLen w.dev d) (d.nbytes - bodyLen w.dev d)
    fun k => d.buf (bodyLen w.dev d + k)

end Phases

/-- The exits of a write, with the result and the world at the end. -/
inductive WriteExit (calm : Prop) (device : Device) (w : World) (d : AsyncIoDesc) :
    Int → World → Prop
  | nothing (hzero : d.nbytes = 0) : WriteExit calm device w d 0 w
  | headFailed (w' : World) (hdisk : w'.disk = w.disk)
      (hfail : device.Full w.dev → w'.failed = true)
      (hwhy : calm → device.Full w.dev → headStored device w d = false) : WriteExit calm device w d (-1) w'
  | bodyFailed (w' : World) (hhead : headStored device w d = true) (hdisk : w'.disk = headDisk w d)
      (hfail : w'.failed = true) (hwhy : calm → bodyStored device w d = false) :
      WriteExit calm device w d (headLen w.dev d) w'
  /-- the middle is stored, and its length is not an `int` -/
  | bodyNarrowed (w' : World) (r : Int) (hhead : headStored device w d = true)
      (hbody : bodyStored device w d = true) (hbig : 2 ^ 31 ≤ bodyBytes w d) (hr : r ≠ -1)
      (hdisk : w'.disk = bodyDisk w d) : WriteExit calm device w d r w'
  | tailFailed (w' : World) (hhead : headStored device w d = true)
      (hbody : bodyStored device w d = true) (hsmall : bodyBytes w d < 2 ^ 31)
      (hdisk : w'.disk = bodyDisk w d) (hfail : device.Full w.dev → w'.failed = true)
      (hwhy : calm → device.Full w.dev → tailStored device w d = false) :
      WriteExit calm device w d (-1) w'
  | stored (w' : World) (hhead : headStored device w d = true)
      (hbody : bodyStored device w d = true) (htail : tailStored device w d = true)
      (hsmall : bodyBytes w d < 2 ^ 31) (hdisk : w'.disk = tailDisk w d) :
      WriteExit calm device w d (toInt d.nbytes) w'

/-- Where the call stands between two phases. -/
structure Between (w : World) (k : Nat) (disk : Bytes) (v : World) : Prop where
  served : Served w v k
  ios : v.ios = w.ios
  disk : v.disk = disk

section Runs

variable {d : AsyncIoDesc} {blk : Nat}

theorem Between.nextTask {k : Nat} {disk : Bytes} (h : Between w k disk v) :
    v.nextTask = w.nextTask + k := h.served.next

theorem runs_writeTail (hfresh : w.Fresh) (hg : w.dev.Geometry) (hok : w.dev.Ok)
    (hd : device.Honest w.dev) (hbuf : d.buf = (w.ios io).desc.buf)
    (hhead : headStored device w d = true) (hbody : bodyStored device w d = true)
    (hsmall : bodyBytes w d < 2 ^ 31) {k : Nat} (hk : w.nextTask + k = tailTask w d)
    (h : Between w k (bodyDisk w d) v) (hcap : d.offset + d.nbytes ≤ w.dev.cap)
    (hblk : bodyLen w.dev d ≠ d.nbytes → blk = (d.offset + d.nbytes) / w.dev.blockSize) :
    Runs calm (writeTail device io blk (bodyLen w.dev d) d.nbytes) (WriteExit calm device w d) v := by
  have hdev := h.served.dev
  have hint := hok.int
  have hcapLt := hok.cap
  have hle := bodyLen_le w.dev d
  refine wpIf_bind (wpIf_state ?_)
  rw [hdev, subSize_eq hle (by omega)]
  by_cases hne : bodyLen w.dev d = d.nbytes
  · rw [hne, Nat.sub_self, Nat.zero_mod]
    refine wpIf_pure (.stored v hhead hbody (by simp [tailStored, hne]) hsmall ?_)
    rw [h.disk, tailDisk, hne, Nat.sub_self, Bytes.patch_zero]
  · obtain ⟨hlast, hstart⟩ := tail_spec hok hne
    have hlt := lastResid_lt (d := d) hok
    rw [← hlast, Nat.mod_eq_of_lt hlt, if_pos (Nat.ne_of_gt (lastResid_pos hok hne)), hblk hne]
    have hlba : (d.offset + d.nbytes) / w.dev.blockSize < 2 ^ lbaBits w.dev :=
      hg.block_lt (by omega)
    have htask : v.nextTask = tailTask w d := h.nextTask.trans hk
    have htail : tailStored device w d = blockStored device v.nextTask
        ((d.offset + d.nbytes) / w.dev.blockSize) := by
      simp [tailStored, hne, htask]
    refine wpIf_bind (runs_writePartial (h.served.fresh hfresh) (hdev ▸ hok) (hdev ▸ hd)
      (hdev ▸ hlba) (Nat.zero_le _) (by omega) ?_ ?_)
    · intro r w' hr hdisk hfail hwhy
      refine wpIf_ite (fun _ => wpIf_pure ?_) fun hneg => absurd hr hneg
      rw [hdev] at hfail hwhy
      refine .tailFailed w' hhead hbody hsmall (hdisk.trans h.disk) hfail fun hc hfull => ?_
      rw [htail]
      exact hwhy hc hfull
    · intro w' hdone hserved hios hdisk
      rw [hdev, Nat.sub_zero, Nat.min_eq_left (by omega)] at hdisk ⊢
      refine wpIf_ite (fun hneg => absurd hneg (by omega)) fun _ => wpIf_pure ?_
      rw [toSize_eq (by omega) (by omega), Int.toNat_natCast, addSize_eq (by omega), hlast,
        Nat.add_sub_cancel' hle]
      refine .stored w' hhead hbody (htail.trans hdone) hsmall ?_
      rw [hdisk, h.disk, h.ios, ← hbuf, hstart, Nat.add_zero, hlast]
      rfl

theorem headLen_lt (hok : w.dev.Ok) : headLen w.dev d < w.dev.blockSize := by
  have hpos := hok.pos
  have hle := head_in_block (d := d) hok
  by_cases hr : firstResid w.dev d = 0
  · rw [headLen_of_aligned hr]
    exact hpos
  · omega

theorem runs_writeRest (hfresh : w.Fresh) (hg : w.dev.Geometry) (hok : w.dev.Ok)
    (hd : device.Honest w.dev) (hbuf : d.buf = (w.ios io).desc.buf)
    (hhead : headStored device w d = true) {k : Nat} (hk : w.nextTask + k = bodyTask w d)
    (h : Between w k (headDisk w d) v) (hcap : d.offset + d.nbytes ≤ w.dev.cap)
    (hstart : blk * w.dev.blockSize = d.offset + headLen w.dev d) :
    Runs calm (writeRest device io blk (headLen w.dev d) d.nbytes) (WriteExit calm device w d) v := by
  have hdev := h.served.dev
  have hint := hok.int
  have hcapLt := hok.cap
  have hle := headLen_le w.dev d
  have hmid := mid_mul_le w.dev d
  have hhl := head_in_block (d := d) hok
  refine wpIf_bind (wpIf_state ?_)
  dsimp only
  rw [hdev, subSize_eq hle (by omega)]
  have hq : (d.nbytes - headLen w.dev d) / w.dev.blockSize = midBlocks w.dev d := rfl
  rw [hq]
  -- the last block, seen from the first phase
  have hblk : bodyLen w.dev d ≠ d.nbytes →
      blk + midBlocks w.dev d = (d.offset + d.nbytes) / w.dev.blockSize := by
    intro hne
    obtain ⟨-, hlast⟩ := tail_spec hok hne
    apply Nat.eq_of_mul_eq_mul_right hok.pos
    rw [hlast, Nat.add_mul, hstart, bodyLen]
    omega
  refine wpIf_ite (fun hpos => ?_) fun hzero => ?_
  · have hone := Nat.le_mul_of_pos_left w.dev.blockSize hpos
    have hb := hok.pos
    have hsize : mulSize (midBlocks w.dev d) w.dev.blockSize = bodyBytes w d := mulSize_eq (by omega)
    have hlba : blk < 2 ^ lbaBits w.dev := hg.block_lt (by omega)
    have hdiv : (d.offset + headLen w.dev d) / w.dev.blockSize = blk := by
      rw [← hstart]
      exact Nat.mul_div_cancel _ hok.pos
    have htask : v.nextTask = bodyTask w d := h.nextTask.trans hk
    have hbody : bodyStored device w d = !device.fails v.nextTask (bodyCommand w d) := by
      simp [bodyStored, Nat.ne_of_gt hpos, htask]
    refine wpIf_bind (runs_blkWrite (h.served.fresh hfresh) (bodyCommand w d) ?_ hd.failed ?_ ?_)
    · rw [hdev, bodyCommand, hdiv, Nat.mod_eq_of_lt hlba]
    · intro w' hmissed hwhy
      refine wpIf_ite (fun _ => wpIf_pure ?_) fun hneg => absurd (show (-1 : Int) < 0 by decide) hneg
      rw [toInt_eq (by omega) (by omega)]
      refine .bodyFailed w' hhead (hmissed.disk.trans h.disk) hmissed.failed fun hc => ?_
      rw [hbody, hwhy hc]
      rfl
    · intro w' hdone hserved hios hdisk
      have hstored : bodyStored device w d = true := by rw [hbody, hdone]; rfl
      have hdisk' : w'.disk = bodyDisk w d := by
        rw [hdisk, writtenDisk, h.disk, hdev, hsize, bodyDisk, hbuf, ← h.ios, bodyCommand, hdiv, hstart]
        rfl
      have hlen : headLen w.dev d + bodyBytes w d = bodyLen w.dev d := rfl
      rw [hdev, hsize]
      by_cases hsmall : bodyBytes w d < 2 ^ 31
      · rw [toInt_eq (by omega) (by omega), toSize_eq (by omega) (by omega), Int.toNat_natCast,
          addSize_eq (by omega), hlen]
        refine wpIf_ite (fun hneg => absurd hneg (by omega)) fun _ => ?_
        refine wpIf_ite (fun hless => absurd hless (Nat.lt_irrefl _)) fun _ => ?_
        refine runs_writeTail hfresh hg hok hd hbuf hhead hstored hsmall ?_
          ⟨h.served.trans hserved, hios.trans h.ios, hdisk'⟩ hcap fun hne => ?_
        · rw [← Nat.add_assoc, hk, tailTask, if_neg (Nat.ne_of_gt hpos)]
        · have hbig := Nat.le_mul_of_pos_right (blk + midBlocks w.dev d) hok.pos
          rw [Nat.add_mul] at hbig
          rw [addSize_eq (by omega), hblk hne]
      · -- the code takes the length for a failure, or for a short transfer
        have hlt := toInt_lt (bodyBytes w d)
        have hhead' := headLen_lt (d := d) hok
        generalize toInt (bodyBytes w d) = ret at hlt ⊢
        refine wpIf_ite (fun _ => wpIf_pure ?_) fun hnonneg => ?_
        · refine .bodyNarrowed w' _ hhead hstored (by omega) ?_ hdisk'
          rw [Ne, toInt_eq_neg_one_iff]
          omega
        · rw [toSize_eq (by omega) (by omega)]
          refine wpIf_ite (fun _ => wpIf_pure ?_) fun hless => absurd hless (by omega)
          refine .bodyNarrowed w' _ hhead hstored (by omega) ?_ hdisk'
          rw [addSize_eq (by omega), Ne, toInt_eq_neg_one_iff]
          omega
  · have hzero : midBlocks w.dev d = 0 := by omega
    have hbytes : bodyBytes w d = 0 := by simp [bodyBytes, hzero]
    have hlen : bodyLen w.dev d = headLen w.dev d := by simp [bodyLen, hzero]
    rw [← hlen]
    refine runs_writeTail hfresh hg hok hd hbuf hhead (by simp [bodyStored, hzero]) (by omega) (k := k) ?_
      ⟨h.served, h.ios, ?_⟩ hcap fun hne => ?_
    · simp [tailTask, hzero, hk]
    · rw [h.disk, bodyDisk, bodyCommand, hzero, Nat.zero_mod, Nat.zero_mul, Bytes.patch_zero]
    · rw [← hblk hne, hzero]
      rfl

/-- The whole call, with the length that is left after the clip at the capacity. -/
theorem runs_writeVirtioDev (hfresh : w.Fresh) (hg : w.dev.Geometry) (hok : w.dev.Ok)
    (hd : device.Honest w.dev) {off nbytes n : Nat} (hoff : off ≤ w.dev.cap)
    (hn : clipToCap w.dev off nbytes = n)
    (hcap : off + n ≤ w.dev.cap) :
    Runs calm (writeVirtioDev device io off nbytes)
      (WriteExit calm device w (callDesc w io off n)) w := by
  have hint := hok.int
  have hcapLt := hok.cap
  refine wpIf_bind (wpIf_state (wpIf_ite (fun hbig => absurd hoff (by omega)) fun _ =>
    wpIf_ite (fun hzero => wpIf_pure (.nothing ?_)) fun _ => ?_))
  · show n = 0
    rw [← hn]
    unfold clipToCap
    split
    · next hbig =>
        rw [hzero, addSize_eq (by omega)] at hbig
        omega
    · exact hzero
  dsimp only
  rw [hn]
  have hblock := first_block w.dev (callDesc w io off n)
  have hresid := firstResid_lt (d := callDesc w io off n) hok
  have hdiv := Nat.div_le_self off w.dev.blockSize
  refine wpIf_bind (calls_divideBy hok.pos (wpIf_ite (fun hne => ?_) fun heq => ?_))
  · have hr : firstResid w.dev (callDesc w io off n) ≠ 0 := hne
    have hhead : min n (w.dev.blockSize - off % w.dev.blockSize) =
        headLen w.dev (callDesc w io off n) := (if_neg hr).symm
    have hstored : headStored device w (callDesc w io off n) =
        blockStored device w.nextTask (off / w.dev.blockSize) := by
      rw [headStored, beq_false_of_ne hr]
      rfl
    have hlba : off / w.dev.blockSize < 2 ^ lbaBits w.dev := hg.block_lt (by
      have : off / w.dev.blockSize * w.dev.blockSize + off % w.dev.blockSize = off := hblock
      omega)
    have hlt : off % w.dev.blockSize < w.dev.blockSize := hresid
    have hmod := Nat.mod_le off w.dev.blockSize
    refine wpIf_bind (runs_writePartial hfresh hok hd hlba (by omega) (by omega) ?_ ?_)
    · intro r w' hr hdisk hfail hwhy
      refine wpIf_ite (fun _ => wpIf_pure ?_) fun hneg => absurd hr hneg
      refine .headFailed w' hdisk hfail fun hc hfull => ?_
      rw [hstored]
      exact hwhy hc hfull
    · intro w' hdone hserved hios hdisk
      have hbegin : off / w.dev.blockSize * w.dev.blockSize + off % w.dev.blockSize = off := hblock
      have hdisk' : w'.disk = headDisk w (callDesc w io off n) := by
        rw [hdisk, hbegin, hhead]
        simp only [Nat.zero_add]
        rfl
      rw [hhead]
      refine wpIf_ite (fun hneg => absurd hneg (by omega)) fun _ => ?_
      refine wpIf_ite (fun hshort => wpIf_pure ?_) fun hfill => ?_
      · -- the request ends before its first block does
        have hall : headLen w.dev (callDesc w io off n) = n := by omega
        have hmid := midBlocks_of_head hall
        have hbody : bodyLen w.dev (callDesc w io off n) = n := by simp [bodyLen, hmid, hall]
        have hexit : WriteExit calm device w (callDesc w io off n) (toInt n) w' := by
          refine .stored w' (hstored.trans hdone) (by simp [bodyStored, hmid])
            (by simp only [tailStored, hbody]; simp [callDesc, writeDesc])
            (by simp [bodyBytes, hmid]) ?_
          rw [hdisk', tailDisk, hbody, show (callDesc w io off n).nbytes - n = 0 from Nat.sub_self n,
            Bytes.patch_zero, bodyDisk, bodyCommand, hmid, Nat.zero_mod, Nat.zero_mul, Bytes.patch_zero]
        rw [toInt_eq (by omega) (by omega)] at hexit
        rw [hall]
        exact hexit
      · have hfull : headLen w.dev (callDesc w io off n) = w.dev.blockSize - off % w.dev.blockSize := by
          omega
        rw [toSize_eq (by omega) (by omega), Int.toNat_natCast, addSize_eq (by omega)]
        refine runs_writeRest hfresh hg hok hd rfl (hstored.trans hdone) (k := 2) ?_
          ⟨hserved, hios, hdisk'⟩ hcap ?_
        · rw [bodyTask, if_neg hr]
        · rw [Nat.add_mul, hfull]
          show _ = off + _
          omega
  · have haligned : firstResid w.dev (callDesc w io off n) = 0 := Decidable.of_not_not heq
    have hzero := headLen_of_aligned haligned
    have hrest : Runs calm (writeRest device io (off / w.dev.blockSize)
        (headLen w.dev (callDesc w io off n)) n) (WriteExit calm device w (callDesc w io off n)) w := by
      refine runs_writeRest hfresh hg hok hd rfl (by simp [headStored, haligned]) (k := 0)
        (by simp [bodyTask, haligned]) ⟨.refl w, rfl, ?_⟩ hcap ?_
      · rw [headDisk, hzero, Bytes.patch_zero]
      · rw [hzero]
        rw [haligned] at hblock
        exact hblock
    rw [hzero] at hrest
    exact hrest

theorem writeVirtioDev_empty {off : Nat} (hoff : off ≤ w.dev.cap) (os : List (Option Bytes)) :
    writeVirtioDev device io off 0 (w, os) = .ok (0, w, os) := by
  show (if off > w.dev.cap then (pure (-1) : M Int) else pure 0) (w, os) = _
  rw [if_neg (by omega)]
  rfl

theorem runs_writeInRange (hfresh : w.Fresh) (hg : w.dev.Geometry) (hd : device.Honest w.dev)
    {off nbytes : Nat} (hpos : 0 < nbytes) (hrange : off + nbytes ≤ w.dev.cap) :
    Runs calm (writeVirtioDev device io off nbytes)
      (WriteExit calm device w (callDesc w io off nbytes)) w := by
  have hin : InRange w.dev (callDesc w io off nbytes) := hg.inRange hpos hrange
  have hlt : off + nbytes < 2 ^ 64 := hin.lt
  refine runs_writeVirtioDev hfresh hg hin.ok hd (by omega) ?_ hrange
  rw [clipToCap, addSize_eq hlt, if_neg (by omega)]

end Runs

/-! ## The disk after each phase -/

section Disk

variable {d : AsyncIoDesc}

/-- The bytes that the second phase has on the disk behind the first. -/
def storedLen (w : World) (d : AsyncIoDesc) : Nat :=
  headLen w.dev d + (bodyCommand w d).count * w.dev.blockSize

/-- As long as the length is an `int`, the buffer covers all blocks of the command. -/
theorem bodyDisk_eq (hsmall : bodyBytes w d < 2 ^ 31) :
    bodyDisk w d = w.disk.patch d.offset (storedLen w d) d.buf := by
  have hcount : (bodyCommand w d).count * w.dev.blockSize ≤ bodyBytes w d :=
    Nat.mul_le_mul_right _ (Nat.mod_le ..)
  rw [bodyDisk, headDisk, storedLen, ← Bytes.patch_append]
  refine Bytes.patch_congr _ fun k hk => if_pos ?_
  rw [toInt_eq (by omega) (by omega), toSize_eq (by omega) (by omega)]
  omega

theorem tailDisk_eq (hsmall : bodyBytes w d < 2 ^ 31)
    (hcount : midBlocks w.dev d < 2 ^ countBits w.dev) :
    tailDisk w d = w.disk.patch d.offset d.nbytes d.buf := by
  have hstored : storedLen w d = bodyLen w.dev d := by
    rw [storedLen, bodyCommand, Nat.mod_eq_of_lt hcount]
    rfl
  rw [tailDisk, bodyDisk_eq hsmall, hstored, Bytes.patch_append,
    Nat.add_sub_cancel' (bodyLen_le w.dev d)]

end Disk

/-! ## Successful results -/

theorem WriteExit.counted {d : AsyncIoDesc} {r : Int} (h : WriteExit calm device w d r w')
    (hfull : device.Full w.dev) (hn : d.nbytes < 2 ^ 31)
    (hblocks : d.nbytes / w.dev.blockSize < 2 ^ 16) :
    (0 ≤ r → w'.disk = w.disk.patch d.offset r.toNat d.buf) ∧
      (w'.failed = false → r = d.nbytes) := by
  have hbytes : bodyBytes w d ≤ d.nbytes := Nat.le_trans (mid_mul_le w.dev d) (Nat.sub_le ..)
  have hmid : midBlocks w.dev d < 2 ^ 16 :=
    Nat.lt_of_le_of_lt (Nat.div_le_div_right (Nat.sub_le ..)) hblocks
  have hnofail : w'.failed = true → w'.failed = false → r = d.nbytes := fun h h' => by
    rw [h] at h'
    cases h'
  cases h with
  | nothing hzero =>
      rw [hzero]
      exact ⟨fun _ => (Bytes.patch_zero ..).symm, fun _ => rfl⟩
  | headFailed _ hdisk hfail hwhy =>
      exact ⟨fun hneg => absurd hneg (by decide), hnofail (hfail hfull)⟩
  | bodyFailed _ hhead hdisk hfail hwhy =>
      refine ⟨fun _ => ?_, hnofail hfail⟩
      rw [hdisk, Int.toNat_natCast]
      rfl
  | bodyNarrowed _ _ hhead hbody hbig hr hdisk => omega
  | tailFailed _ hhead hbody hsmall hdisk hfail hwhy =>
      exact ⟨fun hneg => absurd hneg (by decide), hnofail (hfail hfull)⟩
  | stored _ hhead hbody htail hsmall hdisk =>
      rw [toInt_eq (by omega) (by omega)]
      refine ⟨fun _ => ?_, fun _ => rfl⟩
      rw [hdisk, tailDisk_eq hsmall (lt_countBits hmid), Int.toNat_natCast]

/-- A write on a device that executes each command in full or fails it: a result that is
not negative is the number of bytes of the buffer that are on the disk, which is otherwise
unchanged, and it is the length of the request within the device if nothing has failed.
Only a failed allocation can keep the call from returning. -/
theorem write_stores_counted (device : Device) (w : World) (hw : w.Fresh)
    (hg : w.dev.Geometry) (hpos : 0 < w.dev.blockSize) (hcap : w.dev.cap < 2 ^ 63)
    (hd : device.Honest w.dev) (hfull : device.Full w.dev) (io offset nbytes : Nat)
    (hoff : offset ≤ w.dev.cap) (hn : nbytes < 2 ^ 31) (hblocks : nbytes / w.dev.blockSize < 2 ^ 16) :
    (∀ os r w' os', writeVirtioDev device io offset nbytes (w, os) = .ok (r, w', os') →
      (0 ≤ r → w'.disk = w.disk.patch offset r.toNat (w.ios io).desc.buf) ∧
        (w'.failed = false → r = min nbytes (w.dev.cap - offset))) ∧
    ∀ os : List (Option Bytes), (∀ o ∈ os, o.isSome = true) →
      ∃ r w' os', writeVirtioDev device io offset nbytes (w, os) = .ok (r, w', os') := by
  have hok : w.dev.Ok := ⟨hpos, hg.int, by omega⟩
  have hrun : ∀ calm, Runs calm (writeVirtioDev device io offset nbytes) (WriteExit calm device w
      (callDesc w io offset (min nbytes (w.dev.cap - offset)))) w := fun calm =>
    runs_writeVirtioDev hw hg hok hd hoff (clip_eq hoff (by omega)) (by omega)
  have hblocks' : min nbytes (w.dev.cap - offset) / w.dev.blockSize < 2 ^ 16 :=
    Nat.lt_of_le_of_lt (Nat.div_le_div_right (Nat.min_le_left ..)) hblocks
  constructor
  · intro os r w' os' hres
    have hexit := (hrun False).result (fun _ _ => False.elim) hres
    exact hexit.counted hfull (Nat.lt_of_le_of_lt (Nat.min_le_left ..) hn) hblocks'
  · intro os hos
    obtain ⟨r, w', os', hres, -⟩ := (hrun True).ends (not_not_intro trivial) fun o ho _ => hos o ho
    exact ⟨r, w', os', hres⟩

/-- A device of four-byte blocks that fails the commands of some tasks. -/
def failingDevice (fails : Nat → Bool) : Device := fun t cmd =>
  if fails t then .failed ⟨2, 0⟩ 0
  else .done (cmd.elim 0 (·.count * 4)) (fun _ => 0) (cmd.elim 0 (·.count * 4) + sizeofResp)

theorem failingDevice_serves (fails : Nat → Bool) :
    (failingDevice fails).Honest smallDev ∧ (failingDevice fails).Full smallDev := by
  have hread : ∀ t lba count transferred rest used,
      failingDevice fails t (some ⟨false, lba, count⟩) = .done transferred rest used →
        transferred = count * 4 ∧ used = transferred + sizeofResp := by
    intro t lba count transferred rest used h
    unfold failingDevice at h
    split at h
    · cases h
    · cases h
      exact ⟨rfl, rfl⟩
  refine ⟨⟨fun t cmd resp used h => ?_, fun t lba count transferred rest used h => ?_⟩,
    fun t lba count transferred rest used h => (hread _ _ _ _ _ _ h).1⟩
  · unfold failingDevice at h
    split at h
    · cases h
      rfl
    · cases h
  · obtain ⟨htrans, hused⟩ := hread _ _ _ _ _ _ h
    exact ⟨Nat.le_of_eq htrans, hused⟩

def onesWorld : World := (init smallDev countingDisk).memcpyUser 0 0 16 fun _ => 1

/-- Eleven bytes from offset two, and the command of the two whole blocks fails. -/
theorem write_stores_counted_middle : ∃ w' os',
    writeVirtioDev (failingDevice (· == 2)) 0 2 11 (onesWorld, []) = .ok (2, w', os') ∧
      w'.disk = countingDisk.patch 2 2 (onesWorld.ios 0).desc.buf := by
  obtain ⟨hd, hfull⟩ := failingDevice_serves (· == 2)
  have hwrite := write_stores_counted (failingDevice (· == 2)) onesWorld (fun _ _ => rfl)
    ⟨by decide, by decide, by decide⟩ (by decide) (by decide) hd hfull 0 2 11 (by decide)
    (by decide) (by decide)
  obtain ⟨r, w', os', hrun⟩ := hwrite.2 [] (fun o ho => nomatch ho)
  have hr : r = 2 := by
    have hcheck : (writeVirtioDev (failingDevice (· == 2)) 0 2 11 (onesWorld, [])).toOption.any
        (fun x => decide (x.1 = 2)) = true := by decide +kernel
    rw [hrun] at hcheck
    exact of_decide_eq_true hcheck
  subst hr
  exact ⟨w', os', hrun, (hwrite.1 [] 2 w' os' hrun).1 (by decide)⟩

/-! ## Failures -/

/-- The call is to return `-1` after some bytes of the buffer were stored: a command of the
last block fails, or the number of bytes is `-1` as an `int`. -/
def Understated (device : Device) (w : World) (d : AsyncIoDesc) : Prop :=
  headStored device w d = true ∧ bodyStored device w d = true ∧ bodyBytes w d < 2 ^ 31 ∧
    (tailStored device w d = false ∧ (∃ k < storedLen w d, d.buf k ≠ w.disk (d.offset + k)) ∨
      tailStored device w d = true ∧ d.nbytes = 2 ^ 32 - 1 ∧
        ∃ k < d.nbytes, d.buf k ≠ w.disk (d.offset + k))

theorem not_understated_of_empty {d : AsyncIoDesc} (hzero : d.nbytes = 0) :
    ¬ Understated device w d := by
  intro hbad
  have hbody : bodyLen w.dev d = d.nbytes := by
    have := bodyLen_le w.dev d
    omega
  rcases hbad.2.2.2 with ⟨hfalse, -⟩ | ⟨-, hlen, -⟩
  · simp [tailStored, hbody] at hfalse
  · omega

section Long

variable {d : AsyncIoDesc}

theorem tail_lt (hok : w.dev.Ok) : d.nbytes - bodyLen w.dev d < w.dev.blockSize := by
  have hpos := hok.pos
  by_cases hne : bodyLen w.dev d = d.nbytes
  · omega
  · rw [← (tail_spec hok hne).1]
    exact lastResid_lt hok

theorem nbytes_lt (hok : w.dev.Ok) (hsmall : bodyBytes w d < 2 ^ 31) : d.nbytes < 3 * 2 ^ 31 := by
  have hint := hok.int
  have hhead := headLen_lt (d := d) hok
  have htail := tail_lt (d := d) hok
  have hbody : bodyLen w.dev d = headLen w.dev d + bodyBytes w d := rfl
  omega

/-- A long request with a short middle has large blocks, and few of them. -/
theorem midBlocks_lt_of_long (hok : w.dev.Ok) (hsmall : bodyBytes w d < 2 ^ 31)
    (hlen : d.nbytes = 2 ^ 32 - 1) : midBlocks w.dev d < 2 ^ countBits w.dev := by
  refine lt_countBits (Nat.lt_trans (m := 2) ?_ (by decide))
  have hhead := headLen_lt (d := d) hok
  have htail := tail_lt (d := d) hok
  have hbody : bodyLen w.dev d = headLen w.dev d + bodyBytes w d := rfl
  refine Nat.lt_of_not_le fun htwo => ?_
  have hmul : 2 * w.dev.blockSize ≤ bodyBytes w d := Nat.mul_le_mul_right _ htwo
  omega

end Long

theorem WriteExit.unchanged_iff {d : AsyncIoDesc} {r : Int} (h : WriteExit True device w d r w')
    (hfull : device.Full w.dev) (hok : w.dev.Ok) :
    (r = -1 → w'.disk = w.disk) ↔ ¬ Understated device w d := by
  have hchanged : ∀ len, w.disk.patch d.offset len d.buf = w.disk ↔
      ¬ ∃ k < len, d.buf k ≠ w.disk (d.offset + k) := fun len => by
    rw [Bytes.patch_eq_self_iff]
    simp
  cases h with
  | nothing hzero =>
      exact ⟨fun _ => not_understated_of_empty hzero, fun _ hr => absurd hr (by decide)⟩
  | headFailed _ hdisk hfail hwhy =>
      refine ⟨fun _ hbad => ?_, fun _ _ => hdisk⟩
      have hfalse := hwhy trivial hfull
      rw [hbad.1] at hfalse
      cases hfalse
  | bodyFailed _ hhead hdisk hfail hwhy =>
      refine ⟨fun _ hbad => ?_, fun _ hr => by omega⟩
      have hfalse := hwhy trivial
      rw [hbad.2.1] at hfalse
      cases hfalse
  | bodyNarrowed _ _ hhead hbody hbig hr hdisk =>
      refine ⟨fun _ hbad => ?_, fun _ hneg => absurd hneg hr⟩
      have := hbad.2.2.1
      omega
  | tailFailed _ hhead hbody hsmall hdisk hfail hwhy =>
      have hfalse := hwhy trivial hfull
      rw [hdisk, bodyDisk_eq hsmall, hchanged]
      refine ⟨fun hsame hbad => ?_, fun hgood _ hex => hgood ⟨hhead, hbody, hsmall, Or.inl ⟨hfalse, hex⟩⟩⟩
      rcases hbad.2.2.2 with ⟨-, hex⟩ | ⟨htrue, -⟩
      · exact hsame rfl hex
      · rw [hfalse] at htrue
        cases htrue
  | stored _ hhead hbody htail hsmall hdisk =>
      have hbound := nbytes_lt (d := d) hok hsmall
      by_cases hlen : d.nbytes = 2 ^ 32 - 1
      · have hr : toInt d.nbytes = -1 := by
          rw [toInt_eq_neg_one_iff]
          omega
        rw [hdisk, tailDisk_eq hsmall (midBlocks_lt_of_long hok hsmall hlen), hchanged]
        refine ⟨fun hsame hbad => ?_, fun hgood _ hex => hgood ⟨hhead, hbody, hsmall, Or.inr ⟨htail, hlen, hex⟩⟩⟩
        rcases hbad.2.2.2 with ⟨hfalse, -⟩ | ⟨-, -, hex⟩
        · rw [htail] at hfalse
          cases hfalse
        · exact hsame hr hex
      · refine ⟨fun _ hbad => ?_, fun _ hr => ?_⟩
        · rcases hbad.2.2.2 with ⟨hfalse, -⟩ | ⟨-, heq, -⟩
          · rw [htail] at hfalse
            cases hfalse
          · exact hlen heq
        · rw [toInt_eq_neg_one_iff] at hr
          omega

/-- A write within the device, on a device that executes each command in full or fails it,
and without a failed allocation: the call returns, and it returns `-1` for an unchanged disk
only, exactly if it is not one of those that understate what they have stored. -/
theorem write_failure_unchanged_iff (device : Device) (w : World) (hw : w.Fresh)
    (hg : w.dev.Geometry) (hd : device.Honest w.dev) (hfull : device.Full w.dev)
    (io offset nbytes : Nat) (hrange : offset + nbytes ≤ w.dev.cap)
    (os : List (Option Bytes)) (hos : ∀ o ∈ os, o.isSome = true) :
    ∃ r w' os', writeVirtioDev device io offset nbytes (w, os) = .ok (r, w', os') ∧
      ((r = -1 → w'.disk = w.disk) ↔ ¬ Understated device w (callDesc w io offset nbytes)) := by
  by_cases hzero : nbytes = 0
  · subst hzero
    exact ⟨0, w, os, writeVirtioDev_empty hrange os, fun _ => not_understated_of_empty rfl,
      fun _ hr => absurd hr (by decide)⟩
  · have hin : InRange w.dev (callDesc w io offset nbytes) :=
      hg.inRange (Nat.pos_of_ne_zero hzero) hrange
    have hspec : Runs True (writeVirtioDev device io offset nbytes) _ w :=
      runs_writeInRange hw hg hd (Nat.pos_of_ne_zero hzero) hrange
    obtain ⟨r, w', os', hrun, hexit⟩ := hspec.ends (not_not_intro trivial) fun o ho _ => hos o ho
    exact ⟨r, w', os', hrun, hexit.unchanged_iff hfull hin.ok⟩

/-- With the command of the whole blocks failing, the result is the number of bytes before them. -/
theorem write_failure_unchanged_iff_middle : ∃ r w' os',
    writeVirtioDev (failingDevice (· == 2)) 0 2 7 (onesWorld, []) = .ok (r, w', os') ∧
      (r = -1 → w'.disk = onesWorld.disk) := by
  obtain ⟨hd, hfull⟩ := failingDevice_serves (· == 2)
  obtain ⟨r, w', os', hrun, hiff⟩ := write_failure_unchanged_iff (failingDevice (· == 2)) onesWorld
    (fun _ _ => rfl) ⟨by decide, by decide, by decide⟩ hd hfull 0 2 7 (by decide) []
    fun o ho => nomatch ho
  refine ⟨r, w', os', hrun, hiff.mpr fun hbad => ?_⟩
  exact absurd hbad.2.1 (by decide)

/-- Seven bytes from offset two, and the read of the last block fails: six bytes are stored,
and the call returns `-1`. -/
theorem write_failure_changed :
    (failingDevice (· == 3)).Honest onesWorld.dev ∧ (failingDevice (· == 3)).Full onesWorld.dev ∧
    2 + 7 ≤ onesWorld.dev.cap ∧ ∃ w' os',
      writeVirtioDev (failingDevice (· == 3)) 0 2 7 (onesWorld, []) = .ok (-1, w', os') ∧
        w'.disk ≠ onesWorld.disk := by
  obtain ⟨hd, hfull⟩ := failingDevice_serves (· == 3)
  refine ⟨hd, hfull, by decide, ?_⟩
  have hcheck : (writeVirtioDev (failingDevice (· == 3)) 0 2 7 (onesWorld, [])).toOption.any
      (fun x => decide (x.1 = -1 ∧ x.2.1.disk 2 = 1)) = true := by decide +kernel
  obtain ⟨⟨r, w', os'⟩, hrun, hres⟩ := (Option.any_eq_true _ _).mp hcheck
  obtain ⟨hr, hbyte⟩ := of_decide_eq_true hres
  dsimp only at hr hbyte
  subst hr
  refine ⟨w', os', ?_, fun heq => ?_⟩
  · cases hx : writeVirtioDev (failingDevice (· == 3)) 0 2 7 (onesWorld, []) with
    | error e =>
        rw [hx] at hrun
        cases hrun
    | ok x =>
        rw [hx] at hrun
        cases hrun
        rfl
  · rw [heq] at hbyte
    exact absurd hbyte (by decide)

end VhostUser.Dev
