import VhostUser.Dev.AsyncRead
import VhostUser.Dev.SyncWrite
import VhostUser.Dev.WriteLength

/-! # The length of a request as a machine integer

A request is cut off at the end of the device by a test that adds in 64 bits, and the
synchronous functions count in an `int` what they have transferred. On a device that fills
every buffer the count is a function of the length alone, whichever way the data go: the
two functions differ in the commands for a partial block and for whole blocks. An asynchronous
read keeps to the length that is left by the test, an asynchronous write only if this is all
of its length.
-/

namespace VhostUser.Dev

open VhostUser.Lib Prog

variable {w v : World} {device : Device} {io : Nat}

/-- The end of a call, where `part` transfers a part of a block. -/
def syncTail (part : Nat → Nat → Nat → Nat → M Int) (blkOffset done nbytes : Nat) : M Int := do
  let w ← Prog.state
  let residOffset := subSize nbytes done % w.dev.blockSize
  if residOffset ≠ 0 then do
    let ret ← part blkOffset 0 done residOffset
    if ret < 0 then pure (-1)
    else pure (toInt (addSize done (toSize ret)))
  else pure (toInt done)

/-- A call after the first block, where `whole` transfers whole blocks. -/
def syncRest (part : Nat → Nat → Nat → Nat → M Int) (whole : BufPtr → Nat → Nat → M (Int × BufPtr))
    (blkOffset done nbytes : Nat) : M Int := do
  let w ← Prog.state
  let dev := w.dev
  let nblk := subSize nbytes done / dev.blockSize
  if nblk > 0 then do
    let (ret, _) ← whole (.user done) blkOffset nblk
    if ret < 0 then pure (toInt done)
    else if toSize ret < mulSize nblk dev.blockSize then
      pure (toInt (addSize done (toSize ret)))
    else syncTail part (addSize blkOffset nblk) (addSize done (toSize ret)) nbytes
  else syncTail part blkOffset done nbytes

def syncCall (part : Nat → Nat → Nat → Nat → M Int) (whole : BufPtr → Nat → Nat → M (Int × BufPtr))
    (offset nbytes : Nat) : M Int := do
  let w ← Prog.state
  let dev := w.dev
  if offset > dev.cap then pure (-1)
  else if nbytes = 0 then pure 0
  else do
    let nbytes := clipToCap dev offset nbytes
    divideBy dev.blockSize
    let blkOffset := offset / dev.blockSize
    let residOffset := offset % dev.blockSize
    if residOffset ≠ 0 then do
      let ret ← part blkOffset residOffset 0 nbytes
      if ret < 0 then pure (-1)
      else if ret < dev.blockSize - residOffset then pure ret
      else syncRest part whole (addSize blkOffset 1) (toSize ret) nbytes
    else syncRest part whole blkOffset 0 nbytes

theorem readVirtioDev_eq : readVirtioDev device io =
    syncCall (readPartialBlock device io) (blkReadVirtioDev device io) := rfl

theorem writeVirtioDev_eq : writeVirtioDev device io =
    syncCall (writePartialBlock device io) (blkWriteVirtioDev device io) := rfl

/-! ## The count of a call -/

section Count

variable (dev : VirtioDev) (offset n : Nat)

/-- The bytes of `n` from `offset` on that are in the first block, if a part of it is before them. -/
def leadBytes : Nat :=
  if offset % dev.blockSize = 0 then 0 else min n (dev.blockSize - offset % dev.blockSize)

def wholeBlocks : Nat := (n - leadBytes dev offset n) / dev.blockSize

def wholeBytes : Nat := wholeBlocks dev offset n * dev.blockSize

/-- The result of a call that transfers `n` bytes. -/
def Counted (r : Int) : Prop :=
  if wholeBytes dev offset n < 2 ^ 31 then r = toInt n else r ≠ -1 ∧ r < 2 ^ 31

end Count

def Created (w v : World) : Prop := w.nextTask < v.nextTask

section Transfers

variable {part : Nat → Nat → Nat → Nat → M Int} {whole : BufPtr → Nat → Nat → M (Int × BufPtr)}
  {offset n : Nat} {B T : World → Prop}

theorem leadBytes_le (dev : VirtioDev) (offset n : Nat) : leadBytes dev offset n ≤ n := by
  unfold leadBytes
  split
  · exact Nat.zero_le _
  · exact Nat.min_le_left ..

theorem lead_whole_le (dev : VirtioDev) (offset n : Nat) :
    leadBytes dev offset n + wholeBytes dev offset n ≤ n := by
  have hlead := leadBytes_le dev offset n
  have hmul := Nat.div_mul_le_self (n - leadBytes dev offset n) dev.blockSize
  unfold wholeBytes wholeBlocks
  omega

end Transfers

/-! ## Devices that fill every buffer -/

/-- Every command is executed, and a read reports all of its data buffer, which has `size t`
bytes in the task at address `t`. -/
def Device.Fills (device : Device) (size : Nat → Nat) : Prop :=
  ∀ t cmd, ∃ transferred rest used, device t cmd = .done transferred rest used ∧
    ((∀ c ∈ cmd, c.isWrite = false) → used = size t + sizeofResp)

theorem Served.created {v : World} {k : Nat} (h : Served w v k) (hpos : 0 < k) : Created w v := by
  rw [Created, h.next]
  omega

section Fills

variable {size : Nat → Nat}

theorem Device.Fills.fails (h : device.Fills size) (t : Nat) (cmd : RwCommand) :
    device.fails t cmd = false := by
  obtain ⟨transferred, rest, used, hdone, -⟩ := h t (some cmd)
  rw [Device.fails, hdone]
  rfl

theorem Device.Fills.good (h : device.Fills size) (t : Nat) (cmd : Option RwCommand)
    (resp : VirtioScsiCmdResp) (used : Nat) (hfail : device t cmd = .failed resp used) :
    resp.good = false := by
  obtain ⟨transferred, rest, used', hdone, -⟩ := h t cmd
  rw [hdone] at hfail
  cases hfail

theorem Device.Fills.used (h : device.Fills size) {t transferred used : Nat} {cmd : RwCommand}
    {rest : Bytes} (hcmd : cmd.isWrite = false)
    (hdone : device t (some cmd) = .done transferred rest used) : used = size t + sizeofResp := by
  obtain ⟨transferred', rest', used', hdone', hused⟩ := h t (some cmd)
  rw [hdone'] at hdone
  cases hdone
  exact hused fun c hc => (Option.some.inj hc) ▸ hcmd

/-- A read of `n` bytes: its command names the blocks that these touch, the ranges of its data
buffers are as long, and its result is what the device has transferred of this length. -/
structure ReadUses (w : World) (io : Nat) (d : AsyncIoDesc) (n : Nat) : Prop where
  ranges : ∀ os w₁ f, stepWorld w (.submit io d os) = some (.ok w₁) →
    w₁.flights w.nextTask = some f → rangesLen (f.task.vbufs.drop 2) = n
  command : 0 < n → ∀ os w₁ f, stepWorld w (.submit io d os) = some (.ok w₁) →
    w₁.flights w.nextTask = some f → commandOf f.task = some ⟨false,
      d.offset / w.dev.blockSize % 2 ^ lbaBits w.dev,
      spannedBlocks w.dev d.offset n % 2 ^ countBits w.dev⟩
  count : ∀ v w' u, u + sizeofResp < 2 ^ 32 → ShortRead w v w' io d u →
    (w'.ios io).desc.retval = (min n u : Nat)

section ReadUses

variable {d : AsyncIoDesc}

theorem ReadUses.empty (hw : Vacant w io) (htype : d.type = .read) (hoff : d.offset ≤ w.dev.cap)
    (hn : d.nbytes = 0) : ReadUses w io d 0 := by
  have hnone : ∀ os w₁ f, stepWorld w (.submit io d os) = some (.ok w₁) →
      w₁.flights w.nextTask ≠ some f := fun os w₁ f hsubmit hf => by
    rw [submit_empty hw.fresh (by rw [htype]; exact IoType.noConfusion) hoff hn] at hsubmit
    cases hsubmit
    exact (Option.some_ne_none f) (hf.symm.trans hw.nextFlight)
  refine ⟨fun os w₁ f hsubmit hf => (hnone os w₁ f hsubmit hf).elim,
    fun hpos => absurd hpos (Nat.lt_irrefl 0), fun v w' u _ hread => ?_⟩
  obtain ⟨os, w₁, f, v₂, os₂, hsubmit, hf, -⟩ := hread
  exact (hnone os w₁ f hsubmit hf).elim

/-- A read whose end is a `size_t` is a read of the bytes up to the end of the device. -/
theorem ReadUses.clipped (hw : Vacant w io) (hg : w.dev.Geometry) (hblock : 0 < w.dev.blockSize)
    (htype : d.type = .read) (hoff : d.offset ≤ w.dev.cap) (hsum : d.offset + d.nbytes < 2 ^ 64) :
    ReadUses w io d (min d.nbytes (w.dev.cap - d.offset)) := by
  have hcap := hg.cap_lt
  rcases Nat.eq_zero_or_pos d.nbytes with hzero | hpos
  · rw [hzero, Nat.zero_min]
    exact .empty hw htype hoff hzero
  have hlen : clippedLen w.dev d = min d.nbytes (w.dev.cap - d.offset) := clip_eq hoff hsum
  have hfirst : firstResid w.dev d ≤ d.offset := Nat.mod_le ..
  have hle : clippedLen w.dev d ≤ d.nbytes := hlen ▸ Nat.min_le_left ..
  rw [← hlen]
  have hflight : ∀ os w₁ f, stepWorld w (.submit io d os) = some (.ok w₁) →
      w₁.flights w.nextTask = some f → ∃ head tail, f.task.vbufs = readBufs w.dev d ⟨0, 0⟩ head tail :=
    fun os w₁ f hsubmit hf => by
      obtain ⟨w₁', hsubmit', hdev, ⟨-, hnone, -⟩ | ⟨-, head, tail, f', -, hflight⟩⟩ :=
        submit_read hw htype hblock hcap hoff hpos (by omega) os
      · rw [hsubmit] at hsubmit'
        cases hsubmit'
        rw [hnone] at hf
        cases hf
      · rw [hsubmit] at hsubmit'
        cases hsubmit'
        have heq := hflight.flight
        rw [hf] at heq
        cases heq
        exact ⟨head, tail, hdev ▸ hflight.bufs⟩
  refine ⟨fun os w₁ f hsubmit hf => ?_, fun hn os w₁ f hsubmit hf => ?_, fun v w' u hu hread => ?_⟩
  · obtain ⟨head, tail, hbufs⟩ := hflight os w₁ f hsubmit hf
    rw [hbufs]
    exact rangesLen_readData (by omega) (by omega) head tail
  · obtain ⟨head, tail, hbufs⟩ := hflight os w₁ f hsubmit hf
    rw [commandOf_reqBuf hbufs, spannedBlocks_eq hblock (by omega) hn]
  · obtain ⟨-, -, -, hret, -⟩ := hread.result hw hg hblock htype hoff hpos (by omega) hu
    exact hret

end ReadUses

/-! ## Exact lengths -/

theorem Counted.exact {dev : VirtioDev} {offset n : Nat} {r : Int} (h : Counted dev offset n r)
    (hn : n < 2 ^ 31) : r = n := by
  have hle := lead_whole_le dev offset n
  rw [Counted, if_pos (by omega), toInt_eq (by omega) (by omega)] at h
  exact h

theorem Counted.small {dev : VirtioDev} {offset n : Nat} {r : Int} (h : Counted dev offset n r)
    (hr : r = n) : n < 2 ^ 31 := by
  have hlt : r < 2 ^ 31 := by
    unfold Counted at h
    split at h
    · rw [h]
      exact toInt_lt n
    · exact h.2
  omega

end Fills

end VhostUser.Dev
