import VhostUser.Dev.Invariant

/-! # What a write command does to the disk

A partial block is written back as a whole. If the buffer of the command agrees with
the block on the disk outside the bytes of the request, the command changes nothing
but these bytes.
-/

namespace VhostUser.Dev

open VhostUser.Lib

variable {dev : VirtioDev} {d : AsyncIoDesc} {w : World} {r : VirtioScsiCmdResp} {m : Bytes}

/-! ## Commands within their fields -/

def touchedBlocks (dev : VirtioDev) (d : AsyncIoDesc) : Nat :=
  (d.offset + d.nbytes - 1) / dev.blockSize - d.offset / dev.blockSize + 1

/-- A request that fits into a ten byte command. -/
structure Small (dev : VirtioDev) (d : AsyncIoDesc) : Prop where
  blocks : touchedBlocks dev d < 65536
  bytes : touchedBlocks dev d * dev.blockSize < 2 ^ 31

theorem Small.retval (h : Small dev d) (x : Int) : Small dev { d with retval := x } :=
  ⟨h.blocks, h.bytes⟩

theorem nbytes_le_touched (hd : InRange dev d) : d.nbytes ≤ touchedBlocks dev d * dev.blockSize := by
  have hpos := hd.pos
  have hfirst := Nat.div_mul_le_self d.offset dev.blockSize
  have hlast := Nat.div_add_mod' (d.offset + d.nbytes - 1) dev.blockSize
  have hmod := Nat.mod_lt (d.offset + d.nbytes - 1) hd.ok.pos
  have hle : d.offset / dev.blockSize ≤ (d.offset + d.nbytes - 1) / dev.blockSize :=
    Nat.div_le_div_right (by omega)
  obtain ⟨n, hn⟩ := Nat.exists_eq_add_of_le hle
  unfold touchedBlocks
  rw [hn, Nat.add_sub_cancel_left, Nat.add_mul, Nat.one_mul]
  rw [hn, Nat.add_mul] at hlast
  omega

theorem Small.nbytes_lt (h : Small dev d) (hd : InRange dev d) : d.nbytes < 2 ^ 31 :=
  Nat.lt_of_le_of_lt (nbytes_le_touched hd) h.bytes

/-- What is on the disk before a command of the chain. -/
def doneBefore (dev : VirtioDev) (d : AsyncIoDesc) : TaskCb → Nat
  | .blkReadLastBlockDone => bodyLen dev d
  | .blkWriteLastBlockDone => bodyLen dev d
  | _ => 0

/-- What is on the disk after it. -/
def doneAfter (dev : VirtioDev) (d : AsyncIoDesc) : TaskCb → Nat
  | .blkWriteFullBlocksDone => bodyLen dev d
  | .blkReadLastBlockDone => bodyLen dev d
  | .blkWriteLastBlockDone => d.nbytes
  | _ => 0

theorem doneBefore_le_after (cb : TaskCb) : doneBefore dev d cb ≤ doneAfter dev d cb := by
  cases cb with
  | blkWriteLastBlockDone => exact bodyLen_le dev d
  | blkWriteFullBlocksDone => exact Nat.zero_le _
  | blkReadDone => exact Nat.le_refl _
  | blkReadFirstBlockDone => exact Nat.le_refl _
  | blkReadLastBlockDone => exact Nat.le_refl _

theorem doneAfter_le (cb : TaskCb) : doneAfter dev d cb ≤ d.nbytes := by
  cases cb with
  | blkWriteLastBlockDone => exact Nat.le_refl _
  | blkWriteFullBlocksDone => exact bodyLen_le dev d
  | blkReadDone => exact Nat.zero_le _
  | blkReadFirstBlockDone => exact Nat.zero_le _
  | blkReadLastBlockDone => exact bodyLen_le dev d

theorem doneAfter_of_read {cb : TaskCb} (h : cb.isWrite = false) :
    doneAfter dev d cb = doneBefore dev d cb := by
  cases cb with
  | blkWriteLastBlockDone => cases h
  | blkWriteFullBlocksDone => cases h
  | blkReadDone => rfl
  | blkReadFirstBlockDone => rfl
  | blkReadLastBlockDone => rfl

theorem cmdBlock_lt (hg : dev.Geometry) (hd : InRange dev d) {cb : TaskCb}
    (hpart : partExists dev d cb) : cmdBlock dev d cb < dev.numBlocks := by
  have hcap : dev.cap ≤ dev.blockSize * dev.numBlocks := by
    rw [hg.cap]
    exact Nat.mod_le ..
  have hpos := hd.pos
  have hle := hd.le
  have hstart : cmdBlock dev d cb * dev.blockSize < dev.cap := by
    have hfirst := first_block dev d
    have htail : bodyLen dev d ≠ d.nbytes →
        (d.offset + d.nbytes) / dev.blockSize * dev.blockSize < dev.cap := fun hne => by
      have hbody := bodyLen_le dev d
      have := (tail_spec hd.ok hne).2
      omega
    cases cb with
    | blkReadDone => exact hpart.elim
    | blkReadFirstBlockDone =>
        show d.offset / dev.blockSize * dev.blockSize < dev.cap
        omega
    | blkWriteFullBlocksDone =>
        show d.offset / dev.blockSize * dev.blockSize < dev.cap
        omega
    | blkReadLastBlockDone => exact htail hpart
    | blkWriteLastBlockDone => exact htail hpart
  apply Nat.lt_of_mul_lt_mul_left (a := dev.blockSize)
  rw [Nat.mul_comm]
  exact Nat.lt_of_lt_of_le hstart hcap

theorem cmdBlocks_body : cmdBlocks dev d .blkWriteFullBlocksDone =
    midBlocks dev d + if firstResid dev d = 0 then 0 else 1 := rfl

/-- The first write command ends within the request, or is for one block. -/
theorem body_end (h : dev.Ok) :
    cmdBlocks dev d .blkWriteFullBlocksDone = 1 ∨
      d.offset / dev.blockSize * dev.blockSize +
        cmdBlocks dev d .blkWriteFullBlocksDone * dev.blockSize ≤ d.offset + d.nbytes := by
  have hfirst := first_block dev d
  have hmid := mid_mul_le dev d
  have hhead := headLen_le dev d
  rw [cmdBlocks_body]
  by_cases hr : firstResid dev d = 0
  · right
    rw [if_pos hr, Nat.add_zero]
    omega
  · by_cases hmore : headLen dev d < d.nbytes
    · have hfill := head_fills_block h hr hmore
      right
      rw [if_neg hr, Nat.add_mul, Nat.one_mul]
      omega
    · left
      have hall : headLen dev d = d.nbytes := Nat.le_antisymm hhead (Nat.le_of_not_lt hmore)
      rw [if_neg hr, midBlocks_of_head hall]

theorem cmd_in_touched (hd : InRange dev d) {cb : TaskCb} (hpart : partExists dev d cb) :
    d.offset / dev.blockSize ≤ cmdBlock dev d cb ∧
      cmdBlock dev d cb + cmdBlocks dev d cb ≤ (d.offset + d.nbytes - 1) / dev.blockSize + 1 := by
  have hpos := hd.pos
  have hb := hd.ok.pos
  have hfirst : d.offset / dev.blockSize ≤ (d.offset + d.nbytes - 1) / dev.blockSize :=
    Nat.div_le_div_right (by omega)
  have htail : bodyLen dev d ≠ d.nbytes →
      d.offset / dev.blockSize ≤ (d.offset + d.nbytes) / dev.blockSize ∧
      (d.offset + d.nbytes) / dev.blockSize + 1 ≤
        (d.offset + d.nbytes - 1) / dev.blockSize + 1 := fun hne => by
    have hbody := bodyLen_le dev d
    have hstart := (tail_spec hd.ok hne).2
    refine ⟨Nat.div_le_div_right (by omega), Nat.succ_le_succ ?_⟩
    rw [Nat.le_div_iff_mul_le hb]
    omega
  cases cb with
  | blkReadDone => exact hpart.elim
  | blkReadFirstBlockDone => exact ⟨Nat.le_refl _, Nat.succ_le_succ hfirst⟩
  | blkReadLastBlockDone => exact htail hpart
  | blkWriteLastBlockDone => exact htail hpart
  | blkWriteFullBlocksDone =>
      refine ⟨Nat.le_refl _, ?_⟩
      show d.offset / dev.blockSize + _ ≤ _
      rcases body_end (d := d) hd.ok with heq | hend
      · rw [heq]
        exact Nat.succ_le_succ hfirst
      · generalize cmdBlocks dev d .blkWriteFullBlocksDone = n at *
        cases n with
        | zero => omega
        | succ n =>
            have hlast : d.offset / dev.blockSize + n ≤
                (d.offset + d.nbytes - 1) / dev.blockSize := by
              rw [Nat.le_div_iff_mul_le hb, Nat.add_mul]
              rw [Nat.add_mul, Nat.one_mul] at hend
              omega
            exact Nat.succ_le_succ hlast

theorem cmdBlocks_pos {cb : TaskCb} (hpart : partExists dev d cb) : 0 < cmdBlocks dev d cb := by
  cases cb with
  | blkReadDone => exact hpart.elim
  | blkReadFirstBlockDone => exact Nat.one_pos
  | blkReadLastBlockDone => exact Nat.one_pos
  | blkWriteLastBlockDone => exact Nat.one_pos
  | blkWriteFullBlocksDone =>
      rw [cmdBlocks_body]
      split
      · next hr =>
          have hbody : 0 < bodyLen dev d := hpart
          rw [bodyLen, headLen_of_aligned hr, Nat.zero_add] at hbody
          exact Nat.pos_of_mul_pos_right hbody
      · exact Nat.succ_pos _

theorem cmdBlocks_le_touched (hd : InRange dev d) {cb : TaskCb} (hpart : partExists dev d cb) :
    cmdBlocks dev d cb ≤ touchedBlocks dev d := by
  have h := cmd_in_touched hd hpart
  unfold touchedBlocks
  omega

theorem cmd_fits (hg : dev.Geometry) (hd : InRange dev d) (hs : Small dev d) {cb : TaskCb}
    (hpart : partExists dev d cb) :
    cmdBlock dev d cb % 2 ^ lbaBits dev = cmdBlock dev d cb ∧
      cmdBlocks dev d cb % 2 ^ countBits dev = cmdBlocks dev d cb := by
  constructor
  · refine Nat.mod_eq_of_lt (lba_lt dev hg.size (Nat.le_refl 1) (cmdBlock_lt hg hd hpart))
  · have hcount := cmdBlocks_le_touched hd hpart
    have hblocks := hs.blocks
    apply Nat.mod_eq_of_lt
    unfold countBits
    split
    · omega
    · omega

/-! ## Writing back -/

/-- The bytes of a request that a command stores, over the block it was read from. -/
def merged (dev : VirtioDev) (d : AsyncIoDesc) (m : Bytes) : TaskCb → Bytes
  | .blkWriteFullBlocksDone => m.patch (firstResid dev d) (headLen dev d) d.buf
  | .blkWriteLastBlockDone => m.patch 0 (lastResid dev d) fun k =>
      d.buf (d.nbytes - lastResid dev d + k)
  | _ => m

theorem merged_of_read {cb : TaskCb} (h : cb.isWrite = false) : merged dev d m cb = m := by
  cases cb with
  | blkWriteFullBlocksDone => cases h
  | blkWriteLastBlockDone => cases h
  | blkReadDone => rfl
  | blkReadFirstBlockDone => rfl
  | blkReadLastBlockDone => rfl

theorem cmdBlocks_of_read {cb : TaskCb} (h : cb.isWrite = false) : cmdBlocks dev d cb = 1 := by
  cases cb with
  | blkWriteFullBlocksDone => cases h
  | blkWriteLastBlockDone => cases h
  | blkReadDone => rfl
  | blkReadFirstBlockDone => rfl
  | blkReadLastBlockDone => rfl

/-- A merged byte depends on the old block at its own position alone. -/
theorem merged_congr {a b : Bytes} {k : Nat} (cb : TaskCb) (h : a k = b k) :
    merged dev d a cb k = merged dev d b cb k := by
  cases cb with
  | blkWriteFullBlocksDone => rw [merged, merged, Bytes.patch, Bytes.patch, h]
  | blkWriteLastBlockDone => rw [merged, merged, Bytes.patch, Bytes.patch, h]
  | blkReadDone => exact h
  | blkReadFirstBlockDone => exact h
  | blkReadLastBlockDone => exact h

def blockAt (dev : VirtioDev) (disk : Bytes) (blk : Nat) : Bytes :=
  fun k => disk (blk * dev.blockSize + k)

theorem patch_eq {disk a b : Bytes} {pos len pos' len' : Nat}
    (h : ∀ x, (pos ≤ x ∧ x < pos + len → a (x - pos) = disk.patch pos' len' b x) ∧
      (¬ (pos ≤ x ∧ x < pos + len) → ¬ (pos' ≤ x ∧ x < pos' + len'))) :
    disk.patch pos len a = disk.patch pos' len' b := by
  funext x
  by_cases hx : pos ≤ x ∧ x < pos + len
  · rw [← (h x).1 hx]
    exact if_pos hx
  · have hx' := (h x).2 hx
    rw [Bytes.patch, Bytes.patch, if_neg hx, if_neg hx']

theorem gather_block {bytes : BufPtr → Bytes} (hdata : ∀ m, bytes (.data m) = m)
    {lo hi k : Nat} {rest : List Buffer} (hk : k < dev.blockSize) :
    gather bytes (blockBuf dev m false lo hi :: rest) k = m k := by
  simp only [gather, blockBuf, if_pos hk, hdata]

theorem body_written (hd : InRange dev d) {bytes : BufPtr → Bytes} {disk : Bytes}
    (hdata : ∀ m, bytes (.data m) = m) (huser : ∀ off, bytes (.user off) = fun k => d.buf (off + k))
    (hm : firstResid dev d ≠ 0 → ∀ k < dev.blockSize, m k =
      merged dev d (blockAt dev disk (d.offset / dev.blockSize)) .blkWriteFullBlocksDone k) :
    disk.patch (d.offset / dev.blockSize * dev.blockSize)
      (cmdBlocks dev d .blkWriteFullBlocksDone * dev.blockSize)
      (gather bytes (dataOut (bodyWriteBufs dev d r m))) =
    disk.patch d.offset (bodyLen dev d) d.buf := by
  have hfirst := first_block dev d
  have hblock := head_in_block (d := d) hd.ok
  have hpos := hd.ok.pos
  by_cases hr : firstResid dev d = 0
  · have hstart : d.offset / dev.blockSize * dev.blockSize = d.offset := by omega
    have hbody : bodyLen dev d = midBlocks dev d * dev.blockSize := by
      rw [bodyLen, headLen_of_aligned hr, Nat.zero_add]
    have hbufs : dataOut (bodyWriteBufs dev d r m) =
        [userBuf 0 (midBlocks dev d * dev.blockSize) false] := by
      rw [bodyWriteBufs, if_pos hr]
      rfl
    rw [hstart, hbody, cmdBlocks_body, if_pos hr, Nat.add_zero, hbufs]
    refine patch_eq fun x => ⟨fun hx => ?_, id⟩
    rw [Bytes.patch_inside _ _ hx.1 hx.2]
    have hk : x - d.offset < midBlocks dev d * dev.blockSize := by omega
    simp only [gather, userBuf, if_pos hk, huser, Nat.zero_add]
  · have hmid := mid_mul_le dev d
    have hhead := headLen_le dev d
    -- the first block, in both of the remaining cases
    have hin : ∀ x, d.offset / dev.blockSize * dev.blockSize ≤ x →
        x - d.offset / dev.blockSize * dev.blockSize < dev.blockSize →
        (x < d.offset + headLen dev d ∨ headLen dev d = bodyLen dev d) →
        m (x - d.offset / dev.blockSize * dev.blockSize) =
          disk.patch d.offset (bodyLen dev d) d.buf x := by
      intro x hx hlt hend
      rw [hm hr _ hlt, merged, Bytes.patch, Bytes.patch]
      have hle : headLen dev d ≤ bodyLen dev d := Nat.le_add_right ..
      by_cases hc : firstResid dev d ≤ x - d.offset / dev.blockSize * dev.blockSize ∧
          x - d.offset / dev.blockSize * dev.blockSize < firstResid dev d + headLen dev d
      · rw [if_pos hc, if_pos (by omega)]
        congr 1
        omega
      · rw [if_neg hc, if_neg (by omega), blockAt]
        congr 1
        omega
    by_cases hmore : headLen dev d < d.nbytes
    · have hfill := head_fills_block hd.ok hr hmore
      have hbufs : dataOut (bodyWriteBufs dev d r m) =
          [blockBuf dev m false (firstResid dev d) (firstResid dev d + headLen dev d),
            userBuf (headLen dev d) (midBlocks dev d * dev.blockSize) false] := by
        rw [bodyWriteBufs, if_neg hr, if_pos hmore]
        rfl
      have hbody : bodyLen dev d = headLen dev d + midBlocks dev d * dev.blockSize := rfl
      rw [cmdBlocks_body, if_neg hr, Nat.add_mul, Nat.one_mul, hbufs]
      refine patch_eq fun x => ⟨fun hx => ?_, fun hx => by omega⟩
      by_cases hk : x - d.offset / dev.blockSize * dev.blockSize < dev.blockSize
      · rw [gather_block hdata hk]
        exact hin x hx.1 hk (Or.inl (by omega))
      · rw [Bytes.patch_inside _ _ (by omega) (by omega)]
        have hrest : x - d.offset / dev.blockSize * dev.blockSize - dev.blockSize <
            midBlocks dev d * dev.blockSize := by omega
        simp only [gather, blockBuf, userBuf, if_neg hk, if_pos hrest, huser]
        congr 1
        omega
    · have hall : headLen dev d = d.nbytes := Nat.le_antisymm hhead (Nat.le_of_not_lt hmore)
      have hzero := midBlocks_of_head hall
      have hbody : bodyLen dev d = headLen dev d := by
        rw [bodyLen, hzero, Nat.zero_mul, Nat.add_zero]
      have hbufs : dataOut (bodyWriteBufs dev d r m) =
          [blockBuf dev m false (firstResid dev d) (firstResid dev d + headLen dev d)] := by
        rw [bodyWriteBufs, if_neg hr, if_neg hmore]
        rfl
      rw [cmdBlocks_body, if_neg hr, hzero, Nat.zero_add, Nat.one_mul, hbufs]
      refine patch_eq fun x => ⟨fun hx => ?_, fun hx => by omega⟩
      have hk : x - d.offset / dev.blockSize * dev.blockSize < dev.blockSize := by omega
      rw [gather_block hdata hk]
      exact hin x hx.1 hk (Or.inr hbody.symm)

theorem tail_written (hd : InRange dev d) (hne : bodyLen dev d ≠ d.nbytes)
    {bytes : BufPtr → Bytes} {disk : Bytes} (hdata : ∀ m, bytes (.data m) = m)
    (hm : ∀ k < dev.blockSize, m k = merged dev d
      (blockAt dev disk ((d.offset + d.nbytes) / dev.blockSize)) .blkWriteLastBlockDone k) :
    disk.patch ((d.offset + d.nbytes) / dev.blockSize * dev.blockSize) (1 * dev.blockSize)
      (gather bytes (dataOut (lastWriteBufs dev d r m))) =
    disk.patch (d.offset + bodyLen dev d) (d.nbytes - bodyLen dev d)
      fun k => d.buf (bodyLen dev d + k) := by
  obtain ⟨hlast, hstart⟩ := tail_spec hd.ok hne
  have hbody := bodyLen_le dev d
  have hlt := lastResid_lt (d := d) hd.ok
  have hbufs : dataOut (lastWriteBufs dev d r m) =
      [blockBuf dev m false 0 (lastResid dev d)] := rfl
  rw [hbufs, Nat.one_mul]
  refine patch_eq fun x => ⟨fun hx => ?_, fun hx => by omega⟩
  have hk : x - (d.offset + d.nbytes) / dev.blockSize * dev.blockSize < dev.blockSize := by omega
  rw [gather_block hdata hk, hm _ hk, merged, Bytes.patch, Bytes.patch]
  by_cases hc : x - (d.offset + d.nbytes) / dev.blockSize * dev.blockSize < lastResid dev d
  · rw [if_pos (by omega), if_pos (by omega)]
    congr 1
    omega
  · rw [if_neg (by omega), if_neg (by omega), blockAt]
    congr 1
    omega

/-- Between its read and its write the chain holds a copy of the block. -/
def holdsBlock (dev : VirtioDev) (d : AsyncIoDesc) : TaskCb → Bool → Bool
  | .blkReadFirstBlockDone, answered => answered
  | .blkReadLastBlockDone, answered => answered
  | .blkWriteFullBlocksDone, answered => !answered && firstResid dev d != 0
  | .blkWriteLastBlockDone, answered => !answered
  | .blkReadDone, _ => false

theorem holdsBlock_of_read {cb : TaskCb} (hpart : partExists dev d cb) (h : cb.isWrite = false) :
    holdsBlock dev d cb true = true := by
  cases cb with
  | blkWriteFullBlocksDone => cases h
  | blkWriteLastBlockDone => cases h
  | blkReadDone => exact hpart.elim
  | blkReadFirstBlockDone => rfl
  | blkReadLastBlockDone => rfl

theorem holdsBlock_of_write (dev : VirtioDev) (d : AsyncIoDesc) {cb : TaskCb} (h : cb.isWrite = true) :
    holdsBlock dev d cb true = false := by
  cases cb with
  | blkWriteFullBlocksDone => rfl
  | blkWriteLastBlockDone => rfl
  | blkReadDone => cases h
  | blkReadFirstBlockDone => cases h
  | blkReadLastBlockDone => cases h

/-- A write command that carries a partial block has its buffer first. -/
theorem carries_of_holds {cb : TaskCb} {answered : Bool} (h : holdsBlock dev d cb answered = true) :
    cb ≠ .blkWriteFullBlocksDone ∨ firstResid dev d ≠ 0 := by
  refine or_iff_not_imp_left.mpr fun heq => ?_
  rw [Decidable.not_not.mp heq] at h
  simp only [holdsBlock, Bool.and_eq_true, bne_iff_ne] at h
  exact h.2

/-- A write command stores the bytes of its part, and nothing else. -/
theorem write_back (disk : Bytes) (r : VirtioScsiCmdResp) (m : Bytes) (hd : InRange dev d)
    {cb : TaskCb} (hcb : cb.isWrite = true) (hpart : partExists dev d cb)
    {bytes : BufPtr → Bytes}
    (hdata : ∀ m, bytes (.data m) = m) (huser : ∀ off, bytes (.user off) = fun k => d.buf (off + k))
    (hm : holdsBlock dev d cb false = true → ∀ k < dev.blockSize,
      m k = merged dev d (blockAt dev disk (cmdBlock dev d cb)) cb k) :
    disk.patch (cmdBlock dev d cb * dev.blockSize) (cmdBlocks dev d cb * dev.blockSize)
      (gather bytes (dataOut (writeBufs dev d r m cb))) =
    disk.patch (d.offset + doneBefore dev d cb) (doneAfter dev d cb - doneBefore dev d cb)
      fun k => d.buf (doneBefore dev d cb + k) := by
  cases cb with
  | blkReadDone => cases hcb
  | blkReadFirstBlockDone => cases hcb
  | blkReadLastBlockDone => cases hcb
  | blkWriteLastBlockDone => exact tail_written hd hpart hdata (hm rfl)
  | blkWriteFullBlocksDone =>
      have hbody := body_written (r := r) hd hdata huser fun hr => hm (by simp [holdsBlock, hr])
      simp only [doneBefore, doneAfter, Nat.add_zero, Nat.sub_zero, Nat.zero_add]
      exact hbody

theorem respBuf_inj {r' : VirtioScsiCmdResp} : respBuf r = respBuf r' ↔ r = r' := by
  simp [respBuf]

theorem blockBuf_inj {m' : Bytes} {response : Bool} {lo hi : Nat} :
    blockBuf dev m response lo hi = blockBuf dev m' response lo hi ↔ m = m' := by
  simp [blockBuf]

/-- The buffers of a command determine its response and the block it carries. -/
theorem writeBufs_inj {cb : TaskCb} {r' : VirtioScsiCmdResp} {m' : Bytes}
    (hpart : partExists dev d cb) (h : writeBufs dev d r m cb = writeBufs dev d r' m' cb) :
    r = r' ∧ (cb ≠ .blkWriteFullBlocksDone ∨ firstResid dev d ≠ 0 → m = m') := by
  cases cb with
  | blkReadDone => exact hpart.elim
  | blkReadFirstBlockDone =>
      simp only [writeBufs, firstReadBufs, List.cons.injEq, respBuf_inj, blockBuf_inj, true_and,
        and_true] at h
      exact ⟨h.1, fun _ => h.2⟩
  | blkReadLastBlockDone =>
      simp only [writeBufs, lastReadBufs, List.cons.injEq, respBuf_inj, blockBuf_inj, true_and,
        and_true] at h
      exact ⟨h.1, fun _ => h.2⟩
  | blkWriteLastBlockDone =>
      simp only [writeBufs, lastWriteBufs, List.cons.injEq, respBuf_inj, blockBuf_inj, true_and,
        and_true] at h
      exact ⟨h.2, fun _ => h.1⟩
  | blkWriteFullBlocksDone =>
      simp only [writeBufs, bodyWriteBufs] at h
      split at h
      · next hr =>
          simp only [List.cons.injEq, respBuf_inj, true_and, and_true] at h
          exact ⟨h, fun hor => absurd hr (hor.resolve_left (by simp))⟩
      · split at h
        · simp only [List.cons.injEq, respBuf_inj, blockBuf_inj, true_and, and_true] at h
          exact ⟨h.2, fun _ => h.1⟩
        · simp only [List.cons.injEq, respBuf_inj, blockBuf_inj, true_and, and_true] at h
          exact ⟨h.2, fun _ => h.1⟩

end VhostUser.Dev
