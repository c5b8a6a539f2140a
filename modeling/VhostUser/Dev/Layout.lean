import VhostUser.Dev.Async

/-! # How a write is cut into commands

An unaligned write has a head in its first block, whole blocks in the middle and
a tail in its last block. Head and middle are written by one command, the tail by
another, and each partial block is read first. The submission function and the
callbacks compute these parts independently; here they are defined once, with the
buffers of the four commands.
-/

namespace VhostUser.Dev

open VhostUser.Lib

/-- What `send_read_cap` stores: an `int`, a `size_t` and their product. -/
structure VirtioDev.Geometry (dev : VirtioDev) : Prop where
  int : dev.blockSize < 2 ^ 31
  size : dev.numBlocks < 2 ^ 64
  cap : dev.cap = dev.blockSize * dev.numBlocks % 2 ^ 64

structure VirtioDev.Ok (dev : VirtioDev) : Prop where
  pos : 0 < dev.blockSize
  int : dev.blockSize < 2 ^ 31
  cap : dev.cap < 2 ^ 64

/-- A request that is not empty and ends within the device. -/
structure InRange (dev : VirtioDev) (d : AsyncIoDesc) : Prop where
  ok : dev.Ok
  pos : 0 < d.nbytes
  le : d.offset + d.nbytes ≤ dev.cap

section Parts

variable (dev : VirtioDev) (d : AsyncIoDesc)

def firstResid : Nat := d.offset % dev.blockSize

def lastResid : Nat := (d.offset + d.nbytes) % dev.blockSize

/-- The bytes in the first block, if it is not written as a whole. -/
def headLen : Nat :=
  if firstResid dev d = 0 then 0 else min d.nbytes (dev.blockSize - firstResid dev d)

def midBlocks : Nat := (d.nbytes - headLen dev d) / dev.blockSize

def bodyLen : Nat := headLen dev d + midBlocks dev d * dev.blockSize

end Parts

/-! ## Arithmetic of the parts -/

theorem addSize_eq {a b : Nat} (h : a + b < 2 ^ 64) : addSize a b = a + b := Nat.mod_eq_of_lt h

theorem subSize_eq {a b : Nat} (h : b ≤ a) (ha : a < 2 ^ 64) : subSize a b = a - b := by
  unfold subSize
  omega

/-- A range is as long as it was made, even if its end wraps around. -/
theorem subSize_addSize {a b : Nat} (ha : a < 2 ^ 64) (hb : b < 2 ^ 64) :
    subSize (addSize a b) a = b := by
  unfold subSize addSize
  omega

theorem toSsize_eq {n : Nat} (h : n < 2 ^ 63) : toSsize n = n := by
  unfold toSsize
  apply Int.bmod_eq_of_le <;> omega

section Arith

variable {dev : VirtioDev} {d : AsyncIoDesc}

/-- A device that is not empty has blocks that are not empty. -/
theorem VirtioDev.Geometry.pos (h : dev.Geometry) {off : Nat} (hoff : off < dev.cap) :
    0 < dev.blockSize := by
  refine Nat.pos_of_ne_zero fun hzero => ?_
  have hcap := h.cap
  rw [hzero, Nat.zero_mul, Nat.zero_mod] at hcap
  omega

theorem VirtioDev.Geometry.cap_lt (h : dev.Geometry) : dev.cap < 2 ^ 64 :=
  h.cap ▸ Nat.mod_lt _ (by decide)

theorem VirtioDev.Geometry.inRange (h : dev.Geometry) (hpos : 0 < d.nbytes)
    (hle : d.offset + d.nbytes ≤ dev.cap) : InRange dev d :=
  ⟨⟨h.pos (show d.offset < dev.cap by omega), h.int, h.cap_lt⟩, hpos, hle⟩

theorem InRange.lt (h : InRange dev d) : d.offset + d.nbytes < 2 ^ 64 :=
  Nat.lt_of_le_of_lt h.le h.ok.cap

theorem InRange.retval (h : InRange dev d) (x : Int) : InRange dev { d with retval := x } :=
  ⟨h.ok, h.pos, h.le⟩

theorem firstResid_lt (h : dev.Ok) : firstResid dev d < dev.blockSize := Nat.mod_lt _ h.pos

theorem lastResid_lt (h : dev.Ok) : lastResid dev d < dev.blockSize := Nat.mod_lt _ h.pos

theorem first_block (dev : VirtioDev) (d : AsyncIoDesc) :
    d.offset / dev.blockSize * dev.blockSize + firstResid dev d = d.offset :=
  Nat.div_add_mod' ..

theorem headLen_le (dev : VirtioDev) (d : AsyncIoDesc) : headLen dev d ≤ d.nbytes := by
  unfold headLen
  split
  · exact Nat.zero_le _
  · exact Nat.min_le_left _ _

theorem headLen_of_aligned (h : firstResid dev d = 0) : headLen dev d = 0 := if_pos h

theorem headLen_pos (h : InRange dev d) (hr : firstResid dev d ≠ 0) : 0 < headLen dev d := by
  have hlt := firstResid_lt (d := d) h.ok
  have hpos := h.pos
  unfold headLen
  rw [if_neg hr]
  omega

theorem head_in_block (h : dev.Ok) : firstResid dev d + headLen dev d ≤ dev.blockSize := by
  have hlt := firstResid_lt (d := d) h
  unfold headLen
  split
  · omega
  · omega

/-- A head that is not the whole request ends with its block. -/
theorem head_fills_block (h : dev.Ok) (hr : firstResid dev d ≠ 0)
    (hlt : headLen dev d < d.nbytes) : firstResid dev d + headLen dev d = dev.blockSize := by
  have hfirst := firstResid_lt (d := d) h
  unfold headLen at hlt ⊢
  rw [if_neg hr] at hlt ⊢
  omega

theorem mid_mul_le (dev : VirtioDev) (d : AsyncIoDesc) :
    midBlocks dev d * dev.blockSize ≤ d.nbytes - headLen dev d :=
  Nat.div_mul_le_self ..

theorem bodyLen_le (dev : VirtioDev) (d : AsyncIoDesc) : bodyLen dev d ≤ d.nbytes := by
  have hmid := mid_mul_le dev d
  have hhead := headLen_le dev d
  unfold bodyLen
  omega

/-- Where whole blocks begin: after the head, if the head is not all there is. -/
theorem mid_start (h : dev.Ok) (hlt : headLen dev d < d.nbytes) :
    ∃ q, d.offset + headLen dev d = q * dev.blockSize := by
  have hblock := first_block dev d
  by_cases hr : firstResid dev d = 0
  · refine ⟨d.offset / dev.blockSize, ?_⟩
    rw [headLen_of_aligned hr]
    omega
  · refine ⟨d.offset / dev.blockSize + 1, ?_⟩
    have hfill := head_fills_block h hr hlt
    rw [Nat.add_mul, Nat.one_mul]
    omega

theorem headLen_lt_of_bodyLen (hne : bodyLen dev d ≠ d.nbytes) : headLen dev d < d.nbytes := by
  refine Nat.lt_of_le_of_ne (headLen_le dev d) fun heq => hne ?_
  simp [bodyLen, midBlocks, heq]

/-- What is left after the first write command lies in the last block, from its start. -/
theorem tail_spec (h : dev.Ok) (hne : bodyLen dev d ≠ d.nbytes) :
    lastResid dev d = d.nbytes - bodyLen dev d ∧
      (d.offset + d.nbytes) / dev.blockSize * dev.blockSize = d.offset + bodyLen dev d := by
  have hlt := headLen_lt_of_bodyLen hne
  obtain ⟨q, hq⟩ := mid_start h hlt
  have hsum : d.offset + d.nbytes = (d.nbytes - headLen dev d) + q * dev.blockSize := by omega
  have hrest : (d.nbytes - headLen dev d) % dev.blockSize + midBlocks dev d * dev.blockSize =
      d.nbytes - headLen dev d := Nat.mod_add_div' ..
  constructor
  · rw [lastResid, hsum, Nat.add_mul_mod_self_right, bodyLen]
    omega
  · rw [hsum, Nat.add_mul_div_right _ _ h.pos, Nat.add_mul, bodyLen]
    have hmid : (d.nbytes - headLen dev d) / dev.blockSize = midBlocks dev d := rfl
    rw [hmid]
    omega

theorem lastResid_pos (h : dev.Ok) (hne : bodyLen dev d ≠ d.nbytes) : 0 < lastResid dev d := by
  have hle := bodyLen_le dev d
  rw [(tail_spec h hne).1]
  omega

theorem midBlocks_of_head (heq : headLen dev d = d.nbytes) : midBlocks dev d = 0 := by
  simp [midBlocks, heq]

end Arith

/-! ## Buffers -/

def reqBuf (dev : VirtioDev) (lba n : Nat) (isWrite : Bool) : Buffer :=
  ⟨.req (createRwCdb dev .zero lba n isWrite), sizeofReq, false, true, 0, sizeofReq⟩

def respBuf (r : VirtioScsiCmdResp) : Buffer := ⟨.resp r, sizeofResp, true, true, 0, sizeofResp⟩

def blockBuf (dev : VirtioDev) (m : Bytes) (response : Bool) (lo hi : Nat) : Buffer :=
  ⟨.data m, dev.blockSize, response, true, lo, hi⟩

def userBuf (off size : Nat) (response : Bool) : Buffer :=
  ⟨.user off, size, response, false, 0, size⟩

section Commands

variable (dev : VirtioDev) (d : AsyncIoDesc) (r : VirtioScsiCmdResp) (m : Bytes)

def firstReadBufs : List Buffer :=
  [reqBuf dev (d.offset / dev.blockSize) 1 false, respBuf r,
    blockBuf dev m true (firstResid dev d) (firstResid dev d + headLen dev d)]

def bodyWriteBufs : List Buffer :=
  if firstResid dev d = 0 then
    [reqBuf dev (d.offset / dev.blockSize) (midBlocks dev d) true,
      userBuf 0 (midBlocks dev d * dev.blockSize) false, respBuf r]
  else if headLen dev d < d.nbytes then
    [reqBuf dev (d.offset / dev.blockSize) (midBlocks dev d + 1) true,
      blockBuf dev m false (firstResid dev d) (firstResid dev d + headLen dev d),
      userBuf (headLen dev d) (midBlocks dev d * dev.blockSize) false, respBuf r]
  else
    [reqBuf dev (d.offset / dev.blockSize) 1 true,
      blockBuf dev m false (firstResid dev d) (firstResid dev d + headLen dev d), respBuf r]

def lastReadBufs : List Buffer :=
  [reqBuf dev ((d.offset + d.nbytes) / dev.blockSize) 1 false, respBuf r,
    blockBuf dev m true 0 (lastResid dev d)]

def lastWriteBufs : List Buffer :=
  [reqBuf dev ((d.offset + d.nbytes) / dev.blockSize) 1 true,
    blockBuf dev m false 0 (lastResid dev d), respBuf r]

end Commands

/-! ## Requests of any length

The submission functions cut a request off at the end of the device, as far as the
sums of `size_t` show that it goes beyond. -/

section Clipped

variable (dev : VirtioDev) (d : AsyncIoDesc)

def clippedLen : Nat := clipToCap dev d.offset d.nbytes

/-- The bytes in the first block, if it is not transferred as a whole. -/
def clippedHead : Nat :=
  if firstResid dev d = 0 then 0
  else if addSize (firstResid dev d) (clippedLen dev d) ≤ dev.blockSize then clippedLen dev d
  else dev.blockSize - firstResid dev d

def clippedBlocks : Nat := (clippedLen dev d - clippedHead dev d) / dev.blockSize

def clippedTail : Nat := (clippedLen dev d - clippedHead dev d) % dev.blockSize

/-- A buffer that is there only for a part of the request that is not empty. -/
def partBuf (c : Bool) (b : Buffer) : List Buffer := if c then [b] else []

def readData (head tail : Bytes) : List Buffer :=
  partBuf (firstResid dev d != 0) (blockBuf dev head true (firstResid dev d)
      (addSize (firstResid dev d) (clippedHead dev d))) ++
    (partBuf (decide (clippedBlocks dev d > 0)) (userBuf (clippedHead dev d)
      (clippedBlocks dev d * dev.blockSize) true) ++
    partBuf (clippedTail dev d != 0) (blockBuf dev tail true 0 (clippedTail dev d)))

def readBlocks : Nat :=
  (firstResid dev d != 0).toNat + clippedBlocks dev d + (clippedTail dev d != 0).toNat

def readBufs (r : VirtioScsiCmdResp) (head tail : Bytes) : List Buffer :=
  reqBuf dev (d.offset / dev.blockSize) (readBlocks dev d) false :: respBuf r ::
    readData dev d head tail

end Clipped

/-- The clip at the capacity, for requests whose end is no more than a `size_t`. -/
theorem clip_eq {dev : VirtioDev} {off nbytes : Nat} (hoff : off ≤ dev.cap)
    (hn : off + nbytes < 2 ^ 64) : clipToCap dev off nbytes = min nbytes (dev.cap - off) := by
  rw [clipToCap, addSize_eq hn]
  split
  · omega
  · omega

theorem clippedLen_lt {dev : VirtioDev} {d : AsyncIoDesc} (hcap : dev.cap < 2 ^ 64)
    (hsize : d.nbytes < 2 ^ 64) : clippedLen dev d < 2 ^ 64 := by
  unfold clippedLen clipToCap
  split
  · omega
  · exact hsize

theorem clippedHead_le (dev : VirtioDev) (d : AsyncIoDesc) :
    clippedHead dev d ≤ clippedLen dev d := by
  unfold clippedHead addSize
  split
  · exact Nat.zero_le _
  · split
    · exact Nat.le_refl _
    · have := Nat.mod_le (firstResid dev d + clippedLen dev d) (2 ^ 64)
      omega

theorem clipped_parts (dev : VirtioDev) (d : AsyncIoDesc) :
    clippedHead dev d + clippedBlocks dev d * dev.blockSize + clippedTail dev d =
      clippedLen dev d := by
  have hle := clippedHead_le dev d
  have hparts : (clippedLen dev d - clippedHead dev d) % dev.blockSize +
      (clippedLen dev d - clippedHead dev d) / dev.blockSize * dev.blockSize =
      clippedLen dev d - clippedHead dev d := Nat.mod_add_div' ..
  unfold clippedBlocks clippedTail
  omega

end VhostUser.Dev
