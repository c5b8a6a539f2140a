import VhostUser.Dev.SyncSpec
import Mathlib.Algebra.GroupWithZero.Nat

/-! # What an asynchronous read returns

The data of a read goes through bounce buffers for its first and its last block, and
straight into the caller's buffer in between. The device fills these buffers one after
the other, each as far as the 32 bits of its descriptor tell; `blk_read_done` copies the
ranges together that the request is about. The two agree in every byte as long as all of
the blocks are transferred.

After a short transfer they need not: `blk_read_done` compares the length that the device
reports, which begins with the first block, with a sum of ranges, which begins with the
request.
-/

namespace VhostUser.Dev

open VhostUser.Lib Prog

variable {w : World} {dev : VirtioDev} {d : AsyncIoDesc} {io : Nat} {src : Bytes} {u : Nat}

/-! ## The loop over the data buffers -/

def rangeLen (b : Buffer) : Nat := subSize b.offsetTo b.offsetFrom

def rangesLen (vbufs : List Buffer) : Nat := (vbufs.map rangeLen).sum

/-- Byte `k` of the caller's buffer, if the ranges lie behind each other from `pos` on. -/
def picked (bytes : BufPtr → Bytes) (m : Bytes) : List Buffer → Nat → Nat → UInt8
  | [], _, k => m k
  | vbuf :: rest, pos, k =>
      if k < pos + rangeLen vbuf then
        if vbuf.copy then bytes vbuf.buf (vbuf.offsetFrom + (k - pos)) else m k
      else picked bytes m rest (pos + rangeLen vbuf) k

theorem picked_congr {bytes : BufPtr → Bytes} {m m' : Bytes} {k : Nat} (h : m k = m' k)
    (vbufs : List Buffer) (pos : Nat) : picked bytes m vbufs pos k = picked bytes m' vbufs pos k := by
  induction vbufs generalizing pos with
  | nil => exact h
  | cons vbuf rest ih => rw [picked, picked, h, ih]

section Loop

variable {bytes : BufPtr → Bytes} {used : Nat}

/-- What is copied of the next range: all of it, or what is left of the transferred bytes. -/
def loopStep (bytes : BufPtr → Bytes) (vbuf : Buffer) (nbytes delta : Nat) (m : Bytes) : Bytes :=
  if vbuf.copy then m.patch nbytes delta fun k => bytes vbuf.buf (vbuf.offsetFrom + k) else m

theorem blkReadLoop_cons (hused : used < 2 ^ 64) {vbuf : Buffer} {rest : List Buffer} {nbytes : Nat}
    {m : Bytes} (hle : nbytes ≤ used) (hlen : nbytes + rangeLen vbuf < 2 ^ 64) {delta : Nat}
    (hdelta : delta = min (rangeLen vbuf) (used - nbytes)) :
    blkReadLoop bytes used (vbuf :: rest) nbytes m =
      if nbytes + delta ≥ used then (nbytes + delta, loopStep bytes vbuf nbytes delta m)
      else blkReadLoop bytes used rest (nbytes + delta) (loopStep bytes vbuf nbytes delta m) := by
  have hcut : (if addSize nbytes (rangeLen vbuf) > used then subSize used nbytes
      else rangeLen vbuf) = delta := by
    rw [addSize_eq hlen, subSize_eq hle hused, hdelta]
    split
    · omega
    · omega
  simp only [blkReadLoop, show subSize vbuf.offsetTo vbuf.offsetFrom = rangeLen vbuf from rfl, hcut,
    addSize_eq (show nbytes + delta < 2 ^ 64 by omega)]
  rfl

theorem blkReadLoop_count (hused : used < 2 ^ 64) (vbufs : List Buffer) (nbytes : Nat) (m : Bytes)
    (hle : nbytes ≤ used) (hlen : nbytes + rangesLen vbufs < 2 ^ 64) :
    (blkReadLoop bytes used vbufs nbytes m).1 = min (nbytes + rangesLen vbufs) used := by
  induction vbufs generalizing nbytes m with
  | nil =>
      simp only [blkReadLoop, rangesLen, List.map_nil, List.sum_nil]
      omega
  | cons vbuf rest ih =>
      have hsum : rangesLen (vbuf :: rest) = rangeLen vbuf + rangesLen rest := rfl
      rw [hsum] at hlen ⊢
      rw [blkReadLoop_cons hused hle (by omega) rfl]
      split
      · omega
      · rw [ih _ _ (by omega) (by omega)]
        omega

theorem loopStep_byte (vbuf : Buffer) (rest : List Buffer) (nbytes : Nat) {delta : Nat} (m : Bytes)
    (hdelta : delta ≤ rangeLen vbuf) (k : Nat) : loopStep bytes vbuf nbytes delta m k =
      if nbytes ≤ k ∧ k < nbytes + delta then picked bytes m (vbuf :: rest) nbytes k else m k := by
  rw [picked, loopStep]
  by_cases hcopy : vbuf.copy = true
  · rw [if_pos hcopy, if_pos hcopy, Bytes.patch]
    split
    · rw [if_pos (by omega)]
    · rfl
  · rw [if_neg hcopy, if_neg hcopy]
    split
    · rw [if_pos (by omega)]
    · rfl

/-- Each byte below the result comes from its range, and no byte outside is changed. -/
theorem blkReadLoop_byte (hused : used < 2 ^ 64) (vbufs : List Buffer) (nbytes : Nat) (m : Bytes)
    (hle : nbytes ≤ used) (hlen : nbytes + rangesLen vbufs < 2 ^ 64) (k : Nat) {res : Nat × Bytes}
    (hres : blkReadLoop bytes used vbufs nbytes m = res) :
    res.2 k = if nbytes ≤ k ∧ k < res.1 then picked bytes m vbufs nbytes k else m k := by
  induction vbufs generalizing nbytes m with
  | nil =>
      cases hres
      exact (ite_self _).symm
  | cons vbuf rest ih =>
      have hsum : rangesLen (vbuf :: rest) = rangeLen vbuf + rangesLen rest := rfl
      rw [hsum] at hlen
      generalize hdelta : min (rangeLen vbuf) (used - nbytes) = delta
      have hstep : loopStep bytes vbuf nbytes delta m k = _ :=
        loopStep_byte vbuf rest nbytes m (by omega) k
      rw [blkReadLoop_cons hused hle (by omega) hdelta.symm] at hres
      split at hres
      · rw [← hres]
        exact hstep
      · next hmore =>
          have hcount : (blkReadLoop bytes used rest (nbytes + delta) _).1 = _ :=
            blkReadLoop_count hused rest (nbytes + delta) (loopStep bytes vbuf nbytes delta m)
              (by omega) (by omega)
          rw [hres] at hcount
          rw [ih _ _ (by omega) (by omega) hres]
          by_cases hk : nbytes + delta ≤ k
          · have hsame : loopStep bytes vbuf nbytes delta m k = m k := by
              rw [hstep, if_neg (by omega)]
            -- the loop goes on, so this range was copied as a whole
            have hfull : delta = rangeLen vbuf := by omega
            rw [hsame, picked_congr hsame]
            by_cases hlast : k < res.1
            · rw [if_pos ⟨hk, hlast⟩, if_pos ⟨by omega, hlast⟩, picked, if_neg (by omega), hfull]
            · rw [if_neg (by omega), if_neg (by omega)]
          · rw [if_neg (by omega), hstep]
            by_cases hlow : nbytes ≤ k
            · rw [if_pos (by omega), if_pos (by omega)]
            · rw [if_neg (by omega), if_neg (by omega)]

end Loop

/-! ## The transfer -/

/-- The length in the descriptor of a buffer has 32 bits. -/
def descLen (b : Buffer) : Nat := b.size % 2 ^ 32

def descsLen (vbufs : List Buffer) : Nat := (vbufs.map descLen).sum

/-- Data buffers after a transfer of the first `u` bytes of `src`; the first of the buffers
begins at position `pos`. -/
def transferTo (src : Bytes) (u : Nat) : Nat → List Buffer → List Buffer
  | _, [] => []
  | pos, b :: rest =>
      { b with buf := b.buf.land (min (descLen b) (u - pos)) fun k => src (pos + k) } ::
        transferTo src u (pos + descLen b) rest

/-- What a transfer through a pointer leaves in the caller's buffer. -/
def BufPtr.landUser (size : Nat) (src m : Bytes) : BufPtr → Bytes
  | .user off => m.patch off size src
  | _ => m

def transferUser (src : Bytes) (u : Nat) : Nat → List Buffer → Bytes → Bytes
  | _, [], m => m
  | pos, b :: rest, m => transferUser src u (pos + descLen b) rest
      (b.buf.landUser (min (descLen b) (u - pos)) (fun k => src (pos + k)) m)

/-- The device executes the read of task `t`, transfers the first `u` bytes and reports them.
The rest of the data buffers, which come after request and response, stays as it is. -/
def World.execShort (w : World) (t : Nat) (f : Flight) (u : Nat) : World :=
  match commandOf f.task with
  | some ⟨false, lba, _⟩ =>
      let src : Bytes := fun k => w.disk (lba * w.dev.blockSize + k)
      let vbufs := setResp ⟨0, 0⟩ f.task.vbufs
      let desc := (w.ios f.io).desc
      (w.answer t f (vbufs.take 2 ++ transferTo src u 0 (vbufs.drop 2)) (u + sizeofResp)).setIo f.io
        ⟨{ desc with buf := transferUser src u 0 (vbufs.drop 2) desc.buf }, (w.ios f.io).state⟩
  | _ => w

section Whole

variable {src' : Bytes}

/-- A transfer of everything, with descriptors that tell the size of their buffers. -/
theorem fillIn_eq_transferTo (hsrc : ∀ k < u, src k = src' k) (data : List Buffer)
    (hdata : ∀ b ∈ data, b.response = true ∧ b.size < 2 ^ 32) (pos : Nat)
    (hpos : pos + descsLen data ≤ u) : fillIn src true pos data = transferTo src' u pos data := by
  induction data generalizing pos with
  | nil => rfl
  | cons b rest ih =>
      obtain ⟨hresp, hsize⟩ := hdata b (List.mem_cons_self ..)
      have hlen : descLen b = b.size := Nat.mod_eq_of_lt hsize
      have hsum : descsLen (b :: rest) = descLen b + descsLen rest := rfl
      have hnext := ih (fun b hb => hdata b (List.mem_cons_of_mem _ hb)) (pos + descLen b) (by omega)
      rw [hlen] at hnext
      rw [fillIn, if_pos hresp, if_pos rfl, hnext, transferTo, hlen, Nat.min_eq_left (by omega)]
      cases hbuf : b.buf with
      | data m =>
          dsimp only [BufPtr.land]
          rw [Bytes.patch_congr m fun k hk =>
            show src (pos + k) = src' (pos + k) from hsrc _ (by omega)]
      | req r => simp only [BufPtr.land, ← hbuf]
      | resp r => simp only [BufPtr.land, ← hbuf]
      | user off => simp only [BufPtr.land, ← hbuf]

theorem fillUser_eq_transferUser (hsrc : ∀ k < u, src k = src' k) (data : List Buffer)
    (hdata : ∀ b ∈ data, b.response = true ∧ b.size < 2 ^ 32) (pos : Nat) (m : Bytes)
    (hpos : pos + descsLen data ≤ u) :
    fillUser src true pos data m = transferUser src' u pos data m := by
  induction data generalizing pos m with
  | nil => rfl
  | cons b rest ih =>
      obtain ⟨hresp, hsize⟩ := hdata b (List.mem_cons_self ..)
      have hlen : descLen b = b.size := Nat.mod_eq_of_lt hsize
      have hsum : descsLen (b :: rest) = descLen b + descsLen rest := rfl
      have hnext := fun m => ih (fun b hb => hdata b (List.mem_cons_of_mem _ hb)) (pos + descLen b) m
        (by omega)
      rw [hlen] at hnext
      rw [fillUser, if_pos hresp, if_pos rfl, transferUser, hlen, Nat.min_eq_left (by omega)]
      cases hbuf : b.buf with
      | user off =>
          dsimp only [BufPtr.landUser]
          rw [hnext, Bytes.patch_congr m fun k hk =>
            show src (pos + k) = src' (pos + k) from hsrc _ (by omega)]
      | req r => exact hnext m
      | resp r => exact hnext m
      | data m' => exact hnext m

end Whole

/-! ## The data buffers of a read -/

/-- Where the whole blocks and the last block begin in the transfer. -/
def midStart (dev : VirtioDev) (d : AsyncIoDesc) : Nat :=
  if firstResid dev d = 0 then 0 else dev.blockSize

def tailStart (dev : VirtioDev) (d : AsyncIoDesc) : Nat :=
  midStart dev d + clippedBlocks dev d * dev.blockSize % 2 ^ 32

/-- The bounce buffers and the caller's buffer after a transfer. -/
def headAfter (dev : VirtioDev) (src : Bytes) (u : Nat) (head : Bytes) : Bytes :=
  head.patch 0 (min dev.blockSize u) src

def userAfter (dev : VirtioDev) (d : AsyncIoDesc) (src : Bytes) (u : Nat) (m : Bytes) : Bytes :=
  m.patch (clippedHead dev d)
    (min (clippedBlocks dev d * dev.blockSize % 2 ^ 32) (u - midStart dev d))
    fun k => src (midStart dev d + k)

def tailAfter (dev : VirtioDev) (d : AsyncIoDesc) (src : Bytes) (u : Nat) (tail : Bytes) : Bytes :=
  tail.patch 0 (min dev.blockSize (u - tailStart dev d)) fun k => src (tailStart dev d + k)

section ReadData

variable {head tail : Bytes}

theorem transferTo_partBuf (src : Bytes) (u pos : Nat) (c : Bool) (b : Buffer) (rest : List Buffer) :
    transferTo src u pos (partBuf c b ++ rest) =
      partBuf c { b with buf := b.buf.land (min (descLen b) (u - pos)) fun k => src (pos + k) } ++
        transferTo src u (pos + if c then descLen b else 0) rest := by
  cases c <;> rfl

theorem transferUser_partBuf (src : Bytes) (u pos : Nat) (c : Bool) (b : Buffer)
    (rest : List Buffer) (m : Bytes) : transferUser src u pos (partBuf c b ++ rest) m =
      transferUser src u (pos + if c then descLen b else 0) rest
        (if c then b.buf.landUser (min (descLen b) (u - pos)) (fun k => src (pos + k)) m else m) := by
  cases c <;> rfl

theorem midStart_eq (dev : VirtioDev) (d : AsyncIoDesc) :
    (if (firstResid dev d != 0) = true then dev.blockSize else 0) = midStart dev d := by
  by_cases hr : firstResid dev d = 0
  · simp [midStart, hr]
  · simp [midStart, hr]

theorem tailStart_eq (dev : VirtioDev) (d : AsyncIoDesc) :
    (midStart dev d + if decide (clippedBlocks dev d > 0) = true then
      clippedBlocks dev d * dev.blockSize % 2 ^ 32 else 0) = tailStart dev d := by
  by_cases hq : clippedBlocks dev d > 0
  · simp [tailStart, hq]
  · simp [tailStart, show clippedBlocks dev d = 0 by omega]

theorem transferTo_readData (hint : dev.blockSize < 2 ^ 31) :
    transferTo src u 0 (readData dev d head tail) =
      readData dev d (headAfter dev src u head) (tailAfter dev d src u tail) := by
  have hblock : dev.blockSize % 2 ^ 32 = dev.blockSize := Nat.mod_eq_of_lt (by omega)
  unfold readData
  rw [transferTo_partBuf, transferTo_partBuf, ← List.append_nil (partBuf _ (blockBuf dev tail _ _ _)),
    transferTo_partBuf]
  simp only [descLen, blockBuf, userBuf, hblock, midStart_eq, tailStart_eq, BufPtr.land, transferTo,
    List.append_nil, Nat.sub_zero, Nat.zero_add]
  rfl

theorem transferUser_readData (hint : dev.blockSize < 2 ^ 31) (m : Bytes) :
    transferUser src u 0 (readData dev d head tail) m = userAfter dev d src u m := by
  have hblock : dev.blockSize % 2 ^ 32 = dev.blockSize := Nat.mod_eq_of_lt (by omega)
  unfold readData
  rw [transferUser_partBuf, transferUser_partBuf,
    ← List.append_nil (partBuf _ (blockBuf dev tail _ _ _)), transferUser_partBuf]
  simp only [descLen, blockBuf, userBuf, hblock, midStart_eq, BufPtr.landUser, transferUser, ite_self,
    Nat.zero_add]
  by_cases hq : clippedBlocks dev d > 0
  · rw [if_pos (decide_eq_true hq)]
    rfl
  · have hzero : clippedBlocks dev d = 0 := by omega
    simp [userAfter, hzero, Bytes.patch_zero]

/-! ## What the loop makes of them -/

theorem rangeLen_add {b : Buffer} {len : Nat} (h : b.offsetTo = b.offsetFrom + len)
    (hlen : len < 2 ^ 64) : rangeLen b = len := by
  rw [rangeLen, h, subSize]
  omega

theorem picked_partBuf {bytes : BufPtr → Bytes} {m : Bytes} {c : Bool} {b : Buffer} {len : Nat}
    (hlen : rangeLen b = len) (hc : c = false → len = 0) (rest : List Buffer) (pos k : Nat)
    (hk : pos ≤ k) : picked bytes m (partBuf c b ++ rest) pos k =
      if k < pos + len then (if b.copy then bytes b.buf (b.offsetFrom + (k - pos)) else m k)
      else picked bytes m rest (pos + len) k := by
  cases c with
  | true =>
      subst hlen
      rfl
  | false =>
      rw [hc rfl, Nat.add_zero, if_neg (by omega)]
      rfl

theorem rangesLen_partBuf {c : Bool} {b : Buffer} {len : Nat} (hlen : rangeLen b = len)
    (hc : c = false → len = 0) (rest : List Buffer) :
    rangesLen (partBuf c b ++ rest) = len + rangesLen rest := by
  cases c with
  | true =>
      subst hlen
      rfl
  | false =>
      rw [hc rfl, Nat.zero_add]
      rfl

/-- The ranges of the parts, and that a part is left out only if it is empty. -/
theorem part_ranges (hresid : firstResid dev d < 2 ^ 64) (hlen : clippedLen dev d < 2 ^ 64)
    (head tail : Bytes) :
    rangeLen (blockBuf dev head true (firstResid dev d)
      (addSize (firstResid dev d) (clippedHead dev d))) = clippedHead dev d ∧
    rangeLen (userBuf (clippedHead dev d) (clippedBlocks dev d * dev.blockSize) true) =
      clippedBlocks dev d * dev.blockSize ∧
    rangeLen (blockBuf dev tail true 0 (clippedTail dev d)) = clippedTail dev d ∧
    ((firstResid dev d != 0) = false → clippedHead dev d = 0) ∧
    (decide (clippedBlocks dev d > 0) = false → clippedBlocks dev d * dev.blockSize = 0) ∧
    ((clippedTail dev d != 0) = false → clippedTail dev d = 0) := by
  have hparts := clipped_parts dev d
  refine ⟨subSize_addSize hresid (by omega), rangeLen_add (Nat.zero_add _).symm (by omega),
    rangeLen_add (Nat.zero_add _).symm (by omega), fun hr => ?_, fun hq => ?_, fun ht => by simpa using ht⟩
  · rw [clippedHead, if_pos (by simpa using hr)]
  · have hzero : clippedBlocks dev d = 0 := by simpa using hq
    rw [hzero, Nat.zero_mul]

theorem rangesLen_readData (hresid : firstResid dev d < 2 ^ 64) (hlen : clippedLen dev d < 2 ^ 64)
    (head tail : Bytes) : rangesLen (readData dev d head tail) = clippedLen dev d := by
  obtain ⟨hhead, hmid, htail, hhead', hmid', htail'⟩ := part_ranges hresid hlen head tail
  rw [readData, rangesLen_partBuf hhead hhead', rangesLen_partBuf hmid hmid',
    ← List.append_nil (partBuf _ _), rangesLen_partBuf htail htail', ← clipped_parts dev d]
  simp only [rangesLen, List.map_nil, List.sum_nil]
  omega

theorem picked_readData (hresid : firstResid dev d < 2 ^ 64) (hlen : clippedLen dev d < 2 ^ 64)
    {bytes : BufPtr → Bytes}
    (hdata : ∀ m, bytes (.data m) = m) (head tail m : Bytes) {k : Nat} (hk : k < clippedLen dev d) :
    picked bytes m (readData dev d head tail) 0 k =
      if k < clippedHead dev d then head (firstResid dev d + k)
      else if k < clippedHead dev d + clippedBlocks dev d * dev.blockSize then m k
      else tail (k - (clippedHead dev d + clippedBlocks dev d * dev.blockSize)) := by
  have hparts := clipped_parts dev d
  obtain ⟨hhead, hmid, htail, hhead', hmid', htail'⟩ := part_ranges hresid hlen head tail
  rw [readData, picked_partBuf hhead hhead' _ _ _ (Nat.zero_le _), Nat.zero_add]
  by_cases h₁ : k < clippedHead dev d
  · rw [if_pos h₁, if_pos h₁]
    simp only [blockBuf, hdata, if_true, Nat.sub_zero]
  rw [if_neg h₁, if_neg h₁, picked_partBuf hmid hmid' _ _ _ (by omega)]
  by_cases h₂ : k < clippedHead dev d + clippedBlocks dev d * dev.blockSize
  · rw [if_pos h₂, if_pos h₂]
    rfl
  rw [if_neg h₂, if_neg h₂, ← List.append_nil (partBuf _ _),
    picked_partBuf htail htail' _ _ _ (by omega), if_pos (by omega)]
  simp only [blockBuf, hdata, if_true, Nat.zero_add]

end ReadData

/-- Byte `k` of the caller's buffer after the transfer and the loop. -/
def readByte (dev : VirtioDev) (d : AsyncIoDesc) (src : Bytes) (u : Nat) (head tail m : Bytes)
    (k : Nat) : UInt8 :=
  if k < clippedHead dev d then headAfter dev src u head (firstResid dev d + k)
  else if k < clippedHead dev d + clippedBlocks dev d * dev.blockSize then
    userAfter dev d src u m k
  else tailAfter dev d src u tail (k - (clippedHead dev d + clippedBlocks dev d * dev.blockSize))

theorem blkReadLoop_readData (hresid : firstResid dev d < 2 ^ 64)
    (hlen : clippedLen dev d < 2 ^ 64) (hu : u < 2 ^ 64)
    {bytes : BufPtr → Bytes} (hdata : ∀ m, bytes (.data m) = m) (head tail m : Bytes)
    {res : Nat × Bytes} (hres : blkReadLoop bytes u (readData dev d (headAfter dev src u head)
      (tailAfter dev d src u tail)) 0 (userAfter dev d src u m) = res) :
    res.1 = min (clippedLen dev d) u ∧
      (∀ k < res.1, res.2 k = readByte dev d src u head tail m k) ∧
      ∀ k, res.1 ≤ k → res.2 k = userAfter dev d src u m k := by
  have hranges := rangesLen_readData hresid hlen (headAfter dev src u head) (tailAfter dev d src u tail)
  have hcount : (blkReadLoop bytes u _ 0 _).1 = _ :=
    blkReadLoop_count hu (readData dev d (headAfter dev src u head) (tailAfter dev d src u tail)) 0
      (userAfter dev d src u m) (Nat.zero_le _) (by omega)
  rw [hres, hranges, Nat.zero_add] at hcount
  have hbyte := fun k => blkReadLoop_byte hu _ 0 _ (Nat.zero_le _) (by omega) k hres
  refine ⟨hcount, fun k hk => ?_, fun k hk => ?_⟩
  · rw [hbyte, if_pos ⟨Nat.zero_le _, hk⟩, picked_readData hresid hlen hdata _ _ _ (by omega)]
    rfl
  · rw [hbyte, if_neg (by omega)]

/-! ## When every byte is the byte of the disk -/

/-- The length is right if the transfer goes on to the end of the request, or if it begins
with the request and does not go beyond what the descriptors of the whole blocks tell. -/
def ShortSafe (dev : VirtioDev) (d : AsyncIoDesc) (u : Nat) : Prop :=
  u = 0 ∨ d.offset % dev.blockSize + clippedLen dev d ≤ u ∨
    d.offset % dev.blockSize = 0 ∧ (clippedLen dev d / dev.blockSize * dev.blockSize < 2 ^ 32 ∨
      u ≤ clippedLen dev d / dev.blockSize * dev.blockSize % 2 ^ 32)

/-- Without a part in the first block, the whole blocks begin with the request. -/
theorem shortSafe_iff : ShortSafe dev d u ↔ u = 0 ∨ firstResid dev d + clippedLen dev d ≤ u ∨
    firstResid dev d = 0 ∧ (clippedBlocks dev d * dev.blockSize < 2 ^ 32 ∨
      u ≤ clippedBlocks dev d * dev.blockSize % 2 ^ 32) := by
  unfold ShortSafe
  by_cases hr : firstResid dev d = 0
  · have hblocks : clippedBlocks dev d = clippedLen dev d / dev.blockSize := by
      rw [clippedBlocks, clippedHead, if_pos hr, Nat.sub_zero]
    rw [hblocks]
    rfl
  · simp only [show ¬ d.offset % dev.blockSize = 0 from hr, hr, false_and, or_false]
    rfl

/-- The first block ends the request, or the request goes on behind it. -/
theorem head_cases (hpos : 0 < dev.blockSize) :
    firstResid dev d = 0 ∧ clippedHead dev d = 0 ∧ midStart dev d = 0 ∨
      firstResid dev d ≠ 0 ∧ midStart dev d = dev.blockSize ∧
        (clippedHead dev d = clippedLen dev d ∧ (firstResid dev d + clippedLen dev d < 2 ^ 64 →
            firstResid dev d + clippedLen dev d ≤ dev.blockSize) ∨
          clippedHead dev d = dev.blockSize - firstResid dev d ∧
            clippedHead dev d < clippedLen dev d) := by
  by_cases hr : firstResid dev d = 0
  · left
    exact ⟨hr, if_pos hr, if_pos hr⟩
  · right
    have hlt : firstResid dev d < dev.blockSize := Nat.mod_lt _ hpos
    refine ⟨hr, if_neg hr, ?_⟩
    rw [clippedHead, if_neg hr, addSize]
    split
    · omega
    · omega

theorem readByte_sound (hpos : 0 < dev.blockSize) (hu : u < 2 ^ 32) (hsafe : ShortSafe dev d u)
    (head tail m : Bytes) {k : Nat} (hk : k < min (clippedLen dev d) u) :
    readByte dev d src u head tail m k = src (firstResid dev d + k) := by
  have hcases := head_cases (d := d) hpos
  have hparts := clipped_parts dev d
  have hlt : firstResid dev d < dev.blockSize := Nat.mod_lt _ hpos
  have hlast : clippedTail dev d < dev.blockSize := Nat.mod_lt _ hpos
  unfold readByte headAfter userAfter tailAfter tailStart
  rw [shortSafe_iff] at hsafe
  generalize clippedBlocks dev d * dev.blockSize = mid at *
  split
  · rw [Bytes.patch_inside _ _ (Nat.zero_le _) (by omega), Nat.sub_zero]
  · split
    · rw [Bytes.patch_inside _ _ (by omega) (by omega)]
      congr 1
      omega
    · rw [Bytes.patch_inside _ _ (Nat.zero_le _) (by omega)]
      congr 1
      omega

theorem readByte_untouched (hpos : 0 < dev.blockSize) (hn : 0 < clippedLen dev d) (hu : u < 2 ^ 32)
    (hshort : ¬ ShortSafe dev d u) (head tail m : Bytes) :
    ∃ k < min (clippedLen dev d) u, ∃ v, ∀ src, readByte dev d src u head tail m k = v := by
  have hcases := head_cases (d := d) hpos
  have hparts := clipped_parts dev d
  have hlt : firstResid dev d < dev.blockSize := Nat.mod_lt _ hpos
  unfold readByte headAfter userAfter tailAfter tailStart
  rw [shortSafe_iff] at hshort
  generalize clippedBlocks dev d * dev.blockSize = mid at *
  -- the last byte that is counted, or the first one behind a descriptor that is too short
  refine ⟨if firstResid dev d = 0 then mid % 2 ^ 32 else min (clippedLen dev d) u - 1, ?_, ?_⟩
  · split
    · omega
    · omega
  · generalize hk : (if firstResid dev d = 0 then mid % 2 ^ 32
      else min (clippedLen dev d) u - 1) = k
    split at hk
    · split
      · omega
      · split
        · exact ⟨_, fun src => Bytes.patch_outside _ _ (by omega)⟩
        · omega
    · split
      · exact ⟨_, fun src => Bytes.patch_outside _ _ (by omega)⟩
      · split
        · exact ⟨_, fun src => Bytes.patch_outside _ _ (by omega)⟩
        · exact ⟨_, fun src => Bytes.patch_outside _ _ (by omega)⟩

/-! ## From the submission to the callback -/

/-- Nothing that belongs to task `t` and descriptor `io` is different. -/
structure Untouched (w v : World) (t io : Nat) : Prop where
  dev : v.dev = w.dev
  live : v.live t = w.live t
  flight : v.flights t = w.flights t
  own : v.ios io = w.ios io

structure ReadFlight (w : World) (t io : Nat) (d : AsyncIoDesc) (head tail : Bytes) (f : Flight) :
    Prop where
  flight : w.flights t = some f
  cb : f.cb = .blkReadDone
  arg : f.io = io
  bufs : f.task.vbufs = readBufs w.dev d ⟨0, 0⟩ head tail
  own : w.ios io = ⟨d, .busy⟩
  live : w.live t = true

theorem ReadFlight.untouched {v : World} {t : Nat} {head tail : Bytes} {f : Flight}
    (h : ReadFlight w t io d head tail f) (hv : Untouched w v t io) :
    ReadFlight v t io d head tail f :=
  ⟨hv.flight.trans h.flight, h.cb, h.arg, hv.dev ▸ h.bufs, hv.own.trans h.own, hv.live.trans h.live⟩

/-- What a world needs for a submission. -/
structure Vacant (w : World) (io : Nat) : Prop where
  fresh : (w.ios io).state = .fresh
  nextLive : w.live w.nextTask = false
  nextFlight : w.flights w.nextTask = none

/-- Whatever has happened before, a descriptor that was not yet used can be submitted. -/
theorem Chains.vacant (h : Chains w) (hfresh : (w.ios io).state = .fresh) : Vacant w io :=
  ⟨hfresh, by rw [h.live, h.fresh _ (Nat.le_refl _)]; rfl, h.fresh _ (Nat.le_refl _)⟩

/-- The read is refused because something has failed in the submission, or it is in the ring. -/
theorem submit_read (h : Vacant w io) (htype : d.type = .read) (hblock : 0 < w.dev.blockSize)
    (hcap : w.dev.cap < 2 ^ 64) (hoff : d.offset ≤ w.dev.cap) (hpos : 0 < d.nbytes)
    (hsize : d.nbytes < 2 ^ 64) (os : List (Option Bytes)) :
    ∃ w₁, stepWorld w (.submit io d os) = some (.ok w₁) ∧ w₁.dev = w.dev ∧
      ((w₁.returned io = some (-1) ∧ w₁.flights w.nextTask = none ∧ ¬ ∀ o ∈ os, o.isSome = true) ∨
        (w₁.returned io = some 0 ∧ ∃ head tail f, f.answered = false ∧
          ReadFlight w₁ w.nextTask io d head tail f)) := by
  have hown : (w.enter io d).ios io = ⟨d, .busy⟩ := Function.update_self ..
  have hin : Entered (w.enter io d) io := ⟨by rw [hown], h.nextLive, h.nextFlight⟩
  have hread : Calls (∀ o ∈ os, o.isSome = true) False (readVirtioDevAsync io) _ (w.enter io d) :=
    readVirtioDevAsync_calls hin hblock hcap (by rw [hown]; exact hoff) (by rw [hown]; exact hpos)
      (by rw [hown]; exact hsize)
  have hsubmit : Calls (∀ o ∈ os, o.isSome = true) False (virtioSubmit io) _ (w.enter io d) :=
    wpIf_bind (calls_useIo (by simp [World.ioBusy, hown]) (by rw [hown, htype]; exact hread))
  obtain ⟨rc, w₁, os', hrun, hpost⟩ := hsubmit.ends id fun o ho hcalm => hcalm o ho
  refine ⟨w₁.leave io rc, by simp only [stepWorld, if_pos h.fresh, hrun]; rfl, ?_⟩
  rw [hown] at hpost
  rcases hpost with ⟨rfl, hfail, hmid, -⟩ | ⟨rfl, head, tail, hpass⟩
  · refine ⟨hmid.dev, Or.inl ⟨Function.update_self .., ?_, hfail⟩⟩
    show w₁.flights w.nextTask = none
    rw [hmid.flights]
    exact h.nextFlight
  · obtain ⟨task, hbufs, hflights⟩ := hpass.flights
    refine ⟨hpass.dev, Or.inr ⟨Function.update_self .., head, tail, ⟨task, .blkReadDone, io, false⟩,
      rfl, ?_, rfl, rfl, ?_, ?_, ?_⟩⟩
    · show w₁.flights w.nextTask = _
      rw [hflights]
      exact Function.update_self ..
    · show task.vbufs = readBufs w₁.dev d ⟨0, 0⟩ head tail
      rw [hpass.dev]
      exact hbufs
    · show w₁.ios io = _
      exact hpass.own
    · show w₁.live w.nextTask = true
      rw [hpass.live]
      simp [World.enter, World.setIo]

/-- The blocks that the command of the read names, as they are on the disk. -/
def diskFrom (w : World) (d : AsyncIoDesc) : Bytes := fun k =>
  w.disk (d.offset / w.dev.blockSize % 2 ^ lbaBits w.dev * w.dev.blockSize + k)

theorem diskFrom_resid (hg : w.dev.Geometry) (hoff : d.offset < w.dev.cap) (k : Nat) :
    diskFrom w d (firstResid w.dev d + k) = w.disk (d.offset + k) := by
  have hlba : d.offset / w.dev.blockSize < 2 ^ lbaBits w.dev := by
    apply hg.block_lt
    have := Nat.div_mul_le_self d.offset w.dev.blockSize
    omega
  rw [diskFrom, Nat.mod_eq_of_lt hlba, ← Nat.add_assoc, first_block]

theorem execShort_read {t : Nat} {head tail : Bytes} {f : Flight}
    (h : ReadFlight w t io d head tail f) (hg : w.dev.Geometry) (u : Nat) :
    ∃ f', f'.answered = true ∧ f'.task.usedBytes = (u + sizeofResp) % 2 ^ 32 ∧
      (w.execShort t f u).dev = w.dev ∧ ReadFlight (w.execShort t f u) t io
        { d with buf := userAfter w.dev d (diskFrom w d) u d.buf }
        (headAfter w.dev (diskFrom w d) u head) (tailAfter w.dev d (diskFrom w d) u tail) f' := by
  have hcmd := commandOf_reqBuf h.bufs
  have hvbufs : setResp ⟨0, 0⟩ f.task.vbufs = readBufs w.dev d ⟨0, 0⟩ head tail := by
    rw [h.bufs]
    simp [readBufs, setResp, reqBuf, respBuf]
  have hexec : w.execShort t f u = (w.answer t f (readBufs w.dev d ⟨0, 0⟩
      (headAfter w.dev (diskFrom w d) u head) (tailAfter w.dev d (diskFrom w d) u tail))
      (u + sizeofResp)).setIo io
        ⟨{ d with buf := userAfter w.dev d (diskFrom w d) u d.buf }, .busy⟩ := by
    simp only [World.execShort, hcmd, hvbufs, h.arg, h.own]
    rw [show (readBufs w.dev d ⟨0, 0⟩ head tail).drop 2 = readData w.dev d head tail from rfl,
      transferTo_readData hg.int, transferUser_readData hg.int]
    rfl
  rw [hexec]
  refine ⟨_, rfl, rfl, rfl, Function.update_self .., h.cb, h.arg, rfl, Function.update_self .., h.live⟩

theorem reap_read {t : Nat} {head tail : Bytes} {f : Flight} (h : ReadFlight w t io d head tail f)
    (hans : f.answered = true) (hspace : w.outring.length < outringCapacity)
    (os : List (Option Bytes)) : ∃ w' res, stepWorld w (.reap t os) = some (.ok w') ∧
      blkReadLoop ((w.take t).bytes io) (subSize f.task.usedBytes sizeofResp)
        (readData w.dev d head tail) 0 d.buf = res ∧
      w'.ios io = ⟨{ d with buf := res.2, retval := toSsize res.1 }, .pushed⟩ ∧
      w'.pushes = w.pushes ++ [io] := by
  have hheld : Held False (w.take t) t io :=
    ⟨h.live, Function.update_self .., by rw [show (w.take t).ios io = _ from h.own],
      fun _ => hspace⟩
  have hdone : Calls False False (blkReadDone ⟨t, f.task⟩ io) _ (w.take t) :=
    blkReadDone_calls hheld (b := respBuf ⟨0, 0⟩) (by rw [h.bufs]; rfl) rfl
  obtain ⟨_, w', os', hrun, hpost⟩ := wp_of_calls hdone os
  rcases hpost with ⟨hbad, -⟩ | ⟨-, res, hres, hclosed⟩
  · cases hbad
  · have hown := hclosed.own
    rw [show (w.take t).ios io = _ from h.own] at hown hres
    rw [h.bufs] at hres
    refine ⟨w', res, ?_, hres.symm, hown, hclosed.pushes⟩
    simp only [stepWorld, h.flight, hans, if_true, h.cb, h.arg, runCallback, hrun]
    rfl

/-- A read that was executed with `u` bytes is given back with that many bytes, cut off at
its length. -/
theorem finish_read {v v₂ : World} {t : Nat} {head tail : Bytes} {f : Flight}
    (h : ReadFlight v t io d head tail f) (hg : v.dev.Geometry) (hoff : d.offset ≤ v.dev.cap)
    (hsize : d.nbytes < 2 ^ 64) (hu : u + sizeofResp < 2 ^ 32)
    (hv : Untouched (v.execShort t f u) v₂ t io) (hspace : v₂.outring.length < outringCapacity)
    (os : List (Option Bytes)) :
    ∃ w' d', stepWorld v₂ (.reap t os) = some (.ok w') ∧ w'.ios io = ⟨d', .pushed⟩ ∧
      w'.pushes = v₂.pushes ++ [io] ∧ d'.retval = (min (clippedLen v.dev d) u : Nat) ∧
      (∀ k < min (clippedLen v.dev d) u,
        d'.buf k = readByte v.dev d (diskFrom v d) u head tail d.buf k) ∧
      ∀ k, min (clippedLen v.dev d) u ≤ k →
        d'.buf k = userAfter v.dev d (diskFrom v d) u d.buf k := by
  obtain ⟨f', hans, hused, hdev, hexec⟩ := execShort_read h hg u
  have hlen : clippedLen v.dev d < 2 ^ 64 := clippedLen_lt hg.cap_lt hsize
  have hresid : firstResid v.dev d < 2 ^ 64 :=
    Nat.lt_of_le_of_lt (Nat.le_trans (Nat.mod_le ..) hoff) hg.cap_lt
  obtain ⟨w', res, hstep, hres, hown, hpushes⟩ := reap_read (hexec.untouched hv) hans hspace os
  have hresp : sizeofResp = 108 := rfl
  rw [hused, Nat.mod_eq_of_lt hu, subSize_eq (Nat.le_add_left ..) (by omega),
    Nat.add_sub_cancel, hv.dev, hdev] at hres
  obtain ⟨hcount, hbyte, hrest⟩ := blkReadLoop_readData hresid hlen (by omega) (fun _ => rfl) _ _ _ hres
  refine ⟨w', _, hstep, hown, hpushes, ?_, ?_, ?_⟩
  · rw [hcount, toSsize_eq (by omega)]
  · rw [← hcount]
    exact hbyte
  · rw [← hcount]
    exact hrest

/-! ## Transfers of all blocks -/

/-- The blocks that a request of `n` bytes touches. -/
def spannedBlocks (dev : VirtioDev) (offset n : Nat) : Nat :=
  (offset + n - 1) / dev.blockSize - offset / dev.blockSize + 1

theorem readBlocks_mul (dev : VirtioDev) (d : AsyncIoDesc) :
    readBlocks dev d * dev.blockSize = midStart dev d + clippedBlocks dev d * dev.blockSize +
      if clippedTail dev d = 0 then 0 else dev.blockSize := by
  have htoNat : ∀ n : Nat, (n != 0).toNat * dev.blockSize = if n = 0 then 0 else dev.blockSize := by
    intro n
    by_cases hn : n = 0
    · simp [hn]
    · simp [bne_iff_ne.mpr hn, hn]
  rw [readBlocks, Nat.add_mul, Nat.add_mul, htoNat, htoNat]
  rfl

/-- The blocks of a read begin before the request, and end after it. -/
theorem readBlocks_cover (hpos : 0 < dev.blockSize)
    (hsum : firstResid dev d + clippedLen dev d < 2 ^ 64) (hn : 0 < clippedLen dev d) :
    firstResid dev d + clippedLen dev d ≤ readBlocks dev d * dev.blockSize ∧
      readBlocks dev d * dev.blockSize < firstResid dev d + clippedLen dev d + dev.blockSize := by
  have hcases := head_cases (d := d) hpos
  have hparts := clipped_parts dev d
  have hlt : firstResid dev d < dev.blockSize := Nat.mod_lt _ hpos
  have hlast : clippedTail dev d < dev.blockSize := Nat.mod_lt _ hpos
  rw [readBlocks_mul]
  generalize clippedBlocks dev d * dev.blockSize = mid at hparts ⊢
  split
  · omega
  · omega

theorem spannedBlocks_eq (hpos : 0 < dev.blockSize)
    (hsum : firstResid dev d + clippedLen dev d < 2 ^ 64) (hn : 0 < clippedLen dev d) :
    spannedBlocks dev d.offset (clippedLen dev d) = readBlocks dev d := by
  obtain ⟨hle, hlt⟩ := readBlocks_cover hpos hsum hn
  have hblock := first_block dev d
  have hone : 0 < readBlocks dev d := by
    refine Nat.pos_of_ne_zero fun hzero => ?_
    rw [hzero, Nat.zero_mul] at hle
    omega
  have hend : (d.offset + clippedLen dev d - 1) / dev.blockSize =
      d.offset / dev.blockSize + (readBlocks dev d - 1) := by
    refine Nat.div_eq_of_lt_le ?_ ?_
    · rw [Nat.add_mul, Nat.sub_mul, Nat.one_mul]
      omega
    · rw [Nat.succ_mul, Nat.add_mul, Nat.sub_mul, Nat.one_mul]
      omega
  rw [spannedBlocks, hend]
  omega

theorem descsLen_partBuf (c : Bool) (b : Buffer) (rest : List Buffer) :
    descsLen (partBuf c b ++ rest) = (if c then descLen b else 0) + descsLen rest := by
  cases c with
  | true => rfl
  | false => exact (Nat.zero_add _).symm

/-- The descriptors of the data buffers are as long as the blocks of the command. -/
theorem descsLen_readData (hint : dev.blockSize < 2 ^ 31)
    (hsmall : clippedBlocks dev d * dev.blockSize < 2 ^ 32) (head tail : Bytes) :
    descsLen (readData dev d head tail) = readBlocks dev d * dev.blockSize := by
  have hblock : dev.blockSize % 2 ^ 32 = dev.blockSize := Nat.mod_eq_of_lt (by omega)
  rw [readData, descsLen_partBuf, descsLen_partBuf, ← List.append_nil (partBuf _ _), descsLen_partBuf,
    readBlocks_mul, ← midStart_eq]
  have hmid : (if decide (clippedBlocks dev d > 0) = true then
      clippedBlocks dev d * dev.blockSize else 0) = clippedBlocks dev d * dev.blockSize := by
    by_cases hq : clippedBlocks dev d > 0
    · simp [hq]
    · simp [show clippedBlocks dev d = 0 by omega]
  simp only [descLen, blockBuf, userBuf, hblock, Nat.mod_eq_of_lt hsmall, hmid, descsLen, List.map_nil,
    List.sum_nil, bne_iff_ne, ite_not]
  omega

theorem readData_responses (hint : dev.blockSize < 2 ^ 31)
    (hsmall : clippedBlocks dev d * dev.blockSize < 2 ^ 32) (head tail : Bytes) :
    ∀ b ∈ readData dev d head tail, b.response = true ∧ b.size < 2 ^ 32 := by
  have hpart : ∀ {c : Bool} {b x : Buffer}, x ∈ partBuf c b → x = b := fun {c b x} hx => by
    cases c with
    | true => exact List.mem_singleton.mp hx
    | false => cases hx
  intro b hb
  rw [readData, List.mem_append, List.mem_append] at hb
  rcases hb with hb | hb | hb
  · rw [hpart hb]
    exact ⟨rfl, show dev.blockSize < 2 ^ 32 by omega⟩
  · rw [hpart hb]
    exact ⟨rfl, hsmall⟩
  · rw [hpart hb]
    exact ⟨rfl, show dev.blockSize < 2 ^ 32 by omega⟩

/-- A command that is executed in full leaves nothing of what the device may do with the rest. -/
theorem exec_read {t : Nat} {head tail : Bytes} {f : Flight} (h : ReadFlight w t io d head tail f)
    (hg : w.dev.Geometry) (hsmall : clippedBlocks w.dev d * w.dev.blockSize < 2 ^ 32) (rest : Bytes)
    (hu : u = readBlocks w.dev d * w.dev.blockSize) :
    w.exec t f (.done u rest (u + sizeofResp)) = w.execShort t f u := by
  have hcmd := commandOf_reqBuf h.bufs
  have hvbufs : setResp ⟨0, 0⟩ f.task.vbufs = readBufs w.dev d ⟨0, 0⟩ head tail := by
    rw [h.bufs]
    simp [readBufs, setResp, reqBuf, respBuf]
  have hdescs := descsLen_readData (d := d) hg.int hsmall head tail
  have hdata := readData_responses (d := d) hg.int hsmall head tail
  have hfill : ∀ src src' : Bytes, (∀ k < u, src k = src' k) →
      fillIn src false 0 (readBufs w.dev d ⟨0, 0⟩ head tail) =
        (readBufs w.dev d ⟨0, 0⟩ head tail).take 2 ++
          transferTo src' u 0 ((readBufs w.dev d ⟨0, 0⟩ head tail).drop 2) := fun src src' hsrc => by
    rw [show (readBufs w.dev d ⟨0, 0⟩ head tail).drop 2 = readData w.dev d head tail from rfl,
      ← fillIn_eq_transferTo hsrc _ hdata 0 (by omega)]
    simp [readBufs, fillIn, reqBuf, respBuf]
  have huser : ∀ (src src' m : Bytes), (∀ k < u, src k = src' k) →
      fillUser src false 0 (readBufs w.dev d ⟨0, 0⟩ head tail) m =
        transferUser src' u 0 ((readBufs w.dev d ⟨0, 0⟩ head tail).drop 2) m := fun src src' m hsrc => by
    rw [show (readBufs w.dev d ⟨0, 0⟩ head tail).drop 2 = readData w.dev d head tail from rfl,
      ← fillUser_eq_transferUser hsrc _ hdata 0 m (by omega)]
    simp [readBufs, fillUser, reqBuf, respBuf]
  simp only [World.exec, World.execShort, hcmd, hvbufs]
  rw [hfill _ _ fun k hk => if_pos hk, huser _ _ _ fun k hk => if_pos hk]

/-- The descriptor is in the output ring with the first `r` bytes from its offset on. -/
structure Delivered (v w' : World) (io : Nat) (d : AsyncIoDesc) (r : Nat) : Prop where
  pushed : (w'.ios io).state = .pushed
  retval : (w'.ios io).desc.retval = r
  bytes : ∀ k < r, (w'.ios io).desc.buf k = v.disk (d.offset + k)
  rest : ∀ k, r ≤ k → (w'.ios io).desc.buf k = d.buf k

/-- Once the command of task `t` is executed in full in some world `v`, its callback delivers
the first `r` bytes, whatever else happens before and after. -/
def Delivers (w₁ : World) (t io count r : Nat) (d : AsyncIoDesc) : Prop :=
  ∀ v rest, Untouched w₁ v t io → ∃ v₁, stepWorld v (.exec t (.done (count * v.dev.blockSize) rest
      (count * v.dev.blockSize + sizeofResp))) = some (.ok v₁) ∧
    ∀ v₂ os, Untouched v₁ v₂ t io → v₂.outring.length < outringCapacity →
      ∃ w', stepWorld v₂ (.reap t os) = some (.ok w') ∧ Delivered v w' io d r

theorem ReadFlight.delivers {w₁ : World} {t : Nat} {head tail : Bytes} {f : Flight} {r : Nat}
    (h : ReadFlight w₁ t io d head tail f) (hans : f.answered = false) (hg : w₁.dev.Geometry)
    (hpos : 0 < w₁.dev.blockSize) (hoff : d.offset < w₁.dev.cap) (hsize : d.nbytes < 2 ^ 64)
    (hr : clippedLen w₁.dev d = r) (hn : 0 < r) (hsum : firstResid w₁.dev d + r < 2 ^ 64)
    (hsmall : readBlocks w₁.dev d * w₁.dev.blockSize < 2 ^ 31) :
    Delivers w₁ t io (readBlocks w₁.dev d) r d := by
  intro v rest hv
  obtain ⟨hcover, -⟩ := readBlocks_cover hpos (hr ▸ hsum) (hr ▸ hn)
  have hflight := h.untouched hv
  have hdev := hv.dev
  rw [← hdev] at hg hpos hoff hr hsum hsmall hcover ⊢
  have hmul := readBlocks_mul v.dev d
  have hresp : sizeofResp = 108 := rfl
  refine ⟨v.execShort t f (readBlocks v.dev d * v.dev.blockSize), ?_, fun v₂ os hv₂ hspace => ?_⟩
  · rw [← exec_read hflight hg (by omega) rest rfl]
    simp only [stepWorld, hflight.flight, hans]
    rfl
  · obtain ⟨w', d', hreap, hown, -, hret, hbyte, hrest⟩ := finish_read hflight hg (Nat.le_of_lt hoff) hsize
      (by omega) hv₂ hspace os
    have hall : min (clippedLen v.dev d) (readBlocks v.dev d * v.dev.blockSize) = r := by omega
    have hparts := clipped_parts v.dev d
    rw [hall] at hret hbyte hrest
    refine ⟨w', hreap, by rw [hown], by rw [hown]; exact hret, fun k hk => ?_, fun k hk => ?_⟩
    · rw [hown]
      show d'.buf k = _
      rw [hbyte k hk, readByte_sound hpos (by omega) (Or.inr (Or.inl hcover)) _ _ _ (by omega),
        diskFrom_resid hg hoff]
    · rw [hown]
      show d'.buf k = _
      rw [hrest k hk, userAfter]
      refine Bytes.patch_outside _ _ (Or.inr ?_)
      have := Nat.mod_le (clippedBlocks v.dev d * v.dev.blockSize) (2 ^ 32)
      omega

/-- A read from within the device, of fewer than 65536 blocks and `2 ^ 31` bytes, also beyond
the end of the device: unless something fails in the submission, one command is sent; its data
descriptors are as long as its blocks; and once it is executed in full, the callback delivers
the bytes that the device has of the request. -/
theorem async_read_delivers (w : World) (io : Nat) (d : AsyncIoDesc) (hw : Vacant w io)
    (hg : w.dev.Geometry) (htype : d.type = .read) (hcap : w.dev.cap < 2 ^ 63)
    (hoff : d.offset < w.dev.cap) (hpos : 0 < d.nbytes) (hn : d.nbytes < 2 ^ 31)
    (r : Nat) (hr : r = min d.nbytes (w.dev.cap - d.offset))
    (hblocks : spannedBlocks w.dev d.offset r < 2 ^ 16)
    (hbytes : spannedBlocks w.dev d.offset r * w.dev.blockSize < 2 ^ 31) (os : List (Option Bytes)) :
    ∃ w₁, stepWorld w (.submit io d os) = some (.ok w₁) ∧
      ((w₁.returned io = some (-1) ∧ ¬ ∀ o ∈ os, o.isSome = true) ∨
        (w₁.returned io = some 0 ∧ ∃ f count, w₁.flights w.nextTask = some f ∧
          commandOf f.task = some ⟨false, d.offset / w.dev.blockSize, count⟩ ∧
          descsLen (f.task.vbufs.drop 2) = count * w.dev.blockSize ∧
          Delivers w₁ w.nextTask io count r d)) := by
  have hblock := hg.pos hoff
  have hlen : clippedLen w.dev d = r := by
    rw [hr]
    exact clip_eq (Nat.le_of_lt hoff) (by omega)
  have hfirst : firstResid w.dev d ≤ d.offset := Nat.mod_le ..
  have hsum : firstResid w.dev d + r < 2 ^ 64 := by omega
  have hrpos : 0 < r := by omega
  have hspanned := spannedBlocks_eq hblock (hlen ▸ hsum) (hlen ▸ hrpos)
  rw [hlen] at hspanned
  rw [hspanned] at hblocks hbytes
  obtain ⟨w₁, hsubmit, hdev, hpost⟩ := submit_read hw htype hblock (by omega) (Nat.le_of_lt hoff) hpos
    (by omega) os
  refine ⟨w₁, hsubmit, ?_⟩
  rcases hpost with ⟨hret, -, hfail⟩ | ⟨hret, head, tail, f, hans, hflight⟩
  · exact Or.inl ⟨hret, hfail⟩
  · have hmul := readBlocks_mul w.dev d
    have hcmd := commandOf_reqBuf hflight.bufs
    have hlba : d.offset / w.dev.blockSize < 2 ^ lbaBits w.dev := by
      apply hg.block_lt
      have := Nat.div_mul_le_self d.offset w.dev.blockSize
      omega
    rw [hdev, Nat.mod_eq_of_lt hlba, Nat.mod_eq_of_lt (lt_countBits hblocks)] at hcmd
    refine Or.inr ⟨hret, f, readBlocks w.dev d, hflight.flight, hcmd, ?_, ?_⟩
    · rw [hflight.bufs, hdev]
      exact descsLen_readData hg.int (by omega) head tail
    · rw [← hdev] at hg hblock hoff hlen hsum hbytes ⊢
      exact hflight.delivers hans hg hblock hoff (by omega) hlen hrpos hsum hbytes

/-- Twenty bytes from offset two of a device of sixteen bytes. -/
theorem async_read_delivers_clipped : ∃ w₁,
    stepWorld (init smallDev countingDisk) (.submit 0 ⟨.read, fun _ => 0, 2, 20, 0⟩ []) =
      some (.ok w₁) ∧ ∃ f, w₁.flights 0 = some f ∧
        commandOf f.task = some ⟨false, 0, 4⟩ ∧ descsLen (f.task.vbufs.drop 2) = 16 ∧
        Delivers w₁ 0 0 4 14 ⟨.read, fun _ => 0, 2, 20, 0⟩ := by
  obtain ⟨w₁, hsubmit, ⟨-, hfail⟩ | ⟨-, f, count, hf, hcmd, hlen, hdelivers⟩⟩ :=
    async_read_delivers (init smallDev countingDisk) 0 ⟨.read, fun _ => 0, 2, 20, 0⟩
      ⟨rfl, rfl, rfl⟩ ⟨by decide, by decide, by decide⟩ rfl (by decide) (by decide) (by decide)
      (by decide) 14 rfl (by decide) (by decide) []
  · exact absurd (fun o ho => nomatch ho) hfail
  · have hcheck : ((stepWorld (init smallDev countingDisk)
        (.submit 0 ⟨.read, fun _ => 0, 2, 20, 0⟩ [])).any fun s => s.toOption.any fun w₁ =>
          (w₁.flights 0).any fun f => decide (commandOf f.task = some ⟨false, 0, 4⟩)) = true := by
      decide +kernel
    rw [hsubmit] at hcheck
    simp only [Option.any_some, Except.toOption, show w₁.flights 0 = some f from hf,
      decide_eq_true_eq] at hcheck
    rw [hcheck] at hcmd
    cases hcmd
    exact ⟨w₁, hsubmit, f, hf, hcheck, hlen, hdelivers⟩

/-! ## Short transfers -/

/-- A read of `d` that is submitted in `w`, executed in `v` with a transfer of `u` bytes, and
finished with `w'`; whatever happens in between leaves it alone. -/
def ShortRead (w v w' : World) (io : Nat) (d : AsyncIoDesc) (u : Nat) : Prop :=
  ∃ os w₁ f v₂ os₂, stepWorld w (.submit io d os) = some (.ok w₁) ∧
    w₁.flights w.nextTask = some f ∧ Untouched w₁ v w.nextTask io ∧
    Untouched (v.execShort w.nextTask f u) v₂ w.nextTask io ∧
    v₂.outring.length < outringCapacity ∧ stepWorld v₂ (.reap w.nextTask os₂) = some (.ok w')

/-- The result counts only bytes that the caller's buffer has from the disk. -/
def CountsRead (v w' : World) (io offset : Nat) : Prop :=
  0 ≤ (w'.ios io).desc.retval ∧
    ∀ k < (w'.ios io).desc.retval.toNat, (w'.ios io).desc.buf k = v.disk (offset + k)

/-- Any short read ends with the bytes that the transfer and the loop leave. -/
theorem ShortRead.result {v w' : World} (h : ShortRead w v w' io d u) (hvacant : Vacant w io)
    (hg : w.dev.Geometry) (hblock : 0 < w.dev.blockSize) (htype : d.type = .read)
    (hoff : d.offset ≤ w.dev.cap) (hpos : 0 < d.nbytes) (hsize : d.nbytes < 2 ^ 64)
    (hu : u + sizeofResp < 2 ^ 32) : ∃ head tail, v.dev = w.dev ∧
      (w'.ios io).desc.retval = (min (clippedLen w.dev d) u : Nat) ∧
      ∀ k < min (clippedLen w.dev d) u,
        (w'.ios io).desc.buf k = readByte w.dev d (diskFrom v d) u head tail d.buf k := by
  obtain ⟨os, w₁, f, v₂, os₂, hsubmit, hf, hv, hv₂, hspace, hreap⟩ := h
  obtain ⟨w₁', hsubmit', hdev, hpost⟩ := submit_read hvacant htype hblock hg.cap_lt hoff hpos hsize os
  rw [hsubmit] at hsubmit'
  cases hsubmit'
  rcases hpost with ⟨-, hnone, -⟩ | ⟨-, head, tail, f', -, hflight⟩
  · rw [hnone] at hf
    cases hf
  · have heq := hflight.flight
    rw [hf] at heq
    cases heq
    have hvdev : v.dev = w.dev := hv.dev.trans hdev
    obtain ⟨w₂, d', hreap', hown, -, hret, hbyte, -⟩ := finish_read (hflight.untouched hv)
      (hvdev ▸ hg) (hvdev ▸ hoff) hsize hu hv₂ hspace os₂
    rw [hreap] at hreap'
    cases hreap'
    rw [hvdev] at hret hbyte
    rw [hown]
    exact ⟨head, tail, hvdev, hret, hbyte⟩

/-- Such a read exists: its bounce buffers hold something, and then the disk may have any
content. -/
theorem exists_shortRead (hg : dev.Geometry) (htype : d.type = .read) (hoff : d.offset < dev.cap)
    (hpos : 0 < d.nbytes) (hsize : d.nbytes < 2 ^ 64) (hu : u + sizeofResp < 2 ^ 32) :
    ∃ w head tail, w.dev = dev ∧ Vacant w 0 ∧ ∀ disk, ∃ v w', v.disk = disk ∧ v.dev = dev ∧
      ShortRead w v w' 0 d u ∧ (w'.ios 0).desc.retval = (min (clippedLen dev d) u : Nat) ∧
      ∀ k < min (clippedLen dev d) u,
        (w'.ios 0).desc.buf k = readByte dev d (diskFrom v d) u head tail d.buf k := by
  have hcap := hg.cap_lt
  have hvacant : Vacant (init dev fun _ => 0) 0 := ⟨rfl, rfl, rfl⟩
  obtain ⟨w₁, hsubmit, hdev, hpost⟩ :=
    submit_read hvacant htype (hg.pos hoff) hcap (Nat.le_of_lt hoff) hpos hsize []
  rcases hpost with ⟨-, -, hfail⟩ | ⟨-, head, tail, f, -, hflight⟩
  · exact absurd (fun o ho => nomatch ho) hfail
  refine ⟨_, head, tail, rfl, hvacant, fun disk => ?_⟩
  have hempty : ([] : List Nat).length < outringCapacity := by decide
  obtain ⟨v, hdisk, hvdev, hv⟩ : ∃ v : World, v.disk = disk ∧ v.dev = dev ∧ Untouched w₁ v 0 0 :=
    ⟨{ w₁ with disk := disk }, rfl, hdev, ⟨rfl, rfl, rfl, rfl⟩⟩
  have hv₂ : Untouched (v.execShort 0 f u) { v.execShort 0 f u with outring := [] } 0 0 :=
    ⟨rfl, rfl, rfl, rfl⟩
  obtain ⟨w', d', hreap, hown, -, hret, hbyte, -⟩ := finish_read (hflight.untouched hv)
    (hvdev.symm ▸ hg) (hvdev.symm ▸ Nat.le_of_lt hoff) hsize hu hv₂ hempty []
  rw [hvdev] at hret hbyte
  refine ⟨v, w', hdisk, hvdev,
    ⟨[], w₁, f, _, [], hsubmit, hflight.flight, hv, hv₂, hempty, hreap⟩, ?_⟩
  rw [hown]
  exact ⟨hret, hbyte⟩

theorem SameRequest.clippedLen {d' : AsyncIoDesc} (h : SameRequest d d') :
    clippedLen dev d' = clippedLen dev d := by
  rw [Dev.clippedLen, Dev.clippedLen, h.offset, h.nbytes]

theorem SameRequest.shortSafe {d' : AsyncIoDesc} (h : SameRequest d d') (hsafe : ShortSafe dev d u) :
    ShortSafe dev d' u := by
  unfold ShortSafe at hsafe ⊢
  rw [h.clippedLen, h.offset]
  exact hsafe

/-- A read after which the device reports a transfer of `u` bytes: the result never counts a
byte that was not read, whatever the disk and the buffers hold, exactly if nothing was
transferred, the transfer goes on to the end of the request, or the request begins with a
block. -/
theorem short_read_counts_iff (dev : VirtioDev) (hg : dev.Geometry) (d : AsyncIoDesc)
    (htype : d.type = .read) (hoff : d.offset < dev.cap) (hpos : 0 < d.nbytes)
    (hsize : d.nbytes < 2 ^ 64) (u : Nat) (hu : u + sizeofResp < 2 ^ 32) :
    (∀ w v w' io d', w.dev = dev → Vacant w io → SameRequest d d' → ShortRead w v w' io d' u →
      CountsRead v w' io d.offset) ↔ ShortSafe dev d u := by
  have hcap := hg.cap_lt
  have hblock := hg.pos hoff
  have hresp : sizeofResp = 108 := rfl
  constructor
  · intro hcounts
    refine by_contra fun hshort => ?_
    have hlen : 0 < clippedLen dev d := by
      unfold clippedLen clipToCap
      split
      · omega
      · exact hpos
    obtain ⟨w, head, tail, hdev, hvacant, hreads⟩ := exists_shortRead (u := u) hg htype hoff hpos
      hsize hu
    obtain ⟨k, hk, v, hv⟩ := readByte_untouched hblock hlen (by omega) hshort head tail d.buf
    obtain ⟨v₁, w', hdisk, -, hread, hret, hbyte⟩ := hreads fun _ => if v = 0 then 1 else 0
    obtain ⟨-, hsame⟩ := hcounts w v₁ w' 0 d hdev hvacant ⟨rfl, rfl, rfl⟩ hread
    rw [hret, Int.toNat_natCast] at hsame
    have hbad := hsame k hk
    rw [hbyte k hk, hv, hdisk] at hbad
    dsimp only at hbad
    split at hbad
    · next hz =>
        rw [hz] at hbad
        exact absurd hbad (by decide)
    · next hne => exact hne hbad
  · intro hsafe w v w' io d' hdev hvacant hreq hread
    subst hdev
    obtain ⟨head, tail, hvdev, hret, hbyte⟩ := hread.result hvacant hg hblock (hreq.type.trans htype)
      (hreq.offset ▸ Nat.le_of_lt hoff) (hreq.nbytes ▸ hpos) (hreq.nbytes ▸ hsize) hu
    refine ⟨by rw [hret]; exact Int.natCast_nonneg _, fun k hk => ?_⟩
    rw [hret, Int.toNat_natCast] at hk
    rw [hbyte k hk, readByte_sound hblock (by omega) (hreq.shortSafe hsafe) _ _ _ hk]
    rw [← hvdev] at hg hoff ⊢
    rw [diskFrom_resid hg (hreq.offset ▸ hoff), hreq.offset]

def readDesc (offset nbytes : Nat) : AsyncIoDesc := ⟨.read, fun _ => 0, offset, nbytes, 0⟩

/-- A read on a small device that is executed at once, and then finished. -/
def shortRun (d : AsyncIoDesc) (u : Nat) (p : World → World → Bool) : Bool :=
  (stepWorld (init smallDev countingDisk) (.submit 0 d [])).any fun s => s.toOption.any fun w =>
    (w.flights 0).any fun f => decide ((w.execShort 0 f u).outring.length < outringCapacity) &&
      (stepWorld (w.execShort 0 f u) (.reap 0 [])).any fun s => s.toOption.any (p w)

theorem toOption_eq_some {ε α : Type} {s : Except ε α} {a : α} (h : s.toOption = some a) :
    s = .ok a := by
  cases s with
  | ok b =>
      cases h
      rfl
  | error e => cases h

theorem shortRead_of_run {d : AsyncIoDesc} {u : Nat} {p : World → World → Bool}
    (h : shortRun d u p = true) :
    ∃ v w', ShortRead (init smallDev countingDisk) v w' 0 d u ∧ p v w' = true := by
  simp only [shortRun, Option.any_eq_true, Bool.and_eq_true, decide_eq_true_eq] at h
  obtain ⟨s, hsubmit, w, hw, f, hf, hspace, s', hreap, w', hw', hp⟩ := h
  rw [toOption_eq_some hw] at hsubmit
  rw [toOption_eq_some hw'] at hreap
  exact ⟨w, w', ⟨[], w, f, _, [], hsubmit, hf, ⟨rfl, rfl, rfl, rfl⟩, ⟨rfl, rfl, rfl, rfl⟩, hspace,
    hreap⟩, hp⟩

/-- Six bytes from the start of a block, of which five are transferred. -/
theorem short_read_counts_iff_aligned : ∃ v w',
    ShortRead (init smallDev countingDisk) v w' 0 (readDesc 4 6) 5 ∧ CountsRead v w' 0 4 ∧
      (w'.ios 0).desc.retval = 5 := by
  obtain ⟨v, w', hread, hret⟩ := shortRead_of_run (d := readDesc 4 6) (u := 5)
    (p := fun _ w' => decide ((w'.ios 0).desc.retval = 5)) (by decide +kernel)
  have hsafe : ShortSafe smallDev (readDesc 4 6) 5 := Or.inr (Or.inr (by decide))
  have hcounts := (short_read_counts_iff smallDev ⟨by decide, by decide, by decide⟩ (readDesc 4 6) rfl
    (by decide) (by decide) (by decide) 5 (by decide)).mpr hsafe
  exact ⟨v, w', hread, hcounts _ v w' 0 _ rfl ⟨rfl, rfl, rfl⟩ ⟨rfl, rfl, rfl⟩ hread, of_decide_eq_true hret⟩

/-- Two bytes from the middle of a block, and the two bytes before them are transferred: the
result counts two bytes, and the buffer has none of them. -/
theorem short_read_counts_skipped : ∃ v w',
    ShortRead (init smallDev countingDisk) v w' 0 (readDesc 2 2) 2 ∧
      (w'.ios 0).desc.retval = 2 ∧ ¬ CountsRead v w' 0 2 := by
  obtain ⟨v, w', hread, hcheck⟩ := shortRead_of_run (d := readDesc 2 2) (u := 2)
    (p := fun v w' => decide ((w'.ios 0).desc.retval = 2 ∧ (w'.ios 0).desc.buf 0 ≠ v.disk 2))
    (by decide +kernel)
  obtain ⟨hret, hbyte⟩ := of_decide_eq_true hcheck
  refine ⟨v, w', hread, hret, fun hcounts => hbyte (hcounts.2 0 ?_)⟩
  rw [hret]
  decide

end VhostUser.Dev
