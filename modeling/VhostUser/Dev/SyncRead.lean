import VhostUser.Dev.SyncSpec

/-! # What a synchronous read returns

The result of `read_virtio_dev` never counts a byte that was not read, whatever the
device fails or transfers only in part, and it counts all of them if everything is
transferred.
-/

namespace VhostUser.Dev

open VhostUser.Lib Prog

variable {w v : World} {calm : Prop} {device : Device} {io : Nat}

/-- A copy changes the caller's buffer only, and depends on the bytes that are copied. -/
theorem memcpyUser_ios {v' : World} (hios : v'.ios = v.ios) {pos len : Nat} {src src' : Bytes}
    (hsrc : ∀ k < len, src k = src' k) :
    (v'.memcpyUser io pos len src).ios = (v.memcpyUser io pos len src').ios := by
  simp only [World.memcpyUser, World.setIo, hios, Bytes.patch_congr _ hsrc]

theorem runs_readPartial (hfresh : v.Fresh) (hok : v.dev.Ok) (hd : device.Honest v.dev)
    {lba off pos n : Nat} (hlba : lba < 2 ^ lbaBits v.dev) (hoff : off ≤ v.dev.blockSize)
    (hn : off + n < 2 ^ 64) {Q : Int → World → Prop}
    (hfail : ∀ w', w'.ios = v.ios → (device.Full v.dev → w'.failed = true) → Q (-1) w')
    (hdone : ∀ w', Served v w' 1 → w'.disk = v.disk →
      w'.ios = (v.memcpyUser io pos (min n (v.dev.blockSize - off)) fun k =>
        v.disk (lba * v.dev.blockSize + off + k)).ios →
      Q (min n (v.dev.blockSize - off) : Nat) w') :
    Runs calm (readPartialBlock device io lba off pos n) Q v := by
  have hint := hok.int
  have hclip := clipToBlock_eq hok hoff hn
  refine wpIf_bind (runs_allocBounceBuf fun m => wpIf_bind (wpIf_state (wpIf_bind ?_)))
  refine runs_readBlock hfresh hok hd hlba ?_ ?_
  · intro buf' w' hmissed _
    refine wpIf_ite (fun _ => wpIf_pure (hfail w' hmissed.ios fun _ => hmissed.failed)) fun hne => ?_
    omega
  · intro transferred rest used w' hdev hle hserved hdisk hios
    refine wpIf_ite (fun hne => wpIf_pure (hfail w' hios fun hfull => ?_)) fun heq => ?_
    · have hall := hfull _ _ _ _ _ _ hdev
      omega
    · have hall : transferred = v.dev.blockSize := by omega
      subst hall
      refine wpIf_bind (wpIf_state (wpIf_bind (wpIf_update (wpIf_pure ?_))))
      rw [hclip, toInt_eq (by omega) (by omega)]
      refine hdone _ ⟨hserved.dev, hserved.flights, hserved.next, hserved.failed⟩ hdisk ?_
      refine memcpyUser_ios hios fun k hk => ?_
      simp only [World.bytes]
      rw [Bytes.patch_inside _ _ (Nat.zero_le _) (by omega), Nat.sub_zero, readSrc, if_pos (by omega),
        Nat.add_assoc]

/-- After a call that was to read `n` bytes from `off` on and returned `r`. -/
structure ReadBack (device : Device) (w : World) (io off n : Nat) (r : Int) (w' : World) : Prop where
  /-- every byte that is counted was read -/
  sound : 0 ≤ r → r ≤ n ∧ ∀ k < r.toNat, (w'.ios io).desc.buf k = w.disk (off + k)
  /-- and every byte is counted if no transfer was short and nothing failed -/
  complete : device.Full w.dev → w'.failed = false → r = n

structure ReadSoFar (w : World) (io off p : Nat) (v : World) : Prop where
  dev : v.dev = w.dev
  disk : v.disk = w.disk
  fresh : v.Fresh
  bytes : ∀ k < p, (v.ios io).desc.buf k = w.disk (off + k)

section Phases

variable {off n p blk : Nat}

theorem ReadSoFar.partly (h : ReadSoFar w io off p v) {w' : World} (hios : w'.ios = v.ios) {r : Int}
    (hr : r = p) (hp : p ≤ n) (hcomplete : device.Full w.dev → w'.failed = false → p = n) :
    ReadBack device w io off n r w' := by
  refine ⟨fun _ => ⟨by omega, fun k hk => ?_⟩, fun hfull hfail => ?_⟩
  · rw [hios]
    exact h.bytes k (by omega)
  · rw [hr, hcomplete hfull hfail]

theorem ReadBack.failed {w' : World} (h : device.Full w.dev → w'.failed = true) :
    ReadBack device w io off n (-1) w' := by
  refine ⟨fun hneg => absurd hneg (by decide), fun hfull hfail => ?_⟩
  rw [h hfull] at hfail
  cases hfail

theorem ReadSoFar.next {w' : World} {len : Nat} (h : ReadSoFar w io off p v)
    (hserved : Served v w' 1) (hdisk : w'.disk = v.disk) {src : Bytes}
    (hios : w'.ios = (v.memcpyUser io p len src).ios) {q : Nat} (hq : q ≤ len)
    (hsrc : ∀ k < q, src k = w.disk (off + p + k)) : ReadSoFar w io off (p + q) w' := by
  refine ⟨hserved.dev.trans h.dev, hdisk.trans h.disk, hserved.fresh h.fresh, fun k hk => ?_⟩
  have hbuf : (w'.ios io).desc.buf = (v.ios io).desc.buf.patch p len src := by
    rw [hios]
    simp [World.memcpyUser, World.setIo]
  rw [hbuf]
  by_cases hkp : k < p
  · rw [Bytes.patch_outside _ _ (Or.inl hkp)]
    exact h.bytes k hkp
  · rw [Bytes.patch_inside _ _ (by omega) (by omega), hsrc _ (by omega)]
    congr 1
    omega

theorem runs_readTail (h : ReadSoFar w io off p v) (hg : w.dev.Geometry) (hok : w.dev.Ok)
    (hd : device.Honest w.dev) (hstart : blk * w.dev.blockSize = off + p) (hp : p ≤ n)
    (hlast : n - p < w.dev.blockSize) (hcap : off + n ≤ w.dev.cap) (hn : n < 2 ^ 31) :
    Runs calm (readTail device io blk p n) (ReadBack device w io off n) v := by
  have hdev := h.dev
  refine wpIf_bind (wpIf_state ?_)
  rw [hdev, subSize_eq hp (by omega), Nat.mod_eq_of_lt hlast]
  refine wpIf_ite (fun hne => ?_) fun heq => wpIf_pure ?_
  · have hlba : blk < 2 ^ lbaBits w.dev := hg.block_lt (by omega)
    refine wpIf_bind (runs_readPartial h.fresh (hdev ▸ hok) (hdev ▸ hd) (hdev ▸ hlba)
      (Nat.zero_le _) (by omega) ?_ ?_)
    · intro w' _ hfail
      exact wpIf_ite (fun _ => wpIf_pure (.failed (hdev ▸ hfail))) fun hneg => absurd (by decide) hneg
    · intro w' hserved hdisk hios
      rw [hdev, Nat.sub_zero, Nat.min_eq_left (by omega)] at hios ⊢
      have hnext := h.next (q := n - p) hserved hdisk hios (Nat.le_refl _) fun k _ => by
        rw [h.disk, hstart, Nat.add_zero]
      refine wpIf_ite (fun hneg => absurd hneg (by omega)) fun _ => wpIf_pure ?_
      rw [toSize_eq (by omega) (by omega), addSize_eq (by omega), toInt_eq (by omega) (by omega)]
      have hall : p + (n - p) = n := by omega
      rw [hall] at hnext
      refine hnext.partly rfl ?_ (Nat.le_refl _) fun _ _ => rfl
      omega
  · rw [toInt_eq (by omega) (by omega)]
    exact h.partly rfl rfl hp fun _ _ => by omega

theorem runs_readRest (h : ReadSoFar w io off p v) (hg : w.dev.Geometry) (hok : w.dev.Ok)
    (hd : device.Honest w.dev) (hstart : blk * w.dev.blockSize = off + p) (hp : p ≤ n)
    (hcap : off + n ≤ w.dev.cap) (hn : n < 2 ^ 31) (hblocks : n / w.dev.blockSize < 2 ^ 16) :
    Runs calm (readRest device io blk p n) (ReadBack device w io off n) v := by
  have hdev := h.dev
  have hcapLt := hok.cap
  have hrest := Nat.mod_add_div' (n - p) w.dev.blockSize
  have hmod := Nat.mod_lt (n - p) hok.pos
  refine wpIf_bind (wpIf_state ?_)
  dsimp only
  rw [hdev, subSize_eq hp (by omega)]
  generalize hq : (n - p) / w.dev.blockSize = q at hrest ⊢
  refine wpIf_ite (fun hpos => ?_) fun hzero => ?_
  · have hlba : blk < 2 ^ lbaBits w.dev := hg.block_lt (by
      have := Nat.mul_le_mul_right w.dev.blockSize hpos
      omega)
    have hcount : q < 2 ^ 16 := by
      rw [← hq]
      exact Nat.lt_of_le_of_lt (Nat.div_le_div_right (Nat.sub_le ..)) hblocks
    have hsize : mulSize q w.dev.blockSize = q * w.dev.blockSize := mulSize_eq (by omega)
    have hcmd : (⟨false, blk, q⟩ : RwCommand) =
        ⟨false, blk % 2 ^ lbaBits v.dev, q % 2 ^ countBits v.dev⟩ := by
      rw [hdev, Nat.mod_eq_of_lt hlba, Nat.mod_eq_of_lt (lt_countBits hcount)]
    refine wpIf_bind (runs_blkRead h.fresh ⟨false, blk, q⟩ hcmd hd.failed ?_ ?_ ?_)
    · intro transferred rest used hans
      obtain ⟨hle, rfl⟩ := hd.read _ _ _ _ _ _ hans
      rw [usedBytes_eq (by omega)]
      exact Int.natCast_nonneg _
    · intro buf' w' hmissed _
      refine wpIf_ite (fun _ => wpIf_pure ?_) fun hneg => absurd (show (-1 : Int) < 0 by decide) hneg
      rw [toInt_eq (by omega) (by omega)]
      refine h.partly hmissed.ios rfl hp fun _ hfail => ?_
      rw [hmissed.failed] at hfail
      cases hfail
    · intro transferred rest used w' hans hserved hdisk hios
      obtain ⟨hle, rfl⟩ := hd.read _ _ _ _ _ _ hans
      rw [hdev, hsize] at hios
      have hnext := h.next (q := transferred) hserved hdisk hios hle fun k hk => by
        rw [readSrc, if_pos hk, h.disk, hdev, hstart]
      rw [usedBytes_eq (by omega), hsize, toSize_eq (by omega) (by omega), Int.toNat_natCast,
        addSize_eq (by omega)]
      refine wpIf_ite (fun hneg => absurd hneg (by omega)) fun _ => ?_
      refine wpIf_ite (fun hshort => wpIf_pure ?_) fun hall => ?_
      · rw [toInt_eq (by omega) (by omega)]
        refine hnext.partly rfl rfl (by omega) fun hfull _ => ?_
        have := hfull _ _ _ _ _ _ hans
        omega
      · have hall : transferred = q * w.dev.blockSize := by omega
        have hblk := Nat.le_mul_of_pos_right (blk + q) hok.pos
        rw [Nat.add_mul] at hblk
        rw [addSize_eq (by omega)]
        refine runs_readTail hnext hg hok hd ?_ (by omega) (by omega) hcap hn
        rw [Nat.add_mul]
        omega
  · have hq0 : q = 0 := by omega
    rw [hq0] at hrest
    exact runs_readTail h hg hok hd hstart hp (by omega) hcap hn

end Phases

theorem runs_readVirtioDev (hfresh : w.Fresh) (hg : w.dev.Geometry) (hpos : 0 < w.dev.blockSize)
    (hd : device.Honest w.dev) (hcap : w.dev.cap < 2 ^ 63) {off nbytes : Nat}
    (hoff : off ≤ w.dev.cap) (hn : nbytes < 2 ^ 31) (hblocks : nbytes / w.dev.blockSize < 2 ^ 16) :
    Runs calm (readVirtioDev device io off nbytes)
      (ReadBack device w io off (min nbytes (w.dev.cap - off))) w := by
  have hok : w.dev.Ok := ⟨hpos, hg.int, by omega⟩
  have hint := hok.int
  have hstart : ReadSoFar w io off 0 w := ⟨rfl, rfl, hfresh, fun k hk => absurd hk (by omega)⟩
  refine wpIf_bind (wpIf_state (wpIf_ite (fun hbig => absurd hoff (by omega)) fun _ =>
    wpIf_ite (fun hzero => wpIf_pure ?_) fun hne => ?_))
  · exact hstart.partly rfl rfl (Nat.zero_le _) fun _ _ => by omega
  dsimp only
  rw [clip_eq hoff (by omega)]
  generalize hlen : min nbytes (w.dev.cap - off) = n
  have hnblk : n / w.dev.blockSize < 2 ^ 16 :=
    Nat.lt_of_le_of_lt (Nat.div_le_div_right (by omega)) hblocks
  have hblock : off / w.dev.blockSize * w.dev.blockSize + off % w.dev.blockSize = off :=
    Nat.div_add_mod' ..
  have hmod := Nat.mod_lt off hpos
  have hdiv := Nat.div_le_self off w.dev.blockSize
  refine wpIf_bind (calls_divideBy hpos (wpIf_ite (fun hresid => ?_) fun haligned => ?_))
  · refine wpIf_bind (runs_readPartial hfresh hok hd (hg.block_lt (by omega)) (by omega) (by omega)
      ?_ ?_)
    · intro w' _ hfail
      exact wpIf_ite (fun _ => wpIf_pure (.failed hfail)) fun hneg =>
        absurd (show (-1 : Int) < 0 by decide) hneg
    · intro w' hserved hdisk hios
      have hnext := hstart.next hserved hdisk hios (Nat.le_refl _) fun k _ => by
        rw [hblock, Nat.add_zero]
      rw [Nat.zero_add] at hnext
      refine wpIf_ite (fun hneg => absurd hneg (by omega)) fun _ => ?_
      refine wpIf_ite (fun hshort => wpIf_pure ?_) fun hall => ?_
      · exact hnext.partly rfl rfl (Nat.min_le_left ..) fun _ _ => by omega
      · have hfill : min n (w.dev.blockSize - off % w.dev.blockSize) =
            w.dev.blockSize - off % w.dev.blockSize := by omega
        rw [hfill] at hnext ⊢
        rw [toSize_eq (by omega) (by omega), Int.toNat_natCast, addSize_eq (by omega)]
        refine runs_readRest hnext hg hok hd ?_ (by omega) (by omega) (by omega) hnblk
        rw [Nat.add_mul]
        omega
  · refine runs_readRest hstart hg hok hd (by omega) (Nat.zero_le _) (by omega) (by omega) hnblk


/-- A read of `nbytes` from an offset within the device, on any device that fails commands
or transfers a prefix: the result counts only bytes that were read, and all of the request
that lies within the device if no transfer is short and nothing fails. Only a failed
allocation can keep the call from returning. -/
theorem read_counts_transferred (device : Device) (w : World) (hw : w.Fresh)
    (hg : w.dev.Geometry) (hpos : 0 < w.dev.blockSize) (hcap : w.dev.cap < 2 ^ 63)
    (hd : device.Honest w.dev) (io offset nbytes : Nat) (hoff : offset ≤ w.dev.cap)
    (hn : nbytes < 2 ^ 31) (hblocks : nbytes / w.dev.blockSize < 2 ^ 16) :
    (∀ os r w' os', readVirtioDev device io offset nbytes (w, os) = .ok (r, w', os') →
      ReadBack device w io offset (min nbytes (w.dev.cap - offset)) r w') ∧
    ∀ os : List (Option Bytes), (∀ o ∈ os, o.isSome = true) →
      ∃ r w' os', readVirtioDev device io offset nbytes (w, os) = .ok (r, w', os') := by
  constructor
  · intro os r w' os' hrun
    have hspec : Runs False (readVirtioDev device io offset nbytes) _ w :=
      runs_readVirtioDev hw hg hpos hd hcap hoff hn hblocks
    exact hspec.result (fun _ _ => False.elim) hrun
  · intro os hos
    have hspec : Runs True (readVirtioDev device io offset nbytes) _ w :=
      runs_readVirtioDev hw hg hpos hd hcap hoff hn hblocks
    obtain ⟨r, w', os', hrun, -⟩ := hspec.ends (not_not_intro trivial) fun o ho _ => hos o ho
    exact ⟨r, w', os', hrun⟩

def shortDevice : Device := fun _ cmd =>
  .done (cmd.elim 0 fun c => min (c.count * 4) 5) (fun _ => 0)
    (cmd.elim 0 fun c => min (c.count * 4) 5 + sizeofResp)

theorem shortDevice_honest : shortDevice.Honest smallDev := by
  refine ⟨fun t cmd resp used h => ?_, fun t lba count transferred rest used h => ?_⟩
  · cases h
  · cases h
    exact ⟨Nat.min_le_left .., rfl⟩

/-- Eleven bytes from offset two: the first block is transferred, of the next two only five bytes. -/
theorem read_counts_transferred_short : ∃ w' os',
    readVirtioDev shortDevice 0 2 11 (init smallDev countingDisk, []) = .ok (7, w', os') ∧
      ReadBack shortDevice (init smallDev countingDisk) 0 2 11 7 w' := by
  have hread := read_counts_transferred shortDevice (init smallDev countingDisk) (fun _ _ => rfl)
    ⟨by decide, by decide, by decide⟩ (by decide) (by decide) shortDevice_honest 0 2 11 (by decide)
    (by decide) (by decide)
  obtain ⟨r, w', os', hrun⟩ := hread.2 [] (fun o ho => nomatch ho)
  have hr : r = 7 := by
    have hcheck : (readVirtioDev shortDevice 0 2 11 (init smallDev countingDisk, [])).toOption.any
        (fun x => decide (x.1 = 7)) = true := by decide +kernel
    rw [hrun] at hcheck
    exact of_decide_eq_true hcheck
  subst hr
  exact ⟨w', os', hrun, hread.1 [] 7 w' os' hrun⟩

end VhostUser.Dev
