import VhostUser.Dev.SyncWrite
import VhostUser.Dev.Writes

/-! # Bytes that no write is for

A partial block is written back with the bytes around the request, as they were read.
The synchronous path refuses to write back a block that was not transferred as a whole.
The asynchronous path looks at the status alone: after a short transfer it writes back
what happened to be in the buffer. A byte outside all requests keeps its value in every
run in which each block that is read for a write comes with the bytes around it.

The invariant is about one such byte. It says nothing of the size of the requests: a
command that is cut off stays within the blocks of its request.
-/

namespace VhostUser.Dev

open VhostUser.Lib

variable {w w' : World} {dev : VirtioDev} {disk : Bytes} {d : AsyncIoDesc} {x : Nat} {v : UInt8}

def Beyond (x : Nat) (d : AsyncIoDesc) : Prop := x < d.offset ∨ d.offset + d.nbytes ≤ x

instance (x : Nat) (d : AsyncIoDesc) : Decidable (Beyond x d) := inferInstanceAs (Decidable (_ ∨ _))

/-! ## Synchronous writes -/

/-- No exit of a synchronous write has touched the byte, whatever was short or failed. -/
theorem WriteExit.beyond {calm : Prop} {device : Device} {r : Int}
    (h : WriteExit calm device w d r w') (hx : Beyond x d) : w'.disk x = w.disk x := by
  have hhead := headLen_le w.dev d
  have hbody := bodyLen_le w.dev d
  have hcount : (bodyCommand w d).count * w.dev.blockSize ≤ midBlocks w.dev d * w.dev.blockSize :=
    Nat.mul_le_mul_right _ (Nat.mod_le ..)
  have hlen : bodyLen w.dev d = headLen w.dev d + midBlocks w.dev d * w.dev.blockSize := rfl
  have hheadDisk : headDisk w d x = w.disk x := by
    unfold Beyond at hx
    exact Bytes.patch_outside _ _ (by omega)
  have hbodyDisk : bodyDisk w d x = w.disk x := by
    unfold Beyond at hx
    rw [bodyDisk, Bytes.patch_outside _ _ (by omega), hheadDisk]
  cases h with
  | nothing hzero => rfl
  | headFailed _ hdisk => rw [hdisk]
  | bodyFailed _ _ hdisk => rw [hdisk, hheadDisk]
  | bodyNarrowed _ _ _ _ _ _ hdisk => rw [hdisk, hbodyDisk]
  | tailFailed _ _ _ _ hdisk => rw [hdisk, hbodyDisk]
  | stored _ _ _ _ _ hdisk =>
      unfold Beyond at hx
      rw [hdisk, tailDisk, Bytes.patch_outside _ _ (by omega), hbodyDisk]

/-! ## The chains of asynchronous writes -/

/-- The block that a command carries has the byte as it was. -/
def CarriesByte (x : Nat) (v : UInt8) (dev : VirtioDev) (d : AsyncIoDesc) (f : Flight) : Prop :=
  ∀ r m, f.task.vbufs = writeBufs dev d r m f.cb → holdsBlock dev d f.cb f.answered = true →
    (f.answered = true → r.good = true) → ∀ k < dev.blockSize,
      cmdBlock dev d f.cb * dev.blockSize + k = x → m k = v

/-- The byte has its value on the disk and in every copy that will be written back. -/
structure Spared (x : Nat) (v : UInt8) (w : World) : Prop where
  byte : w.disk x = v
  beyond : ∀ t f, w.flights t = some f → (w.ios f.io).desc.type = .write → Beyond x (w.ios f.io).desc
  copy : ∀ t f, w.flights t = some f → (w.ios f.io).desc.type = .write →
    CarriesByte x v w.dev (w.ios f.io).desc f

theorem Spared.proceed (h : Spared x v w) (io : Nat) (hdev : w'.dev = w.dev)
    (hbyte : w'.disk x = v)
    (hother : ∀ t f, w'.flights t = some f → f.io ≠ io → w.flights t = some f ∧ w'.ios f.io = w.ios f.io)
    (hown : ∀ t f, w'.flights t = some f → f.io = io → (w'.ios io).desc.type = .write →
      Beyond x (w'.ios io).desc ∧ CarriesByte x v w.dev (w'.ios io).desc f) : Spared x v w' := by
  refine ⟨hbyte, fun t f hf htype => ?_, fun t f hf htype => ?_⟩
  · by_cases heq : f.io = io
    · rw [heq] at htype ⊢
      exact (hown t f hf heq htype).1
    · obtain ⟨hf, hios⟩ := hother t f hf heq
      rw [hios] at htype ⊢
      exact h.beyond t f hf htype
  · rw [hdev]
    by_cases heq : f.io = io
    · rw [heq] at htype ⊢
      exact (hown t f hf heq htype).2
    · obtain ⟨hf, hios⟩ := hother t f hf heq
      rw [hios] at htype ⊢
      exact h.copy t f hf htype

/-! ## The device -/

/-- Each block that is read for a write comes with the bytes around the request: they are
transferred, or are in the buffer already. -/
def ReadsAround (w : World) : Event → Prop
  | .exec t (.done transferred rest _) =>
      match w.flights t with
      | some f => f.cb ≠ .blkReadDone → f.cb.isWrite = false → ∀ k < w.dev.blockSize,
          Beyond (cmdBlock w.dev (w.ios f.io).desc f.cb * w.dev.blockSize + k) (w.ios f.io).desc →
            k < transferred ∨
              rest k = w.disk (cmdBlock w.dev (w.ios f.io).desc f.cb * w.dev.blockSize + k)
      | none => True
  | .exec _ (.failed resp _) => resp.good = false
  | _ => True

/-- A write command leaves the byte alone, if the copy of its block has it. -/
theorem written_spared {r : VirtioScsiCmdResp} {m : Bytes} (hg : dev.Geometry) (hd : InRange dev d)
    {cb : TaskCb} (hcb : cb.isWrite = true) (hpart : partExists dev d cb) {bytes : BufPtr → Bytes}
    (hdata : ∀ m, bytes (.data m) = m) (hx : Beyond x d) (hbyte : disk x = v)
    (hcopy : holdsBlock dev d cb false = true → ∀ k < dev.blockSize,
      cmdBlock dev d cb * dev.blockSize + k = x → m k = v) :
    disk.patch (cmdBlock dev d cb % 2 ^ lbaBits dev * dev.blockSize)
      (cmdBlocks dev d cb % 2 ^ countBits dev * dev.blockSize)
      (gather bytes (dataOut (writeBufs dev d r m cb))) x = v := by
  rw [Nat.mod_eq_of_lt (lba_lt dev hg.size (Nat.le_refl 1) (cmdBlock_lt hg hd hpart))]
  have hcount : cmdBlocks dev d cb % 2 ^ countBits dev * dev.blockSize ≤
      cmdBlocks dev d cb * dev.blockSize := Nat.mul_le_mul_right _ (Nat.mod_le ..)
  generalize cmdBlocks dev d cb % 2 ^ countBits dev * dev.blockSize = len at hcount ⊢
  by_cases hin : cmdBlock dev d cb * dev.blockSize ≤ x ∧
      x < cmdBlock dev d cb * dev.blockSize + len
  · rw [Bytes.patch_inside _ _ hin.1 hin.2]
    unfold Beyond at hx
    cases cb with
    | blkReadDone => cases hcb
    | blkReadFirstBlockDone => cases hcb
    | blkReadLastBlockDone => cases hcb
    | blkWriteLastBlockDone =>
        rw [show cmdBlocks dev d .blkWriteLastBlockDone = 1 from rfl, Nat.one_mul] at hcount
        have hk : x - cmdBlock dev d .blkWriteLastBlockDone * dev.blockSize < dev.blockSize := by omega
        have hbufs : dataOut (writeBufs dev d r m .blkWriteLastBlockDone) =
            [blockBuf dev m false 0 (lastResid dev d)] := rfl
        rw [hbufs, gather_block hdata hk]
        exact hcopy rfl _ hk (by omega)
    | blkWriteFullBlocksDone =>
        have hfirst : cmdBlock dev d .blkWriteFullBlocksDone * dev.blockSize + firstResid dev d =
            d.offset := first_block dev d
        have hlt := firstResid_lt (d := d) hd.ok
        by_cases hr : firstResid dev d = 0
        · have hmid := mid_mul_le dev d
          rw [cmdBlocks_body, if_pos hr, Nat.add_zero] at hcount
          omega
        · by_cases hk : x - cmdBlock dev d .blkWriteFullBlocksDone * dev.blockSize < dev.blockSize
          · have hbufs : ∃ rest, dataOut (writeBufs dev d r m .blkWriteFullBlocksDone) =
                blockBuf dev m false (firstResid dev d) (firstResid dev d + headLen dev d) :: rest := by
              simp only [writeBufs, bodyWriteBufs, if_neg hr]
              split
              · exact ⟨_, rfl⟩
              · exact ⟨_, rfl⟩
            obtain ⟨rest, hbufs⟩ := hbufs
            rw [hbufs, gather_block hdata hk]
            exact hcopy (by simp [holdsBlock, hr]) _ hk (by omega)
          · -- a command for more than the first block ends within the request
            rcases body_end (d := d) hd.ok with hone | hend
            · rw [hone, Nat.one_mul] at hcount
              omega
            · have hcmd : cmdBlock dev d .blkWriteFullBlocksDone = d.offset / dev.blockSize := rfl
              rw [← hcmd] at hend
              omega
  · rw [Bytes.patch_outside _ _ (by omega)]
    exact hbyte

section Steps

variable {t : Nat} {f : Flight}

theorem flights_answer {vbufs : List Buffer} {usedBytes y : Nat} {g : Flight} (hc : Chains w)
    (hf : w.flights t = some f)
    (hg : (w.answer t f vbufs usedBytes).flights y = some g) :
    (g.io ≠ f.io → w.flights y = some g) ∧ (g.io = f.io → g = { f with
      task := { f.task with vbufs := vbufs, usedBytes := usedBytes % 2 ^ 32 }, answered := true }) := by
  have hg : Function.update w.flights t _ y = some g := hg
  by_cases hy : y = t
  · rw [hy, Function.update_self] at hg
    cases hg
    exact ⟨fun hne => absurd rfl hne, fun _ => rfl⟩
  · rw [Function.update_of_ne hy] at hg
    exact ⟨fun _ => hg, fun heq => absurd (hc.one y g t f hg hf heq) hy⟩

theorem Spared.executed (h : Spared x v w) (hc : Chains w) (hgeo : w.dev.Geometry)
    (hf : w.flights t = some f) (hans : f.answered = false) {a : Answer}
    (he : Executed w t f a w') (haround : ReadsAround w (.exec t a)) : Spared x v w' := by
  cases he with
  | read a vbufs buf usedBytes failed hcb hbufs hfail =>
      refine h.proceed f.io rfl h.byte (fun y g hg hne => ?_) fun y g hg heq htype => ?_
      · exact ⟨(flights_answer hc hf hg).1 hne, Function.update_of_ne hne ..⟩
      · have hown : (Function.update w.ios f.io _ f.io).desc.type = .write := htype
        rw [Function.update_self] at hown
        exact absurd hown (hc.reading hf hcb)
  | failed r resp m usedBytes hbufs =>
      refine h.proceed f.io rfl h.byte (fun y g hg hne => ?_) fun y g hg heq htype => ?_
      · exact ⟨(flights_answer hc hf hg).1 hne, rfl⟩
      · rw [(flights_answer hc hf hg).2 heq]
        refine ⟨h.beyond t f hf htype, fun r' m' hbufs' _ hgood => ?_⟩
        have hpart := (hc.writing hf fun hcb => hc.reading hf hcb htype).2
        rw [← (writeBufs_inj hpart hbufs').1, haround] at hgood
        exact absurd (hgood rfl) (by decide)
  | blockRead r m transferred rest usedBytes hcb hbufs =>
      refine h.proceed f.io rfl h.byte (fun y g hg hne => ?_) fun y g hg heq htype => ?_
      · exact ⟨(flights_answer hc hf hg).1 hne, rfl⟩
      · rw [(flights_answer hc hf hg).2 heq]
        have hbeyond := h.beyond t f hf htype
        have hread : f.cb ≠ .blkReadDone := fun hcb => hc.reading hf hcb htype
        have hpart := (hc.writing hf hread).2
        have hfit := lba_lt w.dev hgeo.size (Nat.le_refl 1)
          (cmdBlock_lt hgeo (hc.range t f hf) hpart)
        refine ⟨hbeyond, fun r' m' hbufs' hholds _ k hk hpos => ?_⟩
        rw [← (writeBufs_inj hpart hbufs').2 (carries_of_holds hholds),
          Bytes.patch_inside _ _ (Nat.zero_le k) (by omega), Nat.sub_zero, Nat.mod_eq_of_lt hfit]
        simp only [ReadsAround, hf] at haround
        have hpos : cmdBlock w.dev (w.ios f.io).desc f.cb * w.dev.blockSize + k = x := hpos
        have haround := haround hread hcb k hk (by rw [hpos]; exact hbeyond)
        rw [hpos, h.byte] at haround
        rw [hpos, h.byte]
        split
        · rfl
        · next hshort => exact haround.resolve_left hshort
  | written r m transferred rest usedBytes hcb hbufs =>
      have hread : f.cb ≠ .blkReadDone := by
        intro heq
        rw [heq] at hcb
        cases hcb
      obtain ⟨htype, hpart⟩ := hc.writing hf hread
      refine h.proceed f.io rfl ?_ (fun y g hg hne => ?_) fun y g hg heq _ => ?_
      · refine written_spared hgeo (hc.range t f hf) hcb hpart (fun _ => rfl) (h.beyond t f hf htype)
          h.byte fun hholds k hk hpos => ?_
        refine h.copy t f hf htype r m hbufs (by rw [hans]; exact hholds) (fun ha => ?_) k hk hpos
        rw [hans] at ha
        cases ha
      · exact ⟨(flights_answer hc hf hg).1 hne, rfl⟩
      · rw [(flights_answer hc hf hg).2 heq]
        refine ⟨h.beyond t f hf htype, fun r' m' _ hholds => ?_⟩
        have hnone : holdsBlock w.dev (w.ios f.io).desc f.cb true = false := holdsBlock_of_write _ _ hcb
        exact absurd (hnone.symm.trans hholds) (by decide)

/-! ## Callbacks -/

theorem Spared.closed (h : Spared x v w) (hc : Chains w) (hf : w.flights t = some f)
    {desc : AsyncIoDesc} (hcl : Closed (w.take t) t f.io desc w') : Spared x v w' := by
  have hold := fun y g => hcl.old (y := y) (g := g)
  have hdisk : w'.disk = w.disk := hcl.disk
  refine h.proceed f.io hcl.dev (by rw [hdisk]; exact h.byte)
    (fun y g hg hne => ⟨(hold y g hg).2, hcl.ios _ hne⟩) fun y g hg heq _ => ?_
  obtain ⟨hy, hg⟩ := hold y g hg
  exact absurd (hc.one y g t f hg hf heq) hy

/-- The next command of a chain carries the byte if the block in it has it. -/
theorem Spared.passed (h : Spared x v w) (hc : Chains w) (hf : w.flights t = some f)
    (htype : (w.ios f.io).desc.type = .write) {cb : TaskCb} {m' : Bytes} {y : Int}
    (hp : Passed (w.take t) t f.io { (w.ios f.io).desc with retval := y } cb
      (writeBufs w.dev (w.ios f.io).desc ⟨0, 0⟩ m' cb) w')
    (hpart : partExists w.dev (w.ios f.io).desc cb)
    (hcopy : holdsBlock w.dev (w.ios f.io).desc cb false = true → ∀ k < w.dev.blockSize,
      cmdBlock w.dev (w.ios f.io).desc cb * w.dev.blockSize + k = x → m' k = v) : Spared x v w' := by
  obtain ⟨task, hbufs, hold⟩ := hp.old
  have hdisk : w'.disk = w.disk := hp.disk
  refine h.proceed f.io hp.dev (by rw [hdisk]; exact h.byte) (fun y g hg hne => ?_)
    fun y g hg heq _ => ?_
  · rcases hold y g hg with rfl | ⟨-, hg⟩
    · exact absurd rfl hne
    · exact ⟨hg, hp.ios _ hne⟩
  · rcases hold y g hg with rfl | ⟨hy, hg⟩
    · rw [hp.own]
      refine ⟨h.beyond t f hf htype, fun r m hm hholds _ k hk hpos => ?_⟩
      have hm : task.vbufs = writeBufs w.dev { (w.ios f.io).desc with retval := _ } r m cb := hm
      rw [hbufs, writeBufs_congr (SameRequest.retval _ _)] at hm
      rw [← (writeBufs_inj hpart hm).2 (carries_of_holds hholds)]
      exact hcopy hholds k hk hpos
    · exact absurd (hc.one y g t f hg hf heq) hy

theorem Spared.reaped (h : Spared x v w) (hc : Chains w) (hf : w.flights t = some f)
    (hans : f.answered = true) (hr : Reaped (w.take t) t f w') : Spared x v w' := by
  -- the block of a read that is answered
  have hread : ∀ {r m}, f.cb.isWrite = false → f.cb ≠ .blkReadDone →
      f.task.vbufs = writeBufs w.dev (w.ios f.io).desc r m f.cb → r.good = true →
      ∀ k < w.dev.blockSize,
        cmdBlock w.dev (w.ios f.io).desc f.cb * w.dev.blockSize + k = x → m k = v := by
    intro r m hcb hne hbufs hgood
    obtain ⟨htype, hpart⟩ := hc.writing hf hne
    refine h.copy t f hf htype r m hbufs ?_ fun _ => hgood
    rw [hans]
    exact holdsBlock_of_read hpart hcb
  cases hr with
  | read desc hcb hreq hcl => exact h.closed hc hf hcl
  | dropped r m hbufs hfail hkind hcl => exact h.closed hc hf hcl
  | bodyWritten r m hcb hbufs hgood hfail hcl => exact h.closed hc hf hcl
  | tailWritten r m hcb hbufs hgood hcl => exact h.closed hc hf hcl
  | headRead r m m' hcb hbufs hgood hblock hp =>
      obtain ⟨htype, hpart⟩ := hc.writing hf (by rw [hcb]; decide)
      have hd := hc.range t f hf
      have hbeyond := h.beyond t f hf htype
      have hm := hread (by rw [hcb]; rfl) (by rw [hcb]; decide) hbufs hgood
      rw [hcb] at hpart hm
      refine h.passed hc hf htype hp (bodyLen_pos_of_head hd hpart) fun _ k hk hpos => ?_
      have hfirst := first_block w.dev (w.ios f.io).desc
      have hle := headLen_le w.dev (w.ios f.io).desc
      have hpos : (w.ios f.io).desc.offset / w.dev.blockSize * w.dev.blockSize + k = x := hpos
      unfold Beyond at hbeyond
      rw [hblock k hk]
      have hout : k < firstResid w.dev (w.ios f.io).desc ∨
          firstResid w.dev (w.ios f.io).desc + headLen w.dev (w.ios f.io).desc ≤ k := by omega
      exact (Bytes.patch_outside _ _ hout).trans (hm k hk hpos)
  | bodyNext r m m' hcb hbufs hgood hne hp =>
      obtain ⟨htype, -⟩ := hc.writing hf (by rw [hcb]; decide)
      exact h.passed hc hf htype hp hne fun hholds => Bool.noConfusion hholds
  | tailRead r m m' hcb hbufs hgood hblock hp =>
      obtain ⟨htype, hpart⟩ := hc.writing hf (by rw [hcb]; decide)
      have hbeyond := h.beyond t f hf htype
      have hm := hread (by rw [hcb]; rfl) (by rw [hcb]; decide) hbufs hgood
      rw [hcb] at hpart hm
      refine h.passed hc hf htype hp hpart fun _ k hk hpos => ?_
      obtain ⟨hlast, hstart⟩ := tail_spec (hc.range t f hf).ok hpart
      have hle := bodyLen_le w.dev (w.ios f.io).desc
      have hpos : ((w.ios f.io).desc.offset + (w.ios f.io).desc.nbytes) / w.dev.blockSize *
        w.dev.blockSize + k = x := hpos
      unfold Beyond at hbeyond
      rw [hblock k hk]
      have hout : k < 0 ∨ 0 + lastResid w.dev (w.ios f.io).desc ≤ k := by omega
      exact (Bytes.patch_outside _ _ hout).trans (hm k hk hpos)

end Steps

/-! ## One step and every run -/

/-- A write that is submitted is not for the byte. -/
def Avoids (x : Nat) : Event → Prop
  | .submit _ desc _ => desc.type = .write → Beyond x desc
  | _ => True

theorem Spared.submitted (h : Spared x v w) (hc : Chains w) {io : Nat} {desc desc' : AsyncIoDesc}
    {cb : TaskCb} {vbufs : List Buffer} (hf : (w.ios io).state = .fresh)
    (hp : Passed (w.enter io desc) w.nextTask io desc' cb vbufs w')
    (hown : desc'.type = .write → Beyond x desc' ∧ holdsBlock w.dev desc' cb false = false) :
    Spared x v (w'.leave io 0) := by
  have hnew := hc.new hf
  obtain ⟨hios, -, -, task, hvbufs, hflights⟩ := hp.accepted
  have hdisk : (w'.leave io 0).disk = w.disk := hp.disk
  have hself : ((w'.leave io 0).ios io).desc = desc' := congrArg Io.desc hp.own
  refine h.proceed io hp.dev (by rw [hdisk]; exact h.byte) (fun y g hg hne => ⟨?_, hios _ hne⟩)
    fun y g hg heq htype => ?_
  · rw [hflights] at hg
    by_cases hy : y = w.nextTask
    · rw [hy, Function.update_self] at hg
      cases hg
      exact absurd rfl hne
    · rw [Function.update_of_ne hy] at hg
      exact hg
  · rw [hself] at htype ⊢
    obtain ⟨hbeyond, hholds⟩ := hown htype
    refine ⟨hbeyond, fun r m _ hcarries => ?_⟩
    rw [hflights] at hg
    by_cases hy : y = w.nextTask
    · rw [hy, Function.update_self] at hg
      cases hg
      exact absurd (hholds.symm.trans hcarries) (by decide)
    · rw [Function.update_of_ne hy] at hg
      exact absurd heq (hnew y g hg)

theorem Spared.step (h : Spared x v w) (hs : Linked dev w) (hg : dev.Geometry) {e : Event}
    (haround : ReadsAround w e) (havoid : Avoids x e) (ht : Transition w e w') : Spared x v w' := by
  have hc := hs.chains
  cases ht with
  | refused io desc outcomes w₁ hf hd href =>
      obtain ⟨⟨desc', hm⟩, -⟩ := href
      have hnew := hc.new hf
      have hflights : (w₁.leave io (-1)).flights = w.flights := hm.flights
      have hdisk : (w₁.leave io (-1)).disk = w.disk := hm.disk
      refine h.proceed io hm.dev (by rw [hdisk]; exact h.byte) (fun y g hg hne => ?_)
        fun y g hg heq => absurd heq (hnew y g (by rw [← hflights]; exact hg))
      refine ⟨by rw [← hflights]; exact hg, ?_⟩
      show Function.update w₁.ios io _ g.io = _
      rw [Function.update_of_ne hne, hm.ios _ hne]
      exact Function.update_of_ne hne ..
  | accepted io desc outcomes w₁ hf hd hacc =>
      cases hacc with
      | read vbufs hbufs htype hp =>
          rw [enter_own] at htype hp
          refine h.submitted hc hf hp fun hwrite => ?_
          rw [htype] at hwrite
          cases hwrite
      | write cb vbufs hfirst htype hp =>
          rw [enter_own] at htype hp hfirst
          exact h.submitted hc hf hp fun _ => ⟨havoid htype, hfirst.stage.2.2⟩
  | executed t f a w' hf hans he => exact h.executed hc (hs.dev ▸ hg) hf hans he haround
  | reaped t f outcomes w' hf hans hr => exact h.reaped hc hf hans hr
  | collected io rest hout =>
      have hios : ∀ i, ((w.collectIo io rest).ios i).desc = (w.ios i).desc := fun i => by
        show (Function.update w.ios io _ i).desc = _
        by_cases hi : i = io
        · rw [hi, Function.update_self]
        · rw [Function.update_of_ne hi]
      refine ⟨h.byte, fun t f hf htype => ?_, fun t f hf htype => ?_⟩
      · rw [hios] at htype ⊢
        exact h.beyond t f hf htype
      · rw [hios] at htype ⊢
        exact h.copy t f hf htype
  | watermark n => exact ⟨h.byte, h.beyond, h.copy⟩

/-- The steps of a device that may transfer less than a block, but not less than the bytes
around the request. -/
def AroundStep : Except Fault World → Event → Prop
  | .ok w, e => Ranged w e ∧ ReadsAround w e
  | .error _, _ => True

theorem Spared.run (hg : dev.Geometry) {w₀ : World} (hs : Linked dev w₀) (hidle : Idle w₀)
    {es : List Event} {s : Except Fault World}
    (hrun : (machine dev disk).Path (fun s e => AroundStep s e ∧ Avoids x e) (.ok w₀) es s) :
    ∀ w, s = .ok w → Linked dev w ∧ Spared x (w₀.disk x) w := by
  refine hrun.invariant (I := fun s => ∀ w, s = .ok w → Linked dev w ∧ Spared x (w₀.disk x) w)
    (fun s e s' hall hok hstep => ?_) fun w hw => ?_
  · cases s with
    | error f => cases hstep
    | ok w =>
        obtain ⟨hs, h⟩ := hall w rfl
        obtain ⟨⟨hranged, haround⟩, havoid⟩ := hok
        obtain ⟨w₁, rfl, ht⟩ | ⟨f, rfl⟩ := hs.next hg hranged hstep
        · intro w' hw'
          cases hw'
          exact ⟨hs.step ht, h.step hs hg haround havoid ht⟩
        · exact fun w' hw' => nomatch hw'
  · cases hw
    exact ⟨hs, rfl, fun t f hf htype => absurd htype (hidle t f hf),
      fun t f hf htype => absurd htype (hidle t f hf)⟩

instance (w : World) (e : Event) : Decidable (ReadsAround w e) :=
  match e with
  | .exec t (.done transferred rest used) =>
      match h : w.flights t with
      | some f => decidable_of_iff (f.cb ≠ .blkReadDone → f.cb.isWrite = false → ∀ k < w.dev.blockSize,
          Beyond (cmdBlock w.dev (w.ios f.io).desc f.cb * w.dev.blockSize + k) (w.ios f.io).desc →
            k < transferred ∨
              rest k = w.disk (cmdBlock w.dev (w.ios f.io).desc f.cb * w.dev.blockSize + k))
          (by simp only [ReadsAround, h])
      | none => .isTrue (by simp only [ReadsAround, h])
  | .exec _ (.failed resp _) => inferInstanceAs (Decidable (resp.good = false))
  | .submit _ _ _ => .isTrue trivial
  | .reap _ _ => .isTrue trivial
  | .collect => .isTrue trivial
  | .watermark _ => .isTrue trivial

instance (s : Except Fault World) (e : Event) : Decidable (AroundStep s e) :=
  match s with
  | .ok w => inferInstanceAs (Decidable (Ranged w e ∧ ReadsAround w e))
  | .error _ => inferInstanceAs (Decidable True)

end VhostUser.Dev
