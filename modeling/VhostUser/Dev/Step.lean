import VhostUser.Dev.Submit
import VhostUser.Dev.System

/-! # The steps of the asynchronous interface

What a task in the vring looks like is determined by its callback and its
descriptor. With that, every step of the system is one of a few transitions: a
request is refused or taken, a command is answered, a callback gives the descriptor
back or sends the next command.
-/

namespace VhostUser.Dev

open VhostUser.Lib Prog

variable {w w' : World} {dev : VirtioDev} {d d' : AsyncIoDesc} {r : VirtioScsiCmdResp} {m : Bytes}

/-! ## Tasks in the vring -/

/-- The buffers of a write command with the response `r` and the block `m`. -/
def writeBufs (dev : VirtioDev) (d : AsyncIoDesc) (r : VirtioScsiCmdResp) (m : Bytes) :
    TaskCb → List Buffer
  | .blkReadFirstBlockDone => firstReadBufs dev d r m
  | .blkWriteFullBlocksDone => bodyWriteBufs dev d r m
  | .blkReadLastBlockDone => lastReadBufs dev d r m
  | .blkWriteLastBlockDone => lastWriteBufs dev d r m
  | .blkReadDone => []

/-- The part of a write that a command is for exists. -/
def partExists (dev : VirtioDev) (d : AsyncIoDesc) : TaskCb → Prop
  | .blkReadFirstBlockDone => firstResid dev d ≠ 0
  | .blkWriteFullBlocksDone => 0 < bodyLen dev d
  | .blkReadLastBlockDone => bodyLen dev d ≠ d.nbytes
  | .blkWriteLastBlockDone => bodyLen dev d ≠ d.nbytes
  | .blkReadDone => False

def TaskCb.isWrite : TaskCb → Bool
  | .blkWriteFullBlocksDone => true
  | .blkWriteLastBlockDone => true
  | _ => false

/-- The shape of a task that waits for callback `cb`. -/
inductive Shape (dev : VirtioDev) (d : AsyncIoDesc) (cb : TaskCb) (vbufs : List Buffer) : Prop
  | read (hcb : cb = .blkReadDone) (htype : d.type = .read) (hbufs : ReadBufs dev d vbufs)
  | write (htype : d.type = .write) (hpart : partExists dev d cb) (r : VirtioScsiCmdResp) (m : Bytes)
      (hbufs : vbufs = writeBufs dev d r m cb)

/-! Shapes depend on the request alone. -/

theorem midBlocks_congr (h : SameRequest d d') : midBlocks dev d' = midBlocks dev d := by
  unfold midBlocks headLen firstResid
  rw [h.offset, h.nbytes]

theorem writeBufs_congr (h : SameRequest d d') (cb : TaskCb) :
    writeBufs dev d' r m cb = writeBufs dev d r m cb := by
  obtain ⟨type, buf, offset, nbytes, retval⟩ := d
  obtain ⟨type', buf', offset', nbytes', retval'⟩ := d'
  obtain ⟨htype, hoffset, hnbytes⟩ := h
  cases hoffset
  cases hnbytes
  cases cb <;> rfl

theorem partExists_congr (h : SameRequest d d') (cb : TaskCb) :
    partExists dev d' cb = partExists dev d cb := by
  obtain ⟨type, buf, offset, nbytes, retval⟩ := d
  obtain ⟨type', buf', offset', nbytes', retval'⟩ := d'
  obtain ⟨htype, hoffset, hnbytes⟩ := h
  cases hoffset
  cases hnbytes
  cases cb <;> rfl

theorem ReadBufs.congr {vbufs : List Buffer} (h : ReadBufs dev d vbufs) (hreq : SameRequest d d') :
    ReadBufs dev d' vbufs := by
  unfold ReadBufs ReadPart
  rw [midBlocks_congr hreq]
  exact h

theorem Shape.congr {cb : TaskCb} {vbufs : List Buffer} (h : Shape dev d cb vbufs)
    (hreq : SameRequest d d') : Shape dev d' cb vbufs := by
  cases h with
  | read hcb htype hbufs => exact .read hcb (hreq.type.trans htype) (hbufs.congr hreq)
  | write htype hpart r m hbufs =>
      refine .write (hreq.type.trans htype) ?_ r m ?_
      · rw [partExists_congr hreq]
        exact hpart
      · rw [writeBufs_congr hreq]
        exact hbufs

theorem InRange.congr (h : InRange dev d) (hreq : SameRequest d d') : InRange dev d' := by
  refine ⟨h.ok, ?_, ?_⟩
  · rw [hreq.nbytes]
    exact h.pos
  · rw [hreq.nbytes, hreq.offset]
    exact h.le

/-! ## Callbacks -/

/-- What a callback does, from the world in which its task has been taken from the ring. -/
inductive Reaped (w : World) (t : Nat) (f : Flight) (w' : World) : Prop
  | read (desc : AsyncIoDesc) (hcb : f.cb = .blkReadDone)
      (hreq : SameRequest (w.ios f.io).desc desc) (h : Closed w t f.io desc w')
  /-- a write is given up -/
  | dropped (r : VirtioScsiCmdResp) (m : Bytes)
      (hbufs : f.task.vbufs = writeBufs w.dev (w.ios f.io).desc r m f.cb)
      (hfail : r.good = true → w'.failed = true) (hkind : f.cb.isWrite = true → r.good = false)
      (h : Closed w t f.io (w.ios f.io).desc w')
  /-- head and middle are written, and nothing follows -/
  | bodyWritten (r : VirtioScsiCmdResp) (m : Bytes) (hcb : f.cb = .blkWriteFullBlocksDone)
      (hbufs : f.task.vbufs = writeBufs w.dev (w.ios f.io).desc r m f.cb) (hgood : r.good = true)
      (hfail : bodyLen w.dev (w.ios f.io).desc = (w.ios f.io).desc.nbytes ∨ w'.failed = true)
      (h : Closed w t f.io { (w.ios f.io).desc with
        retval := toSsize (bodyLen w.dev (w.ios f.io).desc) } w')
  | tailWritten (r : VirtioScsiCmdResp) (m : Bytes) (hcb : f.cb = .blkWriteLastBlockDone)
      (hbufs : f.task.vbufs = writeBufs w.dev (w.ios f.io).desc r m f.cb) (hgood : r.good = true)
      (h : Closed w t f.io { (w.ios f.io).desc with
        retval := lastRetval w.dev (w.ios f.io).desc } w')
  /-- the first block is read and is written back with the middle -/
  | headRead (r : VirtioScsiCmdResp) (m m' : Bytes) (hcb : f.cb = .blkReadFirstBlockDone)
      (hbufs : f.task.vbufs = writeBufs w.dev (w.ios f.io).desc r m f.cb) (hgood : r.good = true)
      (hblock : ∀ k < w.dev.blockSize, m' k = m.patch (firstResid w.dev (w.ios f.io).desc)
        (headLen w.dev (w.ios f.io).desc) (w.ios f.io).desc.buf k)
      (h : Passed w t f.io (w.ios f.io).desc .blkWriteFullBlocksDone
        (bodyWriteBufs w.dev (w.ios f.io).desc ⟨0, 0⟩ m') w')
  /-- head and middle are written, and the last block is read -/
  | bodyNext (r : VirtioScsiCmdResp) (m m' : Bytes) (hcb : f.cb = .blkWriteFullBlocksDone)
      (hbufs : f.task.vbufs = writeBufs w.dev (w.ios f.io).desc r m f.cb) (hgood : r.good = true)
      (hne : bodyLen w.dev (w.ios f.io).desc ≠ (w.ios f.io).desc.nbytes)
      (h : Passed w t f.io { (w.ios f.io).desc with
        retval := toSsize (bodyLen w.dev (w.ios f.io).desc) } .blkReadLastBlockDone
        (lastReadBufs w.dev (w.ios f.io).desc ⟨0, 0⟩ m') w')
  /-- the last block is read and is written back -/
  | tailRead (r : VirtioScsiCmdResp) (m m' : Bytes) (hcb : f.cb = .blkReadLastBlockDone)
      (hbufs : f.task.vbufs = writeBufs w.dev (w.ios f.io).desc r m f.cb) (hgood : r.good = true)
      (hblock : ∀ k < w.dev.blockSize, m' k = m.patch 0 (lastResid w.dev (w.ios f.io).desc)
        (fun k => (w.ios f.io).desc.buf
          ((w.ios f.io).desc.nbytes - lastResid w.dev (w.ios f.io).desc + k)) k)
      (h : Passed w t f.io (w.ios f.io).desc .blkWriteLastBlockDone
        (lastWriteBufs w.dev (w.ios f.io).desc ⟨0, 0⟩ m') w')

/-- Every callback gives the descriptor back or sends a command for it. It keeps the request,
and the data of a write. -/
theorem Reaped.ends {t : Nat} {f : Flight} (h : Reaped w t f w') :
    ∃ desc, SameRequest (w.ios f.io).desc desc ∧
      (f.cb ≠ .blkReadDone → desc.buf = (w.ios f.io).desc.buf) ∧
      (Closed w t f.io desc w' ∨ ∃ cb vbufs, Passed w t f.io desc cb vbufs w') := by
  have hsame : SameRequest (w.ios f.io).desc (w.ios f.io).desc := ⟨rfl, rfl, rfl⟩
  cases h with
  | read desc hcb hreq hc => exact ⟨desc, hreq, fun hne => absurd hcb hne, Or.inl hc⟩
  | dropped r m hbufs hfail hkind hc => exact ⟨(w.ios f.io).desc, hsame, fun _ => rfl, Or.inl hc⟩
  | bodyWritten r m hcb hbufs hgood hfail hc =>
      generalize toSsize (bodyLen w.dev (w.ios f.io).desc) = x at hc
      exact ⟨{ (w.ios f.io).desc with retval := x }, .retval _ x, fun _ => rfl, Or.inl hc⟩
  | tailWritten r m hcb hbufs hgood hc =>
      generalize lastRetval w.dev (w.ios f.io).desc = x at hc
      exact ⟨{ (w.ios f.io).desc with retval := x }, .retval _ x, fun _ => rfl, Or.inl hc⟩
  | headRead r m m' hcb hbufs hgood hblock hp =>
      exact ⟨(w.ios f.io).desc, hsame, fun _ => rfl, Or.inr ⟨_, _, hp⟩⟩
  | bodyNext r m m' hcb hbufs hgood hne hp =>
      generalize toSsize (bodyLen w.dev (w.ios f.io).desc) = x at hp
      exact ⟨{ (w.ios f.io).desc with retval := x }, .retval _ x, fun _ => rfl, Or.inr ⟨_, _, hp⟩⟩
  | tailRead r m m' hcb hbufs hgood hblock hp =>
      exact ⟨(w.ios f.io).desc, hsame, fun _ => rfl, Or.inr ⟨_, _, hp⟩⟩

theorem lastResid_le (h : InRange dev d) (hne : bodyLen dev d ≠ d.nbytes) :
    lastResid dev d ≤ d.nbytes := by
  rw [(tail_spec h.ok hne).1]
  exact Nat.sub_le ..

theorem runCallback_spec {excused : Prop} {t : Nat} {f : Flight} (h : Ready excused w t f.io)
    (hd : InRange w.dev (w.ios f.io).desc)
    (hshape : Shape w.dev (w.ios f.io).desc f.cb f.task.vbufs) :
    Calls False excused (runCallback f.cb ⟨t, f.task⟩ f.io) (fun _ w' => Reaped w t f w') w := by
  cases hshape with
  | read hcb htype hbufs =>
      obtain ⟨lba, n, r, rest, hbufs, -⟩ := hbufs
      rw [hcb]
      refine wpIf_mono (blkReadDone_spec h.toHeld (b := respBuf r) (by rw [hbufs]; rfl) rfl) fun _ w' hw => ?_
      obtain ⟨desc, hreq, hclosed⟩ := hw
      exact .read desc hcb hreq hclosed
  | write htype hpart r m hbufs =>
      have hdrop : ∀ w', Abandoned w t f.io r w' → (f.cb.isWrite = true → r.good = false) →
          Reaped w t f w' := fun w' hw hkind => .dropped r m hbufs hw.2 hkind hw.1
      cases hcb : f.cb with
      | blkReadDone =>
          rw [hcb] at hpart
          exact hpart.elim
      | blkReadFirstBlockDone =>
          rw [hcb] at hpart
          refine wpIf_mono (blkReadFirstBlockDone_spec h hd hpart (by rw [hbufs, hcb]; rfl))
            fun _ w' hw => ?_
          obtain hw | ⟨hgood, m', hblock, hpass⟩ := hw
          · exact hdrop w' hw fun hwrite => by rw [hcb] at hwrite; cases hwrite
          · exact .headRead r m m' hcb hbufs hgood hblock hpass
      | blkWriteFullBlocksDone =>
          refine wpIf_mono (blkWriteFullBlocksDone_spec h hd (by rw [hbufs, hcb]; rfl))
            fun _ w' hw => ?_
          obtain ⟨hbad, hclosed⟩ | ⟨hgood, desc, rfl, hw⟩ := hw
          · refine hdrop w' ⟨hclosed, fun hgood => ?_⟩ fun _ => hbad
            rw [hbad] at hgood
            cases hgood
          · obtain ⟨heq, hclosed⟩ | ⟨hne, ⟨hclosed, hfail⟩ | ⟨m', hpass⟩⟩ := hw
            · exact .bodyWritten r m hcb hbufs hgood (Or.inl heq) hclosed
            · exact .bodyWritten r m hcb hbufs hgood (Or.inr hfail) hclosed
            · exact .bodyNext r m m' hcb hbufs hgood hne hpass
      | blkReadLastBlockDone =>
          rw [hcb] at hpart
          refine wpIf_mono (blkReadLastBlockDone_spec h hd (lastResid_le hd hpart)
            (by rw [hbufs, hcb]; rfl)) fun _ w' hw => ?_
          obtain hw | ⟨hgood, m', hblock, hpass⟩ := hw
          · exact hdrop w' hw fun hwrite => by rw [hcb] at hwrite; cases hwrite
          · exact .tailRead r m m' hcb hbufs hgood hblock hpass
      | blkWriteLastBlockDone =>
          refine wpIf_mono (blkWriteLastBlockDone_spec h hd (by rw [hbufs, hcb]; rfl))
            fun _ w' hw => ?_
          obtain ⟨hbad, hclosed⟩ | ⟨hgood, hclosed⟩ := hw
          · refine hdrop w' ⟨hclosed, fun hgood => ?_⟩ fun _ => hbad
            rw [hbad] at hgood
            cases hgood
          · exact .tailWritten r m hcb hbufs hgood hclosed

/-! ## Commands -/

def cmdBlock (dev : VirtioDev) (d : AsyncIoDesc) : TaskCb → Nat
  | .blkReadLastBlockDone => (d.offset + d.nbytes) / dev.blockSize
  | .blkWriteLastBlockDone => (d.offset + d.nbytes) / dev.blockSize
  | _ => d.offset / dev.blockSize

def cmdBlocks (dev : VirtioDev) (d : AsyncIoDesc) : TaskCb → Nat
  | .blkWriteFullBlocksDone => midBlocks dev d + if firstResid dev d = 0 then 0 else 1
  | _ => 1

theorem setResp_writeBufs (r' : VirtioScsiCmdResp) (cb : TaskCb) :
    setResp r' (writeBufs dev d r m cb) = writeBufs dev d r' m cb := by
  cases cb with
  | blkWriteFullBlocksDone =>
      simp only [writeBufs, bodyWriteBufs]
      split
      · rfl
      · split
        · rfl
        · rfl
  | blkReadDone => rfl
  | blkReadFirstBlockDone => rfl
  | blkReadLastBlockDone => rfl
  | blkWriteLastBlockDone => rfl

theorem fillIn_sizes (src : Bytes) (seen : Bool) (pos : Nat) (vbufs : List Buffer) :
    (fillIn src seen pos vbufs).map VirtioBuffer.size = vbufs.map VirtioBuffer.size := by
  induction vbufs generalizing seen pos with
  | nil => rfl
  | cons b rest ih =>
      unfold fillIn
      cases b.response with
      | false => exact congrArg (b.size :: ·) (ih seen pos)
      | true =>
          cases seen with
          | false => exact congrArg (b.size :: ·) (ih true pos)
          | true => cases b.buf <;> exact congrArg (b.size :: ·) (ih true (pos + b.size))

theorem fillIn_writeBufs (src : Bytes) {cb : TaskCb} (hcb : cb.isWrite = false) :
    fillIn src false 0 (writeBufs dev d r m cb) =
      writeBufs dev d r (m.patch 0 dev.blockSize src) cb := by
  cases cb with
  | blkWriteFullBlocksDone => cases hcb
  | blkWriteLastBlockDone => cases hcb
  | blkReadDone => rfl
  | blkReadFirstBlockDone =>
      simp [writeBufs, firstReadBufs, fillIn, reqBuf, respBuf, blockBuf]
  | blkReadLastBlockDone =>
      simp [writeBufs, lastReadBufs, fillIn, reqBuf, respBuf, blockBuf]

theorem fillUser_writeBufs (src buf : Bytes) {cb : TaskCb} (hcb : cb.isWrite = false) :
    fillUser src false 0 (writeBufs dev d r m cb) buf = buf := by
  cases cb with
  | blkWriteFullBlocksDone => cases hcb
  | blkWriteLastBlockDone => cases hcb
  | blkReadDone => rfl
  | blkReadFirstBlockDone => rfl
  | blkReadLastBlockDone => rfl

theorem commandOf_reqBuf {task : Task} {lba n : Nat} {isWrite : Bool} {rest : List Buffer}
    (hbufs : task.vbufs = reqBuf dev lba n isWrite :: rest) :
    commandOf task = some ⟨isWrite, lba % 2 ^ lbaBits dev, n % 2 ^ countBits dev⟩ := by
  unfold commandOf
  rw [hbufs]
  exact decodeCdb_createRwCdb ..

theorem bodyWriteBufs_head (dev : VirtioDev) (d : AsyncIoDesc) (r : VirtioScsiCmdResp) (m : Bytes) :
    ∃ rest, bodyWriteBufs dev d r m =
    reqBuf dev (d.offset / dev.blockSize) (cmdBlocks dev d .blkWriteFullBlocksDone) true :: rest := by
  unfold bodyWriteBufs cmdBlocks
  by_cases hr : firstResid dev d = 0
  · simp [hr]
  · by_cases hmore : headLen dev d < d.nbytes
    · simp [hr, hmore]
    · have hall : headLen dev d = d.nbytes := Nat.le_antisymm (headLen_le dev d) (Nat.le_of_not_lt hmore)
      simp [hr, hall, midBlocks_of_head hall]

theorem commandOf_writeBufs {task : Task} {cb : TaskCb} (hpart : partExists dev d cb)
    (hbufs : task.vbufs = writeBufs dev d r m cb) :
    commandOf task = some ⟨cb.isWrite, cmdBlock dev d cb % 2 ^ lbaBits dev,
      cmdBlocks dev d cb % 2 ^ countBits dev⟩ := by
  cases cb with
  | blkReadDone => exact hpart.elim
  | blkReadFirstBlockDone => exact commandOf_reqBuf hbufs
  | blkReadLastBlockDone => exact commandOf_reqBuf hbufs
  | blkWriteLastBlockDone => exact commandOf_reqBuf hbufs
  | blkWriteFullBlocksDone =>
      obtain ⟨rest, hhead⟩ := bodyWriteBufs_head dev d r m
      exact commandOf_reqBuf (hbufs.trans hhead)

/-! ## Answers -/

/-- What the device does with the command of a task. -/
inductive Executed (w : World) (t : Nat) (f : Flight) : Answer → World → Prop
  /-- a read: only its own buffers change -/
  | read (a : Answer) (vbufs : List Buffer) (buf : Bytes) (usedBytes : Nat) (failed : Bool)
      (hcb : f.cb = .blkReadDone) (hbufs : ReadBufs w.dev (w.ios f.io).desc vbufs)
      (hfail : w.failed = true → failed = true) :
      Executed w t f a { (w.answer t f vbufs usedBytes).setIo f.io
        ⟨{ (w.ios f.io).desc with buf := buf }, (w.ios f.io).state⟩ with failed := failed }
  /-- a command of a write that fails -/
  | failed (r resp : VirtioScsiCmdResp) (m : Bytes) (usedBytes : Nat)
      (hbufs : f.task.vbufs = writeBufs w.dev (w.ios f.io).desc r m f.cb) :
      Executed w t f (.failed resp usedBytes)
        (w.answer t f (writeBufs w.dev (w.ios f.io).desc resp m f.cb) usedBytes).setFailed
  /-- the read of a block -/
  | blockRead (r : VirtioScsiCmdResp) (m : Bytes) (transferred : Nat) (rest : Bytes)
      (usedBytes : Nat) (hcb : f.cb.isWrite = false)
      (hbufs : f.task.vbufs = writeBufs w.dev (w.ios f.io).desc r m f.cb) :
      Executed w t f (.done transferred rest usedBytes)
        (w.answer t f (writeBufs w.dev (w.ios f.io).desc ⟨0, 0⟩
          (m.patch 0 w.dev.blockSize fun k => if k < transferred then
            w.disk (cmdBlock w.dev (w.ios f.io).desc f.cb % 2 ^ lbaBits w.dev * w.dev.blockSize + k)
            else rest k) f.cb) usedBytes)
  | written (r : VirtioScsiCmdResp) (m : Bytes) (transferred : Nat) (rest : Bytes)
      (usedBytes : Nat) (hcb : f.cb.isWrite = true)
      (hbufs : f.task.vbufs = writeBufs w.dev (w.ios f.io).desc r m f.cb) :
      Executed w t f (.done transferred rest usedBytes)
        { w.answer t f (writeBufs w.dev (w.ios f.io).desc ⟨0, 0⟩ m f.cb) usedBytes with
          disk := w.disk.patch
            (cmdBlock w.dev (w.ios f.io).desc f.cb % 2 ^ lbaBits w.dev * w.dev.blockSize)
            (cmdBlocks w.dev (w.ios f.io).desc f.cb % 2 ^ countBits w.dev * w.dev.blockSize)
            (gather (w.bytes f.io) (dataOut (writeBufs w.dev (w.ios f.io).desc r m f.cb))) }

theorem answer_setIo_self (w : World) (t : Nat) (f : Flight) (vbufs : List Buffer)
    (usedBytes : Nat) : (w.answer t f vbufs usedBytes).setIo f.io
      ⟨{ (w.ios f.io).desc with buf := (w.ios f.io).desc.buf }, (w.ios f.io).state⟩ =
      w.answer t f vbufs usedBytes := by
  show { w.answer t f vbufs usedBytes with ios := Function.update w.ios f.io (w.ios f.io) } = _
  rw [Function.update_eq_self]
  rfl

theorem exec_spec {t : Nat} {f : Flight} (hshape : Shape w.dev (w.ios f.io).desc f.cb f.task.vbufs)
    (a : Answer) : Executed w t f a (w.exec t f a) := by
  cases hshape with
  | read hcb htype hbufs =>
      obtain ⟨lba, n, r, rest, hbufs, hsizes⟩ := hbufs
      have hcmd := commandOf_reqBuf hbufs
      cases a with
      | failed resp usedBytes =>
          rw [World.exec, ← answer_setIo_self]
          exact .read _ _ _ usedBytes true hcb ⟨lba, n, resp, rest, by rw [hbufs]; rfl, hsizes⟩
            fun _ => rfl
      | done transferred rest' usedBytes =>
          simp only [World.exec, hcmd]
          exact .read _ _ _ usedBytes w.failed hcb
            ⟨lba, n, ⟨0, 0⟩, _, by rw [hbufs]; rfl, by rw [fillIn_sizes]; exact hsizes⟩ id
  | write htype hpart r m hbufs =>
      cases a with
      | failed resp usedBytes =>
          rw [World.exec, hbufs, setResp_writeBufs]
          exact .failed r resp m usedBytes hbufs
      | done transferred rest usedBytes =>
          have hcmd := commandOf_writeBufs hpart hbufs
          cases hcb : f.cb.isWrite with
          | true =>
              rw [hcb] at hcmd
              simp only [World.exec, hcmd]
              rw [hbufs, setResp_writeBufs]
              exact .written r m transferred rest usedBytes hcb hbufs
          | false =>
              rw [hcb] at hcmd
              simp only [World.exec, hcmd]
              rw [hbufs, setResp_writeBufs, fillIn_writeBufs _ hcb, fillUser_writeBufs _ _ hcb]
              rw [answer_setIo_self]
              exact .blockRead r m transferred rest usedBytes hcb hbufs

end VhostUser.Dev
