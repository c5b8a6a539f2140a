import VhostUser.Dev.Content
import VhostUser.Dev.PastEnd

/-! # The length of an asynchronous write

`write_virtio_dev_async` cuts a write off at the end of the device, and the callbacks start
again from `io_desc->nbytes`. One write is followed here with a device that executes every
command and with nothing else failing. Its commands, what they carry and its result are those
of a write of the bytes up to the end of the device exactly if it ends there or before.
-/

namespace VhostUser.Dev

open VhostUser.Lib Prog

variable {w w' : World} {dev : VirtioDev} {disk disk₀ : Bytes} {c d d₀ : AsyncIoDesc} {t : Nat}

/-! ## One write, and nothing fails -/

/-- Steps of a device that executes every command, and of a poller whose allocations succeed. -/
def SmoothStep : Except Fault World → Event → Prop
  | .ok _, .exec _ (.done ..) => True
  | .ok _, .reap _ os => ∀ o ∈ os, o.isSome = true
  | _, _ => False

/-- A run of one write in which nothing fails, up to a state. -/
def Follows (dev : VirtioDev) (disk : Bytes) (d : AsyncIoDesc) (s : Except Fault World) : Prop :=
  ∃ os s₁ es, (∀ o ∈ os, o.isSome = true) ∧
    stepWorld (init dev disk) (.submit 0 d os) = some s₁ ∧
    (machine dev disk).Path SmoothStep s₁ es s

/-- The buffers are those of a command that the write `c` needs, and a block that is written
back holds the bytes of `c`. -/
def CommandOf (dev : VirtioDev) (c : AsyncIoDesc) (cb : TaskCb) (vbufs : List Buffer) : Prop :=
  partExists dev c cb ∧ ∃ r m, vbufs = writeBufs dev c r m cb ∧
    ∀ k < dev.blockSize, merged dev c m cb k = m k

/-- What is wanted of the write `c` in every state. -/
structure WriteOf (c : AsyncIoDesc) (w : World) : Prop where
  command : ∀ t f, w.flights t = some f → CommandOf w.dev c f.cb f.task.vbufs
  count : 0 < c.nbytes → (∀ t, w.flights t = none) →
    w.pushes = [0] ∧ (w.ios 0).desc.retval = c.nbytes

/-- Whatever the bytes on the disk and the bytes to write are, the write is free of faults and
has length `n` in its commands, in what they carry and in its result. -/
def WriteUses (dev : VirtioDev) (d : AsyncIoDesc) (n : Nat) : Prop :=
  ∀ d' disk, SameRequest d d' → ∀ s, Follows dev disk d' s →
    ∃ w, s = .ok w ∧ WriteOf { d' with nbytes := n } w

theorem SmoothStep.calm {e : Event} (h : SmoothStep (.ok w) e) : CalmStep e := by
  cases e with
  | exec t a => trivial
  | reap t os => exact h
  | submit io desc os => exact h
  | collect => exact h
  | watermark n => exact h

namespace Follows

variable {cb : TaskCb} {lba n : Nat} {rest : List Buffer}

theorem step {s s' : Except Fault World} {e : Event} (h : Follows dev disk d s)
    (hok : SmoothStep s e) (hs : Dev.step s e = some s') : Follows dev disk d s' := by
  obtain ⟨os, s₁, es, hos, hsubmit, hrun⟩ := h
  exact ⟨os, s₁, es ++ [e], hos, hsubmit, hrun.trans (.cons hok hs (.nil _))⟩

theorem read {lo hi : Nat} {m : Bytes} {r : VirtioScsiCmdResp} (hr : Follows dev disk₀ d₀ (.ok w))
    (h : Alone w dev disk t d cb [reqBuf dev lba 1 false, respBuf r, blockBuf dev m true lo hi]
      false) : ∃ w' m', Follows dev disk₀ d₀ (.ok w') ∧ Alone w' dev disk t d cb
        [reqBuf dev lba 1 false, respBuf ⟨0, 0⟩, blockBuf dev m' true lo hi] true := by
  obtain ⟨f, hf, -, -, hans, -, -⟩ := h.command
  obtain ⟨m', -, hdone⟩ := h.execRead hf (fun _ => 0) 0
  refine ⟨_, m', hr.step (e := .exec t (.done dev.blockSize (fun _ => 0) 0)) trivial ?_, hdone⟩
  simp [Dev.step, stepWorld, hf, hans]

theorem write (hr : Follows dev disk₀ d₀ (.ok w))
    (h : Alone w dev disk t d cb (reqBuf dev lba n true :: rest) false) :
    ∃ w' disk', Follows dev disk₀ d₀ (.ok w') ∧ Alone w' dev disk' t d cb
      (setResp ⟨0, 0⟩ (reqBuf dev lba n true :: rest)) true := by
  obtain ⟨f, hf, -, -, hans, -, -⟩ := h.command
  refine ⟨_, _, hr.step (e := .exec t (.done 0 (fun _ => 0) 0)) trivial ?_,
    h.execWrite hf 0 (fun _ => 0) 0⟩
  simp [Dev.step, stepWorld, hf, hans]

theorem reap {vbufs : List Buffer}
    (hP : ∀ s, Follows dev disk₀ d₀ s → ∃ w, s = .ok w ∧ WriteOf c w)
    (hr : Follows dev disk₀ d₀ (.ok w)) (h : Alone w dev disk t d cb vbufs true)
    {Q : Unit → World → Prop} (hcalls : ∀ task : Task, task.vbufs = vbufs →
      Calls True True (runCallback cb ⟨t, task⟩ 0) Q (w.take t)) :
    ∃ w', Follows dev disk₀ d₀ (.ok w') ∧ Q () w' := by
  obtain ⟨s, hs, hend⟩ := h.reaps hcalls
  have hfollows := hr.step (e := .reap t []) (fun o ho => absurd ho List.not_mem_nil) hs
  obtain ⟨w', rfl, -⟩ := hP _ hfollows
  exact ⟨w', hfollows, hend w' rfl⟩

end Follows

theorem Alone.commandOf {cb : TaskCb} {vbufs : List Buffer} {answered : Bool}
    (h : Alone w dev disk t d cb vbufs answered) (hw : WriteOf c w) : CommandOf dev c cb vbufs := by
  obtain ⟨task, hvbufs, hflights⟩ := h.flights
  have hf : w.flights t = some ⟨task, cb, 0, answered⟩ := by
    rw [hflights, Function.update_self]
  rw [← h.dev, ← hvbufs]
  exact hw.command t _ hf

/-! ## A write within the device -/

/-- Such a write sends its next command, or it is finished. -/
inductive WriteState (dev : VirtioDev) (d : AsyncIoDesc) : Except Fault World → Prop
  | sending (w : World) (disk : Bytes) (t : Nat) (cb : TaskCb) (r : VirtioScsiCmdResp) (m : Bytes)
      (answered : Bool) (hpart : partExists dev d cb)
      (hm : ∀ k < dev.blockSize, merged dev d m cb k = m k) (hgood : answered = true → r.good = true)
      (h : Alone w dev disk t { d with retval := asRetval (doneBefore dev d cb) } cb
        (writeBufs dev d r m cb) answered) : WriteState dev d (.ok w)
  | finished (w : World) (disk : Bytes) (h : Finished w dev disk { d with retval := d.nbytes }) :
      WriteState dev d (.ok w)

theorem merged_idem (m : Bytes) {m' : Bytes} {cb : TaskCb} {k : Nat} (h : m' k = merged dev d m cb k) :
    merged dev d m' cb k = m' k := by
  cases cb with
  | blkReadDone => rfl
  | blkReadFirstBlockDone => rfl
  | blkReadLastBlockDone => rfl
  | blkWriteFullBlocksDone =>
      simp only [merged, Bytes.patch] at h ⊢
      split
      · next hin => rw [h, if_pos hin]
      · rfl
  | blkWriteLastBlockDone =>
      simp only [merged, Bytes.patch] at h ⊢
      split
      · next hin => rw [h, if_pos hin]
      · rfl

theorem Alone.next_answer {cb : TaskCb} {vbufs : List Buffer}
    (h : Alone w dev disk t d cb vbufs false) {e : Event} {s : Except Fault World}
    (hok : SmoothStep (.ok w) e) (hs : step (.ok w) e = some s) :
    ∃ f transferred junk used, w.flights t = some f ∧ f.cb = cb ∧ f.io = 0 ∧ f.task.vbufs = vbufs ∧
      s = .ok (w.exec t f (.done transferred junk used)) := by
  cases e with
  | exec x a =>
      cases hf : w.flights x with
      | none => simp [step, stepWorld, hf] at hs
      | some f =>
          obtain ⟨rfl, hvbufs, hcb, hio, hans⟩ := h.only hf
          simp only [step, stepWorld, hf, hans, Bool.false_eq_true, if_false,
            Option.some.injEq] at hs
          cases a with
          | failed resp used => exact hok.elim
          | done transferred junk used =>
              exact ⟨f, transferred, junk, used, hf, hcb, hio, hvbufs, hs.symm⟩
  | reap x os =>
      cases hf : w.flights x with
      | none => simp [step, stepWorld, hf] at hs
      | some f =>
          have hans := (h.only hf).2.2.2.2
          simp [step, stepWorld, hf, hans] at hs
  | submit io desc os => exact hok.elim
  | collect => exact hok.elim
  | watermark n => exact hok.elim

namespace WriteState

theorem answered {cb : TaskCb} {r : VirtioScsiCmdResp} {m : Bytes} {s : Except Fault World}
    {e : Event} (htype : d.type = .write) (hpart : partExists dev d cb)
    (hm : ∀ k < dev.blockSize, merged dev d m cb k = m k)
    (h : Alone w dev disk t { d with retval := asRetval (doneBefore dev d cb) } cb
      (writeBufs dev d r m cb) false) (hok : SmoothStep (.ok w) e)
    (hs : Dev.step (.ok w) e = some s) : WriteState dev d s := by
  obtain ⟨f, transferred, junk, used, hf, hcb, hio, hvbufs, rfl⟩ := h.next_answer hok hs
  have hown : (w.ios f.io).desc = { d with retval := asRetval (doneBefore dev d cb) } := by
    rw [hio, h.own]
  have hsame : ∀ r m, writeBufs dev { d with retval := asRetval (doneBefore dev d cb) } r m cb =
      writeBufs dev d r m cb := fun r m => writeBufs_congr (.retval _ _) cb
  have hshape : Shape w.dev (w.ios f.io).desc f.cb f.task.vbufs := by
    rw [hown, h.dev, hcb]
    refine .write htype ?_ r m (by rw [hvbufs, hsame])
    rw [partExists_congr (.retval _ _)]
    exact hpart
  have hexec := exec_spec (t := t) hshape (.done transferred junk used)
  generalize w.exec t f (.done transferred junk used) = v at hexec ⊢
  cases hexec with
  | read a vbufs buf used failed hread hbufs hfail =>
      rw [← hcb, hread] at hpart
      exact hpart.elim
  | blockRead r' m' transferred junk used hread hbufs =>
      rw [hown, h.dev, hcb, hsame]
      rw [hcb] at hread
      refine .sending _ disk t cb ⟨0, 0⟩ _ true hpart (fun k _ => ?_) (fun _ => rfl) (h.answered hf used)
      rw [merged_of_read hread]
  | written r' m' transferred junk used hwrite hbufs =>
      rw [hown, h.dev, hcb, hsame] at hbufs
      obtain ⟨-, hcarried⟩ := writeBufs_inj hpart (hvbufs.symm.trans hbufs)
      have hm' : ∀ k < dev.blockSize, merged dev d m' cb k = m' k := by
        by_cases hholds : cb ≠ .blkWriteFullBlocksDone ∨ firstResid dev d ≠ 0
        · rw [← hcarried hholds]
          exact hm
        · -- there is no head, and the block is not one of the buffers
          rw [not_or, Decidable.not_not, Decidable.not_not] at hholds
          intro k _
          rw [hholds.1, merged, headLen_of_aligned hholds.2, Bytes.patch_zero]
      have hdone : Alone (w.answer t f (writeBufs w.dev (w.ios f.io).desc ⟨0, 0⟩ m' f.cb) used) dev disk
          t { d with retval := asRetval (doneBefore dev d cb) } cb (writeBufs dev d ⟨0, 0⟩ m' cb)
          true := by
        rw [hown, h.dev, hcb, hsame]
        exact h.answered hf used
      exact .sending _ _ t cb ⟨0, 0⟩ m' true hpart hm' (fun _ => rfl) { hdone with disk := rfl }

theorem reaped {cb : TaskCb} {r : VirtioScsiCmdResp} {m : Bytes} {s : Except Fault World} {e : Event}
    (hd : InRange dev d) (hlt : d.nbytes < 2 ^ 31) (hpart : partExists dev d cb)
    (hgood : r.good = true)
    (h : Alone w dev disk t { d with retval := asRetval (doneBefore dev d cb) } cb
      (writeBufs dev d r m cb) true) (hok : CalmStep e) (hs : Dev.step (.ok w) e = some s) :
    WriteState dev d s := by
  have hown : ((w.take t).ios 0).desc = { d with retval := asRetval (doneBefore dev d cb) } :=
    congrArg Io.desc h.own
  have htake : (w.take t).dev = dev := h.dev
  have hbody := bodyLen_le dev d
  have hbad : ∀ {p : Prop}, r.good = false → p := fun hfalse =>
    absurd (hfalse.symm.trans hgood) Bool.false_ne_true
  cases cb with
  | blkReadDone => exact hpart.elim
  | blkReadFirstBlockDone =>
      obtain ⟨w', rfl, ⟨hdrop, -⟩ | ⟨-, m', hm', hpass⟩⟩ := h.next_reap hok hs fun task hvbufs =>
        blkReadFirstBlockDone_calls h.ready (by rw [htake]; exact hvbufs)
      · exact hbad (hdrop trivial)
      rw [hown, htake, head_range hd.ok] at hm'
      have h' := h.passed hpass
      rw [hown, htake] at h'
      have hbufs : headWriteBufs dev { d with retval := asRetval (doneBefore dev d .blkReadFirstBlockDone) }
          m' (firstResid dev d) (firstResid dev d + headLen dev d) = bodyWriteBufs dev d ⟨0, 0⟩ m' :=
        headWriteBufs_eq (hd.retval _) hpart
      rw [hbufs] at h'
      refine .sending w' disk _ .blkWriteFullBlocksDone ⟨0, 0⟩ m' false ?_
        (fun k hk => merged_idem m (hm' k hk)) (fun hans => by cases hans) h'
      exact Nat.lt_of_lt_of_le (headLen_pos hd hpart) (Nat.le_add_right ..)
  | blkWriteFullBlocksDone =>
      obtain ⟨q, data, hsplit, hne, hsum⟩ := bodyWriteBufs_split (r := r) (m := m) hd
      have hresid : sumRanges data ≠ d.nbytes →
          addSize d.offset d.nbytes % dev.blockSize ≠ 0 := fun hdiff => by
        rw [addSize_eq hd.lt]
        exact Nat.ne_of_gt (lastResid_pos hd.ok (hsum ▸ hdiff))
      obtain ⟨w', rfl, ⟨hfail, -⟩ | ⟨-, desc, hdesc, hend⟩⟩ := h.next_reap hok hs fun task hvbufs =>
        blkWriteFullBlocksDone_calls h.ready hne (hvbufs.trans hsplit) fun _ => by
          rw [hown, htake]
          exact hresid
      · exact hbad hfail
      subst hdesc
      rw [hown, htake, hsum] at hend
      have hcount : toSsize (bodyLen dev d) = asRetval (bodyLen dev d) :=
        toSsize_asRetval hpart (by omega)
      rw [hcount] at hend
      rcases hend with ⟨hall, hclosed⟩ | ⟨hdiff, ⟨hcalm, -⟩ | ⟨-, m', hpass⟩⟩
      · have hpos := hd.pos
        have hall : bodyLen dev d = d.nbytes := hall
        have hval : asRetval (bodyLen dev d) = d.nbytes := by rw [hall, asRetval, if_neg (by omega)]
        rw [hval] at hclosed
        exact .finished w' disk (h.closed hclosed)
      · exact absurd trivial hcalm
      · have h' := h.passed hpass
        simp only [addSize_eq hd.lt] at h'
        exact .sending w' disk _ .blkReadLastBlockDone ⟨0, 0⟩ m' false hdiff (fun _ _ => rfl)
          (fun hans => by cases hans) h'
  | blkReadLastBlockDone =>
      obtain ⟨w', rfl, ⟨hdrop, -⟩ | ⟨-, m', hm', hpass⟩⟩ := h.next_reap hok hs fun task hvbufs =>
        blkReadLastBlockDone_calls h.ready (by rw [htake]; exact hvbufs)
      · exact hbad (hdrop trivial)
      rw [hown, htake, tail_range hd.ok, subSize_eq (lastResid_le hd hpart) (by omega)] at hm'
      have h' := h.passed hpass
      rw [hown, htake] at h'
      simp only [addSize_eq hd.lt] at h'
      exact .sending w' disk _ .blkWriteLastBlockDone ⟨0, 0⟩ m' false hpart
        (fun k hk => merged_idem m (hm' k hk)) (fun hans => by cases hans) h'
  | blkWriteLastBlockDone =>
      obtain ⟨w', rfl, ⟨hfail, -⟩ | ⟨-, hclosed⟩⟩ := h.next_reap hok hs fun task hvbufs =>
        blkWriteLastBlockDone_calls h.ready (by rw [htake]; exact hvbufs)
      · exact hbad hfail
      have hpos := hd.pos
      have hval : asRetval d.nbytes = d.nbytes := by rw [asRetval, if_neg (by omega)]
      have hlast : lastRetval dev { d with retval := asRetval (bodyLen dev d) } = asRetval d.nbytes :=
        lastRetval_eq (hd.retval _) hlt hpart rfl
      rw [hown, tail_range hd.ok] at hclosed
      have hfinished : Finished w' dev disk { d with
          retval := lastRetval dev { d with retval := asRetval (bodyLen dev d) } } := h.closed hclosed
      rw [hlast, hval] at hfinished
      exact .finished w' disk hfinished

theorem step {s s' : Except Fault World} {e : Event} (h : WriteState dev d s) (hd : InRange dev d)
    (htype : d.type = .write) (hlt : d.nbytes < 2 ^ 31) (hok : SmoothStep s e)
    (hs : Dev.step s e = some s') : WriteState dev d s' := by
  cases h with
  | sending w disk t cb r m answered hpart hm hgood h =>
      cases answered with
      | false => exact answered htype hpart hm h hok hs
      | true => exact reaped hd hlt hpart (hgood rfl) h hok.calm hs
  | finished w disk h => exact (no_step h.flights hok.calm hs).elim

end WriteState

/-- A request of nothing is accepted, and no command is sent for it. -/
theorem submit_empty {io : Nat} (hfresh : (w.ios io).state = .fresh) (htype : d.type ≠ .other)
    (hoff : d.offset ≤ w.dev.cap) (hn : d.nbytes = 0) (os : List (Option Bytes)) :
    stepWorld w (.submit io d os) = some (.ok ((w.enter io d).leave io 0)) := by
  have hown : (w.enter io d).ios io = ⟨d, .busy⟩ := Function.update_self ..
  have hbusy : (w.enter io d).ioBusy io = true := by simp [World.ioBusy, hown]
  have hoff : ¬ ((w.enter io d).ios io).desc.offset > (w.enter io d).dev.cap := by
    rw [hown]
    exact Nat.not_lt.mpr hoff
  have hzero : ((w.enter io d).ios io).desc.nbytes = 0 := by
    rw [hown]
    exact hn
  have hsubmit : Calls False False (virtioSubmit io) (fun rc v => rc = 0 ∧ v = w.enter io d)
      (w.enter io d) := by
    refine wpIf_bind (calls_useIo hbusy ?_)
    rw [hown]
    cases h : d.type with
    | other => exact absurd h htype
    | _ =>
        refine wpIf_bind (calls_useIo hbusy (wpIf_bind (wpIf_state ?_)))
        exact wpIf_ite (fun hbig => absurd hbig hoff) fun _ =>
          wpIf_ite (fun _ => wpIf_pure ⟨rfl, rfl⟩) fun hne => absurd hzero hne
  obtain ⟨rc, v, os', hrun, rfl, rfl⟩ := hsubmit.ends id fun o (_ : o ∈ os) hcalm => hcalm.elim
  simp only [stepWorld, if_pos hfresh, hrun]
  rfl

theorem WriteUses.empty (htype : d.type = .write) (hoff : d.offset ≤ dev.cap) (hn : d.nbytes = 0) :
    WriteUses dev d 0 := by
  rintro d' disk hd' s ⟨os, s₁, es, hos, hsubmit, hrun⟩
  rw [submit_empty rfl (by rw [hd'.type, htype]; exact IoType.noConfusion) (by rw [hd'.offset]; exact hoff)
    (by rw [hd'.nbytes]; exact hn)] at hsubmit
  cases hsubmit
  have hstay := hrun.invariant (I := (· = .ok (((init dev disk).enter 0 d').leave 0 0)))
    (fun s e s' h hok hs => by
      subst h
      exact (no_step (fun _ => rfl) hok.calm hs).elim) rfl
  subst hstay
  exact ⟨_, rfl, ⟨fun t f hf => absurd hf (Option.some_ne_none f).symm, fun hpos => absurd hpos (Nat.lt_irrefl 0)⟩⟩

theorem reqBuf_lba {a b n n' : Nat} {isWrite isWrite' : Bool}
    (h : reqBuf dev a n isWrite = reqBuf dev b n' isWrite') :
    a % 2 ^ lbaBits dev = b % 2 ^ lbaBits dev := by
  have ha : commandOf { (VirtioTask.empty 1 : Task) with vbufs := [reqBuf dev a n isWrite] } = _ :=
    commandOf_reqBuf rfl
  have hb : commandOf { (VirtioTask.empty 1 : Task) with vbufs := [reqBuf dev b n' isWrite'] } = _ :=
    commandOf_reqBuf rfl
  rw [h, hb] at ha
  exact congrArg RwCommand.lba (Option.some.inj ha).symm

/-- Only a device of too many blocks ends within a block, and its addresses are not cut off. -/
theorem VirtioDev.Geometry.lbaBits_eq (hg : dev.Geometry) (hend : dev.cap % dev.blockSize ≠ 0) :
    lbaBits dev = 64 := by
  have hint := hg.int
  refine if_pos (Nat.lt_of_not_le fun hfew => hend ?_)
  have hsmall : dev.blockSize * dev.numBlocks ≤ 2 ^ 31 * 2 ^ 32 :=
    Nat.mul_le_mul (Nat.le_of_lt hint) hfew
  have hcap : dev.cap = dev.blockSize * dev.numBlocks := by
    rw [hg.cap]
    exact Nat.mod_eq_of_lt (Nat.lt_of_le_of_lt hsmall (by decide))
  rw [hcap, Nat.mul_mod_right]

/-- A write beyond the end of the device that is in every state one of the bytes up to it. -/
structure Overlong (dev : VirtioDev) (disk : Bytes) (d : AsyncIoDesc) : Prop where
  geometry : dev.Geometry
  pos : 0 < dev.blockSize
  offset : d.offset ≤ dev.cap
  past : dev.cap < d.offset + d.nbytes
  sum : d.offset + d.nbytes < 2 ^ 64
  all : ∀ s, Follows dev disk d s → ∃ w, s = .ok w ∧ WriteOf { d with nbytes := dev.cap - d.offset } w

namespace Overlong

variable {x : Int} {m : Bytes} {r : VirtioScsiCmdResp}

/-- The callback reads the block in which the unclipped write ends. The write up to the end of
the device needs another block, or it ends elsewhere in this one. -/
theorem no_tail (ho : Overlong dev disk₀ d)
    (hr : Follows dev disk₀ d (.ok w)) (h : Alone w dev disk t { d with retval := x }
      .blkReadLastBlockDone [reqBuf dev (addSize d.offset d.nbytes / dev.blockSize) 1 false, respBuf r,
        blockBuf dev m true 0 (addSize d.offset d.nbytes % dev.blockSize)] false) : False := by
  have hpos := ho.pos
  have hoff := ho.offset
  have hpast := ho.past
  have hsum := ho.sum
  have hg := ho.geometry
  obtain ⟨w₁, hw₁, hof⟩ := ho.all _ hr
  cases hw₁
  obtain ⟨hne, r', m', hbufs, -⟩ := h.commandOf hof
  rw [addSize_eq hsum] at hbufs
  simp only [writeBufs, lastReadBufs, List.cons.injEq, and_true] at hbufs
  obtain ⟨hreq, -, hblock⟩ := hbufs
  have hend : d.offset + (dev.cap - d.offset) = dev.cap := Nat.add_sub_cancel' hoff
  have hresid : (d.offset + d.nbytes) % dev.blockSize = dev.cap % dev.blockSize := by
    have hrange : _ = lastResid dev { d with nbytes := dev.cap - d.offset } :=
      congrArg VirtioBuffer.offsetTo hblock
    rw [lastResid, hend] at hrange
    exact hrange
  have hwithin : 0 < dev.cap % dev.blockSize := by
    have hlast := lastResid_pos ⟨hpos, hg.int, hg.cap_lt⟩ hne
    rw [lastResid, hend] at hlast
    exact hlast
  have hlba := reqBuf_lba hreq
  have hdiv := Nat.div_le_self (d.offset + d.nbytes) dev.blockSize
  have hdiv' := Nat.div_le_self dev.cap dev.blockSize
  rw [hend, hg.lbaBits_eq (Nat.ne_of_gt hwithin), Nat.mod_eq_of_lt (by omega),
    Nat.mod_eq_of_lt (by omega)] at hlba
  have hlong := Nat.div_add_mod (d.offset + d.nbytes) dev.blockSize
  rw [hlba, hresid, Nat.div_add_mod] at hlong
  omega

/-- Fewer bytes are written than the callback counts for the whole write. -/
theorem no_body (ho : Overlong dev disk₀ d) {lba n : Nat} {data : List Buffer} (hdata : data ≠ []) (hout : ∀ b ∈ data, b.response = false)
    (hshort : sumRanges data ≤ dev.cap - d.offset) (hr : Follows dev disk₀ d (.ok w))
    (h : Alone w dev disk t { d with retval := x } .blkWriteFullBlocksDone
      (reqBuf dev lba n true :: (data ++ [respBuf ⟨0, 0⟩])) false) : False := by
  obtain ⟨w₁, disk₁, hr₁, h₁⟩ := hr.write h
  rw [setResp_written hout] at h₁
  have hown : ((w₁.take t).ios 0).desc = { d with retval := x } := congrArg Io.desc h₁.own
  have htake : (w₁.take t).dev = dev := h₁.dev
  have hoff := ho.offset
  have hpast := ho.past
  obtain ⟨w₂, hr₂, ⟨hbad, -⟩ | ⟨-, desc, hdesc, hend⟩⟩ := hr₁.reap ho.all h₁ fun task hvbufs =>
    blkWriteFullBlocksDone_calls h₁.ready hdata hvbufs fun hx => absurd trivial hx
  · cases hbad
  subst hdesc
  rw [hown, htake] at hend
  -- the value is a conversion of a 64 bit number, which nothing here should unfold
  generalize toSsize (sumRanges data) = y at hend
  rcases hend with ⟨hall, -⟩ | ⟨-, ⟨hcalm, -⟩ | ⟨-, m', hpass⟩⟩
  · have hall : sumRanges data = d.nbytes := hall
    omega
  · exact absurd trivial hcalm
  · exact ho.no_tail hr₂ (h₁.passed hpass)

/-- The first block and the whole blocks after it are written by the callback. -/
theorem no_head (ho : Overlong dev disk₀ d) {lo hi : Nat}
    (hr : Follows dev disk₀ d (.ok w)) (h : Alone w dev disk t { d with retval := x }
      .blkReadFirstBlockDone [reqBuf dev (d.offset / dev.blockSize) 1 false, respBuf r,
        blockBuf dev m true lo hi] false) : False := by
  obtain ⟨w₁, m₁, hr₁, h₁⟩ := hr.read h
  have hown : ((w₁.take t).ios 0).desc = { d with retval := x } := congrArg Io.desc h₁.own
  have htake : (w₁.take t).dev = dev := h₁.dev
  obtain ⟨w₂, hr₂, ⟨hdrop, -⟩ | ⟨-, m', -, hpass⟩⟩ := hr₁.reap ho.all h₁ fun task hvbufs =>
    blkReadFirstBlockDone_calls h₁.ready (by rw [htake]; exact hvbufs)
  · cases hdrop trivial
  have h₂ := h₁.passed hpass
  rw [htake, hown] at h₂
  obtain ⟨n, data, hsplit, hne, hout, -⟩ := @headWriteBufs_split dev { d with retval := x } m' lo hi
    (Nat.lt_of_le_of_lt (Nat.le_add_left ..) ho.sum)
  rw [hsplit] at h₂
  -- the command that is wanted has as many data buffers, and they hold no more than is wanted
  obtain ⟨w₃, hw₃, hof⟩ := ho.all _ hr₂
  cases hw₃
  obtain ⟨hpart, r', m'', hbufs, -⟩ := h₂.commandOf hof
  have hbody := bodyLen_le dev { d with nbytes := dev.cap - d.offset }
  have hrange : InRange dev { d with nbytes := dev.cap - d.offset } :=
    ho.geometry.inRange (Nat.lt_of_lt_of_le hpart hbody) (Nat.le_of_eq (Nat.add_sub_cancel' ho.offset))
  obtain ⟨q, data', hsplit', -, hsum'⟩ := bodyWriteBufs_split (r := r') (m := m'') hrange
  rw [show writeBufs dev { d with nbytes := dev.cap - d.offset } r' m'' .blkWriteFullBlocksDone = _
    from hsplit', List.cons.injEq] at hbufs
  obtain ⟨rfl, -⟩ := List.append_inj' hbufs.2 rfl
  exact ho.no_body hne hout (hsum' ▸ hbody) hr₂ h₂

/-- A write that begins with its last block takes the bytes from where the unclipped one ends. -/
theorem no_last (ho : Overlong dev disk₀ d) (hbuf : d.buf = fun k => if k = 0 then 1 else 0)
    (hresid : firstResid dev d = 0) (hone : dev.cap - d.offset < dev.blockSize)
    (hr : Follows dev disk₀ d (.ok w)) (h : Alone w dev disk t { d with retval := x }
      .blkReadLastBlockDone [reqBuf dev (d.offset / dev.blockSize) 1 false, respBuf r,
        blockBuf dev m true 0 (dev.cap - d.offset)] false) : False := by
  have hpos := ho.pos
  have hpast := ho.past
  have hsum := ho.sum
  have hint := ho.geometry.int
  obtain ⟨w₁, m₁, hr₁, h₁⟩ := hr.read h
  have hown : ((w₁.take t).ios 0).desc = { d with retval := x } := congrArg Io.desc h₁.own
  have htake : (w₁.take t).dev = dev := h₁.dev
  obtain ⟨w₂, hr₂, ⟨hdrop, -⟩ | ⟨-, m', hm', hpass⟩⟩ := hr₁.reap ho.all h₁ fun task hvbufs =>
    blkReadLastBlockDone_calls h₁.ready (by rw [htake]; exact hvbufs)
  · cases hdrop trivial
  have h₂ := h₁.passed hpass
  rw [htake, hown] at h₂
  rw [htake, hown, subSize_eq (Nat.zero_le _) (by omega), Nat.sub_zero] at hm'
  obtain ⟨w₃, hw₃, hof⟩ := ho.all _ hr₂
  cases hw₃
  obtain ⟨hne, r', m'', hbufs, hmerged⟩ := h₂.commandOf hof
  have hn : 0 < dev.cap - d.offset := by
    have hbody := bodyLen_le dev { d with nbytes := dev.cap - d.offset }
    have hne : bodyLen dev { d with nbytes := dev.cap - d.offset } ≠ dev.cap - d.offset := hne
    have hbody : bodyLen dev { d with nbytes := dev.cap - d.offset } ≤ dev.cap - d.offset := hbody
    omega
  have hlast : lastResid dev { d with nbytes := dev.cap - d.offset } = dev.cap - d.offset := by
    show (d.offset + (dev.cap - d.offset)) % dev.blockSize = _
    rw [Nat.add_mod, show d.offset % dev.blockSize = 0 from hresid, Nat.zero_add, Nat.mod_mod,
      Nat.mod_eq_of_lt hone]
  simp only [writeBufs, lastWriteBufs, List.cons.injEq, and_true] at hbufs
  obtain ⟨-, hblock, -⟩ := hbufs
  have hsame : m' = m'' := by
    have hdata := congrArg VirtioBuffer.buf hblock
    cases hdata
    rfl
  -- the first byte of the block
  have hwanted := hmerged 0 hpos
  have hgiven := hm' 0 hpos
  rw [hsame] at hgiven
  simp only [merged, hlast] at hwanted
  rw [Bytes.patch_inside _ _ (Nat.le_refl _) (by omega), hgiven,
    Bytes.patch_inside _ _ (Nat.le_refl _) (by omega)] at hwanted
  have hrest : subSize d.nbytes (dev.cap - d.offset) = d.nbytes - (dev.cap - d.offset) :=
    subSize_eq (by omega) (by omega)
  simp only [hbuf, hrest, Nat.sub_self, Nat.add_zero, if_true] at hwanted
  rw [if_neg (by omega)] at hwanted
  cases hwanted

end Overlong

/-- Only a write that ends within the device is one of the bytes up to its end. -/
theorem WriteUses.inRange (hg : dev.Geometry) (hpos : 0 < dev.blockSize) (htype : d.type = .write)
    (hoff : d.offset ≤ dev.cap) (hsum : d.offset + d.nbytes < 2 ^ 64)
    (h : WriteUses dev d (min d.nbytes (dev.cap - d.offset))) : d.offset + d.nbytes ≤ dev.cap := by
  refine Nat.le_of_not_lt fun hpast => ?_
  rw [Nat.min_eq_right (by omega)] at h
  obtain ⟨d', hd', hbuf⟩ : ∃ d', SameRequest d d' ∧ d'.buf = fun k => if k = 0 then 1 else 0 :=
    ⟨{ d with buf := fun k => if k = 0 then 1 else 0 }, ⟨rfl, rfl, rfl⟩, rfl⟩
  have hP := h d' (fun _ => 0) hd'
  rw [← hd'.type] at htype
  rw [← hd'.offset] at hoff hpast hsum hP
  rw [← hd'.nbytes] at hpast hsum
  have hlen : clippedLen dev d' = dev.cap - d'.offset := by
    rw [clippedLen, clip_eq hoff hsum, Nat.min_eq_right (by omega)]
  have hnone : ∀ o ∈ ([] : List (Option Bytes)), o.isSome = true := fun o ho =>
    absurd ho List.not_mem_nil
  obtain ⟨w, cb, vbufs, hsubmit, hopen, hw⟩ :=
    submitted (fun _ => 0) htype hpos hoff (show 0 < d'.nbytes by omega) hnone
  have hr : Follows dev (fun _ => 0) d' (.ok w) := ⟨[], _, [], hnone, hsubmit, .nil _⟩
  have ho : Overlong dev (fun _ => 0) d' := ⟨hg, hpos, hoff, hpast, hsum, hP⟩
  cases hopen with
  | head m hresid => exact ho.no_head hr hw
  | tail m hresid hone =>
      rw [hlen] at hone hw
      rw [Nat.mod_eq_of_lt hone] at hw
      exact ho.no_last hbuf hresid hone hr hw
  | body hresid hmany =>
      have hwhole := Nat.div_mul_le_self (dev.cap - d'.offset) dev.blockSize
      have hcap := hg.cap_lt
      rw [hlen] at hw
      have hne : [userBuf 0 ((dev.cap - d'.offset) / dev.blockSize * dev.blockSize) false] ≠ [] := by
        simp
      refine ho.no_body hne (by simp [userBuf]) ?_ hr hw
      rw [sumRanges_one]
      show subSize ((dev.cap - d'.offset) / dev.blockSize * dev.blockSize) 0 ≤ _
      rw [subSize_eq (Nat.zero_le _) (by omega), Nat.sub_zero]
      exact hwhole

end VhostUser.Dev
