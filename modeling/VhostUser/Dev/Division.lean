import VhostUser.Dev.Sync

/-! # Division by the block size

A request divides by the block size and by nothing else, so that no call of the two
interfaces divides by zero where the block size is not zero. Where it is zero, every
request that is not empty and does not start past the end does.
-/

namespace VhostUser.Dev

open VhostUser.Lib Prog

/-- The program does not divide by zero, in whatever state it is run. -/
abbrev Divides {α : Type} (m : M α) : Prop := Never Fault.divideByZero m

/-! ## Functions of the task -/

theorem divides_check (p : World → Bool) {e : Fault} (he : e ≠ .divideByZero) :
    Divides (Prog.check p e) := never_check fun heq => absurd heq he

theorem divides_divideBy {n : Nat} (hn : n ≠ 0) : Divides (divideBy n) :=
  never_check fun _ _ => by simpa using hn

theorem divides_assertThat (b : Bool) : Divides (assertThat b) := divides_check _ (by decide)

theorem divides_useTask (t : TaskRef) : Divides (useTask t) := divides_check _ (by decide)

theorem divides_setRetval (io : Nat) (r : Int) : Divides (setRetval io r) :=
  never_bind (divides_check _ (by decide)) fun _ => never_update _

theorem divides_attempt : Divides attempt := by
  refine never_bind never_outcome fun o => ?_
  rcases o with _ | _ | m
  · exact never_pure _
  · exact never_bind (never_update _) fun _ => never_pure _
  · exact never_pure _

theorem divides_virtioTaskCreate (nbufs : Nat) : Divides (virtioTaskCreate nbufs) := by
  refine never_bind divides_attempt fun m => ?_
  cases m with
  | none => exact never_pure _
  | some m =>
      exact never_bind never_state fun _ => never_bind (never_update _) fun _ => never_pure _

theorem divides_virtioTaskDestroy (t : TaskRef) : Divides (virtioTaskDestroy t) :=
  never_bind (divides_useTask t) fun _ => never_update _

theorem divides_virtioTaskAllocBufPart (t : TaskRef) (type : Bytes → BufPtr) (size : Nat)
    (response zero : Bool) (lo hi : Nat) :
    Divides (virtioTaskAllocBufPart t type size response zero lo hi) := by
  refine never_bind (divides_useTask t) fun _ => never_bind (divides_assertThat _) fun _ =>
    never_bind divides_attempt fun m => ?_
  cases m with
  | none => exact never_pure _
  | some m => exact never_pure _

theorem divides_virtioTaskAllocBuf (t : TaskRef) (type : Bytes → BufPtr) (size : Nat)
    (response zero : Bool) : Divides (virtioTaskAllocBuf t type size response zero) :=
  divides_virtioTaskAllocBufPart ..

theorem divides_virtioTaskAddBuf (t : TaskRef) (buf : BufPtr) (size : Nat) (response : Bool) :
    Divides (virtioTaskAddBuf t buf size response) :=
  never_bind (divides_useTask t) fun _ => never_bind (divides_assertThat _) fun _ => never_pure _

theorem divides_virtioTaskGetBuf (t : TaskRef) (i : Nat) : Divides (virtioTaskGetBuf t i) :=
  never_bind (divides_useTask t) fun _ => never_pure _

theorem divides_vbufOf (t : TaskRef) (i : Nat) : Divides (vbufOf t i) := by
  refine never_bind (divides_useTask t) fun _ => ?_
  split
  · exact never_pure _
  · exact never_fault (by decide)

theorem divides_respGood (resp : Option BufPtr) : Divides (respGood resp) := by
  unfold respGood
  split
  · exact never_pure _
  · exact never_fault (by decide)

/-! ## Commands of a synchronous call -/

section Sync

variable (device : Device) (io : Nat)

theorem divides_vringSubmitTaskSync (t : TaskRef) : Divides (vringSubmitTaskSync device t io) := by
  refine never_bind (divides_useTask t) fun _ => never_bind divides_attempt fun m => ?_
  cases m with
  | none => exact never_pure _
  | some m =>
      exact never_bind (never_update _) fun _ => never_bind never_state fun _ =>
        never_bind (never_update _) fun _ => never_pure _

theorem divides_blkFailed (task : TaskRef) (buf : BufPtr) : Divides (blkFailed task buf) :=
  never_bind (divides_virtioTaskDestroy task) fun _ => never_pure _

theorem divides_sendRead (task : TaskRef) (resp : Nat) (buf : BufPtr) :
    Divides (sendRead device io task resp buf) := by
  refine never_bind (divides_vringSubmitTaskSync device io task) fun answered => ?_
  cases answered with
  | none => exact divides_blkFailed ..
  | some task =>
      refine never_bind (divides_vbufOf ..) fun data => never_bind (divides_virtioTaskGetBuf ..)
        fun _ => never_bind (divides_respGood _) fun good => never_ite (fun _ => ?_) fun _ => ?_
      · exact never_bind (divides_assertThat _) fun _ => never_bind (divides_virtioTaskDestroy _)
          fun _ => never_pure _
      · exact divides_blkFailed ..

theorem divides_sendWrite (task : TaskRef) (resp : Nat) (nbytes : Int) (buf : BufPtr) :
    Divides (sendWrite device io task resp nbytes buf) := by
  refine never_bind (divides_vringSubmitTaskSync device io task) fun answered => ?_
  cases answered with
  | none => exact divides_blkFailed ..
  | some task =>
      refine never_bind (divides_virtioTaskGetBuf ..) fun _ => never_bind (divides_respGood _)
        fun good => never_ite (fun _ => ?_) fun _ => ?_
      · exact never_bind (divides_virtioTaskDestroy _) fun _ => never_pure _
      · exact divides_blkFailed ..

theorem divides_blkReadVirtioDev (buf : BufPtr) (blkOffset nblk : Nat) :
    Divides (blkReadVirtioDev device io buf blkOffset nblk) := by
  refine never_bind (divides_virtioTaskCreate 3) fun created => ?_
  cases created with
  | none => exact never_pure _
  | some task =>
      refine never_bind never_state fun w => never_bind (divides_virtioTaskAllocBuf ..) fun req =>
        never_bind (divides_virtioTaskAllocBuf ..) fun resp =>
          never_bind (divides_virtioTaskAddBuf ..) fun task => ?_
      split
      · exact divides_sendRead ..
      · exact divides_blkFailed ..

theorem divides_blkWriteVirtioDev (buf : BufPtr) (blkOffset nblk : Nat) :
    Divides (blkWriteVirtioDev device io buf blkOffset nblk) := by
  refine never_bind never_state fun w => never_bind (divides_virtioTaskCreate 3) fun created => ?_
  cases created with
  | none => exact never_pure _
  | some task =>
      refine never_bind (divides_virtioTaskAllocBuf ..) fun req =>
        never_bind (divides_virtioTaskAddBuf ..) fun task =>
          never_bind (divides_virtioTaskAllocBuf ..) fun resp => ?_
      split
      · exact divides_sendWrite ..
      · exact divides_blkFailed ..

theorem divides_allocBounceBuf : Divides allocBounceBuf := by
  refine never_bind divides_attempt fun m => ?_
  cases m with
  | none => exact never_fault (by decide)
  | some m => exact never_pure _

theorem divides_readPartialBlock (blkNum offStart data nbytes : Nat) :
    Divides (readPartialBlock device io blkNum offStart data nbytes) := by
  refine never_bind divides_allocBounceBuf fun m => never_bind never_state fun w =>
    never_bind (divides_blkReadVirtioDev ..) fun res => never_ite (fun _ => never_pure _) fun _ => ?_
  exact never_bind never_state fun w => never_bind (never_update _) fun _ => never_pure _

theorem divides_writePartialBlock (blkNum offStart data nbytes : Nat) :
    Divides (writePartialBlock device io blkNum offStart data nbytes) := by
  refine never_bind divides_allocBounceBuf fun m => never_bind never_state fun w =>
    never_bind (divides_blkReadVirtioDev ..) fun res => never_ite (fun _ => never_pure _) fun _ => ?_
  exact never_bind never_state fun w => never_bind (divides_blkWriteVirtioDev ..) fun _ =>
    never_pure _

theorem divides_readTail (blkOffset readBytes nbytes : Nat) :
    Divides (readTail device io blkOffset readBytes nbytes) := by
  refine never_bind never_state fun w => never_ite (fun _ => ?_) fun _ => never_pure _
  exact never_bind (divides_readPartialBlock ..) fun ret =>
    never_ite (fun _ => never_pure _) fun _ => never_pure _

theorem divides_writeTail (blkOffset writtenBytes nbytes : Nat) :
    Divides (writeTail device io blkOffset writtenBytes nbytes) := by
  refine never_bind never_state fun w => never_ite (fun _ => ?_) fun _ => never_pure _
  exact never_bind (divides_writePartialBlock ..) fun ret =>
    never_ite (fun _ => never_pure _) fun _ => never_pure _

theorem divides_readRest (blkOffset readBytes nbytes : Nat) :
    Divides (readRest device io blkOffset readBytes nbytes) := by
  refine never_bind never_state fun w => never_ite (fun _ => ?_) fun _ => divides_readTail ..
  exact never_bind (divides_blkReadVirtioDev ..) fun res => never_ite (fun _ => never_pure _)
    fun _ => never_ite (fun _ => never_pure _) fun _ => divides_readTail ..

theorem divides_writeRest (blkOffset writtenBytes nbytes : Nat) :
    Divides (writeRest device io blkOffset writtenBytes nbytes) := by
  refine never_bind never_state fun w => never_ite (fun _ => ?_) fun _ => divides_writeTail ..
  exact never_bind (divides_blkWriteVirtioDev ..) fun res => never_ite (fun _ => never_pure _)
    fun _ => never_ite (fun _ => never_pure _) fun _ => divides_writeTail ..

end Sync

/-! ## Submissions -/

theorem divides_giveUp (task : TaskRef) : Divides (giveUp task) :=
  never_bind (divides_virtioTaskDestroy task) fun _ => never_pure _

theorem divides_vringSubmitTask (t : TaskRef) (cb : TaskCb) (io : Nat) :
    Divides (vringSubmitTask t cb io) := by
  refine never_bind (divides_useTask t) fun _ => never_bind divides_attempt fun m => ?_
  cases m with
  | none => exact never_pure _
  | some m => exact never_bind (never_update _) fun _ => never_pure _

theorem divides_submitOrGiveUp (t : TaskRef) (cb : TaskCb) (io : Nat) :
    Divides (do let rc ← vringSubmitTask t cb io; if rc ≠ 0 then giveUp t else pure 0) :=
  never_bind (divides_vringSubmitTask t cb io) fun _ => never_ite (fun _ => divides_giveUp t)
    fun _ => never_pure _

theorem divides_addPartialBlock (dev : VirtioDev) (task : TaskRef) (partly : Bool) (lo hi : Nat) :
    Divides (addPartialBlock dev task partly lo hi) :=
  never_ite (fun _ => never_bind (divides_virtioTaskAllocBufPart ..) fun _ => never_pure _)
    fun _ => never_pure _

theorem divides_addWholeBlocks (dev : VirtioDev) (task : TaskRef) (pos nblk : Nat) :
    Divides (addWholeBlocks dev task pos nblk) :=
  never_ite (fun _ => divides_virtioTaskAddBuf ..) fun _ => never_pure _

theorem divides_submitPartialRead (dev : VirtioDev) (task : TaskRef) (lo hi : Nat) (cb : TaskCb)
    (io : Nat) : Divides (submitPartialRead dev task lo hi cb io) := by
  refine never_bind (divides_virtioTaskAllocBuf ..) fun resp => ?_
  cases resp with
  | none => exact divides_giveUp _
  | some resp =>
      refine never_bind (divides_virtioTaskAllocBufPart ..) fun data => ?_
      cases data with
      | none => exact divides_giveUp _
      | some data => exact divides_submitOrGiveUp ..

/-! ## Whole requests -/

section Requests

variable {w : World} {io : Nat}

theorem state_bind_ne {α : Type} {f : World → M α} (h : Divides (f w)) (os : List (Option Bytes)) :
    (Prog.state >>= f) (w, os) ≠ .error .divideByZero := h.ne (w, os)

theorem readVirtioDev_divides (hpos : w.dev.blockSize ≠ 0) (device : Device) (offset nbytes : Nat)
    (os : List (Option Bytes)) :
    readVirtioDev device io offset nbytes (w, os) ≠ .error .divideByZero := by
  refine state_bind_ne (never_ite (fun _ => never_pure _) fun _ => never_ite (fun _ => never_pure _)
    fun _ => never_bind (divides_divideBy hpos) fun _ => never_ite (fun _ => ?_)
      fun _ => divides_readRest ..) os
  exact never_bind (divides_readPartialBlock ..) fun ret => never_ite (fun _ => never_pure _)
    fun _ => never_ite (fun _ => never_pure _) fun _ => divides_readRest ..

theorem writeVirtioDev_divides (hpos : w.dev.blockSize ≠ 0) (device : Device) (offset nbytes : Nat)
    (os : List (Option Bytes)) :
    writeVirtioDev device io offset nbytes (w, os) ≠ .error .divideByZero := by
  refine state_bind_ne (never_ite (fun _ => never_pure _) fun _ => never_ite (fun _ => never_pure _)
    fun _ => never_bind (divides_divideBy hpos) fun _ => never_ite (fun _ => ?_)
      fun _ => divides_writeRest ..) os
  exact never_bind (divides_writePartialBlock ..) fun ret => never_ite (fun _ => never_pure _)
    fun _ => never_ite (fun _ => never_pure _) fun _ => divides_writeRest ..

theorem useIo_bind_ne {α : Type} {f : AsyncIoDesc → M α} {os : List (Option Bytes)}
    (h : f (w.ios io).desc (w, os) ≠ .error .divideByZero) :
    (useIo io >>= f) (w, os) ≠ .error .divideByZero := by
  have hrun : (useIo io >>= f) (w, os) = (Prog.check (·.ioBusy io) .ioNotOwned (w, os)).bind
      fun q => f (q.2.1.ios io).desc q.2 := by
    unfold useIo
    show Except.bind (Except.bind _ _) _ = _
    cases Prog.check (·.ioBusy io) Fault.ioNotOwned (w, os) with
    | ok q => rfl
    | error e => rfl
  rw [hrun]
  unfold Prog.check
  split
  · exact h
  · nofun

theorem readVirtioDevAsync_divides (hpos : w.dev.blockSize ≠ 0) (os : List (Option Bytes)) :
    readVirtioDevAsync io (w, os) ≠ .error .divideByZero := by
  refine useIo_bind_ne (state_bind_ne (never_ite (fun _ => never_pure _) fun _ =>
    never_ite (fun _ => never_pure _) fun _ => never_bind (divides_virtioTaskCreate 5)
      fun created => ?_) os)
  cases created with
  | none => exact never_pure _
  | some task =>
      refine never_bind (divides_virtioTaskAllocBuf ..) fun req =>
        never_bind (divides_virtioTaskAllocBuf ..) fun resp => ?_
      split
      · refine never_bind (divides_divideBy hpos) fun _ =>
          never_bind (divides_addPartialBlock ..) fun head => ?_
        cases head with
        | none => exact divides_giveUp _
        | some task =>
            refine never_bind (divides_addWholeBlocks ..) fun task =>
              never_bind (divides_addPartialBlock ..) fun tail => ?_
            cases tail with
            | none => exact divides_giveUp _
            | some task => exact divides_submitOrGiveUp ..
      · exact divides_giveUp _

theorem writeVirtioDevAsync_divides (hpos : w.dev.blockSize ≠ 0) (os : List (Option Bytes)) :
    writeVirtioDevAsync io (w, os) ≠ .error .divideByZero := by
  refine useIo_bind_ne (state_bind_ne (never_ite (fun _ => never_pure _) fun _ =>
    never_ite (fun _ => never_pure _) fun _ => never_bind (divides_setRetval ..) fun _ =>
      never_bind (divides_virtioTaskCreate 4) fun created => ?_) os)
  cases created with
  | none => exact never_pure _
  | some task =>
      refine never_bind (divides_virtioTaskAllocBuf ..) fun req => ?_
      cases req with
      | none => exact divides_giveUp _
      | some req =>
          refine never_bind (divides_divideBy hpos) fun _ =>
            never_ite (fun _ => divides_submitPartialRead ..) fun _ => never_ite (fun _ => ?_) fun _ =>
              never_bind (divides_assertThat _) fun _ => divides_submitPartialRead ..
          refine never_bind (divides_virtioTaskAddBuf ..) fun task =>
            never_bind (divides_virtioTaskAllocBuf ..) fun resp => ?_
          cases resp with
          | none => exact divides_giveUp _
          | some resp => exact divides_submitOrGiveUp ..

theorem virtioSubmit_divides (hpos : w.dev.blockSize ≠ 0) (os : List (Option Bytes)) :
    virtioSubmit io (w, os) ≠ .error .divideByZero := by
  apply useIo_bind_ne
  cases (w.ios io).desc.type with
  | read => exact readVirtioDevAsync_divides hpos os
  | write => exact writeVirtioDevAsync_divides hpos os
  | other => nofun

/-- A request that is not empty divides, even where the device has no room for it. -/
theorem readVirtioDev_by_zero (hzero : w.dev.blockSize = 0) (device : Device) {offset nbytes : Nat}
    (hoff : offset ≤ w.dev.cap) (hn : nbytes ≠ 0) (os : List (Option Bytes)) :
    readVirtioDev device io offset nbytes (w, os) = .error .divideByZero := by
  have hcheck : divideBy w.dev.blockSize (w, os) = .error .divideByZero := by
    rw [hzero]
    rfl
  show (if offset > w.dev.cap then (pure (-1) : M Int) else if nbytes = 0 then pure 0
    else divideBy w.dev.blockSize >>= _) (w, os) = _
  rw [if_neg (Nat.not_lt.mpr hoff), if_neg hn]
  show Except.bind (divideBy w.dev.blockSize (w, os)) _ = _
  rw [hcheck]
  rfl

end Requests

end VhostUser.Dev
