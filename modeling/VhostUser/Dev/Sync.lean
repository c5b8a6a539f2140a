import VhostUser.Dev.Exits
import VhostUser.Lib.CInt

/-! # Synchronous reads and writes

`read_virtio_dev` and `write_virtio_dev` with the functions below them. Each command
is a task of its own: it is built, published, waited for and destroyed before the
call goes on, and the callback of the task does nothing but wake the caller. From the
caller's side the device therefore answers a command in one step; an answer belongs to
the address of the task and to the command in it.

The memory behind `buf` is the memory of a descriptor that the caller owns, so that
one world serves both interfaces. A partial block goes through a bounce buffer, which
is used without a look at whether its allocation has failed.
-/

namespace VhostUser.Dev

open VhostUser.Lib

/-- How the device answers the commands of synchronous calls. -/
abbrev Device := Nat → Option RwCommand → Answer

def mulSize (a b : Nat) : Nat := a * b % 2 ^ 64

def World.memcpyUser (w : World) (io pos len : Nat) (src : Bytes) : World :=
  w.setIo io ⟨{ (w.ios io).desc with buf := (w.ios io).desc.buf.patch pos len src }, (w.ios io).state⟩

/-- `vring_submit_task_sync`; the task comes back as the device leaves it. -/
def vringSubmitTaskSync (device : Device) (t : TaskRef) (io : Nat) : M (Option TaskRef) := do
  useTask t
  match ← attempt with
  | none => pure none
  | some _ => do
      -- in the ring only while the caller waits; the callback is none of the block layer's
      Prog.update fun w =>
        w.exec t.id ⟨t.task, .blkReadDone, io, false⟩ (device t.id (commandOf t.task))
      let w ← Prog.state
      Prog.update (·.take t.id)
      pure ((w.flights t.id).map fun f => ⟨t.id, f.task⟩)

/-- The error exits of the two functions below; `buf` is what the caller gets back. -/
def blkFailed (task : TaskRef) (buf : BufPtr) : M (Int × BufPtr) := do
  virtioTaskDestroy task
  pure (-1, buf)

/-- The second half of `blk_read_virtio_dev`, from the submission on. -/
def sendRead (device : Device) (io : Nat) (task : TaskRef) (resp : Nat) (buf : BufPtr) :
    M (Int × BufPtr) := do
  match ← vringSubmitTaskSync device task io with
  | none => blkFailed task buf
  | some task => do
    let data ← vbufOf task 2
    let resp ← virtioTaskGetBuf task resp
    if ← respGood resp then do
      let rc := toInt (subSize task.task.usedBytes sizeofResp)
      assertThat (rc ≥ 0)
      virtioTaskDestroy task
      pure (rc, data.buf)
    else blkFailed task data.buf

/-- The second half of `blk_write_virtio_dev`. -/
def sendWrite (device : Device) (io : Nat) (task : TaskRef) (resp : Nat) (nbytes : Int)
    (buf : BufPtr) : M (Int × BufPtr) := do
  match ← vringSubmitTaskSync device task io with
  | none => blkFailed task buf
  | some task => do
    let resp ← virtioTaskGetBuf task resp
    if ← respGood resp then do
      virtioTaskDestroy task
      pure (nbytes, buf)
    else blkFailed task buf

/-- `blk_read_virtio_dev`. The memory behind a bounce buffer is passed in and out. -/
def blkReadVirtioDev (device : Device) (io : Nat) (buf : BufPtr) (blkOffset nblk : Nat) :
    M (Int × BufPtr) := do
  match ← virtioTaskCreate 3 with
  | none => pure (-1, buf)
  | some task => do
    let w ← Prog.state
    let dev := w.dev
    let req ← virtioTaskAllocBuf task asReq sizeofReq false true
    let task := req.elim task (·.1)
    let resp ← virtioTaskAllocBuf task asResp sizeofResp true true
    let task := resp.elim task (·.1)
    let task ← virtioTaskAddBuf task buf (mulSize nblk dev.blockSize) true
    match req, resp with
    | some (_, req), some (_, resp) => do
      let task := createRwCdbAt dev task req blkOffset nblk false
      sendRead device io task resp buf
    | _, _ => blkFailed task buf

/-- `blk_write_virtio_dev`. The number of bytes is an `int`, also where it is returned. -/
def blkWriteVirtioDev (device : Device) (io : Nat) (buf : BufPtr) (blkOffset nblk : Nat) :
    M (Int × BufPtr) := do
  let w ← Prog.state
  let dev := w.dev
  let nbytes := toInt (mulSize nblk dev.blockSize)
  match ← virtioTaskCreate 3 with
  | none => pure (-1, buf)
  | some task => do
    let req ← virtioTaskAllocBuf task asReq sizeofReq false true
    let task := req.elim task (·.1)
    let task ← virtioTaskAddBuf task buf (toSize nbytes) false
    let resp ← virtioTaskAllocBuf task asResp sizeofResp true true
    let task := resp.elim task (·.1)
    match req, resp with
    | some (_, req), some (_, resp) => do
      let task := createRwCdbAt dev task req blkOffset nblk true
      sendWrite device io task resp nbytes buf
    | _, _ => blkFailed task buf

/-- `alloc_shared_buf` for a bounce buffer: a null pointer is handed on to the device. -/
def allocBounceBuf : M Bytes := do
  match ← attempt with
  | some m => pure m
  | none => Prog.fault .badPointer

/-- The bytes of a partial block, from `offStart` on. -/
def clipToBlock (dev : VirtioDev) (offStart nbytes : Nat) : Nat :=
  if addSize offStart nbytes > dev.blockSize then subSize dev.blockSize offStart else nbytes

/-! ## Reads -/

/-- `read_partial_block` into the caller's buffer at `data`. -/
def readPartialBlock (device : Device) (io blkNum offStart data nbytes : Nat) : M Int := do
  let m ← allocBounceBuf
  let w ← Prog.state
  let dev := w.dev
  let nbytes := clipToBlock dev offStart nbytes
  let (rc, blkBuf) ← blkReadVirtioDev device io (.data m) blkNum 1
  if rc ≠ dev.blockSize then pure (-1)
  else do
    let w ← Prog.state
    Prog.update (·.memcpyUser io data nbytes fun k => w.bytes io blkBuf (offStart + k))
    pure (toInt nbytes)

/-- The end of `read_virtio_dev`: partial read of the last block. -/
def readTail (device : Device) (io blkOffset readBytes nbytes : Nat) : M Int := do
  let w ← Prog.state
  let residOffset := subSize nbytes readBytes % w.dev.blockSize
  if residOffset ≠ 0 then do
    let ret ← readPartialBlock device io blkOffset 0 readBytes residOffset
    if ret < 0 then pure (-1)
    else pure (toInt (addSize readBytes (toSize ret)))
  else pure (toInt readBytes)

/-- `read_virtio_dev` after the first block: whole blocks, and then the last block. -/
def readRest (device : Device) (io blkOffset readBytes nbytes : Nat) : M Int := do
  let w ← Prog.state
  let dev := w.dev
  let nblk := subSize nbytes readBytes / dev.blockSize
  if nblk > 0 then do
    let (ret, _) ← blkReadVirtioDev device io (.user readBytes) blkOffset nblk
    if ret < 0 then pure (toInt readBytes)
    else if toSize ret < mulSize nblk dev.blockSize then
      pure (toInt (addSize readBytes (toSize ret)))
    else readTail device io (addSize blkOffset nblk) (addSize readBytes (toSize ret)) nbytes
  else readTail device io blkOffset readBytes nbytes

def readVirtioDev (device : Device) (io offset nbytes : Nat) : M Int := do
  let w ← Prog.state
  let dev := w.dev
  if offset > dev.cap then pure (-1)
  else if nbytes = 0 then pure 0
  else do
    let nbytes := clipToCap dev offset nbytes
    divideBy dev.blockSize
    let blkOffset := offset / dev.blockSize
    let residOffset := offset % dev.blockSize
    if residOffset ≠ 0 then do
      let ret ← readPartialBlock device io blkOffset residOffset 0 nbytes
      if ret < 0 then pure (-1)
      else if ret < dev.blockSize - residOffset then pure ret
      else readRest device io (addSize blkOffset 1) (toSize ret) nbytes
    else readRest device io blkOffset 0 nbytes

/-! ## Writes -/

/-- `write_partial_block` from the caller's buffer at `data`. -/
def writePartialBlock (device : Device) (io blkNum offStart data nbytes : Nat) : M Int := do
  let m ← allocBounceBuf
  let w ← Prog.state
  let dev := w.dev
  let nbytes := clipToBlock dev offStart nbytes
  let (rc, blkBuf) ← blkReadVirtioDev device io (.data m) blkNum 1
  if rc ≠ dev.blockSize then pure (-1)
  else do
    let w ← Prog.state
    let m := (w.bytes io blkBuf).patch offStart nbytes fun k => (w.ios io).desc.buf (data + k)
    let (ret, _) ← blkWriteVirtioDev device io (.data m) blkNum 1
    pure (toInt (addSize (toSize (ret - dev.blockSize)) nbytes))

/-- The end of `write_virtio_dev`: partial write of the last block. -/
def writeTail (device : Device) (io blkOffset writtenBytes nbytes : Nat) : M Int := do
  let w ← Prog.state
  let residOffset := subSize nbytes writtenBytes % w.dev.blockSize
  if residOffset ≠ 0 then do
    let ret ← writePartialBlock device io blkOffset 0 writtenBytes residOffset
    if ret < 0 then pure (-1)
    else pure (toInt (addSize writtenBytes (toSize ret)))
  else pure (toInt writtenBytes)

/-- `write_virtio_dev` after the first block: whole blocks, and then the last block. -/
def writeRest (device : Device) (io blkOffset writtenBytes nbytes : Nat) : M Int := do
  let w ← Prog.state
  let dev := w.dev
  let nblk := subSize nbytes writtenBytes / dev.blockSize
  if nblk > 0 then do
    let (ret, _) ← blkWriteVirtioDev device io (.user writtenBytes) blkOffset nblk
    if ret < 0 then pure (toInt writtenBytes)
    else if toSize ret < mulSize nblk dev.blockSize then
      pure (toInt (addSize writtenBytes (toSize ret)))
    else writeTail device io (addSize blkOffset nblk) (addSize writtenBytes (toSize ret)) nbytes
  else writeTail device io blkOffset writtenBytes nbytes

def writeVirtioDev (device : Device) (io offset nbytes : Nat) : M Int := do
  let w ← Prog.state
  let dev := w.dev
  if offset > dev.cap then pure (-1)
  else if nbytes = 0 then pure 0
  else do
    let nbytes := clipToCap dev offset nbytes
    divideBy dev.blockSize
    let blkOffset := offset / dev.blockSize
    let residOffset := offset % dev.blockSize
    if residOffset ≠ 0 then do
      let ret ← writePartialBlock device io blkOffset residOffset 0 nbytes
      if ret < 0 then pure (-1)
      else if ret < dev.blockSize - residOffset then pure ret
      else writeRest device io (addSize blkOffset 1) (toSize ret) nbytes
    else writeRest device io blkOffset 0 nbytes

end VhostUser.Dev
