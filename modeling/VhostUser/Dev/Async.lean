import VhostUser.Dev.Cdb
import VhostUser.Lib.Wp
import VhostUser.VirtioTask

/-! # Asynchronous reads and writes

`virtio_submit`, the two submission functions and the five completion callbacks
of `virtio_dev.c`, with the task functions of `virtio_task.c` they are written in.

A task is used through a pointer by one party at a time, so it is passed around
by value together with its address; so is the memory behind the buffers that were
allocated for it. The memory behind `io_desc->buf` belongs to the descriptor.
`vring_put_task` is one step that publishes the task or fails.

A run stops with a fault where the program would be wrong: at a failed assertion,
at a pointer that is null or of another type, at a task that was freed or is
still in the ring, at an I/O descriptor that was given back, and at a division by
zero. All divisions are by the block size, which never changes, so that the first one
of a request stands for all of them.
-/

namespace VhostUser.Dev

open VhostUser.Lib

/-! ## Data -/

/-- `struct virtio_scsi_cmd_resp`, as far as it is read. -/
structure VirtioScsiCmdResp where
  status : UInt8
  response : UInt8
  deriving Repr, DecidableEq

/-- `resp->response == VIRTIO_SCSI_S_OK && resp->status == SPDK_SCSI_STATUS_GOOD`. -/
def VirtioScsiCmdResp.good (r : VirtioScsiCmdResp) : Bool := r.response == 0 && r.status == 0

/-- What is behind a buffer pointer, by the type it is used with. -/
inductive BufPtr where
  | req (r : VirtioScsiCmdReq)
  | resp (r : VirtioScsiCmdResp)
  | data (m : Bytes)
  /-- `io_desc->buf + off` -/
  | user (off : Nat)

abbrev Buffer := VirtioBuffer BufPtr

abbrev Task := VirtioTask BufPtr

/-- Raw memory seen as a request, a response or a block. -/
def asReq (m : Bytes) : BufPtr := .req ⟨m, fun i => m (19 + i)⟩

def asResp (m : Bytes) : BufPtr := .resp ⟨m 10, m 11⟩

def sizeofReq : Nat := 51

def sizeofResp : Nat := 108

structure TaskRef where
  id : Nat
  task : Task

/-- `enum io_type`, and whatever else the field may hold. -/
inductive IoType where
  | read
  | write
  | other
  deriving Repr, DecidableEq

/-- `async_io_desc_t`, without the pointers to the device and to user context. -/
structure AsyncIoDesc where
  type : IoType
  buf : Bytes
  offset : Nat
  nbytes : Nat
  retval : Int

inductive IoState where
  | fresh
  | busy
  /-- `virtio_submit` has returned without taking it -/
  | rejected
  | pushed
  /-- taken from the output ring -/
  | collected
  deriving Repr, DecidableEq

structure Io where
  desc : AsyncIoDesc
  state : IoState

inductive TaskCb where
  | blkReadDone
  | blkReadFirstBlockDone
  | blkWriteFullBlocksDone
  | blkReadLastBlockDone
  | blkWriteLastBlockDone
  deriving Repr, DecidableEq

/-- A task in the vring with its callback and the callback's argument. -/
structure Flight where
  task : Task
  cb : TaskCb
  io : Nat
  /-- the device has executed the command and reported it -/
  answered : Bool

inductive Fault where
  | assertion
  | badPointer
  | taskNotOwned
  | ioNotOwned
  | divideByZero
  deriving Repr, DecidableEq

/-- The capacity of `dev->outring`: one less than `OUTRING_SIZE`. -/
def outringCapacity : Nat := 4096 - 1

/-- The device handle, the disk, and everything that is allocated or in flight.
The last six fields are history. -/
structure World where
  dev : VirtioDev
  disk : Bytes
  /-- allocated tasks, by address -/
  live : Nat → Bool
  nextTask : Nat
  /-- the tasks in the vring -/
  flights : Nat → Option Flight
  ios : Nat → Io
  outring : List Nat
  eventHighWm : Nat
  outfd : Nat
  /-- submissions that were taken and not yet collected -/
  uncollected : List Nat
  /-- what `virtio_submit` returned -/
  returned : Nat → Option Int
  /-- every push to the output ring -/
  pushes : List Nat
  /-- how often a task was destroyed -/
  destroyed : Nat → Nat
  /-- how many commands were sent for a submission -/
  sent : Nat → Nat
  /-- an allocation, a submission to the vring or a command has failed -/
  failed : Bool

/-- Programs of the library. An outcome that is `none` is a failure; else it holds
what the allocated memory contains. -/
abbrev M := Prog Fault (Option Bytes) World

/-! ## Machine integers -/

/-- Addition and subtraction of `size_t`. -/
def addSize (a b : Nat) : Nat := (a + b) % 2 ^ 64

def subSize (a b : Nat) : Nat := (a + 2 ^ 64 - b) % 2 ^ 64

def toSsize (n : Nat) : Int := Int.bmod n (2 ^ 64)

/-! ## World transformers -/

namespace World

def setFailed (w : World) : World := { w with failed := true }

def addTask (w : World) : World :=
  { w with live := Function.update w.live w.nextTask true, nextTask := w.nextTask + 1 }

def freeTask (w : World) (t : Nat) : World :=
  { w with
    live := Function.update w.live t false
    destroyed := Function.update w.destroyed t (w.destroyed t + 1) }

def setIo (w : World) (io : Nat) (x : Io) : World :=
  { w with ios := Function.update w.ios io x }

def setRetval (w : World) (io : Nat) (r : Int) : World :=
  w.setIo io { w.ios io with desc := { (w.ios io).desc with retval := r } }

def putFlight (w : World) (t : Nat) (f : Flight) : World :=
  { w with
    flights := Function.update w.flights t (some f)
    sent := Function.update w.sent f.io (w.sent f.io + 1) }

/-- The enqueue, and the event if the watermark is reached. -/
def pushIo (w : World) (io : Nat) : World :=
  let outring := w.outring ++ [io]
  { w.setIo io { w.ios io with state := .pushed } with
    outring := outring
    pushes := w.pushes ++ [io]
    outfd := if 0 < w.eventHighWm ∧ w.eventHighWm ≤ outring.length then w.outfd + 1 else w.outfd }

/-- The task is allocated and not in the vring. -/
def owns (w : World) (t : Nat) : Bool := w.live t && (w.flights t).isNone

def ioBusy (w : World) (io : Nat) : Bool := (w.ios io).state == .busy

def bytes (w : World) (io : Nat) : BufPtr → Bytes
  | .data m => m
  | .user off => fun k => (w.ios io).desc.buf (off + k)
  | _ => fun _ => 0

end World

/-! ## Tasks -/

def assertThat (b : Bool) : M Unit := Prog.check (fun _ => b) .assertion

/-- The first division by `n`. -/
def divideBy (n : Nat) : M Unit := Prog.check (fun _ => n != 0) .divideByZero

/-- Ask for an outcome and note a failure. -/
def attempt : M (Option Bytes) := do
  match ← Prog.outcome with
  | some (some m) => pure (some m)
  | some none => do
      Prog.update World.setFailed
      pure none
  | none => pure (some fun _ => 0)

/-- Every use of a task goes through its address. -/
def useTask (t : TaskRef) : M Unit := Prog.check (·.owns t.id) .taskNotOwned

/-- Every use of a descriptor goes through its address. -/
def useIo (io : Nat) : M AsyncIoDesc := do
  Prog.check (·.ioBusy io) .ioNotOwned
  let w ← Prog.state
  pure (w.ios io).desc

def setRetval (io : Nat) (r : Int) : M Unit := do
  Prog.check (·.ioBusy io) .ioNotOwned
  Prog.update (·.setRetval io r)

/-- `virtio_task_create`; both allocations are one outcome. -/
def virtioTaskCreate (nbufs : Nat) : M (Option TaskRef) := do
  match ← attempt with
  | none => pure none
  | some _ => do
      let w ← Prog.state
      Prog.update World.addTask
      pure (some ⟨w.nextTask, .empty nbufs⟩)

def virtioTaskDestroy (t : TaskRef) : M Unit := do
  useTask t
  Prog.update (·.freeTask t.id)

def TaskRef.push (t : TaskRef) (b : Buffer) : TaskRef :=
  { t with task := { t.task with vbufs := t.task.vbufs ++ [b] } }

/-- Write through the pointer to buffer `i`. -/
def TaskRef.modify (t : TaskRef) (i : Nat) (f : BufPtr → BufPtr) : TaskRef :=
  { t with task := { t.task with
      vbufs := t.task.vbufs.modify i fun b => { b with buf := f b.buf } } }

/-- `virtio_task_alloc_buf_part`, with the type the memory is used with. The
pointer that is returned is the position of the buffer in the task. -/
def virtioTaskAllocBufPart (t : TaskRef) (type : Bytes → BufPtr) (size : Nat)
    (response zero : Bool) (offsetFrom offsetTo : Nat) : M (Option (TaskRef × Nat)) := do
  useTask t
  assertThat (t.task.count < t.task.limit)
  match ← attempt with
  | none => pure none
  | some m => do
      let data := if zero then fun _ => 0 else m
      pure (some (t.push ⟨type data, size, response, true, offsetFrom, offsetTo⟩, t.task.count))

def virtioTaskAllocBuf (t : TaskRef) (type : Bytes → BufPtr) (size : Nat)
    (response zero : Bool) : M (Option (TaskRef × Nat)) :=
  virtioTaskAllocBufPart t type size response zero 0 size

def virtioTaskAddBuf (t : TaskRef) (buf : BufPtr) (size : Nat) (response : Bool) : M TaskRef := do
  useTask t
  assertThat (t.task.count < t.task.limit)
  pure (t.push ⟨buf, size, response, false, 0, size⟩)

def virtioTaskGetBuf (t : TaskRef) (idx : Nat) : M (Option BufPtr) := do
  useTask t
  pure (t.task.vbufs[idx]?.map (·.buf))

/-- `&task->vbufs[i]`. -/
def vbufOf (t : TaskRef) (i : Nat) : M Buffer := do
  useTask t
  match t.task.vbufs[i]? with
  | some b => pure b
  | none => Prog.fault .badPointer

/-- The test of `resp->response` and `resp->status`. -/
def respGood : Option BufPtr → M Bool
  | some (.resp r) => pure r.good
  | _ => Prog.fault .badPointer

/-- `create_rw_cdb` through the pointer to buffer `req`. -/
def createRwCdbAt (dev : VirtioDev) (t : TaskRef) (req : Nat) (offsetBlocks numBlocks : Nat)
    (isWrite : Bool) : TaskRef :=
  t.modify req fun
    | .req r => .req (createRwCdb dev r offsetBlocks numBlocks isWrite)
    | p => p

def memcpyTo (t : TaskRef) (i pos len : Nat) (src : Bytes) : TaskRef :=
  t.modify i fun
    | .data m => .data (m.patch pos len src)
    | p => p

/-- `vring_submit_task`: publish the task with its callback, or fail. -/
def vringSubmitTask (t : TaskRef) (cb : TaskCb) (io : Nat) : M Int := do
  useTask t
  match ← attempt with
  | none => pure (-1)
  | some _ => do
      Prog.update (·.putFlight t.id ⟨t.task, cb, io, false⟩)
      pure 0

/-! ## Callbacks -/

/-- `push_to_outring`; the enqueue fails if the ring is full. -/
def pushToOutring (io : Nat) : M Unit := do
  Prog.check (·.ioBusy io) .ioNotOwned
  Prog.check (fun w => w.outring.length < outringCapacity) .assertion
  Prog.update (·.pushIo io)

/-- The loop of `blk_read_done` over the data buffers. -/
def blkReadLoop (bytes : BufPtr → Bytes) (usedBytes : Nat) : List Buffer → Nat → Bytes → Nat × Bytes
  | [], nbytes, m => (nbytes, m)
  | vbuf :: rest, nbytes, m =>
      let delta := subSize vbuf.offsetTo vbuf.offsetFrom
      let delta := if addSize nbytes delta > usedBytes then subSize usedBytes nbytes else delta
      let m := if vbuf.copy then
          m.patch nbytes delta fun k => bytes vbuf.buf (vbuf.offsetFrom + k)
        else m
      let nbytes := addSize nbytes delta
      if nbytes ≥ usedBytes then (nbytes, m) else blkReadLoop bytes usedBytes rest nbytes m

def blkReadDone (task : TaskRef) (io : Nat) : M Unit := do
  let _ ← useIo io  -- `io_desc->reserved`
  let resp ← virtioTaskGetBuf task 1
  let usedBytes := subSize task.task.usedBytes sizeofResp
  setRetval io (-1)
  if ← respGood resp then do
    let desc ← useIo io
    let w ← Prog.state
    let (nbytes, m) := blkReadLoop (w.bytes io) usedBytes (task.task.vbufs.drop 2) 0 desc.buf
    assertThat (nbytes ≤ usedBytes)
    Prog.update (·.setIo io ⟨{ desc with buf := m, retval := toSsize nbytes }, .busy⟩)
    pushToOutring io
    virtioTaskDestroy task
  else do
    pushToOutring io
    virtioTaskDestroy task

def blkWriteLastBlockDone (task : TaskRef) (io : Nat) : M Unit := do
  let _ ← useIo io  -- `io_desc->reserved`
  let resp ← virtioTaskGetBuf task 2
  assertThat (task.task.count == 3)
  if ← respGood resp then do
    let vbuf ← vbufOf task 1
    let desc ← useIo io
    let delta := subSize vbuf.offsetTo vbuf.offsetFrom
    setRetval io (if desc.retval < 0 then toSsize delta
      else toSsize (addSize desc.retval.toNat delta))
    pushToOutring io
    virtioTaskDestroy task
  else do
    pushToOutring io
    virtioTaskDestroy task

/-- `write_done` of the two callbacks that own an old and a new task. -/
def writeDone (io : Nat) (task : TaskRef) (newTask : Option TaskRef) : M Unit := do
  pushToOutring io
  virtioTaskDestroy task
  match newTask with
  | some t => virtioTaskDestroy t
  | none => pure ()

/-- The end of the two callbacks that write a block back: allocate the response,
submit the new task and destroy the old one. -/
def submitWriteBack (io : Nat) (task newTask : TaskRef) (cb : TaskCb) : M Unit := do
  match ← virtioTaskAllocBuf newTask asResp sizeofResp true true with
  | none => writeDone io task (some newTask)
  | some (newTask, _) => do
    let rc ← vringSubmitTask newTask cb io
    if rc ≠ 0 then writeDone io task (some newTask)
    else virtioTaskDestroy task

def blkReadLastBlockDone (task : TaskRef) (io : Nat) : M Unit := do
  let _ ← useIo io  -- `io_desc->reserved`
  let resp ← virtioTaskGetBuf task 1
  assertThat (task.task.count == 3)
  if ← respGood resp then
    match ← virtioTaskCreate 4 with
    | none => writeDone io task none
    | some newTask =>
    match ← virtioTaskAllocBuf newTask asReq sizeofReq false true with
    | none => writeDone io task (some newTask)
    | some (newTask, req) => do
      let vbuf ← vbufOf task 2
      let w ← Prog.state
      let dev := w.dev
      match ← virtioTaskAllocBufPart newTask .data dev.blockSize false false
          vbuf.offsetFrom vbuf.offsetTo with
      | none => writeDone io task (some newTask)
      | some (newTask, buf) => do
        let delta := subSize vbuf.offsetTo vbuf.offsetFrom
        let desc ← useIo io
        let newTask := memcpyTo newTask buf 0 vbuf.size (w.bytes io vbuf.buf)
        let newTask := memcpyTo newTask buf 0 delta fun k =>
          desc.buf (subSize desc.nbytes delta + k)
        let blkOffset := addSize desc.offset desc.nbytes / dev.blockSize
        let newTask := createRwCdbAt dev newTask req blkOffset 1 true
        submitWriteBack io task newTask .blkWriteLastBlockDone
  else writeDone io task none

/-- `write_done` of the callback that owns at most one task. -/
def writeDoneFull (io : Nat) (task : Option TaskRef) : M Unit := do
  pushToOutring io
  match task with
  | some t => virtioTaskDestroy t
  | none => pure ()

/-- The loop of `blk_write_full_blocks_done` over the data buffers. -/
def sumRanges (vbufs : List Buffer) : Nat :=
  vbufs.foldl (fun nbytes vbuf => addSize nbytes (subSize vbuf.offsetTo vbuf.offsetFrom)) 0

/-- The end of `blk_write_full_blocks_done`: read the block with the remaining bytes. -/
def submitLastRead (io : Nat) (desc : AsyncIoDesc) : M Unit := do
  match ← virtioTaskCreate 3 with
  | none => writeDoneFull io none
  | some task => do
    let req ← virtioTaskAllocBuf task asReq sizeofReq false true
    let task₁ := req.elim task (·.1)
    let resp ← virtioTaskAllocBuf task₁ asResp sizeofResp true true
    let task₂ := resp.elim task₁ (·.1)
    match req, resp with
    | some (_, req), some _ => do
      let w ← Prog.state
      let dev := w.dev
      let offset := addSize desc.offset desc.nbytes
      let blkOffset := offset / dev.blockSize
      let residOffset := offset % dev.blockSize
      assertThat (residOffset != 0)
      let task₃ := createRwCdbAt dev task₂ req blkOffset 1 false
      match ← virtioTaskAllocBufPart task₃ .data dev.blockSize true false 0 residOffset with
      | none => writeDoneFull io (some task₃)
      | some (task₄, _) => do
        let rc ← vringSubmitTask task₄ .blkReadLastBlockDone io
        if rc ≠ 0 then writeDoneFull io (some task₄) else pure ()
    | _, _ => writeDoneFull io (some task₂)

def blkWriteFullBlocksDone (task : TaskRef) (io : Nat) : M Unit := do
  let _ ← useIo io  -- `io_desc->reserved`
  let resp ← virtioTaskGetBuf task (task.task.count - 1)
  assertThat (task.task.count > 2)
  if ← respGood resp then do
    -- `vbufs[1]` up to the response, which is the last buffer
    let nbytes := sumRanges (task.task.vbufs.drop 1).dropLast
    setRetval io (toSsize nbytes)
    let desc ← useIo io
    if nbytes = desc.nbytes then writeDoneFull io (some task)
    else do
      virtioTaskDestroy task
      submitLastRead io desc
  else writeDoneFull io (some task)

/-- Add what follows the first block, and count the blocks with it. -/
def addFullBlocks (dev : VirtioDev) (desc : AsyncIoDesc) (task : TaskRef) (delta : Nat) :
    M (TaskRef × Nat) := do
  if delta < desc.nbytes then do
    let nblk := subSize desc.nbytes delta / dev.blockSize
    let task ← virtioTaskAddBuf task (.user delta) (nblk * dev.blockSize) false
    pure (task, nblk + 1)
  else pure (task, 1)

def blkReadFirstBlockDone (task : TaskRef) (io : Nat) : M Unit := do
  let _ ← useIo io  -- `io_desc->reserved`
  let resp ← virtioTaskGetBuf task 1
  assertThat (task.task.count == 3)
  if ← respGood resp then
    match ← virtioTaskCreate 4 with
    | none => writeDone io task none
    | some newTask =>
    match ← virtioTaskAllocBuf newTask asReq sizeofReq false true with
    | none => writeDone io task (some newTask)
    | some (newTask, req) => do
      let vbuf ← vbufOf task 2
      let w ← Prog.state
      let dev := w.dev
      match ← virtioTaskAllocBufPart newTask .data dev.blockSize false false
          vbuf.offsetFrom vbuf.offsetTo with
      | none => writeDone io task (some newTask)
      | some (newTask, buf) => do
        let delta := subSize vbuf.offsetTo vbuf.offsetFrom
        let desc ← useIo io
        let newTask := memcpyTo newTask buf 0 vbuf.size (w.bytes io vbuf.buf)
        let newTask := memcpyTo newTask buf vbuf.offsetFrom delta desc.buf
        let (newTask, nblk) ← addFullBlocks dev desc newTask delta
        let blkOffset := desc.offset / dev.blockSize
        let newTask := createRwCdbAt dev newTask req blkOffset nblk true
        submitWriteBack io task newTask .blkWriteFullBlocksDone
  else writeDone io task none

/-- `task->cb(task, task->arg)`. -/
def runCallback : TaskCb → TaskRef → Nat → M Unit
  | .blkReadDone => blkReadDone
  | .blkReadFirstBlockDone => blkReadFirstBlockDone
  | .blkWriteFullBlocksDone => blkWriteFullBlocksDone
  | .blkReadLastBlockDone => blkReadLastBlockDone
  | .blkWriteLastBlockDone => blkWriteLastBlockDone

/-! ## Submission -/

def giveUp (task : TaskRef) : M Int := do
  virtioTaskDestroy task
  pure (-1)

/-- The buffer for a partial block of a read, if there is one. -/
def addPartialBlock (dev : VirtioDev) (task : TaskRef) (partly : Bool) (offsetFrom offsetTo : Nat) :
    M (Option TaskRef) := do
  if partly then do
    let res ← virtioTaskAllocBufPart task .data dev.blockSize true false offsetFrom offsetTo
    pure (res.map (·.1))
  else pure (some task)

/-- The part of `io_desc->buf` that is read as whole blocks, if there is one. -/
def addWholeBlocks (dev : VirtioDev) (task : TaskRef) (pos nblk : Nat) : M TaskRef := do
  if nblk > 0 then virtioTaskAddBuf task (.user pos) (nblk * dev.blockSize) true
  else pure task

/-- A request is cut off at the end of the device. -/
def clipToCap (dev : VirtioDev) (offset nbytes : Nat) : Nat :=
  if addSize offset nbytes > dev.cap then dev.cap - offset else nbytes

def readVirtioDevAsync (io : Nat) : M Int := do
  let desc ← useIo io
  let w ← Prog.state
  let dev := w.dev
  if desc.offset > dev.cap then pure (-1)
  else if desc.nbytes = 0 then pure 0
  else do
    let nbytes := clipToCap dev desc.offset desc.nbytes
    match ← virtioTaskCreate 5 with
    | none => pure (-1)
    | some task => do
    let req ← virtioTaskAllocBuf task asReq sizeofReq false true
    let task := req.elim task (·.1)
    let resp ← virtioTaskAllocBuf task asResp sizeofResp true true
    let task := resp.elim task (·.1)
    match req, resp with
    | some (_, req), some _ => do
      divideBy dev.blockSize
      let blkOffset := desc.offset / dev.blockSize
      let residOffset := desc.offset % dev.blockSize
      -- partial read of the first block
      let first := residOffset != 0
      let readBytes := if first = false then 0
        else if addSize residOffset nbytes ≤ dev.blockSize then nbytes
        else dev.blockSize - residOffset
      match ← addPartialBlock dev task first residOffset (addSize residOffset readBytes) with
      | none => giveUp task
      | some task => do
      -- middle part which is block size aligned
      let temp := subSize nbytes readBytes / dev.blockSize
      let task ← addWholeBlocks dev task readBytes temp
      let readBytes := readBytes + temp * dev.blockSize
      -- partial read of the last block
      let residOffset := subSize nbytes readBytes % dev.blockSize
      let last := readBytes < nbytes && residOffset != 0
      match ← addPartialBlock dev task last 0 residOffset with
      | none => giveUp task
      | some task => do
      let nblk := first.toNat + temp + last.toNat
      let task := createRwCdbAt dev task req blkOffset nblk false
      let rc ← vringSubmitTask task .blkReadDone io
      if rc ≠ 0 then giveUp task else pure 0
    | _, _ => giveUp task

/-- Allocate a response and a block buffer and submit the read of one block. -/
def submitPartialRead (dev : VirtioDev) (task : TaskRef) (offsetFrom offsetTo : Nat) (cb : TaskCb)
    (io : Nat) : M Int := do
  match ← virtioTaskAllocBuf task asResp sizeofResp true true with
  | none => giveUp task
  | some (task, _) =>
  match ← virtioTaskAllocBufPart task .data dev.blockSize true false offsetFrom offsetTo with
  | none => giveUp task
  | some (task, _) => do
  let rc ← vringSubmitTask task cb io
  if rc ≠ 0 then giveUp task else pure 0

def writeVirtioDevAsync (io : Nat) : M Int := do
  let desc ← useIo io
  let w ← Prog.state
  let dev := w.dev
  if desc.offset > dev.cap then pure (-1)
  else if desc.nbytes = 0 then pure 0
  else do
    let nbytes := clipToCap dev desc.offset desc.nbytes
    setRetval io (-1)
    match ← virtioTaskCreate 4 with
    | none => pure (-1)
    | some task =>
    match ← virtioTaskAllocBuf task asReq sizeofReq false true with
    | none => giveUp task
    | some (task, req) => do
      divideBy dev.blockSize
      let blkOffset := desc.offset / dev.blockSize
      let residOffset := desc.offset % dev.blockSize
      let nblk := nbytes / dev.blockSize
      -- partial write of the first block, which has to be read first
      if residOffset ≠ 0 then do
        let readBytes := if addSize residOffset nbytes ≤ dev.blockSize then nbytes
          else dev.blockSize - residOffset
        submitPartialRead dev (createRwCdbAt dev task req blkOffset 1 false)
          residOffset (addSize residOffset readBytes) .blkReadFirstBlockDone io
      -- all blocks which can be written as a whole
      else if nblk > 0 then do
        let task := createRwCdbAt dev task req blkOffset nblk true
        let task ← virtioTaskAddBuf task (.user 0) (nblk * dev.blockSize) false
        match ← virtioTaskAllocBuf task asResp sizeofResp true true with
        | none => giveUp task
        | some (task, _) => do
          let rc ← vringSubmitTask task .blkWriteFullBlocksDone io
          if rc ≠ 0 then giveUp task else pure 0
      -- partial write of the last block, which has to be read first
      else do
        assertThat (nbytes < dev.blockSize)
        submitPartialRead dev (createRwCdbAt dev task req blkOffset 1 false)
          0 (nbytes % dev.blockSize) .blkReadLastBlockDone io

def virtioSubmit (io : Nat) : M Int := do
  let desc ← useIo io
  match desc.type with
  | .read => readVirtioDevAsync io
  | .write => writeVirtioDevAsync io
  | .other => pure (-1)

end VhostUser.Dev
