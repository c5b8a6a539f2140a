import VhostUser.Dev.Async
import VhostUser.Lib.Machine

/-! # Application, poller and device around the asynchronous interface

The device executes the command of any task in the vring at any time, in any
order, and the poller runs the callback of any task the device has answered. A
submission and a callback are one step each: what they share with the rest of the
system are the vring, the allocator and the disk, and they touch the disk only
through the commands they send.

A descriptor that is submitted again after it was collected is a new descriptor.
-/

namespace VhostUser.Dev

open VhostUser.Lib

/-! ## The device -/

/-- How the device answers a command. -/
inductive Answer where
  /-- executed with good status; a read transfers that many bytes, and the rest of
  the data buffers holds `rest` -/
  | done (transferred : Nat) (rest : Bytes) (usedBytes : Nat)
  /-- answered without any effect on the disk or on data buffers -/
  | failed (resp : VirtioScsiCmdResp) (usedBytes : Nat)

/-- The command of a task: the request is its first buffer. -/
def commandOf (task : Task) : Option RwCommand :=
  match task.vbufs.head? with
  | some ⟨.req r, _, _, _, _, _⟩ => decodeCdb r.cdb
  | _ => none

/-- The data buffers the device reads: those it may not write, after the request. -/
def dataOut (vbufs : List Buffer) : List Buffer := (vbufs.filter (!·.response)).tail

def gather (bytes : BufPtr → Bytes) : List Buffer → Bytes
  | [] => fun _ => 0
  | b :: rest => fun k => if k < b.size then bytes b.buf k else gather bytes rest (k - b.size)

/-- Store a response in the first buffer the device may write. -/
def setResp (r : VirtioScsiCmdResp) : List Buffer → List Buffer
  | [] => []
  | b :: rest => if b.response then { b with buf := .resp r } :: rest else b :: setResp r rest

/-- Fill the buffers the device may write, from position `pos` of `src` on; the
first of them is the response and is passed over. -/
def fillIn (src : Bytes) : Bool → Nat → List Buffer → List Buffer
  | _, _, [] => []
  | seen, pos, b :: rest =>
      if b.response then
        if seen then
          match b.buf with
          | .data m =>
              { b with buf := .data (m.patch 0 b.size fun k => src (pos + k)) } ::
                fillIn src true (pos + b.size) rest
          | _ => b :: fillIn src true (pos + b.size) rest
        else b :: fillIn src true pos rest
      else b :: fillIn src seen pos rest

/-- The same for buffers that point into `io_desc->buf`. -/
def fillUser (src : Bytes) : Bool → Nat → List Buffer → Bytes → Bytes
  | _, _, [], m => m
  | seen, pos, b :: rest, m =>
      if b.response then
        if seen then
          match b.buf with
          | .user off =>
              fillUser src true (pos + b.size) rest (m.patch off b.size fun k => src (pos + k))
          | _ => fillUser src true (pos + b.size) rest m
        else fillUser src true pos rest m
      else fillUser src seen pos rest m

namespace World

/-- The answer to task `t`: its buffers as the device leaves them. -/
def answer (w : World) (t : Nat) (f : Flight) (vbufs : List Buffer) (usedBytes : Nat) : World :=
  { w with
    flights := Function.update w.flights t
      (some { f with
        task := { f.task with vbufs := vbufs, usedBytes := usedBytes % 2 ^ 32 }
        answered := true }) }

/-- The device executes the command of task `t`. -/
def exec (w : World) (t : Nat) (f : Flight) : Answer → World
  | .failed resp usedBytes => (w.answer t f (setResp resp f.task.vbufs) usedBytes).setFailed
  | .done transferred rest usedBytes =>
      let vbufs := setResp ⟨0, 0⟩ f.task.vbufs
      match commandOf f.task with
      | some ⟨true, lba, count⟩ =>
          { w.answer t f vbufs usedBytes with
            disk := w.disk.patch (lba * w.dev.blockSize) (count * w.dev.blockSize)
              (gather (w.bytes f.io) (dataOut f.task.vbufs)) }
      | some ⟨false, lba, _⟩ =>
          let src : Bytes := fun k =>
            if k < transferred then w.disk (lba * w.dev.blockSize + k) else rest k
          let desc := (w.ios f.io).desc
          (w.answer t f (fillIn src false 0 vbufs) usedBytes).setIo f.io
            ⟨{ desc with buf := fillUser src false 0 vbufs desc.buf }, (w.ios f.io).state⟩
      | none => w.answer t f vbufs usedBytes

end World

/-! ## The machine -/

inductive Event where
  /-- `virtio_submit` of a descriptor, with the outcomes of what may fail in it -/
  | submit (io : Nat) (desc : AsyncIoDesc) (outcomes : List (Option Bytes))
  /-- the device executes the command of a task and answers it -/
  | exec (t : Nat) (a : Answer)
  /-- `vring_get_task` returns a task and its callback is run -/
  | reap (t : Nat) (outcomes : List (Option Bytes))
  /-- `virtio_get_completed` -/
  | collect
  /-- `virtio_completed` sets the watermark -/
  | watermark (n : Nat)

def World.enter (w : World) (io : Nat) (desc : AsyncIoDesc) : World := w.setIo io ⟨desc, .busy⟩

def World.leave (w : World) (io : Nat) (rc : Int) : World :=
  let w := { w with returned := Function.update w.returned io (some rc) }
  if rc = 0 then { w with uncollected := w.uncollected ++ [io] }
  else w.setIo io { w.ios io with state := .rejected }

def World.take (w : World) (t : Nat) : World :=
  { w with flights := Function.update w.flights t none }

def World.collectIo (w : World) (io : Nat) (rest : List Nat) : World :=
  { w.setIo io { w.ios io with state := .collected } with
    outring := rest
    uncollected := w.uncollected.erase io }

def stepWorld (w : World) : Event → Option (Except Fault World)
  | .submit io desc outcomes =>
      if (w.ios io).state = .fresh then
        some ((virtioSubmit io (w.enter io desc, outcomes)).map fun r => r.2.1.leave io r.1)
      else none
  | .exec t a =>
      match w.flights t with
      | some f => if f.answered then none else some (.ok (w.exec t f a))
      | none => none
  | .reap t outcomes =>
      match w.flights t with
      | some f =>
          if f.answered then
            some ((runCallback f.cb ⟨t, f.task⟩ f.io (w.take t, outcomes)).map fun r => r.2.1)
          else none
      | none => none
  | .collect =>
      match w.outring with
      | io :: rest => some (.ok (w.collectIo io rest))
      | [] => none
  | .watermark n => some (.ok { w with eventHighWm := n })

/-- Nothing follows a fault. -/
def step : Except Fault World → Event → Option (Except Fault World)
  | .ok w, e => stepWorld w e
  | .error _, _ => none

def AsyncIoDesc.empty : AsyncIoDesc := ⟨.read, fun _ => 0, 0, 0, 0⟩

/-- A device with a disk, and nothing submitted yet. -/
def init (dev : VirtioDev) (disk : Bytes) : World where
  dev := dev
  disk := disk
  live := fun _ => false
  nextTask := 0
  flights := fun _ => none
  ios := fun _ => ⟨.empty, .fresh⟩
  outring := []
  eventHighWm := 0
  outfd := 0
  uncollected := []
  returned := fun _ => none
  pushes := []
  destroyed := fun _ => 0
  sent := fun _ => 0
  failed := false

def machine (dev : VirtioDev) (disk : Bytes) : Machine (Except Fault World) Event :=
  ⟨.ok (init dev disk), step⟩

end VhostUser.Dev
