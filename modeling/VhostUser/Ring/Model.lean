import VhostUser.VirtioTask

/-! # The vring and its two operations, one shared access at a time

`vring_put_task` and `vring_get_task` as programs over the shared memory: every
load, store and compare-and-swap of the source is one step, and the locals of a
call are carried between steps. Running the steps of one call with nothing in
between is the call taken as one step; interleaving them is concurrency.

Sixteen-bit counters are naturals with an explicit `% 2 ^ 16`; arrays are
functions of the index.
-/

namespace VhostUser.Ring

/-- The address of a `virtio_task_t`. -/
abbrev TaskPtr := Nat

/-- Buffers as the vring sees them: the pointer is a bare address. -/
abbrev Buffer := VirtioBuffer Nat

abbrev Task := VirtioTask Nat

/-- `VHOST_VRING_SIZE`, the value of `vring->num`. -/
def vhostVringSize : Nat := 1024

/-- `vring->num - 1`. -/
def mask : Nat := vhostVringSize - 1

def virtioDescFNext : Nat := 1

def virtioDescFWrite : Nat := 2

def vringUsedFNoNotify : Nat := 1

structure VringDesc where
  addr : Nat
  len : Nat
  flags : Nat
  next : Nat
  deriving Repr, DecidableEq

structure VringAvail where
  flags : Nat
  idx : Nat
  ring : Nat → Nat

structure VringUsedElem where
  id : Nat
  len : Nat
  deriving Repr, DecidableEq

structure VringUsed where
  flags : Nat
  idx : Nat
  ring : Nat → VringUsedElem

/-- `vring_t`. `kickfd` is the counter of the event descriptor; `num` is
`vhostVringSize` throughout and `free_count` is used nowhere. -/
structure Vring where
  desc : Nat → VringDesc
  avail : VringAvail
  used : VringUsed
  lastAvailIdx : Nat
  lastUsedIdx : Nat
  tasks : Nat → Option TaskPtr
  taskIdx : Nat
  kickfd : Nat

/-- `vring_create`: zeroed shared memory, and both cursors read from it. -/
def vringCreate : Vring where
  desc := fun _ => ⟨0, 0, 0, 0⟩
  avail := ⟨0, 0, fun _ => 0⟩
  used := ⟨0, 0, fun _ => ⟨0, 0⟩⟩
  lastAvailIdx := 0
  lastUsedIdx := 0
  tasks := fun _ => none
  taskIdx := 0
  kickfd := 0

/-- What the operations share: the vring and the task objects. -/
structure Mem where
  vring : Vring
  objs : TaskPtr → Task

namespace Mem

def setDesc (m : Mem) (i : Nat) (d : VringDesc) : Mem :=
  { m with vring := { m.vring with desc := Function.update m.vring.desc i d } }

def setTask (m : Mem) (i : Nat) (t : Option TaskPtr) : Mem :=
  { m with vring := { m.vring with tasks := Function.update m.vring.tasks i t } }

def setTaskIdx (m : Mem) (i : Nat) : Mem :=
  { m with vring := { m.vring with taskIdx := i } }

def setLastAvailIdx (m : Mem) (i : Nat) : Mem :=
  { m with vring := { m.vring with lastAvailIdx := i } }

def setLastUsedIdx (m : Mem) (i : Nat) : Mem :=
  { m with vring := { m.vring with lastUsedIdx := i } }

def setAvailIdx (m : Mem) (i : Nat) : Mem :=
  { m with vring := { m.vring with avail := { m.vring.avail with idx := i } } }

def setAvailRing (m : Mem) (i d : Nat) : Mem :=
  { m with vring := { m.vring with
      avail := { m.vring.avail with ring := Function.update m.vring.avail.ring i d } } }

def setUsedFlags (m : Mem) (f : Nat) : Mem :=
  { m with vring := { m.vring with used := { m.vring.used with flags := f } } }

/-- What the device does to report a head: the element, then the index. -/
def pushUsed (m : Mem) (e : VringUsedElem) : Mem :=
  { m with vring := { m.vring with
      used := { m.vring.used with
        ring := Function.update m.vring.used.ring (m.vring.used.idx &&& mask) e
        idx := (m.vring.used.idx + 1) % 2 ^ 16 } } }

def kick (m : Mem) : Mem :=
  { m with vring := { m.vring with kickfd := m.vring.kickfd + 1 } }

def setObj (m : Mem) (t : TaskPtr) (o : Task) : Mem :=
  { m with objs := Function.update m.objs t o }

end Mem

/-! ## `vring_put_task` -/

/-- Where a call of `vring_put_task` stands, with the locals of the inner loops.
Each constructor names the shared access that is executed next. -/
inductive PutPc where
  | idle
  /-- `desc_idx_saved = vring->task_idx` -/
  | loadTaskIdx
  /-- `vring->tasks[desc_idx] != NULL` -/
  | loadTask (saved idx : Nat)
  /-- the compare-and-swap of `vring->tasks[desc_idx]` -/
  | casTask (saved idx : Nat)
  /-- `vring->task_idx = (desc_idx + 1) & mask` -/
  | storeTaskIdx (idx : Nat)
  /-- `task->vring_idx = desc_idx` or `vring->desc[prev_idx].next = desc_idx` -/
  | storeLink (idx : Nat)
  /-- the three stores of `vring_set_desc` -/
  | storeAddr (idx : Nat)
  | storeLen (idx : Nat)
  | storeFlags (idx : Nat)
  /-- `vring->tasks[slots[j]] = NULL` after the ring was found full -/
  | rollback (j : Nat)
  /-- the argument `task->vring_idx` of `vring_flush` -/
  | loadVringIdx
  /-- the first loop of `vring_flush` -/
  | loadLastAvailIdx (descIdx : Nat)
  | casLastAvailIdx (descIdx idx : Nat)
  /-- `avail->ring[idx & mask] = desc_idx` -/
  | storeAvailRing (descIdx idx : Nat)
  /-- the second loop of `vring_flush` -/
  | casAvailIdx (idx : Nat)
  /-- `vring->used->flags & VRING_USED_F_NO_NOTIFY` -/
  | loadUsedFlags
  | writeKickfd
  | done (rc : Int)
  deriving Repr, DecidableEq

/-- One call of `vring_put_task`: its argument, its locals and its position. -/
structure PutCall where
  task : TaskPtr
  i : Nat
  slots : List Nat
  prevIdx : Nat
  pc : PutPc
  deriving Repr, DecidableEq

/-- The flags that `vring_set_desc` computes. -/
def descFlags (vbuf : Buffer) (last : Bool) : Nat :=
  (if vbuf.response then virtioDescFWrite else 0) ||| (if last then 0 else virtioDescFNext)

/-- `i < task->count`, tested before every iteration. -/
def loopPc (task : Task) (i : Nat) : PutPc :=
  if i < task.count then .loadTaskIdx else .loadVringIdx

def putStart (m : Mem) (t : TaskPtr) : PutCall := ⟨t, 0, [], 0, loopPc (m.objs t) 0⟩

/-- `vbufs[i]`; the loop bound keeps `i` below the count. -/
def vbufAt (task : Task) (i : Nat) : Buffer := task.vbufs.getD i ⟨0, 0, false, false, 0, 0⟩

/-- The next shared access of a call of `vring_put_task`. -/
def putStep (m : Mem) (c : PutCall) : Mem × PutCall :=
  let vring := m.vring
  let task := m.objs c.task
  match c.pc with
  | .idle => (m, c)
  | .loadTaskIdx => (m, { c with pc := .loadTask vring.taskIdx vring.taskIdx })
  | .loadTask saved idx =>
      match vring.tasks idx with
      | none => (m, { c with pc := .casTask saved idx })
      | some _ =>
          if (idx + 1) &&& mask = saved then (m, { c with pc := .rollback 0 })
          else (m, { c with pc := .loadTask saved ((idx + 1) &&& mask) })
  | .casTask saved idx =>
      match vring.tasks idx with
      | none =>
          (m.setTask idx (some c.task),
            { c with slots := c.slots ++ [idx], pc := .storeTaskIdx idx })
      | some _ => (m, { c with pc := .loadTask saved idx })
  | .storeTaskIdx idx => (m.setTaskIdx ((idx + 1) &&& mask), { c with pc := .storeLink idx })
  | .storeLink idx =>
      if c.i = 0 then (m.setObj c.task { task with vringIdx := idx }, { c with pc := .storeAddr idx })
      else (m.setDesc c.prevIdx { vring.desc c.prevIdx with next := idx },
        { c with pc := .storeAddr idx })
  | .storeAddr idx =>
      (m.setDesc idx { vring.desc idx with addr := (vbufAt task c.i).buf },
        { c with pc := .storeLen idx })
  | .storeLen idx =>
      (m.setDesc idx { vring.desc idx with len := (vbufAt task c.i).size % 2 ^ 32 },
        { c with pc := .storeFlags idx })
  | .storeFlags idx =>
      (m.setDesc idx
          { vring.desc idx with flags := descFlags (vbufAt task c.i) (c.i + 1 == task.count) },
        { c with i := c.i + 1, prevIdx := idx, pc := loopPc task (c.i + 1) })
  | .rollback j =>
      if j < c.i then (m.setTask (c.slots.getD j 0) none, { c with pc := .rollback (j + 1) })
      else (m, { c with pc := .done (-1) })
  | .loadVringIdx => (m, { c with pc := .loadLastAvailIdx task.vringIdx })
  | .loadLastAvailIdx d => (m, { c with pc := .casLastAvailIdx d vring.lastAvailIdx })
  | .casLastAvailIdx d idx =>
      if vring.lastAvailIdx = idx then
        (m.setLastAvailIdx ((idx + 1) % 2 ^ 16), { c with pc := .storeAvailRing d idx })
      else (m, { c with pc := .loadLastAvailIdx d })
  | .storeAvailRing d idx => (m.setAvailRing (idx &&& mask) d, { c with pc := .casAvailIdx idx })
  | .casAvailIdx idx =>
      if vring.avail.idx = idx then
        (m.setAvailIdx ((idx + 1) % 2 ^ 16), { c with pc := .loadUsedFlags })
      else (m, c)
  | .loadUsedFlags =>
      if vring.used.flags &&& vringUsedFNoNotify = 0 then (m, { c with pc := .writeKickfd })
      else (m, { c with pc := .done 0 })
  | .writeKickfd => (m.kick, { c with pc := .done 0 })
  | .done _ => (m, c)

/-! ## `vring_get_task` -/

/-- Where a call of `vring_get_task` stands, with its locals. -/
inductive GetPc where
  | idle
  /-- the comparison of `last_used_idx` and `used->idx` -/
  | loadUsedIdx
  /-- `used->ring[u_idx & mask].id` -/
  | loadId (u : Nat)
  /-- `vring->tasks[desc_idx]` -/
  | loadTask (u descIdx : Nat)
  /-- `task->used_bytes = used->ring[u_idx & mask].len` -/
  | storeUsedBytes (u descIdx : Nat) (task : TaskPtr)
  /-- `assert(task->vring_idx == desc_idx)` -/
  | checkVringIdx (u descIdx : Nat) (task : TaskPtr)
  /-- `vring->desc[idx].flags & VIRTIO_DESC_F_NEXT` -/
  | loadFlags (u : Nat) (task : TaskPtr) (idx : Nat)
  /-- `assert(vring->tasks[idx] != NULL)` -/
  | checkTask (u : Nat) (task : TaskPtr) (idx : Nat)
  /-- `vring->tasks[idx] = NULL` in the loop -/
  | clearTask (u : Nat) (task : TaskPtr) (idx : Nat)
  /-- `idx = vring->desc[idx].next` -/
  | loadNext (u : Nat) (task : TaskPtr) (idx : Nat)
  /-- `vring->tasks[idx] = NULL` after the loop -/
  | clearLast (u : Nat) (task : TaskPtr) (idx : Nat)
  /-- `vring->last_used_idx = u_idx + 1` -/
  | storeLastUsedIdx (u : Nat) (task : TaskPtr)
  | ret (task : Option TaskPtr)
  /-- a failed assertion or a null task -/
  | failed
  deriving Repr, DecidableEq

/-- The next shared access of `vring_get_task`. A call that has returned is
followed by the next one. -/
def getStep (m : Mem) (pc : GetPc) : Mem × GetPc :=
  let vring := m.vring
  match pc with
  | .idle => (m, .loadUsedIdx)
  | .loadUsedIdx =>
      if vring.lastUsedIdx &&& mask = vring.used.idx &&& mask then (m, .ret none)
      else (m, .loadId vring.lastUsedIdx)
  | .loadId u => (m, .loadTask u ((vring.used.ring (u &&& mask)).id % 2 ^ 16))
  | .loadTask u d =>
      match vring.tasks d with
      | none => (m, .failed)
      | some t => (m, .storeUsedBytes u d t)
  | .storeUsedBytes u d t =>
      (m.setObj t { m.objs t with usedBytes := (vring.used.ring (u &&& mask)).len },
        .checkVringIdx u d t)
  | .checkVringIdx u d t =>
      if (m.objs t).vringIdx = d then (m, .loadFlags u t d) else (m, .failed)
  | .loadFlags u t idx =>
      if (vring.desc idx).flags &&& virtioDescFNext = 0 then (m, .clearLast u t idx)
      else (m, .checkTask u t idx)
  | .checkTask u t idx =>
      if vring.tasks idx = none then (m, .failed) else (m, .clearTask u t idx)
  | .clearTask u t idx => (m.setTask idx none, .loadNext u t idx)
  | .loadNext u t idx => (m, .loadFlags u t (vring.desc idx).next)
  | .clearLast u t idx => (m.setTask idx none, .storeLastUsedIdx u t)
  | .storeLastUsedIdx u t => (m.setLastUsedIdx ((u + 1) % 2 ^ 16), .ret (some t))
  | .ret _ => (m, .loadUsedIdx)
  | .failed => (m, .failed)

end VhostUser.Ring
