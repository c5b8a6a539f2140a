import VhostUser.Lib.Window
import VhostUser.Ring.System

/-! # The representation invariant of the vring

What ties the descriptor table, the two rings and the task table to the calls of
`vring_put_task` that are under way, in flight or reaped. Every slot that is not
free belongs to one call, a call owns a suffix of the slots it claimed, and the
descriptors of these slots carry the buffers of its task and are linked in the
order of the buffers. Unbounded positions stand behind the sixteen-bit indices.
-/

namespace VhostUser.Ring

open VhostUser.Lib

@[simp] theorem and_mask (n : Nat) : n &&& mask = n % vhostVringSize :=
  Nat.and_two_pow_sub_one_eq_mod n 10

theorem mod_two_pow_mask (q : Nat) : q % 2 ^ 16 % vhostVringSize = q % vhostVringSize :=
  Nat.mod_mod_of_dvd q (by decide)

@[simp] theorem descFlags_next (b : Buffer) (last : Bool) :
    descFlags b last &&& virtioDescFNext = 0 ↔ last = true := by
  cases last <;> cases hr : b.response <;>
    simp [descFlags, hr, virtioDescFNext, virtioDescFWrite]

@[simp] theorem descFlags_write (b : Buffer) (last : Bool) :
    descFlags b last &&& virtioDescFWrite = 0 ↔ b.response = false := by
  cases last <;> cases hr : b.response <;>
    simp [descFlags, hr, virtioDescFNext, virtioDescFWrite]

/-! ## Chains -/

/-- Descriptor `d` carries buffer `k`. -/
def Carries (d : VringDesc) (bufs : List Buffer) (k : Nat) : Prop :=
  ∃ b, bufs[k]? = some b ∧ d.addr = b.buf ∧ d.len = b.size % 2 ^ 32 ∧
    d.flags = descFlags b (k + 1 == bufs.length)

/-- From position `lo` on, the first `f` slots carry their buffers and the first
`l` slots are linked. -/
structure ChainOk (desc : Nat → VringDesc) (bufs : List Buffer) (slots : List Nat)
    (lo f l : Nat) : Prop where
  carries : ∀ k x, slots[k]? = some x → lo ≤ k → k < f → Carries (desc x) bufs k
  links : ∀ k x y, slots[k]? = some x → slots[k + 1]? = some y → lo ≤ k → k + 1 < l →
    (desc x).next = y

/-- The chain of the task is complete from position `lo` on. -/
structure Built (C : PutCall) (o : Task) (desc : Nat → VringDesc) (lo : Nat) : Prop where
  length : C.slots.length = o.count
  pos : 0 < o.count
  head : C.slots[0]? = some o.vringIdx
  chain : ChainOk desc o.vbufs C.slots lo o.count o.count

/-- The chain is under construction in iteration `C.i`. -/
structure Part (C : PutCall) (o : Task) (desc : Nat → VringDesc) (f l : Nat) : Prop where
  lt : C.i < o.count
  prev : 0 < C.i → C.slots[C.i - 1]? = some C.prevIdx
  head : 0 < l → C.slots[0]? = some o.vringIdx
  chain : ChainOk desc o.vbufs C.slots 0 f l

/-- Inside an iteration, after its slot `idx` was claimed. -/
structure Claimed (C : PutCall) (o : Task) (desc : Nat → VringDesc) (idx l : Nat) : Prop where
  length : C.slots.length = C.i + 1
  last : C.slots[C.i]? = some idx
  part : Part C o desc C.i l

/-- `vring_put_task` has published its task. -/
def Published : PutPc → Prop
  | .loadUsedFlags => True
  | .writeKickfd => True
  | .done rc => rc = 0
  | _ => False

/-- A call that has not yet reserved a position. -/
def BuildOk (C : PutCall) (o : Task) (desc : Nat → VringDesc) (freed : Nat) : Prop :=
  match C.pc with
  | .loadTaskIdx => freed = 0 ∧ C.slots.length = C.i ∧ Part C o desc C.i C.i
  | .loadTask saved idx =>
      freed = 0 ∧ C.slots.length = C.i ∧ Part C o desc C.i C.i ∧
        saved < vhostVringSize ∧ idx < vhostVringSize
  | .casTask saved idx =>
      freed = 0 ∧ C.slots.length = C.i ∧ Part C o desc C.i C.i ∧
        saved < vhostVringSize ∧ idx < vhostVringSize
  | .storeTaskIdx idx => freed = 0 ∧ Claimed C o desc idx C.i
  | .storeLink idx => freed = 0 ∧ Claimed C o desc idx C.i
  | .storeAddr idx => freed = 0 ∧ Claimed C o desc idx (C.i + 1)
  | .storeLen idx =>
      freed = 0 ∧ Claimed C o desc idx (C.i + 1) ∧ (desc idx).addr = (vbufAt o C.i).buf
  | .storeFlags idx =>
      freed = 0 ∧ Claimed C o desc idx (C.i + 1) ∧ (desc idx).addr = (vbufAt o C.i).buf ∧
        (desc idx).len = (vbufAt o C.i).size % 2 ^ 32
  | .rollback j => freed = j ∧ C.slots.length = C.i ∧ j ≤ C.i
  | .loadVringIdx => freed = 0 ∧ Built C o desc 0
  | .loadLastAvailIdx d => freed = 0 ∧ Built C o desc 0 ∧ C.slots[0]? = some d
  | .casLastAvailIdx d _ => freed = 0 ∧ Built C o desc 0 ∧ C.slots[0]? = some d
  | _ => False

/-- The control points of a call that holds a position. -/
def AvailPc (C : PutCall) : Prop :=
  match C.pc with
  | .storeAvailRing d _ => C.slots[0]? = some d
  | .casAvailIdx _ => True
  | pc => Published pc

/-- What holds of one call, given its task object, the descriptor table, the
number of its freed slots and its stage. -/
def CallOk (C : PutCall) (o : Task) (desc : Nat → VringDesc) (freed : Nat) : Stage → Prop
  | .idle => C.pc = .idle ∧ C.slots = [] ∧ freed = 0
  | .building => BuildOk C o desc freed
  | .avail => freed = 0 ∧ Built C o desc 0 ∧ AvailPc C
  | .device => freed = 0 ∧ Built C o desc 0 ∧ Published C.pc
  | .used => Built C o desc freed ∧ Published C.pc
  | .gone => C.slots.length ≤ freed ∧ (C.pc = .done (-1) ∨ Published C.pc)

/-! ## The invariant -/

def Sys.held (s : Sys) (c : Nat) : List Nat := (s.calls c).slots.drop (s.freed c)

def Sys.Live (s : Sys) (c : Nat) : Prop := s.stage c ≠ .idle ∧ s.stage c ≠ .gone

/-- Sixteen-bit indices are unbounded positions reduced. -/
structure Counters (s : Sys) : Prop where
  lastAvailIdx : s.mem.vring.lastAvailIdx = s.log.length % 2 ^ 16
  availIdx : s.mem.vring.avail.idx = s.publ % 2 ^ 16
  devIdx : s.devIdx = s.fetched % 2 ^ 16
  usedIdx : s.mem.vring.used.idx = s.usedLog.length % 2 ^ 16
  lastUsedIdx : s.mem.vring.lastUsedIdx = s.returned.length % 2 ^ 16
  fetched_le : s.fetched ≤ s.publ
  publ_le : s.publ ≤ s.log.length
  returned_le : s.returned.length ≤ s.usedLog.length
  cursor : s.mem.vring.taskIdx < vhostVringSize

/-- The task table, slot by slot. -/
structure Owned (s : Sys) : Prop where
  tasks : ∀ x, s.mem.vring.tasks x = (s.owner x).map fun c => (s.calls c).task
  owner : ∀ x c, s.owner x = some c ↔ x ∈ s.held c
  nodup : ∀ c, (s.calls c).slots.Nodup
  bound : ∀ c x, x ∈ (s.calls c).slots → x < vhostVringSize
  user : ∀ t c, s.user t = some c ↔ (s.calls c).task = t ∧ s.Live c

/-- The avail ring between the position the device reads next and the position
that is reserved next. -/
structure LogOk (s : Sys) : Prop where
  nodup : s.log.Nodup
  mem : ∀ c, s.stage c = .avail → c ∈ s.log
  stage_lt : ∀ q c, s.log[q]? = some c → q < s.fetched →
    s.stage c = .device ∨ s.stage c = .used ∨ s.stage c = .gone
  stage_ge : ∀ q c, s.log[q]? = some c → s.fetched ≤ q → s.stage c = .avail
  pc_lt : ∀ q c, s.log[q]? = some c → q < s.publ → Published (s.calls c).pc
  pc_ge : ∀ q c, s.log[q]? = some c → s.publ ≤ q →
    (∃ d, (s.calls c).pc = .storeAvailRing d (q % 2 ^ 16)) ∨
      (s.calls c).pc = .casAvailIdx (q % 2 ^ 16)
  ring : ∀ q c, s.log[q]? = some c → s.fetched ≤ q →
    (∀ d i, (s.calls c).pc ≠ .storeAvailRing d i) →
    (s.calls c).slots[0]? = some (s.mem.vring.avail.ring (q % vhostVringSize))

/-- The poller has yet to read the element of the used ring it is working on. -/
def Unread : GetPc → Prop
  | .idle => True
  | .loadUsedIdx => True
  | .loadId _ => True
  | .loadTask _ _ => True
  | .storeUsedBytes _ _ _ => True
  | .ret _ => True
  | _ => False

/-- What the device holds and what it has reported. -/
structure UsedOk (s : Sys) : Prop where
  pending_nodup : (s.pending.map (·.1)).Nodup
  pending : ∀ c h, (c, h) ∈ s.pending → s.stage c = .device ∧ (s.calls c).slots[0]? = some h
  nodup : (s.usedLog.map (·.1)).Nodup
  stage_lt : ∀ j c len, s.usedLog[j]? = some (c, len) → j < s.returned.length →
    s.stage c = .gone
  stage_ge : ∀ j c len, s.usedLog[j]? = some (c, len) → s.returned.length ≤ j →
    s.stage c = .used
  fresh : ∀ j c len, s.usedLog[j]? = some (c, len) → s.returned.length < j → s.freed c = 0
  ring : ∀ j c len, s.usedLog[j]? = some (c, len) →
    s.returned.length < j ∨ (j = s.returned.length ∧ Unread s.poller) →
    ∃ h, (s.calls c).slots[0]? = some h ∧
      s.mem.vring.used.ring (j % vhostVringSize) = ⟨h, len⟩
  returned : ∀ (j : Nat) (t : TaskPtr) (b : Nat), s.returned[j]? = some (t, b) →
    ∃ c, s.usedLog[j]? = some (c, b) ∧ (s.calls c).task = t

/-- `vring_get_task` is at work on call `c`, of which it has reset `k` slots. -/
structure Reaping (s : Sys) (u : Nat) (c len k : Nat) : Prop where
  index : u = s.returned.length % 2 ^ 16
  entry : s.usedLog[s.returned.length]? = some (c, len)
  freed : s.freed c = k
  cleared : s.cleared = ((s.calls c).slots.take k).map (·, some c)

/-- The walk of `vring_get_task` stands on slot `k` of call `c`. -/
structure Walking (s : Sys) (u : Nat) (t : TaskPtr) (idx c len k : Nat) : Prop
    extends Reaping s u c len k where
  slot : (s.calls c).slots[k]? = some idx
  task : (s.calls c).task = t
  bytes : (s.mem.objs t).usedBytes = len

def PollOk (s : Sys) : Prop :=
  match s.poller with
  | .idle => ∀ c, s.current = some c → s.freed c = 0
  | .loadUsedIdx => ∀ c, s.current = some c → s.freed c = 0
  | .ret none => (∀ c, s.current = some c → s.freed c = 0) ∧ s.cleared = []
  | .ret (some t) => (∀ c, s.current = some c → s.freed c = 0) ∧
      ∃ n c len, s.returned.length = n + 1 ∧ s.usedLog[n]? = some (c, len) ∧
        (s.calls c).task = t ∧ s.cleared = (s.calls c).slots.map (·, some c)
  | .loadId u => ∃ c len, Reaping s u c len 0
  | .loadTask u d => ∃ c len, Reaping s u c len 0 ∧ (s.calls c).slots[0]? = some d
  | .storeUsedBytes u d t => ∃ c len, Reaping s u c len 0 ∧ (s.calls c).slots[0]? = some d ∧
      (s.calls c).task = t
  | .checkVringIdx u d t => ∃ c len, Walking s u t d c len 0
  | .loadFlags u t idx => ∃ c len k, Walking s u t idx c len k
  | .checkTask u t idx =>
      ∃ c len k, Walking s u t idx c len k ∧ k + 1 < (s.calls c).slots.length
  | .clearTask u t idx =>
      ∃ c len k, Walking s u t idx c len k ∧ k + 1 < (s.calls c).slots.length
  | .loadNext u t idx => ∃ c len k y, Walking s u t y c len (k + 1) ∧
      (s.calls c).slots[k]? = some idx ∧ (s.mem.vring.desc idx).next = y
  | .clearLast u t idx =>
      ∃ c len k, Walking s u t idx c len k ∧ k + 1 = (s.calls c).slots.length
  | .storeLastUsedIdx u t =>
      ∃ c len, Reaping s u c len (s.calls c).slots.length ∧ (s.calls c).task = t ∧
        (s.mem.objs t).usedBytes = len
  | .failed => False

structure Inv (s : Sys) : Prop where
  counters : Counters s
  owned : Owned s
  calls : ∀ c, CallOk (s.calls c) (s.mem.objs (s.calls c).task) s.mem.vring.desc
    (s.freed c) (s.stage c)
  log : LogOk s
  used : UsedOk s
  poll : PollOk s

theorem init_inv : Inv init where
  counters := by constructor <;> simp [init, vringCreate, vhostVringSize]
  owned := by constructor <;> simp [init, vringCreate, Sys.held, Sys.Live]
  calls := fun _ => ⟨rfl, rfl, rfl⟩
  log := by constructor <;> simp [init]
  used := by constructor <;> simp [init]
  poll := fun _ h => by simp [init, Sys.current] at h

/-- The condition under which the walk of `vring_get_task` is safe: every task
has a buffer, and no producer stores the link of the slot that the poller has
reset and whose link it reads next. -/
def NoLinkRace (s : Sys) : Event → Prop
  | .start _ _ vbufs => vbufs ≠ []
  | .put c => ∀ idx u t x, (s.calls c).pc = .storeLink idx → (s.calls c).i ≠ 0 →
      s.poller = .loadNext u t x → (s.calls c).prevIdx ≠ x
  | _ => True

end VhostUser.Ring
