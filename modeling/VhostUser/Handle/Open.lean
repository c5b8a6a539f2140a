import VhostUser.Dev.Sync
import VhostUser.Lib.Ledger

/-! # Opening and closing a device

`open_virtio_dev` and `close_virtio_dev` of `virtio_dev.c`, with the functions of
`vhost_client.c`, `vhost_user.c`, `shm.c`, `vring.c`, `vring_poller.c` and `virtio_task.c`
that acquire something for them or release it.

Every resource has a name by the place where it is acquired, as one call of
`open_virtio_dev` acquires each of them once at most. What may fail there is decided by the
surroundings of the call. Pointers are modelled as far as they are compared with `NULL`.
-/

namespace VhostUser.Handle

open VhostUser.Lib Ledger

/-! ## Resources and what may fail -/

inductive Probe where
  | inquiry
  | testUnitReady
  | readCap
  deriving Repr, DecidableEq

inductive Resource where
  | dev
  | client
  | sock
  /-- a huge page file that is opened for the server -/
  | memFd (i : Nat)
  | vring (i : Nat)
  | vringShm (i : Nat)
  | kickFd (i : Nat)
  | callFd (i : Nat)
  | outring
  | outFd
  | poller
  | task (p : Probe)
  | vbufs (p : Probe)
  /-- the shared buffer that is the `i`th of a task -/
  | buf (p : Probe) (i : Nat)
  deriving Repr, DecidableEq

inductive Request where
  | setOwner
  | resetOwner
  | getFeatures
  | setFeatures
  | setMemTable
  | setVringNum (i : Nat)
  | setVringBase (i : Nat)
  | setVringKick (i : Nat)
  | setVringCall (i : Nat)
  | setVringAddr (i : Nat)
  deriving Repr, DecidableEq

inductive Step where
  | callocDev
  | callocClient
  | callocVring (i : Nat)
  | allocVringShm (i : Nat)
  | eventfdKick (i : Nat)
  | eventfdCall (i : Nat)
  | socket
  | connect
  | send (req : Request)
  | recv (req : Request)
  /-- the reply is for the request -/
  | reply (req : Request)
  | openRegion (i : Nat)
  | rteRingCreate
  | eventfdOut
  | mallocPoller
  | pthreadCreate
  | callocTask (p : Probe)
  | mallocVbufs (p : Probe)
  | allocBuf (p : Probe) (i : Nat)
  | submit (p : Probe)
  | respGood (p : Probe)
  /-- the device is a connected disk -/
  | deviceType
  deriving Repr, DecidableEq

/-- What a call of `open_virtio_dev` meets. -/
structure Surroundings where
  ok : Step → Bool
  /-- memory regions of the process -/
  nregions : Nat
  /-- the descriptor number that `eventfd` returns for `dev->outfd` -/
  outfd : Nat
  /-- a `pthread_create` that fails has stored a thread id -/
  tidStored : Bool
  /-- the data of the READ CAPACITY command -/
  payload : Bytes

inductive Fault where
  | nullPointer
  | notHeld
  | assertion
  /-- `vring_poller_stop` waits for a thread that does not exist -/
  | hang
  deriving Repr, DecidableEq

/-- Programs over the ledger of one call. -/
abbrev OpenM := Prog Fault Empty (Multiset Resource)

/-- A pointer is used. -/
def deref (nonNull : Bool) : OpenM Unit := Prog.check (fun _ => nonNull) .nullPointer

def free (r : Resource) : OpenM Unit := release .notHeld r

/-- Two calls in a row; the second is made only if the first returns 0. -/
def andThen (a b : OpenM Bool) : OpenM Bool := do
  if ← a then b else pure false

/-! ## Requests -/

def vhostMemoryMaxNregions : Nat := 8

/-- The entries of `fds` that `get_memory_fds` fills. -/
def memFds (n : Nat) : List Resource := (List.range n).map .memFd

def getMemoryFdsFrom (s : Surroundings) : Nat → Nat → OpenM Bool
  | 0, _ => pure true
  | n + 1, i => do
      if s.ok (.openRegion i) then do
        acquire (.memFd i)
        getMemoryFdsFrom s n (i + 1)
      else do
        releaseAll .notHeld (memFds i)
        pure false

def Surroundings.fdNum (s : Surroundings) : Nat := min vhostMemoryMaxNregions s.nregions

def getMemoryFds (s : Surroundings) : OpenM Bool := getMemoryFdsFrom s s.fdNum 0

def Request.needReply : Request → Bool
  | .getFeatures => true
  | _ => false

/-- `vhost_ioctl`; the result is `true` for 0. -/
def vhostIoctl (s : Surroundings) (req : Request) : OpenM Bool := do
  if req = .setMemTable then do
    if ← getMemoryFds s then do
      if s.ok (.send req) then do
        releaseAll .notHeld (memFds s.fdNum)
        pure true
      else pure false
    else pure false
  else if s.ok (.send req) then do
    if req.needReply then do
      if s.ok (.recv req) then do
        Prog.check (fun _ => s.ok (.reply req)) .assertion
        pure true
      else pure false
    else pure true
  else pure false

/-! ## The client -/

inductive ClientStatus where
  | created
  | initialized
  deriving Repr, DecidableEq

def newVhostClient (s : Surroundings) : OpenM (Option ClientStatus) := do
  if s.ok .callocClient then do
    acquire .client
    pure (some .created)
  else pure none

def negotiateFeatures (s : Surroundings) : OpenM Bool :=
  andThen (vhostIoctl s .getFeatures) (vhostIoctl s .setFeatures)

/-- What `init_vhost_client` does with its socket; each of its errors closes the socket. -/
def initSession (s : Surroundings) : OpenM Bool :=
  andThen (pure (s.ok .connect)) (andThen (vhostIoctl s .setOwner) (andThen (negotiateFeatures s)
    (vhostIoctl s .setMemTable)))

/-- `init_vhost_client` with the status it leaves. -/
def initVhostClient (s : Surroundings) (status : ClientStatus) : OpenM (ClientStatus × Bool) := do
  if status ≠ .created then pure (status, false)
  else if s.ok .socket then do
    acquire .sock
    if ← initSession s then pure (.initialized, true)
    else do
      free .sock
      pure (status, false)
  else pure (status, false)

def setVhostVring (s : Surroundings) (i : Nat) : OpenM Bool :=
  andThen (vhostIoctl s (.setVringNum i)) (andThen (vhostIoctl s (.setVringBase i))
    (andThen (vhostIoctl s (.setVringKick i)) (andThen (vhostIoctl s (.setVringCall i))
      (vhostIoctl s (.setVringAddr i)))))

def endVhostClient (s : Surroundings) (status : ClientStatus) : OpenM Unit := do
  if status ≠ .initialized then pure ()
  else do
    let _ ← vhostIoctl s .resetOwner
    free .sock
    free .client

/-! ## Vrings and the poller -/

/-- `vring_create`; the result is `false` for `NULL`. -/
def vringCreate (s : Surroundings) (i : Nat) : OpenM Bool := do
  if s.ok (.callocVring i) then do
    acquire (.vring i)
    if s.ok (.allocVringShm i) then do
      acquire (.vringShm i)
      if s.ok (.eventfdKick i) then do
        acquire (.kickFd i)
        if s.ok (.eventfdCall i) then do
          acquire (.callFd i)
          pure true
        else do
          releaseAll .notHeld [.kickFd i, .vringShm i, .vring i]
          pure false
      else do
        releaseAll .notHeld [.vringShm i, .vring i]
        pure false
    else do
      free (.vring i)
      pure false
  else pure false

def vringDestroy (i : Nat) : OpenM Unit :=
  releaseAll .notHeld [.kickFd i, .callFd i, .vringShm i, .vring i]

/-- The thread id in the poller. -/
inductive Tid where
  | zero
  /-- the poller thread runs, and clears the id when it is told to end -/
  | running
  /-- an id without a thread -/
  | stale
  deriving Repr, DecidableEq

/-- `vring_poller_start` with the thread id it leaves. -/
def vringPollerStart (s : Surroundings) : Tid × Bool :=
  if s.ok .pthreadCreate then (.running, true) else (if s.tidStored then .stale else .zero, false)

def vringPollerStop (tid : Tid) : OpenM Unit := Prog.check (fun _ => tid != .stale) .hang

def vringPollerDestroy (tid : Tid) : OpenM Unit := do
  if tid ≠ .zero then do
    vringPollerStop tid
    free .poller
  else free .poller

/-! ## Probes -/

/-- A task with the buffers that were allocated for it. -/
structure ProbeTask where
  probe : Probe
  bufs : List Nat

def ProbeTask.resources (t : ProbeTask) : List Resource :=
  t.bufs.map (.buf t.probe) ++ [.vbufs t.probe, .task t.probe]

def virtioTaskCreate (s : Surroundings) (p : Probe) : OpenM (Option ProbeTask) := do
  if s.ok (.callocTask p) then do
    acquire (.task p)
    if s.ok (.mallocVbufs p) then do
      acquire (.vbufs p)
      pure (some ⟨p, []⟩)
    else do
      free (.task p)
      pure none
  else pure none

/-- `virtio_task_alloc_buf` of the `i`th buffer; the result is `false` for `NULL`. -/
def virtioTaskAllocBuf (s : Surroundings) (t : ProbeTask) (i : Nat) : OpenM (ProbeTask × Bool) := do
  if s.ok (.allocBuf t.probe i) then do
    acquire (.buf t.probe i)
    pure ({ t with bufs := t.bufs ++ [i] }, true)
  else pure (t, false)

def virtioTaskDestroy (t : ProbeTask) : OpenM Unit := releaseAll .notHeld t.resources

/-- Submit a task that was set up, and check the response. A command that succeeds leaves
its task and a pointer to its data. -/
def submitProbe (s : Surroundings) (task : ProbeTask) (req resp data : Bool) :
    OpenM (Option Bool) := do
  deref req
  if s.ok (.submit task.probe) then do
    deref resp
    if s.ok (.respGood task.probe) then pure (some data)
    else do
      virtioTaskDestroy task
      pure none
  else do
    virtioTaskDestroy task
    pure none

/-- What the three probes have in common, for a task of `nbufs` buffers: request, response
and data. A pointer is `false` for `NULL`. -/
def sendProbe (s : Surroundings) (p : Probe) (nbufs : Nat) : OpenM (Option Bool) := do
  match ← virtioTaskCreate s p with
  | none => pure none
  | some task => do
    let (task, req) ← virtioTaskAllocBuf s task 0
    let (task, resp) ← virtioTaskAllocBuf s task 1
    let (task, data) ← if nbufs > 2 then virtioTaskAllocBuf s task 2 else pure (task, false)
    submitProbe s task req resp data

def sendInquiry (s : Surroundings) : OpenM Bool := do
  match ← sendProbe s .inquiry 3 with
  | none => pure false
  | some data => do
    deref data
    pure (s.ok .deviceType)

def sendTestUnitReady (s : Surroundings) : OpenM Bool := do
  let data ← sendProbe s .testUnitReady 2
  pure data.isSome

/-- The geometry in the data of READ CAPACITY. `block_size` is an `int` that is used as a
`size_t` everywhere. -/
def readCapacity (payload : Bytes) : Dev.VirtioDev :=
  let numBlocks := Dev.addSize (Dev.fromBe64 payload 0) 1
  let blockSize := toSize (toInt (Dev.fromBe32 payload 8))
  ⟨blockSize, numBlocks, Dev.mulSize blockSize numBlocks⟩

def sendReadCap (s : Surroundings) : OpenM (Option Dev.VirtioDev) := do
  match ← sendProbe s .readCap 3 with
  | none => pure none
  | some data => do
    deref data
    pure (some (readCapacity s.payload))

/-! ## The device handle -/

def virtioScsiQcount : Nat := 3

/-- `struct virtio_dev`. Pointers are `none` or `false` for `NULL`; the first `vrings`
entries of `vring` are not `NULL`. -/
structure VirtioDev where
  client : Option ClientStatus
  vrings : Nat
  poller : Option Tid
  outring : Bool
  outfd : Int
  geometry : Dev.VirtioDev

/-- As `calloc` leaves it. -/
def VirtioDev.zero : VirtioDev := ⟨none, 0, none, false, 0, ⟨0, 0, 0⟩⟩

/-- The vrings from the next one on, `n` of them. -/
def createVrings (s : Surroundings) : Nat → VirtioDev → OpenM (VirtioDev × Bool)
  | 0, dev => pure (dev, true)
  | n + 1, dev => do
      if ← vringCreate s dev.vrings then createVrings s n { dev with vrings := dev.vrings + 1 }
      else pure (dev, false)

def setVrings (s : Surroundings) : Nat → Nat → OpenM Bool
  | 0, _ => pure true
  | n + 1, i => andThen (setVhostVring s i) (setVrings s n (i + 1))

def destroyVrings (n : Nat) : OpenM Unit := (List.range n).forM vringDestroy

/-- Release what may be missing. -/
def freeIf (there : Bool) (r : Resource) : OpenM Unit := if there then free r else pure ()

/-- The label `error` of `open_virtio_dev`. -/
def openError (s : Surroundings) (dev : VirtioDev) : OpenM (Option VirtioDev) := do
  dev.poller.forM vringPollerDestroy
  dev.client.forM (endVhostClient s)
  destroyVrings dev.vrings
  freeIf dev.outring .outring
  freeIf (dev.outfd > 0) .outFd
  free .dev
  pure none

/-- `open_virtio_dev` from the first probe on. -/
def openProbe (s : Surroundings) (dev : VirtioDev) : OpenM (Option VirtioDev) := do
  if ← sendInquiry s then do
    if ← sendTestUnitReady s then do
      match ← sendReadCap s with
      | some geometry => pure (some { dev with geometry := geometry })
      | none => openError s dev
    else openError s dev
  else openError s dev

/-- `open_virtio_dev` from the creation of the poller on. -/
def openPoller (s : Surroundings) (dev : VirtioDev) : OpenM (Option VirtioDev) := do
  if s.ok .mallocPoller then do
    acquire .poller
    let (tid, started) := vringPollerStart s
    let dev := { dev with poller := some tid }
    if started then openProbe s dev else openError s dev
  else openError s dev

/-- `open_virtio_dev` after `init_vhost_client`. -/
def openSession (s : Surroundings) (dev : VirtioDev) : OpenM (Option VirtioDev) := do
  if ← setVrings s virtioScsiQcount 0 then do
    if s.ok .rteRingCreate then do
      acquire .outring
      let dev := { dev with outring := true }
      if s.ok .eventfdOut then do
        acquire .outFd
        openPoller s { dev with outfd := s.outfd }
      else openError s { dev with outfd := -1 }
    else openError s dev
  else openError s dev

def openVirtioDev (s : Surroundings) : OpenM (Option VirtioDev) := do
  if s.ok .callocDev then do
    acquire .dev
    match ← newVhostClient s with
    | none => openError s .zero
    | some status => do
      let dev := { VirtioDev.zero with client := some status }
      let (dev, created) ← createVrings s virtioScsiQcount dev
      if created then do
        let (status, initialized) ← initVhostClient s status
        let dev := { dev with client := some status }
        if initialized then openSession s dev else openError s dev
      else openError s dev
  else pure none

def closeVirtioDev (s : Surroundings) (dev : VirtioDev) : OpenM Unit := do
  dev.poller.elim (Prog.fault .nullPointer) vringPollerDestroy
  dev.client.elim (Prog.fault .nullPointer) (endVhostClient s)
  destroyVrings virtioScsiQcount
  free .outFd
  free .outring
  free .dev

/-! ## All calls of a process -/

/-- A handle with the device behind it. -/
structure DevHandle where
  dev : VirtioDev
  world : Dev.World

/-- The calls of `open_virtio_dev` are numbered. -/
structure Process where
  opens : Nat
  /-- what each of them has acquired and nobody has released -/
  held : Nat → Multiset Resource
  /-- the handles that were returned and not closed -/
  handles : Nat → Option DevHandle
  /-- the devices whose handles were closed, as the last of their I/O has left them -/
  closed : List Dev.World

inductive Crash where
  | handle (e : Fault)
  | io (e : Dev.Fault)
  deriving Repr, DecidableEq

inductive Event where
  /-- `open_virtio_dev` of a device that holds `disk` -/
  | openDev (s : Surroundings) (disk : Bytes)
  /-- a step of the asynchronous interface -/
  | async (h : Nat) (e : Dev.Event)
  /-- `read_virtio_dev` or `write_virtio_dev` with the memory of descriptor `io` -/
  | sync (h : Nat) (isWrite : Bool) (device : Dev.Device) (io offset nbytes : Nat)
      (outcomes : List (Option Bytes))
  | closeDev (h : Nat) (s : Surroundings)

namespace Process

def init : Process := ⟨0, fun _ => 0, fun _ => none, []⟩

def setHandle (p : Process) (h : Nat) (x : DevHandle) : Process :=
  { p with handles := Function.update p.handles h (some x) }

def opened (p : Process) (disk : Bytes) (dev : Option VirtioDev) (held : Multiset Resource) :
    Process :=
  { p with
    opens := p.opens + 1
    held := Function.update p.held p.opens held
    handles := Function.update p.handles p.opens
      (dev.map fun dev => ⟨dev, Dev.init dev.geometry disk⟩) }

def close (p : Process) (h : Nat) (world : Dev.World) (held : Multiset Resource) : Process :=
  { p with
    held := Function.update p.held h held
    handles := Function.update p.handles h none
    closed := world :: p.closed }

section Fields

variable (p : Process) (h : Nat) (x : DevHandle) (disk : Bytes) (dev : Option VirtioDev)
  (held : Multiset Resource) (world : Dev.World)

@[simp] theorem setHandle_handles :
    (p.setHandle h x).handles = Function.update p.handles h (some x) := rfl

@[simp] theorem opened_held :
    (p.opened disk dev held).held = Function.update p.held p.opens held := rfl

@[simp] theorem opened_handles : (p.opened disk dev held).handles =
    Function.update p.handles p.opens (dev.map fun dev => ⟨dev, Dev.init dev.geometry disk⟩) := rfl

@[simp] theorem close_held : (p.close h world held).held = Function.update p.held h held := rfl

@[simp] theorem close_handles :
    (p.close h world held).handles = Function.update p.handles h none := rfl

end Fields

def afterIo (p : Process) (h : Nat) (x : DevHandle) (res : Except Dev.Fault Dev.World) :
    Except Crash Process :=
  match res with
  | .ok world => .ok (p.setHandle h { x with world := world })
  | .error e => .error (.io e)

def step (p : Process) : Event → Option (Except Crash Process)
  | .openDev s disk =>
      some (match openVirtioDev s (0, []) with
        | .ok (dev, held, _) => .ok (p.opened disk dev held)
        | .error e => .error (.handle e))
  | .async h e => do
      let x ← p.handles h
      let res ← Dev.step (.ok x.world) e
      pure (p.afterIo h x res)
  | .sync h isWrite device io offset nbytes outcomes => do
      let x ← p.handles h
      let call := if isWrite then Dev.writeVirtioDev else Dev.readVirtioDev
      pure (p.afterIo h x ((call device io offset nbytes (x.world, outcomes)).map (·.2.1)))
  | .closeDev h s => do
      let x ← p.handles h
      pure (match closeVirtioDev s x.dev (p.held h, []) with
        | .ok (_, held, _) => .ok (p.close h x.world held)
        | .error e => .error (.handle e))

end Process

/-- Nothing follows a crash. -/
def step : Except Crash Process → Event → Option (Except Crash Process)
  | .ok p, e => p.step e
  | .error _, _ => none

def machine : Machine (Except Crash Process) Event := ⟨.ok .init, step⟩

end VhostUser.Handle
