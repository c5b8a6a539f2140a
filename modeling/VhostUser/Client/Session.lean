import VhostUser.Client.Stream
import Mathlib.Data.Nat.Bitwise

/-! # The session of a client

`open_virtio_dev` introduces its device to the server by a sequence of requests:
`init_vhost_client` takes the ownership, negotiates the features and shares the memory, and
`set_vhost_vring` describes one ring after the other. Every request may fail, and then the
rest is left out. On a socket that transfers a message as a whole or not at all, what the
server has been told is at every moment the beginning of this sequence, and it is all of it
when the session is open.
-/

namespace VhostUser.Client

open VhostUser.Lib Shm

/-! ## The client -/

inductive ClientStatus where
  | created
  | initialized
  | ended
  deriving Repr, DecidableEq

structure VhostClient where
  status : ClientStatus
  /-- the features negotiated with the server -/
  features : Nat
  deriving Repr, DecidableEq

/-- A client and what it has sent on its connection. -/
structure Conn where
  client : VhostClient
  stream : List Cell
  deriving Repr, DecidableEq

def newVhostClient : Conn := ⟨⟨.created, 0⟩, []⟩

/-- Where the parts of a `struct vhost_vring` are. -/
def availOffset : Nat := 16 * 1024

def usedOffset : Nat := 20480

def sizeofVhostVring : Nat := 32768

/-- What `set_vhost_vring` reads of a ring that `vring_create` has made. -/
structure Vring where
  kickfd : Int
  callfd : Int
  vringShm : Nat
  num : UInt16
  kickfd_range : 0 ≤ kickfd ∧ kickfd < 2 ^ 31
  callfd_range : 0 ≤ callfd ∧ callfd < 2 ^ 31
  shm_le : vringShm + sizeofVhostVring ≤ 2 ^ 64

/-- What a client meets: the other side during each of the requests, for each ring, what is
opened, and what was in the memory of its local variables. -/
structure Surroundings where
  socket : Bool
  connect : Bool
  peer : VhostUserRequest → Nat → Peer
  opens : Nat → Int
  features : Bytes
  memory : Bytes

/-- The functions of the client; a fault leaves what has been sent. -/
abbrev ClientM := ExceptT Fault (StateM Conn)

variable (s : Surroundings) (huges : Hugepages)

/-- `vhost_ioctl` with what it sends. -/
def ioctl (request : VhostUserRequest) (idx : Nat) (arg : Bytes) : ClientM (Int × Bytes) := fun c =>
  let fds := getMemoryFds huges s.opens vhostMemoryMaxNregions
  let p := s.peer request idx
  (vhostIoctl p fds.isSome request arg,
    { c with stream := c.stream ++ outgoing p fds request arg })

/-- A request whose `arg` is not looked at again. -/
def tell (request : VhostUserRequest) (idx : Nat) (arg : Bytes) : ClientM Int := do
  let (rc, _) ← ioctl s huges request idx arg
  pure rc

/-- The second is done if the first returns 0. -/
def andThen (a b : ClientM Int) : ClientM Int := do
  if (← a) ≠ 0 then pure (-1) else b

def nullArg : Bytes := fun _ => 0

def setStatus (status : ClientStatus) : ClientM Unit :=
  modify fun c => { c with client := { c.client with status := status } }

/-- The features that the server offers are added to none. -/
def agreeFeatures (features : Bytes) : ClientM Int := do
  modify fun c => { c with
    client := { c.client with features := c.client.features &&& features.loadLe 8 0 } }
  let c ← get
  andThen (tell s huges .setFeatures 0 (nullArg.storeLe 8 0 c.client.features)) (pure 0)

def negotiateFeatures : ClientM Int := do
  let x ← ioctl s huges .getFeatures 0 s.features
  if x.1 ≠ 0 then pure (-1) else agreeFeatures s huges x.2

/-- What `init_vhost_client` does once it is connected. -/
def greet : ClientM Int :=
  andThen (tell s huges .setOwner 0 nullArg) (andThen (negotiateFeatures s huges)
    (andThen (tell s huges .setMemTable 0 (getMemoryInfo huges s.memory)) do
      setStatus .initialized
      pure 0))

def initVhostClient : ClientM Int := do
  let c ← get
  if c.client.status ≠ .created then pure (-1)
  else if s.socket = false then pure (-1)
  else if s.connect = false then pure (-1)
  else do
    set { c with stream := [] }
    greet s huges

def vringState (index num : Nat) : Bytes := (nullArg.storeLe 4 0 index).storeLe 4 4 num

def vringFile (index : Nat) (fd : Int) : Bytes :=
  (nullArg.storeLe 4 0 index).storeLe 4 4 (fd % 2 ^ 32).toNat

def vringAddr (index : Nat) (vring : Vring) : Bytes :=
  (((((nullArg.storeLe 4 0 index).storeLe 4 4 0).storeLe 8 8 vring.vringShm).storeLe 8 16
    (vring.vringShm + usedOffset)).storeLe 8 24 (vring.vringShm + availOffset)).storeLe 8 32 0

def setVhostVring (vring : Vring) (idx : Nat) : ClientM Int :=
  andThen (tell s huges .setVringNum idx (vringState idx vring.num.toNat))
    (andThen (tell s huges .setVringBase idx (vringState idx 0))
      (andThen (tell s huges .setVringKick idx (vringFile idx vring.kickfd))
        (andThen (tell s huges .setVringCall idx (vringFile idx vring.callfd))
          (andThen (tell s huges .setVringAddr idx (vringAddr idx vring)) (pure 0)))))

def endVhostClient : ClientM Unit := do
  let c ← get
  if c.client.status ≠ .initialized then pure ()
  else do
    let _ ← tell s huges .resetOwner 0 nullArg
    setStatus .ended

/-! ## A device and its session -/

/-- The loop of `open_virtio_dev` that pushes the rings to the server. -/
def setVrings : List Vring → Nat → ClientM Int
  | [], _ => pure 0
  | vring :: vrings, i => andThen (setVhostVring s huges vring i) (setVrings vrings (i + 1))

/-- What `open_virtio_dev` does with its client; after an error it ends the session. -/
def openSession (vrings : List Vring) : ClientM Int := do
  if (← andThen (initVhostClient s huges) (setVrings s huges vrings 0)) ≠ 0 then do
    endVhostClient s huges
    pure (-1)
  else pure 0

/-! ## What the server is to be told -/

/-- Descriptor 0 is never passed. -/
def passed (fd : Int) : Option Int := if fd > 0 then some fd else none

def Vring.introduction (vring : Vring) (idx : Nat) : List Directive :=
  [.setVringNum idx vring.num.toNat, .setVringBase idx 0, .setVringKick idx (passed vring.kickfd),
    .setVringCall idx (passed vring.callfd),
    .setVringAddr idx 0 vring.vringShm (vring.vringShm + usedOffset)
      (vring.vringShm + availOffset) 0]

/-- The memory table pairs each region with the descriptor of its file. -/
def greeting (huges : Hugepages) (opens : Nat → Int) : List Directive :=
  [.setOwner, .getFeatures, .setFeatures 0,
    .setMemTable (huges.files.map HugepageFileInfo.region)
      ((List.range huges.files.length).map opens)]

def introductions : List Vring → Nat → List Directive
  | [], _ => []
  | vring :: vrings, i => vring.introduction i ++ introductions vrings (i + 1)

def handshake (huges : Hugepages) (opens : Nat → Int) (vrings : List Vring) : List Directive :=
  greeting huges opens ++ introductions vrings 0

/-- A message is sent as a whole or not at all. -/
def Surroundings.Whole (s : Surroundings) : Prop :=
  ∀ request idx len n, len ≤ sizeofMsg → (s.peer request idx).sends.sendmsg len = some n → n = len

/-! ## One request -/

variable {s huges} {request : VhostUserRequest} {idx : Nat} {arg : Bytes} {c c' : Conn}
  {script script' : List Directive} {a b : ClientM Int} {fds : List Int}

/-- From `c` on the server has been told a beginning of the script, and all of it if the result
is 0. -/
def Told (script : List Directive) (c : Conn) (r : Except Fault Int × Conn) : Prop :=
  ∃ fs : List (List Cell), (∀ f ∈ fs, framing.IsFrame f) ∧
    r.2.stream = c.stream ++ fs.flatten ∧ fs.map decode <+: script ∧
    (r.1 = .ok 0 → fs.map decode = script)

theorem told_same {r : Except Fault Int × Conn} (hstream : r.2.stream = c.stream)
    (hrc : r.1 = .ok 0 → script = []) : Told script c r :=
  ⟨[], fun _ hf => absurd hf List.not_mem_nil, hstream.trans (List.append_nil _).symm,
    List.nil_prefix, fun h => (hrc h).symm⟩

theorem told_nothing (rc : Except Fault Int) (hrc : rc = .ok 0 → script = []) :
    Told script c (rc, c) := told_same rfl hrc

theorem bind_run {α β : Type} (m : ClientM α) (f : α → ClientM β) (c : Conn) :
    (m >>= f) c = match m c with
      | (.ok x, c') => f x c'
      | (.error e, c') => (.error e, c') := by
  have hrun : (m >>= f) c = ExceptT.bindCont f (m c).1 (m c).2 := rfl
  rw [hrun]
  cases m c with
  | mk r c' => cases r <;> rfl

/-- What is done if the first returns 0 goes on with the script. -/
theorem told_bind {α : Type} {m : ClientM α} (rc : α → Int) (f : α → ClientM Int)
    (hm : Told script c ((m c).1.map rc, (m c).2))
    (hf : ∀ x c', m c = (.ok x, c') → rc x = 0 → Told script' c' (f x c')) :
    Told (script ++ script') c ((m >>= fun x => if rc x ≠ 0 then pure (-1) else f x) c) := by
  obtain ⟨fs, hframe, hstream, hbegin, hall⟩ := hm
  rw [bind_run]
  cases hc : m c with
  | mk r c' =>
      rw [hc] at hstream hall
      have hstop : ∀ r' : Except Fault Int, r' ≠ .ok 0 → Told (script ++ script') c (r', c') :=
        fun r' hr' => ⟨fs, hframe, hstream, hbegin.trans (List.prefix_append ..),
          fun h => absurd h hr'⟩
      cases r with
      | error e => exact hstop _ (by simp)
      | ok x =>
          by_cases hrc : rc x = 0
          · obtain ⟨gs, hframe', hstream', hbegin', hall'⟩ := hf x c' hc hrc
            have hwhole : fs.map decode = script := hall (congrArg Except.ok hrc)
            simp only [ne_eq, hrc, not_true_eq_false, if_false]
            refine ⟨fs ++ gs, ?_, ?_, ?_, ?_⟩
            · intro f hf
              rcases List.mem_append.mp hf with hf | hf
              · exact hframe f hf
              · exact hframe' f hf
            · rw [hstream', hstream, List.flatten_append, List.append_assoc]
            · rw [List.map_append, hwhole]
              exact (List.prefix_append_right_inj _).mpr hbegin'
            · intro hok
              rw [List.map_append, hwhole, hall' hok]
          · have hne : (pure (-1) : ClientM Int) c' = (.ok (-1), c') := rfl
            simp only [ne_eq, hrc, not_false_eq_true, if_true]
            rw [hne]
            exact hstop _ (by simp)

theorem told_andThen (ha : Told script c (a c))
    (hb : ∀ c', a c = (.ok 0, c') → Told script' c' (b c')) :
    Told (script ++ script') c (andThen a b c) := by
  have hid : Told script c ((a c).1.map id, (a c).2) := by
    rwa [Except.map_id]
  refine told_bind id (fun _ => b) hid fun x c' hc hx => hb c' ?_
  rw [hc, show x = 0 from hx]

theorem tell_run (request : VhostUserRequest) (idx : Nat) (arg : Bytes) (c : Conn) :
    tell s huges request idx arg c = ((ioctl s huges request idx arg c).1.map Prod.fst,
      (ioctl s huges request idx arg c).2) := by
  unfold tell
  rw [bind_run]
  cases ioctl s huges request idx arg c with
  | mk r c' => cases r <;> rfl

/-- A request tells the server what was asked for, or nothing. -/
theorem told_ioctl (huges : Hugepages) (idx : Nat) (hs : s.Whole) (hfits : FitsTable request arg)
    (c : Conn) :
    Told [request.asks arg (requestFds ((getMemoryFds huges s.opens
      vhostMemoryMaxNregions).getD []) request arg)] c
      ((ioctl s huges request idx arg c).1.map Prod.fst,
        (ioctl s huges request idx arg c).2) := by
  unfold ioctl
  rcases outgoing_cases (getMemoryFds huges s.opens vhostMemoryMaxNregions) (hs request idx) hfits
    with ⟨hnone, hfail⟩ | ⟨f, hsent, hframe, hread⟩
  · simp only [hnone, hfail, List.append_nil]
    exact told_nothing _ (by simp [Except.map])
  · simp only [hsent]
    have hdecode : [f].map decode = [request.asks arg (requestFds ((getMemoryFds huges s.opens
        vhostMemoryMaxNregions).getD []) request arg)] := congrArg (fun d => [d]) hread
    refine ⟨[f], fun g hg => ?_, ?_, hdecode ▸ List.prefix_rfl, fun _ => hdecode⟩
    · rw [List.mem_singleton.mp hg]
      exact hframe
    · rw [List.flatten_singleton]

theorem told_tell (huges : Hugepages) (idx : Nat) (hs : s.Whole) (hfits : FitsTable request arg)
    (c : Conn) :
    Told [request.asks arg (requestFds ((getMemoryFds huges s.opens
      vhostMemoryMaxNregions).getD []) request arg)] c (tell s huges request idx arg c) := by
  rw [tell_run]
  exact told_ioctl huges idx hs hfits c

theorem fits_of_ne (request : VhostUserRequest) (arg : Bytes) (h : request ≠ .setMemTable) :
    FitsTable request arg := fun heq => absurd heq h

/-! ## The sequence of the requests -/

/-- What holds after `a` went wrong, and after `b` if it did not. -/
theorem andThen_rec {P : Except Fault Int × Conn → Prop}
    (hstop : (a c).1 ≠ .ok 0 → ∀ r : Except Fault Int, r ≠ .ok 0 → P (r, (a c).2))
    (hgo : ∀ c', a c = (.ok 0, c') → P (b c')) : P (andThen a b c) := by
  have hrun : andThen a b c = (a >>= fun rc => if rc ≠ 0 then pure (-1) else b) c := rfl
  rw [hrun, bind_run]
  cases hc : a c with
  | mk r c' =>
      rw [hc] at hstop
      cases r with
      | error e => exact hstop (by simp) _ (by simp)
      | ok rc =>
          by_cases hrc : rc = 0
          · subst hrc
            exact hgo c' hc
          · have hne : (pure (-1) : ClientM Int) c' = (.ok (-1), c') := rfl
            simp only [ne_eq, hrc, not_false_eq_true, if_true]
            rw [hne]
            exact hstop (by simp [hrc]) _ (by simp)

theorem tell_client (request : VhostUserRequest) (idx : Nat) (arg : Bytes) (c : Conn) :
    (tell s huges request idx arg c).2.client = c.client := by
  rw [tell_run]
  rfl

theorem told_done (c : Conn) : Told [] c ((pure 0 : ClientM Int) c) :=
  told_nothing _ fun _ => rfl

theorem told_last (ha : Told script c (a c)) : Told script c (andThen a (pure 0) c) := by
  have hdone : ∀ c', a c = (.ok 0, c') → Told [] c' ((pure 0 : ClientM Int) c') :=
    fun c' _ => told_done c'
  have h := told_andThen ha hdone
  rwa [List.append_nil] at h

/-- There are no features to begin with, so none are agreed upon. -/
theorem told_negotiateFeatures (hs : s.Whole) (hc : c.client.features = 0) :
    Told [.getFeatures, .setFeatures 0] c (negotiateFeatures s huges c) := by
  have hget := told_ioctl huges 0 hs (fits_of_ne .getFeatures s.features (by decide)) c
  refine told_bind Prod.fst (fun x => agreeFeatures s huges x.2) hget fun x c' hx hrc => ?_
  have hclient : c'.client = c.client := (congrArg (fun r => r.2.client) hx).symm
  have hset := told_tell huges 0 hs (fits_of_ne .setFeatures
    (nullArg.storeLe 8 0 (c'.client.features &&& x.2.loadLe 8 0)) (by decide))
    { c' with client := { c'.client with features := c'.client.features &&& x.2.loadLe 8 0 } }
  have hasks : VhostUserRequest.setFeatures.asks
      (nullArg.storeLe 8 0 (c'.client.features &&& x.2.loadLe 8 0)) (requestFds ((getMemoryFds huges
        s.opens vhostMemoryMaxNregions).getD []) .setFeatures
          (nullArg.storeLe 8 0 (c'.client.features &&& x.2.loadLe 8 0))) = .setFeatures 0 := by
    rw [hclient, hc, Nat.zero_and]
    exact congrArg Directive.setFeatures (Bytes.loadLe_storeLe 8 nullArg 0 0)
  rw [hasks] at hset
  exact told_last hset

theorem asks_setMemTable (h : getMemoryFds huges s.opens vhostMemoryMaxNregions = some fds) :
    VhostUserRequest.setMemTable.asks (getMemoryInfo huges s.memory) (requestFds ((getMemoryFds huges
      s.opens vhostMemoryMaxNregions).getD []) .setMemTable (getMemoryInfo huges s.memory)) =
      .setMemTable (huges.files.map HugepageFileInfo.region)
        ((List.range huges.files.length).map s.opens) := by
  rw [h]
  show Directive.setMemTable (regionsOf (getMemoryInfo huges s.memory)) fds = _
  rw [regionsOf_getMemoryInfo, getMemoryFds_eq h]

/-- If a file is not opened, nothing is sent. -/
theorem told_setMemTable (hs : s.Whole) (c : Conn) :
    Told [.setMemTable (huges.files.map HugepageFileInfo.region)
      ((List.range huges.files.length).map s.opens)] c
      (tell s huges .setMemTable 0 (getMemoryInfo huges s.memory) c) := by
  cases hfds : getMemoryFds huges s.opens vhostMemoryMaxNregions with
  | none =>
      have hfail : tell s huges .setMemTable 0 (getMemoryInfo huges s.memory) c =
          (.ok (-1), { c with stream := c.stream ++ [] }) := by
        rw [tell_run, ioctl, hfds]
        rfl
      rw [hfail, List.append_nil]
      exact told_nothing _ (by simp)
  | some fds =>
      have hfits : FitsTable .setMemTable (getMemoryInfo huges s.memory) := fun _ => by
        rw [count_getMemoryInfo]
        exact huges.length_le
      have htell := told_tell huges 0 hs hfits c
      rwa [asks_setMemTable hfds] at htell

/-! ### The requests of a ring -/

section Ring

variable {num : Nat} {fd : Int} (fds : List Int)

theorem load_vringState (hindex : idx < 2 ^ 32) (hnum : num < 2 ^ 32) :
    (vringState idx num).loadLe 4 0 = idx ∧ (vringState idx num).loadLe 4 4 = num := by
  constructor
  · rw [vringState, Bytes.loadLe_storeLe_disjoint 4 4 _ (by decide), Bytes.loadLe_storeLe]
    exact Nat.mod_eq_of_lt hindex
  · rw [vringState, Bytes.loadLe_storeLe]
    exact Nat.mod_eq_of_lt hnum

theorem asks_setVringNum (hindex : idx < 2 ^ 32) (hnum : num < 2 ^ 32) :
    VhostUserRequest.setVringNum.asks (vringState idx num)
      (requestFds fds .setVringNum (vringState idx num)) = .setVringNum idx num := by
  obtain ⟨hidx, hnum⟩ := load_vringState hindex hnum
  exact congrArg₂ Directive.setVringNum hidx hnum

theorem asks_setVringBase (hindex : idx < 2 ^ 32) (hnum : num < 2 ^ 32) :
    VhostUserRequest.setVringBase.asks (vringState idx num)
      (requestFds fds .setVringBase (vringState idx num)) = .setVringBase idx num := by
  obtain ⟨hidx, hnum⟩ := load_vringState hindex hnum
  exact congrArg₂ Directive.setVringBase hidx hnum

theorem vringIndex_eq (h : idx < 256) : vringIndex idx = idx := by
  have hmask : vringIndex idx = idx % 2 ^ 8 := Nat.and_two_pow_sub_one_eq_mod idx 8
  rw [hmask]
  exact Nat.mod_eq_of_lt h

/-- The index of a ring is not taken for the mark that there is no descriptor. -/
theorem vringFd_eq (h : idx < 256) (fds : List Int) : vringFd idx fds = fds.head? := by
  have hmask : idx &&& vhostUserVringNofdMask = 0 := by
    have hbit : idx &&& 2 ^ 8 = (idx.testBit 8).toNat * 2 ^ 8 := Nat.and_two_pow idx 8
    rw [Nat.testBit_lt_two_pow h, Bool.toNat_false, Nat.zero_mul] at hbit
    exact hbit
  exact if_pos hmask

theorem read_vringFile (hidx : idx < 256) (hfd : 0 ≤ fd ∧ fd < 2 ^ 31) :
    vringIndex ((vringFile idx fd).loadLe 4 0) = idx ∧
      vringFd ((vringFile idx fd).loadLe 4 0)
        (if toInt ((vringFile idx fd).loadLe 4 4) > 0 then
          [toInt ((vringFile idx fd).loadLe 4 4)] else []) = passed fd := by
  have hindex : (vringFile idx fd).loadLe 4 0 = idx := by
    rw [vringFile, Bytes.loadLe_storeLe_disjoint 4 4 _ (by decide), Bytes.loadLe_storeLe]
    exact Nat.mod_eq_of_lt (by omega)
  have hload : (vringFile idx fd).loadLe 4 4 = fd.toNat := by
    have hmod : fd % 2 ^ 32 = fd := Int.emod_eq_of_lt hfd.1 (by omega)
    rw [vringFile, Bytes.loadLe_storeLe, hmod]
    exact Nat.mod_eq_of_lt (by omega)
  have hint : toInt ((vringFile idx fd).loadLe 4 4) = fd := by
    rw [hload, Int.toNat_of_nonneg hfd.1]
    exact toInt_eq (by omega) hfd.2
  rw [hindex, hint, vringIndex_eq hidx, vringFd_eq hidx, passed]
  exact ⟨rfl, by split <;> rfl⟩

theorem asks_setVringKick (hidx : idx < 256) (hfd : 0 ≤ fd ∧ fd < 2 ^ 31) :
    VhostUserRequest.setVringKick.asks (vringFile idx fd)
      (requestFds fds .setVringKick (vringFile idx fd)) = .setVringKick idx (passed fd) := by
  obtain ⟨hindex, hpassed⟩ := read_vringFile hidx hfd
  rw [VhostUserRequest.asks, hindex]
  exact congrArg (Directive.setVringKick idx) hpassed

theorem asks_setVringCall (hidx : idx < 256) (hfd : 0 ≤ fd ∧ fd < 2 ^ 31) :
    VhostUserRequest.setVringCall.asks (vringFile idx fd)
      (requestFds fds .setVringCall (vringFile idx fd)) = .setVringCall idx (passed fd) := by
  obtain ⟨hindex, hpassed⟩ := read_vringFile hidx hfd
  rw [VhostUserRequest.asks, hindex]
  exact congrArg (Directive.setVringCall idx) hpassed

theorem asks_setVringAddr (vring : Vring) (hindex : idx < 2 ^ 32) :
    VhostUserRequest.setVringAddr.asks (vringAddr idx vring)
      (requestFds fds .setVringAddr (vringAddr idx vring)) =
      .setVringAddr idx 0 vring.vringShm (vring.vringShm + usedOffset)
        (vring.vringShm + availOffset) 0 := by
  have hshm := vring.shm_le
  have hused : usedOffset < sizeofVhostVring := by decide
  have havail : availOffset < sizeofVhostVring := by decide
  have hother : ∀ (m : Bytes) (k pos n pos' v : Nat), pos' + k ≤ pos ∨ pos + n ≤ pos' →
      (m.storeLe n pos v).loadLe k pos' = m.loadLe k pos' := fun m k _ n _ _ h =>
    Bytes.loadLe_storeLe_disjoint n k m h
  have hidx : (vringAddr idx vring).loadLe 4 0 = idx := by
    rw [vringAddr, hother _ _ _ _ _ _ (by decide), hother _ _ _ _ _ _ (by decide),
      hother _ _ _ _ _ _ (by decide), hother _ _ _ _ _ _ (by decide),
      hother _ _ _ _ _ _ (by decide), Bytes.loadLe_storeLe]
    exact Nat.mod_eq_of_lt hindex
  have hflags : (vringAddr idx vring).loadLe 4 4 = 0 := by
    rw [vringAddr, hother _ _ _ _ _ _ (by decide), hother _ _ _ _ _ _ (by decide),
      hother _ _ _ _ _ _ (by decide), hother _ _ _ _ _ _ (by decide), Bytes.loadLe_storeLe]
    rfl
  have hdesc : (vringAddr idx vring).loadLe 8 8 = vring.vringShm := by
    rw [vringAddr, hother _ _ _ _ _ _ (by decide), hother _ _ _ _ _ _ (by decide),
      hother _ _ _ _ _ _ (by decide), Bytes.loadLe_storeLe]
    exact Nat.mod_eq_of_lt (by omega)
  have husedAddr : (vringAddr idx vring).loadLe 8 16 = vring.vringShm + usedOffset := by
    rw [vringAddr, hother _ _ _ _ _ _ (by decide), hother _ _ _ _ _ _ (by decide),
      Bytes.loadLe_storeLe]
    exact Nat.mod_eq_of_lt (by omega)
  have havailAddr : (vringAddr idx vring).loadLe 8 24 = vring.vringShm + availOffset := by
    rw [vringAddr, hother _ _ _ _ _ _ (by decide), Bytes.loadLe_storeLe]
    exact Nat.mod_eq_of_lt (by omega)
  have hlog : (vringAddr idx vring).loadLe 8 32 = 0 := by
    rw [vringAddr, Bytes.loadLe_storeLe]
    rfl
  have hread : VhostUserRequest.setVringAddr.asks (vringAddr idx vring)
      (requestFds fds .setVringAddr (vringAddr idx vring)) =
      VhostUserRequest.setVringAddr.directive (vringAddr idx vring) [] := rfl
  rw [hread, VhostUserRequest.directive, hidx, hflags, hdesc, husedAddr, havailAddr, hlog]

end Ring

theorem told_request {d : Directive} (hs : s.Whole) (hne : request ≠ .setMemTable)
    (hasks : ∀ fds, request.asks arg (requestFds fds request arg) = d) (c : Conn) :
    Told [d] c (tell s huges request idx arg c) := by
  have htell := told_tell huges idx hs (fits_of_ne request arg hne) c
  rwa [hasks] at htell

theorem told_setVhostVring (hs : s.Whole) (vring : Vring) (hidx : idx < 256) (c : Conn) :
    Told (vring.introduction idx) c (setVhostVring s huges vring idx c) := by
  have hindex : idx < 2 ^ 32 := by omega
  have hnum : vring.num.toNat < 2 ^ 32 := Nat.lt_trans vring.num.toNat_lt (by decide)
  exact told_andThen (told_request hs (by decide) (asks_setVringNum · hindex hnum) c) fun c _ =>
    told_andThen (told_request hs (by decide) (asks_setVringBase · hindex (by decide)) c) fun c _ =>
      told_andThen (told_request hs (by decide) (asks_setVringKick · hidx vring.kickfd_range) c)
        fun c _ =>
          told_andThen (told_request hs (by decide)
            (asks_setVringCall · hidx vring.callfd_range) c) fun c _ =>
              told_last (told_request hs (by decide) (asks_setVringAddr · vring hindex) c)

/-! ## The session -/

theorem tell_status (s : Surroundings) (huges : Hugepages) (request : VhostUserRequest) (idx : Nat)
    (arg : Bytes) (c : Conn) :
    (tell s huges request idx arg c).2.client.status = c.client.status :=
  congrArg VhostClient.status (tell_client ..)

theorem agreeFeatures_status (features : Bytes) (c : Conn) :
    (agreeFeatures s huges features c).2.client.status = c.client.status := by
  obtain ⟨⟨status, own⟩, stream⟩ := c
  have hrun : agreeFeatures s huges features ⟨⟨status, own⟩, stream⟩ =
      andThen (tell s huges .setFeatures 0 (nullArg.storeLe 8 0 (own &&& features.loadLe 8 0)))
        (pure 0) ⟨⟨status, own &&& features.loadLe 8 0⟩, stream⟩ := rfl
  have htell := tell_status s huges .setFeatures 0
    (nullArg.storeLe 8 0 (own &&& features.loadLe 8 0)) ⟨⟨status, own &&& features.loadLe 8 0⟩, stream⟩
  rw [hrun]
  refine andThen_rec (P := fun r => r.2.client.status = status) (fun _ _ _ => htell) fun c₁ h₁ => ?_
  rw [h₁] at htell
  exact htell

theorem negotiateFeatures_status (s : Surroundings) (huges : Hugepages) (c : Conn) :
    (negotiateFeatures s huges c).2.client.status = c.client.status := by
  unfold negotiateFeatures
  rw [bind_run]
  have hclient : (ioctl s huges .getFeatures 0 s.features c).2.client = c.client := rfl
  cases hget : ioctl s huges .getFeatures 0 s.features c with
  | mk r c' =>
      rw [hget] at hclient
      have hstatus : c'.client.status = c.client.status := congrArg VhostClient.status hclient
      cases r with
      | error e => exact hstatus
      | ok x =>
          by_cases hx : x.1 = 0
          · simp only [ne_eq, hx, not_true_eq_false, if_false]
            exact (agreeFeatures_status x.2 c').trans hstatus
          · simp only [ne_eq, hx, not_false_eq_true, if_true]
            exact hstatus

theorem initVhostClient_run (s : Surroundings) (huges : Hugepages) :
    initVhostClient s huges newVhostClient = (.ok (-1), newVhostClient) ∨
      initVhostClient s huges newVhostClient = greet s huges newVhostClient := by
  cases hsocket : s.socket <;> cases hconnect : s.connect <;>
    simp only [initVhostClient, hsocket, hconnect]
  · exact Or.inl rfl
  · exact Or.inl rfl
  · exact Or.inl rfl
  · exact Or.inr rfl

theorem initVhostClient_status (s : Surroundings) (huges : Hugepages)
    (h : (initVhostClient s huges newVhostClient).1 ≠ .ok 0) :
    (initVhostClient s huges newVhostClient).2.client.status = .created := by
  have howner := tell_status s huges .setOwner 0 nullArg newVhostClient
  rcases initVhostClient_run s huges with hrun | hrun <;> rw [hrun] at h ⊢
  · rfl
  revert h
  refine andThen_rec (P := fun r => r.1 ≠ .ok 0 → r.2.client.status = .created)
    (fun _ _ _ _ => howner) fun c₁ h₁ => ?_
  rw [h₁] at howner
  have hnegotiate := negotiateFeatures_status s huges c₁
  refine andThen_rec (P := fun r => r.1 ≠ .ok 0 → r.2.client.status = .created)
    (fun _ _ _ _ => hnegotiate.trans howner) fun c₂ h₂ => ?_
  rw [h₂] at hnegotiate
  have htable := tell_status s huges .setMemTable 0
    (getMemoryInfo huges s.memory) c₂
  exact andThen_rec (P := fun r => r.1 ≠ .ok 0 → r.2.client.status = .created)
    (fun _ _ _ _ => htable.trans (hnegotiate.trans howner)) fun _ _ h => absurd rfl h

theorem told_initVhostClient (huges : Hugepages) (hs : s.Whole) :
    Told (greeting huges s.opens) newVhostClient (initVhostClient s huges newVhostClient) := by
  rcases initVhostClient_run s huges with hrun | hrun <;> rw [hrun]
  · exact told_nothing _ (by simp)
  have howner : Told [.setOwner] newVhostClient (tell s huges .setOwner 0 nullArg newVhostClient) :=
    told_request hs (by decide) (fun _ => rfl) _
  refine told_andThen howner fun c howner => ?_
  have hclient : c.client.features = 0 :=
    (congrArg (fun r => r.2.client.features) howner).symm.trans
      (congrArg VhostClient.features (tell_client ..))
  refine told_andThen (told_negotiateFeatures hs hclient) fun c _ => ?_
  rw [← List.append_nil [_]]
  exact told_andThen (told_setMemTable hs c) fun c _ => told_same rfl fun _ => rfl

theorem told_setVrings (huges : Hugepages) (hs : s.Whole) (vrings : List Vring) {i : Nat}
    (hi : i + vrings.length ≤ 256) (c : Conn) :
    Told (introductions vrings i) c (setVrings s huges vrings i c) := by
  induction vrings generalizing i c with
  | nil => exact told_done c
  | cons vring vrings ih =>
      have hlen : i + 1 + vrings.length ≤ 256 := by
        rw [List.length_cons] at hi
        omega
      exact told_andThen (told_setVhostVring hs vring (by omega) c) fun c _ => ih hlen c

theorem endVhostClient_stream (c : Conn) : (endVhostClient s huges c).2.stream =
    if c.client.status = .initialized then (tell s huges .resetOwner 0 nullArg c).2.stream
    else c.stream := by
  unfold endVhostClient
  rw [bind_run]
  by_cases hstatus : c.client.status = .initialized
  · rw [if_pos hstatus]
    show ((if c.client.status ≠ .initialized then pure () else (do
      let _ ← tell s huges .resetOwner 0 nullArg
      setStatus .ended) : ClientM Unit) c).2.stream = _
    rw [if_neg (not_not_intro hstatus), bind_run]
    cases tell s huges .resetOwner 0 nullArg c with
    | mk r c' => cases r <;> rfl
  · rw [if_neg hstatus]
    show ((if c.client.status ≠ .initialized then pure () else (do
      let _ ← tell s huges .resetOwner 0 nullArg
      setStatus .ended) : ClientM Unit) c).2.stream = _
    rw [if_pos hstatus]
    rfl

/-- At its end the session is taken back, if it was open. -/
theorem endVhostClient_told (huges : Hugepages) (hs : s.Whole) (c : Conn) : ∃ fs : List (List Cell),
    (∀ f ∈ fs, framing.IsFrame f) ∧ (endVhostClient s huges c).2.stream = c.stream ++ fs.flatten ∧
      (fs = [] ∨ c.client.status = .initialized ∧ fs.map decode = [.resetOwner]) := by
  rw [endVhostClient_stream]
  by_cases hstatus : c.client.status = .initialized
  · rw [if_pos hstatus]
    have htold : Told [.resetOwner] c (tell s huges .resetOwner 0 nullArg c) :=
      told_request hs (by decide) (fun _ => rfl) c
    obtain ⟨fs, hframe, hstream, hbegin, -⟩ := htold
    refine ⟨fs, hframe, hstream, ?_⟩
    cases fs with
    | nil => exact Or.inl rfl
    | cons f fs =>
        have hlen := hbegin.length_le
        refine Or.inr ⟨hstatus, hbegin.eq_of_length ?_⟩
        rw [List.length_map, List.length_cons, List.length_singleton] at hlen ⊢
        omega
  · rw [if_neg hstatus]
    exact ⟨[], fun _ hf => absurd hf List.not_mem_nil, (List.append_nil _).symm, Or.inl rfl⟩

/-- What has been told when `open_virtio_dev` is done with its client. -/
structure Opened (s : Surroundings) (huges : Hugepages) (vrings : List Vring)
    (r : Except Fault Int × Conn) (fs : List (List Cell)) : Prop where
  frames : ∀ f ∈ fs, framing.IsFrame f
  stream : r.2.stream = fs.flatten
  told : fs.map decode <+: handshake huges s.opens vrings ∧
      (r.1 = .ok 0 → fs.map decode = handshake huges s.opens vrings) ∨
    r.1 ≠ .ok 0 ∧ ∃ k, (greeting huges s.opens).length ≤ k ∧
      fs.map decode = (handshake huges s.opens vrings).take k ++ [.resetOwner]

def orEnd (s : Surroundings) (huges : Hugepages) (r : Except Fault Int × Conn) :
    Except Fault Int × Conn :=
  match r with
  | (.ok rc, c) =>
      if rc ≠ 0 then (endVhostClient s huges >>= fun _ => pure (-1) : ClientM Int) c
      else (.ok 0, c)
  | (.error e, c) => (.error e, c)

theorem openSession_run (vrings : List Vring) (c : Conn) : openSession s huges vrings c =
    orEnd s huges (andThen (initVhostClient s huges) (setVrings s huges vrings 0) c) := by
  unfold openSession orEnd
  rw [bind_run]
  cases andThen (initVhostClient s huges) (setVrings s huges vrings 0) c with
  | mk r c' =>
      cases r with
      | error e => rfl
      | ok rc =>
          by_cases hrc : rc = 0
          · simp only [hrc, ne_eq, not_true_eq_false, if_false]
            rfl
          · simp only [hrc, ne_eq, not_false_eq_true, if_true]

theorem endSession_run (s : Surroundings) (huges : Hugepages) (c : Conn) :
    ((endVhostClient s huges >>= fun _ => pure (-1) : ClientM Int) c).1 ≠ .ok 0 ∧
      ((endVhostClient s huges >>= fun _ => pure (-1) : ClientM Int) c).2 =
        (endVhostClient s huges c).2 := by
  rw [bind_run]
  cases endVhostClient s huges c with
  | mk r c' =>
      cases r with
      | error e => exact ⟨by simp, rfl⟩
      | ok x =>
          have hrun : (pure (-1) : ClientM Int) c' = (.ok (-1), c') := rfl
          simp only [hrun]
          exact ⟨by simp, trivial⟩

theorem orEnd_told (hs : s.Whole) {vrings : List Vring} {r : Except Fault Int × Conn}
    {fs : List (List Cell)} (hframe : ∀ f ∈ fs, framing.IsFrame f) (hstream : r.2.stream = fs.flatten)
    (hbegin : fs.map decode <+: handshake huges s.opens vrings)
    (hall : r.1 = .ok 0 → fs.map decode = handshake huges s.opens vrings)
    (hopen : r.2.client.status = .initialized → (greeting huges s.opens).length ≤ fs.length) :
    ∃ gs, Opened s huges vrings (orEnd s huges r) gs := by
  obtain ⟨rc, c⟩ := r
  cases rc with
  | error e => exact ⟨fs, hframe, hstream, Or.inl ⟨hbegin, hall⟩⟩
  | ok rc =>
      by_cases hrc : rc = 0
      · subst hrc
        exact ⟨fs, hframe, hstream, Or.inl ⟨hbegin, hall⟩⟩
      · have hrun : orEnd s huges (.ok rc, c) =
            (endVhostClient s huges >>= fun _ => pure (-1) : ClientM Int) c := if_pos hrc
        obtain ⟨hne, hconn⟩ := endSession_run s huges c
        obtain ⟨gs, hframe', hstream', hgs⟩ := endVhostClient_told huges hs c
        have hstream : c.stream = fs.flatten := hstream
        rw [hrun]
        refine ⟨fs ++ gs, ?_, ?_, ?_⟩
        · intro f hf
          rcases List.mem_append.mp hf with hf | hf
          · exact hframe f hf
          · exact hframe' f hf
        · rw [hconn, hstream', hstream, List.flatten_append]
        · rcases hgs with rfl | ⟨hstatus, hreset⟩
          · rw [List.append_nil]
            exact Or.inl ⟨hbegin, fun h => absurd h hne⟩
          · refine Or.inr ⟨hne, fs.length, hopen hstatus, ?_⟩
            have htake := List.prefix_iff_eq_take.mp hbegin
            rw [List.length_map] at htake
            rw [List.map_append, hreset, ← htake]

theorem openSession_told (huges : Hugepages) (hs : s.Whole) {vrings : List Vring} (hn : vrings.length ≤ 256) :
    ∃ fs, Opened s huges vrings (openSession s huges vrings newVhostClient) fs := by
  obtain ⟨fs, hframe, hstream, hbegin, hall⟩ := told_initVhostClient huges hs
  have hstatus := initVhostClient_status s huges
  rw [openSession_run]
  cases hinit : initVhostClient s huges newVhostClient with
  | mk r c =>
      rw [hinit] at hstream hall hstatus
      by_cases hr : r = .ok 0
      · subst hr
        have hlen : 0 + vrings.length ≤ 256 := by omega
        obtain ⟨gs, hframe', hstream', hbegin', hall'⟩ := told_setVrings huges hs vrings hlen c
        have hrun : andThen (initVhostClient s huges) (setVrings s huges vrings 0) newVhostClient =
            setVrings s huges vrings 0 c :=
          andThen_rec (P := fun r => r = setVrings s huges vrings 0 c)
            (fun hne => absurd (congrArg Prod.fst hinit) hne) fun c' hc' => by
              rw [hinit] at hc'
              cases hc'
              rfl
        have hgreeting : fs.map decode = greeting huges s.opens := hall rfl
        rw [hrun]
        have hframes : ∀ f ∈ fs ++ gs, framing.IsFrame f := by
          intro f hf
          rcases List.mem_append.mp hf with hf | hf
          · exact hframe f hf
          · exact hframe' f hf
        refine orEnd_told hs hframes ?_ ?_ ?_ ?_
        · rw [hstream', hstream, List.flatten_append]
          rfl
        · rw [List.map_append, hgreeting]
          exact (List.prefix_append_right_inj _).mpr hbegin'
        · intro hok
          rw [List.map_append, hgreeting, hall' hok]
          rfl
        · intro _
          have hlen := congrArg List.length hgreeting
          rw [List.length_map] at hlen
          rw [List.length_append, hlen]
          exact Nat.le_add_right ..
      · refine andThen_rec (P := fun r => ∃ gs, Opened s huges vrings (orEnd s huges r) gs)
          (fun _ r' hr' => ?_) fun c' hc' => ?_
        · rw [hinit]
          refine orEnd_told hs hframe hstream (hbegin.trans (List.prefix_append ..))
            (fun hok => absurd hok hr') fun hinitialized => ?_
          have hcreated : c.client.status = .created := hstatus hr
          rw [hcreated] at hinitialized
          cases hinitialized
        · rw [hinit] at hc'
          exact absurd (congrArg Prod.fst hc') hr

theorem heard_flatten {fs : List (List Cell)} (h : ∀ f ∈ fs, framing.IsFrame f) :
    heard fs.flatten = fs.map decode := by
  rw [heard, Framing.frames_flatten h]

theorem heard_take (n : Nat) (xs : List Cell) : heard (xs.take n) <+: heard xs :=
  (Framing.frames_take_prefix n xs).map decode

/-- What the server has been told is at every moment the beginning of the handshake, in whole
requests, with a request to reset at its end if `open_virtio_dev` fails after the greeting. It is
all of the handshake if `open_virtio_dev` has found no error. -/
theorem server_hears_handshake (s : Surroundings) (huges : Hugepages) (vrings : List Vring)
    (hs : s.Whole) (hn : vrings.length ≤ 256) :
    let r := openSession s huges vrings newVhostClient
    (∀ n, heard (r.2.stream.take n) <+: heard r.2.stream) ∧
      (framing.frames r.2.stream).2 = [] ∧
      (heard r.2.stream <+: handshake huges s.opens vrings ∨
        r.1 ≠ .ok 0 ∧ ∃ k, (greeting huges s.opens).length ≤ k ∧
          heard r.2.stream = (handshake huges s.opens vrings).take k ++ [.resetOwner]) ∧
      (r.1 = .ok 0 → heard r.2.stream = handshake huges s.opens vrings) := by
  intro r
  obtain ⟨fs, hframes, hstream, htold⟩ := openSession_told huges hs hn
  have hheard : heard r.2.stream = fs.map decode := by
    rw [hstream, heard_flatten hframes]
  refine ⟨fun n => heard_take n _, ?_, ?_, ?_⟩
  · rw [hstream, Framing.frames_flatten hframes]
  · rw [hheard]
    exact htold.imp And.left id
  · intro hok
    rw [hheard]
    rcases htold with ⟨-, hall⟩ | ⟨hne, -⟩
    · exact hall hok
    · exact absurd hok hne

/-- A server that offers some features and takes every message. -/
def offering : Surroundings where
  socket := true
  connect := true
  peer request _ :=
    { answering (if request = .getFeatures then featuresHeader 8 ++ [1, 2, 3, 4, 5, 6, 7, 8] else [])
      with sends := .interrupted (.sent sizeofMsg) }
  opens i := 20 + i
  features := fun _ => 7
  memory := fun _ => 9

theorem offering_whole : offering.Whole := by
  intro request idx len n hlen hsent
  have hmin : some (min sizeofMsg len) = some n := hsent
  rw [← Option.some.inj hmin]
  exact Nat.min_eq_right hlen

def twoRegions : Hugepages where
  files := [⟨0x7f0000000000, 0x200000, "/dev/hugepages/pid7map_0".toList⟩,
    ⟨0x7f0000400000, 0x400000, "/dev/hugepages/pid7map_1".toList⟩]
  length_le := by decide

def ringAt (kickfd callfd : Fin 1024) (shm : Fin (2 ^ 48)) : Vring where
  kickfd := kickfd
  callfd := callfd
  vringShm := shm
  num := 1024
  kickfd_range := by omega
  callfd_range := by omega
  shm_le := by
    simp only [sizeofVhostVring]
    omega

def threeRings : List Vring :=
  [ringAt 5 6 0x7f0000000000, ringAt 7 8 0x7f0000008000, ringAt 9 10 0x7f0000010000]

theorem open_offering : (openSession offering twoRegions threeRings newVhostClient).1 = .ok 0 := by
  have hopen : (openSession offering twoRegions threeRings newVhostClient).1.toOption = some 0 := by
    decide +kernel
  cases hrun : (openSession offering twoRegions threeRings newVhostClient).1 with
  | error e =>
      rw [hrun] at hopen
      cases hopen
  | ok rc =>
      rw [hrun] at hopen
      cases hopen
      rfl

theorem server_hears_handshake_three :
    threeRings.length ≤ 256 ∧
      heard (openSession offering twoRegions threeRings newVhostClient).2.stream =
        handshake twoRegions offering.opens threeRings := by
  obtain ⟨-, -, -, hall⟩ :=
    server_hears_handshake offering twoRegions threeRings offering_whole (by decide)
  exact ⟨by decide, hall open_offering⟩

/-! ## The configuration of the server -/

structure VringConfig where
  num : Nat
  base : Nat
  kick : Option Int
  call : Option Int
  /-- the addresses of the descriptors, the used ring and the available ring -/
  addr : Option (Nat × Nat × Nat)
  deriving Repr, DecidableEq

structure ServerConfig where
  owned : Bool
  features : Nat
  /-- the regions with the descriptors that they are mapped from -/
  regions : List (MemoryRegion × Int)
  vrings : Nat → VringConfig

def VringConfig.unset : VringConfig := ⟨0, 0, none, none, none⟩

def ServerConfig.unset : ServerConfig := ⟨false, 0, [], fun _ => .unset⟩

def ServerConfig.setVring (config : ServerConfig) (index : Nat) (f : VringConfig → VringConfig) :
    ServerConfig :=
  { config with vrings := Function.update config.vrings index (f (config.vrings index)) }

def ServerConfig.apply (config : ServerConfig) : Directive → ServerConfig
  | .setOwner => { config with owned := true }
  | .resetOwner => .unset
  | .setFeatures features => { config with features := features }
  | .setMemTable regions fds => { config with regions := regions.zip fds }
  | .setVringNum index num => config.setVring index fun v => { v with num := num }
  | .setVringBase index base => config.setVring index fun v => { v with base := base }
  | .setVringKick index fd => config.setVring index fun v => { v with kick := fd }
  | .setVringCall index fd => config.setVring index fun v => { v with call := fd }
  | .setVringAddr index _ desc used avail _ =>
      config.setVring index fun v => { v with addr := some (desc, used, avail) }
  | _ => config

def configOf (told : List Directive) : ServerConfig := told.foldl ServerConfig.apply .unset

def Vring.config (vring : Vring) : VringConfig :=
  ⟨vring.num.toNat, 0, passed vring.kickfd, passed vring.callfd,
    some (vring.vringShm, vring.vringShm + usedOffset, vring.vringShm + availOffset)⟩

def deviceConfig (huges : Hugepages) (opens : Nat → Int) (vrings : List Vring) : ServerConfig where
  owned := true
  features := 0
  regions := (huges.files.map HugepageFileInfo.region).zip
    ((List.range huges.files.length).map opens)
  vrings i := (vrings[i]?.map Vring.config).getD .unset

theorem apply_introduction (config : ServerConfig) (vring : Vring) (i : Nat) :
    (vring.introduction i).foldl ServerConfig.apply config =
      { config with vrings := Function.update config.vrings i vring.config } := by
  simp [Vring.introduction, ServerConfig.apply, ServerConfig.setVring, Vring.config]

theorem apply_introductions (config : ServerConfig) (vrings : List Vring) (i : Nat) :
    (introductions vrings i).foldl ServerConfig.apply config =
      { config with vrings := fun j => if i ≤ j then
          (vrings[j - i]?.map Vring.config).getD (config.vrings j) else config.vrings j } := by
  induction vrings generalizing config i with
  | nil =>
      have hsame : (fun j => if i ≤ j then (([] : List Vring)[j - i]?.map Vring.config).getD
          (config.vrings j) else config.vrings j) = config.vrings := by
        funext j
        split <;> rfl
      rw [hsame]
      rfl
  | cons vring vrings ih =>
      rw [introductions, List.foldl_append, apply_introduction, ih]
      have hvrings : (fun j => if i + 1 ≤ j then (vrings[j - (i + 1)]?.map Vring.config).getD
            (Function.update config.vrings i vring.config j)
          else Function.update config.vrings i vring.config j) =
          fun j => if i ≤ j then ((vring :: vrings)[j - i]?.map Vring.config).getD
            (config.vrings j) else config.vrings j := by
        funext j
        rcases Nat.lt_trichotomy j i with hlt | rfl | hgt
        · rw [if_neg (by omega), if_neg (by omega), Function.update_of_ne (by omega)]
        · rw [if_neg (by omega), if_pos (Nat.le_refl _), Nat.sub_self, Function.update_self]
          rfl
        · rw [if_pos (Nat.succ_le_of_lt hgt), if_pos (by omega), Function.update_of_ne (by omega),
            show j - i = j - (i + 1) + 1 by omega, List.getElem?_cons_succ]
      exact congrArg (fun v => { config with vrings := v }) hvrings

theorem configOf_handshake (huges : Hugepages) (opens : Nat → Int) (vrings : List Vring) :
    configOf (handshake huges opens vrings) = deviceConfig huges opens vrings := by
  rw [configOf, handshake, List.foldl_append, apply_introductions]
  rfl

/-- What is set of a ring is as in `v`. -/
structure VringConfig.Within (u v : VringConfig) : Prop where
  num : u.num = 0 ∨ u.num = v.num
  base : u.base = v.base
  kick : u.kick = none ∨ u.kick = v.kick
  call : u.call = none ∨ u.call = v.call
  addr : u.addr = none ∨ u.addr = v.addr

/-- What is set of a configuration is as in `device`. -/
structure ServerConfig.Within (config device : ServerConfig) : Prop where
  features : config.features = device.features
  regions : config.regions = [] ∨ config.regions = device.regions
  vrings : ∀ i, (config.vrings i).Within (device.vrings i)

def Fits (device : ServerConfig) (d : Directive) : Prop :=
  ∀ config : ServerConfig, config.Within device → (config.apply d).Within device

theorem within_setVring {config device : ServerConfig} {index : Nat}
    {f : VringConfig → VringConfig} (h : config.Within device)
    (hf : (f (config.vrings index)).Within (device.vrings index)) :
    (config.setVring index f).Within device := by
  refine ⟨h.features, h.regions, fun i => ?_⟩
  show (Function.update config.vrings index (f (config.vrings index)) i).Within _
  by_cases hi : i = index
  · subst hi
    rw [Function.update_self]
    exact hf
  · rw [Function.update_of_ne hi]
    exact h.vrings i

theorem fits_introduction {device : ServerConfig} {vring : Vring} {d : Directive}
    (hd : d ∈ vring.introduction idx) (hdevice : device.vrings idx = vring.config) :
    Fits device d := by
  intro config h
  have hring := h.vrings idx
  simp only [Vring.introduction, List.mem_cons, List.not_mem_nil, or_false] at hd
  rcases hd with rfl | rfl | rfl | rfl | rfl
  · exact within_setVring (f := fun v => { v with num := vring.num.toNat }) h
      { hring with num := Or.inr (congrArg VringConfig.num hdevice).symm }
  · exact within_setVring (f := fun v => { v with base := 0 }) h
      { hring with base := (congrArg VringConfig.base hdevice).symm }
  · exact within_setVring (f := fun v => { v with kick := passed vring.kickfd }) h
      { hring with kick := Or.inr (congrArg VringConfig.kick hdevice).symm }
  · exact within_setVring (f := fun v => { v with call := passed vring.callfd }) h
      { hring with call := Or.inr (congrArg VringConfig.call hdevice).symm }
  · exact within_setVring (f := fun v => { v with addr := vring.config.addr }) h
      { hring with addr := Or.inr (congrArg VringConfig.addr hdevice).symm }

theorem mem_introductions {vrings : List Vring} {i : Nat} {d : Directive}
    (h : d ∈ introductions vrings i) :
    ∃ (j : Nat) (vring : Vring), vrings[j]? = some vring ∧ d ∈ vring.introduction (i + j) := by
  induction vrings generalizing i with
  | nil => exact absurd h List.not_mem_nil
  | cons vring vrings ih =>
      rcases List.mem_append.mp h with hd | hd
      · exact ⟨0, vring, rfl, hd⟩
      · obtain ⟨j, vring', hj, hd'⟩ := ih hd
        refine ⟨j + 1, vring', hj, ?_⟩
        rwa [show i + (j + 1) = i + 1 + j by omega]

variable {opens : Nat → Int} {vrings : List Vring}

theorem unset_within : ServerConfig.unset.Within (deviceConfig huges opens vrings) := by
  refine ⟨rfl, Or.inl rfl, fun i => ⟨Or.inl rfl, ?_, Or.inl rfl, Or.inl rfl, Or.inl rfl⟩⟩
  show 0 = ((vrings[i]?.map Vring.config).getD .unset).base
  cases vrings[i]? <;> rfl

theorem fits_handshake {d : Directive}
    (hd : d ∈ handshake huges opens vrings ∨ d = .resetOwner) :
    Fits (deviceConfig huges opens vrings) d := by
  rcases hd with hd | rfl
  · rcases List.mem_append.mp hd with hd | hd
    · simp only [greeting, List.mem_cons, List.not_mem_nil, or_false] at hd
      rcases hd with rfl | rfl | rfl | rfl
      · exact fun config h => ⟨h.features, h.regions, h.vrings⟩
      · exact fun config h => h
      · exact fun config h => ⟨rfl, h.regions, h.vrings⟩
      · exact fun config h => ⟨h.features, Or.inr rfl, h.vrings⟩
    · obtain ⟨j, vring, hj, hd⟩ := mem_introductions hd
      rw [Nat.zero_add] at hd
      refine fits_introduction hd ?_
      show (vrings[j]?.map Vring.config).getD .unset = vring.config
      rw [hj]
      rfl
  · exact fun _ _ => unset_within

/-- Whatever has been told of the handshake, the server keeps nothing that is not the device's. -/
theorem configOf_within {told : List Directive}
    (h : ∀ d ∈ told, d ∈ handshake huges opens vrings ∨ d = .resetOwner) :
    (configOf told).Within (deviceConfig huges opens vrings) := by
  have hfold : ∀ config : ServerConfig, config.Within (deviceConfig huges opens vrings) →
      (told.foldl ServerConfig.apply config).Within (deviceConfig huges opens vrings) := by
    induction told with
    | nil => exact fun _ hconfig => hconfig
    | cons d told ih =>
        intro config hconfig
        exact ih (fun d' hd' => h d' (List.mem_cons_of_mem _ hd')) _
          (fits_handshake (h d (List.mem_cons_self ..)) config hconfig)
  exact hfold _ unset_within

/-- At no moment does the server keep a ring, a region or a descriptor that is not the one of the
device, and when the session is open it has them all. -/
theorem server_configured (s : Surroundings) (huges : Hugepages) (vrings : List Vring)
    (hs : s.Whole) (hn : vrings.length ≤ 256) :
    let r := openSession s huges vrings newVhostClient
    (∀ n, (configOf (heard (r.2.stream.take n))).Within (deviceConfig huges s.opens vrings)) ∧
      (r.1 = .ok 0 → configOf (heard r.2.stream) = deviceConfig huges s.opens vrings) := by
  intro r
  obtain ⟨fs, hframes, hstream, htold⟩ := openSession_told huges hs hn
  have hheard : heard r.2.stream = fs.map decode := by
    rw [hstream, heard_flatten hframes]
  refine ⟨fun n => configOf_within fun d hd => ?_, fun hok => ?_⟩
  · have hmem : d ∈ fs.map decode := hheard ▸ (heard_take n _).subset hd
    rcases htold with ⟨hbegin, -⟩ | ⟨-, k, -, htake⟩
    · exact Or.inl (hbegin.subset hmem)
    · rw [htake] at hmem
      rcases List.mem_append.mp hmem with hmem | hmem
      · exact Or.inl (List.mem_of_mem_take hmem)
      · exact Or.inr (List.mem_singleton.mp hmem)
  · rcases htold with ⟨-, hall⟩ | ⟨hne, -⟩
    · rw [hheard, hall hok, configOf_handshake]
    · exact absurd hok hne

theorem server_configured_three :
    threeRings.length ≤ 256 ∧
      ((configOf (heard (openSession offering twoRegions threeRings newVhostClient).2.stream)).vrings
        2).kick = some 9 := by
  obtain ⟨-, hall⟩ := server_configured offering twoRegions threeRings offering_whole (by decide)
  rw [hall open_offering]
  exact ⟨by decide, by decide⟩

end VhostUser.Client
