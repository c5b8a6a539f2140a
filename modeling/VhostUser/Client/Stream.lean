import VhostUser.Client.Ioctl
import VhostUser.Lib.Framing
import VhostUser.Shm.Memory

/-! # What goes over the socket

The stream from the client to the server is a stream of bytes, and the descriptors of a
request come with its first byte. The server cuts the stream into frames by the size that
each header states and reads a frame by the request that the header names. What it reads is
what `vhost_ioctl` was asked for.
-/

namespace VhostUser.Client

open VhostUser.Lib Shm

/-! ## The stream -/

/-- A byte of the stream, and the descriptors that come with it. -/
structure Cell where
  byte : UInt8
  fds : List Int
  deriving Repr, DecidableEq

def packet (fds : List Int) : List UInt8 → List Cell
  | [] => []
  | b :: bs => ⟨b, fds⟩ :: bs.map fun b => ⟨b, []⟩

def VhostUserMsg.wire (msg : VhostUserMsg) (n : Nat) : List UInt8 := (List.range n).map msg

def VhostUserMsg.length (msg : VhostUserMsg) : Nat := vhostUserHdrSize + msg.size

def frame (msg : VhostUserMsg) (fds : List Int) : List Cell := packet fds (msg.wire msg.length)

def Peer.sent (p : Peer) (msg : VhostUserMsg) (fds : List Int) : List Cell :=
  match p.sends.sendmsg msg.length with
  | none => []
  | some n => packet fds (msg.wire n)

/-- The descriptors that `vhost_ioctl` passes; `memoryFds` are those of the memory regions. -/
def requestFds (memoryFds : List Int) (request : VhostUserRequest) (arg : Bytes) : List Int :=
  let file : List Int :=
    if toInt (arg.loadLe 4 4) > 0 then [toInt (arg.loadLe 4 4)] else []
  match request with
  | .setMemTable => memoryFds
  | .setLogFd => [toInt (arg.loadLe 4 0)]
  | .setVringKick => file
  | .setVringCall => file
  | .setVringErr => file
  | _ => []

/-- What `vhost_ioctl` puts on the stream; `memoryFds` are what `get_memory_fds` opens. -/
def outgoing (p : Peer) (memoryFds : Option (List Int)) (request : VhostUserRequest)
    (arg : Bytes) : List Cell :=
  match requestMsg memoryFds.isSome request arg with
  | none => []
  | some msg => p.sent msg (requestFds (memoryFds.getD []) request arg)

/-! ## The server's side -/

def bytesOf (f : List Cell) : VhostUserMsg := fun k => (f.map Cell.byte).getD k 0

def fdsOf (f : List Cell) : List Int := f.flatMap Cell.fds

/-- The size in the header is that of the payload. -/
def framing : Framing Cell where
  header := vhostUserHdrSize
  header_pos := by decide
  body f := (bytesOf f).size

/-- What a request tells the server. -/
inductive Directive where
  | none
  | getFeatures
  | setFeatures (features : Nat)
  | setOwner
  | resetOwner
  | setMemTable (regions : List MemoryRegion) (fds : List Int)
  | setLogBase (base : Nat)
  | setLogFd (fd : Option Int)
  | setVringNum (index num : Nat)
  | setVringAddr (index flags descUserAddr usedUserAddr availUserAddr logGuestAddr : Nat)
  | setVringBase (index num : Nat)
  | getVringBase
  | setVringKick (index : Nat) (fd : Option Int)
  | setVringCall (index : Nat) (fd : Option Int)
  | setVringErr (index : Nat) (fd : Option Int)
  | unknown
  deriving Repr, DecidableEq

def requestOf : Nat → VhostUserRequest
  | 0 => .none
  | 1 => .getFeatures
  | 2 => .setFeatures
  | 3 => .setOwner
  | 4 => .resetOwner
  | 5 => .setMemTable
  | 6 => .setLogBase
  | 7 => .setLogFd
  | 8 => .setVringNum
  | 9 => .setVringAddr
  | 10 => .setVringBase
  | 11 => .getVringBase
  | 12 => .setVringKick
  | 13 => .setVringCall
  | 14 => .setVringErr
  | _ => .max

def vhostUserVringIdxMask : Nat := 0xff

def vhostUserVringNofdMask : Nat := 0x100

/-- The index of a ring in the payload of a request for one of its descriptors. -/
def vringIndex (u64 : Nat) : Nat := u64 &&& vhostUserVringIdxMask

/-- The descriptor of such a request, unless the payload says that there is none. -/
def vringFd (u64 : Nat) (fds : List Int) : Option Int :=
  if u64 &&& vhostUserVringNofdMask = 0 then fds.head? else none

/-- A request with its payload and its descriptors. -/
def VhostUserRequest.directive (request : VhostUserRequest) (payload : Bytes) (fds : List Int) :
    Directive :=
  match request with
  | .none => .none
  | .getFeatures => .getFeatures
  | .setFeatures => .setFeatures (payload.loadLe 8 0)
  | .setOwner => .setOwner
  | .resetOwner => .resetOwner
  | .setMemTable => .setMemTable (regionsOf payload) fds
  | .setLogBase => .setLogBase (payload.loadLe 8 0)
  | .setLogFd => .setLogFd fds.head?
  | .setVringNum => .setVringNum (payload.loadLe 4 0) (payload.loadLe 4 4)
  | .setVringAddr =>
      .setVringAddr (payload.loadLe 4 0) (payload.loadLe 4 4) (payload.loadLe 8 8)
        (payload.loadLe 8 16) (payload.loadLe 8 24) (payload.loadLe 8 32)
  | .setVringBase => .setVringBase (payload.loadLe 4 0) (payload.loadLe 4 4)
  | .getVringBase => .getVringBase
  | .setVringKick =>
      .setVringKick (vringIndex (payload.loadLe 8 0)) (vringFd (payload.loadLe 8 0) fds)
  | .setVringCall =>
      .setVringCall (vringIndex (payload.loadLe 8 0)) (vringFd (payload.loadLe 8 0) fds)
  | .setVringErr =>
      .setVringErr (vringIndex (payload.loadLe 8 0)) (vringFd (payload.loadLe 8 0) fds)
  | .max => .unknown

/-- What `vhost_ioctl` is asked for by `arg`. -/
def VhostUserRequest.asks (request : VhostUserRequest) (arg : Bytes) (fds : List Int) :
    Directive :=
  match request with
  | .setVringKick => .setVringKick (vringIndex (arg.loadLe 4 0)) (vringFd (arg.loadLe 4 0) fds)
  | .setVringCall => .setVringCall (vringIndex (arg.loadLe 4 0)) (vringFd (arg.loadLe 4 0) fds)
  | .setVringErr => .setVringErr (vringIndex (arg.loadLe 4 0)) (vringFd (arg.loadLe 4 0) fds)
  | request => request.directive arg fds

def decode (f : List Cell) : Directive :=
  (requestOf (bytesOf f).request).directive (bytesOf f).payload (fdsOf f)

/-- What the server has been told when `xs` has arrived. -/
def heard (xs : List Cell) : List Directive := (framing.frames xs).1.map decode

/-! ## Frames that are sent -/

variable {msg : VhostUserMsg} {fds memoryFds : List Int} {request : VhostUserRequest}
  {arg payload payload' : Bytes} {bs : List UInt8} {k n v : Nat} {p : Peer}

theorem map_byte_packet (fds : List Int) (bs : List UInt8) :
    (packet fds bs).map Cell.byte = bs := by
  cases bs with
  | nil => rfl
  | cons b bs => simp [packet, Function.comp_def]

theorem fdsOf_packet (fds : List Int) (hbs : bs ≠ []) : fdsOf (packet fds bs) = fds := by
  cases bs with
  | nil => exact absurd rfl hbs
  | cons b bs => simp [packet, fdsOf, List.flatMap_map]

theorem length_frame (msg : VhostUserMsg) (fds : List Int) : (frame msg fds).length = msg.length := by
  have hlen := congrArg List.length (map_byte_packet fds (msg.wire msg.length))
  rw [List.length_map] at hlen
  rw [frame, hlen, VhostUserMsg.wire, List.length_map, List.length_range]

theorem fdsOf_frame (msg : VhostUserMsg) (fds : List Int) : fdsOf (frame msg fds) = fds := by
  refine fdsOf_packet fds fun hnil => ?_
  have hlen := congrArg List.length hnil
  rw [VhostUserMsg.wire, List.length_map, List.length_range] at hlen
  have hpos : 0 < msg.length := Nat.lt_of_lt_of_le (by decide) (Nat.le_add_right ..)
  exact absurd hlen (Nat.ne_of_gt hpos)

/-- The bytes of a frame are those of the message, also in a part of the frame. -/
theorem bytesOf_take (fds : List Int) (hk : k < n) (hn : n ≤ msg.length) :
    bytesOf ((frame msg fds).take n) k = msg k := by
  have hbytes : ((frame msg fds).take n).map Cell.byte = (msg.wire msg.length).take n := by
    rw [List.map_take, frame, map_byte_packet]
  unfold bytesOf
  rw [hbytes, List.getD_eq_getElem?_getD, List.getElem?_take, if_pos hk, VhostUserMsg.wire,
    List.getElem?_map, List.getElem?_range (by omega)]
  rfl

theorem bytesOf_frame (hk : k < msg.length) : bytesOf (frame msg fds) k = msg k := by
  have htake := bytesOf_take fds hk (Nat.le_refl _)
  rwa [← length_frame msg fds, List.take_length] at htake

theorem isFrame_frame (msg : VhostUserMsg) (fds : List Int) : framing.IsFrame (frame msg fds) := by
  have hsize : (bytesOf ((frame msg fds).take vhostUserHdrSize)).size = msg.size :=
    Bytes.loadLe_congr 4 fun x _ hx =>
      bytesOf_take fds (Nat.lt_of_lt_of_le hx (by decide)) (Nat.le_add_right ..)
  refine ⟨?_, ?_⟩
  · rw [length_frame]
    exact Nat.le_add_right ..
  · rw [length_frame]
    exact congrArg (vhostUserHdrSize + ·) hsize.symm

/-- Only the bytes up to the size of the payload are read. -/
def VhostUserRequest.reads (request : VhostUserRequest) (payload : Bytes) : Nat :=
  match request with
  | .setFeatures => 8
  | .setMemTable => 8 + payload.loadLe 4 0 * sizeofMemoryRegion
  | .setLogBase => 8
  | .setVringNum => replySize
  | .setVringAddr => sizeofVringAddr
  | .setVringBase => replySize
  | .setVringKick => 8
  | .setVringCall => 8
  | .setVringErr => 8
  | _ => 0

theorem regionsOf_congr
    (h : ∀ k, k < 8 + payload.loadLe 4 0 * sizeofMemoryRegion → payload k = payload' k) :
    regionsOf payload = regionsOf payload' := by
  have hcount : payload.loadLe 4 0 = payload'.loadLe 4 0 :=
    Bytes.loadLe_congr 4 fun x _ hx => h x (by omega)
  rw [regionsOf, regionsOf, ← hcount]
  refine List.map_congr_left fun i hi => region_congr fun x _ hx => h x ?_
  have hlt : i + 1 ≤ payload.loadLe 4 0 := List.mem_range.mp hi
  have hmul : (i + 1) * sizeofMemoryRegion ≤ payload.loadLe 4 0 * sizeofMemoryRegion :=
    Nat.mul_le_mul_right _ hlt
  rw [regionPos] at hx
  omega

theorem directive_congr (h : ∀ k, k < request.reads payload → payload k = payload' k) :
    request.directive payload fds = request.directive payload' fds := by
  have hload : ∀ n pos, (pos + n).ble (request.reads payload) = true →
      payload.loadLe n pos = payload'.loadLe n pos := fun n pos hle =>
    Bytes.loadLe_congr n fun x _ hx => h x (Nat.lt_of_lt_of_le hx (Nat.le_of_ble_eq_true hle))
  cases request with
  | setFeatures => rw [VhostUserRequest.directive, hload 8 0 rfl]; rfl
  | setMemTable => rw [VhostUserRequest.directive, regionsOf_congr h]; rfl
  | setLogBase => rw [VhostUserRequest.directive, hload 8 0 rfl]; rfl
  | setVringNum =>
      rw [VhostUserRequest.directive, hload 4 0 rfl, hload 4 4 rfl]; rfl
  | setVringAddr =>
      rw [VhostUserRequest.directive, hload 4 0 rfl, hload 4 4 rfl,
        hload 8 8 rfl, hload 8 16 rfl, hload 8 24 rfl,
        hload 8 32 rfl]
      rfl
  | setVringBase =>
      rw [VhostUserRequest.directive, hload 4 0 rfl, hload 4 4 rfl]; rfl
  | setVringKick => rw [VhostUserRequest.directive, hload 8 0 rfl]; rfl
  | setVringCall => rw [VhostUserRequest.directive, hload 8 0 rfl]; rfl
  | setVringErr => rw [VhostUserRequest.directive, hload 8 0 rfl]; rfl
  | none => rfl
  | getFeatures => rfl
  | setOwner => rfl
  | resetOwner => rfl
  | setLogFd => rfl
  | getVringBase => rfl
  | max => rfl

/-! ## The messages of the requests -/

theorem request_setSize (msg : VhostUserMsg) (v : Nat) : (msg.setSize v).request = msg.request :=
  Bytes.loadLe_storeLe_disjoint 4 4 msg (by decide)

theorem request_setU64 (msg : VhostUserMsg) (v : Nat) : (msg.setU64 v).request = msg.request :=
  Bytes.loadLe_storeLe_disjoint 8 4 msg (by decide)

theorem request_setPayload (msg : VhostUserMsg) (n : Nat) (src : Bytes) :
    (msg.setPayload n src).request = msg.request :=
  Bytes.loadLe_congr 4 fun _ _ hx =>
    Bytes.patch_outside msg src (Or.inl (Nat.lt_of_lt_of_le hx (by decide)))

theorem request_bareMsg (request : VhostUserRequest) : (bareMsg request).request = request.code := by
  have hflags : ∀ (msg : VhostUserMsg) (v : Nat), (msg.setFlags v).request = msg.request :=
    fun msg _ => Bytes.loadLe_storeLe_disjoint 4 4 msg (by decide)
  unfold bareMsg
  rw [request_setSize, hflags, VhostUserMsg.setRequest, VhostUserMsg.request, Bytes.loadLe_storeLe]
  cases request <;> rfl

theorem size_setSize (msg : VhostUserMsg) (h : v < 2 ^ 32) : (msg.setSize v).size = v := by
  rw [VhostUserMsg.setSize, VhostUserMsg.size, Bytes.loadLe_storeLe]
  exact Nat.mod_eq_of_lt h

theorem payload_setSize (msg : VhostUserMsg) (v : Nat) : (msg.setSize v).payload = msg.payload := by
  funext k
  exact Bytes.storeLe_outside 4 msg (Or.inr (Nat.le_add_right vhostUserHdrSize k))

theorem payload_setPayload (msg : VhostUserMsg) {src : Bytes} (hk : k < n) :
    (msg.setPayload n src).payload k = src k := by
  rw [VhostUserMsg.payload, VhostUserMsg.setPayload,
    Bytes.patch_inside _ _ (Nat.le_add_right ..) (Nat.add_lt_add_left hk _),
    Nat.add_sub_cancel_left]

theorem u64_setU64 (msg : VhostUserMsg) (h : v < 2 ^ 32) :
    (msg.setU64 v).payload.loadLe 8 0 = v := by
  have hshift : ∀ n pos, (msg.setU64 v).payload.loadLe n pos =
      (msg.setU64 v).loadLe n (vhostUserHdrSize + pos) := by
    intro n
    induction n with
    | zero => exact fun _ => rfl
    | succ n ih =>
        intro pos
        rw [Bytes.loadLe, Bytes.loadLe, ih]
        rfl
  rw [hshift, VhostUserMsg.setU64, Nat.add_zero, Bytes.loadLe_storeLe]
  exact Nat.mod_eq_of_lt (Nat.lt_of_lt_of_le h (by decide))

/-- The table of the memory regions fits into a message. -/
def FitsTable (request : VhostUserRequest) (arg : Bytes) : Prop :=
  request = .setMemTable → arg.loadLe 4 0 ≤ vhostMemoryMaxNregions

/-- How the payload of a message comes from `arg`. -/
inductive Payload (request : VhostUserRequest) (arg : Bytes) (msg : VhostUserMsg) : Prop
  | copied (hlen : request.reads arg = msg.size)
      (hsame : ∀ k, k < request.reads arg → arg k = msg.payload k)
      (hfile : ∀ f ∈ [VhostUserRequest.setVringKick, .setVringCall, .setVringErr], request ≠ f)
  | file (hlen : msg.size = 8) (hindex : msg.payload.loadLe 8 0 = arg.loadLe 4 0)
      (hfile : request ∈ [VhostUserRequest.setVringKick, .setVringCall, .setVringErr])

/-- What `vhost_ioctl` sends names the request and has all that the server reads. -/
theorem requestMsg_spec {m : Bool} (h : requestMsg m request arg = some msg)
    (hfits : FitsTable request arg) : msg.request = request.code ∧ Payload request arg msg := by
  have hbare : ∀ r : VhostUserRequest, r.reads arg = 0 →
      (∀ f ∈ [VhostUserRequest.setVringKick, .setVringCall, .setVringErr], r ≠ f) →
      (bareMsg r).request = r.code ∧ Payload r arg (bareMsg r) := fun r hr hne =>
    ⟨request_bareMsg r, .copied (by rw [hr, size_bareMsg]) (fun k hk => by
      rw [hr] at hk
      omega) hne⟩
  have hcopy : ∀ (r : VhostUserRequest) (n v : Nat), r.reads arg = v → v ≤ n → v < 2 ^ 32 →
      (∀ f ∈ [VhostUserRequest.setVringKick, .setVringCall, .setVringErr], r ≠ f) →
      (((bareMsg r).setPayload n arg).setSize v).request = r.code ∧
        Payload r arg (((bareMsg r).setPayload n arg).setSize v) := fun r n v hr hvn hv hne => by
    refine ⟨by rw [request_setSize, request_setPayload, request_bareMsg], .copied ?_ ?_ hne⟩
    · rw [hr, size_setSize _ hv]
    · intro k hk
      rw [payload_setSize, payload_setPayload _ (by omega)]
  have hfile : ∀ r : VhostUserRequest,
      r ∈ [VhostUserRequest.setVringKick, .setVringCall, .setVringErr] →
      (((bareMsg r).setU64 (arg.loadLe 4 0)).setSize 8).request = r.code ∧
        Payload r arg (((bareMsg r).setU64 (arg.loadLe 4 0)).setSize 8) := fun r hr => by
    refine ⟨by rw [request_setSize, request_setU64, request_bareMsg], .file ?_ ?_ hr⟩
    · exact size_setSize _ (by decide)
    · rw [payload_setSize, u64_setU64 _ (Bytes.loadLe_lt 4 arg 0)]
  cases request with
  | none => cases h; exact hbare .none rfl (by decide)
  | getFeatures => cases h; exact hbare .getFeatures rfl (by decide)
  | setFeatures => cases h; exact hcopy .setFeatures 8 8 rfl (by decide) (by decide) (by decide)
  | setOwner => cases h; exact hbare .setOwner rfl (by decide)
  | resetOwner => cases h; exact hbare .resetOwner rfl (by decide)
  | setMemTable =>
      have hle : arg.loadLe 4 0 ≤ 8 := hfits rfl
      have hlen : 8 + arg.loadLe 4 0 * sizeofMemoryRegion ≤ sizeofMemory := by
        simp only [sizeofMemory, vhostMemoryMaxNregions, sizeofMemoryRegion]
        omega
      rw [requestMsg] at h
      split at h
      · cases h
        exact hcopy .setMemTable _ _ rfl hlen (Nat.lt_of_le_of_lt hlen (by decide)) (by decide)
      · cases h
  | setLogBase => cases h; exact hcopy .setLogBase 8 8 rfl (by decide) (by decide) (by decide)
  | setLogFd => cases h; exact hbare .setLogFd rfl (by decide)
  | setVringNum =>
      cases h
      exact hcopy .setVringNum replySize replySize rfl (by decide) (by decide) (by decide)
  | setVringAddr =>
      cases h
      exact hcopy .setVringAddr sizeofVringAddr sizeofVringAddr rfl (by decide) (by decide)
        (by decide)
  | setVringBase =>
      cases h
      exact hcopy .setVringBase replySize replySize rfl (by decide) (by decide) (by decide)
  | getVringBase => cases h; exact hbare .getVringBase rfl (by decide)
  | setVringKick => cases h; exact hfile .setVringKick (by decide)
  | setVringCall => cases h; exact hfile .setVringCall (by decide)
  | setVringErr => cases h; exact hfile .setVringErr (by decide)
  | max => cases h

theorem requestOf_code (request : VhostUserRequest) : requestOf request.code = request := by
  cases request <;> rfl

theorem Payload.reads_le (h : Payload request arg msg) :
    request.reads msg.payload ≤ msg.size := by
  cases h with
  | copied hlen hsame hfile =>
      have hreads : request.reads msg.payload = request.reads arg := by
        cases request with
        | setMemTable =>
            have hcount : msg.payload.loadLe 4 0 = arg.loadLe 4 0 :=
              Bytes.loadLe_congr 4 fun x _ hx => (hsame x (by
                simp only [VhostUserRequest.reads]
                omega)).symm
            rw [VhostUserRequest.reads, VhostUserRequest.reads, hcount]
        | _ => rfl
      exact Nat.le_of_eq (hreads.trans hlen)
  | file hlen hindex hfile =>
      simp only [List.mem_cons, List.not_mem_nil, or_false] at hfile
      rcases hfile with rfl | rfl | rfl <;> exact Nat.le_of_eq hlen.symm

/-- What the server reads from the message is what was asked for. -/
theorem Payload.directive_eq (h : Payload request arg msg) :
    request.directive msg.payload fds = request.asks arg fds := by
  cases h with
  | copied hlen hsame hfile =>
      rw [← directive_congr hsame]
      cases request with
      | setVringKick => exact absurd rfl (hfile _ (by decide))
      | setVringCall => exact absurd rfl (hfile _ (by decide))
      | setVringErr => exact absurd rfl (hfile _ (by decide))
      | _ => rfl
  | file hlen hindex hfile =>
      simp only [List.mem_cons, List.not_mem_nil, or_false] at hfile
      rcases hfile with rfl | rfl | rfl <;>
        rw [VhostUserRequest.directive, hindex, VhostUserRequest.asks]

theorem decode_request {m : Bool} (h : requestMsg m request arg = some msg)
    (hfits : FitsTable request arg) (fds : List Int) :
    decode (frame msg fds) = request.asks arg fds := by
  obtain ⟨hcode, hpayload⟩ := requestMsg_spec h hfits
  have hrequest : (bytesOf (frame msg fds)).request = msg.request :=
    Bytes.loadLe_congr 4 fun x _ hx => bytesOf_frame (Nat.lt_of_lt_of_le hx
      (Nat.le_trans (by decide) (Nat.le_add_right vhostUserHdrSize msg.size)))
  have hread : request.directive msg.payload fds =
      request.directive (bytesOf (frame msg fds)).payload fds :=
    directive_congr fun k hk =>
      (bytesOf_frame (Nat.add_lt_add_left (Nat.lt_of_lt_of_le hk hpayload.reads_le) _)).symm
  rw [decode, hrequest, hcode, requestOf_code, fdsOf_frame, ← hread, hpayload.directive_eq]

/-! ## One request -/

theorem Payload.length_le (h : Payload request arg msg) (hfits : FitsTable request arg) :
    msg.length ≤ sizeofMsg := by
  have hsize : msg.size ≤ sizeofMemory := by
    cases h with
    | copied hlen hsame hfile =>
        rw [← hlen]
        cases request with
        | setMemTable =>
            have hle : arg.loadLe 4 0 ≤ 8 := hfits rfl
            simp only [VhostUserRequest.reads, sizeofMemory, vhostMemoryMaxNregions,
              sizeofMemoryRegion]
            omega
        | _ => exact Nat.le_of_ble_eq_true rfl
    | file hlen hindex hfile =>
        rw [hlen]
        decide
  exact Nat.add_le_add_left hsize _

/-- On a socket that transfers a message as a whole or not at all, a request either tells the
server what was asked for, or nothing, and then it fails. -/
theorem outgoing_cases (fds? : Option (List Int))
    (hwhole : ∀ len n, len ≤ sizeofMsg → p.sends.sendmsg len = some n → n = len)
    (hfits : FitsTable request arg) :
    (outgoing p fds? request arg = [] ∧ vhostIoctl p fds?.isSome request arg = .ok (-1, arg)) ∨
      ∃ f, outgoing p fds? request arg = f ∧ framing.IsFrame f ∧
        decode f = request.asks arg (requestFds (fds?.getD []) request arg) := by
  unfold outgoing
  cases hmsg : requestMsg fds?.isSome request arg with
  | none =>
      refine Or.inl ⟨rfl, ?_⟩
      unfold vhostIoctl
      rw [hmsg]
  | some msg =>
      have hlen := (requestMsg_spec hmsg hfits).2.length_le hfits
      simp only [Peer.sent]
      cases hsent : p.sends.sendmsg msg.length with
      | none =>
          refine Or.inl ⟨rfl, ?_⟩
          have hfailed : vhostUserSendFds p msg = -1 := by
            unfold vhostUserSendFds
            rw [← VhostUserMsg.length, hsent]
          unfold vhostIoctl
          rw [hmsg]
          simp only [hfailed]
          rfl
      | some n =>
          cases hwhole _ n hlen hsent
          exact Or.inr ⟨_, rfl, isFrame_frame .., decode_request hmsg hfits _⟩

end VhostUser.Client
