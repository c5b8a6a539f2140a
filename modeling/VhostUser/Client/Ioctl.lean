import VhostUser.Client.Message

/-! # Requests with and without a reply

`vhost_ioctl` sends a request and, for two of the requests, receives the reply into the
same message. It takes the length that `vhost_user_recv_fds` returns for success whatever
it is, and leaves it to assertions to look at the header. So it can rely on the reply only
if the header arrives as a whole and announces a payload of the size that belongs to the
request.
-/

namespace VhostUser.Client

open VhostUser.Lib

/-! ## The requests -/

inductive VhostUserRequest where
  | none
  | getFeatures
  | setFeatures
  | setOwner
  | resetOwner
  | setMemTable
  | setLogBase
  | setLogFd
  | setVringNum
  | setVringAddr
  | setVringBase
  | getVringBase
  | setVringKick
  | setVringCall
  | setVringErr
  | max
  deriving Repr, DecidableEq

namespace VhostUserRequest

def code : VhostUserRequest → Nat
  | none => 0
  | getFeatures => 1
  | setFeatures => 2
  | setOwner => 3
  | resetOwner => 4
  | setMemTable => 5
  | setLogBase => 6
  | setLogFd => 7
  | setVringNum => 8
  | setVringAddr => 9
  | setVringBase => 10
  | getVringBase => 11
  | setVringKick => 12
  | setVringCall => 13
  | setVringErr => 14
  | max => 15

def needReply : VhostUserRequest → Bool
  | getFeatures => true
  | getVringBase => true
  | _ => false

end VhostUserRequest

def vhostUserVersion : Nat := 1

def vhostUserVersionMask : Nat := 3

/-- The size of a `uint64_t` and of a `struct vhost_vring_state`. -/
def replySize : Nat := 8

def sizeofVringAddr : Nat := 40

def versionFlags (flags : Nat) : Nat :=
  (flags &&& (2 ^ 32 - 1 - vhostUserVersionMask)) ||| vhostUserVersion

def bareMsg (request : VhostUserRequest) : VhostUserMsg :=
  let msg : VhostUserMsg := fun _ => 0
  let msg := msg.setRequest request.code
  (msg.setFlags (versionFlags msg.flags)).setSize 0

/-- The message that `vhost_ioctl` sends for `arg`, unless `get_memory_fds` fails or there is
no such request. -/
def requestMsg (memoryFds : Bool) (request : VhostUserRequest) (arg : Bytes) :
    Option VhostUserMsg :=
  let msg := bareMsg request
  match request with
  | .getFeatures => some msg
  | .getVringBase => some msg
  | .setFeatures => some ((msg.setPayload 8 arg).setSize 8)
  | .setLogBase => some ((msg.setPayload 8 arg).setSize 8)
  | .setOwner => some msg
  | .resetOwner => some msg
  | .setMemTable =>
      if memoryFds then
        some ((msg.setPayload sizeofMemory arg).setSize (8 + arg.loadLe 4 0 * sizeofMemoryRegion))
      else none
  | .setLogFd => some msg
  | .setVringNum => some ((msg.setPayload replySize arg).setSize replySize)
  | .setVringBase => some ((msg.setPayload replySize arg).setSize replySize)
  | .setVringAddr => some ((msg.setPayload sizeofVringAddr arg).setSize sizeofVringAddr)
  | .setVringKick => some ((msg.setU64 (arg.loadLe 4 0)).setSize 8)
  | .setVringCall => some ((msg.setU64 (arg.loadLe 4 0)).setSize 8)
  | .setVringErr => some ((msg.setU64 (arg.loadLe 4 0)).setSize 8)
  | .none => some msg
  | .max => none

/-- What `vhost_ioctl` does with the reply. -/
def takeReply (request : VhostUserRequest) (arg : Bytes) (r : Received) :
    Except Fault (Int × Bytes) :=
  if r.ret < 0 then .ok (-1, arg)
  else if r.msg.request ≠ request.code then .error .assertion
  else if r.msg.flags &&& vhostUserVersionMask ≠ vhostUserVersion then .error .assertion
  else
    match request with
    | .getFeatures => .ok (0, arg.patch 0 8 r.msg.payload)
    | .getVringBase => .ok (0, arg.patch 0 replySize r.msg.payload)
    | _ => .ok (-1, arg)

/-- `vhost_ioctl` returns its result and what `arg` points to. -/
def vhostIoctl (p : Peer) (memoryFds : Bool) (request : VhostUserRequest) (arg : Bytes) :
    Except Fault (Int × Bytes) :=
  match requestMsg memoryFds request arg with
  | none => .ok (-1, arg)
  | some msg =>
      if vhostUserSendFds p msg < 0 then .ok (-1, arg)
      else if request.needReply then do
        let r ← vhostUserRecvFds p ((msg.setRequest VhostUserRequest.none.code).setFlags 0) 0
        takeReply request arg r
      else .ok (0, arg)

/-! ## Requests with a reply -/

variable {p : Peer} {memoryFds : Bool} {request : VhostUserRequest} {arg : Bytes}

theorem size_bareMsg (request : VhostUserRequest) : (bareMsg request).size = 0 :=
  Bytes.loadLe_storeLe 4 _ 8 0

theorem reset_bareMsg (request : VhostUserRequest) :
    ((bareMsg request).setRequest VhostUserRequest.none.code).setFlags 0 = fun _ => 0 := by
  have hbyte : ∀ k, UInt8.ofNat (0 / 256 ^ k) = 0 := fun k => by rw [Nat.zero_div]; rfl
  funext x
  simp only [bareMsg, VhostUserMsg.setRequest, VhostUserMsg.setFlags, VhostUserMsg.setSize,
    Bytes.storeLe, Bytes.patch, VhostUserRequest.code, hbyte]
  split
  · rfl
  · split
    · rfl
    · split
      · rfl
      · rfl

theorem requestMsg_reply (hreply : request.needReply = true) :
    requestMsg memoryFds request arg = some (bareMsg request) := by
  cases request <;> first | rfl | cases hreply

/-- What a request with a reply does, from the message that is empty again. -/
theorem vhostIoctl_reply (hreply : request.needReply = true) :
    vhostIoctl p memoryFds request arg =
      if p.sends.sendmsg vhostUserHdrSize = none then .ok (-1, arg)
      else (vhostUserRecvFds p (fun _ => 0) 0).bind (takeReply request arg) := by
  unfold vhostIoctl vhostUserSendFds
  rw [requestMsg_reply hreply]
  simp only [size_bareMsg, reset_bareMsg, hreply, if_true, Nat.add_zero]
  cases p.sends.sendmsg vhostUserHdrSize with
  | none => rfl
  | some n =>
      simp only [Int.not_ofNat_neg, if_false, reduceCtorEq]
      rfl

/-- The whole request went out, and a header and a payload of the right size came back. -/
structure Exchanged (p : Peer) : Prop where
  sent : p.sends.sendmsg vhostUserHdrSize = some vhostUserHdrSize
  header : p.recvmsg vhostUserHdrSize = some vhostUserHdrSize
  size : VhostUserMsg.size p.bytes = replySize
  payload : p.read vhostUserHdrSize replySize = some replySize

/-- Either the call fails and leaves `arg` alone, or it stores the payload of a whole reply. -/
def Settles (p : Peer) (arg : Bytes) (r : Except Fault (Int × Bytes)) : Prop :=
  r = .ok (-1, arg) ∨
    Exchanged p ∧ r = .ok (0, arg.patch 0 replySize (VhostUserMsg.payload p.bytes))

structure Complete (p : Peer) (request : VhostUserRequest) : Prop extends Exchanged p where
  request : VhostUserMsg.request p.bytes = request.code
  version : VhostUserMsg.flags p.bytes &&& vhostUserVersionMask = vhostUserVersion

/-- Peers on which the caller may rely. -/
inductive Reliable (p : Peer) (request : VhostUserRequest) : Prop
  | notSent (h : p.sends.sendmsg vhostUserHdrSize = none)
  | refused (h : Refuses p fun _ => 0)
  | complete (h : Complete p request)

theorem load_fill {n pos : Nat} (h : pos + 4 ≤ n) :
    (p.fill (fun _ => 0) n).loadLe 4 pos = p.bytes.loadLe 4 pos :=
  Bytes.loadLe_congr 4 fun x _ hx => Bytes.patch_inside _ _ (Nat.zero_le x) (by omega)

theorem takeReply_refused (r : Received) (h : r.ret = -1) :
    takeReply request arg r = .ok (-1, arg) := by
  unfold takeReply
  rw [h]
  rfl

theorem takeReply_whole (hreply : request.needReply = true) {n : Nat} {msg : VhostUserMsg}
    {fds : List Int} (hreq : msg.request = request.code)
    (hver : msg.flags &&& vhostUserVersionMask = vhostUserVersion) :
    takeReply request arg ⟨n, msg, fds⟩ = .ok (0, arg.patch 0 replySize msg.payload) := by
  unfold takeReply
  rw [if_neg (Int.not_lt.mpr (Int.natCast_nonneg n)), if_neg (not_not_intro hreq),
    if_neg (not_not_intro hver)]
  cases request <;> first | rfl | cases hreply

theorem takeReply_accepted (hreply : request.needReply = true) (n : Nat) (msg : VhostUserMsg)
    (fds : List Int) :
    takeReply request arg ⟨n, msg, fds⟩ = .error .assertion ∨
      msg.request = request.code ∧ msg.flags &&& vhostUserVersionMask = vhostUserVersion ∧
        takeReply request arg ⟨n, msg, fds⟩ = .ok (0, arg.patch 0 replySize msg.payload) := by
  by_cases hreq : msg.request = request.code
  · by_cases hver : msg.flags &&& vhostUserVersionMask = vhostUserVersion
    · exact Or.inr ⟨hreq, hver, takeReply_whole hreply hreq hver⟩
    · unfold takeReply
      rw [if_neg (Int.not_lt.mpr (Int.natCast_nonneg n)), if_neg (not_not_intro hreq)]
      exact Or.inl (if_pos hver)
  · unfold takeReply
    rw [if_neg (Int.not_lt.mpr (Int.natCast_nonneg n))]
    exact Or.inl (if_pos hreq)

/-! ## A whole exchange -/

def Peer.reply (p : Peer) : VhostUserMsg := p.fill (fun _ => 0) (vhostUserHdrSize + replySize)

namespace Exchanged

theorem size_header (h : Exchanged p) : (p.fill (fun _ => 0) vhostUserHdrSize).size = replySize :=
  (load_fill (by decide)).trans h.size

theorem size_reply (h : Exchanged p) : p.reply.size = replySize :=
  (load_fill (by decide)).trans h.size

theorem read (h : Exchanged p) : p.read vhostUserHdrSize
    (p.fill (fun _ => 0) vhostUserHdrSize).size = some replySize := by
  rw [h.size_header]
  exact h.payload

theorem received (h : Exchanged p) (hcut : p.truncated = false) :
    ∃ fds, vhostUserRecvFds p (fun _ => 0) 0 = .ok ⟨vhostUserHdrSize, p.reply, fds⟩ := by
  obtain ⟨fds, heq⟩ := vhostUserRecvFds_header (fun _ => 0) 0 h.header (by simp [hcut])
  refine ⟨fds, ?_⟩
  rw [heq, recvPayload_fits h.read (by decide)]
  exact congrArg Except.ok (congrArg (Received.mk · p.reply fds) (if_pos h.size_reply.symm))

theorem accepted (h : Exchanged p) {n : Nat} {msg : VhostUserMsg}
    (hacc : Accepts p (fun _ => 0) n msg) : msg = p.reply := by
  obtain ⟨hn, hbody⟩ := hacc
  cases Option.some.inj (h.header.symm.trans hn)
  rw [h.read] at hbody
  obtain ⟨hnone, -⟩ | ⟨m, hm, hmsg, -⟩ := hbody
  · cases hnone
  · cases hm
    exact hmsg

end Exchanged

theorem patch_reply (p : Peer) (arg : Bytes) : arg.patch 0 replySize p.reply.payload =
    arg.patch 0 replySize (VhostUserMsg.payload p.bytes) :=
  Bytes.patch_congr _ fun k hk => by
    show p.reply (vhostUserHdrSize + k) = p.bytes (vhostUserHdrSize + k)
    unfold Peer.reply Peer.fill
    rw [Bytes.patch_inside _ _ (Nat.zero_le _) (by omega), Nat.sub_zero]

theorem Reliable.settles (h : Reliable p request) (hreply : request.needReply = true) :
    Settles p arg (vhostIoctl p memoryFds request arg) := by
  have hrefuse : Refuses p (fun _ => 0) → Settles p arg (vhostIoctl p memoryFds request arg) :=
    fun href => by
      rw [vhostIoctl_reply hreply]
      by_cases hsent : p.sends.sendmsg vhostUserHdrSize = none
      · rw [if_pos hsent]
        exact Or.inl rfl
      · obtain ⟨msg, fds, hrun⟩ := href.result 0
        rw [if_neg hsent, hrun]
        exact Or.inl (takeReply_refused _ rfl)
  cases h with
  | notSent h =>
      rw [vhostIoctl_reply hreply, if_pos h]
      exact Or.inl rfl
  | refused h => exact hrefuse h
  | complete h =>
      cases hcut : p.truncated with
      | true => exact hrefuse (.truncated _ h.header (by decide) hcut)
      | false =>
          obtain ⟨fds, hrun⟩ := h.toExchanged.received hcut
          rw [vhostIoctl_reply hreply, h.sent, if_neg (Option.some_ne_none _), hrun]
          refine Or.inr ⟨h.toExchanged, ?_⟩
          have hreq : p.reply.request = request.code := (load_fill (by decide)).trans h.request
          have hflags : p.reply.flags = VhostUserMsg.flags p.bytes := load_fill (by decide)
          have hver : p.reply.flags &&& vhostUserVersionMask = vhostUserVersion := by
            rw [hflags]
            exact h.version
          rw [← patch_reply]
          exact takeReply_whole hreply hreq hver

/-- `vhost_ioctl` with a reply either fails or returns the payload of a whole reply, neither
storing behind the message nor running into an assertion, exactly for reliable peers. -/
theorem vhostIoctl_settles_iff (p : Peer) (memoryFds : Bool) (request : VhostUserRequest)
    (hreply : request.needReply = true) (arg : Bytes) :
    Settles p arg (vhostIoctl p memoryFds request arg) ↔ Reliable p request := by
  refine ⟨fun h => ?_, fun h => h.settles hreply⟩
  rw [vhostIoctl_reply hreply] at h
  by_cases hsent : p.sends.sendmsg vhostUserHdrSize = none
  · exact .notSent hsent
  rw [if_neg hsent] at h
  obtain href | ⟨n, msg, fds, hrun, hacc⟩ | ⟨hrun, -⟩ := vhostUserRecvFds_cases p (fun _ => 0) 0
  · exact .refused href
  · rw [hrun] at h
    have h : Settles p arg (takeReply request arg ⟨n, msg, fds⟩) := h
    obtain hassert | ⟨hreq, hver, hret⟩ := takeReply_accepted hreply n msg fds
    · rw [hassert] at h
      rcases h with h | ⟨-, h⟩
      · cases h
      · cases h
    · rw [hret] at h
      rcases h with h | ⟨hex, -⟩
      · cases h
      · rw [hex.accepted hacc] at hreq hver
        have hflags : p.reply.flags = VhostUserMsg.flags p.bytes := load_fill (by decide)
        refine .complete ⟨hex, (load_fill (by decide)).symm.trans hreq, ?_⟩
        rw [← hflags]
        exact hver
  · rw [hrun] at h
    rcases h with h | ⟨-, h⟩
    · cases h
    · cases h

def featuresHeader (size : Nat) : List UInt8 :=
  [1, 0, 0, 0, 5, 0, 0, 0, UInt8.ofNat size, UInt8.ofNat (size / 256), 0, 0]

/-- A peer that takes the request at the second attempt and then sends `stream`. -/
def answering (stream : List UInt8) : Peer :=
  ⟨.interrupted (.sent 12), stream, some stream.length, false, [], some stream.length⟩

theorem vhostIoctl_settles_iff_features :
    (answering (featuresHeader 8 ++ [1, 2, 3, 4, 5, 6, 7, 8])).stream.length = 20 ∧
      Settles (answering (featuresHeader 8 ++ [1, 2, 3, 4, 5, 6, 7, 8])) (fun _ => 0)
        (vhostIoctl (answering (featuresHeader 8 ++ [1, 2, 3, 4, 5, 6, 7, 8])) true .getFeatures
          fun _ => 0) :=
  ⟨rfl, (vhostIoctl_settles_iff _ true .getFeatures rfl _).mpr
    (.complete ⟨⟨by decide, by decide, by decide, by decide⟩, by decide, by decide⟩)⟩

def faultOf {α : Type} : Except Fault α → Option Fault
  | .ok _ => none
  | .error f => some f

theorem eq_error_of_faultOf {α : Type} {r : Except Fault α} {f : Fault} (h : faultOf r = some f) :
    r = .error f := by
  cases r with
  | ok a => cases h
  | error g => rw [Option.some.inj h]

theorem not_settles_of_faultOf {r : Except Fault (Int × Bytes)} {f : Fault}
    (h : faultOf r = some f) : ¬ Settles p arg r := by
  rw [eq_error_of_faultOf h]
  rintro (h | ⟨-, h⟩)
  · cases h
  · cases h

/-- A peer that closes the connection runs the caller into an assertion, one that announces too
much overwrites what is behind the message, and one that announces no payload makes the caller
return 0 with a zero that was never sent. -/
theorem replies_not_checked :
    (faultOf (vhostIoctl (answering []) true .getFeatures fun _ => 7) = some .assertion ∧
      ¬ Settles (answering []) (fun _ => 7)
        (vhostIoctl (answering []) true .getFeatures fun _ => 7)) ∧
    (faultOf (vhostIoctl (answering (featuresHeader 300 ++ List.replicate 300 255)) true
        .getFeatures fun _ => 7) = some .pastEnd ∧
      ¬ Settles (answering (featuresHeader 300 ++ List.replicate 300 255)) (fun _ => 7)
        (vhostIoctl (answering (featuresHeader 300 ++ List.replicate 300 255)) true .getFeatures
          fun _ => 7)) ∧
    ∃ arg, vhostIoctl (answering (featuresHeader 0)) true .getFeatures (fun _ => 7) = .ok (0, arg) ∧
      arg 0 = 0 ∧ ¬ Settles (answering (featuresHeader 0)) (fun _ => 7) (.ok (0, arg)) := by
  have hclosed : faultOf (vhostIoctl (answering []) true .getFeatures fun _ => 7) =
      some .assertion := by decide +kernel
  have hlong : faultOf (vhostIoctl (answering (featuresHeader 300 ++ List.replicate 300 255)) true
      .getFeatures fun _ => 7) = some .pastEnd := by decide +kernel
  have hempty : (vhostIoctl (answering (featuresHeader 0)) true .getFeatures fun _ =>
      7).toOption.any (fun r => decide (r.1 = 0 ∧ r.2 0 = 0)) = true := by decide +kernel
  refine ⟨⟨hclosed, not_settles_of_faultOf hclosed⟩, ⟨hlong, not_settles_of_faultOf hlong⟩, ?_⟩
  cases hrun : vhostIoctl (answering (featuresHeader 0)) true .getFeatures fun _ => 7 with
  | error f =>
      rw [hrun] at hempty
      cases hempty
  | ok r =>
      rw [hrun] at hempty
      obtain ⟨hret, harg⟩ := of_decide_eq_true hempty
      obtain ⟨ret, arg⟩ := r
      cases hret
      refine ⟨arg, rfl, harg, ?_⟩
      rintro (h | ⟨hex, -⟩)
      · cases h
      · have hsize : VhostUserMsg.size (answering (featuresHeader 0)).bytes ≠ replySize := by decide
        exact hsize hex.size

end VhostUser.Client
