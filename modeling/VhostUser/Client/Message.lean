import VhostUser.Lib.Bytes
import VhostUser.Lib.CInt

/-! # Messages between client and server

A message is a packed record: request, flags and the size of the payload take four bytes
each, the payload follows. Sending and receiving are modelled on the bytes of the record.
A header of which only a part arrives leaves the rest of its fields as they were, and the
payload is read to where the header has ended, which need not be where the payload begins.

The numbers in the header are in the order of the host, which is an x86. The descriptors
that go along with a request are not part of this model.
-/

namespace VhostUser.Client

open VhostUser.Lib

/-! ## The record -/

abbrev VhostUserMsg := Bytes

def vhostUserHdrSize : Nat := 12

def vhostMemoryMaxNregions : Nat := 8

def sizeofMemoryRegion : Nat := 32

def sizeofMemory : Nat := 8 + vhostMemoryMaxNregions * sizeofMemoryRegion

/-- The largest payload is the table of memory regions. -/
def sizeofMsg : Nat := vhostUserHdrSize + sizeofMemory

namespace VhostUserMsg

def request (msg : VhostUserMsg) : Nat := msg.loadLe 4 0

def flags (msg : VhostUserMsg) : Nat := msg.loadLe 4 4

def size (msg : VhostUserMsg) : Nat := msg.loadLe 4 8

def payload (msg : VhostUserMsg) : Bytes := fun k => msg (vhostUserHdrSize + k)

def setRequest (msg : VhostUserMsg) (v : Nat) : VhostUserMsg := msg.storeLe 4 0 v

def setFlags (msg : VhostUserMsg) (v : Nat) : VhostUserMsg := msg.storeLe 4 4 v

def setSize (msg : VhostUserMsg) (v : Nat) : VhostUserMsg := msg.storeLe 4 8 v

def setU64 (msg : VhostUserMsg) (v : Nat) : VhostUserMsg := msg.storeLe 8 vhostUserHdrSize v

def setPayload (msg : VhostUserMsg) (len : Nat) (src : Bytes) : VhostUserMsg :=
  msg.patch vhostUserHdrSize len src

end VhostUserMsg

/-! ## The socket -/

/-- What the calls of `sendmsg` return, up to the first that is not interrupted. -/
inductive Sends where
  | interrupted (next : Sends)
  | failed
  | sent (n : Nat)
  deriving Repr, DecidableEq

/-- What the other side and the stream socket do during one request. -/
structure Peer where
  sends : Sends
  /-- what arrives before the stream ends -/
  stream : List UInt8
  /-- the most that `recvmsg` transfers, if it does not fail -/
  recvLimit : Option Nat
  /-- `recvmsg` says that something was cut off -/
  truncated : Bool
  /-- the descriptors that come with the reply -/
  rights : List Int
  /-- the most that `read` transfers, if it does not fail -/
  readLimit : Option Nat
  deriving Repr

namespace Peer

def bytes (p : Peer) : Bytes := fun k => p.stream.getD k 0

/-- The number of bytes that `recvmsg` stores. -/
def recvmsg (p : Peer) (len : Nat) : Option Nat :=
  p.recvLimit.map fun limit => min limit (min len p.stream.length)

/-- The number of bytes that `read` stores after `pos` bytes have been received. -/
def read (p : Peer) (pos len : Nat) : Option Nat :=
  p.readLimit.map fun limit => min limit (min len (p.stream.length - pos))

end Peer

/-- The number of bytes of a message that go out. -/
def Sends.sendmsg (len : Nat) : Sends → Option Nat
  | .interrupted next => next.sendmsg len
  | .failed => none
  | .sent n => some (min n len)

inductive Fault where
  /-- a store behind the end of the message -/
  | pastEnd
  | assertion
  deriving Repr, DecidableEq

def vhostUserSendFds (p : Peer) (msg : VhostUserMsg) : Int :=
  match p.sends.sendmsg (vhostUserHdrSize + msg.size) with
  | none => -1
  | some n => n

structure Received where
  ret : Int
  msg : VhostUserMsg
  fds : List Int

/-- An `int` is compared with the size, which is unsigned. -/
def VhostUserMsg.hasSize (msg : VhostUserMsg) (rc : Int) : Bool :=
  decide (toInt rc % 2 ^ 32 = msg.size)

/-- The payload goes to where the header has ended. -/
def recvPayload (p : Peer) (msg : VhostUserMsg) (ret : Nat) (fds : List Int) :
    Except Fault Received :=
  match p.read ret msg.size with
  | none => .ok ⟨if msg.hasSize (-1) then ret else -1, msg, fds⟩
  | some rc =>
      if ret + rc ≤ sizeofMsg then
        let msg : VhostUserMsg := msg.patch ret rc fun k => p.bytes (ret + k)
        .ok ⟨if msg.hasSize rc then ret else -1, msg, fds⟩
      else .error .pastEnd

/-- `vhost_user_recv_fds` for a message of `sizeofMsg` bytes and at most `fdNum` descriptors. -/
def vhostUserRecvFds (p : Peer) (msg : VhostUserMsg) (fdNum : Nat) : Except Fault Received :=
  match p.recvmsg vhostUserHdrSize with
  | none => .ok ⟨-1, msg, []⟩
  | some ret =>
      let msg : VhostUserMsg := msg.patch 0 ret p.bytes
      if ret > 0 ∧ p.truncated = true then .ok ⟨-1, msg, []⟩
      else recvPayload p msg ret (if ret > 0 ∧ p.rights.length ≤ fdNum then p.rights else [])

/-! ## What is received -/

variable {p : Peer} {msg : VhostUserMsg} {n m : Nat}

/-- The message after the first `n` bytes of the stream. -/
def Peer.fill (p : Peer) (msg : VhostUserMsg) (n : Nat) : VhostUserMsg := msg.patch 0 n p.bytes

theorem fill_add (p : Peer) (msg : VhostUserMsg) (n m : Nat) :
    (p.fill msg n).patch n m (fun k => p.bytes (n + k)) = p.fill msg (n + m) := by
  have happend := Bytes.patch_append msg p.bytes 0 n m
  rwa [Nat.zero_add] at happend

theorem read_le {pos len : Nat} (h : p.read pos len = some m) : m ≤ len := by
  obtain ⟨limit, -, rfl⟩ := Option.map_eq_some_iff.mp h
  omega

theorem size_lt (msg : VhostUserMsg) : msg.size < 2 ^ 32 := Bytes.loadLe_lt 4 msg 8

/-- The count of a read that did not fail is compared as it is. -/
theorem hasSize_iff (h : m < 2 ^ 32) : msg.hasSize m = true ↔ m = msg.size := by
  unfold VhostUserMsg.hasSize
  rw [decide_eq_true_iff, toInt_emod]
  omega

/-- A read that failed looks complete if the size is the highest number. -/
theorem hasSize_failed : msg.hasSize (-1) = true ↔ msg.size = 2 ^ 32 - 1 := by
  unfold VhostUserMsg.hasSize
  rw [decide_eq_true_iff, toInt_emod]
  omega

/-- Why -1 is returned. -/
inductive Refuses (p : Peer) (msg : VhostUserMsg) : Prop
  | noHeader (h : p.recvmsg vhostUserHdrSize = none)
  | truncated (n : Nat) (h : p.recvmsg vhostUserHdrSize = some n) (hpos : n > 0)
      (hcut : p.truncated = true)
  /-- `read` fails -/
  | noPayload (n : Nat) (h : p.recvmsg vhostUserHdrSize = some n)
      (hread : p.read n (p.fill msg n).size = none) (hsize : (p.fill msg n).size ≠ 2 ^ 32 - 1)
  /-- `read` transfers another number of bytes than the message says when it is there -/
  | incomplete (n m : Nat) (h : p.recvmsg vhostUserHdrSize = some n)
      (hread : p.read n (p.fill msg n).size = some m) (hfits : n + m ≤ sizeofMsg)
      (hsize : m ≠ (p.fill msg (n + m)).size)

/-- Why a length is returned: it is that of the header, and `msg'` is received after it. -/
structure Accepts (p : Peer) (msg : VhostUserMsg) (n : Nat) (msg' : VhostUserMsg) : Prop where
  header : p.recvmsg vhostUserHdrSize = some n
  body : (p.read n (p.fill msg n).size = none ∧ msg' = p.fill msg n ∧ msg'.size = 2 ^ 32 - 1) ∨
    ∃ m, p.read n (p.fill msg n).size = some m ∧ msg' = p.fill msg (n + m) ∧ m = msg'.size

/-- More bytes are received than the message has. -/
def Overruns (p : Peer) (msg : VhostUserMsg) : Prop :=
  ∃ n m, p.recvmsg vhostUserHdrSize = some n ∧ p.read n (p.fill msg n).size = some m ∧
    sizeofMsg < n + m

section Payload

variable {fds : List Int}

theorem recvPayload_failed (h : p.read n (p.fill msg n).size = none) :
    recvPayload p (p.fill msg n) n fds =
      .ok ⟨if (p.fill msg n).size = 2 ^ 32 - 1 then n else -1, p.fill msg n, fds⟩ := by
  unfold recvPayload
  rw [h]
  simp only [hasSize_failed]

theorem recvPayload_fits (h : p.read n (p.fill msg n).size = some m) (hfits : n + m ≤ sizeofMsg) :
    recvPayload p (p.fill msg n) n fds =
      .ok ⟨if m = (p.fill msg (n + m)).size then n else -1, p.fill msg (n + m), fds⟩ := by
  have hm : m < 2 ^ 32 := Nat.lt_of_le_of_lt (read_le h) (size_lt _)
  unfold recvPayload
  rw [h]
  simp only [if_pos hfits, fill_add, hasSize_iff hm]

theorem recvPayload_overrun (h : p.read n (p.fill msg n).size = some m)
    (hover : sizeofMsg < n + m) : recvPayload p (p.fill msg n) n fds = .error .pastEnd := by
  unfold recvPayload
  rw [h]
  exact if_neg (Nat.not_le.mpr hover)

end Payload

theorem vhostUserRecvFds_header (msg : VhostUserMsg) (fdNum : Nat)
    (h : p.recvmsg vhostUserHdrSize = some n) (hcut : ¬ (n > 0 ∧ p.truncated = true)) :
    ∃ fds, vhostUserRecvFds p msg fdNum = recvPayload p (p.fill msg n) n fds := by
  unfold vhostUserRecvFds
  rw [h]
  exact ⟨_, if_neg hcut⟩

theorem Refuses.result (h : Refuses p msg) (fdNum : Nat) :
    ∃ msg' fds, vhostUserRecvFds p msg fdNum = .ok ⟨-1, msg', fds⟩ := by
  have htruncated : ∀ n, p.recvmsg vhostUserHdrSize = some n → n > 0 ∧ p.truncated = true →
      ∃ msg' fds, vhostUserRecvFds p msg fdNum = .ok ⟨-1, msg', fds⟩ := fun n hn hcut => by
    unfold vhostUserRecvFds
    rw [hn]
    exact ⟨_, _, if_pos hcut⟩
  cases h with
  | noHeader h =>
      unfold vhostUserRecvFds
      rw [h]
      exact ⟨_, _, rfl⟩
  | truncated n h hpos hcut => exact htruncated n h ⟨hpos, hcut⟩
  | noPayload n h hread hsize =>
      by_cases hcut : n > 0 ∧ p.truncated = true
      · exact htruncated n h hcut
      · obtain ⟨fds, heq⟩ := vhostUserRecvFds_header msg fdNum h hcut
        rw [heq, recvPayload_failed hread, if_neg hsize]
        exact ⟨_, _, rfl⟩
  | incomplete n m h hread hfits hsize =>
      by_cases hcut : n > 0 ∧ p.truncated = true
      · exact htruncated n h hcut
      · obtain ⟨fds, heq⟩ := vhostUserRecvFds_header msg fdNum h hcut
        rw [heq, recvPayload_fits hread hfits, if_neg hsize]
        exact ⟨_, _, rfl⟩

theorem vhostUserRecvFds_cases (p : Peer) (msg : VhostUserMsg) (fdNum : Nat) :
    Refuses p msg ∨
      (∃ n msg' fds, vhostUserRecvFds p msg fdNum = .ok ⟨(n : Nat), msg', fds⟩ ∧
        Accepts p msg n msg') ∨
      vhostUserRecvFds p msg fdNum = .error .pastEnd ∧ Overruns p msg := by
  cases hn : p.recvmsg vhostUserHdrSize with
  | none => exact Or.inl (.noHeader hn)
  | some n =>
      by_cases hcut : n > 0 ∧ p.truncated = true
      · exact Or.inl (.truncated n hn hcut.1 hcut.2)
      · obtain ⟨fds, heq⟩ := vhostUserRecvFds_header msg fdNum hn hcut
        rw [heq]
        cases hm : p.read n (p.fill msg n).size with
        | none =>
            by_cases hsize : (p.fill msg n).size = 2 ^ 32 - 1
            · rw [recvPayload_failed hm, if_pos hsize]
              exact Or.inr (Or.inl ⟨n, _, fds, rfl, hn, Or.inl ⟨hm, rfl, hsize⟩⟩)
            · exact Or.inl (.noPayload n hn hm hsize)
        | some m =>
            by_cases hfits : n + m ≤ sizeofMsg
            · by_cases hsize : m = (p.fill msg (n + m)).size
              · rw [recvPayload_fits hm hfits, if_pos hsize]
                exact Or.inr (Or.inl ⟨n, _, fds, rfl, hn, Or.inr ⟨m, hm, rfl, hsize⟩⟩)
              · exact Or.inl (.incomplete n m hn hm hfits hsize)
            · have hover := Nat.not_le.mp hfits
              rw [recvPayload_overrun hm hover]
              exact Or.inr (Or.inr ⟨rfl, n, m, hn, hm, hover⟩)

end VhostUser.Client
