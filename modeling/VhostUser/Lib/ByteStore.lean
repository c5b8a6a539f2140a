import VhostUser.Lib.Bytes
import VhostUser.Lib.Simulation

/-! # A store of bytes

What a block device looks like to its user: bytes at the offsets below a capacity, and calls
that read or write a range of them. A call tells how many bytes it has transferred, and it may
transfer fewer than it was asked for, or fail. A write that fails may have stored a part of its
bytes nevertheless.

The content of a store after a run is what the writes of the run have left, so it is read off
the calls: each byte is the one that was stored last.
-/

namespace VhostUser.Lib

namespace ByteStore

/-- A call as it has ended: its range, its result, and the bytes. -/
inductive Event where
  | read (off n : Nat) (r : Int) (data : Bytes)
  /-- the first `stored` bytes of `data` are in the store now -/
  | write (off n : Nat) (r : Int) (data : Bytes) (stored : Nat)

/-- The bytes of a range that lie within the store. -/
def within (cap off n : Nat) : Nat := min n (cap - off)

/-- What a call may do on a store that contains `m`. -/
def Event.Allowed (cap : Nat) (m : Bytes) : Event → Prop
  | .read off n r data =>
      (0 ≤ r → off ≤ cap ∧ r ≤ within cap off n) ∧ ∀ k < r.toNat, data k = m (off + k)
  | .write off n r _ stored => stored ≤ within cap off n ∧ (0 ≤ r → off ≤ cap ∧ r = stored)

instance (cap : Nat) (m : Bytes) (e : Event) : Decidable (e.Allowed cap m) := by
  cases e
  · exact inferInstanceAs (Decidable (_ ∧ _))
  · exact inferInstanceAs (Decidable (_ ∧ _))

def Event.apply (m : Bytes) : Event → Bytes
  | .read _ _ _ _ => m
  | .write off _ _ data stored => m.patch off stored data

/-- All of the range that lies within the store was transferred. -/
def Event.Complete (cap : Nat) : Event → Prop
  | .read off n r _ => off ≤ cap → r = within cap off n
  | .write off n r _ _ => off ≤ cap → r = within cap off n

def step (cap : Nat) (m : Bytes) (e : Event) : Option Bytes :=
  if e.Allowed cap m then some (e.apply m) else none

def machine (cap : Nat) (m : Bytes) : Machine Bytes Event := ⟨m, step cap⟩

/-- What the calls leave at offset `x`, where `v` was before. -/
def lastStored (x : Nat) (v : UInt8) : List Event → UInt8
  | [] => v
  | .read _ _ _ _ :: es => lastStored x v es
  | .write off _ _ data stored :: es =>
      lastStored x (if off ≤ x ∧ x < off + stored then data (x - off) else v) es

variable {cap : Nat} {m m' disk : Bytes} {es es' : List Event}

theorem step_eq {e : Event} (h : (machine cap disk).step m e = some m') :
    e.Allowed cap m ∧ m' = e.apply m := by
  change step cap m e = some m' at h
  unfold step at h
  split at h
  · next hok =>
      cases h
      exact ⟨hok, rfl⟩
  · cases h

theorem step_allowed {e : Event} (h : e.Allowed cap m) :
    (machine cap disk).step m e = some (e.apply m) := if_pos h

/-- The content of the store is what its calls have left. -/
theorem run_lastStored (h : (machine cap disk).Path (fun _ _ => True) m es m') (x : Nat) :
    m' x = lastStored x (m x) es := by
  induction h with
  | nil => rfl
  | @cons m m₁ m' e es _ hs _ ih =>
      obtain ⟨-, rfl⟩ := step_eq hs
      rw [ih]
      cases e with
      | read off n r data => rfl
      | write off n r data stored => rfl

/-- What a read returns is what was stored last. -/
theorem read_lastStored {off n : Nat} {r : Int} {data : Bytes}
    (h : (machine cap disk).Path (fun _ _ => True) m (es ++ .read off n r data :: es') m') :
    ∀ k < r.toNat, data k = lastStored (off + k) (m (off + k)) es := by
  intro k hk
  obtain ⟨m₁, hfirst, hrest⟩ := h.split
  cases hrest with
  | cons _ hs _ =>
      obtain ⟨⟨-, hdata⟩, -⟩ := step_eq hs
      rw [hdata k hk, run_lastStored hfirst]

end ByteStore

end VhostUser.Lib
