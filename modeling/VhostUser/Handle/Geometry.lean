import VhostUser.Dev.Division
import VhostUser.Handle.Account

/-! # The geometry of the device

`send_read_cap` believes what the device answers to READ CAPACITY. The block size of the
answer becomes an `int`, and the capacity is a product of `size_t`. All reads and writes
rely on both, and none of them looks at them again.
-/

namespace VhostUser.Handle

open VhostUser.Lib Ledger Prog

/-- What reads and writes rely on, for a device whose last block is `lastLba`. -/
structure Sound (lastLba : Nat) (dev : Dev.VirtioDev) : Prop where
  blockSize : 0 < toInt dev.blockSize
  numBlocks : dev.numBlocks = lastLba + 1
  cap : (dev.cap : Int) = toInt dev.blockSize * dev.numBlocks
  /-- the callbacks divide by what the submission before them has divided by already -/
  divides : ∀ w : Dev.World, w.dev = dev → ∀ device io offset nbytes os,
    Dev.readVirtioDev device io offset nbytes (w, os) ≠ .error .divideByZero ∧
      Dev.writeVirtioDev device io offset nbytes (w, os) ≠ .error .divideByZero ∧
      Dev.virtioSubmit io (w, os) ≠ .error .divideByZero
  block : ∀ offset < dev.cap, offset / dev.blockSize < dev.numBlocks

/-- A last block and a block size that the handle can represent. -/
def Representable (lastLba blockSize : Nat) : Prop :=
  0 < blockSize ∧ blockSize < 2 ^ 31 ∧ (lastLba + 1) * blockSize < 2 ^ 64

section

variable {payload : Bytes}

@[simp] theorem readCapacity_blockSize :
    (readCapacity payload).blockSize = toSize (toInt (Dev.fromBe32 payload 8)) := by
  simp only [readCapacity]

/-- A block size below `2 ^ 31` is kept as it is. -/
theorem toSize_toInt {n : Nat} (h : n < 2 ^ 31) : toSize (toInt n) = n := by
  rw [toInt_eq (by omega) (by omega), toSize_eq (by omega) (by omega), Int.toNat_natCast]

theorem readCapacity_of_representable
    (h : Representable (Dev.fromBe64 payload 0) (Dev.fromBe32 payload 8)) :
    readCapacity payload = ⟨Dev.fromBe32 payload 8, Dev.fromBe64 payload 0 + 1,
      (Dev.fromBe64 payload 0 + 1) * Dev.fromBe32 payload 8⟩ := by
  obtain ⟨hpos, hint, hcap⟩ := h
  unfold readCapacity
  generalize Dev.fromBe64 payload 0 = lastLba at *
  generalize Dev.fromBe32 payload 8 = size at *
  have hblocks : lastLba + 1 < 2 ^ 64 := Nat.lt_of_le_of_lt (Nat.le_mul_of_pos_right _ hpos) hcap
  have hnum : Dev.addSize lastLba 1 = lastLba + 1 := Nat.mod_eq_of_lt hblocks
  have hmul : Dev.mulSize size (lastLba + 1) = (lastLba + 1) * size := by
    rw [Dev.mulSize, Nat.mul_comm, Nat.mod_eq_of_lt hcap]
  simp only [toSize_toInt hint, hnum, hmul]

theorem Representable.sound {lastLba size : Nat} (h : Representable lastLba size) :
    Sound lastLba ⟨size, lastLba + 1, (lastLba + 1) * size⟩ := by
  obtain ⟨hpos, hint, -⟩ := h
  have hsize : toInt size = size := toInt_eq (by omega) (by omega)
  have hne : size ≠ 0 := by omega
  refine ⟨?_, rfl, ?_, fun w hw device io offset nbytes os => ⟨?_, ?_, ?_⟩, fun offset hoff => ?_⟩
  · rw [hsize]
    omega
  · rw [hsize, Int.mul_comm]
    rfl
  · exact Dev.readVirtioDev_divides (by rw [hw]; exact hne) device offset nbytes os
  · exact Dev.writeVirtioDev_divides (by rw [hw]; exact hne) device offset nbytes os
  · exact Dev.virtioSubmit_divides (by rw [hw]; exact hne) os
  · exact Nat.div_lt_of_lt_mul (by rw [Nat.mul_comm]; exact hoff)

/-- A block size with the highest bit set is negative in the handle. -/
theorem size_of_sound {lastLba : Nat} (h : Sound lastLba (readCapacity payload)) :
    0 < Dev.fromBe32 payload 8 ∧ Dev.fromBe32 payload 8 < 2 ^ 31 := by
  have hlt : Dev.fromBe32 payload 8 < 2 ^ 32 := Bytes.loadBe_lt 4 payload 8
  have hpos := h.blockSize
  rw [readCapacity_blockSize, toInt_toSize, toInt_toInt] at hpos
  generalize Dev.fromBe32 payload 8 = size at *
  refine ⟨Nat.pos_of_ne_zero fun hzero => ?_, Nat.lt_of_not_le fun hhigh => ?_⟩
  · rw [hzero] at hpos
    exact absurd hpos (by decide)
  · rw [toInt_of_high (by omega) (by omega)] at hpos
    omega

theorem representable_of_sound (h : Sound (Dev.fromBe64 payload 0) (readCapacity payload)) :
    Representable (Dev.fromBe64 payload 0) (Dev.fromBe32 payload 8) := by
  obtain ⟨hpos, hint⟩ := size_of_sound h
  refine ⟨hpos, hint, ?_⟩
  have hcap := h.cap
  rw [h.numBlocks, readCapacity_blockSize, toSize_toInt hint, toInt_eq (by omega) (by omega), Int.mul_comm] at hcap
  have hexact : (readCapacity payload).cap =
      (Dev.fromBe64 payload 0 + 1) * Dev.fromBe32 payload 8 := Int.ofNat.inj hcap
  have hlt : (readCapacity payload).cap < 2 ^ 64 := Nat.mod_lt _ (by decide)
  rw [hexact] at hlt
  exact hlt

/-- The handle that `send_read_cap` fills is fit for reads and writes exactly if the block
size is positive as an `int` and the capacity has at most 64 bits. -/
theorem geometry_sound_iff (s : Surroundings) (held held' : Multiset Resource)
    (os os' : List Empty) (dev : Dev.VirtioDev)
    (h : sendReadCap s (held, os) = .ok (some dev, held', os')) :
    Sound (Dev.fromBe64 s.payload 0) dev ↔
      Representable (Dev.fromBe64 s.payload 0) (Dev.fromBe32 s.payload 8) := by
  have hspec : Opens True (sendReadCap s)
      (fun geometry _ => ∀ g ∈ geometry, g = readCapacity s.payload) held :=
    opens_sendReadCap trivial fun geometry hgeometry _ => hgeometry
  have hdev : dev = readCapacity s.payload :=
    hspec.result (fun _ _ => trivial) h dev rfl
  rw [hdev]
  refine ⟨representable_of_sound, fun hrep => ?_⟩
  rw [readCapacity_of_representable hrep]
  exact hrep.sound

end

/-! ## Two answers -/

theorem sendReadCap_allGood (payload : Bytes) : ∃ held os,
    sendReadCap { allGood with payload := payload } (0, []) =
      .ok (some (readCapacity payload), held, os) := ⟨_, _, rfl⟩

theorem geometry_sound_iff_fourBlocks : ∃ dev held os,
    sendReadCap { allGood with payload := fourBlocks } (0, []) = .ok (some dev, held, os) ∧
      Sound 3 dev := by
  obtain ⟨held, os, h⟩ := sendReadCap_allGood fourBlocks
  exact ⟨_, held, os, h, (geometry_sound_iff _ 0 held [] os _ h).mpr ⟨by decide, by decide, by decide⟩⟩

/-- Blocks without bytes: the first read of a byte divides by zero. -/
theorem zero_blockSize_divides : ∃ dev held os,
    sendReadCap { allGood with payload := fun _ => 0 } (0, []) = .ok (some dev, held, os) ∧
      ¬ Sound 0 dev ∧ ∀ device, Dev.readVirtioDev device 0 0 1 (Dev.init dev (fun _ => 0), []) =
        .error .divideByZero := by
  obtain ⟨held, os, h⟩ := sendReadCap_allGood fun _ => 0
  have hsize : Dev.fromBe32 (fun _ => 0) 8 = 0 := by decide
  have hzero : (readCapacity fun _ => 0).blockSize = 0 := by
    rw [readCapacity_blockSize, hsize]
    decide
  refine ⟨_, held, os, h, fun hsound => ?_, fun device =>
    Dev.readVirtioDev_by_zero (w := Dev.init (readCapacity fun _ => 0) fun _ => 0) hzero device
      (Nat.zero_le _) Nat.one_ne_zero []⟩
  have hpos := hsound.blockSize
  rw [hzero] at hpos
  exact absurd hpos (by decide)

end VhostUser.Handle
