import VhostUser.Lib.Bytes

/-! # The SCSI commands of the read and write paths

`create_rw_cdb` chooses the form of a command from the size of the device alone
and narrows the block address and the block count to the fields of that form.
Decoding the command tells when nothing was lost on the way.
-/

namespace VhostUser.Dev

open VhostUser.Lib

/-- The geometry kept in `struct virtio_dev`. -/
structure VirtioDev where
  blockSize : Nat
  numBlocks : Nat
  cap : Nat
  deriving Repr, DecidableEq

/-- `struct virtio_scsi_cmd_req`, as far as it is ever written. -/
structure VirtioScsiCmdReq where
  lun : Bytes
  cdb : Bytes

def VirtioScsiCmdReq.zero : VirtioScsiCmdReq := ⟨fun _ => 0, fun _ => 0⟩

def targetId : UInt8 := 1

def lunId : UInt8 := 0

def spdkSbcRead10 : UInt8 := 0x28

def spdkSbcWrite10 : UInt8 := 0x2a

def spdkSbcRead16 : UInt8 := 0x88

def spdkSbcWrite16 : UInt8 := 0x8a

/-! The parameter of each store is narrowed to the type it has in the source. -/

def toBe16 (m : Bytes) (pos v : Nat) : Bytes := m.storeBe 2 pos (v % 2 ^ 16)

def toBe32 (m : Bytes) (pos v : Nat) : Bytes := m.storeBe 4 pos (v % 2 ^ 32)

def toBe64 (m : Bytes) (pos v : Nat) : Bytes := m.storeBe 8 pos (v % 2 ^ 64)

def fromBe16 (m : Bytes) (pos : Nat) : Nat := m.loadBe 2 pos

def fromBe32 (m : Bytes) (pos : Nat) : Nat := m.loadBe 4 pos

def fromBe64 (m : Bytes) (pos : Nat) : Nat := m.loadBe 8 pos

def createRwCdb (dev : VirtioDev) (req : VirtioScsiCmdReq) (offsetBlocks numBlocks : Nat)
    (isWrite : Bool) : VirtioScsiCmdReq :=
  let lun := Function.update (Function.update req.lun 0 targetId) 1 lunId
  if dev.numBlocks > 2 ^ 32 then
    let cdb := Function.update req.cdb 0 (if isWrite then spdkSbcWrite16 else spdkSbcRead16)
    ⟨lun, toBe32 (toBe64 cdb 2 offsetBlocks) 10 numBlocks⟩
  else
    let cdb := Function.update req.cdb 0 (if isWrite then spdkSbcWrite10 else spdkSbcRead10)
    ⟨lun, toBe16 (toBe32 cdb 2 offsetBlocks) 7 numBlocks⟩

/-! ## What the device reads -/

structure RwCommand where
  isWrite : Bool
  lba : Nat
  count : Nat
  deriving Repr, DecidableEq

def decodeCdb (cdb : Bytes) : Option RwCommand :=
  if cdb 0 = spdkSbcRead10 then some ⟨false, fromBe32 cdb 2, fromBe16 cdb 7⟩
  else if cdb 0 = spdkSbcWrite10 then some ⟨true, fromBe32 cdb 2, fromBe16 cdb 7⟩
  else if cdb 0 = spdkSbcRead16 then some ⟨false, fromBe64 cdb 2, fromBe32 cdb 10⟩
  else if cdb 0 = spdkSbcWrite16 then some ⟨true, fromBe64 cdb 2, fromBe32 cdb 10⟩
  else none

@[simp] theorem fromBe16_toBe16 (m : Bytes) (pos v : Nat) :
    fromBe16 (toBe16 m pos v) pos = v % 2 ^ 16 := by
  rw [fromBe16, toBe16, Bytes.loadBe_storeBe, Nat.mod_mod]

@[simp] theorem fromBe32_toBe32 (m : Bytes) (pos v : Nat) :
    fromBe32 (toBe32 m pos v) pos = v % 2 ^ 32 := by
  rw [fromBe32, toBe32, Bytes.loadBe_storeBe, Nat.mod_mod]

@[simp] theorem fromBe64_toBe64 (m : Bytes) (pos v : Nat) :
    fromBe64 (toBe64 m pos v) pos = v % 2 ^ 64 := by
  rw [fromBe64, toBe64, Bytes.loadBe_storeBe, Nat.mod_mod]

/-- The width of the block count in the form that is chosen. -/
def countBits (dev : VirtioDev) : Nat := if dev.numBlocks > 2 ^ 32 then 32 else 16

/-- The width of the block address in the form that is chosen. -/
def lbaBits (dev : VirtioDev) : Nat := if dev.numBlocks > 2 ^ 32 then 64 else 32

theorem one_mod_countBits (dev : VirtioDev) : 1 % 2 ^ countBits dev = 1 := by
  unfold countBits
  split <;> rfl

/-- A CDB with the opcode of the 10-byte form is read as that form. -/
theorem decodeCdb_of_form10 {cdb : Bytes} (isWrite : Bool)
    (hop : cdb 0 = if isWrite then spdkSbcWrite10 else spdkSbcRead10) :
    decodeCdb cdb = some ⟨isWrite, fromBe32 cdb 2, fromBe16 cdb 7⟩ := by
  unfold decodeCdb
  rw [hop]
  cases isWrite with
  | false => rfl
  | true => rfl

/-- A CDB with the opcode of the 16-byte form is read as that form. -/
theorem decodeCdb_of_form16 {cdb : Bytes} (isWrite : Bool)
    (hop : cdb 0 = if isWrite then spdkSbcWrite16 else spdkSbcRead16) :
    decodeCdb cdb = some ⟨isWrite, fromBe64 cdb 2, fromBe32 cdb 10⟩ := by
  unfold decodeCdb
  rw [hop]
  cases isWrite with
  | false => rfl
  | true => rfl

theorem decodeCdb_createRwCdb (dev : VirtioDev) (req : VirtioScsiCmdReq) (lba n : Nat)
    (isWrite : Bool) : decodeCdb (createRwCdb dev req lba n isWrite).cdb =
      some ⟨isWrite, lba % 2 ^ lbaBits dev, n % 2 ^ countBits dev⟩ := by
  unfold createRwCdb lbaBits countBits
  by_cases hbig : dev.numBlocks > 2 ^ 32
  · have hop : ∀ m : Bytes, toBe32 (toBe64 m 2 lba) 10 n 0 = m 0 := fun m => by
      rw [toBe32, Bytes.storeBe_outside _ _ (by omega), toBe64,
        Bytes.storeBe_outside _ _ (by omega)]
    have hlba : ∀ m : Bytes, fromBe64 (toBe32 m 10 n) 2 = fromBe64 m 2 := fun m =>
      Bytes.loadBe_storeBe_disjoint 4 8 m (by omega)
    simp only [if_pos hbig]
    rw [decodeCdb_of_form16 isWrite (by rw [hop, Function.update_self]), hlba, fromBe64_toBe64,
      fromBe32_toBe32]
  · have hop : ∀ m : Bytes, toBe16 (toBe32 m 2 lba) 7 n 0 = m 0 := fun m => by
      rw [toBe16, Bytes.storeBe_outside _ _ (by omega), toBe32,
        Bytes.storeBe_outside _ _ (by omega)]
    have hlba : ∀ m : Bytes, fromBe32 (toBe16 m 7 n) 2 = fromBe32 m 2 := fun m =>
      Bytes.loadBe_storeBe_disjoint 2 4 m (by omega)
    simp only [if_neg hbig]
    rw [decodeCdb_of_form10 isWrite (by rw [hop, Function.update_self]), hlba, fromBe32_toBe32,
      fromBe16_toBe16]

theorem lba_lt (dev : VirtioDev) (hsize : dev.numBlocks < 2 ^ 64) {lba n : Nat} (hn : 1 ≤ n)
    (hle : lba + n ≤ dev.numBlocks) : lba < 2 ^ lbaBits dev := by
  unfold lbaBits
  split
  · omega
  · omega

/-- The command carries the request exactly if its block count fits: below
`2 ^ 16` up to a device of `2 ^ 32` blocks, and below `2 ^ 32` beyond. -/
theorem createRwCdb_exact_iff (dev : VirtioDev) (hsize : dev.numBlocks < 2 ^ 64) (lba n : Nat)
    (hn : 1 ≤ n) (hle : lba + n ≤ dev.numBlocks) (isWrite : Bool) :
    decodeCdb (createRwCdb dev .zero lba n isWrite).cdb = some ⟨isWrite, lba, n⟩ ↔
      (dev.numBlocks ≤ 2 ^ 32 → n < 2 ^ 16) ∧ (2 ^ 32 < dev.numBlocks → n < 2 ^ 32) := by
  rw [decodeCdb_createRwCdb, Nat.mod_eq_of_lt (lba_lt dev hsize hn hle)]
  simp only [Option.some.injEq, RwCommand.mk.injEq, true_and]
  unfold countBits
  split
  · constructor
    · intro h
      exact ⟨fun _ => by omega, fun _ => h ▸ Nat.mod_lt n (by decide)⟩
    · rintro ⟨-, h⟩
      exact Nat.mod_eq_of_lt (h (by omega))
  · constructor
    · intro h
      exact ⟨fun _ => h ▸ Nat.mod_lt n (by decide), fun _ => by omega⟩
    · rintro ⟨h, -⟩
      exact Nat.mod_eq_of_lt (h (by omega))

def halfGiB : VirtioDev := ⟨512, 2 ^ 20, 2 ^ 29⟩

theorem createRwCdb_exact_small :
    decodeCdb (createRwCdb halfGiB .zero 7 65535 true).cdb = some ⟨true, 7, 65535⟩ :=
  (createRwCdb_exact_iff halfGiB (by decide) 7 65535 (by decide) (by decide) true).mpr
    ⟨fun _ => by decide, fun h => absurd h (by decide)⟩

/-- A write of 65536 blocks at the start of the device asks for no block at all. -/
theorem createRwCdb_count_lost :
    1 ≤ 65536 ∧ 0 + 65536 ≤ halfGiB.numBlocks ∧
      decodeCdb (createRwCdb halfGiB .zero 0 65536 true).cdb = some ⟨true, 0, 0⟩ ∧
      decodeCdb (createRwCdb halfGiB .zero 0 65536 true).cdb ≠ some ⟨true, 0, 65536⟩ := by
  refine ⟨by decide, by decide, ?_, ?_⟩ <;> decide

end VhostUser.Dev
