import VhostUser.Client.Message

/-! # Shared memory regions

The memory that is shared with the server is a few files in huge pages, found by
`init_shared_mem`. `get_memory_info` describes them in the table that goes to the server and
`get_memory_fds` opens them, in the same order.
-/

namespace VhostUser.Shm

open VhostUser.Lib VhostUser.Client

structure HugepageFileInfo where
  addr : UInt64
  size : UInt64
  path : List Char
  deriving Repr, DecidableEq

structure Hugepages where
  files : List HugepageFileInfo
  length_le : files.length ≤ vhostMemoryMaxNregions

/-! ## The table -/

/-- Where the `i`th region is in a `VhostUserMemory`. -/
def regionPos (i : Nat) : Nat := 8 + i * sizeofMemoryRegion

def storeRegion (memory : Bytes) (i : Nat) (file : HugepageFileInfo) : Bytes :=
  (((memory.storeLe 8 (regionPos i) file.addr.toNat).storeLe 8 (regionPos i + 16)
    file.addr.toNat).storeLe 8 (regionPos i + 8) file.size.toNat).storeLe 8 (regionPos i + 24) 0

def getMemoryInfoFrom : List HugepageFileInfo → Nat → Bytes → Bytes
  | [], _, memory => memory
  | file :: files, i, memory => getMemoryInfoFrom files (i + 1) (storeRegion memory i file)

/-- `get_memory_info`; what it does not store stays as it was in `memory`. -/
def getMemoryInfo (huges : Hugepages) (memory : Bytes) : Bytes :=
  getMemoryInfoFrom huges.files 0 (memory.storeLe 4 0 huges.files.length)

/-! ## The descriptors -/

/-- `opens i` is what `open` returns for the file of the `i`th region. -/
def getMemoryFdsFrom (opens : Nat → Int) : Nat → Nat → Option (List Int)
  | 0, _ => some []
  | n + 1, i =>
      if opens i < 0 then none else (getMemoryFdsFrom opens n (i + 1)).map (opens i :: ·)

/-- `get_memory_fds` for at most `size` descriptors; -1 is `none`. -/
def getMemoryFds (huges : Hugepages) (opens : Nat → Int) (size : Nat) : Option (List Int) :=
  getMemoryFdsFrom opens (min size huges.files.length) 0

/-! ## What is in the table -/

structure MemoryRegion where
  guestPhysAddr : Nat
  memorySize : Nat
  userspaceAddr : Nat
  mmapOffset : Nat
  deriving Repr, DecidableEq

def HugepageFileInfo.region (file : HugepageFileInfo) : MemoryRegion :=
  ⟨file.addr.toNat, file.size.toNat, file.addr.toNat, 0⟩

def region (memory : Bytes) (i : Nat) : MemoryRegion :=
  ⟨memory.loadLe 8 (regionPos i), memory.loadLe 8 (regionPos i + 8),
    memory.loadLe 8 (regionPos i + 16), memory.loadLe 8 (regionPos i + 24)⟩

def regionsOf (memory : Bytes) : List MemoryRegion :=
  (List.range (memory.loadLe 4 0)).map (region memory)

variable {memory memory' : Bytes} {file : HugepageFileInfo} {files : List HugepageFileInfo}
  {i j n x : Nat} {opens : Nat → Int} {fds : List Int}

theorem storeRegion_outside (h : x < regionPos i ∨ regionPos (i + 1) ≤ x) :
    storeRegion memory i file x = memory x := by
  have hnext : regionPos (i + 1) = regionPos i + 32 := by
    simp only [regionPos, sizeofMemoryRegion]
    omega
  unfold storeRegion Bytes.storeLe
  rw [Bytes.patch_outside _ _ (by omega), Bytes.patch_outside _ _ (by omega),
    Bytes.patch_outside _ _ (by omega), Bytes.patch_outside _ _ (by omega)]

theorem region_congr (h : ∀ x, regionPos i ≤ x → x < regionPos (i + 1) → memory x = memory' x) :
    region memory i = region memory' i := by
  have hnext : regionPos (i + 1) = regionPos i + 32 := by
    simp only [regionPos, sizeofMemoryRegion]
    omega
  have hload : ∀ k, k + 8 ≤ 32 →
      memory.loadLe 8 (regionPos i + k) = memory'.loadLe 8 (regionPos i + k) := fun k hk =>
    Bytes.loadLe_congr 8 fun x hx hx' => h x (by omega) (by omega)
  have hfirst := hload 0 (by decide)
  rw [Nat.add_zero] at hfirst
  rw [region, region, hfirst, hload 8 (by decide), hload 16 (by decide), hload 24 (by decide)]

theorem region_storeRegion : region (storeRegion memory i file) i = file.region := by
  have hlt : ∀ v : UInt64, v.toNat % 256 ^ 8 = v.toNat := fun v => Nat.mod_eq_of_lt v.toNat_lt
  have hkeep : ∀ (m : Bytes) (pos pos' v : Nat), pos' + 8 ≤ pos ∨ pos + 8 ≤ pos' →
      (m.storeLe 8 pos v).loadLe 8 pos' = m.loadLe 8 pos' := fun m _ _ _ h =>
    Bytes.loadLe_storeLe_disjoint 8 8 m h
  have haddr : (storeRegion memory i file).loadLe 8 (regionPos i) = file.addr.toNat := by
    rw [storeRegion, hkeep _ _ _ _ (by omega), hkeep _ _ _ _ (by omega), hkeep _ _ _ _ (by omega),
      Bytes.loadLe_storeLe, hlt]
  have hsize : (storeRegion memory i file).loadLe 8 (regionPos i + 8) = file.size.toNat := by
    rw [storeRegion, hkeep _ _ _ _ (by omega), Bytes.loadLe_storeLe, hlt]
  have huser : (storeRegion memory i file).loadLe 8 (regionPos i + 16) = file.addr.toNat := by
    rw [storeRegion, hkeep _ _ _ _ (by omega), hkeep _ _ _ _ (by omega), Bytes.loadLe_storeLe, hlt]
  have hoffset : (storeRegion memory i file).loadLe 8 (regionPos i + 24) = 0 := by
    rw [storeRegion, Bytes.loadLe_storeLe, Nat.zero_mod]
  rw [region, haddr, hsize, huser, hoffset]
  rfl

theorem getMemoryInfoFrom_outside (h : x < regionPos i) :
    getMemoryInfoFrom files i memory x = memory x := by
  induction files generalizing i memory with
  | nil => rfl
  | cons file files ih =>
      have hnext : regionPos i ≤ regionPos (i + 1) := by
        simp only [regionPos, sizeofMemoryRegion]
        omega
      rw [getMemoryInfoFrom, ih (by omega), storeRegion_outside (Or.inl h)]

theorem region_getMemoryInfoFrom (h : files[j]? = some file) :
    region (getMemoryInfoFrom files i memory) (i + j) = file.region := by
  induction files generalizing i j memory with
  | nil => cases h
  | cons file' files ih =>
      rw [getMemoryInfoFrom]
      cases j with
      | zero =>
          cases Option.some.inj h
          have hlater : region (getMemoryInfoFrom files (i + 1) (storeRegion memory i file)) i =
              region (storeRegion memory i file) i :=
            region_congr fun x _ hx => getMemoryInfoFrom_outside hx
          exact hlater.trans region_storeRegion
      | succ j =>
          have hj : files[j]? = some file := h
          rw [show i + (j + 1) = i + 1 + j by omega]
          exact ih hj

theorem count_getMemoryInfo (huges : Hugepages) (memory : Bytes) :
    (getMemoryInfo huges memory).loadLe 4 0 = huges.files.length := by
  have hkeep : (getMemoryInfo huges memory).loadLe 4 0 =
      (memory.storeLe 4 0 huges.files.length).loadLe 4 0 :=
    Bytes.loadLe_congr 4 fun x _ hx => getMemoryInfoFrom_outside (by
      simp only [regionPos]
      omega)
  rw [hkeep, Bytes.loadLe_storeLe]
  exact Nat.mod_eq_of_lt (Nat.lt_of_le_of_lt huges.length_le (by decide))

/-- The table has a region for each file, whatever was in the memory before. -/
theorem regionsOf_getMemoryInfo (huges : Hugepages) (memory : Bytes) :
    regionsOf (getMemoryInfo huges memory) = huges.files.map HugepageFileInfo.region := by
  rw [regionsOf, count_getMemoryInfo]
  refine List.ext_getElem? fun j => ?_
  rw [List.getElem?_map, List.getElem?_map]
  cases hj : huges.files[j]? with
  | none =>
      rw [List.getElem?_eq_none (by
        rw [List.length_range]
        exact List.getElem?_eq_none_iff.mp hj)]
      rfl
  | some file =>
      have hlt : j < huges.files.length := (List.getElem?_eq_some_iff.mp hj).1
      rw [List.getElem?_range hlt, Option.map_some, Option.map_some, getMemoryInfo]
      have hregion : region (getMemoryInfoFrom huges.files 0 (memory.storeLe 4 0 huges.files.length))
          (0 + j) = file.region := region_getMemoryInfoFrom hj
      rw [Nat.zero_add] at hregion
      rw [hregion]

theorem getMemoryFdsFrom_eq (h : getMemoryFdsFrom opens n i = some fds) :
    fds = (List.range' i n).map opens := by
  induction n generalizing i fds with
  | zero =>
      cases h
      rfl
  | succ n ih =>
      rw [getMemoryFdsFrom] at h
      split at h
      · cases h
      · obtain ⟨rest, hrest, rfl⟩ := Option.map_eq_some_iff.mp h
        rw [ih hrest, List.range'_succ, List.map_cons]

theorem getMemoryFds_eq {huges : Hugepages}
    (h : getMemoryFds huges opens vhostMemoryMaxNregions = some fds) :
    fds = (List.range huges.files.length).map opens := by
  rw [getMemoryFdsFrom_eq h, Nat.min_eq_right huges.length_le, List.range_eq_range']

end VhostUser.Shm
