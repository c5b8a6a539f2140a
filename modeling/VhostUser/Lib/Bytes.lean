import Mathlib.Algebra.Group.Nat.Defs
import Mathlib.Logic.Function.Basic

/-! # Byte-addressed memory

Memory from some base address on is a function from offsets to bytes. Two
operations on it: copying a range of bytes in, and storing a number in big-endian
or little-endian order. Loading what was stored gives the number back, reduced to
the width.
-/

namespace VhostUser.Lib

abbrev Bytes := Nat → UInt8

namespace Bytes

/-- Copy `len` bytes of `src` to offset `pos`. -/
def patch (m : Bytes) (pos len : Nat) (src : Bytes) : Bytes :=
  fun x => if pos ≤ x ∧ x < pos + len then src (x - pos) else m x

theorem patch_inside (m src : Bytes) {pos len x : Nat} (h : pos ≤ x) (h' : x < pos + len) :
    m.patch pos len src x = src (x - pos) := if_pos ⟨h, h'⟩

theorem patch_outside (m src : Bytes) {pos len x : Nat} (h : x < pos ∨ pos + len ≤ x) :
    m.patch pos len src x = m x := by
  refine if_neg fun hx => ?_
  omega

theorem patch_zero (m src : Bytes) (pos : Nat) : m.patch pos 0 src = m := by
  funext x
  exact patch_outside _ _ (by omega)

theorem patch_append (m src : Bytes) (pos a b : Nat) :
    (m.patch pos a src).patch (pos + a) b (fun k => src (a + k)) = m.patch pos (a + b) src := by
  funext x
  unfold patch
  by_cases hx : pos + a ≤ x ∧ x < pos + a + b
  · rw [if_pos hx, if_pos (by omega)]
    show src (a + (x - (pos + a))) = src (x - pos)
    congr 1
    omega
  · rw [if_neg hx]
    by_cases hx' : pos ≤ x ∧ x < pos + a
    · rw [if_pos hx', if_pos (by omega)]
    · rw [if_neg hx', if_neg (by omega)]

/-- A copy changes nothing if the bytes are there already. -/
theorem patch_eq_self_iff (m src : Bytes) (pos len : Nat) :
    m.patch pos len src = m ↔ ∀ k < len, src k = m (pos + k) := by
  constructor
  · intro h k hk
    have hx := congrFun h (pos + k)
    rw [patch_inside _ _ (Nat.le_add_right ..) (by omega), Nat.add_sub_cancel_left] at hx
    exact hx
  · intro h
    funext x
    by_cases hx : pos ≤ x ∧ x < pos + len
    · rw [patch_inside _ _ hx.1 hx.2, h _ (by omega)]
      congr 1
      omega
    · exact patch_outside _ _ (by omega)

theorem patch_congr (m : Bytes) {pos len : Nat} {src src' : Bytes}
    (h : ∀ k < len, src k = src' k) : m.patch pos len src = m.patch pos len src' := by
  funext x
  unfold Bytes.patch
  split
  · exact h _ (by omega)
  · rfl

/-- Copy each of the ranges in, by position, length and content. -/
def patchAll (m : Bytes) : List (Nat × Nat × Bytes) → Bytes
  | [] => m
  | (pos, len, src) :: ranges => (m.patch pos len src).patchAll ranges

theorem patchAll_at {m m' : Bytes} {ranges : List (Nat × Nat × Bytes)} {x : Nat}
    (hin : ∀ r ∈ ranges, r.1 ≤ x → x < r.1 + r.2.1 → m' x = r.2.2 (x - r.1))
    (hx : m x = m' x ∨ ∃ r ∈ ranges, r.1 ≤ x ∧ x < r.1 + r.2.1) : m.patchAll ranges x = m' x := by
  induction ranges generalizing m with
  | nil =>
      rcases hx with hx | ⟨r, hr, -⟩
      · exact hx
      · exact absurd hr List.not_mem_nil
  | cons r ranges ih =>
      obtain ⟨pos, len, src⟩ := r
      refine ih (fun r hr => hin r (List.mem_cons_of_mem _ hr)) ?_
      by_cases hrange : pos ≤ x ∧ x < pos + len
      · rw [patch_inside _ _ hrange.1 hrange.2]
        exact Or.inl (hin _ (List.mem_cons_self ..) hrange.1 hrange.2).symm
      · rw [patch_outside _ _ (by omega)]
        rcases hx with hx | ⟨r, hr, hlo, hhi⟩
        · exact Or.inl hx
        · rcases List.mem_cons.mp hr with rfl | hr
          · exact absurd ⟨hlo, hhi⟩ hrange
          · exact Or.inr ⟨r, hr, hlo, hhi⟩

/-- Memory that has all the ranges and is as before outside of them is the result of copying them
in. -/
theorem eq_patchAll {m m' : Bytes} {ranges : List (Nat × Nat × Bytes)}
    (hin : ∀ r ∈ ranges, ∀ k < r.2.1, m' (r.1 + k) = r.2.2 k)
    (hout : ∀ x, (∀ r ∈ ranges, x < r.1 ∨ r.1 + r.2.1 ≤ x) → m' x = m x) :
    m' = m.patchAll ranges := by
  funext x
  refine (patchAll_at (fun r hr hlo hhi => ?_) ?_).symm
  · have hbyte := hin r hr (x - r.1) (by omega)
    rwa [Nat.add_sub_cancel' hlo] at hbyte
  · by_cases h : ∃ r ∈ ranges, r.1 ≤ x ∧ x < r.1 + r.2.1
    · exact Or.inr h
    · refine Or.inl (hout x fun r hr => ?_).symm
      by_contra hne
      exact h ⟨r, hr, by omega, by omega⟩

/-- Store the low `n` bytes of `v` at `pos`, the most significant first. -/
def storeBe : Nat → Bytes → Nat → Nat → Bytes
  | 0, m, _, _ => m
  | n + 1, m, pos, v =>
      storeBe n (Function.update m pos (UInt8.ofNat ((v >>> (8 * n)) &&& 0xff))) (pos + 1) v

/-- Load `n` bytes from `pos`, the most significant first. -/
def loadBe : Nat → Bytes → Nat → Nat
  | 0, _, _ => 0
  | n + 1, m, pos => ((m pos).toNat <<< (8 * n)) ||| loadBe n m (pos + 1)

theorem storeBe_outside (n : Nat) (m : Bytes) {pos v x : Nat} (h : x < pos ∨ pos + n ≤ x) :
    storeBe n m pos v x = m x := by
  induction n generalizing m pos with
  | zero => rfl
  | succ n ih =>
      rw [storeBe, ih _ (by omega), Function.update_of_ne (by omega)]

theorem loadBe_congr (n : Nat) {m m' : Bytes} {pos : Nat}
    (h : ∀ x, pos ≤ x → x < pos + n → m x = m' x) : loadBe n m pos = loadBe n m' pos := by
  induction n generalizing pos with
  | zero => rfl
  | succ n ih =>
      rw [loadBe, loadBe, h pos (Nat.le_refl _) (by omega),
        ih fun x hx hx' => h x (by omega) (by omega)]

theorem loadBe_lt (n : Nat) (m : Bytes) (pos : Nat) : loadBe n m pos < 2 ^ (8 * n) := by
  induction n generalizing pos with
  | zero => exact Nat.one_pos
  | succ n ih =>
      have hbyte : (m pos).toNat <<< (8 * n) < 2 ^ (8 * (n + 1)) := by
        rw [Nat.shiftLeft_eq, show 8 * (n + 1) = 8 + 8 * n by omega, Nat.pow_add]
        exact Nat.mul_lt_mul_of_pos_right (m pos).toNat_lt (Nat.two_pow_pos _)
      exact Nat.or_lt_two_pow hbyte (Nat.lt_of_lt_of_le (ih _)
        (Nat.pow_le_pow_right (by decide) (by omega)))

theorem loadBe_storeBe_disjoint (n k : Nat) (m : Bytes) {pos pos' v : Nat}
    (h : pos' + k ≤ pos ∨ pos + n ≤ pos') :
    loadBe k (storeBe n m pos v) pos' = loadBe k m pos' :=
  loadBe_congr k fun x hx hx' => storeBe_outside n m (by omega)

/-- What was stored is loaded, as far as it fits. -/
theorem loadBe_storeBe (n : Nat) (m : Bytes) (pos v : Nat) :
    loadBe n (storeBe n m pos v) pos = v % 2 ^ (8 * n) := by
  induction n generalizing m pos with
  | zero => simp [loadBe, Nat.mod_one]
  | succ n ih =>
      have hbyte : (UInt8.ofNat ((v >>> (8 * n)) &&& 0xff)).toNat = v / 2 ^ (8 * n) % 2 ^ 8 := by
        rw [UInt8.toNat_ofNat', show 0xff = 2 ^ 8 - 1 from rfl, Nat.and_two_pow_sub_one_eq_mod,
          Nat.mod_mod, Nat.shiftRight_eq_div_pow]
      rw [loadBe, storeBe, storeBe_outside n _ (by omega), Function.update_self, ih, hbyte,
        ← Nat.shiftLeft_add_eq_or_of_lt (Nat.mod_lt _ (Nat.two_pow_pos _)), Nat.shiftLeft_eq,
        Nat.mul_succ, Nat.pow_add, Nat.mod_mul, Nat.mul_comm (2 ^ (8 * n)), Nat.add_comm]

/-- Store the low `n` bytes of `v` at `pos`, the least significant first. -/
def storeLe (n : Nat) (m : Bytes) (pos v : Nat) : Bytes :=
  m.patch pos n fun k => UInt8.ofNat (v / 256 ^ k)

/-- Load `n` bytes from `pos`, the least significant first. -/
def loadLe : Nat → Bytes → Nat → Nat
  | 0, _, _ => 0
  | n + 1, m, pos => (m pos).toNat + 256 * loadLe n m (pos + 1)

theorem loadLe_congr (n : Nat) {m m' : Bytes} {pos : Nat}
    (h : ∀ x, pos ≤ x → x < pos + n → m x = m' x) : loadLe n m pos = loadLe n m' pos := by
  induction n generalizing pos with
  | zero => rfl
  | succ n ih =>
      rw [loadLe, loadLe, h pos (Nat.le_refl _) (by omega),
        ih fun x hx hx' => h x (by omega) (by omega)]

theorem loadLe_lt (n : Nat) (m : Bytes) (pos : Nat) : loadLe n m pos < 256 ^ n := by
  induction n generalizing pos with
  | zero => exact Nat.one_pos
  | succ n ih =>
      have hbyte := (m pos).toNat_lt
      have hrest := ih (pos + 1)
      rw [loadLe, Nat.pow_succ]
      omega

theorem storeLe_outside (n : Nat) (m : Bytes) {pos v x : Nat} (h : x < pos ∨ pos + n ≤ x) :
    storeLe n m pos v x = m x := patch_outside _ _ h

theorem loadLe_storeLe_disjoint (n k : Nat) (m : Bytes) {pos pos' v : Nat}
    (h : pos' + k ≤ pos ∨ pos + n ≤ pos') :
    loadLe k (storeLe n m pos v) pos' = loadLe k m pos' :=
  loadLe_congr k fun _ _ _ => storeLe_outside n m (by omega)

theorem loadLe_storeLe (n : Nat) (m : Bytes) (pos v : Nat) :
    loadLe n (storeLe n m pos v) pos = v % 256 ^ n := by
  have hload : ∀ k i, i + k = n → loadLe k (storeLe n m pos v) (pos + i) =
      v / 256 ^ i % 256 ^ k := by
    intro k
    induction k with
    | zero => exact fun i _ => (Nat.mod_one _).symm
    | succ k ih =>
        intro i hi
        have hbyte : storeLe n m pos v (pos + i) = UInt8.ofNat (v / 256 ^ i) := by
          rw [storeLe, patch_inside _ _ (Nat.le_add_right ..) (by omega), Nat.add_sub_cancel_left]
        rw [loadLe, Nat.add_assoc, ih (i + 1) (by omega), hbyte, UInt8.toNat_ofNat',
          Nat.pow_succ 256 i, Nat.pow_succ 256 k, Nat.mul_comm (256 ^ k), Nat.mod_mul,
          Nat.div_div_eq_div_mul]
  have hall := hload n 0 (Nat.zero_add n)
  rwa [Nat.pow_zero, Nat.div_one] at hall

end Bytes

end VhostUser.Lib
