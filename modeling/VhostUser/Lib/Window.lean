import Mathlib.Data.List.Nodup
import Mathlib.Data.List.Perm.Subperm
import Mathlib.Data.List.Range
import Mathlib.Data.Int.ModEq
import Mathlib.Algebra.Order.BigOperators.Group.List
import Mathlib.Algebra.Order.Group.Nat

/-! # Index windows and slot counting

Ring indices are unbounded counters seen through a modulus. Two counters that
lie in one window no longer than the modulus are told apart by their residues;
and the length of such a window is bounded by counting the distinct slots of a
table of fixed size that the entries of the window keep occupied.
-/

namespace VhostUser.Lib

theorem mod_inj_of_window {n a b lo : Nat} (ha : lo ≤ a) (hb : lo ≤ b) (ha' : a < lo + n)
    (hb' : b < lo + n) (h : a % n = b % n) : a = b := by
  rcases Nat.le_total a b with hle | hle
  · have hdvd : n ∣ b - a := (Nat.modEq_iff_dvd' hle).mp h
    have hz := Nat.eq_zero_of_dvd_of_lt hdvd (by omega)
    omega
  · have hdvd : n ∣ a - b := (Nat.modEq_iff_dvd' hle).mp h.symm
    have hz := Nat.eq_zero_of_dvd_of_lt hdvd (by omega)
    omega

/-- A duplicate-free list of slots of a table with `n` slots has at most `n` entries. -/
theorem length_le_of_nodup_lt {l : List Nat} {n : Nat} (hl : l.Nodup) (hlt : ∀ x ∈ l, x < n) :
    l.length ≤ n := by
  have hsub : l ⊆ List.range n := fun x hx => List.mem_range.mpr (hlt x hx)
  simpa using (hl.subperm hsub).length_le

/-- Owners that each hold at least `m` slots of a table with `n` slots, no slot
being held twice, number at most `n / m`. -/
theorem mul_length_le_of_held {ι : Type} {held : ι → List Nat} {n m : Nat} {L : List ι}
    (hL : L.Nodup) (hnodup : ∀ c ∈ L, (held c).Nodup)
    (hdisj : ∀ c d x, x ∈ held c → x ∈ held d → c = d)
    (hlt : ∀ c ∈ L, ∀ x ∈ held c, x < n) (hm : ∀ c ∈ L, m ≤ (held c).length) :
    m * L.length ≤ n := by
  have hflat : (L.flatMap held).Nodup := by
    rw [List.nodup_flatMap]
    refine ⟨hnodup, hL.imp fun {c d} hne x hc hd => hne (hdisj c d x hc hd)⟩
  have hbound : (L.flatMap held).length ≤ n := by
    refine length_le_of_nodup_lt hflat fun x hx => ?_
    obtain ⟨c, hc, hxc⟩ := List.mem_flatMap.mp hx
    exact hlt c hc x hxc
  have hsum : m * L.length ≤ (L.flatMap held).length := by
    rw [List.length_flatMap]
    have hle := List.card_nsmul_le_sum (L.map fun c => (held c).length) m fun k hk => by
      obtain ⟨c, hc, rfl⟩ := List.mem_map.mp hk
      exact hm c hc
    simpa [Nat.mul_comm] using hle
  exact hsum.trans hbound

/-- The lists that different owners hold of a table with `n` slots, all together. -/
theorem sum_length_le_of_held {ι : Type} {held : ι → List Nat} {n : Nat} {L : List ι}
    (hL : L.Nodup) (hnodup : ∀ c ∈ L, (held c).Nodup)
    (hdisj : ∀ c d x, x ∈ held c → x ∈ held d → c = d)
    (hlt : ∀ c ∈ L, ∀ x ∈ held c, x < n) : (L.map fun c => (held c).length).sum ≤ n := by
  have hflat : (L.flatMap held).Nodup := by
    rw [List.nodup_flatMap]
    refine ⟨hnodup, hL.imp fun {c d} hne x hc hd => hne (hdisj c d x hc hd)⟩
  rw [← List.length_flatMap]
  refine length_le_of_nodup_lt hflat fun x hx => ?_
  obtain ⟨c, hc, hxc⟩ := List.mem_flatMap.mp hx
  exact hlt c hc x hxc

end VhostUser.Lib
