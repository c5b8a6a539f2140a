import Mathlib.Data.List.Basic

/-! # Frames in a stream

Each frame of a stream starts with a header of fixed length, and the header says how much
follows it. A receiver that cuts the frames off the front of what has arrived finds exactly
the frames that were sent, in whatever pieces they arrive.
-/

namespace VhostUser.Lib

/-- The length of a frame is that of the header and what the header says. -/
structure Framing (α : Type) where
  header : Nat
  header_pos : 0 < header
  body : List α → Nat

namespace Framing

variable {α : Type} (F : Framing α)

/-- The length of the frame at the head of `xs`. -/
def size (xs : List α) : Nat := F.header + F.body (xs.take F.header)

/-- The first frame and what is behind it, once all of it has arrived. -/
def next (xs : List α) : Option (List α × List α) :=
  if F.header ≤ xs.length ∧ F.size xs ≤ xs.length then
    some (xs.take (F.size xs), xs.drop (F.size xs))
  else none

/-- At most `n` frames, and what is left. -/
def cut : Nat → List α → List (List α) × List α
  | 0, xs => ([], xs)
  | n + 1, xs =>
      match F.next xs with
      | none => ([], xs)
      | some (f, rest) => (f :: (cut n rest).1, (cut n rest).2)

/-- All frames that have arrived, and the part of a frame that is left. -/
def frames (xs : List α) : List (List α) × List α := F.cut xs.length xs

/-- A whole frame. -/
structure IsFrame (f : List α) : Prop where
  header_le : F.header ≤ f.length
  length_eq : f.length = F.size f

variable {F} {f xs ys rest : List α} {fs : List (List α)} {n m : Nat}

theorem next_some (h : F.next xs = some (f, rest)) :
    xs = f ++ rest ∧ rest.length < xs.length ∧ F.IsFrame f := by
  unfold next at h
  split at h
  · next hle =>
      cases h
      have hpos := F.header_pos
      have hlen : (xs.take (F.size xs)).length = F.size xs := List.length_take_of_le hle.2
      have hge : F.header ≤ F.size xs := Nat.le_add_right ..
      refine ⟨(List.take_append_drop _ xs).symm, ?_, ⟨?_, ?_⟩⟩
      · rw [List.length_drop]
        omega
      · rw [hlen]
        exact hge
      · have hsame : F.size (xs.take (F.size xs)) = F.size xs := by
          rw [size, List.take_take, Nat.min_eq_left hge]
          rfl
        rw [hlen, hsame]
  · cases h

/-- More of the stream does not change its first frame. -/
theorem next_append (h : F.next xs = some (f, rest)) (ys : List α) :
    F.next (xs ++ ys) = some (f, rest ++ ys) := by
  unfold next at h
  split at h
  · next hle =>
      cases h
      have hsize : F.size (xs ++ ys) = F.size xs := by
        rw [size, size, List.take_append_of_le_length hle.1]
      unfold next
      rw [hsize, List.length_append, if_pos (by omega), List.take_append_of_le_length hle.2,
        List.drop_append_of_le_length hle.2]
  · cases h

theorem IsFrame.next (h : F.IsFrame f) (rest : List α) :
    F.next (f ++ rest) = some (f, rest) := by
  have hself : F.next f = some (f, []) := by
    unfold Framing.next
    rw [if_pos ⟨h.header_le, Nat.le_of_eq h.length_eq.symm⟩, ← h.length_eq, List.take_length,
      List.drop_length]
  exact next_append hself rest

/-! ## All the frames -/

/-- The frames of a stream do not depend on how many are looked for, if it is enough. -/
theorem cut_enough (hn : xs.length ≤ n) (hm : xs.length ≤ m) : F.cut n xs = F.cut m xs := by
  induction n generalizing xs m with
  | zero =>
      have hnil : xs = [] := List.length_eq_zero_iff.mp (Nat.le_zero.mp hn)
      cases m with
      | zero => rfl
      | succ m =>
          have hnone : F.next xs = none := by
            have hpos := F.header_pos
            unfold next
            rw [hnil]
            exact if_neg fun h => absurd h.1 (Nat.not_le.mpr hpos)
          rw [cut, cut, hnone]
  | succ n ih =>
      cases m with
      | zero =>
          have hnil : xs = [] := List.length_eq_zero_iff.mp (Nat.le_zero.mp hm)
          have hnone : F.next xs = none := by
            have hpos := F.header_pos
            unfold next
            rw [hnil]
            exact if_neg fun h => absurd h.1 (Nat.not_le.mpr hpos)
          rw [cut, cut, hnone]
      | succ m =>
          rw [cut, cut]
          cases hnext : F.next xs with
          | none => rfl
          | some p =>
              obtain ⟨f, rest⟩ := p
              have hlt := (next_some hnext).2.1
              have hrest : F.cut n rest = F.cut m rest := ih (by omega) (by omega)
              simp only [hrest]

theorem frames_none (h : F.next xs = none) : F.frames xs = ([], xs) := by
  unfold frames
  cases xs.length with
  | zero => rfl
  | succ n => rw [cut, h]

theorem frames_some (h : F.next xs = some (f, rest)) :
    F.frames xs = (f :: (F.frames rest).1, (F.frames rest).2) := by
  have hlt := (next_some h).2.1
  have hcut : F.frames xs = F.cut (rest.length + 1) xs := by
    obtain ⟨k, hk⟩ := Nat.exists_eq_add_of_lt hlt
    unfold frames
    rw [hk, cut, cut, h]
    have hrest : F.cut (rest.length + k) rest = F.cut rest.length rest :=
      cut_enough (Nat.le_add_right ..) (Nat.le_refl _)
    simp only [hrest]
  rw [hcut, cut, h]
  rfl

/-- Cutting a stream in two makes no difference: what is left of the first part is put in front
of the second. -/
theorem frames_append (xs ys : List α) :
    F.frames (xs ++ ys) = ((F.frames xs).1 ++ (F.frames ((F.frames xs).2 ++ ys)).1,
      (F.frames ((F.frames xs).2 ++ ys)).2) := by
  induction hn : xs.length using Nat.strongRecOn generalizing xs with
  | ind n ih =>
      cases h : F.next xs with
      | none => simp only [frames_none h, List.nil_append]
      | some p =>
          obtain ⟨f, rest⟩ := p
          have hlt := (next_some h).2.1
          have hrest := ih rest.length (by omega) rest rfl
          rw [frames_some h, frames_some (next_append h ys), hrest]
          rfl

/-- The frames of a part of a stream that has arrived are the first ones of the whole stream. -/
theorem frames_take_prefix (n : Nat) (xs : List α) :
    (F.frames (xs.take n)).1 <+: (F.frames xs).1 := by
  have happend := frames_append (F := F) (xs.take n) (xs.drop n)
  rw [List.take_append_drop] at happend
  rw [happend]
  exact List.prefix_append ..

/-- A receiver finds the frames that were sent. -/
theorem frames_flatten (h : ∀ f ∈ fs, F.IsFrame f) : F.frames fs.flatten = (fs, []) := by
  induction fs with
  | nil => rfl
  | cons f fs ih =>
      have hf := h f (List.mem_cons_self ..)
      rw [List.flatten_cons, frames_some (hf.next _), ih fun g hg => h g (List.mem_cons_of_mem _ hg)]

end Framing

end VhostUser.Lib
