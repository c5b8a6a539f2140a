import Mathlib.Data.List.Basic

/-! # Scanning lines

Numbers in positional notation, and the searches for one character that take a line apart.
A text is a numeral if all of it are digits; a scanner finds its value whatever comes behind
it, as long as that does not begin with a digit.
-/

namespace VhostUser.Lib.Scan

variable {base n acc i : Nat} {c : Char} {cs rest xs ys : List Char}

/-! ## Numbers -/

/-- The value of a digit of a base up to 16. -/
def digitOf (base : Nat) (c : Char) : Option Nat :=
  let d :=
    if '0' ≤ c ∧ c ≤ '9' then c.toNat - '0'.toNat
    else if 'a' ≤ c ∧ c ≤ 'f' then c.toNat - 'a'.toNat + 10
    else if 'A' ≤ c ∧ c ≤ 'F' then c.toNat - 'A'.toNat + 10
    else base
  if d < base then some d else none

theorem zero_le_digit (h : (digitOf base c).isSome = true) : '0' ≤ c := by
  unfold digitOf at h
  dsimp only at h
  split at h
  · next hc => exact hc.1
  · split at h
    · next hc => exact Char.le_trans (by decide) hc.1
    · split at h
      · next hc => exact Char.le_trans (by decide) hc.1
      · rw [if_neg (Nat.lt_irrefl base)] at h
        cases h

/-- Go on with a number as long as there are digits. -/
def numberFrom (base : Nat) : Nat → List Char → Nat × List Char
  | acc, [] => (acc, [])
  | acc, c :: cs =>
      match digitOf base c with
      | some d => numberFrom base (acc * base + d) cs
      | none => (acc, c :: cs)

/-- The number at the beginning of a text, and the rest of the text. -/
def number (base : Nat) : List Char → Option (Nat × List Char)
  | [] => none
  | c :: cs => (digitOf base c).map fun d => numberFrom base d cs

/-- Digits from the first to the last. -/
def valueFrom (base acc : Nat) (cs : List Char) : Nat :=
  cs.foldl (fun acc c => acc * base + (digitOf base c).getD 0) acc

structure IsNumeral (base n : Nat) (cs : List Char) : Prop where
  ne_nil : cs ≠ []
  digits : ∀ c ∈ cs, (digitOf base c).isSome = true
  value : valueFrom base 0 cs = n

/-- A text does not begin with a digit. -/
def Stops (base : Nat) (rest : List Char) : Prop := ∀ c ∈ rest.head?, digitOf base c = none

theorem numberFrom_append (hcs : ∀ c ∈ cs, (digitOf base c).isSome = true) (hrest : Stops base rest) :
    numberFrom base acc (cs ++ rest) = (valueFrom base acc cs, rest) := by
  induction cs generalizing acc with
  | nil =>
      cases rest with
      | nil => rfl
      | cons c rest =>
          have hc : digitOf base c = none := hrest c rfl
          rw [List.nil_append, numberFrom, hc]
          rfl
  | cons c cs ih =>
      obtain ⟨d, hd⟩ := Option.isSome_iff_exists.mp (hcs c (List.mem_cons_self ..))
      have hvalue : valueFrom base acc (c :: cs) = valueFrom base (acc * base + d) cs := by
        rw [valueFrom, List.foldl_cons, hd]
        rfl
      rw [List.cons_append, numberFrom, hd, hvalue]
      exact ih fun c hc => hcs c (List.mem_cons_of_mem _ hc)

theorem number_append (h : IsNumeral base n cs) (hrest : Stops base rest) :
    number base (cs ++ rest) = some (n, rest) := by
  obtain ⟨hne, hdigits, hvalue⟩ := h
  cases cs with
  | nil => exact absurd rfl hne
  | cons c cs =>
      obtain ⟨d, hd⟩ := Option.isSome_iff_exists.mp (hdigits c (List.mem_cons_self ..))
      have hfirst : valueFrom base 0 (c :: cs) = valueFrom base d cs := by
        rw [valueFrom, List.foldl_cons, hd, Nat.zero_mul, Nat.zero_add]
        rfl
      rw [List.cons_append, number, hd, Option.map_some,
        numberFrom_append (fun c hc => hdigits c (List.mem_cons_of_mem _ hc)) hrest, ← hfirst, hvalue]

theorem IsNumeral.not_mem (h : IsNumeral base n cs) (hc : digitOf base c = none) : c ∉ cs := by
  intro hmem
  have hsome := h.digits c hmem
  rw [hc] at hsome
  cases hsome

/-! ## Fields -/

def afterFirst (c : Char) : List Char → Option (List Char)
  | [] => none
  | x :: xs => if x = c then some xs else afterFirst c xs

theorem afterFirst_append (h : c ∉ xs) : afterFirst c (xs ++ c :: ys) = some ys := by
  induction xs with
  | nil => exact if_pos rfl
  | cons x xs ih =>
      rw [List.mem_cons, not_or] at h
      rw [List.cons_append, afterFirst, if_neg (Ne.symm h.1)]
      exact ih h.2

def lastIndex (c : Char) : List Char → Option Nat
  | [] => none
  | x :: xs =>
      match lastIndex c xs with
      | some i => some (i + 1)
      | none => if x = c then some 0 else none

theorem lastIndex_absent (h : c ∉ xs) : lastIndex c xs = none := by
  induction xs with
  | nil => rfl
  | cons x xs ih =>
      rw [List.mem_cons, not_or] at h
      rw [lastIndex, ih h.2]
      exact if_neg (Ne.symm h.1)

theorem lastIndex_append (h : c ∉ ys) : lastIndex c (xs ++ c :: ys) = some xs.length := by
  induction xs with
  | nil =>
      rw [List.nil_append, lastIndex, lastIndex_absent h]
      exact if_pos rfl
  | cons x xs ih =>
      rw [List.cons_append, lastIndex, ih]
      rfl

theorem not_mem_of_lastIndex (h : lastIndex c cs = none) : c ∉ cs := by
  induction cs with
  | nil => exact List.not_mem_nil
  | cons x cs ih =>
      rw [lastIndex] at h
      cases hlast : lastIndex c cs with
      | some i =>
          rw [hlast] at h
          cases h
      | none =>
          rw [hlast] at h
          have hne : c ≠ x := by
            rintro rfl
            cases (if_pos rfl).symm.trans h
          exact fun hmem => (List.mem_cons.mp hmem).elim hne (ih hlast)

theorem exists_of_lastIndex (h : lastIndex c cs = some i) :
    ∃ xs ys, cs = xs ++ c :: ys ∧ xs.length = i ∧ c ∉ ys := by
  induction cs generalizing i with
  | nil => cases h
  | cons x cs ih =>
      rw [lastIndex] at h
      cases hlast : lastIndex c cs with
      | some j =>
          rw [hlast] at h
          cases h
          obtain ⟨xs, ys, rfl, rfl, hys⟩ := ih hlast
          exact ⟨x :: xs, ys, rfl, rfl, hys⟩
      | none =>
          rw [hlast] at h
          have hx : x = c := by
            by_contra hne
            cases (if_neg hne).symm.trans h
          have hi : 0 = i := Option.some.inj ((if_pos hx).symm.trans h)
          exact ⟨[], cs, by rw [hx]; rfl, hi, not_mem_of_lastIndex hlast⟩

end VhostUser.Lib.Scan
