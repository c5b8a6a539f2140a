import VhostUser.Lib.Scan
import VhostUser.Shm.Memory

/-! # Finding the huge pages

`get_hugepage_file_info` reads the memory map of the process line by line and keeps the
mappings whose file has a name as the files of huge pages have it: a number after `map_`.
The program trusts the file to have the format of a memory map; a line with too few fields
is read through a null pointer.
-/

namespace VhostUser.Shm

open VhostUser.Lib VhostUser.Lib.Scan VhostUser.Client

/-! ## The C library -/

def bufsiz : Nat := 8192

def pathMax : Nat := 4096

/-- Characters up to the end of a line, at most `n` of them, and what follows. -/
def fgetsFrom : Nat → List Char → List Char × List Char
  | 0, f => ([], f)
  | _ + 1, [] => ([], [])
  | n + 1, c :: f =>
      if c = '\n' then ([c], f)
      else (c :: (fgetsFrom n f).1, (fgetsFrom n f).2)

/-- `fgets` into a buffer of `BUFSIZ` characters. -/
def fgets (f : List Char) : Option (List Char × List Char) :=
  if f = [] then none else some (fgetsFrom (bufsiz - 1) f)

/-- The characters of a string are those before its end. -/
def cString (buf : List Char) : List Char := buf.takeWhile (· ≠ '\x00')

def isSpace (c : Char) : Bool := c = ' ' || ('\t' ≤ c && c ≤ '\r')

/-- An optional sign; whether it is a minus. -/
def scanSign : List Char → Bool × List Char
  | '-' :: cs => (true, cs)
  | '+' :: cs => (false, cs)
  | cs => (false, cs)

/-- An optional `0x`. Its zero is kept, and is the number if no digit follows. -/
def scanPrefix : List Char → List Char
  | '0' :: x :: cs => if x = 'x' ∨ x = 'X' then '0' :: cs else '0' :: x :: cs
  | cs => cs

/-- The conversion `%lx`. -/
def scanLx (cs : List Char) : Option (UInt64 × List Char) :=
  let (minus, cs) := scanSign (cs.dropWhile isSpace)
  (number 16 (scanPrefix cs)).map fun (n, rest) =>
    (if 2 ^ 64 ≤ n then 0 - 1 else if minus then 0 - UInt64.ofNat n else UInt64.ofNat n, rest)

/-- `sscanf(buf, "%lx-%lx", &v_start, &v_end)`, if both are found. -/
def scanRange (buf : List Char) : Option (UInt64 × UInt64) :=
  match scanLx buf with
  | some (vStart, '-' :: rest) => (scanLx rest).map fun (vEnd, _) => (vStart, vEnd)
  | _ => none

/-- The conversion `%d`, of which only the success is of interest. -/
def scansD (cs : List Char) : Bool := (number 10 (scanSign (cs.dropWhile isSpace)).2).isSome

/-! ## One line -/

inductive Fault where
  /-- a search that finds nothing is not noticed -/
  | nullPointer
  deriving Repr, DecidableEq

/-- `strchr(tmp, ' ') + 1` -/
def skipField (tmp : List Char) : Except Fault (List Char) :=
  match afterFirst ' ' tmp with
  | some rest => .ok rest
  | none => .error .nullPointer

/-- The path without the newline, if there is one. -/
def cutNewline (tmp : List Char) : List Char :=
  match lastIndex '\n' tmp with
  | some i => tmp.take i
  | none => tmp

/-- `map` comes before the last underscore of the path, and a number behind it. -/
def isHugeFile (tmp : List Char) : Bool :=
  match lastIndex '_' tmp with
  | none => false
  | some underline =>
      if underline < 3 then false
      else
        match tmp.drop (underline - 3) with
        | 'm' :: 'a' :: 'p' :: '_' :: rest => scansD rest
        | _ => false

inductive Line where
  | noAddress
  | other
  | huge (file : HugepageFileInfo)
  deriving Repr, DecidableEq

/-- The path begins behind five fields and any number of spaces. -/
def pathOf (buf : List Char) : Except Fault (List Char) := do
  let tmp ← skipField buf
  let tmp ← skipField tmp
  let tmp ← skipField tmp
  let tmp ← skipField tmp
  let tmp ← skipField tmp
  pure (cutNewline (tmp.dropWhile (· = ' ')))

def readLine (buf : List Char) : Except Fault Line :=
  match scanRange (cString buf) with
  | none => .ok .noAddress
  | some (vStart, vEnd) => do
      let tmp ← pathOf (cString buf)
      if isHugeFile tmp then pure (.huge ⟨vStart, vEnd - vStart, tmp.take (pathMax - 1)⟩)
      else pure .other

/-! ## All lines -/

theorem fgetsFrom_lt {n : Nat} {f : List Char} (hn : 0 < n) (hf : f ≠ []) :
    (fgetsFrom n f).2.length < f.length := by
  have hle : ∀ (n : Nat) (f : List Char), (fgetsFrom n f).2.length ≤ f.length := by
    intro n f
    induction f generalizing n with
    | nil => cases n <;> exact Nat.le_refl _
    | cons c f ih =>
        cases n with
        | zero => exact Nat.le_refl _
        | succ n =>
            rw [fgetsFrom]
            split
            · exact Nat.le_succ _
            · exact Nat.le_succ_of_le (ih n)
  cases f with
  | nil => exact absurd rfl hf
  | cons c f =>
      cases n with
      | zero => exact absurd hn (Nat.lt_irrefl 0)
      | succ n =>
          rw [fgetsFrom]
          split
          · exact Nat.lt_succ_self _
          · exact Nat.lt_succ_of_le (hle n f)

theorem fgets_lt {f buf rest : List Char} (h : fgets f = some (buf, rest)) :
    rest.length < f.length := by
  unfold fgets at h
  split at h
  · cases h
  · next hf =>
      have hlt := fgetsFrom_lt (show 0 < bufsiz - 1 by decide) hf
      rwa [Option.some.inj h] at hlt

/-- The loop of `get_hugepage_file_info`; an error is `none`. -/
def readMaps (max : Nat) (f : List Char) (huges : List HugepageFileInfo) :
    Except Fault (Option (List HugepageFileInfo)) :=
  match _h : fgets f with
  | none => .ok (some huges)
  | some (buf, rest) => do
      match ← readLine buf with
      | .noAddress => pure none
      | .other => readMaps max rest huges
      | .huge file => if huges.length ≥ max then pure none else readMaps max rest (huges ++ [file])
termination_by f.length
decreasing_by all_goals exact fgets_lt _h

/-- `get_hugepage_file_info`, with what is in the file, if it can be opened. -/
def getHugepageFileInfo (maps : Option (List Char)) (max : Nat) :
    Except Fault (Option (List HugepageFileInfo)) :=
  match maps with
  | none => .ok none
  | some f => readMaps max f []

variable {max n : Nat} {f buf rest cs xs : List Char} {huges files : List HugepageFileInfo}

theorem readMaps_end (h : fgets f = none) : readMaps max f huges = .ok (some huges) := by
  rw [readMaps]
  split
  · rfl
  · next hsome =>
      rw [h] at hsome
      cases hsome

theorem readMaps_next (h : fgets f = some (buf, rest)) : readMaps max f huges = (do
    match ← readLine buf with
    | .noAddress => pure none
    | .other => readMaps max rest huges
    | .huge file =>
        if huges.length ≥ max then pure none else readMaps max rest (huges ++ [file])) := by
  rw [readMaps]
  split
  · next hnone =>
      rw [h] at hnone
      cases hnone
  · next hsome =>
      rw [h] at hsome
      cases hsome
      rfl

/-- There are no more entries than there is room for, whatever is in the file. -/
theorem readMaps_le (hroom : huges.length ≤ max) (h : readMaps max f huges = .ok (some files)) :
    files.length ≤ max := by
  generalize hn : f.length = n
  induction n using Nat.strongRecOn generalizing f huges with
  | ind n ih =>
      cases hget : fgets f with
      | none =>
          rw [readMaps_end hget] at h
          cases h
          exact hroom
      | some r =>
          obtain ⟨buf, rest⟩ := r
          have hlt := fgets_lt hget
          rw [readMaps_next hget] at h
          cases hline : readLine buf with
          | error e =>
              rw [hline] at h
              cases h
          | ok line =>
              rw [hline] at h
              cases line with
              | noAddress => cases h
              | other => exact ih rest.length (hn ▸ hlt) hroom h rfl
              | huge file =>
                  have h : (if huges.length ≥ max then pure none
                    else readMaps max rest (huges ++ [file])) = .ok (some files) := h
                  split at h
                  · cases h
                  · refine ih rest.length (hn ▸ hlt) ?_ h rfl
                    rw [List.length_append, List.length_singleton]
                    omega

theorem getHugepageFileInfo_le {maps : Option (List Char)}
    (h : getHugepageFileInfo maps max = .ok (some files)) : files.length ≤ max := by
  cases maps with
  | none => cases h
  | some f => exact readMaps_le (Nat.zero_le _) h

/-- `init_shared_mem`: `eal` tells whether `rte_eal_init` succeeds. The regions are there if 0 is
returned. -/
def initSharedMem (eal : Bool) (maps : Option (List Char)) : Except Fault (Option Hugepages) :=
  if eal then
    match h : getHugepageFileInfo maps vhostMemoryMaxNregions with
    | .ok (some files) => .ok (some ⟨files, getHugepageFileInfo_le h⟩)
    | .ok none => .ok none
    | .error e => .error e
  else .ok none

/-! ## Names of files -/

/-- The name of a file of huge pages: a number behind `map_`, and no underscore behind that. -/
def HugeName (path : List Char) : Prop :=
  ∃ dir rest, path = dir ++ 'm' :: 'a' :: 'p' :: '_' :: rest ∧ '_' ∉ rest ∧ scansD rest = true

theorem isHugeFile_iff (path : List Char) : isHugeFile path = true ↔ HugeName path := by
  constructor
  · intro h
    unfold isHugeFile at h
    cases hlast : lastIndex '_' path with
    | none =>
        rw [hlast] at h
        cases h
    | some underline =>
        rw [hlast] at h
        dsimp only at h
        split at h
        · cases h
        · next hlen =>
            split at h
            · next rest hdrop =>
                obtain ⟨xs, ys, rfl, rfl, hys⟩ := exists_of_lastIndex hlast
                have hsplit := List.take_append_drop (xs.length - 3) (xs ++ '_' :: ys)
                rw [hdrop] at hsplit
                have htail := congrArg (List.drop 4) hdrop
                rw [List.drop_drop, show xs.length - 3 + 4 = xs.length + 1 by omega] at htail
                have hrest : ys = rest := by simpa using htail
                exact ⟨_, rest, hsplit.symm, hrest ▸ hys, h⟩
            · cases h
  · rintro ⟨dir, rest, rfl, hrest, hscans⟩
    have hlast : lastIndex '_' (dir ++ 'm' :: 'a' :: 'p' :: '_' :: rest) = some (dir.length + 3) := by
      have hpath : dir ++ 'm' :: 'a' :: 'p' :: '_' :: rest = (dir ++ ['m', 'a', 'p']) ++ '_' :: rest := by
        simp
      rw [hpath, lastIndex_append hrest, List.length_append]
      rfl
    have hdrop : (dir ++ 'm' :: 'a' :: 'p' :: '_' :: rest).drop (dir.length + 3 - 3) =
        'm' :: 'a' :: 'p' :: '_' :: rest := by
      rw [Nat.add_sub_cancel]
      exact List.drop_left
    rw [isHugeFile, hlast]
    dsimp only
    rw [if_neg (by omega), hdrop]
    exact hscans

instance (path : List Char) : Decidable (HugeName path) :=
  decidable_of_iff _ (isHugeFile_iff path)

/-! ## Lines of a memory map -/

/-- A mapping of the process, with the texts of the fields of its line. -/
structure Mapping where
  vStart : UInt64
  vEnd : UInt64
  startText : List Char
  endText : List Char
  start_numeral : IsNumeral 16 vStart.toNat startText
  end_numeral : IsNumeral 16 vEnd.toNat endText
  perm : List Char
  offset : List Char
  dev : List Char
  inode : List Char
  fields : ∀ text ∈ [perm, offset, dev, inode], ' ' ∉ text ∧ '\n' ∉ text ∧ '\x00' ∉ text
  /-- spaces before the path -/
  padding : Nat
  path : List Char
  path_first : path.head? ≠ some ' '
  path_plain : '\n' ∉ path ∧ '\x00' ∉ path

namespace Mapping

variable (m : Mapping)

def fieldsText : List Char :=
  m.perm ++ ' ' :: (m.offset ++ ' ' :: (m.dev ++ ' ' :: (m.inode ++ ' ' ::
    (List.replicate m.padding ' ' ++ m.path))))

def text : List Char := m.startText ++ '-' :: (m.endText ++ ' ' :: m.fieldsText)

def line : List Char := m.text ++ ['\n']

/-- What is kept of the mapping if its file is a file of huge pages. -/
def file : HugepageFileInfo := ⟨m.vStart, m.vEnd - m.vStart, m.path.take (pathMax - 1)⟩

end Mapping

theorem scanPrefix_numeral (h : IsNumeral 16 n cs) (hrest : rest.head? ≠ some 'x' ∧ rest.head? ≠ some 'X') :
    scanPrefix (cs ++ rest) = cs ++ rest := by
  unfold scanPrefix
  split
  · next x tail heq =>
      split
      · next hx =>
          exfalso
          cases cs with
          | nil => exact h.ne_nil rfl
          | cons c cs =>
              cases cs with
              | nil =>
                  have hhead : rest.head? = some x := by
                    rw [List.cons_append, List.nil_append, List.cons.injEq] at heq
                    rw [heq.2]
                    rfl
                  rw [hhead] at hrest
                  rcases hx with rfl | rfl
                  · exact hrest.1 rfl
                  · exact hrest.2 rfl
              | cons c' cs =>
                  rw [List.cons_append, List.cons_append, List.cons.injEq, List.cons.injEq] at heq
                  have hsome := h.digits c' (by simp)
                  rw [heq.2.1] at hsome
                  rcases hx with rfl | rfl <;> exact absurd hsome (by decide)
      · exact heq.symm
  · rfl

theorem scanLx_numeral {v : UInt64} (h : IsNumeral 16 v.toNat cs) (hstops : Stops 16 rest)
    (hrest : rest.head? ≠ some 'x' ∧ rest.head? ≠ some 'X') : scanLx (cs ++ rest) = some (v, rest) := by
  have hfirst : (cs ++ rest).dropWhile isSpace = cs ++ rest ∧
      scanSign (cs ++ rest) = (false, cs ++ rest) := by
    cases cs with
    | nil => exact absurd rfl h.ne_nil
    | cons c cs =>
        have hle : '0' ≤ c := zero_le_digit (h.digits c (List.mem_cons_self ..))
        have hne : ∀ x, x < '0' → x ≠ c := fun x hx heq => Char.not_le.mpr hx (heq ▸ hle)
        have hspace : isSpace c = false := by
          rw [isSpace, Bool.or_eq_false_iff, Bool.and_eq_false_iff]
          refine ⟨decide_eq_false (hne ' ' (by decide)).symm, Or.inr (decide_eq_false fun hr => ?_)⟩
          exact absurd (Char.le_trans hle hr) (by decide)
        refine ⟨?_, ?_⟩
        · rw [List.cons_append, List.dropWhile_cons, hspace]
          rfl
        · rw [List.cons_append]
          unfold scanSign
          split
          · next heq => exact absurd (List.cons.inj heq).1.symm (hne '-' (by decide))
          · next heq => exact absurd (List.cons.inj heq).1.symm (hne '+' (by decide))
          · rfl
  rw [scanLx, hfirst.1, hfirst.2]
  dsimp only
  rw [scanPrefix_numeral h hrest, number_append h hstops, Option.map_some, if_neg (by
    have := v.toNat_lt
    omega)]
  simp

namespace Mapping

variable (m : Mapping)

theorem line_eq : m.line = m.startText ++ '-' :: (m.endText ++ ' ' :: (m.fieldsText ++ ['\n'])) := by
  simp [line, text]

theorem scanRange_line : scanRange m.line = some (m.vStart, m.vEnd) := by
  have hdash : Stops 16 ('-' :: (m.endText ++ ' ' :: (m.fieldsText ++ ['\n']))) := by
    rintro c ⟨⟩
    decide
  have hblank : Stops 16 (' ' :: (m.fieldsText ++ ['\n'])) := by
    rintro c ⟨⟩
    decide
  rw [scanRange, line_eq, scanLx_numeral m.start_numeral hdash (by simp)]
  show (scanLx (m.endText ++ ' ' :: (m.fieldsText ++ ['\n']))).map _ = _
  rw [scanLx_numeral m.end_numeral hblank (by simp)]
  rfl

/-- A line has neither the end of a string nor a newline in it. -/
theorem not_mem_text {c : Char} (hdigit : digitOf 16 c = none) (hdash : c ≠ '-') (hblank : c ≠ ' ')
    (hfields : ∀ text ∈ [m.perm, m.offset, m.dev, m.inode], c ∉ text) (hpath : c ∉ m.path) :
    c ∉ m.text := by
  have hstart := m.start_numeral.not_mem hdigit
  have hend := m.end_numeral.not_mem hdigit
  have hpadding : c ∉ List.replicate m.padding ' ' := fun hmem => hblank (List.eq_of_mem_replicate hmem)
  simp only [List.forall_mem_cons] at hfields
  simp only [text, fieldsText, List.mem_append, List.mem_cons]
  tauto

theorem newline_not_mem : '\n' ∉ m.text :=
  m.not_mem_text (by decide) (by decide) (by decide) (fun text h => (m.fields text h).2.1) m.path_plain.1

theorem cString_line : cString m.line = m.line := by
  have hend : '\x00' ∉ m.text := m.not_mem_text (by decide) (by decide) (by decide)
    (fun text h => (m.fields text h).2.2) m.path_plain.2
  have hall : ∀ c ∈ m.line, decide (c ≠ '\x00') = true := by
    intro c hc
    refine decide_eq_true ?_
    rintro rfl
    rcases List.mem_append.mp hc with hc | hc
    · exact hend hc
    · exact absurd (List.mem_singleton.mp hc) (by decide)
  have htake : (m.line ++ []).takeWhile (· ≠ '\x00') = m.line ++ [] := List.takeWhile_append_of_pos hall
  rwa [List.append_nil] at htake

theorem cutNewline_path : cutNewline (m.path ++ ['\n']) = m.path := by
  rw [cutNewline, lastIndex_append List.not_mem_nil]
  exact List.take_left

theorem pathOf_line : pathOf m.line = .ok m.path := by
  have hskip : ∀ {xs ys : List Char} (f : List Char → Except Fault (List Char)), ' ' ∉ xs →
      (skipField (xs ++ ' ' :: ys) >>= f) = f ys := fun f h => by
    rw [skipField, afterFirst_append h]
    rfl
  have hfield : ∀ {text}, text ∈ [m.perm, m.offset, m.dev, m.inode] → ' ' ∉ text := fun h =>
    (m.fields _ h).1
  have haddress : ' ' ∉ m.startText ++ '-' :: m.endText := by
    have hstart := m.start_numeral.not_mem (c := ' ') (by decide)
    have hend := m.end_numeral.not_mem (c := ' ') (by decide)
    simp [hstart, hend]
  have hspaces : (List.replicate m.padding ' ' ++ (m.path ++ ['\n'])).dropWhile (· = ' ') =
      m.path ++ ['\n'] := by
    rw [List.dropWhile_append_of_pos fun c hc => decide_eq_true (List.eq_of_mem_replicate hc)]
    cases hpath : m.path with
    | nil => rfl
    | cons c path =>
        have hc : c ≠ ' ' := fun heq => m.path_first (by rw [hpath, heq]; rfl)
        rw [List.cons_append, List.dropWhile_cons, if_neg (by simpa using hc)]
  have hline : m.line = (m.startText ++ '-' :: m.endText) ++ ' ' :: (m.perm ++ ' ' :: (m.offset ++ ' ' ::
      (m.dev ++ ' ' :: (m.inode ++ ' ' :: (List.replicate m.padding ' ' ++ (m.path ++ ['\n'])))))) := by
    simp [line_eq, fieldsText]
  rw [pathOf, hline, hskip _ haddress, hskip _ (hfield (by simp)), hskip _ (hfield (by simp)),
    hskip _ (hfield (by simp)), hskip _ (hfield (by simp)), hspaces, cutNewline_path]
  rfl

theorem readLine_line :
    readLine m.line = .ok (if HugeName m.path then .huge m.file else .other) := by
  rw [readLine, cString_line, scanRange_line]
  show (pathOf m.line >>= _) = _
  rw [pathOf_line]
  show (if isHugeFile m.path then _ else _) = _
  by_cases h : HugeName m.path
  · rw [if_pos ((isHugeFile_iff _).mpr h), if_pos h]
    rfl
  · rw [if_neg fun hhuge => h ((isHugeFile_iff _).mp hhuge), if_neg h]
    rfl

end Mapping

theorem fgetsFrom_line (hxs : '\n' ∉ xs) (hlen : xs.length < n) :
    fgetsFrom n (xs ++ '\n' :: f) = (xs ++ ['\n'], f) := by
  induction xs generalizing n with
  | nil =>
      cases n with
      | zero => exact absurd hlen (Nat.not_lt_zero _)
      | succ n => rfl
  | cons x xs ih =>
      rw [List.mem_cons, not_or] at hxs
      cases n with
      | zero => exact absurd hlen (Nat.not_lt_zero _)
      | succ n =>
          rw [List.cons_append, fgetsFrom, if_neg (Ne.symm hxs.1), ih hxs.2 (Nat.lt_of_succ_lt_succ hlen)]
          rfl

/-- A line that fits in the buffer is read as a whole. -/
theorem fgets_line (m : Mapping) (hlen : m.line.length < bufsiz) (f : List Char) :
    fgets (m.line ++ f) = some (m.line, f) := by
  have hsplit : m.line ++ f = m.text ++ '\n' :: f := by simp [Mapping.line]
  have hne : m.line ++ f ≠ [] := by simp [hsplit]
  have htext : m.text.length < bufsiz - 1 := by
    rw [Mapping.line, List.length_append, List.length_singleton] at hlen
    omega
  rw [fgets, if_neg hne, hsplit, fgetsFrom_line m.newline_not_mem htext]
  rfl

def hugeMappings (ms : List Mapping) : List Mapping := ms.filter fun m => HugeName m.path

def mapsText (ms : List Mapping) : List Char := ms.flatMap Mapping.line

theorem readMaps_lines (huges : List HugepageFileInfo) (ms : List Mapping) (hlen : ∀ m ∈ ms, m.line.length < bufsiz)
    (hroom : huges.length ≤ max) : readMaps max (mapsText ms) huges =
      .ok (if huges.length + (hugeMappings ms).length ≤ max then
        some (huges ++ (hugeMappings ms).map Mapping.file) else none) := by
  induction ms generalizing huges with
  | nil =>
      have hend : fgets (mapsText []) = none := rfl
      have hle : huges.length + (hugeMappings []).length ≤ max := hroom
      have hnil : huges ++ (hugeMappings []).map Mapping.file = huges := List.append_nil _
      rw [readMaps_end hend, if_pos hle, hnil]
  | cons m ms ih =>
      have hm := hlen m (List.mem_cons_self ..)
      have hms : ∀ m ∈ ms, m.line.length < bufsiz := fun m h => hlen m (List.mem_cons_of_mem _ h)
      have hget : fgets (mapsText (m :: ms)) = some (m.line, mapsText ms) := fgets_line m hm _
      rw [readMaps_next hget, m.readLine_line]
      by_cases hhuge : HugeName m.path
      · have hcons : hugeMappings (m :: ms) = m :: hugeMappings ms :=
          List.filter_cons_of_pos (decide_eq_true hhuge)
        rw [if_pos hhuge, hcons, List.length_cons]
        show (if huges.length ≥ max then pure none else readMaps max (mapsText ms) (huges ++ [m.file])) = _
        split
        · rw [if_neg (by omega)]
          rfl
        · have hlength : (huges ++ [m.file]).length = huges.length + 1 := by simp
          rw [ih _ hms (by omega), hlength, List.append_assoc, Nat.add_assoc,
            Nat.add_comm 1 (hugeMappings ms).length]
          rfl
      · have hcons : hugeMappings (m :: ms) = hugeMappings ms :=
          List.filter_cons_of_neg (by simpa using hhuge)
        rw [if_neg hhuge, hcons]
        exact ih huges hms hroom

theorem initSharedMem_found {maps : Option (List Char)}
    (h : getHugepageFileInfo maps vhostMemoryMaxNregions = .ok (some files)) :
    ∃ huges, initSharedMem true maps = .ok (some huges) ∧ huges.files = files := by
  refine ⟨⟨files, getHugepageFileInfo_le h⟩, ?_, rfl⟩
  rw [initSharedMem, if_pos rfl]
  split
  · next hfound =>
      rw [h] at hfound
      cases hfound
      rfl
  · next hnone =>
      rw [h] at hnone
      cases hnone
  · next herror =>
      rw [h] at herror
      cases herror

theorem initSharedMem_none {maps : Option (List Char)}
    (h : getHugepageFileInfo maps vhostMemoryMaxNregions = .ok none) :
    initSharedMem true maps = .ok none := by
  rw [initSharedMem, if_pos rfl]
  split
  · next hfound =>
      rw [h] at hfound
      cases hfound
  · rfl
  · next herror =>
      rw [h] at herror
      cases herror

/-- The region of a mapping, as the server is told. -/
def Mapping.region (m : Mapping) : MemoryRegion :=
  ⟨m.vStart.toNat, (m.vEnd - m.vStart).toNat, m.vStart.toNat, 0⟩

/-- The regions that are shared with the server are the mappings of files of huge pages, all of
them and in the order of the memory map; if there are too many, there are none. -/
theorem init_shared_mem_shares_huge_pages (ms : List Mapping)
    (hlen : ∀ m ∈ ms, m.line.length < bufsiz) :
    let found := hugeMappings ms
    let result := initSharedMem true (some (mapsText ms))
    (found.length ≤ vhostMemoryMaxNregions → ∃ huges, result = .ok (some huges) ∧
      huges.files = found.map Mapping.file ∧
      ∀ memory, regionsOf (getMemoryInfo huges memory) = found.map Mapping.region) ∧
    (vhostMemoryMaxNregions < found.length → result = .ok none) := by
  intro found result
  have hread : getHugepageFileInfo (some (mapsText ms)) vhostMemoryMaxNregions =
      .ok (if found.length ≤ vhostMemoryMaxNregions then some (found.map Mapping.file) else none) := by
    have hlines := readMaps_lines [] ms hlen (Nat.zero_le vhostMemoryMaxNregions)
    rw [List.length_nil, Nat.zero_add, List.nil_append] at hlines
    exact hlines
  constructor
  · intro hle
    rw [if_pos hle] at hread
    obtain ⟨huges, hinit, hfiles⟩ := initSharedMem_found hread
    refine ⟨huges, hinit, hfiles, fun memory => ?_⟩
    rw [regionsOf_getMemoryInfo, hfiles, List.map_map]
    rfl
  · intro hlt
    rw [if_neg (Nat.not_le.mpr hlt)] at hread
    exact initSharedMem_none hread

/-- The mapping of a file of huge pages, and one of a library whose name has an underscore. -/
def hugeMapping : Mapping where
  vStart := 0x7f0000000000
  vEnd := 0x7f0000200000
  startText := "7f0000000000".toList
  endText := "7f0000200000".toList
  start_numeral := ⟨by decide, List.all_eq_true.mp (by decide), by decide⟩
  end_numeral := ⟨by decide, List.all_eq_true.mp (by decide), by decide⟩
  perm := "rw-s".toList
  offset := "00000000".toList
  dev := "00:0f".toList
  inode := "31337".toList
  fields := by decide
  padding := 22
  path := "/dev/hugepages/pid7map_0".toList
  path_first := by decide
  path_plain := by decide

def libraryMapping : Mapping :=
  { hugeMapping with
    padding := 21
    path := "/usr/lib/libmap_one.so".toList
    path_first := by decide
    path_plain := by decide }

theorem init_shared_mem_shares_huge_pages_one : ∃ huges,
    initSharedMem true (some (mapsText [libraryMapping, hugeMapping])) = .ok (some huges) ∧
      huges.files = [⟨0x7f0000000000, 0x200000, "/dev/hugepages/pid7map_0".toList⟩] := by
  have hfound : hugeMappings [libraryMapping, hugeMapping] = [hugeMapping] := by
    rw [hugeMappings, List.filter_cons_of_neg (by decide), List.filter_cons_of_pos (by decide),
      List.filter_nil]
  obtain ⟨hshared, -⟩ := init_shared_mem_shares_huge_pages [libraryMapping, hugeMapping] (by decide)
  obtain ⟨huges, hinit, hfiles, -⟩ := hshared (by rw [hfound]; decide)
  rw [hfound] at hfiles
  exact ⟨huges, hinit, hfiles⟩

end VhostUser.Shm
