import VhostUser.Dev.WriteBack

/-! # What is on the disk while writes are under way

From a world without writes in progress on, the disk is the old disk with a prefix of
every write that was taken since then. How long the prefix is can be read off the
command that the write waits for; between the read and the write of a partial block
the chain holds a copy of the block, which agrees with the disk as long as no other
write touches that block.
-/

namespace VhostUser.Dev

open VhostUser.Lib

variable {w₀ w w' : World} {p : Nat → Nat}

/-- The result that stands for `n` bytes. -/
def asRetval (n : Nat) : Int := if n = 0 then -1 else n

def Active (w₀ w : World) (io : Nat) : Prop :=
  w₀.returned io = none ∧ w.returned io = some 0 ∧ (w.ios io).desc.type = .write

/-- Two requests have no byte in common. -/
def Apart (d d' : AsyncIoDesc) : Prop :=
  d.offset + d.nbytes ≤ d'.offset ∨ d'.offset + d'.nbytes ≤ d.offset

/-- A command of a write with `q` bytes on the disk. -/
structure Stage (w : World) (f : Flight) (q : Nat) (r : VirtioScsiCmdResp) (m : Bytes) : Prop where
  bufs : f.task.vbufs = writeBufs w.dev (w.ios f.io).desc r m f.cb
  retval : (w.ios f.io).desc.retval = asRetval (doneBefore w.dev (w.ios f.io).desc f.cb)
  progress : q = if f.answered = true ∧ r.good = true then doneAfter w.dev (w.ios f.io).desc f.cb
    else doneBefore w.dev (w.ios f.io).desc f.cb
  failed : f.answered = true → r.good = false → w.failed = true
  block : holdsBlock w.dev (w.ios f.io).desc f.cb f.answered = true →
    (f.answered = true → r.good = true) → ∀ k < w.dev.blockSize,
      m k = merged w.dev (w.ios f.io).desc
        (blockAt w.dev w.disk (cmdBlock w.dev (w.ios f.io).desc f.cb)) f.cb k

/-- The disk with `p io` bytes of each active write. -/
structure Content (w₀ w : World) (p : Nat → Nat) : Prop where
  since : ∀ io, w.returned io = none → w₀.returned io = none
  written : ∀ io, Active w₀ w io → ∀ k < p io,
    w.disk ((w.ios io).desc.offset + k) = (w.ios io).desc.buf k
  kept : ∀ x, (∀ io, Active w₀ w io →
    x < (w.ios io).desc.offset ∨ (w.ios io).desc.offset + p io ≤ x) → w.disk x = w₀.disk x
  le : ∀ io, Active w₀ w io → p io ≤ (w.ios io).desc.nbytes
  apart : ∀ io io', Active w₀ w io → Active w₀ w io' → io ≠ io' →
    Apart (w.ios io).desc (w.ios io').desc
  small : ∀ io, Active w₀ w io → Small w.dev (w.ios io).desc
  active : ∀ t f, w.flights t = some f → (w.ios f.io).desc.type = .write → Active w₀ w f.io
  stage : ∀ t f, w.flights t = some f → (w.ios f.io).desc.type = .write →
    ∃ r m, Stage w f (p f.io) r m
  ended : ∀ io, Active w₀ w io → (w.ios io).state ≠ .busy →
    (w.ios io).desc.retval = asRetval (p io) ∧
      (w.failed = false → p io = (w.ios io).desc.nbytes)

/-! ## Other descriptors -/

theorem Stage.frame {f : Flight} {q : Nat} {r : VirtioScsiCmdResp} {m : Bytes}
    (h : Stage w f q r m) (hdev : w'.dev = w.dev) (hios : (w'.ios f.io).desc = (w.ios f.io).desc)
    (hfail : w.failed = true → w'.failed = true)
    (hblock : holdsBlock w.dev (w.ios f.io).desc f.cb f.answered = true → ∀ k < w.dev.blockSize,
      blockAt w.dev w'.disk (cmdBlock w.dev (w.ios f.io).desc f.cb) k =
        blockAt w.dev w.disk (cmdBlock w.dev (w.ios f.io).desc f.cb) k) :
    Stage w' f q r m := by
  refine ⟨?_, ?_, ?_, fun ha hr => hfail (h.failed ha hr), ?_⟩
  · rw [hdev, hios]
    exact h.bufs
  · rw [hdev, hios]
    exact h.retval
  · rw [hdev, hios]
    exact h.progress
  · rw [hdev, hios]
    intro hh hg k hk
    rw [h.block hh hg k hk]
    exact merged_congr f.cb (hblock hh k hk).symm

theorem Content.frame (h : Content w₀ w p) (hdev : w'.dev = w.dev) (hdisk : w'.disk = w.disk)
    (hfail : w.failed = true → w'.failed = true)
    (hret : ∀ io, w'.returned io = none → w.returned io = none)
    (hactive : ∀ io, Active w₀ w' io → Active w₀ w io) (hkept : ∀ io, Active w₀ w io → Active w₀ w' io)
    (hdesc : ∀ io, Active w₀ w io → (w'.ios io).desc = (w.ios io).desc)
    (hstate : ∀ io, Active w₀ w io → (w'.ios io).state ≠ .busy → (w.ios io).state ≠ .busy)
    (hflights : ∀ t f, w'.flights t = some f → (w'.ios f.io).desc.type = .write →
      w.flights t = some f ∧ (w.ios f.io).desc.type = .write) : Content w₀ w' p := by
  constructor
  · exact fun io hio => h.since io (hret io hio)
  · intro io hio
    rw [hdesc io (hactive io hio), hdisk]
    exact h.written io (hactive io hio)
  · intro x hx
    rw [hdisk]
    refine h.kept x fun io hio => ?_
    have hio' := hx io (hkept io hio)
    rw [hdesc io hio] at hio'
    exact hio'
  · intro io hio
    rw [hdesc io (hactive io hio)]
    exact h.le io (hactive io hio)
  · intro io io' hio hio' hne
    rw [hdesc io (hactive io hio), hdesc io' (hactive io' hio')]
    exact h.apart io io' (hactive io hio) (hactive io' hio') hne
  · intro io hio
    rw [hdesc io (hactive io hio), hdev]
    exact h.small io (hactive io hio)
  · intro t f hf htype
    obtain ⟨hf, htype⟩ := hflights t f hf htype
    exact hkept f.io (h.active t f hf htype)
  · intro t f hf htype
    obtain ⟨hf, htype⟩ := hflights t f hf htype
    obtain ⟨r, m, hstage⟩ := h.stage t f hf htype
    refine ⟨r, m, hstage.frame hdev (hdesc f.io (h.active t f hf htype)) hfail fun _ k _ => ?_⟩
    rw [hdisk]
  · intro io hio hs
    have hio' := hactive io hio
    obtain ⟨hret, hall⟩ := h.ended io hio' (hstate io hio' hs)
    rw [hdesc io hio']
    refine ⟨hret, fun hf => hall ?_⟩
    cases hw : w.failed with
    | false => rfl
    | true =>
        rw [hfail hw] at hf
        cases hf

theorem Content.quiet (h : Content w₀ w p) (io : Nat) (hdev : w'.dev = w.dev)
    (hdisk : w'.disk = w.disk) (hfail : w.failed = true → w'.failed = true)
    (hother : ∀ i, i ≠ io → w'.ios i = w.ios i)
    (hret : ∀ i, i ≠ io → w'.returned i = w.returned i)
    (hown' : w'.returned io = none → w.returned io = none) (hold : ¬ Active w₀ w io)
    (hnew : ¬ Active w₀ w' io)
    (hflights : ∀ t f, w'.flights t = some f → f.io ≠ io → w.flights t = some f)
    (hown : ∀ t f, w'.flights t = some f → f.io = io → (w'.ios io).desc.type ≠ .write) :
    Content w₀ w' p := by
  have hne : ∀ i, Active w₀ w i → i ≠ io := by
    rintro i hi rfl
    exact hold hi
  have hactive : ∀ i, i ≠ io → (Active w₀ w' i ↔ Active w₀ w i) := fun i hi => by
    unfold Active
    rw [hret i hi, hother i hi]
  refine h.frame hdev hdisk hfail (fun i hi => ?_) (fun i hi => ?_)
    (fun i hi => (hactive i (hne i hi)).mpr hi) (fun i hi => by rw [hother i (hne i hi)])
    (fun i hi hs => by rw [hother i (hne i hi)] at hs; exact hs) fun t f hf htype => ?_
  · by_cases heq : i = io
    · rw [heq] at hi ⊢
      exact hown' hi
    · rw [← hret i heq]
      exact hi
  · refine (hactive i ?_).mp hi
    rintro rfl
    exact hnew hi
  · have hio : f.io ≠ io := fun heq => hown t f hf heq (by rw [← heq]; exact htype)
    rw [hother f.io hio] at htype
    exact ⟨hflights t f hf hio, htype⟩

/-! ## The descriptor that a step is about -/

/-- One write proceeds from `base` to `q` bytes, the others stay as they are. -/
theorem Content.proceed (h : Content w₀ w p) {io q : Nat} (base : Nat) (hdev : w'.dev = w.dev)
    (hfail : w.failed = true → w'.failed = true)
    (hother : ∀ i, i ≠ io → w'.ios i = w.ios i)
    (hret : ∀ i, i ≠ io → w'.returned i = w.returned i) (hact : Active w₀ w' io)
    (hprev : Active w₀ w io → (w.ios io).desc.offset = (w'.ios io).desc.offset ∧ p io ≤ q)
    (hsmall : Small w.dev (w'.ios io).desc)
    (hapart : ∀ i, i ≠ io → Active w₀ w i → Apart (w.ios i).desc (w'.ios io).desc)
    (hq : q ≤ (w'.ios io).desc.nbytes)
    (hdisk : ∀ x, x < (w'.ios io).desc.offset + base ∨ (w'.ios io).desc.offset + q ≤ x →
      w'.disk x = w.disk x)
    (hnew : ∀ k, base ≤ k → k < q → w'.disk ((w'.ios io).desc.offset + k) = (w'.ios io).desc.buf k)
    (hbase : ∀ k, k < base → w.disk ((w'.ios io).desc.offset + k) = (w'.ios io).desc.buf k)
    (hflights : ∀ t f, w'.flights t = some f → f.io ≠ io → w.flights t = some f ∧
      (holdsBlock w.dev (w.ios f.io).desc f.cb f.answered = true → ∀ k < w.dev.blockSize,
        blockAt w.dev w'.disk (cmdBlock w.dev (w.ios f.io).desc f.cb) k =
          blockAt w.dev w.disk (cmdBlock w.dev (w.ios f.io).desc f.cb) k))
    (hown : ∀ t f, w'.flights t = some f → f.io = io → ∃ r m, Stage w' f q r m)
    (hend : (w'.ios io).state ≠ .busy → (w'.ios io).desc.retval = asRetval q ∧
      (w'.failed = false → q = (w'.ios io).desc.nbytes)) :
    Content w₀ w' (Function.update p io q) := by
  have hactive : ∀ i, i ≠ io → (Active w₀ w' i ↔ Active w₀ w i) := fun i hi => by
    unfold Active
    rw [hret i hi, hother i hi]
  constructor
  · intro i hi
    by_cases heq : i = io
    · rw [heq]
      exact hact.1
    · exact h.since i (by rw [← hret i heq]; exact hi)
  · intro i hi k hk
    by_cases heq : i = io
    · subst heq
      rw [Function.update_self] at hk
      by_cases hk' : k < base
      · rw [hdisk _ (Or.inl (by omega))]
        exact hbase k hk'
      · exact hnew k (by omega) hk
    · have hi' := (hactive i heq).mp hi
      rw [Function.update_of_ne heq] at hk
      rw [hother i heq, hdisk]
      · exact h.written i hi' k hk
      · have hle := h.le i hi'
        rcases hapart i heq hi' with hap | hap
        · exact Or.inl (by omega)
        · exact Or.inr (by omega)
  · intro x hx
    have hio := hx io hact
    rw [Function.update_self] at hio
    rw [hdisk x (by omega)]
    refine h.kept x fun i hi => ?_
    by_cases heq : i = io
    · subst heq
      obtain ⟨hoff, hle⟩ := hprev hi
      rw [hoff]
      omega
    · have hi' := hx i ((hactive i heq).mpr hi)
      rw [Function.update_of_ne heq, hother i heq] at hi'
      exact hi'
  · intro i hi
    by_cases heq : i = io
    · subst heq
      rw [Function.update_self]
      exact hq
    · rw [Function.update_of_ne heq, hother i heq]
      exact h.le i ((hactive i heq).mp hi)
  · intro i i' hi hi' hne
    by_cases heq : i = io
    · subst heq
      have hap := hapart i' hne.symm ((hactive i' hne.symm).mp hi')
      rw [hother i' hne.symm]
      exact hap.symm
    · have hia := (hactive i heq).mp hi
      rw [hother i heq]
      by_cases heq' : i' = io
      · subst heq'
        exact hapart i heq hia
      · rw [hother i' heq']
        exact h.apart i i' hia ((hactive i' heq').mp hi') hne
  · intro i hi
    rw [hdev]
    by_cases heq : i = io
    · subst heq
      exact hsmall
    · rw [hother i heq]
      exact h.small i ((hactive i heq).mp hi)
  · intro t f hf htype
    by_cases heq : f.io = io
    · rw [heq]
      exact hact
    · rw [hother f.io heq] at htype
      exact (hactive f.io heq).mpr (h.active t f (hflights t f hf heq).1 htype)
  · intro t f hf htype
    by_cases heq : f.io = io
    · rw [heq, Function.update_self]
      exact hown t f hf heq
    · rw [hother f.io heq] at htype
      obtain ⟨hf', hblock⟩ := hflights t f hf heq
      obtain ⟨r, m, hstage⟩ := h.stage t f hf' htype
      rw [Function.update_of_ne heq]
      exact ⟨r, m, hstage.frame hdev (by rw [hother f.io heq]) hfail hblock⟩
  · intro i hi hs
    by_cases heq : i = io
    · subst heq
      rw [Function.update_self]
      exact hend hs
    · rw [hother i heq] at hs
      rw [Function.update_of_ne heq, hother i heq]
      obtain ⟨hretval, hall⟩ := h.ended i ((hactive i heq).mp hi) hs
      refine ⟨hretval, fun hf => hall ?_⟩
      cases hw : w.failed with
      | false => rfl
      | true =>
          rw [hfail hw] at hf
          cases hf

/-! ## Callbacks -/

section Callbacks

variable {t : Nat} {f : Flight} {x : Int}

theorem Closed.old {desc : AsyncIoDesc} (h : Closed (w.take t) t f.io desc w') {y : Nat} {g : Flight}
    (hg : w'.flights y = some g) : y ≠ t ∧ w.flights y = some g := by
  have hflights : w'.flights = Function.update w.flights t none := h.flights
  rw [hflights] at hg
  by_cases hy : y = t
  · rw [hy, Function.update_self] at hg
    cases hg
  · rw [Function.update_of_ne hy] at hg
    exact ⟨hy, hg⟩

/-- The tasks when a chain has gone on: the new one, and those that are left. -/
theorem Passed.old {desc : AsyncIoDesc} {cb : TaskCb} {vbufs : List Buffer}
    (h : Passed (w.take t) t f.io desc cb vbufs w') : ∃ task : Task, task.vbufs = vbufs ∧
      ∀ y g, w'.flights y = some g → g = ⟨task, cb, f.io, false⟩ ∨ (y ≠ t ∧ w.flights y = some g) := by
  obtain ⟨task, hbufs, hflights⟩ := h.flights
  have hflights : w'.flights = Function.update (Function.update w.flights t none) w.nextTask
    (some ⟨task, cb, f.io, false⟩) := hflights
  refine ⟨task, hbufs, fun y g hg => ?_⟩
  rw [hflights] at hg
  by_cases hy : y = w.nextTask
  · rw [hy, Function.update_self] at hg
    cases hg
    exact Or.inl rfl
  · rw [Function.update_of_ne hy] at hg
    by_cases hyt : y = t
    · rw [hyt, Function.update_self] at hg
      cases hg
    · rw [Function.update_of_ne hyt] at hg
      exact Or.inr ⟨hyt, hg⟩

/-- A callback changes neither the disk nor the progress of its write. -/
theorem Content.stay (h : Content w₀ w p) (hf : w.flights t = some f)
    (htype : (w.ios f.io).desc.type = .write) (hout : SameOutside (w.take t) w' f.io) {s : IoState}
    (hown : w'.ios f.io = ⟨{ (w.ios f.io).desc with retval := x }, s⟩)
    (hother : ∀ y g, w'.flights y = some g → g.io ≠ f.io → w.flights y = some g)
    (hstage : ∀ y g, w'.flights y = some g → g.io = f.io → ∃ r m, Stage w' g (p f.io) r m)
    (hend : s ≠ .busy → x = asRetval (p f.io) ∧
      (w'.failed = false → p f.io = (w.ios f.io).desc.nbytes)) : Content w₀ w' p := by
  have hact := h.active t f hf htype
  have hdisk : w'.disk = w.disk := hout.disk
  have hcontent : Content w₀ w' (Function.update p f.io (p f.io)) := by
    refine h.proceed (p f.io) hout.dev hout.failed hout.ios (fun i _ => ?_) ?_ (fun _ => ?_)
      ?_ ?_ ?_ (fun y _ => by rw [hdisk]) (fun k hk hk' => by omega) ?_
      (fun y g hg hne => ⟨hother y g hg hne, fun _ k _ => by rw [hdisk]⟩) hstage ?_
    · rw [hout.returned]
      rfl
    · refine ⟨hact.1, ?_, ?_⟩
      · rw [hout.returned]
        exact hact.2.1
      · rw [hown]
        exact htype
    · rw [hown]
      exact ⟨rfl, Nat.le_refl _⟩
    · rw [hown]
      exact (h.small f.io hact).retval x
    · intro i hi hia
      rw [hown]
      exact h.apart i f.io hia hact hi
    · rw [hown]
      exact h.le f.io hact
    · rw [hown]
      exact h.written f.io hact
    · rw [hown]
      exact hend
  rw [Function.update_eq_self] at hcontent
  exact hcontent

theorem Content.closed (h : Content w₀ w p) (hc : Chains w) (hf : w.flights t = some f)
    (htype : (w.ios f.io).desc.type = .write)
    (hcl : Closed (w.take t) t f.io { (w.ios f.io).desc with retval := x } w')
    (hx : x = asRetval (p f.io)) (hall : w'.failed = false → p f.io = (w.ios f.io).desc.nbytes) :
    Content w₀ w' p := by
  have hold := fun y g => hcl.old (y := y) (g := g)
  refine h.stay hf htype hcl.toSameOutside hcl.own (fun y g hg _ => (hold y g hg).2)
    (fun y g hg heq => ?_) fun _ => ⟨hx, hall⟩
  obtain ⟨hy, hg⟩ := hold y g hg
  exact absurd (hc.one y g t f hg hf heq) hy

theorem Content.passed (h : Content w₀ w p) (hc : Chains w) (hf : w.flights t = some f)
    (htype : (w.ios f.io).desc.type = .write) {cb : TaskCb} {m' : Bytes}
    (hp : Passed (w.take t) t f.io { (w.ios f.io).desc with retval := x } cb
      (writeBufs w.dev (w.ios f.io).desc ⟨0, 0⟩ m' cb) w')
    (hprog : p f.io = doneBefore w.dev (w.ios f.io).desc cb)
    (hx : x = asRetval (doneBefore w.dev (w.ios f.io).desc cb))
    (hblock : holdsBlock w.dev (w.ios f.io).desc cb false = true → ∀ k < w.dev.blockSize,
      m' k = merged w.dev (w.ios f.io).desc
        (blockAt w.dev w.disk (cmdBlock w.dev (w.ios f.io).desc cb)) cb k) :
    Content w₀ w' p := by
  obtain ⟨task, hbufs, hold⟩ := hp.old
  refine h.stay hf htype hp.toSameOutside hp.own (fun y g hg hne => ?_) (fun y g hg heq => ?_)
    fun hbusy => absurd rfl hbusy
  · rcases hold y g hg with rfl | ⟨-, hg⟩
    · exact absurd rfl hne
    · exact hg
  · rcases hold y g hg with rfl | ⟨hy, hg⟩
    · have hdev : w'.dev = w.dev := hp.dev
      have hdisk : w'.disk = w.disk := hp.disk
      refine ⟨⟨0, 0⟩, m', ⟨?_, ?_, ?_, fun ha => Bool.noConfusion ha, fun hh _ => ?_⟩⟩
      · rw [hdev, hp.own, hbufs]
        exact (writeBufs_congr (.retval _ x) cb).symm
      · rw [hdev, hp.own]
        exact hx
      · rw [hdev, hp.own]
        exact hprog
      · rw [hdev, hp.own] at hh
        rw [hdev, hp.own, hdisk]
        exact hblock hh
    · exact absurd (hc.one y g t f hg hf heq) hy

theorem toSsize_asRetval {n : Nat} (hpos : 0 < n) (hlt : n < 2 ^ 63) : toSsize n = asRetval n := by
  rw [toSsize_eq hlt, asRetval, if_neg (Nat.ne_of_gt hpos)]

/-- The last callback adds the tail to what the first write command has stored. -/
theorem lastRetval_eq {dev : VirtioDev} {d : AsyncIoDesc} (hd : InRange dev d)
    (hlt : d.nbytes < 2 ^ 31) (hne : bodyLen dev d ≠ d.nbytes)
    (hret : d.retval = asRetval (bodyLen dev d)) : lastRetval dev d = asRetval d.nbytes := by
  have hlast := (tail_spec hd.ok hne).1
  have hle := bodyLen_le dev d
  have hpos := hd.pos
  unfold lastRetval
  by_cases hbody : bodyLen dev d = 0
  · have hneg : d.retval < 0 := by
      rw [hret, asRetval, if_pos hbody]
      decide
    rw [if_pos hneg, hlast, hbody, Nat.sub_zero]
    exact toSsize_asRetval hpos (by omega)
  · rw [asRetval, if_neg hbody] at hret
    have hnonneg : ¬ d.retval < 0 := by omega
    have hnat : d.retval.toNat = bodyLen dev d := by omega
    rw [if_neg hnonneg, hnat, hlast, addSize_eq (by omega), Nat.add_sub_cancel' hle]
    exact toSsize_asRetval hpos (by omega)

/-- What is known of a command of a write when it is reaped. -/
theorem Content.answered (h : Content w₀ w p) (hc : Chains w) (hf : w.flights t = some f)
    (hans : f.answered = true) {r : VirtioScsiCmdResp} {m : Bytes}
    (hbufs : f.task.vbufs = writeBufs w.dev (w.ios f.io).desc r m f.cb) :
    (w.ios f.io).desc.type = .write ∧ partExists w.dev (w.ios f.io).desc f.cb ∧
      (w.ios f.io).desc.retval = asRetval (doneBefore w.dev (w.ios f.io).desc f.cb) ∧
      (r.good = true → p f.io = doneAfter w.dev (w.ios f.io).desc f.cb) ∧
      (r.good = false → p f.io = doneBefore w.dev (w.ios f.io).desc f.cb ∧ w.failed = true) ∧
      (r.good = true → f.cb.isWrite = false → ∀ k < w.dev.blockSize,
        m k = blockAt w.dev w.disk (cmdBlock w.dev (w.ios f.io).desc f.cb) k) := by
  obtain ⟨htype, hpart⟩ : (w.ios f.io).desc.type = .write ∧
      partExists w.dev (w.ios f.io).desc f.cb := by
    refine hc.writing hf fun hcb => ?_
    cases hc.shape t f hf with
    | read _ _ hread =>
        obtain ⟨lba, n, r', rest, hread, -⟩ := hread
        rw [hcb, hread] at hbufs
        cases hbufs
    | write _ hpart =>
        rw [hcb] at hpart
        exact hpart
  obtain ⟨r', m', hstage⟩ := h.stage t f hf htype
  obtain ⟨rfl, hm⟩ := writeBufs_inj hpart (hbufs.symm.trans hstage.bufs)
  refine ⟨htype, hpart, hstage.retval, fun hgood => ?_, fun hbad => ⟨?_, hstage.failed hans hbad⟩,
    fun hgood hread k hk => ?_⟩
  · rw [hstage.progress, if_pos ⟨hans, hgood⟩]
  · rw [hstage.progress, if_neg (by rw [hbad]; simp)]
  · have hholds : holdsBlock w.dev (w.ios f.io).desc f.cb f.answered = true := by
      rw [hans]
      exact holdsBlock_of_read hpart hread
    rw [hm (carries_of_holds hholds), hstage.block hholds (fun _ => hgood) k hk,
      merged_of_read hread]

theorem Content.reaped (h : Content w₀ w p) (hc : Chains w) (hf : w.flights t = some f)
    (hans : f.answered = true) (hr : Reaped (w.take t) t f w') : Content w₀ w' p := by
  have hd := hc.range t f hf
  cases hr with
  | read desc hcb hreq hcl =>
      -- the descriptor belongs to a read, and no write is concerned
      have hread := hc.reading hf hcb
      have hown : (w'.ios f.io).desc.type ≠ .write := by
        rw [hcl.own]
        show desc.type ≠ _
        rw [hreq.type]
        exact hread
      refine h.quiet f.io hcl.dev hcl.disk hcl.failed hcl.ios (fun i _ => by rw [hcl.returned]; rfl)
        (fun hnone => by rw [hcl.returned] at hnone; exact hnone) (fun hact => hread hact.2.2) (fun hact => hown hact.2.2) (fun y g hg hne => ?_)
        fun _ _ _ _ => hown
      have hflights : w'.flights = Function.update w.flights t none := hcl.flights
      rw [hflights] at hg
      by_cases hy : y = t
      · rw [hy, Function.update_self] at hg
        cases hg
      · rw [Function.update_of_ne hy] at hg
        exact hg
  | dropped r m hbufs hfail hkind hcl =>
      obtain ⟨htype, -, hret, hgood, hbad, -⟩ := h.answered hc hf hans hbufs
      have hprog : p f.io = doneBefore w.dev (w.ios f.io).desc f.cb := by
        cases hg : r.good with
        | false => exact (hbad hg).1
        | true =>
            rw [hgood hg]
            apply doneAfter_of_read
            cases hw : f.cb.isWrite with
            | false => rfl
            | true =>
                rw [hkind hw] at hg
                cases hg
      refine h.closed hc hf htype hcl (by rw [hprog]; exact hret) fun hf' => ?_
      have hfailed : w'.failed = true := by
        cases hg : r.good with
        | false => exact hcl.failed (hbad hg).2
        | true => exact hfail hg
      rw [hfailed] at hf'
      cases hf'
  | bodyWritten r m hcb hbufs hgood hfail hcl =>
      obtain ⟨htype, hpart, -, hprog, -, -⟩ := h.answered hc hf hans hbufs
      have hprog := hprog hgood
      rw [hcb] at hprog hpart
      have hlt := (h.small f.io (h.active t f hf htype)).nbytes_lt hd
      have hle := bodyLen_le w.dev (w.ios f.io).desc
      refine h.closed hc hf htype hcl ?_ fun hf' => ?_
      · rw [hprog]
        exact toSsize_asRetval hpart (by show bodyLen w.dev (w.ios f.io).desc < _; omega)
      · rw [hprog]
        rcases hfail with heq | hfail
        · exact heq
        · rw [hfail] at hf'
          cases hf'
  | tailWritten r m hcb hbufs hgood hcl =>
      obtain ⟨htype, hpart, hret, hprog, -, -⟩ := h.answered hc hf hans hbufs
      have hprog := hprog hgood
      rw [hcb] at hprog hpart hret
      have hlt := (h.small f.io (h.active t f hf htype)).nbytes_lt hd
      refine h.closed hc hf htype hcl ?_ fun _ => hprog
      rw [hprog]
      exact lastRetval_eq hd hlt hpart hret
  | headRead r m m' hcb hbufs hgood hblock hp =>
      obtain ⟨htype, hpart, hret, hprog, -, hm⟩ := h.answered hc hf hans hbufs
      have hprog := hprog hgood
      have hm := hm hgood (by rw [hcb]; rfl)
      rw [hcb] at hprog hpart hret hm
      refine h.passed hc hf htype hp hprog hret fun _ k hk => ?_
      rw [hblock k hk]
      exact merged_congr .blkWriteFullBlocksDone (hm k hk)
  | bodyNext r m m' hcb hbufs hgood hne hp =>
      obtain ⟨htype, hpart, -, hprog, -, -⟩ := h.answered hc hf hans hbufs
      have hprog := hprog hgood
      rw [hcb] at hprog hpart
      have hlt := (h.small f.io (h.active t f hf htype)).nbytes_lt hd
      have hle := bodyLen_le w.dev (w.ios f.io).desc
      refine h.passed hc hf htype hp hprog ?_ fun hh => Bool.noConfusion hh
      exact toSsize_asRetval hpart (by show bodyLen w.dev (w.ios f.io).desc < _; omega)
  | tailRead r m m' hcb hbufs hgood hblock hp =>
      obtain ⟨htype, hpart, hret, hprog, -, hm⟩ := h.answered hc hf hans hbufs
      have hprog := hprog hgood
      have hm := hm hgood (by rw [hcb]; rfl)
      rw [hcb] at hprog hpart hret hm
      refine h.passed hc hf htype hp hprog hret fun _ k hk => ?_
      rw [hblock k hk]
      exact merged_congr .blkWriteLastBlockDone (hm k hk)

end Callbacks

/-! ## The device -/

/-- The device executes a command in full, or reports a failure. -/
def InFull (w : World) : Event → Prop
  | .exec t (.done transferred _ _) =>
      match (w.flights t).bind fun f => commandOf f.task with
      | some cmd => cmd.count * w.dev.blockSize ≤ transferred
      | none => True
  | .exec _ (.failed resp _) => resp.good = false
  | _ => True

/-- Task `t` writes a block that the chain of task `t'` has read and not yet written back. -/
def overwrites (w : World) (t t' : Nat) : Bool :=
  match w.flights t, w.flights t' with
  | some f, some f' =>
      f.cb.isWrite && holdsBlock w.dev (w.ios f'.io).desc f'.cb f'.answered &&
        decide (cmdBlock w.dev (w.ios f.io).desc f.cb ≤ cmdBlock w.dev (w.ios f'.io).desc f'.cb ∧
          cmdBlock w.dev (w.ios f'.io).desc f'.cb <
            cmdBlock w.dev (w.ios f.io).desc f.cb + cmdBlocks w.dev (w.ios f.io).desc f.cb)
  | _, _ => false

/-- No write command is executed on a block of which another chain holds a copy. -/
def NoStaleCopy (w : World) : Event → Prop
  | .exec t (.done _ _ _) => ∀ t' < w.nextTask, t' ≠ t → overwrites w t t' = false
  | _ => True

instance (w : World) (e : Event) : Decidable (InFull w e) :=
  match e with
  | .exec t (.done transferred _ _) =>
      match h : (w.flights t).bind fun f => commandOf f.task with
      | some cmd => decidable_of_iff (cmd.count * w.dev.blockSize ≤ transferred) (by simp [InFull, h])
      | none => .isTrue (by simp [InFull, h])
  | .exec _ (.failed resp _) => inferInstanceAs (Decidable (resp.good = false))
  | .submit _ _ _ => .isTrue trivial
  | .reap _ _ => .isTrue trivial
  | .collect => .isTrue trivial
  | .watermark _ => .isTrue trivial

instance (w : World) (e : Event) : Decidable (NoStaleCopy w e) :=
  match e with
  | .exec t (.done _ _ _) =>
      inferInstanceAs (Decidable (∀ t' < w.nextTask, t' ≠ t → overwrites w t t' = false))
  | .exec _ (.failed _ _) => .isTrue trivial
  | .submit _ _ _ => .isTrue trivial
  | .reap _ _ => .isTrue trivial
  | .collect => .isTrue trivial
  | .watermark _ => .isTrue trivial

theorem InFull.done {t : Nat} {f : Flight} {cmd : RwCommand} {transferred usedBytes : Nat}
    {rest : Bytes} (h : InFull w (.exec t (.done transferred rest usedBytes)))
    (hf : w.flights t = some f) (hcmd : commandOf f.task = some cmd) :
    cmd.count * w.dev.blockSize ≤ transferred := by
  simp only [InFull, hf, Option.bind_some, hcmd] at h
  exact h

theorem NoStaleCopy.done (hc : Chains w) {t t' : Nat} {f f' : Flight} {transferred usedBytes : Nat}
    {rest : Bytes} (h : NoStaleCopy w (.exec t (.done transferred rest usedBytes)))
    (hf : w.flights t = some f) (hcb : f.cb.isWrite = true) (hne : t' ≠ t)
    (hf' : w.flights t' = some f')
    (hholds : holdsBlock w.dev (w.ios f'.io).desc f'.cb f'.answered = true) :
    cmdBlock w.dev (w.ios f'.io).desc f'.cb < cmdBlock w.dev (w.ios f.io).desc f.cb ∨
      cmdBlock w.dev (w.ios f.io).desc f.cb + cmdBlocks w.dev (w.ios f.io).desc f.cb ≤
        cmdBlock w.dev (w.ios f'.io).desc f'.cb := by
  have hlt : t' < w.nextTask := by
    refine Nat.lt_of_not_le fun hle => ?_
    rw [hc.fresh t' hle] at hf'
    cases hf'
  have hover := h t' hlt hne
  simp only [overwrites, hf, hf', hcb, hholds, Bool.and_self, Bool.true_and,
    decide_eq_false_iff_not] at hover
  omega

section Device

variable {t : Nat} {f : Flight}

/-- A command of a write is answered, with `q` bytes on the disk afterwards. -/
theorem Content.answer (h : Content w₀ w p) (hc : Chains w) (hf : w.flights t = some f)
    (htype : (w.ios f.io).desc.type = .write) {q : Nat} {task : Task} (hflights : w'.flights = Function.update w.flights t
      (some { f with task := task, answered := true }))
    (hios : w'.ios = w.ios) (hret : w'.returned = w.returned) (hdev : w'.dev = w.dev)
    (hfail : w.failed = true → w'.failed = true) (hq : p f.io ≤ q)
    (hq' : q ≤ (w.ios f.io).desc.nbytes)
    (hdisk : w'.disk = w.disk.patch ((w.ios f.io).desc.offset + p f.io) (q - p f.io)
      fun k => (w.ios f.io).desc.buf (p f.io + k))
    (hstale : ∀ t' f', t' ≠ t → w.flights t' = some f' →
      holdsBlock w.dev (w.ios f'.io).desc f'.cb f'.answered = true → ∀ k < w.dev.blockSize,
        blockAt w.dev w'.disk (cmdBlock w.dev (w.ios f'.io).desc f'.cb) k =
          blockAt w.dev w.disk (cmdBlock w.dev (w.ios f'.io).desc f'.cb) k)
    (hstage : ∃ r m, Stage w' { f with task := task, answered := true } q r m) :
    Content w₀ w' (Function.update p f.io q) := by
  have hact := h.active t f hf htype
  refine h.proceed (p f.io) hdev hfail (fun i _ => by rw [hios]) (fun i _ => by rw [hret])
    ?_ (fun _ => ?_) ?_ ?_ ?_ ?_ ?_ ?_ ?_ ?_ ?_
  · unfold Active
    rw [hret, hios]
    exact hact
  · rw [hios]
    exact ⟨rfl, hq⟩
  · rw [hios]
    exact h.small f.io hact
  · intro i hi hia
    rw [hios]
    exact h.apart i f.io hia hact hi
  · rw [hios]
    exact hq'
  · intro x hx
    rw [hios] at hx
    rw [hdisk]
    exact Bytes.patch_outside _ _ (by omega)
  · intro k hk hk'
    rw [hios, hdisk, Bytes.patch_inside _ _ (by omega) (by omega)]
    congr 1
    omega
  · rw [hios]
    exact h.written f.io hact
  · intro y g hg hne
    rw [hflights] at hg
    by_cases hy : y = t
    · rw [hy, Function.update_self] at hg
      cases hg
      exact absurd rfl hne
    · rw [Function.update_of_ne hy] at hg
      exact ⟨hg, hstale y g hy hg⟩
  · intro y g hg heq
    rw [hflights] at hg
    by_cases hy : y = t
    · rw [hy, Function.update_self] at hg
      cases hg
      exact hstage
    · rw [Function.update_of_ne hy] at hg
      exact absurd (hc.one y g t f hg hf heq) hy
  · intro hs
    rw [hios] at hs
    exact absurd (hc.busy t f hf) hs

/-- A command of a write is answered without an effect on the disk. -/
theorem Content.answerQuiet (h : Content w₀ w p) (hc : Chains w) (hf : w.flights t = some f)
    (htype : (w.ios f.io).desc.type = .write) {task : Task} (hflights : w'.flights = Function.update w.flights t
      (some { f with task := task, answered := true }))
    (hios : w'.ios = w.ios) (hret : w'.returned = w.returned) (hdev : w'.dev = w.dev)
    (hfail : w.failed = true → w'.failed = true) (hdisk : w'.disk = w.disk)
    (hstage : ∃ r m, Stage w' { f with task := task, answered := true } (p f.io) r m) :
    Content w₀ w' (Function.update p f.io (p f.io)) := by
  refine h.answer hc hf htype hflights hios hret hdev hfail (Nat.le_refl _)
    (h.le f.io (h.active t f hf htype)) ?_ (fun _ _ _ _ _ _ _ => by rw [hdisk]) hstage
  rw [hdisk, Nat.sub_self, Bytes.patch_zero]

theorem bytes_data (w : World) (io : Nat) (m : Bytes) : w.bytes io (.data m) = m := rfl

theorem bytes_user (w : World) (io off : Nat) :
    w.bytes io (.user off) = fun k => (w.ios io).desc.buf (off + k) := rfl

theorem blockAt_patch {dev : VirtioDev} {disk src : Bytes} {blk n blk' k : Nat}
    (hk : k < dev.blockSize) (h : blk' < blk ∨ blk + n ≤ blk') :
    blockAt dev (disk.patch (blk * dev.blockSize) (n * dev.blockSize) src) blk' k =
      blockAt dev disk blk' k := by
  apply Bytes.patch_outside _ _
  rcases h with h | h
  · have := Nat.mul_le_mul_right dev.blockSize (Nat.succ_le_of_lt h)
    rw [Nat.succ_mul] at this
    exact Or.inl (by omega)
  · have := Nat.mul_le_mul_right dev.blockSize h
    rw [Nat.add_mul] at this
    exact Or.inr (by omega)

theorem Content.executed (h : Content w₀ w p) (hc : Chains w) (hg : w.dev.Geometry)
    (hf : w.flights t = some f) (hans : f.answered = false) {a : Answer}
    (he : Executed w t f a w') (hfull : InFull w (.exec t a)) (hstale : NoStaleCopy w (.exec t a)) :
    ∃ p', Content w₀ w' p' := by
  have hd := hc.range t f hf
  -- a task with the buffers of a write command belongs to a write
  have hwrite : ∀ r m, f.task.vbufs = writeBufs w.dev (w.ios f.io).desc r m f.cb →
      (w.ios f.io).desc.type = .write ∧ partExists w.dev (w.ios f.io).desc f.cb := by
    intro r m hbufs
    cases hc.shape t f hf with
    | read hcb _ hread =>
        obtain ⟨lba, n, r', rest, hread, -⟩ := hread
        rw [hcb, hread] at hbufs
        cases hbufs
    | write htype hpart => exact ⟨htype, hpart⟩
  have hbefore : ∀ q r m, Stage w f q r m → q = doneBefore w.dev (w.ios f.io).desc f.cb := by
    intro q r m hstage
    rw [hstage.progress, hans, if_neg (by simp)]
  cases he with
  | read a vbufs buf usedBytes failed hcb hbufs hfail =>
      have hread := hc.reading hf hcb
      have hown : (Function.update w.ios f.io (⟨{ (w.ios f.io).desc with buf := buf },
          (w.ios f.io).state⟩ : Io) f.io).desc.type ≠ .write := by
        rw [Function.update_self]
        exact hread
      refine ⟨p, h.quiet f.io rfl rfl hfail (fun i hi => Function.update_of_ne hi ..)
        (fun _ _ => rfl) id (fun hact => hread hact.2.2) (fun hact => hown hact.2.2)
        (fun y g hg' hne => ?_) fun _ _ _ _ => hown⟩
      have hg' : Function.update w.flights t _ y = some g := hg'
      by_cases hy : y = t
      · rw [hy, Function.update_self] at hg'
        cases hg'
        exact absurd rfl hne
      · rw [Function.update_of_ne hy] at hg'
        exact hg'
  | failed r resp m usedBytes hbufs =>
      obtain ⟨htype, hpart⟩ := hwrite r m hbufs
      obtain ⟨r', m', hstage⟩ := h.stage t f hf htype
      have hbad : resp.good = false := hfull
      refine ⟨_, h.answerQuiet hc hf htype rfl rfl rfl rfl (fun _ => rfl) rfl
        ⟨resp, m, rfl, hstage.retval, ?_, fun _ _ => rfl, fun _ hgood => ?_⟩⟩
      · rw [hbad, if_neg (by simp)]
        exact hbefore _ _ _ hstage
      · rw [hgood rfl] at hbad
        cases hbad
  | blockRead r m transferred rest usedBytes hcb hbufs =>
      obtain ⟨htype, hpart⟩ := hwrite r m hbufs
      obtain ⟨r', m', hstage⟩ := h.stage t f hf htype
      have hsmall := h.small f.io (h.active t f hf htype)
      obtain ⟨hlba, hcount⟩ := cmd_fits hg hd hsmall hpart
      have htrans := hfull.done hf (commandOf_writeBufs hpart hbufs)
      dsimp only at htrans
      rw [hcount, cmdBlocks_of_read hcb, Nat.one_mul] at htrans
      refine ⟨_, h.answerQuiet hc hf htype rfl rfl rfl rfl id rfl
        ⟨⟨0, 0⟩, _, rfl, hstage.retval, ?_, fun _ hbad => Bool.noConfusion hbad, fun _ _ k hk => ?_⟩⟩
      · rw [if_pos ⟨rfl, rfl⟩]
        exact (hbefore _ _ _ hstage).trans (doneAfter_of_read hcb).symm
      · have hk : k < w.dev.blockSize := hk
        rw [Bytes.patch_inside _ _ (Nat.zero_le k) (by omega), Nat.sub_zero, if_pos (by omega), hlba]
        rw [merged_of_read hcb]
        rfl
  | written r m transferred rest usedBytes hcb hbufs =>
      obtain ⟨htype, hpart⟩ := hwrite r m hbufs
      obtain ⟨r', m', hstage⟩ := h.stage t f hf htype
      obtain ⟨-, hm⟩ := writeBufs_inj hpart (hbufs.symm.trans hstage.bufs)
      have hsmall := h.small f.io (h.active t f hf htype)
      obtain ⟨hlba, hcount⟩ := cmd_fits hg hd hsmall hpart
      have hprog := hbefore _ _ _ hstage
      have hback := write_back w.disk r m hd hcb hpart
        (bytes_data w f.io) (bytes_user w f.io) fun hholds k hk => by
          rw [hm (carries_of_holds hholds)]
          rw [← hans] at hholds
          refine hstage.block hholds (fun ha => ?_) k hk
          rw [hans] at ha
          cases ha
      refine ⟨_, h.answer (q := doneAfter w.dev (w.ios f.io).desc f.cb) hc hf htype rfl rfl rfl rfl id
        ?_ (doneAfter_le f.cb) ?_ (fun t' f' hne hf' hholds k hk => ?_)
        ⟨⟨0, 0⟩, m, rfl, hstage.retval, ?_, fun _ hbad => Bool.noConfusion hbad, fun hholds => ?_⟩⟩
      · rw [hprog]
        exact doneBefore_le_after f.cb
      · show w.disk.patch _ _ _ = _
        rw [hlba, hcount, hback, hprog]
      · show blockAt w.dev (w.disk.patch _ _ _) _ k = _
        rw [hlba, hcount]
        exact blockAt_patch hk (hstale.done hc hf hcb hne hf' hholds)
      · rw [if_pos ⟨rfl, rfl⟩]
        rfl
      · have hnone := holdsBlock_of_write w.dev (w.ios f.io).desc hcb
        exact absurd (hnone.symm.trans hholds) Bool.false_ne_true

end Device

end VhostUser.Dev
