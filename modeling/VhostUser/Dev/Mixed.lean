import VhostUser.Dev.AsyncRead
import VhostUser.Dev.Writes

/-! # Reads and writes under way at the same time

Any number of writes without a common byte may be in progress, any number of reads, and any
of them may fail. The disk is then at every moment the old disk with a first part of each
write, and a read that ends without an error has the disk as it was at one moment of the
read: the device executes its one command at once, and what happens before and after that
leaves the read alone.
-/

namespace VhostUser.Dev

open VhostUser.Lib

variable {w₀ w w' : World} {dev : VirtioDev} {disk : Bytes}

/-! ## The writes -/

/-- The ranges of the writes of which `p` tells how much is stored. -/
def Writes.ranges (writes : Writes) (p : Nat → Nat) : List (Nat × Nat × Bytes) :=
  writes.map fun x => (x.2.offset, p x.1, x.2.buf)

/-- What a number of writes leaves behind, compared with the world `w₀` before them: the first
`p i` bytes of write `i`. -/
structure WritesStored (w₀ : World) (writes : Writes) (p : Nat → Nat) (w : World) : Prop where
  disk : w.disk = w₀.disk.patchAll (writes.ranges p)
  le : ∀ i d, (i, d) ∈ writes → p i ≤ d.nbytes
  /-- nothing of a write that was refused, and one is refused only after a failure -/
  refused : ∀ i d, (i, d) ∈ writes → w.returned i = some (-1) → p i = 0 ∧ w.failed = true
  /-- nothing of a write that has not come -/
  absent : ∀ i d, (i, d) ∈ writes → w.returned i = none → p i = 0
  /-- a write that was taken and has no command left was pushed once -/
  delivered : ∀ i d, (i, d) ∈ writes → w.returned i = some 0 →
    (∀ t f, w.flights t = some f → f.io ≠ i) → w.pushes.count i = 1
  /-- the result tells what is on the disk -/
  result : ∀ i d, (i, d) ∈ writes → 0 < w.pushes.count i → (w.ios i).desc.retval = asRetval (p i)
  /-- and that is everything if nothing has failed -/
  complete : ∀ i d, (i, d) ∈ writes → 0 < w.pushes.count i → w.failed = false → p i = d.nbytes

/-- The progress of the writes that were taken; there is none of the others. -/
def World.progress (w : World) (p : Nat → Nat) (i : Nat) : Nat :=
  if w.returned i = some 0 then p i else 0

theorem progress_taken {p : Nat → Nat} {i : Nat} (h : w.returned i = some 0) :
    w.progress p i = p i := if_pos h

theorem progress_absent {p : Nat → Nat} {i : Nat} (h : w.returned i ≠ some 0) :
    w.progress p i = 0 := if_neg h

theorem Account.writesStored {writes : Writes} (h : Account dev w₀ writes w)
    (hw : writes.Apart dev) (hg : dev.Geometry)
    (hnew : ∀ i d, (i, d) ∈ writes → w₀.returned i = none) : ∃ p, WritesStored w₀ writes p w := by
  obtain ⟨p, hcontent⟩ := h.content
  have hactive : ∀ i d, (i, d) ∈ writes → w.returned i = some 0 →
      Active w₀ w i ∧ SameWrite d (w.ios i).desc := fun i d hd hi => by
    have hsame := h.request i d hd (hnew i d hd) hi
    exact ⟨⟨hnew i d hd, hi, hsame.type.trans (hw.isWrite i d hd)⟩, hsame⟩
  have hwritten : ∀ i d, (i, d) ∈ writes → ∀ k < w.progress p i,
      w.disk (d.offset + k) = d.buf k := by
    intro i d hd k hk
    by_cases hret : w.returned i = some 0
    · obtain ⟨hact, hsame⟩ := hactive i d hd hret
      rw [progress_taken hret] at hk
      have hbyte := hcontent.written i hact k hk
      rwa [hsame.offset, hsame.buf (hw.isWrite i d hd)] at hbyte
    · rw [progress_absent hret] at hk
      exact absurd hk (Nat.not_lt_zero k)
  refine ⟨w.progress p, ?_, fun i d hd => ?_, fun i d hd hi => ?_, fun i d hd hi => ?_,
    fun i d hd => (h.sound.exitsOnce hg).finished i, fun i d hd hp => ?_, fun i d hd hp hfail => ?_⟩
  · refine Bytes.eq_patchAll (fun r hr k hk => ?_) fun x hx => hcontent.kept x fun i hi => ?_
    · obtain ⟨⟨i, d⟩, hd, rfl⟩ := List.mem_map.mp hr
      exact hwritten i d hd k hk
    · obtain ⟨d, hd⟩ := h.only i hi
      have hrange : x < d.offset ∨ d.offset + w.progress p i ≤ x :=
        hx _ (List.mem_map.mpr ⟨_, hd, rfl⟩)
      rwa [progress_taken hi.2.1, ← (hactive i d hd hi.2.1).2.offset] at hrange
  · by_cases hret : w.returned i = some 0
    · obtain ⟨hact, hsame⟩ := hactive i d hd hret
      rw [progress_taken hret, ← hsame.nbytes]
      exact hcontent.le i hact
    · rw [progress_absent hret]
      exact Nat.zero_le _
  · exact ⟨progress_absent (by rw [hi]; decide), h.refused i d hd (hnew i d hd) hi⟩
  · exact progress_absent (by rw [hi]; decide)
  · obtain ⟨hact, -, hbusy⟩ := h.pushed hw hd (hnew i d hd) hp
    rw [progress_taken hact.2.1]
    exact (hcontent.ended i hact hbusy).1
  · obtain ⟨hact, hsame, hbusy⟩ := h.pushed hw hd (hnew i d hd) hp
    rw [progress_taken hact.2.1, ← hsame.nbytes]
    exact (hcontent.ended i hact hbusy).2 hfail

/-- A condition under which writes do not disturb each other: they touch no common block, or no
write command is executed on a block that another chain has read and not yet written back. -/
def Peaceful (dev : VirtioDev) (writes : Writes) (s : Except Fault World) (e : Event) : Prop :=
  (∀ i d i' d', (i, d) ∈ writes → (i', d') ∈ writes → i ≠ i' → BlocksApart dev d d') ∨
    UndisturbedStep s e

/-- Any number of writes without a common byte, among any reads: whatever fails, each of them
stores a first part of its buffer and its result tells how much, and nothing else changes. -/
theorem writes_keep_first_parts (dev : VirtioDev) (hg : dev.Geometry) (disk : Bytes)
    (es₀ : List Event) (w₀ : World)
    (hrun₀ : (machine dev disk).Path AdmittedStep (machine dev disk).init es₀ (.ok w₀))
    (hidle : Idle w₀) (writes : Writes) (hw : writes.Apart dev)
    (hnew : ∀ i d, (i, d) ∈ writes → (w₀.ios i).state = .fresh) (es : List Event)
    (s : Except Fault World)
    (hrun : (machine dev disk).Path (fun s e => (ServedStep s e ∧ Planned writes e) ∧
      Peaceful dev writes s e) (.ok w₀.restart) es s) :
    ∃ w, s = .ok w ∧ ∃ p, WritesStored w₀ writes p w := by
  obtain ⟨w₁, heq, hs⟩ := Sound.run hg hrun₀
  cases heq
  obtain ⟨w, rfl, h⟩ := Account.run hw hg hs hidle hrun
  obtain ⟨p, hstored⟩ := h.writesStored hw hg fun i d hd => (hs.new (hnew i d hd)).1
  exact ⟨w, rfl, p, hstored.disk, hstored.le, hstored.refused, hstored.absent, hstored.delivered,
    hstored.result, hstored.complete⟩

theorem idle_init (dev : VirtioDev) (disk : Bytes) : Idle (init dev disk) := fun t f hf => by
  cases hf

def threeWrites : Writes := [(0, leftHalf), (1, rightHalf), (2, writeDesc 4 6 fun _ => 253)]

theorem threeWrites_apart : threeWrites.Apart smallDev := by
  have hthree : ∀ i d, (i, d) ∈ threeWrites → i = 0 ∧ d = leftHalf ∨ i = 1 ∧ d = rightHalf ∨
      i = 2 ∧ d = writeDesc 4 6 fun _ => 253 := fun i d hd => by simpa [threeWrites] using hd
  refine ⟨fun i d hd => ?_, fun i d hd => ?_, fun i d hd => ?_, fun i d i' d' hd hd' hne => ?_⟩
  · rcases hthree i d hd with ⟨-, rfl⟩ | ⟨-, rfl⟩ | ⟨-, rfl⟩ <;> rfl
  · rcases hthree i d hd with ⟨-, rfl⟩ | ⟨-, rfl⟩ | ⟨-, rfl⟩ <;> decide
  · rcases hthree i d hd with ⟨-, rfl⟩ | ⟨-, rfl⟩ | ⟨-, rfl⟩ <;> exact ⟨by decide, by decide⟩
  · have hdec : Dev.Apart d d' ↔ (d.offset + d.nbytes ≤ d'.offset ∨
        d'.offset + d'.nbytes ≤ d.offset) := Iff.rfl
    rw [hdec]
    rcases hthree i d hd with ⟨rfl, rfl⟩ | ⟨rfl, rfl⟩ | ⟨rfl, rfl⟩ <;>
      rcases hthree i' d' hd' with ⟨rfl, rfl⟩ | ⟨rfl, rfl⟩ | ⟨rfl, rfl⟩ <;>
        first | exact absurd rfl hne | decide

/-- The third write loses the command for its last block. -/
def threeWritesSchedule : List Event :=
  [.submit 0 leftHalf [], .submit 1 rightHalf [], .submit 2 (writeDesc 4 6 fun _ => 253) [],
    .exec 0 allDone, .exec 2 allDone, .reap 0 [], .exec 3 allDone, .exec 1 allDone, .reap 3 [],
    .reap 2 [], .reap 1 [], .exec 4 (.failed ⟨2, 0⟩ 0), .exec 5 allDone, .reap 4 [], .reap 5 []]

theorem writes_keep_first_parts_three : ∃ w, (machine smallDev countingDisk).Path
    (fun s e => (ServedStep s e ∧ Planned threeWrites e) ∧ Peaceful smallDev threeWrites s e)
    (.ok (init smallDev countingDisk).restart) threeWritesSchedule (.ok w) ∧
      (∃ p, WritesStored (init smallDev countingDisk) threeWrites p w) ∧
      w.pushes = [0, 2, 1] ∧ (w.ios 2).desc.retval = 4 ∧ (w.ios 1).desc.retval = 2 := by
  have hcheck : ((machine smallDev countingDisk).execIf
      (fun s e => decide (ServedStep s e ∧ UndisturbedStep s e))
      (.ok (init smallDev countingDisk).restart) threeWritesSchedule).any
      (fun s => s.toOption.any fun w => decide (w.pushes = [0, 2, 1] ∧
        (w.ios 2).desc.retval = 4 ∧ (w.ios 1).desc.retval = 2)) = true := by
    decide +kernel
  obtain ⟨s, hrun, hs⟩ := Machine.Path.of_check (fun _ _ h => of_decide_eq_true h) hcheck
  have hrun : (machine smallDev countingDisk).Path (fun s e => (ServedStep s e ∧
      Planned threeWrites e) ∧ Peaceful smallDev threeWrites s e) _ _ s :=
    (hrun.and_events (by simp [threeWritesSchedule, threeWrites, Planned])).mono
      fun _ _ h => ⟨⟨h.1.1, h.2⟩, Or.inr h.1.2⟩
  obtain ⟨w, rfl, hw⟩ := writes_keep_first_parts smallDev ⟨by decide, by decide, by decide⟩
    countingDisk [] _ (.nil _) (idle_init smallDev countingDisk) threeWrites threeWrites_apart
    (fun _ _ _ => rfl) threeWritesSchedule s hrun
  exact ⟨w, hrun, hw, of_decide_eq_true hs⟩

/-! ## What a step leaves alone -/

theorem Untouched.refl (w : World) (t io : Nat) : Untouched w w t io := ⟨rfl, rfl, rfl, rfl⟩

theorem Untouched.trans {w₁ w₂ w₃ : World} {t io : Nat} (h : Untouched w₁ w₂ t io)
    (h' : Untouched w₂ w₃ t io) : Untouched w₁ w₃ t io :=
  ⟨h'.dev.trans h.dev, h'.live.trans h.live, h'.flight.trans h.flight, h'.own.trans h.own⟩

def Event.task : Event → Option Nat
  | .exec t _ => some t
  | .reap t _ => some t
  | _ => none

/-- A step that is about another task leaves a task and its descriptor alone. -/
theorem Transition.elsewhere {e : Event} (ht : Transition w e w') (hs : Sound dev w) {t : Nat}
    {f : Flight} (hf : w.flights t = some f) (he : e.task ≠ some t) : Untouched w w' t f.io := by
  have hc := hs.chains
  have hbusy := hc.busy t f hf
  have hne : ∀ {i}, (w.ios i).state ≠ .busy → f.io ≠ i := by
    rintro i hi rfl
    exact hi hbusy
  have hnext : t ≠ w.nextTask := by
    rintro rfl
    rw [hc.fresh _ (Nat.le_refl _)] at hf
    cases hf
  cases ht with
  | refused i desc outcomes w₁ hnew hd href =>
      obtain ⟨⟨desc', hm⟩, -⟩ := href
      have hi : f.io ≠ i := hne (by rw [hnew]; decide)
      refine ⟨hm.dev, congrFun hm.live t, congrFun hm.flights t, ?_⟩
      show Function.update w₁.ios i _ f.io = _
      rw [Function.update_of_ne hi, hm.ios f.io hi]
      exact Function.update_of_ne hi ..
  | accepted i desc outcomes w₁ hnew hd hacc =>
      have hi : f.io ≠ i := hne (by rw [hnew]; decide)
      have hpassed : ∀ {desc' cb vbufs}, Passed (w.enter i desc) w.nextTask i desc' cb vbufs w₁ →
          Untouched w (w₁.leave i 0) t f.io := by
        intro desc' cb vbufs hp
        obtain ⟨hios, -, -, task, -, hflights⟩ := hp.accepted
        refine ⟨hp.dev, ?_, ?_, hios f.io hi⟩
        · show w₁.live t = _
          rw [hp.live]
          show (t == w.nextTask || (w.live t && t != w.nextTask)) = _
          rw [beq_false_of_ne hnext, bne_iff_ne.mpr hnext, Bool.false_or, Bool.and_true]
        · rw [hflights, Function.update_of_ne hnext]
      cases hacc with
      | read vbufs hbufs htype hp => exact hpassed hp
      | write cb vbufs hfirst htype hp => exact hpassed hp
  | executed t' f' a w' hf' hans h =>
      have htask : t ≠ t' := fun heq => he (congrArg some heq.symm)
      have hio : f.io ≠ f'.io := fun heq => htask (hc.one t f t' f' hf hf' heq)
      obtain ⟨task, -, hflights⟩ := h.shape (hc.shape t' f' hf')
      refine ⟨h.frame.dev, congrFun h.frame.live t, ?_, ?_⟩
      · rw [hflights, Function.update_of_ne htask]
      · cases h with
        | read a vbufs buf usedBytes failed hcb hbufs hfail => exact Function.update_of_ne hio ..
        | failed => rfl
        | blockRead => rfl
        | written => rfl
  | reaped t' f' outcomes w' hf' hans h =>
      have htask : t ≠ t' := fun heq => he (congrArg some heq.symm)
      have hio : f.io ≠ f'.io := fun heq => htask (hc.one t f t' f' hf hf' heq)
      have htake : (w.take t').flights t = w.flights t := Function.update_of_ne htask ..
      obtain ⟨desc, -, -, hcl | ⟨cb, vbufs, hp⟩⟩ := h.ends
      · refine ⟨hcl.dev, ?_, (congrFun hcl.flights t).trans htake, hcl.ios f.io hio⟩
        rw [hcl.live]
        show (w.live t && t != t') = _
        rw [bne_iff_ne.mpr htask, Bool.and_true]
      · obtain ⟨task, -, hflights⟩ := hp.flights
        refine ⟨hp.dev, ?_, ?_, hp.ios f.io hio⟩
        · rw [hp.live]
          show (t == w.nextTask || (w.live t && t != t')) = _
          rw [beq_false_of_ne hnext, bne_iff_ne.mpr htask, Bool.false_or, Bool.and_true]
        · rw [hflights]
          show Function.update (w.take t').flights w.nextTask _ t = _
          rw [Function.update_of_ne hnext, htake]
  | collected i rest hout =>
      have hcount := (hs.books.entry i).outring
      rw [hout, List.count_cons_self] at hcount
      have hi : f.io ≠ i := hne fun hb => by
        rw [hb] at hcount
        cases hcount
      exact ⟨rfl, rfl, rfl, Function.update_of_ne hi ..⟩
  | watermark n => exact ⟨rfl, rfl, rfl, rfl⟩

theorem Transition.pushes {e : Event} (ht : Transition w e w') : w.pushes <+: w'.pushes := by
  cases ht with
  | refused i desc outcomes w₁ hnew hd href =>
      obtain ⟨⟨desc', hm⟩, -⟩ := href
      exact hm.pushes.symm ▸ List.prefix_rfl
  | accepted i desc outcomes w₁ hnew hd hacc =>
      cases hacc with
      | read vbufs hbufs htype hp => exact hp.pushes.symm ▸ List.prefix_rfl
      | write cb vbufs hfirst htype hp => exact hp.pushes.symm ▸ List.prefix_rfl
  | executed t f a w' hf hans h => exact h.frame.pushes.symm ▸ List.prefix_rfl
  | reaped t f outcomes w' hf hans h =>
      rcases h.advance with hp | ⟨hp, -⟩
      · exact hp.symm ▸ List.prefix_append ..
      · exact hp.symm ▸ List.prefix_rfl
  | collected i rest hout => exact List.prefix_rfl
  | watermark n => exact List.prefix_rfl

theorem Transition.returned {e : Event} (ht : Transition w e w') (hs : Sound dev w) {i : Nat} {rc : Int}
    (hrc : w.returned i = some rc) : w'.returned i = some rc := by
  have hne : ∀ {j}, (w.ios j).state = .fresh → i ≠ j := by
    rintro j hj rfl
    rw [(hs.new hj).1] at hrc
    cases hrc
  cases ht with
  | refused j desc outcomes w₁ hnew hd href =>
      obtain ⟨⟨desc', hm⟩, -⟩ := href
      show Function.update w₁.returned j _ i = _
      rw [Function.update_of_ne (hne hnew), hm.returned]
      exact hrc
  | accepted j desc outcomes w₁ hnew hd hacc =>
      cases hacc with
      | read vbufs hbufs htype hp => exact (hp.accepted.2.1 i (hne hnew)).trans hrc
      | write cb vbufs hfirst htype hp => exact (hp.accepted.2.1 i (hne hnew)).trans hrc
  | executed t f a w' hf hans h => rw [h.frame.returned, hrc]
  | reaped t f outcomes w' hf hans h =>
      rw [h.outside.returned]
      exact hrc
  | collected j rest hout => exact hrc
  | watermark n => exact hrc

/-! ## The reads -/

/-- The command of a task that belongs to a read. -/
def readCommand (w : World) (t : Nat) : Option RwCommand :=
  match w.flights t with
  | some f => if f.cb = .blkReadDone then commandOf f.task else none
  | none => none

/-- The device executes the command of a read in full and reports what it has transferred, or
answers with a bad response. -/
def ReadInFull (w : World) : Event → Prop
  | .exec t (.done transferred _ usedBytes) =>
      match readCommand w t with
      | some cmd => transferred = cmd.count * w.dev.blockSize ∧ usedBytes = transferred + sizeofResp
      | none => True
  | .exec _ (.failed resp _) => resp.good = false
  | _ => True

theorem readInFull_iff {t transferred usedBytes : Nat} {rest : Bytes} :
    (∀ cmd ∈ readCommand w t, transferred = cmd.count * w.dev.blockSize ∧
      usedBytes = transferred + sizeofResp) ↔
        ReadInFull w (.exec t (.done transferred rest usedBytes)) := by
  rw [ReadInFull]
  cases readCommand w t with
  | none => exact ⟨fun _ => trivial, fun _ cmd hcmd => by cases hcmd⟩
  | some cmd => exact ⟨fun h => h cmd rfl, fun h _ hcmd => Option.some.inj hcmd ▸ h⟩

instance (w : World) (e : Event) : Decidable (ReadInFull w e) :=
  match e with
  | .exec _ (.done ..) => decidable_of_iff _ readInFull_iff
  | .exec _ (.failed resp _) => inferInstanceAs (Decidable (resp.good = false))
  | .submit _ _ _ => .isTrue trivial
  | .reap _ _ => .isTrue trivial
  | .collect => .isTrue trivial
  | .watermark _ => .isTrue trivial

/-- The steps of a device that serves reads. -/
def ReadStep : Except Fault World → Event → Prop
  | .ok w, e => Admitted w e ∧ ReadInFull w e
  | .error _, _ => True

instance (s : Except Fault World) (e : Event) : Decidable (ReadStep s e) :=
  match s with
  | .ok w => inferInstanceAs (Decidable (Admitted w e ∧ ReadInFull w e))
  | .error _ => inferInstanceAs (Decidable True)

/-- How a read may end: with an error after a failure, or with the disk as it was in one of the
worlds of the run. -/
def ReadResult (run : List Event → World → Prop) (d : AsyncIoDesc) (es : List Event) (w : World)
    (d' : AsyncIoDesc) : Prop :=
  d' = { d with retval := -1 } ∧ w.failed = true ∨
    ∃ as bs v, es = as ++ bs ∧ run as v ∧ d'.retval = d.nbytes ∧
      (∀ k < d.nbytes, d'.buf k = v.disk (d.offset + k)) ∧ ∀ k, d.nbytes ≤ k → d'.buf k = d.buf k

theorem ReadResult.more {run : List Event → World → Prop} {d d' : AsyncIoDesc} {es : List Event}
    (h : ReadResult run d es w d') (hfail : w.failed = true → w'.failed = true) (e : Event) :
    ReadResult run d (es ++ [e]) w' d' := by
  rcases h with ⟨hd, hf⟩ | ⟨as, bs, v, rfl, hrest⟩
  · exact Or.inl ⟨hd, hfail hf⟩
  · exact Or.inr ⟨as, bs ++ [e], v, List.append_assoc .., hrest⟩

section Stage

variable {run : List Event → World → Prop} {w₁ : World} {t io : Nat} {d : AsyncIoDesc}
  {es : List Event}

/-- Where a read stands that was taken in `w₁`, where task `t` works for it. -/
inductive ReadStage (run : List Event → World → Prop) (w₁ : World) (t io : Nat) (d : AsyncIoDesc)
    (es : List Event) (w : World) : Prop
  /-- the device has not executed its command -/
  | waiting (h : Untouched w₁ w t io)
  /-- the callback will give the descriptor back -/
  | answered (f : Flight) (hf : w.flights t = some f) (hio : f.io = io) (hans : f.answered = true)
      (h : ∀ v os w', Untouched w v t io → v.outring.length < outringCapacity →
        stepWorld v (.reap t os) = some (.ok w') →
          (w'.ios io).state = .pushed ∧ ReadResult run d es w (w'.ios io).desc)
  /-- the descriptor was given back -/
  | done (hp : 0 < w.pushes.count io) (h : ReadResult run d es w (w.ios io).desc)

theorem reap_failed (resp : VirtioScsiCmdResp) {f : Flight} (hf : w.flights t = some f)
    (hcb : f.cb = .blkReadDone) (hio : f.io = io) (hans : f.answered = true)
    (hlive : w.live t = true) (hown : w.ios io = ⟨d, .busy⟩)
    (hresp : f.task.vbufs[1]? = some (respBuf resp)) (hbad : resp.good = false)
    (hspace : w.outring.length < outringCapacity) (os : List (Option Bytes)) :
    ∃ w', stepWorld w (.reap t os) = some (.ok w') ∧
      w'.ios io = ⟨{ d with retval := -1 }, .pushed⟩ := by
  have hheld : Held False (w.take t) t io :=
    ⟨hlive, Function.update_self .., by rw [show (w.take t).ios io = _ from hown], fun _ => hspace⟩
  have hdone : Calls False False (blkReadDone ⟨t, f.task⟩ io) _ (w.take t) :=
    blkReadDone_calls hheld hresp rfl
  obtain ⟨_, w', os', hrun, hpost⟩ := wp_of_calls hdone os
  rcases hpost with ⟨-, hclosed⟩ | ⟨hgood, -⟩
  · refine ⟨w', ?_, ?_⟩
    · simp only [stepWorld, hf, hans, if_true, hcb, hio, runCallback, hrun]
      rfl
    · have hown' := hclosed.own
      rwa [show (w.take t).ios io = _ from hown] at hown'
  · rw [hbad] at hgood
    cases hgood

/-- What a read needs so that its command transfers exactly its blocks. -/
structure Readable (w : World) (d : AsyncIoDesc) : Prop where
  geometry : w.dev.Geometry
  small : Small w.dev d
  pos : 0 < d.nbytes
  le : d.offset + d.nbytes ≤ w.dev.cap

theorem Readable.offset_lt (h : Readable w d) : d.offset < w.dev.cap := by
  have hpos := h.pos
  have hle := h.le
  omega

theorem Readable.clippedLen (h : Readable w d) : clippedLen w.dev d = d.nbytes := by
  have hcap := h.geometry.cap_lt
  have hle := h.le
  have hclip : Dev.clippedLen w.dev d = min d.nbytes (w.dev.cap - d.offset) :=
    clip_eq (Nat.le_of_lt h.offset_lt) (by omega)
  omega

theorem Readable.sum_lt (h : Readable w d) : firstResid w.dev d + d.nbytes < 2 ^ 64 := by
  have hcap := h.geometry.cap_lt
  have hle := h.le
  have hfirst : firstResid w.dev d ≤ d.offset := Nat.mod_le ..
  omega

theorem Readable.blocks (h : Readable w d) : readBlocks w.dev d = touchedBlocks w.dev d := by
  have hspanned := spannedBlocks_eq (d := d) (h.geometry.pos h.offset_lt)
    (h.clippedLen.symm ▸ h.sum_lt) (h.clippedLen.symm ▸ h.pos)
  rw [h.clippedLen] at hspanned
  exact hspanned.symm

theorem ReadFlight.delivers_all {head tail : Bytes} {f : Flight}
    (h : ReadFlight w t io d head tail f) (hans : f.answered = false) (hd : Readable w d) :
    Delivers w t io (touchedBlocks w.dev d) d.nbytes d := by
  have hbytes := hd.small.bytes
  have hcap := hd.geometry.cap_lt
  have hle := hd.le
  rw [← hd.blocks] at hbytes ⊢
  exact h.delivers hans hd.geometry (hd.geometry.pos hd.offset_lt) hd.offset_lt (by omega)
    hd.clippedLen hd.pos hd.sum_lt hbytes

/-- The command of the read is for the blocks that it touches. -/
theorem ReadFlight.command {head tail : Bytes} {f : Flight} (h : ReadFlight w t io d head tail f)
    (hd : Readable w d) : ∃ lba, readCommand w t = some ⟨false, lba, touchedBlocks w.dev d⟩ := by
  have hcmd := commandOf_reqBuf h.bufs
  rw [hd.blocks, Nat.mod_eq_of_lt (lt_countBits hd.small.blocks)] at hcmd
  refine ⟨d.offset / w.dev.blockSize % 2 ^ lbaBits w.dev, ?_⟩
  rw [readCommand, h.flight]
  exact (if_pos h.cb).trans hcmd

theorem ReadFlight.executed {head tail : Bytes} {f : Flight} (h : ReadFlight w t io d head tail f)
    (hans : f.answered = false) (hd : Readable w d) (hs : Sound dev w) {a : Answer}
    (hstep : stepWorld w (.exec t a) = some (.ok w')) (hfull : ReadInFull w (.exec t a))
    (hrun : run es w) : ReadStage run w₁ t io d (es ++ [.exec t a]) w' := by
  have hexec : w.exec t f a = w' := by
    simp only [stepWorld, h.flight, hans] at hstep
    cases hstep
    rfl
  have hshape := hs.chains.shape t f h.flight
  obtain ⟨task, -, hflights⟩ := (hexec ▸ exec_spec hshape a : Executed w t f a w').shape hshape
  have hflight : w'.flights t = some { f with task := task, answered := true } := by
    rw [hflights, Function.update_self]
  refine .answered _ hflight h.arg rfl fun v os w₂ hv hspace hreap => ?_
  cases a with
  | failed resp usedBytes =>
      subst hexec
      obtain ⟨w₃, hreap', hown⟩ := reap_failed resp
        (hv.flight.trans (Function.update_self ..)) h.cb h.arg rfl (hv.live.trans h.live)
        (hv.own.trans h.own) (by rw [h.bufs]; rfl) hfull hspace os
      rw [hreap] at hreap'
      cases hreap'
      rw [hown]
      exact ⟨rfl, Or.inl ⟨rfl, rfl⟩⟩
  | done transferred rest usedBytes =>
      obtain ⟨lba, hcmd⟩ := h.command hd
      simp only [ReadInFull, hcmd] at hfull
      obtain ⟨rfl, rfl⟩ := hfull
      obtain ⟨v₁, hstep', hreaps⟩ := h.delivers_all hans hd w rest (.refl ..)
      rw [hstep] at hstep'
      cases hstep'
      obtain ⟨w₃, hreap', hdelivered⟩ := hreaps v os hv hspace
      rw [hreap] at hreap'
      cases hreap'
      exact ⟨hdelivered.pushed, Or.inr ⟨es, _, w, rfl, hrun, hdelivered.retval, hdelivered.bytes,
        hdelivered.rest⟩⟩

/-- One step of a run in which a read is under way. -/
theorem ReadStage.step {head tail : Bytes} {f : Flight} (h : ReadStage run w₁ t io d es w)
    (hflight : ReadFlight w₁ t io d head tail f) (hans : f.answered = false)
    (hd : Readable w₁ d) (hs : Sound dev w) (hs' : Sound dev w') {e : Event}
    (hstep : stepWorld w e = some (.ok w')) (ht : Transition w e w') (hfull : ReadInFull w e)
    (hrun : run es w) : ReadStage run w₁ t io d (es ++ [e]) w' := by
  cases h with
  | waiting hv =>
      have hnow := hflight.untouched hv
      by_cases he : e.task = some t
      · cases e with
        | exec t' a =>
            cases he
            have hd : Readable w d := ⟨hv.dev ▸ hd.geometry, hv.dev ▸ hd.small, hd.pos, hv.dev ▸ hd.le⟩
            exact hnow.executed hans hd hs hstep hfull hrun
        | reap t' os =>
            cases he
            simp only [stepWorld, hnow.flight, hans, Bool.false_eq_true, if_false] at hstep
            cases hstep
        | submit i desc os => cases he
        | collect => cases he
        | watermark n => cases he
      · exact .waiting (hv.trans (hflight.arg ▸ ht.elsewhere hs hnow.flight he))
  | answered g hg hio hga hreap =>
      by_cases he : e.task = some t
      · cases e with
        | exec t' a =>
            cases he
            simp only [stepWorld, hg, hga, if_true] at hstep
            cases hstep
        | reap t' os =>
            cases he
            have hbusy := hs.chains.busy t g hg
            obtain ⟨hpushed, hresult⟩ := hreap w os w' (.refl ..) (hs.books.space hbusy) hstep
            have hcount := (hs'.books.entry io).pushes
            rw [hpushed] at hcount
            exact .done (Nat.lt_of_lt_of_eq Nat.one_pos hcount.symm) (hresult.more ht.failed _)
        | submit i desc os => cases he
        | collect => cases he
        | watermark n => cases he
      · have huntouched := ht.elsewhere hs hg he
        rw [hio] at huntouched
        exact .answered g (huntouched.flight.trans hg) hio hga fun v os w₂ hv hspace hstep₂ =>
          (hreap v os w₂ (huntouched.trans hv) hspace hstep₂).imp_right (·.more ht.failed e)
  | done hp hresult =>
      refine .done (Nat.lt_of_lt_of_le hp (ht.pushes.sublist.count_le io)) ?_
      rw [ht.untouched hs.chains hs.books hp]
      exact hresult.more ht.failed e

theorem ReadStage.of_run {ok : Except Fault World → Event → Prop} (hok : ∀ s e, ok s e → ReadStep s e)
    (hg : dev.Geometry) {head tail : Bytes} {f : Flight}
    (hflight : ReadFlight w₁ t io d head tail f) (hans : f.answered = false) (hd : Readable w₁ d)
    (hs : Sound dev w₁) {s : Except Fault World} (hrun : (machine dev disk).Path ok (.ok w₁) es s) :
    ∃ w, s = .ok w ∧ Sound dev w ∧
      ReadStage (fun as v => (machine dev disk).Path ok (.ok w₁) as (.ok v)) w₁ t io d es w := by
  refine Machine.Path.history (I := fun es s => ∃ w, s = .ok w ∧ Sound dev w ∧ ReadStage (fun as v =>
    (machine dev disk).Path ok (.ok w₁) as (.ok v)) w₁ t io d es w) ?_ (.nil _) hrun
    ⟨w₁, rfl, hs, .waiting (.refl ..)⟩
  rintro es s e s' hpre ⟨w, rfl, hw, hstage⟩ hok' hstep
  obtain ⟨hadm, hfull⟩ := hok _ _ hok'
  obtain ⟨w', rfl, ht⟩ := step_cases hw.chains hw.books (hw.dev ▸ hg) hadm hstep
  have hw' := hw.step hadm ht
  exact ⟨w', rfl, hw', hstage.step hflight hans hd hw hw' hstep ht hfull hpre⟩

end Stage

theorem ReadResult.mono {run run' : List Event → World → Prop} {d d' : AsyncIoDesc}
    {es : List Event} (h : ReadResult run d es w d') (hrun : ∀ as v, run as v → run' as v) :
    ReadResult run' d es w d' := by
  rcases h with hfail | ⟨as, bs, v, hes, hv, hrest⟩
  · exact Or.inl hfail
  · exact Or.inr ⟨as, bs, v, hes, hrun as v hv, hrest⟩

/-- What becomes of a read in a run. -/
structure ReadEnds (run : List Event → World → Prop) (io : Nat) (d : AsyncIoDesc)
    (es : List Event) (w : World) : Prop where
  /-- it is refused only after a failure -/
  refused : w.returned io = some (-1) → w.failed = true
  /-- a read that was taken and has no command left was pushed once -/
  delivered : w.returned io = some 0 → (∀ t f, w.flights t = some f → f.io ≠ io) →
    w.pushes.count io = 1
  /-- and then it has a result -/
  result : 0 < w.pushes.count io → ReadResult run d es w (w.ios io).desc

theorem Sound.restart (hs : Sound dev w) : Sound dev w.restart := by
  have hc := hs.chains
  exact ⟨hs.dev, ⟨hc.fresh, hc.live, hc.balanced, hc.busy, hc.range, hc.shape, hc.one, hc.owner,
    hc.rank, hc.sent, hc.unsent⟩, ⟨⟨fun i => (hs.books.entry i).frame rfl rfl rfl rfl⟩,
    hs.books.room⟩⟩

section Reads

variable {ok : Except Fault World → Event → Prop}

theorem returned_run (hok : ∀ s e, ok s e → ReadStep s e) (hg : dev.Geometry) (hs : Sound dev w)
    {es : List Event} {s : Except Fault World} (hrun : (machine dev disk).Path ok (.ok w) es s)
    {i : Nat} {rc : Int} (hrc : w.returned i = some rc) :
    ∃ w', s = .ok w' ∧ Sound dev w' ∧ w'.returned i = some rc ∧ (w.failed = true → w'.failed = true) ∧
      (0 < w.pushes.count i → 0 < w'.pushes.count i ∧ (w'.ios i).desc = (w.ios i).desc) := by
  refine hrun.invariant (I := fun s => ∃ w', s = .ok w' ∧ Sound dev w' ∧ w'.returned i = some rc ∧
    (w.failed = true → w'.failed = true) ∧ (0 < w.pushes.count i → 0 < w'.pushes.count i ∧
      (w'.ios i).desc = (w.ios i).desc)) ?_ ⟨w, rfl, hs, hrc, id, fun hp => ⟨hp, rfl⟩⟩
  rintro s e s' ⟨v, rfl, hv, hrc, hfail, hpushed⟩ hok' hstep
  have hadm := (hok _ _ hok').1
  obtain ⟨v', rfl, ht⟩ := step_cases hv.chains hv.books (hv.dev ▸ hg) hadm hstep
  refine ⟨v', rfl, hv.step hadm ht, ht.returned hv hrc, fun hf => ht.failed (hfail hf), fun hp => ?_⟩
  obtain ⟨hp, hdesc⟩ := hpushed hp
  exact ⟨Nat.lt_of_lt_of_le hp (ht.pushes.sublist.count_le i),
    (ht.untouched hv.chains hv.books hp).trans hdesc⟩

theorem Sound.read (hok : ∀ s e, ok s e → ReadStep s e) (hg : dev.Geometry) (hs : Sound dev w)
    {io : Nat} {d : AsyncIoDesc} (hnew : (w.ios io).state = .fresh) (htype : d.type = .read)
    (hsmall : Small dev d) {os : List (Option Bytes)} {es : List Event} {s : Except Fault World}
    (hrun : (machine dev disk).Path ok (.ok w) (.submit io d os :: es) s) :
    ∃ w', s = .ok w' ∧ Sound dev w' ∧ ReadEnds (fun as v =>
      (machine dev disk).Path ok (.ok w) (.submit io d os :: as) (.ok v)) io d es w' := by
  cases hrun with
  | cons hok' hstep rest =>
      have hg' : w.dev.Geometry := hs.dev ▸ hg
      have hadm := (hok _ _ hok').1
      have hd : Readable w d := ⟨hg', hs.dev ▸ hsmall, hadm.1, hadm.2.1⟩
      have hcap := hg'.cap_lt
      have hle := hd.le
      obtain ⟨w₁, hsubmit, hdev, hpost⟩ := submit_read (hs.chains.vacant hnew) htype
        (hg'.pos hd.offset_lt) hcap (Nat.le_of_lt hd.offset_lt) hd.pos (by omega) os
      obtain ⟨w₁', rfl, ht⟩ := step_cases hs.chains hs.books hg' hadm hstep
      have hstep' : stepWorld w (.submit io d os) = some (.ok w₁') := hstep
      rw [hsubmit] at hstep'
      cases hstep'
      have hs₁ := hs.step hadm ht
      have hexits : ∀ {w'}, Sound dev w' → ExitsOnce w' := fun h => h.exitsOnce hg
      rcases hpost with ⟨hret, -⟩ | ⟨hret, head, tail, f, hans, hflight⟩
      · obtain ⟨w', rfl, hs', hret', hfail, -⟩ := returned_run hok hg hs₁ rest hret
        have hfailed : w₁.failed = true := by
          rcases ht.refusal hret with hold | ⟨desc, os', heq, hfail⟩
          · rw [(hs.new hnew).1] at hold
            cases hold
          · cases heq
            exact hfail (by rw [htype]; decide)
        have hzero := ((hexits hs').refused io hret').1
        exact ⟨w', rfl, hs', fun _ => hfail hfailed, fun _ => (hexits hs').finished io ‹_›,
          fun hp => absurd hp (by rw [hzero]; decide)⟩
      · have hd₁ : Readable w₁ d := ⟨hdev ▸ hg', hdev ▸ hd.small, hd.pos, hdev ▸ hd.le⟩
        obtain ⟨w', rfl, hs', hstage⟩ := ReadStage.of_run hok hg hflight hans hd₁ hs₁ rest
        obtain ⟨w'', heq, -, hret', -, -⟩ := returned_run hok hg hs₁ rest hret
        cases heq
        refine ⟨w', rfl, hs', fun hrefused => ?_, (hexits hs').finished io, fun hp => ?_⟩
        · rw [hret'] at hrefused
          cases hrefused
        · have hbusy := (hs'.books.pushed_state hp).1
          cases hstage with
          | waiting hv =>
              rw [hv.own, hflight.own] at hbusy
              exact absurd rfl hbusy
          | answered g hg' hio =>
              rw [← hio, hs'.chains.busy _ g hg'] at hbusy
              exact absurd rfl hbusy
          | done _ hresult => exact hresult.mono fun as v hv => .cons hok' hstep hv

end Reads

/-- A read among any other reads and writes, whatever fails: it ends at most once, and without
an error it has all its bytes as they were on the disk in one world of the run, at one moment
between its submission and its end. -/
theorem async_read_sees_one_disk (dev : VirtioDev) (hg : dev.Geometry) (disk : Bytes)
    (es₀ : List Event) (w₀ : World)
    (hrun₀ : (machine dev disk).Path AdmittedStep (machine dev disk).init es₀ (.ok w₀)) (io : Nat)
    (d : AsyncIoDesc) (hnew : (w₀.ios io).state = .fresh) (htype : d.type = .read)
    (hsmall : Small dev d) (os : List (Option Bytes)) (es : List Event) (s : Except Fault World)
    (hrun : (machine dev disk).Path ReadStep (.ok w₀.restart) (.submit io d os :: es) s) :
    ∃ w, s = .ok w ∧ ReadEnds (fun as v => (machine dev disk).Path ReadStep (.ok w₀.restart)
      (.submit io d os :: as) (.ok v)) io d es w := by
  obtain ⟨w₁, heq, hs⟩ := Sound.run hg hrun₀
  cases heq
  obtain ⟨w, hw, -, hends⟩ := hs.restart.read (fun _ _ => id) hg hnew htype hsmall hrun
  exact ⟨w, hw, hends⟩

/-- A write that was submitted before the read and is executed before it, and one that comes in
between. -/
def snapshotSchedule : List Event :=
  [.submit 1 (readDesc 2 6) [], .exec 0 allDone, .submit 2 (writeDesc 4 4 fun _ => 254) [],
    .exec 1 (.done 8 (fun _ => 9) 116), .exec 2 allDone, .reap 2 [], .reap 0 [], .reap 1 []]

theorem async_read_sees_one_disk_between : ∃ w₀ w, (machine smallDev countingDisk).Path AdmittedStep
    (machine smallDev countingDisk).init [.submit 0 (writeDesc 0 4 fun _ => 255) []] (.ok w₀) ∧
      (machine smallDev countingDisk).Path ReadStep (.ok w₀.restart) snapshotSchedule (.ok w) ∧
      ReadEnds (fun as v => (machine smallDev countingDisk).Path ReadStep (.ok w₀.restart)
        (.submit 1 (readDesc 2 6) [] :: as) (.ok v)) 1 (readDesc 2 6) snapshotSchedule.tail w ∧
      w.pushes = [2, 0, 1] ∧ (w.ios 1).desc.retval = 6 ∧ (w.ios 1).desc.buf 1 = 255 ∧
      (w.ios 1).desc.buf 2 = 4 := by
  have hcheck : ((machine smallDev countingDisk).execIf (fun s e => decide (AdmittedStep s e))
      (machine smallDev countingDisk).init [.submit 0 (writeDesc 0 4 fun _ => 255) []]).any
      (fun s => s.toOption.any fun w₀ => decide ((w₀.ios 1).state = .fresh ∧
        ((machine smallDev countingDisk).execIf (fun s e => decide (ReadStep s e)) (.ok w₀.restart)
          snapshotSchedule).any (fun s => s.toOption.any fun w => decide (w.pushes = [2, 0, 1] ∧
            (w.ios 1).desc.retval = 6 ∧ (w.ios 1).desc.buf 1 = 255 ∧ (w.ios 1).desc.buf 2 = 4)) =
              true)) = true := by
    decide +kernel
  obtain ⟨w₀, hrun₀, hfresh, hcheck⟩ := Machine.Path.of_check_ok hcheck
  obtain ⟨w, hrun, hw⟩ := Machine.Path.of_check_ok hcheck
  obtain ⟨w', heq, hends⟩ := async_read_sees_one_disk smallDev ⟨by decide, by decide, by decide⟩
    countingDisk _ w₀ hrun₀ 1 (readDesc 2 6) hfresh rfl ⟨by decide, by decide⟩ []
    snapshotSchedule.tail _ hrun
  cases heq
  exact ⟨w₀, w, hrun₀, hrun, hends, hw⟩

/-! ## Reads and writes -/

/-- All that is asked of the steps of a run with the given writes, and with any reads. -/
def MixedStep (dev : VirtioDev) (writes : Writes) (s : Except Fault World) (e : Event) : Prop :=
  ((ServedStep s e ∧ Planned writes e) ∧ Peaceful dev writes s e) ∧ ReadStep s e

/-- What a read returns is the disk with a first part of each write: of a write that has ended
before the read was submitted, the part that its result tells, and nothing of a write that has
not been submitted when the read has ended. -/
structure Agrees (w₀ w₁ : World) (writes : Writes) (d : AsyncIoDesc) (w : World) (d' : AsyncIoDesc)
    (p : Nat → Nat) : Prop where
  retval : d'.retval = d.nbytes
  bytes : ∀ k < d.nbytes, d'.buf k = w₀.disk.patchAll (writes.ranges p) (d.offset + k)
  le : ∀ i x, (i, x) ∈ writes → p i ≤ x.nbytes
  before : ∀ i x, (i, x) ∈ writes → 0 < w₁.pushes.count i → (w₁.ios i).desc.retval = asRetval (p i)
  after : ∀ i x, (i, x) ∈ writes → w.returned i = none → p i = 0

/-- A read in a run with any number of writes that do not disturb each other agrees with them, or
ends with an error after a failure. -/
theorem async_reads_agree_with_writes (dev : VirtioDev) (hg : dev.Geometry) (disk : Bytes)
    (es₀ : List Event) (w₀ : World)
    (hrun₀ : (machine dev disk).Path AdmittedStep (machine dev disk).init es₀ (.ok w₀))
    (hidle : Idle w₀) (writes : Writes) (hw : writes.Apart dev)
    (hnew : ∀ i d, (i, d) ∈ writes → (w₀.ios i).state = .fresh) (es₁ : List Event) (w₁ : World)
    (hrun₁ : (machine dev disk).Path (MixedStep dev writes) (.ok w₀.restart) es₁ (.ok w₁)) (io : Nat)
    (d : AsyncIoDesc) (hfresh : (w₁.ios io).state = .fresh) (htype : d.type = .read)
    (hsmall : Small dev d) (os : List (Option Bytes)) (es : List Event) (s : Except Fault World)
    (hrun : (machine dev disk).Path (MixedStep dev writes) (.ok w₁) (.submit io d os :: es) s) :
    ∃ w, s = .ok w ∧ (0 < w.pushes.count io →
      (w.ios io).desc = { d with retval := -1 } ∧ w.failed = true ∨
        ∃ p, Agrees w₀ w₁ writes d w (w.ios io).desc p) := by
  obtain ⟨w', heq, hs₀⟩ := Sound.run hg hrun₀
  cases heq
  have hok : ∀ s e, MixedStep dev writes s e → ReadStep s e := fun _ _ h => h.2
  have hserved : ∀ s e, MixedStep dev writes s e → (ServedStep s e ∧ Planned writes e) ∧
      Peaceful dev writes s e := fun _ _ h => h.1
  have hnone : ∀ i x, (i, x) ∈ writes → w₀.returned i = none := fun i x hx => (hs₀.new (hnew i x hx)).1
  obtain ⟨w', heq, h₁⟩ := Account.run hw hg hs₀ hidle (hrun₁.mono hserved)
  cases heq
  obtain ⟨w, rfl, hs, hends⟩ := h₁.sound.read hok hg hfresh htype hsmall hrun
  refine ⟨w, rfl, fun hp => (hends.result hp).imp_right ?_⟩
  rintro ⟨as, bs, v, rfl, hv, hretval, hbytes, -⟩
  -- the writes at the moment of the read
  obtain ⟨v', heq, hacc⟩ := Account.run hw hg hs₀ hidle ((hrun₁.trans hv).mono hserved)
  cases heq
  obtain ⟨p, hstored⟩ := hacc.writesStored hw hg hnone
  refine ⟨p, hretval, fun k hk => ?_, hstored.le, fun i x hx hpushed => ?_, fun i x hx hret => ?_⟩
  · rw [hbytes k hk, hstored.disk]
    rfl
  · have hret : w₁.returned i = some 0 := (h₁.pushed hw hx (hnone i x hx) hpushed).1.2.1
    obtain ⟨v', heq, -, -, -, hkept⟩ := returned_run hok hg h₁.sound hv hret
    cases heq
    obtain ⟨hpushed, hdesc⟩ := hkept hpushed
    rw [← hdesc]
    exact hstored.result i x hx hpushed
  · refine hstored.absent i x hx ?_
    obtain ⟨v', hfirst, hrest⟩ := (show (machine dev disk).Path (MixedStep dev writes) (.ok w₁)
      ((.submit io d os :: as) ++ bs) (.ok w) from hrun).split
    cases hfirst.functional hv
    cases hrc : v.returned i with
    | none => rfl
    | some rc =>
        obtain ⟨w', heq, -, hret', -⟩ := returned_run hok hg hacc.sound hrest hrc
        cases heq
        rw [hret] at hret'
        cases hret'

def leftSchedule : List Event :=
  [.submit 0 leftHalf [], .exec 0 allDone, .reap 0 [], .exec 1 allDone, .reap 1 []]

/-- The second is submitted after the read and is under way when the read is executed, and the
third does not come. -/
def rightSchedule : List Event :=
  [.submit 3 (readDesc 1 3) [], .submit 1 rightHalf [], .exec 3 allDone,
    .exec 2 (.done 4 (fun _ => 9) 112), .reap 3 [], .exec 4 allDone, .reap 2 [], .reap 4 []]

theorem mixed_of_checked {writes : Writes} {s s' : Except Fault World} {es : List Event}
    (h : (machine dev disk).Path (fun s e => (ServedStep s e ∧ UndisturbedStep s e) ∧ ReadStep s e)
      s es s') (hplan : ∀ e ∈ es, Planned writes e) :
    (machine dev disk).Path (MixedStep dev writes) s es s' :=
  (h.and_events hplan).mono fun _ _ h => ⟨⟨⟨h.1.1.1, h.2⟩, Or.inr h.1.1.2⟩, h.1.2⟩

theorem async_reads_agree_with_writes_halves : ∃ w₁ w,
    (machine smallDev countingDisk).Path (MixedStep smallDev threeWrites)
      (.ok (init smallDev countingDisk).restart) leftSchedule (.ok w₁) ∧
    (machine smallDev countingDisk).Path (MixedStep smallDev threeWrites) (.ok w₁) rightSchedule
      (.ok w) ∧ w₁.pushes = [0] ∧ w.pushes = [0, 3, 1] ∧
      (∃ p, Agrees (init smallDev countingDisk) w₁ threeWrites (readDesc 1 3) w (w.ios 3).desc p) ∧
      (w.ios 3).desc.buf 0 = 254 ∧ (w.ios 3).desc.buf 1 = 2 := by
  have hcheck : ((machine smallDev countingDisk).execIf
      (fun s e => decide ((ServedStep s e ∧ UndisturbedStep s e) ∧ ReadStep s e))
      (.ok (init smallDev countingDisk).restart) leftSchedule).any (fun s => s.toOption.any fun w₁ =>
        decide (((w₁.ios 3).state = .fresh ∧ w₁.pushes = [0]) ∧
          ((machine smallDev countingDisk).execIf
            (fun s e => decide ((ServedStep s e ∧ UndisturbedStep s e) ∧ ReadStep s e)) (.ok w₁)
            rightSchedule).any (fun s => s.toOption.any fun w => decide ((w.pushes = [0, 3, 1] ∧
              w.failed = false) ∧ (w.ios 3).desc.buf 0 = 254 ∧ (w.ios 3).desc.buf 1 = 2)) = true)) =
      true := by
    decide +kernel
  obtain ⟨w₁, hrun₁, ⟨hfresh, hpushes₁⟩, hcheck⟩ := Machine.Path.of_check_ok hcheck
  obtain ⟨w, hrun, ⟨hpushes, hfail⟩, hbytes⟩ := Machine.Path.of_check_ok hcheck
  have hplan₁ : ∀ e ∈ leftSchedule, Planned threeWrites e := by simp [leftSchedule, threeWrites, Planned]
  have hplan : ∀ e ∈ rightSchedule, Planned threeWrites e := by
    simp [rightSchedule, threeWrites, Planned, readDesc]
  have hmixed₁ := mixed_of_checked hrun₁ hplan₁
  have hmixed := mixed_of_checked hrun hplan
  obtain ⟨w', heq, hends⟩ := async_reads_agree_with_writes smallDev
    ⟨by decide, by decide, by decide⟩ countingDisk [] _ (.nil _) (idle_init smallDev countingDisk)
    threeWrites threeWrites_apart (fun _ _ _ => rfl) leftSchedule w₁ hmixed₁ 3 (readDesc 1 3) hfresh rfl
    ⟨by decide, by decide⟩ [] rightSchedule.tail _ hmixed
  cases heq
  rcases hends (by rw [hpushes]; decide) with ⟨-, hfailed⟩ | hagrees
  · rw [hfail] at hfailed
    cases hfailed
  · exact ⟨w₁, w, hmixed₁, hmixed, hpushes₁, hpushes, hagrees, hbytes⟩

end VhostUser.Dev
