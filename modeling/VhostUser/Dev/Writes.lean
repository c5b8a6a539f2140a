import VhostUser.Dev.Exits
import VhostUser.Dev.WriteRun

/-! # What writes leave on the disk

A run with a given list of writes that have no byte in common: each of them stores a
prefix of its buffer and returns its length. With one write no further condition is
needed, whatever fails. With several, no write command may be executed on a block of
which another chain holds a copy: otherwise an update is lost.
-/

namespace VhostUser.Dev

open VhostUser.Lib

variable {w₀ w w' : World} {dev : VirtioDev} {disk : Bytes}

abbrev Writes := List (Nat × AsyncIoDesc)

/-- The writes are small and not empty, and no two of them have a byte in common. -/
structure Writes.Apart (writes : Writes) (dev : VirtioDev) : Prop where
  isWrite : ∀ i d, (i, d) ∈ writes → d.type = .write
  pos : ∀ i d, (i, d) ∈ writes → 0 < d.nbytes
  small : ∀ i d, (i, d) ∈ writes → Small dev d
  apart : ∀ i d i' d', (i, d) ∈ writes → (i', d') ∈ writes → i ≠ i' → Dev.Apart d d'

/-- Every write that is submitted is one of the list. -/
def Planned (writes : Writes) : Event → Prop
  | .submit i desc _ => (desc.type = .write → (i, desc) ∈ writes) ∧
      ∀ d, (i, d) ∈ writes → d = desc
  | _ => True

/-- The account of a run: its writes are those of the list. -/
structure Account (dev : VirtioDev) (w₀ : World) (writes : Writes) (w : World) : Prop where
  sound : Sound dev w
  content : ∃ p, Content w₀ w p
  only : ∀ i, Active w₀ w i → ∃ d, (i, d) ∈ writes
  request : ∀ i d, (i, d) ∈ writes → w₀.returned i = none → w.returned i = some 0 →
    SameWrite d (w.ios i).desc
  refused : ∀ i d, (i, d) ∈ writes → w₀.returned i = none → w.returned i = some (-1) →
    w.failed = true

theorem Apart.congr {d₁ d₂ d : AsyncIoDesc} (h : Dev.Apart d₁ d) (hs : SameWrite d₁ d₂) :
    Dev.Apart d₂ d := by
  unfold Dev.Apart at h ⊢
  rw [hs.offset, hs.nbytes]
  exact h

theorem Account.step {writes : Writes} (h : Account dev w₀ writes w) (hw : writes.Apart dev)
    (hg : dev.Geometry) {e : Event} (hadm : Admitted w e) (hplan : Planned writes e)
    (hfull : InFull w e) (hstale : NoStaleCopy w e) (ht : Transition w e w') :
    Account dev w₀ writes w' := by
  obtain ⟨p, hcontent⟩ := h.content
  have hseparate : Separate w₀ w e := by
    cases e with
    | submit i desc outcomes =>
        intro htype
        have hmem := hplan.1 htype
        refine ⟨h.sound.dev ▸ hw.small i desc hmem, fun i' hi' => ?_⟩
        obtain ⟨d', hd'⟩ := h.only i' hi'
        have hne : i' ≠ i := by
          rintro rfl
          exact not_active_of_none (ht.submits h.sound) hi'
        exact (hw.apart i' d' i desc hd' hmem hne).congr (h.request i' d' hd' hi'.1 hi'.2.1)
    | exec t a => trivial
    | reap t outcomes => trivial
    | collect => trivial
    | watermark n => trivial
  have hc := h.sound.chains
  refine ⟨h.sound.step hadm ht, hcontent.step h.sound hg ⟨hadm, hseparate, hfull, hstale⟩ ht, ?_, ?_, ?_⟩
  · intro i hi
    rcases ht.request hc hi.2.1 with ⟨hret, hsame⟩ | ⟨desc, outcomes, rfl, hsame⟩
    · exact h.only i ⟨hi.1, hret, hsame.type.symm.trans hi.2.2⟩
    · exact ⟨desc, hplan.1 (hsame.type.symm.trans hi.2.2)⟩
  · intro i d hd hnew hret
    rcases ht.request hc hret with ⟨hret, hsame⟩ | ⟨desc, outcomes, rfl, hsame⟩
    · exact (h.request i d hd hnew hret).trans hsame
    · rw [hplan.2 d hd]
      exact hsame
  · intro i d hd hnew hret
    rcases ht.refusal hret with hret | ⟨desc, outcomes, rfl, hfail⟩
    · exact ht.failed (h.refused i d hd hnew hret)
    · apply hfail
      rw [← hplan.2 d hd, hw.isWrite i d hd]
      decide

/-- A run starts in a world without writes in progress; failures count from here on. -/
def World.restart (w : World) : World := { w with failed := false }

theorem Account.start (hs : Sound dev w) (hidle : Idle w) (writes : Writes) :
    Account dev w.restart writes w.restart := by
  have hc := hs.chains
  refine ⟨⟨hs.dev, ⟨hc.fresh, hc.live, hc.balanced, hc.busy, hc.range, hc.shape, hc.one, hc.owner,
    hc.rank, hc.sent, hc.unsent⟩, ⟨⟨fun i => (hs.books.entry i).frame rfl rfl rfl rfl⟩,
    hs.books.room⟩⟩, ⟨fun _ => 0, .start (show Idle w.restart from hidle) _⟩, fun i hi => ?_,
    fun i d _ hnew hret => ?_, fun i d _ hnew hret => ?_⟩
  · have hnone := hi.1
    rw [hi.2.1] at hnone
    cases hnone
  · rw [hnew] at hret
    cases hret
  · rw [hnew] at hret
    cases hret

/-! ## What a finished write has stored -/

theorem Account.pushed {writes : Writes} (h : Account dev w₀ writes w) (hw : writes.Apart dev)
    {i : Nat} {d : AsyncIoDesc} (hd : (i, d) ∈ writes) (hnew : w₀.returned i = none)
    (hp : 0 < w.pushes.count i) :
    Active w₀ w i ∧ SameWrite d (w.ios i).desc ∧ (w.ios i).state ≠ .busy := by
  obtain ⟨hbusy, hfresh⟩ := h.sound.books.pushed_state hp
  have hret : w.returned i = some 0 := by
    rw [(h.sound.books.entry i).pushes] at hp
    rw [(h.sound.books.entry i).returned]
    cases hs : (w.ios i).state <;> rw [hs] at hp <;> first | rfl | cases hp
  have hsame := h.request i d hd hnew hret
  exact ⟨⟨hnew, hret, hsame.type.trans (hw.isWrite i d hd)⟩, hsame, hbusy⟩

/-! ## Writes without a common block -/

/-- Two requests touch no common block. -/
def BlocksApart (dev : VirtioDev) (d d' : AsyncIoDesc) : Prop :=
  (d.offset + d.nbytes - 1) / dev.blockSize < d'.offset / dev.blockSize ∨
    (d'.offset + d'.nbytes - 1) / dev.blockSize < d.offset / dev.blockSize

theorem Account.noStaleCopy {writes : Writes} (h : Account dev w₀ writes w)
    (hblocks : ∀ i d i' d', (i, d) ∈ writes → (i', d') ∈ writes → i ≠ i' → BlocksApart dev d d')
    (e : Event) : NoStaleCopy w e := by
  obtain ⟨p, hcontent⟩ := h.content
  have hc := h.sound.chains
  -- the request of a chain, and the blocks of its command
  have hwrite : ∀ t f, w.flights t = some f → f.cb ≠ .blkReadDone →
      ∃ d, (f.io, d) ∈ writes ∧ d.offset / dev.blockSize ≤ cmdBlock w.dev (w.ios f.io).desc f.cb ∧
        cmdBlock w.dev (w.ios f.io).desc f.cb + cmdBlocks w.dev (w.ios f.io).desc f.cb ≤
          (d.offset + d.nbytes - 1) / dev.blockSize + 1 ∧
        0 < cmdBlocks w.dev (w.ios f.io).desc f.cb := by
    intro t f hf hcb
    obtain ⟨htype, hpart⟩ := hc.writing hf hcb
    have hact := hcontent.active t f hf htype
    obtain ⟨d, hd⟩ := h.only f.io hact
    have hsame := h.request f.io d hd hact.1 hact.2.1
    have hin := cmd_in_touched (hc.range t f hf) hpart
    rw [hsame.offset, hsame.nbytes, h.sound.dev] at hin
    rw [h.sound.dev] at hpart ⊢
    exact ⟨d, hd, hin.1, hin.2, cmdBlocks_pos hpart⟩
  cases e with
  | exec t a =>
      cases a with
      | done transferred rest usedBytes =>
          intro t' _ hne
          unfold overwrites
          split
          · next f f' hf hf' =>
              refine Bool.eq_false_iff.mpr fun hover => ?_
              simp only [Bool.and_eq_true, decide_eq_true_eq] at hover
              obtain ⟨⟨hcb, hholds⟩, hlo, hhi⟩ := hover
              obtain ⟨d, hd, hfirst, hlast, -⟩ := hwrite t f hf fun heq => by
                rw [heq] at hcb
                cases hcb
              obtain ⟨d', hd', hfirst', hlast', hpos'⟩ := hwrite t' f' hf' fun heq => by
                rw [heq] at hholds
                cases hholds
              have hio : f.io ≠ f'.io := fun heq => hne (hc.one t' f' t f hf' hf heq.symm)
              rcases hblocks f.io d f'.io d' hd hd' hio with hb | hb
              · omega
              · omega
          · rfl
      | failed resp usedBytes => trivial
  | submit i d outcomes => trivial
  | reap t outcomes => trivial
  | collect => trivial
  | watermark n => trivial

/-! ## Runs -/

/-- The steps of a device that executes a command in full or fails it. -/
def ServedStep : Except Fault World → Event → Prop
  | .ok w, e => Admitted w e ∧ InFull w e
  | .error _, _ => True

/-- The steps that execute no write command on a block of which another chain holds a copy. -/
def UndisturbedStep : Except Fault World → Event → Prop
  | .ok w, e => NoStaleCopy w e
  | .error _, _ => True

instance (s : Except Fault World) (e : Event) : Decidable (ServedStep s e) :=
  match s with
  | .ok w => inferInstanceAs (Decidable (Admitted w e ∧ InFull w e))
  | .error _ => inferInstanceAs (Decidable True)

instance (s : Except Fault World) (e : Event) : Decidable (UndisturbedStep s e) :=
  match s with
  | .ok w => inferInstanceAs (Decidable (NoStaleCopy w e))
  | .error _ => inferInstanceAs (Decidable True)

theorem Account.run {writes : Writes} (hw : writes.Apart dev) (hg : dev.Geometry)
    (hs : Sound dev w₀) (hidle : Idle w₀) {es : List Event} {s : Except Fault World}
    (hrun : (machine dev disk).Path (fun s e => (ServedStep s e ∧ Planned writes e) ∧
      ((∀ i d i' d', (i, d) ∈ writes → (i', d') ∈ writes → i ≠ i' → BlocksApart dev d d') ∨
        UndisturbedStep s e)) (.ok w₀.restart) es s) :
    ∃ w, s = .ok w ∧ Account dev w₀.restart writes w := by
  refine hrun.invariant (I := fun s => ∃ w, s = .ok w ∧ Account dev w₀.restart writes w) ?_
    ⟨_, rfl, .start hs hidle _⟩
  rintro s e s' ⟨w, rfl, h⟩ ⟨⟨⟨hadm, hfull⟩, hplan⟩, hapart⟩ hstep
  obtain ⟨w', rfl, ht⟩ := step_cases h.sound.chains h.sound.books (h.sound.dev ▸ hg) hadm hstep
  refine ⟨w', rfl, h.step hw hg hadm hplan hfull ?_ ht⟩
  rcases hapart with hblocks | hstale
  · exact h.noStaleCopy hblocks e
  · exact hstale

/-! ## One write -/

/-- What a write leaves behind, compared with the world `w₀` before it. -/
structure StoresPrefix (w₀ : World) (io : Nat) (desc : AsyncIoDesc) (w : World) : Prop where
  /-- a refused write changes nothing, and is refused only after a failure -/
  refused : w.returned io = some (-1) → w.disk = w₀.disk ∧ w.failed = true
  /-- a write that was taken and has no command left was pushed once -/
  delivered : w.returned io = some 0 → (∀ t f, w.flights t = some f → f.io ≠ io) →
    w.pushes.count io = 1
  /-- the result tells what is on the disk -/
  result : 0 < w.pushes.count io →
    (w.ios io).desc.retval = -1 ∧ w.disk = w₀.disk ∨
      ∃ n : Nat, (w.ios io).desc.retval = n ∧ 0 < n ∧ n ≤ desc.nbytes ∧
        w.disk = w₀.disk.patch desc.offset n desc.buf
  /-- and everything is there if nothing has failed -/
  complete : 0 < w.pushes.count io → w.failed = false → (w.ios io).desc.retval = desc.nbytes
  /-- the chain has at most four commands -/
  bounded : w.sent io ≤ 4

theorem Account.storesPrefix {io : Nat} {desc : AsyncIoDesc}
    (h : Account dev w₀ [(io, desc)] w) (hw : Writes.Apart [(io, desc)] dev) (hg : dev.Geometry)
    (hnew : w₀.returned io = none) : StoresPrefix w₀ io desc w := by
  obtain ⟨p, hcontent⟩ := h.content
  have hmem : (io, desc) ∈ [(io, desc)] := List.mem_singleton.mpr rfl
  have honly : ∀ i, Active w₀ w i → i = io := fun i hi => by
    obtain ⟨d, hd⟩ := h.only i hi
    rw [List.mem_singleton, Prod.mk.injEq] at hd
    exact hd.1
  have hexits := h.sound.exitsOnce hg
  -- the disk, from the progress of the only write
  have hdisk : ∀ d : AsyncIoDesc, (w.ios io).desc.offset = d.offset → (w.ios io).desc.buf = d.buf →
      Active w₀ w io → w.disk = w₀.disk.patch d.offset (p io) d.buf := by
    intro d hoff hbuf hact
    funext x
    by_cases hx : d.offset ≤ x ∧ x < d.offset + p io
    · rw [Bytes.patch_inside _ _ hx.1 hx.2, ← hbuf,
        ← hcontent.written io hact (x - d.offset) (by omega), hoff]
      congr 1
      omega
    · rw [Bytes.patch_outside _ _ (by omega)]
      refine hcontent.kept x fun i hi => ?_
      rw [honly i hi, hoff]
      omega
  refine ⟨fun hret => ⟨?_, h.refused io desc hmem hnew hret⟩, hexits.finished io, fun hp => ?_,
    fun hp hfail => ?_, hexits.bounded io⟩
  · funext x
    refine hcontent.kept x fun i hi => ?_
    have hret' := hi.2.1
    rw [honly i hi, hret] at hret'
    cases hret'
  · obtain ⟨hact, hsame, hbusy⟩ := h.pushed hw hmem hnew hp
    obtain ⟨hret, -⟩ := hcontent.ended io hact hbusy
    have hd := hdisk desc hsame.offset (hsame.buf (hw.isWrite io desc hmem)) hact
    have hle := hcontent.le io hact
    rw [hsame.nbytes] at hle
    by_cases hzero : p io = 0
    · rw [hzero, Bytes.patch_zero] at hd
      rw [hzero] at hret
      exact Or.inl ⟨hret, hd⟩
    · refine Or.inr ⟨p io, ?_, Nat.pos_of_ne_zero hzero, hle, hd⟩
      rw [hret, asRetval, if_neg hzero]
  · obtain ⟨hact, hsame, hbusy⟩ := h.pushed hw hmem hnew hp
    obtain ⟨hret, hall⟩ := hcontent.ended io hact hbusy
    have hp' := hall hfail
    rw [hsame.nbytes] at hp'
    rw [hret, hp', asRetval, if_neg (Nat.ne_of_gt (hw.pos io desc hmem))]

/-- A write that runs alone, from any reachable world without writes in progress: whatever
fails, its result tells which prefix of its buffer is on the disk, and nothing else has
changed. -/
theorem write_stores_prefix (dev : VirtioDev) (hg : dev.Geometry) (disk : Bytes)
    (es₀ : List Event) (w₀ : World)
    (hrun₀ : (machine dev disk).Path AdmittedStep (machine dev disk).init es₀ (.ok w₀))
    (hidle : Idle w₀) (io : Nat) (desc : AsyncIoDesc) (hnew : (w₀.ios io).state = .fresh)
    (htype : desc.type = .write) (hpos : 0 < desc.nbytes) (hsmall : Small dev desc)
    (es : List Event) (s : Except Fault World)
    (hrun : (machine dev disk).Path (fun s e => ServedStep s e ∧ Planned [(io, desc)] e)
      (.ok w₀.restart) es s) :
    ∃ w, s = .ok w ∧ StoresPrefix w₀ io desc w := by
  have hone : ∀ i d, (i, d) ∈ [(io, desc)] → i = io ∧ d = desc := fun i d hd => by
    rw [List.mem_singleton, Prod.mk.injEq] at hd
    exact hd
  have hw : Writes.Apart [(io, desc)] dev := by
    refine ⟨fun i d hd => ?_, fun i d hd => ?_, fun i d hd => ?_, fun i d i' d' hd hd' hne => ?_⟩
    · rw [(hone i d hd).2]
      exact htype
    · rw [(hone i d hd).2]
      exact hpos
    · rw [(hone i d hd).2]
      exact hsmall
    · exact absurd ((hone i d hd).1.trans (hone i' d' hd').1.symm) hne
  obtain ⟨w₁, heq, hs⟩ := Sound.run hg hrun₀
  cases heq
  obtain ⟨w, rfl, h⟩ := Account.run hw hg hs hidle (hrun.mono fun s e h => ⟨h, Or.inl
    fun i d i' d' hd hd' hne => absurd ((hone i d hd).1.trans (hone i' d' hd').1.symm) hne⟩)
  have hres := h.storesPrefix hw hg (hs.new hnew).1
  exact ⟨w, rfl, hres.refused, hres.delivered, hres.result, hres.complete, hres.bounded⟩

def aloneSchedule : List Event :=
  [.submit 0 (writeDesc 2 7 fun _ => 255) [], .exec 0 allDone, .reap 0 [],
    .exec 1 (.done 8 (fun _ => 0) 0), .reap 1 [], .exec 2 allDone, .reap 2 [], .exec 3 allDone,
    .reap 3 []]

theorem write_stores_prefix_alone : ∃ w, (machine smallDev countingDisk).Path
    (fun s e => ServedStep s e ∧ Planned [(0, writeDesc 2 7 fun _ => 255)] e)
    (.ok (init smallDev countingDisk).restart) aloneSchedule (.ok w) ∧
      StoresPrefix (init smallDev countingDisk) 0 (writeDesc 2 7 fun _ => 255) w ∧
      w.pushes = [0] ∧ w.failed = false := by
  have hcheck : ((machine smallDev countingDisk).execIf (fun s e => decide (ServedStep s e))
      (.ok (init smallDev countingDisk).restart) aloneSchedule).any
      (fun s => s.toOption.any fun w => decide (w.pushes = [0] ∧ w.failed = false)) = true := by
    decide +kernel
  obtain ⟨s, hrun, hs⟩ := Machine.Path.of_check (fun _ _ h => of_decide_eq_true h) hcheck
  have hrun := hrun.and_events (Q := Planned [(0, writeDesc 2 7 fun _ => 255)])
    (by simp [aloneSchedule, Planned, writeDesc])
  obtain ⟨w, rfl, hw⟩ := write_stores_prefix smallDev ⟨by decide, by decide, by decide⟩ countingDisk
    [] _ (.nil _) (fun t f hf => nomatch hf) 0 (writeDesc 2 7 fun _ => 255) rfl rfl (by decide)
    ⟨by decide, by decide⟩ aloneSchedule s hrun
  exact ⟨w, hrun, hw, of_decide_eq_true hs⟩

/-! ## Two writes -/

theorem Account.bothStored {i₁ i₂ : Nat} {d₁ d₂ : AsyncIoDesc}
    (h : Account dev w₀ [(i₁, d₁), (i₂, d₂)] w) (hw : Writes.Apart [(i₁, d₁), (i₂, d₂)] dev)
    (hapart : Dev.Apart d₁ d₂) (hnew₁ : w₀.returned i₁ = none) (hnew₂ : w₀.returned i₂ = none)
    (hfail : w.failed = false) (hp₁ : 0 < w.pushes.count i₁) (hp₂ : 0 < w.pushes.count i₂) :
    w.disk = (w₀.disk.patch d₁.offset d₁.nbytes d₁.buf).patch d₂.offset d₂.nbytes d₂.buf := by
  obtain ⟨p, hcontent⟩ := h.content
  have hmem₁ : (i₁, d₁) ∈ [(i₁, d₁), (i₂, d₂)] := List.mem_cons_self ..
  have hmem₂ : (i₂, d₂) ∈ [(i₁, d₁), (i₂, d₂)] := List.mem_cons_of_mem _ (List.mem_cons_self ..)
  -- each of the two has stored all its bytes
  have hstored : ∀ i d, (i, d) ∈ [(i₁, d₁), (i₂, d₂)] → w₀.returned i = none →
      0 < w.pushes.count i → p i = d.nbytes ∧ (w.ios i).desc.offset = d.offset ∧
        ∀ k < d.nbytes, w.disk (d.offset + k) = d.buf k := by
    intro i d hd hnew hp
    obtain ⟨hact, hsame, hbusy⟩ := h.pushed hw hd hnew hp
    have hall := (hcontent.ended i hact hbusy).2 hfail
    rw [hsame.nbytes] at hall
    refine ⟨hall, hsame.offset, fun k hk => ?_⟩
    have hwritten := hcontent.written i hact k (by omega)
    rw [hsame.offset, hsame.buf (hw.isWrite i d hd)] at hwritten
    exact hwritten
  obtain ⟨hall₁, hoff₁, hdata₁⟩ := hstored i₁ d₁ hmem₁ hnew₁ hp₁
  obtain ⟨hall₂, hoff₂, hdata₂⟩ := hstored i₂ d₂ hmem₂ hnew₂ hp₂
  have hin : ∀ {x : Nat} {d : AsyncIoDesc}, (∀ k < d.nbytes, w.disk (d.offset + k) = d.buf k) →
      d.offset ≤ x → x < d.offset + d.nbytes → w.disk x = d.buf (x - d.offset) := by
    intro x d hdata hlo hhi
    rw [← hdata (x - d.offset) (by omega)]
    congr 1
    omega
  funext x
  by_cases hx₂ : d₂.offset ≤ x ∧ x < d₂.offset + d₂.nbytes
  · rw [Bytes.patch_inside _ _ hx₂.1 hx₂.2]
    exact hin hdata₂ hx₂.1 hx₂.2
  · rw [Bytes.patch_outside _ _ (by omega)]
    by_cases hx₁ : d₁.offset ≤ x ∧ x < d₁.offset + d₁.nbytes
    · rw [Bytes.patch_inside _ _ hx₁.1 hx₁.2]
      exact hin hdata₁ hx₁.1 hx₁.2
    · rw [Bytes.patch_outside _ _ (by omega)]
      refine hcontent.kept x fun i hi => ?_
      obtain ⟨d, hd⟩ := h.only i hi
      simp only [List.mem_cons, Prod.mk.injEq, List.not_mem_nil, or_false] at hd
      rcases hd with ⟨rfl, rfl⟩ | ⟨rfl, rfl⟩
      · rw [hall₁, hoff₁]
        omega
      · rw [hall₂, hoff₂]
        omega

/-- Two writes without a common byte are both stored, in every order in which no write
command is executed on a block that the other chain has read and not yet written back,
and in every order at all if they touch no common block. -/
theorem two_writes_stored (dev : VirtioDev) (hg : dev.Geometry) (disk : Bytes)
    (es₀ : List Event) (w₀ : World)
    (hrun₀ : (machine dev disk).Path AdmittedStep (machine dev disk).init es₀ (.ok w₀))
    (hidle : Idle w₀) (i₁ i₂ : Nat) (d₁ d₂ : AsyncIoDesc)
    (hnew₁ : (w₀.ios i₁).state = .fresh) (hnew₂ : (w₀.ios i₂).state = .fresh)
    (htype₁ : d₁.type = .write) (htype₂ : d₂.type = .write) (hpos₁ : 0 < d₁.nbytes)
    (hpos₂ : 0 < d₂.nbytes) (hsmall₁ : Small dev d₁) (hsmall₂ : Small dev d₂)
    (hapart : Apart d₁ d₂) (es : List Event) (s : Except Fault World)
    (hrun : (machine dev disk).Path
      (fun s e => (ServedStep s e ∧ Planned [(i₁, d₁), (i₂, d₂)] e) ∧
        (BlocksApart dev d₁ d₂ ∨ UndisturbedStep s e)) (.ok w₀.restart) es s) :
    ∃ w, s = .ok w ∧ (w.failed = false → 0 < w.pushes.count i₁ → 0 < w.pushes.count i₂ →
      w.disk = (w₀.disk.patch d₁.offset d₁.nbytes d₁.buf).patch d₂.offset d₂.nbytes d₂.buf) := by
  have htwo : ∀ i d, (i, d) ∈ [(i₁, d₁), (i₂, d₂)] → i = i₁ ∧ d = d₁ ∨ i = i₂ ∧ d = d₂ :=
    fun i d hd => by simpa using hd
  have hw : Writes.Apart [(i₁, d₁), (i₂, d₂)] dev := by
    refine ⟨fun i d hd => ?_, fun i d hd => ?_, fun i d hd => ?_, fun i d i' d' hd hd' hne => ?_⟩
    · rcases htwo i d hd with ⟨-, rfl⟩ | ⟨-, rfl⟩
      · exact htype₁
      · exact htype₂
    · rcases htwo i d hd with ⟨-, rfl⟩ | ⟨-, rfl⟩
      · exact hpos₁
      · exact hpos₂
    · rcases htwo i d hd with ⟨-, rfl⟩ | ⟨-, rfl⟩
      · exact hsmall₁
      · exact hsmall₂
    · rcases htwo i d hd with ⟨rfl, rfl⟩ | ⟨rfl, rfl⟩
      · rcases htwo i' d' hd' with ⟨rfl, rfl⟩ | ⟨rfl, rfl⟩
        · exact absurd rfl hne
        · exact hapart
      · rcases htwo i' d' hd' with ⟨rfl, rfl⟩ | ⟨rfl, rfl⟩
        · exact hapart.symm
        · exact absurd rfl hne
  obtain ⟨w₁, heq, hs⟩ := Sound.run hg hrun₀
  cases heq
  obtain ⟨w, rfl, h⟩ := Account.run hw hg hs hidle (hrun.mono fun s e h => ⟨h.1, h.2.imp_left
    fun hblocks i d i' d' hd hd' hne => by
      rcases htwo i d hd with ⟨rfl, rfl⟩ | ⟨rfl, rfl⟩
      · rcases htwo i' d' hd' with ⟨rfl, rfl⟩ | ⟨rfl, rfl⟩
        · exact absurd rfl hne
        · exact hblocks
      · rcases htwo i' d' hd' with ⟨rfl, rfl⟩ | ⟨rfl, rfl⟩
        · exact hblocks.symm
        · exact absurd rfl hne⟩)
  exact ⟨w, rfl, h.bothStored hw hapart (hs.new hnew₁).1 (hs.new hnew₂).1⟩

def leftHalf : AsyncIoDesc := writeDesc 0 2 fun _ => 254

def rightHalf : AsyncIoDesc := writeDesc 2 2 fun _ => 255

/-- Both writes are in flight, and the second reads the block after the first has written it. -/
def undisturbedSchedule : List Event :=
  [.submit 0 leftHalf [], .submit 1 rightHalf [], .exec 0 allDone, .reap 0 [], .exec 2 allDone,
    .exec 1 allDone, .reap 2 [], .reap 1 [], .exec 3 allDone, .reap 3 []]

theorem two_writes_stored_undisturbed : ∃ w, (machine smallDev countingDisk).Path
    (fun s e => (ServedStep s e ∧ Planned [(0, leftHalf), (1, rightHalf)] e) ∧
      (BlocksApart smallDev leftHalf rightHalf ∨ UndisturbedStep s e))
    (.ok (init smallDev countingDisk).restart) undisturbedSchedule (.ok w) ∧
      w.pushes = [0, 1] ∧ w.disk = (countingDisk.patch 0 2 fun _ => 254).patch 2 2 fun _ => 255 := by
  have hcheck : ((machine smallDev countingDisk).execIf
      (fun s e => decide (ServedStep s e ∧ UndisturbedStep s e))
      (.ok (init smallDev countingDisk).restart) undisturbedSchedule).any
      (fun s => s.toOption.any fun w => decide (w.pushes = [0, 1] ∧ w.failed = false)) = true := by
    decide +kernel
  obtain ⟨s, hrun, hs⟩ := Machine.Path.of_check (fun _ _ h => of_decide_eq_true h) hcheck
  have hrun : (machine smallDev countingDisk).Path
      (fun s e => (ServedStep s e ∧ Planned [(0, leftHalf), (1, rightHalf)] e) ∧
        (BlocksApart smallDev leftHalf rightHalf ∨ UndisturbedStep s e)) _ _ s :=
    (hrun.and_events (by simp [undisturbedSchedule, Planned])).mono
      fun _ _ h => ⟨⟨h.1.1, h.2⟩, Or.inr h.1.2⟩
  obtain ⟨w, rfl, hw⟩ := two_writes_stored smallDev ⟨by decide, by decide, by decide⟩ countingDisk
    [] _ (.nil _) (fun t f hf => nomatch hf) 0 1 leftHalf rightHalf rfl rfl rfl rfl (by decide)
    (by decide) ⟨by decide, by decide⟩ ⟨by decide, by decide⟩ (Or.inl (by decide))
    undisturbedSchedule s hrun
  obtain ⟨hpushes, hfail⟩ := of_decide_eq_true hs
  exact ⟨w, hrun, hpushes, hw hfail (by rw [hpushes]; decide) (by rw [hpushes]; decide)⟩

/-- Both chains read the block before one of them has written it back. -/
def lostUpdateSchedule : List Event :=
  [.submit 0 leftHalf [], .submit 1 rightHalf [], .exec 0 allDone, .exec 1 allDone, .reap 0 [],
    .reap 1 [], .exec 2 allDone, .exec 3 allDone, .reap 2 [], .reap 3 []]

/-- Both writes are in range, small, without a common byte and complete without any
failure, but the bytes of the first one are lost. -/
theorem two_writes_lost_update : Apart leftHalf rightHalf ∧ Small smallDev leftHalf ∧
    Small smallDev rightHalf ∧ ∃ w, (machine smallDev countingDisk).Path
      (fun s e => ServedStep s e ∧ Planned [(0, leftHalf), (1, rightHalf)] e)
      (.ok (init smallDev countingDisk).restart) lostUpdateSchedule (.ok w) ∧
        w.failed = false ∧ w.pushes = [0, 1] ∧
        (w.ios 0).desc.retval = 2 ∧ (w.ios 1).desc.retval = 2 ∧ w.disk 0 = 0 ∧
        w.disk ≠ (countingDisk.patch leftHalf.offset leftHalf.nbytes leftHalf.buf).patch
          rightHalf.offset rightHalf.nbytes rightHalf.buf := by
  refine ⟨Or.inl (by decide), ⟨by decide, by decide⟩, ⟨by decide, by decide⟩, ?_⟩
  have hcheck : ((machine smallDev countingDisk).execIf (fun s e => decide (ServedStep s e))
      (.ok (init smallDev countingDisk).restart) lostUpdateSchedule).any
      (fun s => s.toOption.any fun w => decide (w.failed = false ∧ w.pushes = [0, 1] ∧
        (w.ios 0).desc.retval = 2 ∧ (w.ios 1).desc.retval = 2 ∧ w.disk 0 = 0)) = true := by
    decide +kernel
  obtain ⟨w, hrun, hfail, hpushes, hret₀, hret₁, hzero⟩ := Machine.Path.of_check_ok hcheck
  have hrun := hrun.and_events (Q := Planned [(0, leftHalf), (1, rightHalf)])
    (by simp [lostUpdateSchedule, Planned])
  refine ⟨w, hrun, hfail, hpushes, hret₀, hret₁, hzero, fun heq => ?_⟩
  rw [heq] at hzero
  exact absurd hzero (by decide)

end VhostUser.Dev
