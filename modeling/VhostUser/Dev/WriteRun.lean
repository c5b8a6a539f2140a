import VhostUser.Dev.Content

/-! # Writes that do not disturb each other

A run that starts without writes in progress keeps the account of the disk, if the
writes in it have no byte in common and no write command hits a block of which
another chain holds a copy.
-/

namespace VhostUser.Dev

open VhostUser.Lib

variable {w₀ w w' : World} {dev : VirtioDev} {p : Nat → Nat}

/-! ## Submission -/

/-- A new write is small and has no byte in common with the others. -/
def Separate (w₀ w : World) : Event → Prop
  | .submit _ desc _ => desc.type = .write → Small w.dev desc ∧
      ∀ i, Active w₀ w i → Apart (w.ios i).desc desc
  | _ => True

/-- The first command of a write finds nothing of it on the disk and holds no block. -/
theorem FirstWriteCommand.stage {d : AsyncIoDesc} {cb : TaskCb} {vbufs : List Buffer}
    (h : FirstWriteCommand dev d cb vbufs) :
    (∃ m, vbufs = writeBufs dev d ⟨0, 0⟩ m cb) ∧ doneBefore dev d cb = 0 ∧
      holdsBlock dev d cb false = false := by
  cases h with
  | head m hr => exact ⟨⟨m, rfl⟩, rfl, rfl⟩
  | body m hr hmid => exact ⟨⟨m, rfl⟩, rfl, by simp [holdsBlock, hr]⟩
  | tail m hbody => exact ⟨⟨m, rfl⟩, hbody, rfl⟩

section Submit

variable {io : Nat} {desc : AsyncIoDesc}

theorem Chains.new (hc : Chains w) (hf : (w.ios io).state = .fresh) :
    ∀ t f, w.flights t = some f → f.io ≠ io := fun t f hft heq => by
  have hb := hc.busy t f hft
  rw [heq, hf] at hb
  cases hb

theorem Sound.new (hs : Sound dev w) (hf : (w.ios io).state = .fresh) :
    w.returned io = none ∧ ∀ t f, w.flights t = some f → f.io ≠ io :=
  ⟨by rw [(hs.books.entry io).returned, hf]; rfl, hs.chains.new hf⟩

theorem not_active_of_none (h : w.returned io = none) : ¬ Active w₀ w io := fun hact => by
  rw [hact.2.1] at h
  cases h

theorem Content.refused (h : Content w₀ w p) (hs : Sound dev w) (hf : (w.ios io).state = .fresh)
    {desc' : AsyncIoDesc} {live : Nat → Bool} (hm : Mid (w.enter io desc) io desc' live w') :
    Content w₀ (w'.leave io (-1)) p := by
  obtain ⟨hnone, hnew⟩ := hs.new hf
  have hios : ∀ i, i ≠ io → w'.ios i = w.ios i := fun i hi => by
    rw [hm.ios i hi]
    exact Function.update_of_ne hi ..
  have hret : (w'.leave io (-1)).returned io = some (-1) := Function.update_self ..
  have hflights : (w'.leave io (-1)).flights = w.flights := hm.flights
  have hdev : (w'.leave io (-1)).dev = w.dev := hm.dev
  refine h.quiet io hdev hm.disk hm.failed (fun i hi => ?_) (fun i hi => ?_)
    (fun hn => by rw [hret] at hn; cases hn) (not_active_of_none hnone)
    (fun hact => by rw [hact.2.1] at hret; cases hret) (fun t f hft _ => ?_)
    fun t f hft heq => absurd heq (hnew t f (by rw [← hflights]; exact hft))
  · show Function.update w'.ios io _ i = _
    rw [Function.update_of_ne hi]
    exact hios i hi
  · show Function.update w'.returned io _ i = _
    rw [Function.update_of_ne hi, hm.returned]
    rfl
  · rw [← hflights]
    exact hft

theorem Passed.accepted {desc' : AsyncIoDesc} {cb : TaskCb} {vbufs : List Buffer}
    (hp : Passed (w.enter io desc) w.nextTask io desc' cb vbufs w') :
    (∀ i, i ≠ io → (w'.leave io 0).ios i = w.ios i) ∧
      (∀ i, i ≠ io → (w'.leave io 0).returned i = w.returned i) ∧
      (w'.leave io 0).returned io = some 0 ∧
      ∃ task : Task, task.vbufs = vbufs ∧ (w'.leave io 0).flights =
        Function.update w.flights w.nextTask (some ⟨task, cb, io, false⟩) := by
  refine ⟨fun i hi => ?_, fun i hi => ?_, Function.update_self .., hp.flights⟩
  · show w'.ios i = _
    rw [hp.ios i hi]
    exact Function.update_of_ne hi ..
  · show Function.update w'.returned io _ i = _
    rw [Function.update_of_ne hi, hp.returned]
    rfl

theorem Content.acceptedRead (h : Content w₀ w p) (hs : Sound dev w)
    (hf : (w.ios io).state = .fresh) (htype : desc.type = .read) {cb : TaskCb}
    {vbufs : List Buffer} (hp : Passed (w.enter io desc) w.nextTask io desc cb vbufs w') :
    Content w₀ (w'.leave io 0) p := by
  obtain ⟨hnone, hnew⟩ := hs.new hf
  obtain ⟨hios, hret, hown, task, hvbufs, hflights⟩ := hp.accepted
  have hread : ((w'.leave io 0).ios io).desc.type ≠ .write := by
    show (w'.ios io).desc.type ≠ _
    rw [hp.own]
    show desc.type ≠ _
    rw [htype]
    decide
  have hdev : (w'.leave io 0).dev = w.dev := hp.dev
  refine h.quiet io hdev hp.disk hp.failed hios hret
    (fun hn => by rw [hown] at hn; cases hn) (not_active_of_none hnone)
    (fun hact => hread hact.2.2) (fun t f hft hne => ?_) fun _ _ _ _ => hread
  rw [hflights] at hft
  by_cases ht : t = w.nextTask
  · rw [ht, Function.update_self] at hft
    cases hft
    exact absurd rfl hne
  · rw [Function.update_of_ne ht] at hft
    exact hft

theorem Content.acceptedWrite (h : Content w₀ w p) (hs : Sound dev w)
    (hf : (w.ios io).state = .fresh) (htype : desc.type = .write) (hsmall : Small w.dev desc)
    (hapart : ∀ i, Active w₀ w i → Apart (w.ios i).desc desc) {cb : TaskCb} {vbufs : List Buffer}
    (hfirst : FirstWriteCommand w.dev desc cb vbufs)
    (hp : Passed (w.enter io desc) w.nextTask io { desc with retval := -1 } cb vbufs w') :
    Content w₀ (w'.leave io 0) (Function.update p io 0) := by
  obtain ⟨hnone, hnew⟩ := hs.new hf
  obtain ⟨hios, hret, hown, task, hvbufs, hflights⟩ := hp.accepted
  obtain ⟨⟨m, hbufs⟩, hbefore, hholds⟩ := hfirst.stage
  have hdev : (w'.leave io 0).dev = w.dev := hp.dev
  have hself : (w'.leave io 0).ios io = ⟨{ desc with retval := -1 }, .busy⟩ := hp.own
  have hdisk : (w'.leave io 0).disk = w.disk := hp.disk
  refine h.proceed 0 hdev hp.failed hios hret ?_
    (fun hact => absurd hact (not_active_of_none hnone)) ?_ ?_ (Nat.zero_le _)
    (fun x _ => by rw [hdisk]) (fun k _ hk => by omega) (fun k hk => by omega) ?_ ?_ ?_
  · refine ⟨h.since io hnone, hown, ?_⟩
    rw [hself]
    exact htype
  · rw [hself]
    exact hsmall.retval _
  · intro i hi hia
    rw [hself]
    exact hapart i hia
  · intro t f hft hne
    rw [hflights] at hft
    refine ⟨?_, fun _ k _ => by rw [hdisk]⟩
    by_cases ht : t = w.nextTask
    · rw [ht, Function.update_self] at hft
      cases hft
      exact absurd rfl hne
    · rw [Function.update_of_ne ht] at hft
      exact hft
  · intro t f hft heq
    rw [hflights] at hft
    by_cases ht : t = w.nextTask
    · rw [ht, Function.update_self] at hft
      cases hft
      refine ⟨⟨0, 0⟩, m, ⟨?_, ?_, ?_, fun ha => Bool.noConfusion ha, fun hh _ => ?_⟩⟩
      · rw [hself, hdev, hvbufs, hbufs]
        exact (writeBufs_congr (.retval _ _) cb).symm
      · rw [hself, hdev]
        show (-1 : Int) = asRetval (doneBefore w.dev desc cb)
        rw [hbefore]
        rfl
      · rw [hself, hdev, if_neg (by simp)]
        exact hbefore.symm
      · rw [hself, hdev] at hh
        exact absurd (hholds.symm.trans hh) Bool.false_ne_true
    · rw [Function.update_of_ne ht] at hft
      exact absurd heq (hnew t f hft)
  · intro hbusy
    rw [hself] at hbusy
    exact absurd rfl hbusy

end Submit

/-! ## One step and every run -/

/-- Everything that is asked of a step. -/
structure Orderly (w₀ w : World) (e : Event) : Prop where
  admitted : Admitted w e
  separate : Separate w₀ w e
  inFull : InFull w e
  noStale : NoStaleCopy w e

theorem Content.step (h : Content w₀ w p) (hs : Sound dev w) (hg : dev.Geometry) {e : Event}
    (ho : Orderly w₀ w e) (ht : Transition w e w') : ∃ p', Content w₀ w' p' := by
  have hc := hs.chains
  have hg : w.dev.Geometry := hs.dev ▸ hg
  cases ht with
  | refused io desc outcomes w₁ hf hd href =>
      obtain ⟨⟨desc', hm⟩, -⟩ := href
      exact ⟨p, h.refused hs hf hm⟩
  | accepted io desc outcomes w₁ hf hd hacc =>
      cases hacc with
      | read vbufs hbufs htype hp =>
          rw [enter_own] at htype hp
          exact ⟨p, h.acceptedRead hs hf htype hp⟩
      | write cb vbufs hfirst htype hp =>
          rw [enter_own] at htype hp hfirst
          obtain ⟨hsmall, hapart⟩ := ho.separate htype
          exact ⟨_, h.acceptedWrite hs hf htype hsmall hapart hfirst hp⟩
  | executed t f a w' hf hans he => exact h.executed hc hg hf hans he ho.inFull ho.noStale
  | reaped t f outcomes w' hf hans hr => exact ⟨p, h.reaped hc hf hans hr⟩
  | collected io rest hout =>
      have hios : ∀ i, ((w.collectIo io rest).ios i).desc = (w.ios i).desc := fun i => by
        show (Function.update w.ios io _ i).desc = _
        by_cases hi : i = io
        · rw [hi, Function.update_self]
        · rw [Function.update_of_ne hi]
      have hactive : ∀ i, Active w₀ (w.collectIo io rest) i ↔ Active w₀ w i := fun i => by
        unfold Active
        rw [hios i]
        rfl
      refine ⟨p, h.frame rfl rfl id (fun _ => id) (fun i => (hactive i).mp) (fun i => (hactive i).mpr)
        (fun i _ => hios i) (fun i hi hst => ?_) fun t f hf htype => ⟨hf, by rw [← hios]; exact htype⟩⟩
      by_cases heq : i = io
      · intro hbusy
        have hcount := (hs.books.entry io).outring
        rw [hout, List.count_cons_self, ← heq, hbusy] at hcount
        cases hcount
      · have hst : (Function.update w.ios io _ i).state ≠ .busy := hst
        rw [Function.update_of_ne heq] at hst
        exact hst
  | watermark n =>
      exact ⟨p, h.frame rfl rfl id (fun _ => id) (fun _ => id) (fun _ => id) (fun _ _ => rfl)
        (fun _ _ => id) fun t f hf htype => ⟨hf, htype⟩⟩

def Idle (w : World) : Prop := ∀ t f, w.flights t = some f → (w.ios f.io).desc.type ≠ .write

theorem Content.start (hidle : Idle w₀) (p : Nat → Nat) : Content w₀ w₀ p := by
  have hnone : ∀ io, ¬ Active w₀ w₀ io := fun io hact => by
    have := hact.1
    rw [hact.2.1] at this
    cases this
  exact ⟨fun _ h => h, fun io hio => absurd hio (hnone io), fun _ _ => rfl,
    fun io hio => absurd hio (hnone io), fun io _ hio => absurd hio (hnone io),
    fun io hio => absurd hio (hnone io), fun t f hf htype => absurd htype (hidle t f hf),
    fun t f hf htype => absurd htype (hidle t f hf), fun io hio => absurd hio (hnone io)⟩

/-! ## Descriptors keep their request -/

/-- The same request with the same data, if it is a write. -/
structure SameWrite (d d' : AsyncIoDesc) : Prop extends SameRequest d d' where
  buf : d.type = .write → d'.buf = d.buf

theorem SameWrite.refl (d : AsyncIoDesc) : SameWrite d d := ⟨⟨rfl, rfl, rfl⟩, fun _ => rfl⟩

theorem SameWrite.retval (d : AsyncIoDesc) (x : Int) : SameWrite d { d with retval := x } :=
  ⟨⟨rfl, rfl, rfl⟩, fun _ => rfl⟩

theorem SameWrite.trans {d₁ d₂ d₃ : AsyncIoDesc} (h : SameWrite d₁ d₂) (h' : SameWrite d₂ d₃) :
    SameWrite d₁ d₃ :=
  ⟨⟨h'.type.trans h.type, h'.offset.trans h.offset, h'.nbytes.trans h.nbytes⟩, fun ht =>
    (h'.buf (h.type.trans ht)).trans (h.buf ht)⟩

/-- What a descriptor that was taken asks for is what was submitted. -/
theorem Transition.request (hc : Chains w) {e : Event} (ht : Transition w e w') {i : Nat}
    (hi : w'.returned i = some 0) :
    w.returned i = some 0 ∧ SameWrite (w.ios i).desc (w'.ios i).desc ∨
      ∃ desc outcomes, e = .submit i desc outcomes ∧ SameWrite desc (w'.ios i).desc := by
  cases ht with
  | refused io desc outcomes w₁ hf hd href =>
      obtain ⟨⟨desc', hm⟩, -⟩ := href
      have hi : Function.update w₁.returned io (some (-1)) i = some 0 := hi
      have hne : i ≠ io := by
        rintro rfl
        rw [Function.update_self] at hi
        cases hi
      rw [Function.update_of_ne hne, hm.returned] at hi
      refine Or.inl ⟨hi, ?_⟩
      show SameWrite _ (Function.update w₁.ios io _ i).desc
      rw [Function.update_of_ne hne, hm.ios i hne]
      show SameWrite _ (Function.update w.ios io _ i).desc
      rw [Function.update_of_ne hne]
      exact .refl _
  | accepted io desc outcomes w₁ hf hd hacc =>
      have hboth : ∀ {desc' cb vbufs}, Passed (w.enter io desc) w.nextTask io desc' cb vbufs w₁ →
          SameWrite desc desc' → w.returned i = some 0 ∧
            SameWrite (w.ios i).desc ((w₁.leave io 0).ios i).desc ∨
          ∃ d os, Event.submit io desc outcomes = .submit i d os ∧
            SameWrite d ((w₁.leave io 0).ios i).desc := by
        intro desc' cb vbufs hp hsame
        obtain ⟨hios, hret, -, -⟩ := hp.accepted
        by_cases heq : i = io
        · subst heq
          refine Or.inr ⟨desc, outcomes, rfl, ?_⟩
          show SameWrite desc (w₁.ios i).desc
          rw [hp.own]
          exact hsame
        · rw [hret i heq] at hi
          rw [hios i heq]
          exact Or.inl ⟨hi, .refl _⟩
      cases hacc with
      | read vbufs hbufs htype hp =>
          rw [enter_own] at hp
          exact hboth hp (.refl _)
      | write cb vbufs hfirst htype hp =>
          rw [enter_own] at hp
          exact hboth hp (.retval _ _)
  | executed t f a w' hf hans he =>
      rw [he.frame.returned] at hi
      refine Or.inl ⟨hi, (he.frame.ios i).2, fun htype => ?_⟩
      cases he with
      | read a vbufs buf usedBytes failed hcb hbufs hfail =>
          have hne : i ≠ f.io := by
            rintro rfl
            exact hc.reading hf hcb htype
          show (Function.update w.ios f.io _ i).desc.buf = _
          rw [Function.update_of_ne hne]
      | failed => rfl
      | blockRead => rfl
      | written => rfl
  | reaped t f outcomes w' hf hans hr =>
      have hret : w'.returned = w.returned := hr.outside.returned
      rw [hret] at hi
      refine Or.inl ⟨hi, ?_⟩
      by_cases heq : i = f.io
      · subst heq
        obtain ⟨desc, hreq, hbuf, hend⟩ := hr.ends
        have hsame : SameWrite (w.ios f.io).desc desc :=
          ⟨hreq, fun htype => hbuf fun hcb => hc.reading hf hcb htype⟩
        obtain hcl | ⟨cb, vbufs, hp⟩ := hend
        · rw [hcl.own]
          exact hsame
        · rw [hp.own]
          exact hsame
      · rw [hr.outside.ios i heq]
        exact .refl _
  | collected io rest hout =>
      refine Or.inl ⟨hi, ?_⟩
      show SameWrite _ (Function.update w.ios io _ i).desc
      by_cases heq : i = io
      · rw [heq, Function.update_self]
        exact .refl _
      · rw [Function.update_of_ne heq]
        exact .refl _
  | watermark n => exact Or.inl ⟨hi, .refl _⟩

/-- A read or a write is refused only if something has failed. -/
theorem Transition.refusal {e : Event} (ht : Transition w e w') {i : Nat}
    (hi : w'.returned i = some (-1)) :
    w.returned i = some (-1) ∨
      ∃ desc outcomes, e = .submit i desc outcomes ∧ (desc.type ≠ .other → w'.failed = true) := by
  cases ht with
  | refused io desc outcomes w₁ hf hd href =>
      obtain ⟨⟨desc', hm⟩, hfail⟩ := href
      rw [enter_own] at hfail
      by_cases heq : i = io
      · subst heq
        exact Or.inr ⟨desc, outcomes, rfl, hfail⟩
      · have hi : Function.update w₁.returned io _ i = some (-1) := hi
        rw [Function.update_of_ne heq, hm.returned] at hi
        exact Or.inl hi
  | accepted io desc outcomes w₁ hf hd hacc =>
      have hpassed : ∀ {desc' cb vbufs}, Passed (w.enter io desc) w.nextTask io desc' cb vbufs w₁ →
          w.returned i = some (-1) := by
        intro desc' cb vbufs hp
        obtain ⟨-, hret, hown, -⟩ := hp.accepted
        by_cases heq : i = io
        · rw [heq, hown] at hi
          cases hi
        · rw [← hret i heq]
          exact hi
      cases hacc with
      | read vbufs hbufs htype hp => exact Or.inl (hpassed hp)
      | write cb vbufs hfirst htype hp => exact Or.inl (hpassed hp)
  | executed t f a w' hf hans he =>
      rw [he.frame.returned] at hi
      exact Or.inl hi
  | reaped t f outcomes w' hf hans hr =>
      rw [hr.outside.returned] at hi
      exact Or.inl hi
  | collected io rest hout => exact Or.inl hi
  | watermark n => exact Or.inl hi

theorem Transition.submits (hs : Sound dev w) {i : Nat} {desc : AsyncIoDesc}
    {outcomes : List (Option Bytes)} (ht : Transition w (.submit i desc outcomes) w') :
    w.returned i = none := by
  cases ht with
  | refused io desc outcomes w₁ hf => exact (hs.new hf).1
  | accepted io desc outcomes w₁ hf => exact (hs.new hf).1

theorem Transition.failed {e : Event} (ht : Transition w e w') (hf : w.failed = true) :
    w'.failed = true := by
  cases ht with
  | refused io desc outcomes w₁ _ hd href =>
      obtain ⟨⟨desc', hm⟩, -⟩ := href
      exact hm.failed hf
  | accepted io desc outcomes w₁ _ hd hacc =>
      cases hacc with
      | read vbufs hbufs htype hp => exact hp.failed hf
      | write cb vbufs hfirst htype hp => exact hp.failed hf
  | executed t f a w' _ hans he =>
      cases he with
      | read a vbufs buf usedBytes failed hcb hbufs hfail => exact hfail hf
      | failed => rfl
      | blockRead => exact hf
      | written => exact hf
  | reaped t f outcomes w' _ hans hr => exact hr.outside.failed hf
  | collected io rest hout => exact hf
  | watermark n => exact hf

end VhostUser.Dev
