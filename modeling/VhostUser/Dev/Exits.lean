import VhostUser.Dev.Invariant

/-! # Every submission ends once

For any number of reads and writes, any order of completions, and any failures of
the device, the allocator and the vring: a descriptor that was taken is given back
exactly once, when its last command has been reaped, and every task is destroyed
exactly once, when it is not in the vring.
-/

namespace VhostUser.Dev

open VhostUser.Lib Prog

variable {w w' : World} {dev : VirtioDev} {disk : Bytes}

/-- Where every submission and every task stands. -/
structure ExitsOnce (w : World) : Prop where
  /-- `virtio_submit` returns 0 or -1 -/
  codes : ∀ io rc, w.returned io = some rc → rc = 0 ∨ rc = -1
  /-- a refused descriptor is never pushed and has no command -/
  refused : ∀ io, w.returned io = some (-1) →
    w.pushes.count io = 0 ∧ ∀ t f, w.flights t = some f → f.io ≠ io
  /-- a descriptor that was taken and has no command left was pushed once -/
  finished : ∀ io, w.returned io = some 0 → (∀ t f, w.flights t = some f → f.io ≠ io) →
    w.pushes.count io = 1
  /-- a descriptor with a command was taken, has no other command and was not pushed -/
  underWay : ∀ t f, w.flights t = some f → w.returned f.io = some 0 ∧ w.pushes.count f.io = 0 ∧
    ∀ t' f', w.flights t' = some f' → f'.io = f.io → t' = t
  /-- a chain has at most four commands -/
  bounded : ∀ io, w.sent io ≤ 4
  /-- a created task is in the vring and allocated, or was destroyed once -/
  tasks : ∀ t, t < w.nextTask →
    (∃ f, w.flights t = some f) ∧ w.live t = true ∧ w.destroyed t = 0 ∨
      w.flights t = none ∧ w.live t = false ∧ w.destroyed t = 1
  /-- a callback pushes its descriptor or sends the next command -/
  advance : ∀ t f outcomes, w.flights t = some f → f.answered = true →
    ∃ w', stepWorld w (.reap t outcomes) = some (.ok w') ∧
      (w'.pushes = w.pushes ++ [f.io] ∨
        w'.pushes = w.pushes ∧ w'.sent f.io = w.sent f.io + 1)
  /-- the next step does not fault and leaves every pushed descriptor as it is -/
  untouched : ∀ e s, Admitted w e → stepWorld w e = some s → ∃ w', s = .ok w' ∧
    ∀ io, 0 < w.pushes.count io → (w'.ios io).desc = (w.ios io).desc

theorem Reaped.advance {t : Nat} {f : Flight} (h : Reaped w t f w') :
    w'.pushes = w.pushes ++ [f.io] ∨ w'.pushes = w.pushes ∧ w'.sent f.io = w.sent f.io + 1 := by
  obtain ⟨desc, -, -, hc | ⟨cb, vbufs, hp⟩⟩ := h.ends
  · exact Or.inl hc.pushes
  · refine Or.inr ⟨hp.pushes, ?_⟩
    rw [hp.sent, Function.update_self]

theorem Books.pushed_state (h : Books w) {io : Nat} (hp : 0 < w.pushes.count io) :
    (w.ios io).state ≠ .busy ∧ (w.ios io).state ≠ .fresh := by
  rw [(h.entry io).pushes] at hp
  cases hs : (w.ios io).state <;> rw [hs] at hp <;> simp [IoState.pushCount] at hp ⊢

theorem Transition.untouched (hc : Chains w) (hb : Books w) {e : Event} (ht : Transition w e w')
    {io : Nat} (hp : 0 < w.pushes.count io) : (w'.ios io).desc = (w.ios io).desc := by
  obtain ⟨hbusy, hfresh⟩ := hb.pushed_state hp
  have henter : ∀ i desc, (w.ios i).state = .fresh → i ≠ io ∧
      (w.enter i desc).ios io = w.ios io := fun i desc hf => by
    have hne : i ≠ io := by
      rintro rfl
      exact hfresh hf
    exact ⟨hne, Function.update_of_ne hne.symm ..⟩
  have hflight : ∀ t f, w.flights t = some f → io ≠ f.io := fun t f hf heq => by
    rw [heq] at hbusy
    exact hbusy (hc.busy t f hf)
  cases ht with
  | refused i desc outcomes w₁ hf hd href =>
      obtain ⟨hne, hsame⟩ := henter i desc hf
      obtain ⟨⟨desc', hm⟩, -⟩ := href
      show (Function.update w₁.ios i _ io).desc = _
      rw [Function.update_of_ne hne.symm, hm.ios io hne.symm, hsame]
  | accepted i desc outcomes w₁ hf hd hacc =>
      obtain ⟨hne, hsame⟩ := henter i desc hf
      show (w₁.ios io).desc = _
      cases hacc with
      | read vbufs hbufs htype hp => rw [hp.ios io hne.symm, hsame]
      | write cb vbufs hfirst htype hp => rw [hp.ios io hne.symm, hsame]
  | executed t f a w' hf hans he =>
      have hne := hflight t f hf
      cases he with
      | read a vbufs buf usedBytes failed hcb hbufs hfail =>
          show (Function.update w.ios f.io _ io).desc = _
          rw [Function.update_of_ne hne]
      | failed => rfl
      | blockRead => rfl
      | written => rfl
  | reaped t f outcomes w' hf hans hr =>
      rw [hr.outside.ios io (hflight t f hf)]
      rfl
  | collected i rest hout =>
      show (Function.update w.ios i _ io).desc = _
      by_cases heq : io = i
      · rw [heq, Function.update_self]
      · rw [Function.update_of_ne heq]
  | watermark n => rfl

theorem Sound.exitsOnce (h : Sound dev w) (hg : dev.Geometry) : ExitsOnce w := by
  obtain ⟨hdev, hc, hb⟩ := h
  have hg : w.dev.Geometry := hdev ▸ hg
  constructor
  · intro io rc hrc
    rw [(hb.entry io).returned] at hrc
    cases hs : (w.ios io).state <;> rw [hs] at hrc <;> cases hrc <;> decide
  · intro io hrc
    have hstate : (w.ios io).state = .rejected := by
      rw [(hb.entry io).returned] at hrc
      cases hs : (w.ios io).state <;> rw [hs] at hrc <;> cases hrc
    refine ⟨by rw [(hb.entry io).pushes, hstate]; rfl, fun t f hf heq => ?_⟩
    have hbusy := hc.busy t f hf
    rw [heq, hstate] at hbusy
    cases hbusy
  · intro io hrc hnone
    rw [(hb.entry io).returned] at hrc
    rw [(hb.entry io).pushes]
    cases hs : (w.ios io).state with
    | fresh =>
        rw [hs] at hrc
        cases hrc
    | rejected =>
        rw [hs] at hrc
        cases hrc
    | busy =>
        obtain ⟨t, f, hf, hio⟩ := hc.owner io hs
        exact absurd hio (hnone t f hf)
    | pushed => rfl
    | collected => rfl
  · intro t f hf
    have hbusy := hc.busy t f hf
    refine ⟨by rw [(hb.entry f.io).returned, hbusy]; rfl, by rw [(hb.entry f.io).pushes, hbusy]; rfl,
      fun t' f' hf' heq => hc.one t' f' t f hf' hf heq⟩
  · exact hc.sent
  · intro t ht
    have hbal := hc.balanced t
    have hlive := hc.live t
    rw [decide_eq_true ht] at hbal
    cases hf : w.flights t with
    | some f =>
        rw [hf] at hlive
        rw [hlive] at hbal
        exact Or.inl ⟨⟨f, rfl⟩, hlive, Nat.succ.inj hbal⟩
    | none =>
        rw [hf] at hlive
        rw [hlive] at hbal
        exact Or.inr ⟨rfl, hlive, hbal⟩
  · intro t f outcomes hf hans
    have hready : Ready False (w.take t) t f.io := hc.ready (fun _ => hb) hf
    obtain ⟨_, w', os', hrun, hr⟩ :=
      wp_of_calls (runCallback_spec hready (hc.range t f hf) (hc.shape t f hf)) outcomes
    refine ⟨w', ?_, hr.advance⟩
    simp only [stepWorld, hf, hans, if_true]
    rw [hrun]
    rfl
  · intro e s hadm hs
    obtain ⟨w', rfl, ht⟩ := step_cases hc hb hg hadm hs
    exact ⟨w', rfl, fun io hp => ht.untouched hc hb hp⟩

/-- In every run no assertion fails, no task is used after it was freed or while it is
in the vring, no descriptor is used after it was pushed, and every submission and every
task ends exactly once. -/
theorem submissions_exit_once (dev : VirtioDev) (hg : dev.Geometry) (disk : Bytes)
    (es : List Event) (s : Except Fault World)
    (hrun : (machine dev disk).Path AdmittedStep (machine dev disk).init es s) :
    ∃ w, s = .ok w ∧ ExitsOnce w := by
  obtain ⟨w, hs, hw⟩ := Sound.run hg hrun
  exact ⟨w, hs, hw.exitsOnce hg⟩

def smallDev : VirtioDev := ⟨4, 4, 16⟩

def countingDisk : Bytes := UInt8.ofNat

def writeDesc (offset nbytes : Nat) (buf : Bytes) : AsyncIoDesc := ⟨.write, buf, offset, nbytes, 0⟩

def allDone : Answer := .done 4 (fun _ => 0) 0

/-- Descriptor 0 needs all four commands and loses its last submission to a full vring,
descriptor 1 is refused for lack of memory, the command of descriptor 2 fails. -/
def mixedSchedule : List Event :=
  [.submit 0 (writeDesc 2 7 fun _ => 1) [], .submit 1 (writeDesc 4 4 fun _ => 2) [none],
    .submit 2 (writeDesc 12 4 fun _ => 3) [], .exec 0 allDone, .reap 0 [], .exec 1 (.failed ⟨2, 0⟩ 0),
    .reap 1 [], .collect, .exec 2 allDone, .reap 2 [], .exec 3 allDone,
    .reap 3 [some fun _ => 0, some fun _ => 0, some fun _ => 0, some fun _ => 0, none]]

theorem submissions_exit_once_mixed : ∃ w, (machine smallDev fun _ => 0).Path AdmittedStep
    (machine smallDev fun _ => 0).init mixedSchedule (.ok w) ∧ ExitsOnce w ∧
      w.pushes = [2, 0] ∧ w.nextTask = 5 := by
  have hcheck : ((machine smallDev fun _ => 0).execIf (fun s e => decide (AdmittedStep s e))
      (machine smallDev fun _ => 0).init mixedSchedule).any
      (fun s => s.toOption.any fun w => decide (w.pushes = [2, 0] ∧ w.nextTask = 5)) = true := by
    decide +kernel
  obtain ⟨s, hrun, hs⟩ := Machine.Path.of_check (fun _ _ h => of_decide_eq_true h) hcheck
  obtain ⟨w, rfl, hw⟩ := submissions_exit_once smallDev ⟨by decide, by decide, by decide⟩ _ _ s hrun
  exact ⟨w, hrun, hw, of_decide_eq_true hs⟩

end VhostUser.Dev
