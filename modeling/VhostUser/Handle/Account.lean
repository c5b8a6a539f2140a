import Mathlib.Tactic.Abel
import Mathlib.Algebra.Order.Group.Multiset
import VhostUser.Handle.Release

/-! # What is leaked

When a call of `open_virtio_dev` ends, its ledger holds what the handle releases when it is
closed, and a leak. The leak is empty exactly in the calls that fail early enough, and not
in between: a client that was not initialized is not freed, and neither is the task of a
probe that was answered well.
-/

namespace VhostUser.Handle

open VhostUser.Lib Ledger Prog

variable {s : Surroundings} {excused clean : Prop} {held frame leak : Multiset Resource}
  {dev : VirtioDev}

/-! ## The error label -/

def heldIf (there : Bool) (r : Resource) : Multiset Resource := if there then {r} else 0

@[simp] theorem heldIf_true (r : Resource) : heldIf true r = {r} := rfl

@[simp] theorem heldIf_false (r : Resource) : heldIf false r = 0 := rfl

theorem heldIf_eq_zero {b : Bool} {r : Resource} : heldIf b r = 0 ↔ b = false := by
  cases b <;> simp

/-- What the error label releases. A descriptor 0 is not closed. -/
def VirtioDev.released (dev : VirtioDev) : Multiset Resource :=
  heldIf dev.poller.isSome .poller + (clientHeld dev.client + (vringsHeld dev.vrings +
    (heldIf dev.outring .outring + (heldIf (dev.outfd > 0) .outFd + {.dev}))))

/-- What `close_virtio_dev` releases. -/
def VirtioDev.closing (dev : VirtioDev) : Multiset Resource :=
  {.poller} + (clientHeld dev.client + (vringsHeld virtioScsiQcount + ({.outFd} + ({.outring} +
    {.dev}))))

/-- A handle that `open_virtio_dev` may return. -/
def VirtioDev.Complete (dev : VirtioDev) : Prop :=
  dev.poller = some .running ∧ ∃ status, dev.client = some status

/-- A handle or none, and what is held beyond what closing it releases. -/
def HeldBeyond (leak : Multiset Resource) (res : Option VirtioDev) (held : Multiset Resource) :
    Prop := held = res.elim 0 VirtioDev.closing + leak ∧ ∀ dev ∈ res, dev.Complete

/-- The end of a call: nothing is held if it is clean, and there is a leak if it is not. -/
def Accounted (clean : Prop) (res : Option VirtioDev) (held : Multiset Resource) : Prop :=
  (clean → res = none ∧ held = 0) ∧ (¬ clean → ∃ leak, leak ≠ 0 ∧ HeldBeyond leak res held)

theorem Accounted.failed (h : clean ↔ leak = 0) : Accounted clean none leak := by
  refine ⟨fun hc => ⟨rfl, h.mp hc⟩, fun hc => ⟨leak, fun h0 => hc (h.mpr h0), ?_, nofun⟩⟩
  exact (Multiset.zero_add leak).symm

theorem opens_freeIf {b : Bool} {r : Resource} {Q : Unit → Multiset Resource → Prop}
    (hheld : held = heldIf b r + frame) (h : Q () frame) : Opens excused (freeIf b r) Q held := by
  unfold heldIf at hheld
  cases b with
  | true => exact opens_free hheld h
  | false => exact wpIf_pure (((Multiset.zero_add frame).symm.trans hheld.symm) ▸ h)

theorem opens_destroyPoller {poller : Option Tid} {Q : Unit → Multiset Resource → Prop}
    (hhang : ¬ excused → poller ≠ some .stale) (hheld : held = heldIf poller.isSome .poller + frame)
    (h : poller ≠ some .stale → Q () frame) :
    Opens excused (poller.forM vringPollerDestroy) Q held := by
  cases poller with
  | some tid =>
      refine opens_vringPollerDestroy (fun hx htid => hhang hx (congrArg some htid)) hheld
        fun hne => h fun heq => hne (Option.some.inj heq)
  | none => exact wpIf_pure (((Multiset.zero_add frame).symm.trans hheld.symm) ▸ h nofun)

theorem opens_endClient {client : Option ClientStatus} {Q : Unit → Multiset Resource → Prop}
    (hheld : held = clientHeld client + frame) (h : Q () frame) :
    Opens excused (client.forM (endVhostClient s)) Q held := by
  cases client with
  | some status => exact opens_endVhostClient hheld h
  | none => exact wpIf_pure (((Multiset.zero_add frame).symm.trans hheld.symm) ▸ h)

theorem opens_openError {Q : Option VirtioDev → Multiset Resource → Prop}
    (hhang : ¬ excused → dev.poller ≠ some .stale) (hheld : held = dev.released + frame)
    (h : dev.poller ≠ some .stale → Q none frame) : Opens excused (openError s dev) Q held := by
  unfold VirtioDev.released at hheld
  simp only [Multiset.add_assoc] at hheld
  refine wpIf_bind (opens_destroyPoller hhang hheld fun hne => wpIf_bind (opens_endClient rfl ?_))
  refine wpIf_bind (opens_destroyVrings rfl (wpIf_bind (opens_freeIf rfl ?_)))
  exact wpIf_bind (opens_freeIf rfl (wpIf_bind (opens_free rfl (wpIf_pure (h hne)))))

/-- A call that ends at the label `error` is clean if the handle names everything. -/
theorem openError_accounted (hheld : held = dev.released + leak)
    (hhang : clean → dev.poller ≠ some .stale)
    (hleak : dev.poller ≠ some .stale → (clean ↔ leak = 0)) :
    Opens (¬ clean) (openError s dev) (Accounted clean) held :=
  opens_openError (fun hc => hhang (Classical.not_not.mp hc)) hheld fun hne =>
    Accounted.failed (hleak hne)

theorem opens_closeVirtioDev {Q : Unit → Multiset Resource → Prop} (hdev : dev.Complete)
    (hheld : held = dev.closing + frame) (h : Q () frame) :
    Opens excused (closeVirtioDev s dev) Q held := by
  obtain ⟨hpoller, status, hclient⟩ := hdev
  unfold VirtioDev.closing at hheld
  simp only [Multiset.add_assoc] at hheld
  unfold closeVirtioDev
  rw [hpoller, hclient]
  rw [hclient] at hheld
  refine wpIf_bind (opens_vringPollerDestroy (fun _ => by decide) hheld fun _ => ?_)
  refine wpIf_bind (opens_endVhostClient rfl (wpIf_bind (opens_destroyVrings rfl ?_)))
  exact wpIf_bind (opens_free rfl (wpIf_bind (opens_free rfl (opens_free rfl h))))

/-! ## The probes -/

theorem ProbeTask.resources_ne_zero (t : ProbeTask) (m : Multiset Resource) :
    (t.resources : Multiset Resource) + m ≠ 0 := by
  intro h
  have hmem : Resource.task t.probe ∈ (t.resources : Multiset Resource) + m :=
    Multiset.mem_add.mpr (Or.inl (by simp [ProbeTask.resources]))
  rw [h] at hmem
  exact Multiset.notMem_zero _ hmem

theorem opens_sendInquiry {Q : Bool → Multiset Resource → Prop}
    (hfault : ¬ excused → s.probeFails .inquiry) (hfails : s.probeFails .inquiry → Q false held)
    (hleak : ¬ s.probeFails .inquiry → ∀ (t : ProbeTask) (rc : Bool), Q rc (t.resources + held)) :
    Opens excused (sendInquiry s) Q held := by
  refine wpIf_bind (opens_sendProbe hfault (fun h => wpIf_pure (hfails h)) fun h data bufs => ?_)
  exact wpIf_bind (opens_deref (fun hx => absurd (hfault hx) h) fun _ => wpIf_pure (hleak h _ _))

theorem opens_sendTestUnitReady {Q : Bool → Multiset Resource → Prop} (hexcused : excused)
    (h : ∀ (rc : Bool) (more : Multiset Resource), Q rc (more + held)) :
    Opens excused (sendTestUnitReady s) Q held := by
  refine wpIf_bind (opens_sendProbe (fun hx => absurd hexcused hx) (fun _ => wpIf_pure ?_)
    fun _ _ bufs => wpIf_pure (h _ _))
  have hnone := h false 0
  rw [Multiset.zero_add] at hnone
  exact hnone

theorem opens_sendReadCap {Q : Option Dev.VirtioDev → Multiset Resource → Prop}
    (hexcused : excused)
    (h : ∀ geometry, (∀ g ∈ geometry, g = readCapacity s.payload) → ∀ more, Q geometry (more + held)) :
    Opens excused (sendReadCap s) Q held := by
  refine wpIf_bind (opens_sendProbe (fun hx => absurd hexcused hx) (fun _ => wpIf_pure ?_)
    fun _ _ bufs => wpIf_bind (opens_deref (fun hx => absurd hexcused hx) fun _ => wpIf_pure ?_))
  · have hnone := h none nofun 0
    rw [Multiset.zero_add] at hnone
    exact hnone
  · exact h _ (fun g hg => (Option.some.inj hg).symm) _

theorem VirtioDev.Complete.running (h : dev.Complete) : dev.poller ≠ some .stale := by
  rw [h.1]
  decide

theorem openProbe_accounted (hdev : dev.Complete) (hclosing : dev.closing = dev.released + leak)
    (hclean : clean ↔ s.probeFails .inquiry ∧ leak = 0) :
    Opens (¬ clean) (openProbe s dev) (Accounted clean) dev.closing := by
  refine wpIf_bind (opens_sendInquiry (fun hc => ?_) (fun hfails => ?_) fun hfails t rc => ?_)
  · exact (hclean.mp (Classical.not_not.mp hc)).1
  · refine openError_accounted hclosing (fun _ => hdev.running) fun _ => ?_
    rw [hclean]
    exact and_iff_right hfails
  · have hdirty : ¬ clean := fun hc => hfails (hclean.mp hc).1
    -- whatever follows, the task of the inquiry stays
    have herror : ∀ more : Multiset Resource,
        Opens (¬ clean) (openError s dev) (Accounted clean) (more + (t.resources + dev.closing)) := by
      intro more
      have hall : more + (t.resources + dev.closing) =
          dev.released + (t.resources + (more + leak)) := by
        rw [hclosing]
        abel
      exact openError_accounted hall (fun _ => hdev.running) fun _ =>
        iff_of_false hdirty (t.resources_ne_zero _)
    cases rc with
    | false =>
        have h := herror 0
        rw [Multiset.zero_add] at h
        exact h
    | true =>
        refine wpIf_bind (opens_sendTestUnitReady hdirty fun rc more => ?_)
        cases rc with
        | false => exact herror more
        | true =>
            refine wpIf_bind (opens_sendReadCap hdirty fun geometry _ more' => ?_)
            have hadd : more' + (more + (t.resources + dev.closing)) =
                more' + more + (t.resources + dev.closing) := (Multiset.add_assoc ..).symm
            rw [hadd]
            cases geometry with
            | none => exact herror (more' + more)
            | some geometry =>
                refine wpIf_pure ⟨fun hc => absurd hc hdirty, fun _ =>
                  ⟨t.resources + (more' + more), t.resources_ne_zero _, ?_, ?_⟩⟩
                · show _ = dev.closing + _
                  abel
                · intro dev' hdev'
                  cases hdev'
                  exact hdev

/-! ## The whole call -/

/-- The poller is not started, or the inquiry fails before it is answered well. -/
def Surroundings.CleanPoller (s : Surroundings) : Prop :=
  s.ok .mallocPoller = false ∨ s.ok .pthreadCreate = false ∧ s.tidStored = false ∨
    s.ok .pthreadCreate = true ∧ s.probeFails .inquiry

/-- The same with everything that `open_virtio_dev` does after `init_vhost_client`. -/
def Surroundings.CleanSession (s : Surroundings) : Prop :=
  s.vringsSet virtioScsiQcount 0 = false ∨ s.ok .rteRingCreate = false ∨ s.ok .eventfdOut = false ∨
    s.outfd ≠ 0 ∧ s.CleanPoller

/-- The call fails before there is a client, or after the client was initialized and before
a probe has succeeded. -/
def Surroundings.Clean (s : Surroundings) : Prop :=
  s.ok .callocDev = false ∨ s.ok .callocClient = false ∨
    s.vringsOk virtioScsiQcount 0 = true ∧ s.clientOk = true ∧ s.CleanSession

def clientDev (status : ClientStatus) (vrings : Nat) : VirtioDev :=
  ⟨some status, vrings, none, false, 0, ⟨0, 0, 0⟩⟩

def sessionDev : VirtioDev := clientDev .initialized virtioScsiQcount

theorem clientDev_released (status : ClientStatus) (vrings : Nat) :
    (clientDev status vrings).released = clientHeld (some status) + (vringsHeld vrings + {.dev}) := by
  show 0 + (clientHeld (some status) + (vringsHeld vrings + (0 + (0 + {.dev})))) = _
  simp only [Multiset.zero_add]

theorem released_outring (h : dev.outring = false) :
    ({ dev with outring := true } : VirtioDev).released = {.outring} + dev.released := by
  simp only [VirtioDev.released, h, heldIf_true, heldIf_false]
  abel

theorem released_poller (h : dev.poller = none) (tid : Tid) :
    ({ dev with poller := some tid } : VirtioDev).released = {.poller} + dev.released := by
  simp only [VirtioDev.released, h, Option.isSome_some, Option.isSome_none, heldIf_true, heldIf_false]
  abel

theorem released_outfd (h : dev.outfd = 0) (fd : Nat) :
    {.outFd} + dev.released =
      ({ dev with outfd := fd } : VirtioDev).released + heldIf (fd == 0) .outFd := by
  have hzero : decide (dev.outfd > 0) = false := by simp [h]
  have hfd : decide ((fd : Int) > 0) = !(fd == 0) := by cases fd <;> simp
  simp only [VirtioDev.released, hzero, hfd, heldIf_false]
  cases fd == 0 with
  | true =>
      simp only [Bool.not_true, heldIf_true, heldIf_false]
      abel
  | false =>
      simp only [Bool.not_false, heldIf_true, heldIf_false]
      abel

/-- From the creation of the poller on; `leak` is the event descriptor if it is 0. -/
theorem openPoller_accounted (hpoller : dev.poller = none)
    (hdev : ({ dev with poller := some .running } : VirtioDev).closing =
      {.poller} + (dev.released + leak)) (hclient : ∃ status, dev.client = some status)
    (hclean : clean ↔ s.CleanPoller ∧ leak = 0) :
    Opens (¬ clean) (openPoller s dev) (Accounted clean) (dev.released + leak) := by
  have hidle : ∀ tid : Tid, dev.poller ≠ some tid := fun tid h => nomatch hpoller.symm.trans h
  refine wpIf_ite (fun hmalloc => wpIf_bind (wpIf_acquire ?_)) fun hmalloc => ?_
  · have hstarted : s.CleanPoller ↔ s.ok .pthreadCreate = false ∧ s.tidStored = false ∨
        s.ok .pthreadCreate = true ∧ s.probeFails .inquiry := by
      unfold Surroundings.CleanPoller
      rw [hmalloc]
      simp
    cases hthread : s.ok .pthreadCreate with
    | true =>
        have hstart : vringPollerStart s = (.running, true) := by
          unfold vringPollerStart
          rw [hthread]
          rfl
        rw [hthread] at hstarted
        have hclosing : ({ dev with poller := some .running } : VirtioDev).closing =
            ({ dev with poller := some .running } : VirtioDev).released + leak := by
          rw [hdev, released_poller hpoller, Multiset.add_assoc]
        have hprobe : clean ↔ s.probeFails .inquiry ∧ leak = 0 := by
          rw [hclean, hstarted]
          simp
        rw [hstart, ← hdev]
        exact openProbe_accounted ⟨rfl, hclient⟩ hclosing hprobe
    | false =>
        have hstart : vringPollerStart s = (if s.tidStored then .stale else .zero, false) := by
          unfold vringPollerStart
          rw [hthread]
          rfl
        rw [hthread] at hstarted
        rw [hstart, ← Multiset.add_assoc, ← released_poller hpoller (if s.tidStored then .stale else .zero)]
        have hclean' : clean ↔ s.tidStored = false ∧ leak = 0 := by
          rw [hclean, hstarted]
          simp
        refine openError_accounted rfl (fun hc => ?_) fun hne => ?_
        · rw [(hclean'.mp hc).1]
          simp
        · cases htid : s.tidStored with
          | true =>
              rw [htid] at hne
              exact absurd rfl hne
          | false =>
              rw [htid] at hclean'
              rw [hclean']
              exact and_iff_right rfl
  · refine openError_accounted rfl (fun _ => hidle _) fun _ => ?_
    rw [hclean]
    exact and_iff_right (Or.inl (Bool.eq_false_iff.mpr hmalloc))

theorem openSession_accounted :
    Opens (¬ s.CleanSession) (openSession s sessionDev) (Accounted s.CleanSession)
      sessionDev.released := by
  have hnever : ∀ tid : Tid, sessionDev.poller ≠ some tid := fun _ => nofun
  refine wpIf_bind (wpIf_mono setVrings_returns fun rc held hrc => ?_)
  obtain ⟨rfl, rfl⟩ := hrc
  refine wpIf_ite (fun hset => wpIf_ite (fun hring => wpIf_bind (wpIf_acquire ?_)) fun hring => ?_)
    fun hset => ?_
  · rw [← released_outring rfl]
    refine wpIf_ite (fun hout => wpIf_bind (wpIf_acquire ?_)) fun hout => ?_
    · have hsession : s.CleanSession ↔ s.CleanPoller ∧ heldIf (s.outfd == 0) .outFd = 0 := by
        unfold Surroundings.CleanSession
        rw [hset, hring, hout, heldIf_eq_zero]
        simp [and_comm]
      rw [released_outfd rfl s.outfd]
      refine openPoller_accounted rfl ?_ ⟨_, rfl⟩ hsession
      rw [← released_outfd rfl s.outfd, released_outring rfl]
      simp only [VirtioDev.closing, VirtioDev.released, sessionDev, clientDev, heldIf_false,
        Option.isSome_none]
      simp
    · refine openError_accounted (Multiset.add_zero _).symm (fun _ => hnever _) fun _ => ?_
      exact iff_of_true (Or.inr (Or.inr (Or.inl (Bool.eq_false_iff.mpr hout)))) rfl
  · refine openError_accounted (Multiset.add_zero _).symm (fun _ => hnever _) fun _ => ?_
    exact iff_of_true (Or.inr (Or.inl (Bool.eq_false_iff.mpr hring))) rfl
  · refine openError_accounted (Multiset.add_zero _).symm (fun _ => hnever _) fun _ => ?_
    exact iff_of_true (Or.inl (Bool.eq_false_iff.mpr hset)) rfl

theorem openVirtioDev_accounted :
    Opens (¬ s.Clean) (openVirtioDev s) (Accounted s.Clean) 0 := by
  have hnever : ∀ dev : VirtioDev, dev.poller = none → ∀ tid, dev.poller ≠ some tid :=
    fun _ h _ h' => nomatch h.symm.trans h'
  refine wpIf_ite (fun hdev => wpIf_bind (wpIf_acquire (wpIf_bind ?_))) fun hdev => ?_
  · refine wpIf_ite (fun hclient => wpIf_bind (wpIf_acquire (wpIf_pure ?_))) fun hclient => wpIf_pure ?_
    · have hvrings : Opens (¬ s.Clean) (createVrings s virtioScsiQcount
          (clientDev .created 0)) _ ({.client} + ({.dev} + 0)) :=
        opens_createVrings (Multiset.zero_add _).symm
      refine wpIf_bind (wpIf_mono hvrings fun res held hres => ?_)
      obtain ⟨dev, created⟩ := res
      obtain ⟨rfl, k, hk, rfl, rfl⟩ := hres
      rw [show (clientDev .created 0).vrings = 0 from rfl, Nat.zero_add] at hk
      -- the label `error` frees a client only if it is initialized
      have herror : ∀ leak, ¬ s.Clean → Opens (¬ s.Clean)
          (openError s (clientDev .created k))
          (Accounted s.Clean) (leak + (vringsHeld k + ({.client} + ({.dev} + 0)))) := by
        intro leak hdirty
        have hall : leak + (vringsHeld k + ({.client} + ({.dev} + 0))) =
            (clientDev .created k).released + ({.client} + leak) := by
          rw [clientDev_released, clientHeld]
          abel
        exact openError_accounted hall (fun hc => absurd hc hdirty) fun _ =>
          iff_of_false hdirty (by simp)
      refine wpIf_ite (fun (hcreated : s.vringsOk virtioScsiQcount 0 = true) => wpIf_bind ?_)
        fun (hcreated : ¬ s.vringsOk virtioScsiQcount 0 = true) => ?_
      · have hsession : s.Clean ↔ s.clientOk = true ∧ s.CleanSession := by
          unfold Surroundings.Clean
          rw [hdev, hclient, hcreated]
          simp
        obtain rfl := hk hcreated
        refine opens_initVhostClient (fun hc => (hsession.mp (Classical.not_not.mp hc)).1)
          (fun hinit => ?_) fun hinit leak => ?_
        · have hheld : {.sock} + (vringsHeld virtioScsiQcount + ({.client} + ({.dev} + 0))) =
              sessionDev.released := by
            rw [sessionDev, clientDev_released, clientHeld]
            abel
          have hclean : s.Clean = s.CleanSession := by
            rw [eq_iff_iff, hsession]
            exact and_iff_right hinit
          rw [hclean, hheld]
          exact openSession_accounted
        · refine herror leak fun hc => ?_
          rw [hinit] at hsession
          exact absurd (hsession.mp hc).1 (by decide)
      · have hdirty : ¬ s.Clean := by
          unfold Surroundings.Clean
          rw [hdev, hclient, Bool.eq_false_iff.mpr hcreated]
          simp
        have h := herror 0 hdirty
        rw [Multiset.zero_add] at h
        exact h
    · refine openError_accounted (show _ = _ + (0 : Multiset Resource) from rfl) (fun _ => hnever _ rfl _) fun _ => ?_
      exact iff_of_true (Or.inr (Or.inl (Bool.eq_false_iff.mpr hclient))) rfl
  · refine wpIf_pure ⟨fun _ => ⟨rfl, rfl⟩, fun hc => absurd ?_ hc⟩
    exact Or.inl (Bool.eq_false_iff.mpr hdev)

/-! ## What a call leaks -/

/-- The end of a call, as its caller sees it. -/
theorem openVirtioDev_ends (s : Surroundings) :
    (∃ res held os, openVirtioDev s (0, []) = .ok (res, held, os) ∧ Accounted s.Clean res held) ∨
      ¬ s.Clean ∧ ∃ e, openVirtioDev s (0, []) = .error e := by
  rcases openVirtioDev_accounted [] nofun with ⟨res, held, os, hrun, -, hres⟩ | hfault
  · exact Or.inl ⟨res, held, os, hrun, hres⟩
  · exact Or.inr hfault

/-- The call ends, and has acquired `leak` and what closing its handle releases. -/
def Surroundings.Leaks (s : Surroundings) (leak : Multiset Resource) : Prop :=
  ∃ res held os, openVirtioDev s (0, []) = .ok (res, held, os) ∧ HeldBeyond leak res held

theorem Accounted.beyond {res : Option VirtioDev} (h : Accounted clean res held) :
    ∃ leak, HeldBeyond leak res held := by
  by_cases hc : clean
  · obtain ⟨rfl, rfl⟩ := h.1 hc
    exact ⟨0, rfl, nofun⟩
  · obtain ⟨leak, -, hbeyond⟩ := h.2 hc
    exact ⟨leak, hbeyond⟩

theorem Surroundings.Leaks.clean_iff (h : s.Leaks leak) : s.Clean ↔ leak = 0 := by
  obtain ⟨res, held, os, hrun, hheld, -⟩ := h
  rcases openVirtioDev_ends s with ⟨res', held', os', hrun', hclean, hdirty⟩ | ⟨-, e, hrun'⟩
  · rw [hrun] at hrun'
    cases hrun'
    constructor
    · intro hc
      obtain ⟨rfl, rfl⟩ := hclean hc
      exact (hheld.trans (Multiset.zero_add leak)).symm
    · rintro rfl
      by_contra hc
      obtain ⟨leak', hleak', hheld', -⟩ := hdirty hc
      exact hleak' (Multiset.add_right_inj.mp (hheld'.symm.trans hheld))
  · rw [hrun] at hrun'
    cases hrun'

/-- A handle is closed without a fault, and what is held beyond it stays. -/
theorem closeVirtioDev_leaves (hdev : dev.Complete) (hheld : held = dev.closing + leak) :
    ∃ os, closeVirtioDev s dev (held, []) = .ok ((), leak, os) := by
  have hclose : Opens False (closeVirtioDev s dev) (fun _ held' => held' = leak) held :=
    opens_closeVirtioDev hdev hheld rfl
  obtain ⟨a, held', os, hrun, hleak⟩ := hclose.ends not_false nofun
  exact ⟨os, hleak ▸ hrun⟩

def allGood : Surroundings := ⟨fun _ => true, 1, 5, false, fun _ => 1⟩

def fourBlocks : Bytes := fun k => if k = 7 then 3 else if k = 10 then 2 else 0

theorem allGood_opens : (openVirtioDev allGood (0, [])).toOption.any (fun r => r.1.isSome) = true := by
  decide +kernel

theorem allGood_leaks : ∃ dev leak os, leak ≠ 0 ∧ dev.Complete ∧
    openVirtioDev allGood (0, []) = .ok (some dev, dev.closing + leak, os) := by
  have hopens := allGood_opens
  rcases openVirtioDev_ends allGood with ⟨res, held, os, hrun, hclean, hdirty⟩ | ⟨-, c, hrun⟩
  · rw [hrun] at hopens
    cases res with
    | none => cases hopens
    | some dev =>
        obtain ⟨leak, hleak, hheld, hcomplete⟩ := hdirty fun hc => nomatch (hclean hc).1
        exact ⟨dev, leak, os, hleak, hcomplete dev rfl, hheld ▸ hrun⟩
  · rw [hrun] at hopens
    cases hopens

end VhostUser.Handle
