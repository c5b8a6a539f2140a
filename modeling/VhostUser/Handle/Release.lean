import VhostUser.Handle.Open

/-! # What a call releases

Each function is specified by what it adds to the ledger or takes away from it, with an
arbitrary rest. So the error label of `open_virtio_dev` releases what it finds in the
handle, and whatever else was acquired until then is leaked.
-/

namespace VhostUser.Handle

open VhostUser.Lib Ledger Prog

variable {s : Surroundings} {α : Type} {excused : Prop} {held frame : Multiset Resource}

/-- Faults are an end only where they are excused. -/
abbrev Opens (excused : Prop) (m : OpenM α) (Q : α → Multiset Resource → Prop)
    (held : Multiset Resource) : Prop := wpIf (fun _ => True) excused m Q held

theorem opens_free {r : Resource} {Q : Unit → Multiset Resource → Prop}
    (hheld : held = {r} + frame) (h : Q () frame) : Opens excused (free r) Q held :=
  wpIf_release hheld h

theorem opens_deref {b : Bool} {Q : Unit → Multiset Resource → Prop} (hb : ¬ excused → b = true)
    (h : b = true → Q () held) : Opens excused (deref b) Q held := wpIf_check hb h

/-- The return code is known and the ledger stays. -/
def Returns (excused : Prop) (m : OpenM Bool) (p : Bool) (held : Multiset Resource) : Prop :=
  Opens excused m (fun rc held' => rc = p ∧ held' = held) held

/-- The ledger stays if the return code is 0; an error may leave something behind. -/
def Leaves (excused : Prop) (m : OpenM Bool) (p : Bool) (held : Multiset Resource) : Prop :=
  Opens excused m (fun rc held' => rc = p ∧ (p = true → held' = held) ∧ ∃ leak, held' = leak + held)
    held

theorem opens_andThen {a b : OpenM Bool} {p : Bool} {Q : Bool → Multiset Resource → Prop}
    (ha : Returns excused a p held) (hb : p = true → Opens excused b Q held)
    (hfail : p = false → Q false held) : Opens excused (andThen a b) Q held := by
  refine wpIf_bind (wpIf_mono ha fun rc held' h => ?_)
  obtain ⟨rfl, rfl⟩ := h
  cases rc with
  | true => exact hb rfl
  | false => exact wpIf_pure (hfail rfl)

theorem Returns.seq {a b : OpenM Bool} {p q : Bool} (ha : Returns excused a p held)
    (hb : Returns excused b q held) : Returns excused (andThen a b) (p && q) held := by
  refine opens_andThen ha (fun hp => ?_) fun hp => ?_
  · rw [hp, Bool.true_and]
    exact hb
  · rw [hp, Bool.false_and]
    exact ⟨rfl, rfl⟩

theorem Returns.seq_leaves {a b : OpenM Bool} {p q : Bool} (ha : Returns excused a p held)
    (hb : Leaves excused b q held) : Leaves excused (andThen a b) (p && q) held := by
  refine opens_andThen ha (fun hp => ?_) fun hp => ?_
  · rw [hp, Bool.true_and]
    exact hb
  · rw [hp, Bool.false_and]
    exact ⟨rfl, fun _ => rfl, 0, (Multiset.zero_add _).symm⟩

/-! ## Requests -/

/-- The regions from the `i`th on can be opened, `n` of them. -/
def Surroundings.regionsOk (s : Surroundings) (n i : Nat) : Bool :=
  (List.range' i n).all fun j => s.ok (.openRegion j)

/-- The request is sent, and answered if it needs a reply. -/
def Surroundings.requestOk (s : Surroundings) (req : Request) : Bool :=
  s.ok (.send req) && (!req.needReply || s.ok (.recv req) && s.ok (.reply req))

theorem memFds_succ (i : Nat) : (memFds (i + 1) : Multiset Resource) = {.memFd i} + memFds i := by
  rw [memFds, List.range_succ, List.map_append, ← Multiset.coe_add, Multiset.add_comm]
  rfl

theorem opens_getMemoryFdsFrom {n i : Nat} (hheld : held = memFds i + frame) :
    Opens excused (getMemoryFdsFrom s n i) (fun rc held' => rc = s.regionsOk n i ∧
      held' = (if rc = true then memFds (i + n) else []) + frame) held := by
  induction n generalizing i held with
  | zero => exact wpIf_pure ⟨rfl, hheld⟩
  | succ n ih =>
      have hsplit : s.regionsOk (n + 1) i = (s.ok (.openRegion i) && s.regionsOk n (i + 1)) := by
        rw [Surroundings.regionsOk, List.range'_succ, List.all_cons]
        rfl
      rw [hsplit]
      refine wpIf_ite (fun hopen => ?_) fun hopen => ?_
      · rw [hopen, Bool.true_and, show i + (n + 1) = i + 1 + n by omega]
        refine wpIf_bind (wpIf_acquire (ih ?_))
        rw [hheld, memFds_succ, Multiset.add_assoc]
      · rw [Bool.eq_false_iff.mpr hopen, Bool.false_and]
        refine wpIf_bind (wpIf_releaseAll hheld (wpIf_pure ⟨rfl, ?_⟩))
        exact (Multiset.zero_add _).symm

theorem vhostIoctl_returns {req : Request} (hreq : req ≠ .setMemTable)
    (hassert : ¬ excused → req.needReply = true → s.ok (.reply req) = true) :
    Returns excused (vhostIoctl s req) (s.requestOk req) held := by
  unfold Surroundings.requestOk
  refine wpIf_ite (fun h => absurd h hreq) fun _ => wpIf_ite (fun hsend => ?_) fun hsend => ?_
  · rw [hsend, Bool.true_and]
    refine wpIf_ite (fun hneed => ?_) fun hneed => ?_
    · rw [hneed, Bool.not_true, Bool.false_or]
      refine wpIf_ite (fun hrecv => ?_) fun hrecv => ?_
      · refine wpIf_bind (wpIf_check (fun hx => hassert hx hneed) fun hreply => wpIf_pure ?_)
        rw [hrecv, hreply]
        exact ⟨rfl, rfl⟩
      · rw [Bool.eq_false_iff.mpr hrecv]
        exact wpIf_pure ⟨rfl, rfl⟩
    · rw [Bool.eq_false_iff.mpr hneed]
      exact wpIf_pure ⟨rfl, rfl⟩
  · rw [Bool.eq_false_iff.mpr hsend]
    exact wpIf_pure ⟨rfl, rfl⟩

def Surroundings.memTableOk (s : Surroundings) : Bool :=
  s.regionsOk s.fdNum 0 && s.ok (.send .setMemTable)

/-- The descriptors are closed only after they were sent. -/
theorem setMemTable_leaves : Leaves excused (vhostIoctl s .setMemTable) s.memTableOk held := by
  have hfds : Opens excused (getMemoryFds s) _ held :=
    opens_getMemoryFdsFrom (Multiset.zero_add held).symm
  unfold Surroundings.memTableOk
  refine wpIf_ite (fun _ => wpIf_bind (wpIf_mono hfds fun rc held' hrc => ?_)) fun h => absurd rfl h
  obtain ⟨rfl, rfl⟩ := hrc
  rw [Nat.zero_add]
  cases s.regionsOk s.fdNum 0 with
  | true =>
      refine wpIf_ite (fun _ => wpIf_ite (fun hsend => ?_) fun hsend => ?_) fun h => absurd rfl h
      · refine wpIf_bind (wpIf_releaseAll rfl (wpIf_pure ?_))
        rw [hsend]
        exact ⟨rfl, fun _ => rfl, 0, (Multiset.zero_add _).symm⟩
      · apply wpIf_pure
        rw [Bool.eq_false_iff.mpr hsend]
        exact ⟨rfl, fun h => absurd h (by decide), _, rfl⟩
  | false =>
      refine wpIf_ite (fun h => nomatch h) fun _ => wpIf_pure ?_
      rw [Bool.false_and]
      exact ⟨rfl, fun h => absurd h (by decide), _, rfl⟩

/-! ## The client -/

/-- The socket is connected and everything that `init_vhost_client` sends is accepted. -/
def Surroundings.sessionOk (s : Surroundings) : Bool :=
  s.ok .connect && (s.requestOk .setOwner &&
    ((s.requestOk .getFeatures && s.requestOk .setFeatures) && s.memTableOk))

theorem initSession_leaves (hassert : ¬ excused → s.ok (.reply .getFeatures) = true) :
    Leaves excused (initSession s) s.sessionOk held := by
  have hconnect : Returns excused (pure (s.ok .connect)) (s.ok .connect) held := wpIf_pure ⟨rfl, rfl⟩
  have howner : Returns excused (vhostIoctl s .setOwner) _ held :=
    vhostIoctl_returns (by decide) fun _ h => nomatch h
  have hget : Returns excused (vhostIoctl s .getFeatures) _ held :=
    vhostIoctl_returns (by decide) fun hx _ => hassert hx
  have hset : Returns excused (vhostIoctl s .setFeatures) _ held :=
    vhostIoctl_returns (by decide) fun _ h => nomatch h
  exact hconnect.seq_leaves (howner.seq_leaves ((hget.seq hset).seq_leaves setMemTable_leaves))

def Surroundings.clientOk (s : Surroundings) : Bool := s.ok .socket && s.sessionOk

theorem opens_initVhostClient {Q : ClientStatus × Bool → Multiset Resource → Prop}
    (hassert : ¬ excused → s.clientOk = true)
    (hok : s.clientOk = true → Q (.initialized, true) ({.sock} + held))
    (hfail : s.clientOk = false → ∀ leak, Q (.created, false) (leak + held)) :
    Opens excused (initVhostClient s .created) Q held := by
  unfold Surroundings.clientOk at hassert hok hfail
  refine wpIf_ite (fun h => absurd rfl h) fun _ => wpIf_ite (fun hsocket => ?_) fun hsocket => ?_
  · rw [hsocket, Bool.true_and] at hassert hok hfail
    have hreply : ¬ excused → s.ok (.reply .getFeatures) = true := fun hx => by
      have h := hassert hx
      simp only [Surroundings.sessionOk, Surroundings.requestOk, Request.needReply, Bool.and_eq_true,
        Bool.not_true, Bool.false_or] at h
      exact h.2.2.1.1.2.2
    refine wpIf_bind (wpIf_acquire (wpIf_bind (wpIf_mono (initSession_leaves hreply)
      fun rc held' hrc => ?_)))
    obtain ⟨rfl, hkeep, leak, rfl⟩ := hrc
    cases hsession : s.sessionOk with
    | true =>
        rw [hkeep hsession]
        exact wpIf_pure (hok hsession)
    | false =>
        refine wpIf_bind (opens_free (show _ = _ + (leak + held) from ?_)
          (wpIf_pure (hfail hsession leak)))
        rw [← Multiset.add_assoc, ← Multiset.add_assoc, Multiset.add_comm leak]
  · rw [Bool.eq_false_iff.mpr hsocket, Bool.false_and] at hfail
    have h := hfail rfl 0
    rw [Multiset.zero_add] at h
    exact wpIf_pure h

def Surroundings.vringSet (s : Surroundings) (i : Nat) : Bool :=
  s.requestOk (.setVringNum i) && (s.requestOk (.setVringBase i) && (s.requestOk (.setVringKick i) &&
    (s.requestOk (.setVringCall i) && s.requestOk (.setVringAddr i))))

theorem setVhostVring_returns {i : Nat} :
    Returns excused (setVhostVring s i) (s.vringSet i) held := by
  have hsend : ∀ req : Request, req ≠ .setMemTable → req.needReply = false →
      Returns excused (vhostIoctl s req) (s.requestOk req) held := fun req hne hneed =>
    vhostIoctl_returns hne fun _ h => nomatch hneed.symm.trans h
  exact (hsend (.setVringNum i) (by simp) rfl).seq ((hsend (.setVringBase i) (by simp) rfl).seq
    ((hsend (.setVringKick i) (by simp) rfl).seq ((hsend (.setVringCall i) (by simp) rfl).seq
      (hsend (.setVringAddr i) (by simp) rfl))))

/-- What the client of a handle needs to be freed. An uninitialized one is not freed at all. -/
def clientHeld : Option ClientStatus → Multiset Resource
  | some .initialized => {.sock} + {.client}
  | some .created => 0
  | none => 0

theorem opens_endVhostClient {status : ClientStatus} {Q : Unit → Multiset Resource → Prop}
    (hheld : held = clientHeld (some status) + frame) (h : Q () frame) :
    Opens excused (endVhostClient s status) Q held := by
  cases status with
  | created =>
      rw [clientHeld, Multiset.zero_add] at hheld
      exact wpIf_ite (fun _ => wpIf_pure (hheld ▸ h)) fun hne => absurd nofun hne
  | initialized =>
      rw [clientHeld, Multiset.add_assoc] at hheld
      have hreset : Returns excused (vhostIoctl s .resetOwner) _ held :=
        vhostIoctl_returns (by decide) fun _ h => nomatch h
      refine wpIf_ite (fun hne => absurd rfl hne) fun _ => wpIf_bind (wpIf_mono hreset
        fun rc held' hrc => ?_)
      obtain ⟨-, rfl⟩ := hrc
      exact wpIf_bind (opens_free hheld (opens_free rfl h))

/-! ## Vrings and the poller -/

def vringResources (i : Nat) : List Resource := [.kickFd i, .callFd i, .vringShm i, .vring i]

def vringsHeld (n : Nat) : Multiset Resource := (List.range n).flatMap vringResources

theorem vringsHeld_succ (n : Nat) : vringsHeld (n + 1) = vringResources n + vringsHeld n := by
  rw [vringsHeld, List.range_succ, List.flatMap_append, ← Multiset.coe_add, Multiset.add_comm]
  simp [vringsHeld]

def Surroundings.vringOk (s : Surroundings) (i : Nat) : Bool :=
  s.ok (.callocVring i) && (s.ok (.allocVringShm i) && (s.ok (.eventfdKick i) && s.ok (.eventfdCall i)))

theorem opens_vringCreate {i : Nat} : Opens excused (vringCreate s i) (fun rc held' =>
    rc = s.vringOk i ∧ held' = (if rc = true then vringResources i else []) + held) held := by
  unfold Surroundings.vringOk
  -- every exit without a result releases what was acquired before
  have hfail : false = false ∧ held = ((if false = true then vringResources i else []) : List Resource)
      + held := ⟨rfl, (coe_nil_add held).symm⟩
  refine wpIf_ite (fun hvring => wpIf_bind (wpIf_acquire ?_)) fun hvring => ?_
  · rw [hvring, Bool.true_and]
    refine wpIf_ite (fun hshm => wpIf_bind (wpIf_acquire ?_)) fun hshm => ?_
    · rw [hshm, Bool.true_and]
      refine wpIf_ite (fun hkick => wpIf_bind (wpIf_acquire ?_)) fun hkick => ?_
      · rw [hkick, Bool.true_and]
        refine wpIf_ite (fun hcall => wpIf_bind (wpIf_acquire (wpIf_pure ⟨hcall.symm, ?_⟩)))
          fun hcall => ?_
        · simp only [vringResources, if_true, coe_cons_add, coe_nil_add]
          rw [← Multiset.add_assoc, Multiset.add_comm {Resource.callFd i}, Multiset.add_assoc]
        · rw [Bool.eq_false_iff.mpr hcall]
          refine wpIf_bind (wpIf_releaseAll ?_ (wpIf_pure hfail))
          simp only [coe_cons_add, coe_nil_add]
      · rw [Bool.eq_false_iff.mpr hkick]
        refine wpIf_bind (wpIf_releaseAll ?_ (wpIf_pure hfail))
        simp only [coe_cons_add, coe_nil_add]
    · rw [Bool.eq_false_iff.mpr hshm]
      exact wpIf_bind (opens_free rfl (wpIf_pure hfail))
  · rw [Bool.eq_false_iff.mpr hvring]
    exact wpIf_pure hfail

/-- The vrings from the `i`th on are created, `n` of them. -/
def Surroundings.vringsOk (s : Surroundings) (n i : Nat) : Bool := (List.range' i n).all s.vringOk

theorem opens_createVrings {n : Nat} {dev : VirtioDev} (hheld : held = vringsHeld dev.vrings + frame) :
    Opens excused (createVrings s n dev) (fun res held' => res.2 = s.vringsOk n dev.vrings ∧
      ∃ k, (res.2 = true → k = dev.vrings + n) ∧ res.1 = { dev with vrings := k } ∧
        held' = vringsHeld k + frame) held := by
  induction n generalizing dev held with
  | zero => exact wpIf_pure ⟨rfl, dev.vrings, fun _ => rfl, rfl, hheld⟩
  | succ n ih =>
      have hsplit : s.vringsOk (n + 1) dev.vrings =
          (s.vringOk dev.vrings && s.vringsOk n (dev.vrings + 1)) := by
        rw [Surroundings.vringsOk, List.range'_succ, List.all_cons]
        rfl
      rw [hsplit]
      refine wpIf_bind (wpIf_mono opens_vringCreate fun rc held' hrc => ?_)
      obtain ⟨rfl, rfl⟩ := hrc
      cases s.vringOk dev.vrings with
      | true =>
          refine wpIf_ite (fun _ => wpIf_mono (ih ?_) fun res held' hres => ?_) fun h => absurd rfl h
          · rw [if_pos rfl, vringsHeld_succ, Multiset.add_assoc, hheld]
          · obtain ⟨hrc, k, hk, hdev, hheld'⟩ := hres
            refine ⟨by rw [hrc, Bool.true_and], k, fun h => ?_, hdev, hheld'⟩
            rw [hk h]
            show dev.vrings + 1 + n = dev.vrings + (n + 1)
            omega
      | false =>
          refine wpIf_ite (fun h => absurd h (by decide)) fun _ => wpIf_pure ?_
          have hfalse : (dev, false).2 = true → dev.vrings = dev.vrings + (n + 1) := fun h => nomatch h
          refine ⟨rfl, dev.vrings, hfalse, rfl, ?_⟩
          rw [hheld]
          exact coe_nil_add _

/-- The vrings from the `i`th on are passed to the server, `n` of them. -/
def Surroundings.vringsSet (s : Surroundings) (n i : Nat) : Bool := (List.range' i n).all s.vringSet

theorem setVrings_returns {n i : Nat} :
    Returns excused (setVrings s n i) (s.vringsSet n i) held := by
  induction n generalizing i with
  | zero => exact wpIf_pure ⟨rfl, rfl⟩
  | succ n ih =>
      have hsplit : s.vringsSet (n + 1) i = (s.vringSet i && s.vringsSet n (i + 1)) := by
        rw [Surroundings.vringsSet, List.range'_succ, List.all_cons]
        rfl
      rw [hsplit]
      exact setVhostVring_returns.seq ih

theorem opens_forM_vringDestroy {is : List Nat} {Q : Unit → Multiset Resource → Prop}
    (hheld : held = ↑(is.flatMap vringResources) + frame) (h : Q () frame) :
    Opens excused (is.forM vringDestroy) Q held := by
  induction is generalizing held with
  | nil =>
      rw [List.flatMap_nil, coe_nil_add] at hheld
      exact wpIf_pure (hheld ▸ h)
  | cons i is ih =>
      rw [List.flatMap_cons, ← Multiset.coe_add, Multiset.add_assoc] at hheld
      exact wpIf_bind (wpIf_releaseAll hheld (ih rfl))

theorem opens_destroyVrings {n : Nat} {Q : Unit → Multiset Resource → Prop}
    (hheld : held = vringsHeld n + frame) (h : Q () frame) :
    Opens excused (destroyVrings n) Q held := opens_forM_vringDestroy hheld h

theorem opens_vringPollerDestroy {tid : Tid} {Q : Unit → Multiset Resource → Prop}
    (hhang : ¬ excused → tid ≠ .stale) (hheld : held = {.poller} + frame)
    (h : tid ≠ .stale → Q () frame) : Opens excused (vringPollerDestroy tid) Q held := by
  refine wpIf_ite (fun _ => wpIf_bind (wpIf_check (fun hx => ?_) fun hne => ?_)) fun hzero => ?_
  · exact bne_iff_ne.mpr (hhang hx)
  · exact opens_free hheld (h (bne_iff_ne.mp hne))
  · refine opens_free hheld (h fun hstale => hzero ?_)
    rw [hstale]
    decide

/-! ## Probes -/

/-- The probe fails without a crash: its task is not created, or the command is not submitted
or not answered well, and the buffers that are used until then are there. -/
def Surroundings.probeFails (s : Surroundings) (p : Probe) : Prop :=
  s.ok (.callocTask p) = false ∨ s.ok (.mallocVbufs p) = false ∨
    s.ok (.allocBuf p 0) = true ∧ (s.ok (.submit p) = false ∨
      s.ok (.allocBuf p 1) = true ∧ s.ok (.respGood p) = false)

theorem ProbeTask.resources_push (t : ProbeTask) (i : Nat) :
    (({ t with bufs := t.bufs ++ [i] } : ProbeTask).resources : Multiset Resource) =
      {.buf t.probe i} + t.resources := by
  rw [Multiset.singleton_add, Multiset.cons_coe, Multiset.coe_eq_coe]
  unfold ProbeTask.resources
  rw [List.map_append, List.append_assoc]
  exact List.perm_middle

theorem opens_virtioTaskAllocBuf {t : ProbeTask} {i : Nat} {Q : ProbeTask × Bool → Multiset Resource → Prop}
    (h : ∀ bufs, Q ({ t with bufs := bufs }, s.ok (.allocBuf t.probe i))
      (({ t with bufs := bufs } : ProbeTask).resources + frame)) :
    Opens excused (virtioTaskAllocBuf s t i) Q (t.resources + frame) := by
  refine wpIf_ite (fun hok => wpIf_bind (wpIf_acquire (wpIf_pure ?_))) fun hfail => wpIf_pure ?_
  · have hpush := h (t.bufs ++ [i])
    rw [hok, t.resources_push, Multiset.add_assoc] at hpush
    exact hpush
  · have hsame := h t.bufs
    rw [Bool.eq_false_iff.mpr hfail] at hsame
    exact hsame

theorem opens_virtioTaskCreate {p : Probe} {Q : Option ProbeTask → Multiset Resource → Prop}
    (hok : s.ok (.callocTask p) = true → s.ok (.mallocVbufs p) = true →
      Q (some ⟨p, []⟩) ((⟨p, []⟩ : ProbeTask).resources + held))
    (hfail : s.ok (.callocTask p) = false ∨ s.ok (.mallocVbufs p) = false → Q none held) :
    Opens excused (virtioTaskCreate s p) Q held := by
  refine wpIf_ite (fun htask => wpIf_bind (wpIf_acquire ?_)) fun htask => ?_
  · refine wpIf_ite (fun hvbufs => wpIf_bind (wpIf_acquire (wpIf_pure ?_))) fun hvbufs => ?_
    · have h := hok htask hvbufs
      simp only [ProbeTask.resources, List.map_nil, List.nil_append, coe_cons_add, coe_nil_add] at h
      exact h
    · exact wpIf_bind (opens_free rfl (wpIf_pure (hfail (Or.inr (Bool.eq_false_iff.mpr hvbufs)))))
  · exact wpIf_pure (hfail (Or.inl (Bool.eq_false_iff.mpr htask)))

theorem opens_submitProbe {t : ProbeTask} {req resp data : Bool}
    {Q : Option Bool → Multiset Resource → Prop}
    (hfault : ¬ excused → req = true ∧ (s.ok (.submit t.probe) = false ∨
      resp = true ∧ s.ok (.respGood t.probe) = false))
    (hnone : req = true → s.ok (.submit t.probe) = false ∨
      resp = true ∧ s.ok (.respGood t.probe) = false → Q none held)
    (hsome : s.ok (.submit t.probe) = true → s.ok (.respGood t.probe) = true →
      Q (some data) (t.resources + held)) :
    Opens excused (submitProbe s t req resp data) Q (t.resources + held) := by
  have hdestroy : Q none held → Opens excused (do
      virtioTaskDestroy t
      pure none) Q (t.resources + held) := fun h => wpIf_bind (wpIf_releaseAll rfl (wpIf_pure h))
  refine wpIf_bind (opens_deref (fun hx => (hfault hx).1) fun hreq => ?_)
  refine wpIf_ite (fun hsubmit => ?_) fun hsubmit => ?_
  · refine wpIf_bind (opens_deref (fun hx => ?_) fun hresp => ?_)
    · rcases (hfault hx).2 with h | ⟨h, -⟩
      · exact absurd hsubmit (Bool.eq_false_iff.mp h)
      · exact h
    refine wpIf_ite (fun hgood => wpIf_pure (hsome hsubmit hgood)) fun hgood => ?_
    exact hdestroy (hnone hreq (Or.inr ⟨hresp, Bool.eq_false_iff.mpr hgood⟩))
  · exact hdestroy (hnone hreq (Or.inl (Bool.eq_false_iff.mpr hsubmit)))

/-- A probe that fails releases its task, and one that succeeds keeps it. -/
theorem opens_sendProbe {p : Probe} {nbufs : Nat} {Q : Option Bool → Multiset Resource → Prop}
    (hfault : ¬ excused → s.probeFails p) (hnone : s.probeFails p → Q none held)
    (hsome : ¬ s.probeFails p → ∀ data bufs, Q (some data) ((⟨p, bufs⟩ : ProbeTask).resources + held)) :
    Opens excused (sendProbe s p nbufs) Q held := by
  refine wpIf_bind (opens_virtioTaskCreate (fun htask hvbufs => ?_) fun hcreate => wpIf_pure (hnone ?_))
  · have hcreated : s.probeFails p ↔ s.ok (.allocBuf p 0) = true ∧ (s.ok (.submit p) = false ∨
        s.ok (.allocBuf p 1) = true ∧ s.ok (.respGood p) = false) := by
      unfold Surroundings.probeFails
      rw [htask, hvbufs]
      simp
    have hrest : ∀ data bufs, Opens excused (submitProbe s ⟨p, bufs⟩ (s.ok (.allocBuf p 0))
        (s.ok (.allocBuf p 1)) data) Q ((⟨p, bufs⟩ : ProbeTask).resources + held) := by
      intro data bufs
      refine opens_submitProbe (fun hx => hcreated.mp (hfault hx)) (fun hreq h =>
        hnone (hcreated.mpr ⟨hreq, h⟩)) fun hsubmit hgood => hsome (fun hfails => ?_) data bufs
      rcases (hcreated.mp hfails).2 with h | ⟨-, h⟩
      · exact absurd hsubmit (Bool.eq_false_iff.mp h)
      · exact absurd hgood (Bool.eq_false_iff.mp h)
    refine wpIf_bind (opens_virtioTaskAllocBuf fun bufs₀ => wpIf_bind (opens_virtioTaskAllocBuf
      fun bufs₁ => ?_))
    refine wpIf_ite (fun _ => wpIf_bind (opens_virtioTaskAllocBuf fun bufs₂ => hrest _ bufs₂))
      fun _ => wpIf_bind (wpIf_pure (hrest false bufs₁))
  · rcases hcreate with h | h
    · exact Or.inl h
    · exact Or.inr (Or.inl h)

end VhostUser.Handle
