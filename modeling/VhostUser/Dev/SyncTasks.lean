import VhostUser.Dev.Invariant
import VhostUser.Dev.Store

/-! # The tasks of a synchronous call

A call creates a task for each of its commands and destroys it before it goes on, also where
the device or an allocation fails. Whatever the asynchronous interface has in the vring at that
time is left alone, so calls of both interfaces may be made in any order.
-/

namespace VhostUser.Dev

open VhostUser.Lib Prog

variable {w w' v : World} {device : Device} {dev : VirtioDev} {io id : Nat}

/-! ## What a call leaves alone -/

/-- Every task and every descriptor is where it was; of a descriptor only the data may change. -/
structure CallFrame (w w' : World) : Prop where
  dev : w'.dev = w.dev
  live : w'.live = w.live
  next : w.nextTask ≤ w'.nextTask
  flights : w'.flights = w.flights
  balanced : Balanced w → Balanced w'
  sent : w'.sent = w.sent
  outring : w'.outring = w.outring
  uncollected : w'.uncollected = w.uncollected
  pushes : w'.pushes = w.pushes
  returned : w'.returned = w.returned
  ios : ∀ i, (w'.ios i).state = (w.ios i).state ∧ SameRequest (w.ios i).desc (w'.ios i).desc

namespace CallFrame

theorem refl (w : World) : CallFrame w w :=
  ⟨rfl, rfl, Nat.le_refl _, rfl, id, rfl, rfl, rfl, rfl, rfl, fun _ => ⟨rfl, rfl, rfl, rfl⟩⟩

theorem trans (u v w : World) (h : CallFrame u v) (h' : CallFrame v w) : CallFrame u w where
  dev := h'.dev.trans h.dev
  live := h'.live.trans h.live
  next := Nat.le_trans h.next h'.next
  flights := h'.flights.trans h.flights
  balanced := h'.balanced ∘ h.balanced
  sent := h'.sent.trans h.sent
  outring := h'.outring.trans h.outring
  uncollected := h'.uncollected.trans h.uncollected
  pushes := h'.pushes.trans h.pushes
  returned := h'.returned.trans h.returned
  ios i := by
    obtain ⟨hstate, htype, hoffset, hnbytes⟩ := h.ios i
    obtain ⟨hstate', htype', hoffset', hnbytes'⟩ := h'.ios i
    exact ⟨hstate'.trans hstate, htype'.trans htype, hoffset'.trans hoffset, hnbytes'.trans hnbytes⟩

theorem setFailed (w : World) : CallFrame w w.setFailed := { CallFrame.refl w with }

theorem setBuf (w : World) (io : Nat) (buf : Bytes) :
    CallFrame w (w.setIo io ⟨{ (w.ios io).desc with buf := buf }, (w.ios io).state⟩) where
  __ := CallFrame.refl w
  ios i := by
    show (Function.update w.ios io _ i).state = _ ∧
      SameRequest _ (Function.update w.ios io _ i).desc
    by_cases hi : i = io
    · rw [hi, Function.update_self]
      exact ⟨rfl, rfl, rfl, rfl⟩
    · rw [Function.update_of_ne hi]
      exact ⟨rfl, rfl, rfl, rfl⟩

theorem outline : Outline CallFrame where
  refl := refl
  trans := trans
  failed := setFailed
  memcpy w io _ _ _ := setBuf w io _

end CallFrame

/-- A task that was not in the ring is answered and taken. -/
theorem callFrame_answer {t : Nat} (hf : w.flights t = none) (f : Flight) (vbufs : List Buffer)
    (used : Nat) : CallFrame w ((w.answer t f vbufs used).take t) := by
  rw [take_answer hf]
  exact .refl w

theorem callFrame_exec {t : Nat} (hf : w.flights t = none) (f : Flight) (a : Answer) :
    CallFrame w ((w.exec t f a).take t) := by
  cases a with
  | failed resp used => exact .trans _ _ _ (callFrame_answer hf f _ used) (.setFailed _)
  | done transferred rest used =>
      simp only [World.exec]
      split
      · have h := callFrame_answer hf f (setResp ⟨0, 0⟩ f.task.vbufs) used
        exact { h with }
      · exact .trans _ _ _ (callFrame_answer hf f _ used) (.setBuf _ f.io _)
      · exact callFrame_answer hf f _ used

/-- The task is used, so it is not in the ring already. -/
theorem callFrame_submitSync (t : TaskRef) :
    Keeps CallFrame (vringSubmitTaskSync device t io) := by
  refine ⟨fun p a q hrun => ?_⟩
  have hspec : Calls False True (vringSubmitTaskSync device t io) (fun _ w' => CallFrame p.1 w') p.1 := by
    refine wpIf_bind (wpIf_check (fun hx => absurd trivial hx) fun howns => ?_)
    have hflight : p.1.flights t.id = none := by
      simp only [World.owns, Bool.and_eq_true, Option.isNone_iff_eq_none] at howns
      exact howns.2
    refine wpIf_bind (calls_attempt (fun _ => wpIf_pure (.setFailed _)) fun m => ?_)
    refine wpIf_bind (wpIf_update (wpIf_bind (wpIf_state (wpIf_bind (wpIf_update ?_)))))
    exact wpIf_pure (callFrame_exec hflight _ _)
  exact hspec.result (fun _ _ => False.elim) hrun

/-! ## Tasks that are handed on -/

theorem submitSync_id {t : TaskRef} {p q : World × List (Option Bytes)} {o : Option TaskRef}
    (ht : t.id = id) (hrun : vringSubmitTaskSync device t io p = .ok (o, q)) :
    ∀ t' ∈ o, t'.id = id := by
  have hspec : Calls False True (vringSubmitTaskSync device t io)
      (fun o _ => ∀ t' ∈ o, t'.id = id) p.1 := by
    refine wpIf_bind (wpIf_check (fun hx => absurd trivial hx) fun _ => ?_)
    refine wpIf_bind (calls_attempt (fun _ => wpIf_pure nofun) fun m => ?_)
    refine wpIf_bind (wpIf_update (wpIf_bind (wpIf_state (wpIf_bind (wpIf_update ?_)))))
    refine wpIf_pure fun t' ht' => ?_
    obtain ⟨f, -, rfl⟩ := Option.map_eq_some_iff.mp ht'
    exact ht
  exact hspec.result (fun _ _ => False.elim) hrun

theorem allocBuf_id {t : TaskRef} {type : Bytes → BufPtr} {size : Nat} {response zero : Bool}
    {p q : World × List (Option Bytes)} {o : Option (TaskRef × Nat)} (ht : t.id = id)
    (hrun : virtioTaskAllocBuf t type size response zero p = .ok (o, q)) :
    (o.elim t (·.1)).id = id := by
  have hspec : Calls False True (virtioTaskAllocBuf t type size response zero)
      (fun o _ => (o.elim t (·.1)).id = id) p.1 := by
    refine wpIf_bind (wpIf_check (fun hx => absurd trivial hx) fun _ => ?_)
    refine wpIf_bind (wpIf_check (fun hx => absurd trivial hx) fun _ => ?_)
    exact wpIf_bind (calls_attempt (fun _ => wpIf_pure ht) fun m => wpIf_pure ht)
  exact hspec.result (fun _ _ => False.elim) hrun

theorem addBuf_id {t t' : TaskRef} {buf : BufPtr} {size : Nat} {response : Bool}
    {p q : World × List (Option Bytes)} (ht : t.id = id)
    (hrun : virtioTaskAddBuf t buf size response p = .ok (t', q)) : t'.id = id := by
  have hspec : Calls False True (virtioTaskAddBuf t buf size response) (fun t' _ => t'.id = id) p.1 := by
    refine wpIf_bind (wpIf_check (fun hx => absurd trivial hx) fun _ => ?_)
    exact wpIf_bind (wpIf_check (fun hx => absurd trivial hx) fun _ => wpIf_pure ht)
  exact hspec.result (fun _ _ => False.elim) hrun

/-! ## Tasks that are given up -/

/-- Nothing but the end of task `id`. -/
def Freed (id : Nat) (w w' : World) : Prop :=
  ∃ v, CallFrame w v ∧ v.live id = true ∧ w' = v.freeTask id

theorem CallFrame.thenFreed (u v w : World) (h : CallFrame u v) (h' : Freed id v w) :
    Freed id u w := by
  obtain ⟨x, hx, hlive, rfl⟩ := h'
  exact ⟨x, .trans _ _ _ h hx, hlive, rfl⟩

theorem freed_destroy {t : TaskRef} (ht : t.id = id) : Keeps (Freed id) (virtioTaskDestroy t) := by
  subst ht
  refine ⟨fun p a q hrun => ?_⟩
  have hspec : Calls False True (virtioTaskDestroy t) (fun _ w' => Freed t.id p.1 w') p.1 := by
    refine wpIf_bind (wpIf_check (fun hx => absurd trivial hx) fun howns => wpIf_update ?_)
    simp only [World.owns, Bool.and_eq_true] at howns
    exact ⟨p.1, .refl _, howns.1, rfl⟩
  exact hspec.result (fun _ _ => False.elim) hrun

theorem freed_exit {α : Type} {t : TaskRef} (ht : t.id = id) (a : α) :
    Keeps (Freed id) (do
      virtioTaskDestroy t
      pure a : M α) :=
  keeps_bind (S := Eq) (fun _ _ _ h heq => heq ▸ h) (freed_destroy ht) fun _ =>
    keeps_pure (fun _ => rfl) a

theorem freed_blkFailed {t : TaskRef} (ht : t.id = id) (buf : BufPtr) :
    Keeps (Freed id) (blkFailed t buf) := freed_exit ht _

theorem freed_sendRead {t : TaskRef} (ht : t.id = id) (resp : Nat) (buf : BufPtr) :
    Keeps (Freed id) (sendRead device io t resp buf) := by
  have h := CallFrame.outline
  refine keeps_bind_of CallFrame.thenFreed (callFrame_submitSync t) (fun _ _ _ => submitSync_id ht)
    fun o ho => ?_
  cases o with
  | none => exact freed_blkFailed ht buf
  | some t' =>
      have ht' := ho t' rfl
      refine keeps_bind CallFrame.thenFreed (h.vbufOf _ _) fun b =>
        keeps_bind CallFrame.thenFreed (h.getBuf _ _) fun r => ?_
      refine keeps_bind CallFrame.thenFreed (h.respGood _) fun good =>
        keeps_ite ?_ (freed_blkFailed ht' _)
      exact keeps_bind CallFrame.thenFreed (h.assertThat _) fun _ => freed_exit ht' _

theorem freed_sendWrite {t : TaskRef} (ht : t.id = id) (resp : Nat) (nbytes : Int) (buf : BufPtr) :
    Keeps (Freed id) (sendWrite device io t resp nbytes buf) := by
  have h := CallFrame.outline
  refine keeps_bind_of CallFrame.thenFreed (callFrame_submitSync t) (fun _ _ _ => submitSync_id ht)
    fun o ho => ?_
  cases o with
  | none => exact freed_blkFailed ht buf
  | some t' =>
      have ht' := ho t' rfl
      refine keeps_bind CallFrame.thenFreed (h.getBuf _ _) fun r => ?_
      exact keeps_bind CallFrame.thenFreed (h.respGood _) fun good =>
        keeps_ite (freed_exit ht' _) (freed_blkFailed ht' _)

/-! ## Commands and calls -/

theorem Balanced.next_live (h : Balanced w) : w.live w.nextTask = false := by
  have hnext := h w.nextTask
  cases hlive : w.live w.nextTask with
  | false => rfl
  | true =>
      rw [hlive] at hnext
      simp at hnext

theorem Freed.created (hb : Balanced w) (h : Freed w.nextTask w.addTask w') : CallFrame w w' := by
  obtain ⟨v, hv, hlive, rfl⟩ := h
  refine ⟨hv.dev, ?_, Nat.le_of_succ_le hv.next, hv.flights,
    fun hb => (hv.balanced hb.addTask).freeTask hlive, hv.sent, hv.outring, hv.uncollected,
    hv.pushes, hv.returned, hv.ios⟩
  show Function.update v.live w.nextTask false = w.live
  rw [hv.live]
  show Function.update (Function.update w.live w.nextTask true) w.nextTask false = w.live
  rw [Function.update_idem, Function.update_eq_self_iff.mpr hb.next_live.symm]

/-- What a command or a call does, where the tasks are balanced before it. -/
def Tidy (w w' : World) : Prop := Balanced w → CallFrame w w'

theorem tidy_outline : Outline Tidy where
  refl w _ := .refl w
  trans _ _ _ h h' hb := .trans _ _ _ (h hb) (h' ((h hb).balanced hb))
  failed w _ := .setFailed w
  memcpy w io _ _ _ _ := .setBuf w io _

theorem tidy_create {α : Type} {n : Nat} {a : α} {f : TaskRef → M α}
    (hf : ∀ t, Keeps (Freed t.id) (f t)) :
    Keeps Tidy (do
      match ← virtioTaskCreate n with
      | none => pure a
      | some t => f t) := by
  refine ⟨fun p b q hrun hb => ?_⟩
  have hspec : Calls False True (do
      match ← virtioTaskCreate n with
      | none => pure a
      | some t => f t) (fun _ w' => CallFrame p.1 w') p.1 := by
    refine wpIf_bind (calls_create (fun _ => wpIf_pure (.setFailed _)) ?_)
    exact wpIf_mono (wpIf_of_keeps (hf _) (fun _ hc => hc.elim) trivial) fun _ _ h => h.created hb
  exact hspec.result (fun _ _ => False.elim) hrun

theorem tidy_blkRead (buf : BufPtr) (lba n : Nat) :
    Keeps Tidy (blkReadVirtioDev device io buf lba n) := by
  have h := CallFrame.outline
  refine tidy_create fun t => keeps_bind CallFrame.thenFreed (keeps_state h.refl) fun w => ?_
  refine keeps_bind_of CallFrame.thenFreed (h.allocBuf _ _ _ _ _) (fun _ _ _ => allocBuf_id rfl)
    fun req hreq => ?_
  refine keeps_bind_of CallFrame.thenFreed (h.allocBuf _ _ _ _ _) (fun _ _ _ => allocBuf_id hreq)
    fun resp hresp => ?_
  refine keeps_bind_of CallFrame.thenFreed (h.addBuf _ _ _ _) (fun _ _ _ => addBuf_id hresp)
    fun task htask => ?_
  split
  · refine freed_sendRead ?_ _ _
    exact htask
  · exact freed_blkFailed htask _

theorem tidy_blkWrite (buf : BufPtr) (lba n : Nat) :
    Keeps Tidy (blkWriteVirtioDev device io buf lba n) := by
  have h := CallFrame.outline
  refine keeps_bind tidy_outline.trans (keeps_state tidy_outline.refl) fun w => ?_
  refine tidy_create fun t => keeps_bind_of CallFrame.thenFreed (h.allocBuf _ _ _ _ _)
    (fun _ _ _ => allocBuf_id rfl) fun req hreq => ?_
  refine keeps_bind_of CallFrame.thenFreed (h.addBuf _ _ _ _) (fun _ _ _ => addBuf_id hreq)
    fun task htask => ?_
  refine keeps_bind_of CallFrame.thenFreed (h.allocBuf _ _ _ _ _) (fun _ _ _ => allocBuf_id htask)
    fun resp hresp => ?_
  split
  · refine freed_sendWrite ?_ _ _ _
    exact hresp
  · exact freed_blkFailed hresp _

theorem tidy_read (off n : Nat) : Keeps Tidy (readVirtioDev device io off n) := by
  have h := tidy_outline
  exact readVirtioDev_eq ▸ h.syncCall (h.readPartial tidy_blkRead) tidy_blkRead off n

theorem tidy_write (off n : Nat) : Keeps Tidy (writeVirtioDev device io off n) := by
  have h := tidy_outline
  exact writeVirtioDev_eq ▸ h.syncCall (h.writePartial tidy_blkRead tidy_blkWrite) tidy_blkWrite off n

/-! ## Calls among asynchronous requests -/

theorem Chains.called (h : Chains w) (hw : CallFrame w w') : Chains w' := by
  constructor
  · intro t ht
    rw [hw.flights]
    exact h.fresh t (Nat.le_trans hw.next ht)
  · intro t
    rw [hw.live, hw.flights]
    exact h.live t
  · exact hw.balanced h.balanced
  · intro t f hf
    rw [hw.flights] at hf
    rw [(hw.ios f.io).1]
    exact h.busy t f hf
  · intro t f hf
    rw [hw.flights] at hf
    rw [hw.dev]
    exact (h.range t f hf).congr (hw.ios f.io).2
  · intro t f hf
    rw [hw.flights] at hf
    rw [hw.dev]
    exact (h.shape t f hf).congr (hw.ios f.io).2
  · rw [hw.flights]
    exact h.one
  · intro i hi
    rw [(hw.ios i).1] at hi
    rw [hw.flights]
    exact h.owner i hi
  · rw [hw.flights, hw.sent]
    exact h.rank
  · rw [hw.sent]
    exact h.sent
  · intro i hi
    rw [(hw.ios i).1] at hi
    rw [hw.sent]
    exact h.unsent i hi

theorem Entries.called (h : Entries w) (hw : CallFrame w w') : Entries w' := by
  refine ⟨fun i => ?_⟩
  rw [(hw.ios i).1]
  exact (h.entry i).frame (by rw [hw.outring]) (by rw [hw.uncollected]) (by rw [hw.pushes])
    (by rw [hw.returned])

theorem Linked.called (h : Linked dev w) (hw : CallFrame w w') : Linked dev w' :=
  ⟨hw.dev.trans h.dev, h.chains.called hw, h.entries.called hw⟩

end VhostUser.Dev
