import VhostUser.Dev.AsyncRead
import VhostUser.Dev.WriteRun

/-! # Descriptors that are not empty

The middle of a request may be empty although it has a head and a tail. A read adds a
buffer for the middle only if there are whole blocks, and so does a write that starts
with a block. `blk_read_first_block_done` looks at the length that is left over instead
and adds the buffer if anything follows the head. The length of a descriptor has 32 bits,
so the middle looks empty as well if its size is a multiple of 4 GiB.
-/

namespace VhostUser.Dev

open VhostUser.Lib

variable {w w' : World} {dev : VirtioDev} {disk : Bytes} {d d' : AsyncIoDesc}

/-- The middle of a request is not empty where it gets a buffer, and neither is its descriptor. -/
def MiddleShows (dev : VirtioDev) (d : AsyncIoDesc) : Prop :=
  (d.type = .write → firstResid dev d ≠ 0 → headLen dev d < d.nbytes → 0 < midBlocks dev d) ∧
    (d.type ≠ .other → 0 < midBlocks dev d → 0 < midBlocks dev d * dev.blockSize % 2 ^ 32)

instance (dev : VirtioDev) (d : AsyncIoDesc) : Decidable (MiddleShows dev d) :=
  inferInstanceAs (Decidable (_ ∧ _))

theorem MiddleShows.congr (h : MiddleShows dev d) (hreq : SameRequest d d') : MiddleShows dev d' := by
  have hhead : headLen dev d' = headLen dev d := by
    unfold headLen firstResid
    rw [hreq.offset, hreq.nbytes]
  unfold MiddleShows firstResid
  rw [hreq.type, hreq.offset, hreq.nbytes, hhead, midBlocks_congr hreq]
  exact h

/-! ## The buffers of a task -/

theorem descLen_block {m : Bytes} {response : Bool} {lo hi : Nat} (h : dev.Ok) :
    0 < descLen (blockBuf dev m response lo hi) := by
  have hpos := h.pos
  have hint := h.int
  show 0 < dev.blockSize % 2 ^ 32
  omega

theorem descLen_req (dev : VirtioDev) (lba n : Nat) (isWrite : Bool) :
    0 < descLen (reqBuf dev lba n isWrite) := by
  show 0 < sizeofReq % 2 ^ 32
  decide

theorem descLen_resp (r : VirtioScsiCmdResp) : 0 < descLen (respBuf r) := by
  show 0 < sizeofResp % 2 ^ 32
  decide

theorem ReadBufs.descriptors {vbufs : List Buffer} (hd : InRange dev d) (h : MiddleShows dev d)
    (htype : d.type = .read) (hbufs : ReadBufs dev d vbufs) : ∀ b ∈ vbufs, 0 < descLen b := by
  obtain ⟨lba, n, r, rest, rfl, hsizes⟩ := hbufs
  refine List.forall_mem_cons.mpr ⟨descLen_req .., List.forall_mem_cons.mpr ⟨descLen_resp r, ?_⟩⟩
  intro b hb
  have hpos := hd.ok.pos
  have hint := hd.ok.int
  unfold descLen
  rcases hsizes b.size (List.mem_map_of_mem hb) with hblock | ⟨hmid, hmiddle⟩
  · rw [hblock]
    omega
  · rw [hmiddle]
    exact h.2 (by rw [htype]; decide) hmid

/-- The first write command carries what is not empty of head and middle. -/
theorem descriptors_body {r : VirtioScsiCmdResp} {m : Bytes} (hd : InRange dev d)
    (h : MiddleShows dev d) (htype : d.type = .write) (hbody : 0 < bodyLen dev d) :
    ∀ b ∈ bodyWriteBufs dev d r m, 0 < descLen b := by
  have hmiddle : ∀ off, 0 < midBlocks dev d →
      0 < descLen (userBuf off (midBlocks dev d * dev.blockSize) false) := fun off hmid =>
    h.2 (by rw [htype]; decide) hmid
  unfold bodyWriteBufs
  by_cases hr : firstResid dev d = 0
  · rw [if_pos hr]
    have hmid : 0 < midBlocks dev d := by
      rw [bodyLen, headLen_of_aligned hr, Nat.zero_add] at hbody
      exact Nat.pos_of_mul_pos_right hbody
    simp only [List.forall_mem_cons]
    exact ⟨descLen_req .., hmiddle _ hmid, descLen_resp r, List.forall_mem_nil _⟩
  · rw [if_neg hr]
    by_cases hmore : headLen dev d < d.nbytes
    · rw [if_pos hmore]
      simp only [List.forall_mem_cons]
      exact ⟨descLen_req .., descLen_block hd.ok, hmiddle _ (h.1 htype hr hmore),
        descLen_resp r, List.forall_mem_nil _⟩
    · rw [if_neg hmore]
      simp only [List.forall_mem_cons]
      exact ⟨descLen_req .., descLen_block hd.ok, descLen_resp r, List.forall_mem_nil _⟩

theorem Shape.descriptors {cb : TaskCb} {vbufs : List Buffer} (hd : InRange dev d)
    (h : MiddleShows dev d) (hshape : Shape dev d cb vbufs) : ∀ b ∈ vbufs, 0 < descLen b := by
  cases hshape with
  | read hcb htype hbufs => exact hbufs.descriptors hd h htype
  | write htype hpart r m hbufs =>
      rw [hbufs]
      cases cb with
      | blkReadDone => exact hpart.elim
      | blkWriteFullBlocksDone => exact descriptors_body hd h htype hpart
      | blkReadFirstBlockDone =>
          simp only [writeBufs, firstReadBufs, List.forall_mem_cons]
          exact ⟨descLen_req .., descLen_resp r, descLen_block hd.ok, List.forall_mem_nil _⟩
      | blkReadLastBlockDone =>
          simp only [writeBufs, lastReadBufs, List.forall_mem_cons]
          exact ⟨descLen_req .., descLen_resp r, descLen_block hd.ok, List.forall_mem_nil _⟩
      | blkWriteLastBlockDone =>
          simp only [writeBufs, lastWriteBufs, List.forall_mem_cons]
          exact ⟨descLen_req .., descLen_block hd.ok, descLen_resp r, List.forall_mem_nil _⟩

/-! ## Every run -/

/-- No task in the vring has an empty buffer or an empty descriptor. -/
def NoneEmpty (w : World) : Prop :=
  ∀ t f, w.flights t = some f → ∀ b ∈ f.task.vbufs, 0 < b.size ∧ 0 < descLen b

/-- The middle of each request shows. -/
def SubmitsShowing (dev : VirtioDev) : Event → Prop
  | .submit _ desc _ => MiddleShows dev desc
  | _ => True

structure Showing (dev : VirtioDev) (w : World) : Prop where
  linked : Linked dev w
  shows : ∀ io, w.returned io = some 0 → MiddleShows dev (w.ios io).desc

theorem Showing.noneEmpty (h : Showing dev w) : NoneEmpty w := by
  obtain ⟨⟨hdev, hc, hb⟩, hshows⟩ := h
  subst hdev
  intro t f hf b hmem
  have htaken := (hb.entry f.io).returned
  rw [hc.busy t f hf] at htaken
  have hlen := (hc.shape t f hf).descriptors (hc.range t f hf) (hshows f.io htaken) b hmem
  exact ⟨Nat.lt_of_lt_of_le hlen (Nat.mod_le ..), hlen⟩

theorem Showing.step (h : Showing dev w) {e : Event} (hsub : SubmitsShowing dev e)
    (ht : Transition w e w') : Showing dev w' := by
  refine ⟨h.linked.step ht, fun io hio => ?_⟩
  rcases ht.request h.linked.chains hio with ⟨hold, hsame⟩ | ⟨desc, outcomes, rfl, hsame⟩
  · exact (h.shows io hold).congr hsame.toSameRequest
  · exact hsub.congr hsame.toSameRequest

theorem Showing.init (dev : VirtioDev) (disk : Bytes) : Showing dev (init dev disk) :=
  ⟨(Sound.init dev disk).linked, fun _ hio => nomatch hio⟩

theorem Showing.run (hg : dev.Geometry) {es : List Event} {s : Except Fault World}
    (hrun : (machine dev disk).Path (fun s e => RangedStep s e ∧ SubmitsShowing dev e)
      (machine dev disk).init es s) : ∀ w, s = .ok w → Showing dev w := by
  refine hrun.invariant (I := fun s => ∀ w, s = .ok w → Showing dev w) ?_ ?_
  · intro s e s' hs hok hstep w' hw'
    cases s with
    | error f => cases hstep
    | ok w =>
        have h := hs w rfl
        obtain ⟨w₁, rfl, ht⟩ | ⟨f, rfl⟩ := h.linked.next hg hok.1 hstep
        · cases hw'
          exact h.step hok.2 ht
        · cases hw'
  · intro w hw
    cases hw
    exact .init dev disk

/-- In every run in which each submitted request shows its middle, no task in the vring has a
buffer of size zero, and no descriptor has length zero. -/
theorem descriptors_not_empty (dev : VirtioDev) (hg : dev.Geometry) (disk : Bytes)
    (es : List Event) (w : World)
    (hrun : (machine dev disk).Path (fun s e => RangedStep s e ∧ SubmitsShowing dev e)
      (machine dev disk).init es (.ok w)) : NoneEmpty w :=
  (Showing.run hg hrun w rfl).noneEmpty

instance (dev : VirtioDev) (e : Event) : Decidable (SubmitsShowing dev e) :=
  match e with
  | .submit _ desc _ => inferInstanceAs (Decidable (MiddleShows dev desc))
  | .exec _ _ => .isTrue trivial
  | .reap _ _ => .isTrue trivial
  | .collect => .isTrue trivial
  | .watermark _ => .isTrue trivial

/-- A write whose first block has been read and is written back. -/
def headSchedule (nbytes : Nat) : List Event :=
  [.submit 0 (writeDesc 2 nbytes fun _ => 255) [], .exec 0 allDone, .reap 0 []]

def sizesOf (w : World) (t : Nat) : Option (List Nat) :=
  (w.flights t).map fun f => f.task.vbufs.map VirtioBuffer.size

theorem descriptors_not_empty_head : ∃ w, (machine smallDev countingDisk).Path
    (fun s e => RangedStep s e ∧ SubmitsShowing smallDev e) (machine smallDev countingDisk).init
      (headSchedule 7) (.ok w) ∧ sizesOf w 1 = some [51, 4, 4, 108] ∧ NoneEmpty w := by
  have hcheck : ((machine smallDev countingDisk).execIf
      (fun s e => decide (RangedStep s e ∧ SubmitsShowing smallDev e))
      (machine smallDev countingDisk).init (headSchedule 7)).any (fun s => s.toOption.any fun w =>
        decide (sizesOf w 1 = some [51, 4, 4, 108])) = true := by decide +kernel
  obtain ⟨w, hrun, hsizes⟩ := Machine.Path.of_check_ok hcheck
  exact ⟨w, hrun, hsizes,
    descriptors_not_empty smallDev ⟨by decide, by decide, by decide⟩ _ _ _ hrun⟩

/-- Nothing of this write fills a block, and the command that writes the first one back has
an empty buffer. -/
theorem head_followed_by_nothing : ∃ w, (machine smallDev countingDisk).Path AdmittedStep
    (machine smallDev countingDisk).init (headSchedule 3) (.ok w) ∧
      sizesOf w 1 = some [51, 4, 0, 108] ∧ ¬ NoneEmpty w := by
  have hcheck : ((machine smallDev countingDisk).execIf (fun s e => decide (AdmittedStep s e))
      (machine smallDev countingDisk).init (headSchedule 3)).any (fun s => s.toOption.any fun w =>
        decide (sizesOf w 1 = some [51, 4, 0, 108])) = true := by decide +kernel
  obtain ⟨w, hrun, hsizes⟩ := Machine.Path.of_check_ok hcheck
  refine ⟨w, hrun, hsizes, fun hnone => ?_⟩
  obtain ⟨f, hf, hmap⟩ := Option.map_eq_some_iff.mp hsizes
  have hmem : 0 ∈ f.task.vbufs.map VirtioBuffer.size := by
    rw [hmap]
    decide
  obtain ⟨b, hb, hzero⟩ := List.mem_map.mp hmem
  have hpos := (hnone 1 f hf b hb).1
  omega

end VhostUser.Dev
