import VhostUser.Dev.Exits
import VhostUser.Dev.WriteBack

/-! # Writes beyond the end of the device

The submission cuts a write off at the end of the device, in a variable of its own. The
callbacks work from `io_desc->nbytes`, which is not cut off. One write is followed here
with a device that executes what is within its range and fails the rest, and with nothing
else failing: such a write always goes wrong, except for one that is nothing after the cut
and whose commands, for a block beyond the end, wrap around to block zero.
-/

namespace VhostUser.Dev

open VhostUser.Lib Prog

variable {w w' : World} {dev : VirtioDev} {disk disk' : Bytes} {d d' : AsyncIoDesc} {t : Nat}

/-! ## One write, alone -/

/-- No block of the command is beyond the end of the device. -/
def InDevice (dev : VirtioDev) (cmd : RwCommand) : Prop :=
  cmd.count = 0 ∨ cmd.lba + cmd.count ≤ dev.numBlocks

/-- The device executes a command in its range, and fails any other one. -/
def Answers (dev : VirtioDev) (cmd : RwCommand) : Answer → Prop
  | .done transferred _ _ => InDevice dev cmd ∧ transferred = cmd.count * dev.blockSize
  | .failed resp _ => ¬ InDevice dev cmd ∧ resp.good = false

/-- Steps of such a device, and of a poller whose allocations succeed. -/
def RangeStep : Except Fault World → Event → Prop
  | .ok w, .exec t a => ∃ f cmd, w.flights t = some f ∧ commandOf f.task = some cmd ∧
      Answers w.dev cmd a
  | .ok _, .reap _ os => ∀ o ∈ os, o.isSome = true
  | _, _ => False

/-- Steps of a device, and of a poller whose allocations succeed. -/
def CalmStep : Event → Prop
  | .exec _ _ => True
  | .reap _ os => ∀ o ∈ os, o.isSome = true
  | _ => False

theorem RangeStep.calm {e : Event} (h : RangeStep (.ok w) e) : CalmStep e := by
  cases e with
  | exec t a => trivial
  | reap t os => exact h
  | submit io desc os => exact h
  | collect => exact h
  | watermark n => exact h

instance (dev : VirtioDev) (cmd : RwCommand) : Decidable (InDevice dev cmd) :=
  inferInstanceAs (Decidable (_ ∨ _))

instance (dev : VirtioDev) (cmd : RwCommand) (a : Answer) : Decidable (Answers dev cmd a) :=
  match a with
  | .done .. => inferInstanceAs (Decidable (_ ∧ _))
  | .failed .. => inferInstanceAs (Decidable (_ ∧ _))

instance (s : Except Fault World) (e : Event) : Decidable (RangeStep s e) :=
  match s, e with
  | .ok w, .exec t a => decidable_of_iff ((w.flights t).any (fun f => (commandOf f.task).any
      fun cmd => decide (Answers w.dev cmd a)) = true) (by
        simp only [RangeStep, Option.any_eq_true, decide_eq_true_eq]
        exact ⟨fun ⟨f, hf, cmd, hcmd, ha⟩ => ⟨f, cmd, hf, hcmd, ha⟩,
          fun ⟨f, cmd, hf, hcmd, ha⟩ => ⟨f, hf, cmd, hcmd, ha⟩⟩)
  | .ok _, .reap _ os => inferInstanceAs (Decidable (∀ o ∈ os, _))
  | .ok _, .submit .. => isFalse id
  | .ok _, .collect => isFalse id
  | .ok _, .watermark _ => isFalse id
  | .error _, _ => isFalse id

/-- What is wanted of a write of `d` in every state: each command is in the range of the device,
and once there is none left, the bytes up to the end of the device are written and counted. -/
structure Clipped (disk : Bytes) (d : AsyncIoDesc) (w : World) : Prop where
  inDevice : ∀ t f cmd, w.flights t = some f → commandOf f.task = some cmd → InDevice w.dev cmd
  done : (∀ t, w.flights t = none) → w.pushes = [0] ∧
    (w.ios 0).desc.retval = (w.dev.cap - d.offset : Nat) ∧
    w.disk = disk.patch d.offset (w.dev.cap - d.offset) d.buf

/-- A run of one write, up to a state. -/
def Reached (dev : VirtioDev) (disk : Bytes) (d : AsyncIoDesc) (s : Except Fault World) : Prop :=
  ∃ os s₁ es, (∀ o ∈ os, o.isSome = true) ∧
    stepWorld (init dev disk) (.submit 0 d os) = some s₁ ∧ (machine dev disk).Path RangeStep s₁ es s

/-- Every run of the write is free of faults, and clipped in every state. -/
def Clips (dev : VirtioDev) (disk : Bytes) (d : AsyncIoDesc) : Prop :=
  ∀ s, Reached dev disk d s → ∃ w, s = .ok w ∧ Clipped disk d w

/-- The same whatever the bytes on the disk and the bytes to write are. -/
def WriteClipped (dev : VirtioDev) (d : AsyncIoDesc) : Prop :=
  ∀ d' disk, SameRequest d d' → Clips dev disk d'

theorem Reached.step {s s' : Except Fault World} {e : Event} (h : Reached dev disk d s)
    (hok : RangeStep s e) (hs : step s e = some s') : Reached dev disk d s' := by
  obtain ⟨os, s₁, es, hos, hsubmit, hrun⟩ := h
  exact ⟨os, s₁, es ++ [e], hos, hsubmit, hrun.trans (.cons hok hs (.nil _))⟩

/-! ## The state of such a run -/

/-- One task is in the vring, and there is no other. -/
structure Alone (w : World) (dev : VirtioDev) (disk : Bytes) (t : Nat) (d : AsyncIoDesc)
    (cb : TaskCb) (vbufs : List Buffer) (answered : Bool) : Prop where
  dev : w.dev = dev
  disk : w.disk = disk
  flights : ∃ task : Task, task.vbufs = vbufs ∧
    w.flights = Function.update (fun _ => none) t (some ⟨task, cb, 0, answered⟩)
  live : ∀ x, w.live x = (x == t)
  lt : t < w.nextTask
  own : w.ios 0 = ⟨d, .busy⟩
  outring : w.outring = []
  pushes : w.pushes = []

structure Finished (w : World) (dev : VirtioDev) (disk : Bytes) (d : AsyncIoDesc) : Prop where
  dev : w.dev = dev
  disk : w.disk = disk
  flights : ∀ x, w.flights x = none
  own : w.ios 0 = ⟨d, .pushed⟩
  pushes : w.pushes = [0]

namespace Alone

variable {cb : TaskCb} {vbufs : List Buffer}

theorem take_flights (h : Alone w dev disk t d cb vbufs true) (x : Nat) : (w.take t).flights x = none := by
  obtain ⟨task, -, hflights⟩ := h.flights
  show Function.update w.flights t none x = none
  rw [hflights, Function.update_idem]
  by_cases hx : x = t
  · rw [hx, Function.update_self]
  · rw [Function.update_of_ne hx]

theorem ready {excused : Prop} (h : Alone w dev disk t d cb vbufs true) :
    Ready excused (w.take t) t 0 := by
  refine ⟨⟨?_, h.take_flights t, ?_, ?_⟩, ?_, h.take_flights _⟩
  · show w.live t = true
    rw [h.live, beq_self_eq_true]
  · show (w.ios 0).state = .busy
    rw [h.own]
  · intro _
    show w.outring.length < outringCapacity
    rw [h.outring]
    decide
  · show w.live w.nextTask = false
    rw [h.live]
    exact beq_false_of_ne (Nat.ne_of_gt h.lt)

theorem passed (h : Alone w dev disk t d cb vbufs true) {cb' : TaskCb} {vbufs' : List Buffer}
    (hp : Passed (w.take t) t 0 d' cb' vbufs' w') :
    Alone w' dev disk w.nextTask d' cb' vbufs' false := by
  obtain ⟨task, hvbufs, hflights⟩ := hp.flights
  refine ⟨hp.dev.trans h.dev, hp.disk.trans h.disk, ⟨task, hvbufs, ?_⟩, fun x => ?_, ?_, hp.own,
    hp.outring.trans h.outring, hp.pushes.trans h.pushes⟩
  · rw [hflights, show (w.take t).flights = fun _ => none from funext h.take_flights]
    rfl
  · rw [hp.live]
    show (x == w.nextTask || (w.live x && x != t)) = _
    rw [h.live, bne, Bool.and_not_self, Bool.or_false]
  · rw [hp.nextTask]
    exact Nat.lt_succ_self _

theorem closed (h : Alone w dev disk t d cb vbufs true) (hc : Closed (w.take t) t 0 d' w') :
    Finished w' dev disk d' := by
  refine ⟨hc.dev.trans h.dev, hc.disk.trans h.disk, fun x => ?_, hc.own, ?_⟩
  · rw [hc.flights]
    exact h.take_flights x
  · rw [hc.pushes]
    show w.pushes ++ [0] = [0]
    rw [h.pushes]
    rfl

/-- If its callback comes to an end, this is what it leaves. -/
theorem reaps (h : Alone w dev disk t d cb vbufs true) {Q : Unit → World → Prop}
    (hcalls : ∀ task : Task, task.vbufs = vbufs →
      Calls True True (runCallback cb ⟨t, task⟩ 0) Q (w.take t)) :
    ∃ s, step (.ok w) (.reap t []) = some s ∧ ∀ w', s = .ok w' → Q () w' := by
  obtain ⟨task, hvbufs, hflights⟩ := h.flights
  have hf : w.flights t = some ⟨task, cb, 0, true⟩ := by
    rw [hflights, Function.update_self]
  refine ⟨(runCallback cb ⟨t, task⟩ 0 (w.take t, [])).map fun r => r.2.1, ?_, fun w' hw' => ?_⟩
  · simp [step, stepWorld, hf]
  · cases hrun : runCallback cb ⟨t, task⟩ 0 (w.take t, []) with
    | error e =>
        rw [hrun] at hw'
        cases hw'
    | ok p =>
        obtain ⟨u, v, os'⟩ := p
        rw [hrun] at hw'
        cases hw'
        have hnone : ∀ o ∈ ([] : List (Option Bytes)), True → o.isSome = true := fun o ho =>
          absurd ho List.not_mem_nil
        exact (hcalls task hvbufs).result hnone hrun

theorem command {lba n : Nat} {isWrite answered : Bool} {rest : List Buffer}
    (h : Alone w dev disk t d cb (reqBuf dev lba n isWrite :: rest) answered) :
    ∃ f, w.flights t = some f ∧ f.cb = cb ∧ f.io = 0 ∧ f.answered = answered ∧
      f.task.vbufs = reqBuf dev lba n isWrite :: rest ∧
      commandOf f.task = some ⟨isWrite, lba % 2 ^ lbaBits dev, n % 2 ^ countBits dev⟩ := by
  obtain ⟨task, hvbufs, hflights⟩ := h.flights
  refine ⟨⟨task, cb, 0, answered⟩, ?_, rfl, rfl, rfl, hvbufs, commandOf_reqBuf hvbufs⟩
  rw [hflights, Function.update_self]

theorem answered {vbufs' : List Buffer} {f : Flight} (h : Alone w dev disk t d cb vbufs false)
    (hf : w.flights t = some f) (used : Nat) :
    Alone (w.answer t f vbufs' used) dev disk t d cb vbufs' true := by
  obtain ⟨task, -, hflights⟩ := h.flights
  rw [hflights, Function.update_self] at hf
  cases hf
  refine ⟨h.dev, h.disk, ⟨{ task with vbufs := vbufs', usedBytes := used % 2 ^ 32 }, rfl, ?_⟩,
    h.live, h.lt, h.own, h.outring, h.pushes⟩
  show Function.update w.flights t _ = _
  rw [hflights, Function.update_idem]

theorem execRead {lba lo hi : Nat} {r : VirtioScsiCmdResp} {m : Bytes} {f : Flight}
    (h : Alone w dev disk t d cb [reqBuf dev lba 1 false, respBuf r, blockBuf dev m true lo hi] false)
    (hf : w.flights t = some f) (rest : Bytes) (used : Nat) :
    ∃ m', (∀ k < dev.blockSize, m' k = disk (lba % 2 ^ lbaBits dev * dev.blockSize + k)) ∧
      Alone (w.exec t f (.done dev.blockSize rest used)) dev disk t d cb
        [reqBuf dev lba 1 false, respBuf ⟨0, 0⟩, blockBuf dev m' true lo hi] true := by
  obtain ⟨f', hf', -, hio, -, hvbufs, hcmd⟩ := h.command
  rw [hf] at hf'
  cases hf'
  refine ⟨m.patch 0 dev.blockSize fun k => if k < dev.blockSize then
    disk (lba % 2 ^ lbaBits dev * dev.blockSize + k) else rest k, fun k hk => ?_, ?_⟩
  · rw [Bytes.patch_inside _ _ (Nat.zero_le _) (by omega), Nat.sub_zero, if_pos hk]
  · have hfill : fillIn (fun k => if k < dev.blockSize then
        w.disk (lba % 2 ^ lbaBits dev * w.dev.blockSize + k) else rest k) false 0
        (setResp ⟨0, 0⟩ f.task.vbufs) =
        [reqBuf dev lba 1 false, respBuf ⟨0, 0⟩, blockBuf dev (m.patch 0 dev.blockSize fun k =>
          if k < dev.blockSize then disk (lba % 2 ^ lbaBits dev * dev.blockSize + k)
          else rest k) true lo hi] := by
      rw [hvbufs, h.dev, h.disk]
      simp [setResp, fillIn, reqBuf, respBuf, blockBuf]
    have huser : ∀ src m, fillUser src false 0 (setResp ⟨0, 0⟩ f.task.vbufs) m = m := fun src m => by
      rw [hvbufs]
      rfl
    simp only [World.exec, hcmd, hfill, huser]
    rw [answer_setIo_self]
    exact h.answered hf used

theorem execWrite {lba n : Nat} {rest : List Buffer} {f : Flight}
    (h : Alone w dev disk t d cb (reqBuf dev lba n true :: rest) false)
    (hf : w.flights t = some f) (transferred : Nat) (junk : Bytes) (used : Nat) :
    Alone (w.exec t f (.done transferred junk used)) dev
      (disk.patch (lba % 2 ^ lbaBits dev * dev.blockSize) (n % 2 ^ countBits dev * dev.blockSize)
        (gather (w.bytes 0) (dataOut (reqBuf dev lba n true :: rest)))) t d cb
      (setResp ⟨0, 0⟩ (reqBuf dev lba n true :: rest)) true := by
  obtain ⟨f', hf', -, hio, -, hvbufs, hcmd⟩ := h.command
  rw [hf] at hf'
  cases hf'
  simp only [World.exec, hcmd, hvbufs, hio, h.dev, h.disk]
  have hdone : Alone (w.answer t f _ used) dev disk t d cb
    (setResp ⟨0, 0⟩ (reqBuf dev lba n true :: rest)) true := h.answered hf used
  exact { hdone with disk := rfl }

end Alone

theorem patch_carried (w : World) (disk : Bytes) (lba pos lo hi : Nat) (m : Bytes)
    (r : VirtioScsiCmdResp) : disk.patch pos dev.blockSize
      (gather (w.bytes 0) (dataOut [reqBuf dev lba 1 true, blockBuf dev m false lo hi, respBuf r])) =
      disk.patch pos dev.blockSize m := by
  have hout : dataOut [reqBuf dev lba 1 true, blockBuf dev m false lo hi, respBuf r] =
      [blockBuf dev m false lo hi] := rfl
  rw [hout]
  exact Bytes.patch_congr disk fun k hk => gather_block (fun _ => rfl) hk

theorem setResp_append {r : VirtioScsiCmdResp} {data rest : List Buffer}
    (hout : ∀ b ∈ data, b.response = false) :
    setResp r (data ++ rest) = data ++ setResp r rest := by
  induction data with
  | nil => rfl
  | cons b data ih =>
      show (if b.response then _ else b :: setResp r (data ++ rest)) = _
      rw [if_neg (by simp [hout b (List.mem_cons_self ..)]),
        ih fun x hx => hout x (List.mem_cons_of_mem _ hx)]
      rfl

/-- A device that has executed a write leaves its command as it was. -/
theorem setResp_written {lba n : Nat} {data : List Buffer} (hout : ∀ b ∈ data, b.response = false) :
    setResp ⟨0, 0⟩ (reqBuf dev lba n true :: (data ++ [respBuf ⟨0, 0⟩])) =
      reqBuf dev lba n true :: (data ++ [respBuf ⟨0, 0⟩]) := by
  show reqBuf dev lba n true :: setResp ⟨0, 0⟩ (data ++ [respBuf ⟨0, 0⟩]) = _
  rw [setResp_append hout]
  rfl

theorem inDevice_one {isWrite : Bool} {lba : Nat} :
    InDevice dev ⟨isWrite, lba, 1 % 2 ^ countBits dev⟩ ↔ lba < dev.numBlocks := by
  simp only [InDevice, one_mod_countBits, Nat.one_ne_zero, false_or]
  exact Nat.succ_le_iff

theorem submitted (disk : Bytes) (htype : d.type = .write) (hpos : 0 < dev.blockSize)
    (hoff : d.offset ≤ dev.cap) (hn : 0 < d.nbytes) {os : List (Option Bytes)}
    (hos : ∀ o ∈ os, o.isSome = true) :
    ∃ w cb vbufs, stepWorld (init dev disk) (.submit 0 d os) = some (.ok w) ∧
      OpeningCommand dev d cb vbufs ∧ Alone w dev disk 0 { d with retval := -1 } cb vbufs false := by
  have hentered : Entered ((init dev disk).enter 0 d) 0 := ⟨rfl, rfl, rfl⟩
  have hwrite : Calls True False (writeVirtioDevAsync 0) _ ((init dev disk).enter 0 d) :=
    writeVirtioDevAsync_calls hentered hpos hoff hn
  have hown : (((init dev disk).enter 0 d).ios 0).desc.type = .write := htype
  have hsubmit : Calls True False (virtioSubmit 0) _ ((init dev disk).enter 0 d) :=
    wpIf_bind (calls_useIo rfl (by
      rw [hown]
      exact hwrite))
  obtain ⟨rc, v, os', hrun, desc, hdesc, ⟨-, hcalm, -⟩ | ⟨rfl, cb, vbufs, hopen, hpass⟩⟩ :=
    hsubmit.ends id fun o ho _ => hos o ho
  · exact absurd trivial hcalm
  subst hdesc
  refine ⟨v.leave 0 0, cb, vbufs, ?_, hopen, ?_⟩
  · simp only [stepWorld, hrun]
    rfl
  · obtain ⟨task, hvbufs, hflights⟩ := hpass.flights
    refine ⟨hpass.dev, hpass.disk, ⟨task, hvbufs, hflights⟩, fun x => ?_, ?_, hpass.own,
      hpass.outring, hpass.pushes⟩
    · show v.live x = _
      rw [hpass.live]
      exact Bool.or_false _
    · show 0 < v.nextTask
      rw [hpass.nextTask]
      exact Nat.one_pos

/-! ## The stages of a run that is clipped -/

namespace Clips

variable {disk₀ : Bytes} {d₀ : AsyncIoDesc} {cb : TaskCb}

/-- In a clipped run the block that is read is one of the device, and its bytes are read. -/
theorem read {lba lo hi : Nat} {m : Bytes} {r : VirtioScsiCmdResp} (hP : Clips dev disk₀ d₀)
    (hr : Reached dev disk₀ d₀ (.ok w)) (h : Alone w dev disk t d cb
      [reqBuf dev lba 1 false, respBuf r, blockBuf dev m true lo hi] false) :
    lba % 2 ^ lbaBits dev < dev.numBlocks ∧ ∃ w' m', Reached dev disk₀ d₀ (.ok w') ∧
      (∀ k < dev.blockSize, m' k = disk (lba % 2 ^ lbaBits dev * dev.blockSize + k)) ∧
      Alone w' dev disk t d cb [reqBuf dev lba 1 false, respBuf ⟨0, 0⟩, blockBuf dev m' true lo hi]
        true := by
  obtain ⟨f, hf, -, -, hans, -, hcmd⟩ := h.command
  obtain ⟨w₁, hw₁, hclip⟩ := hP _ hr
  cases hw₁
  have hin := hclip.inDevice t f _ hf hcmd
  rw [h.dev] at hin
  obtain ⟨m', hm', hdone⟩ := h.execRead hf (fun _ => 0) 0
  refine ⟨inDevice_one.mp hin, _, m', hr.step (e := .exec t (.done dev.blockSize (fun _ => 0) 0)) ?_ ?_,
    hm', hdone⟩
  · refine ⟨f, _, hf, hcmd, ?_, ?_⟩
    · rw [h.dev]
      exact hin
    · rw [h.dev, one_mod_countBits, Nat.one_mul]
  · simp [step, stepWorld, hf, hans]

/-- The blocks that are written are some of the device, and they are written. -/
theorem write {lba n : Nat} {rest : List Buffer} (hP : Clips dev disk₀ d₀)
    (hr : Reached dev disk₀ d₀ (.ok w))
    (h : Alone w dev disk t d cb (reqBuf dev lba n true :: rest) false) :
    ∃ w', Reached dev disk₀ d₀ (.ok w') ∧ Alone w' dev
      (disk.patch (lba % 2 ^ lbaBits dev * dev.blockSize) (n % 2 ^ countBits dev * dev.blockSize)
        (gather (w.bytes 0) (dataOut (reqBuf dev lba n true :: rest)))) t d cb
      (setResp ⟨0, 0⟩ (reqBuf dev lba n true :: rest)) true := by
  obtain ⟨f, hf, -, -, hans, -, hcmd⟩ := h.command
  obtain ⟨w₁, hw₁, hclip⟩ := hP _ hr
  cases hw₁
  have hin := hclip.inDevice t f _ hf hcmd
  have hok : RangeStep (.ok w) (.exec t (.done (n % 2 ^ countBits dev * w.dev.blockSize)
    (fun _ => 0) 0)) := ⟨f, _, hf, hcmd, hin, rfl⟩
  refine ⟨_, hr.step hok ?_, h.execWrite hf (n % 2 ^ countBits dev * w.dev.blockSize) (fun _ => 0) 0⟩
  simp [step, stepWorld, hf, hans]

theorem reap {vbufs : List Buffer} (hP : Clips dev disk₀ d₀) (hr : Reached dev disk₀ d₀ (.ok w))
    (h : Alone w dev disk t d cb vbufs true) {Q : Unit → World → Prop}
    (hcalls : ∀ task : Task, task.vbufs = vbufs →
      Calls True True (runCallback cb ⟨t, task⟩ 0) Q (w.take t)) :
    ∃ w', Reached dev disk₀ d₀ (.ok w') ∧ Q () w' := by
  obtain ⟨s, hs, hend⟩ := h.reaps hcalls
  have hreached := hr.step (e := .reap t []) (fun o ho => absurd ho List.not_mem_nil) hs
  obtain ⟨w', rfl, -⟩ := hP _ hreached
  exact ⟨w', hreached, hend w' rfl⟩

/-- At its end the write has counted and stored the bytes up to the end of the device. -/
theorem finished (hP : Clips dev disk₀ d₀) (hr : Reached dev disk₀ d₀ (.ok w))
    (h : Finished w dev disk d) : d.retval = (dev.cap - d₀.offset : Nat) ∧
      disk = disk₀.patch d₀.offset (dev.cap - d₀.offset) d₀.buf := by
  obtain ⟨w₁, hw₁, hclip⟩ := hP _ hr
  cases hw₁
  obtain ⟨-, hret, hdisk⟩ := hclip.done h.flights
  rw [h.own, h.dev] at hret
  rw [h.disk, h.dev] at hdisk
  exact ⟨hret, hdisk⟩

/-- The last block is read, and written back where the unclipped length ends. -/
theorem tail {lba hi : Nat} {m : Bytes} {r : VirtioScsiCmdResp} (hP : Clips dev disk₀ d₀)
    (hr : Reached dev disk₀ d₀ (.ok w)) (h : Alone w dev disk t d .blkReadLastBlockDone
      [reqBuf dev lba 1 false, respBuf r, blockBuf dev m true 0 hi] false) (hhi : hi < 2 ^ 64) :
    lba % 2 ^ lbaBits dev < dev.numBlocks ∧
      addSize d.offset d.nbytes / dev.blockSize % 2 ^ lbaBits dev < dev.numBlocks ∧
      (if d.retval < 0 then toSsize hi else toSsize (addSize d.retval.toNat hi)) =
        (dev.cap - d₀.offset : Nat) ∧ ∃ m' : Bytes,
      (∀ k < dev.blockSize, m' k = Bytes.patch
        (fun k => disk (lba % 2 ^ lbaBits dev * dev.blockSize + k)) 0 hi
        (fun k => d.buf (subSize d.nbytes hi + k)) k) ∧
      disk.patch (addSize d.offset d.nbytes / dev.blockSize % 2 ^ lbaBits dev * dev.blockSize)
        dev.blockSize m' = disk₀.patch d₀.offset (dev.cap - d₀.offset) d₀.buf := by
  have hrange : subSize hi 0 = hi := by rw [subSize_eq (Nat.zero_le _) hhi, Nat.sub_zero]
  obtain ⟨hlba, w₁, m₁, hr₁, hm₁, h₁⟩ := hP.read hr h
  obtain ⟨w₂, hr₂, ⟨hdrop, -⟩ | ⟨-, m', hm', hpass⟩⟩ := hP.reap hr₁ h₁ fun task hvbufs =>
    blkReadLastBlockDone_calls h₁.ready (by rw [show (w₁.take t).dev = dev from h₁.dev]; exact hvbufs)
  · cases hdrop trivial
  have hown : ((w₁.take t).ios 0).desc = d := congrArg Io.desc h₁.own
  have htake : (w₁.take t).dev = dev := h₁.dev
  rw [hown, hrange] at hm'
  have h₂ := h₁.passed hpass
  rw [hown, htake] at h₂
  obtain ⟨f, hf, -, -, -, -, hcmd⟩ := h₂.command
  obtain ⟨v, hv, hclip⟩ := hP _ hr₂
  cases hv
  have hin := hclip.inDevice _ f _ hf hcmd
  rw [h₂.dev] at hin
  obtain ⟨w₃, hr₃, h₃⟩ := hP.write hr₂ h₂
  rw [one_mod_countBits, Nat.one_mul, patch_carried] at h₃
  obtain ⟨w₄, hr₄, ⟨hbad, -⟩ | ⟨-, hclosed⟩⟩ := hP.reap hr₃ h₃ fun task hvbufs =>
    blkWriteLastBlockDone_calls h₃.ready
      (by rw [show (w₃.take w₁.nextTask).dev = dev from h₃.dev]; exact hvbufs)
  · cases hbad
  have h₄ := h₃.closed hclosed
  rw [show ((w₃.take w₁.nextTask).ios 0).desc = d from congrArg Io.desc h₃.own, hrange] at h₄
  obtain ⟨hret, hdisk⟩ := hP.finished hr₄ h₄
  refine ⟨hlba, inDevice_one.mp hin, hret, m', fun k hk => ?_, hdisk⟩
  rw [hm' k (htake ▸ hk), Bytes.patch, Bytes.patch, hm₁ k hk]

/-- The whole blocks are written. If these are not all there is, the last block is read. -/
theorem body {lba n : Nat} {data : List Buffer} (hP : Clips dev disk₀ d₀)
    (hr : Reached dev disk₀ d₀ (.ok w)) (hdata : data ≠ []) (hout : ∀ b ∈ data, b.response = false)
    (h : Alone w dev disk t d .blkWriteFullBlocksDone
      (reqBuf dev lba n true :: (data ++ [respBuf ⟨0, 0⟩])) false) :
    (sumRanges data = d.nbytes ∧ toSsize (sumRanges data) = (dev.cap - d₀.offset : Nat)) ∨
      sumRanges data ≠ d.nbytes ∧ addSize d.offset d.nbytes % dev.blockSize ≠ 0 ∧
        ∃ w' disk' t' m', Reached dev disk₀ d₀ (.ok w') ∧ Alone w' dev disk' t'
          { d with retval := toSsize (sumRanges data) } .blkReadLastBlockDone
          [reqBuf dev (addSize d.offset d.nbytes / dev.blockSize) 1 false, respBuf ⟨0, 0⟩,
            blockBuf dev m' true 0 (addSize d.offset d.nbytes % dev.blockSize)] false := by
  obtain ⟨w₁, hr₁, h₁⟩ := hP.write hr h
  rw [setResp_written hout] at h₁
  have hown : ((w₁.take t).ios 0).desc = d := congrArg Io.desc h₁.own
  have htake : (w₁.take t).dev = dev := h₁.dev
  obtain ⟨w₂, hr₂, ⟨hbad, -⟩ | ⟨-, desc, hdesc, hend⟩⟩ := hP.reap hr₁ h₁ fun task hvbufs =>
    blkWriteFullBlocksDone_calls h₁.ready hdata hvbufs fun hx => absurd trivial hx
  · cases hbad
  subst hdesc
  rw [hown, htake] at hend
  -- the value is a conversion of a 64 bit number, which nothing here should unfold
  generalize toSsize (sumRanges data) = x at hend ⊢
  rcases hend with ⟨hall, hclosed⟩ | ⟨hdiff, ⟨hcalm, -⟩ | ⟨hresid, m', hpass⟩⟩
  · exact Or.inl ⟨hall, (hP.finished hr₂ (h₁.closed hclosed)).1⟩
  · exact absurd trivial hcalm
  · exact Or.inr ⟨hdiff, hresid, w₂, _, _, m', hr₂, h₁.passed hpass⟩

end Clips

/-! ## The first block of such a write -/

theorem sumRanges_one (b : Buffer) : sumRanges [b] = subSize b.offsetTo b.offsetFrom := by
  have hlt : subSize b.offsetTo b.offsetFrom < 2 ^ 64 := Nat.mod_lt _ (by decide)
  rw [sumRanges, List.foldl_cons, List.foldl_nil, addSize_eq (by omega), Nat.zero_add]

theorem sumRanges_two (a b : Buffer) : sumRanges [a, b] =
    addSize (subSize a.offsetTo a.offsetFrom) (subSize b.offsetTo b.offsetFrom) := by
  have hone := sumRanges_one a
  rw [sumRanges, List.foldl_cons, List.foldl_nil] at hone
  rw [sumRanges, List.foldl_cons, List.foldl_cons, List.foldl_nil, hone]

theorem headWriteBufs_split (m : Bytes) (lo hi : Nat) (hnbytes : d.nbytes < 2 ^ 64) :
    ∃ n data, headWriteBufs dev d m lo hi =
        reqBuf dev (d.offset / dev.blockSize) n true :: (data ++ [respBuf ⟨0, 0⟩]) ∧ data ≠ [] ∧
      (∀ b ∈ data, b.response = false) ∧
      sumRanges data = subSize hi lo + (d.nbytes - subSize hi lo) / dev.blockSize * dev.blockSize := by
  unfold headWriteBufs
  split
  · next hmore =>
      have hwhole := Nat.div_mul_le_self (d.nbytes - subSize hi lo) dev.blockSize
      have huser : subSize ((d.nbytes - subSize hi lo) / dev.blockSize * dev.blockSize) 0 =
          (d.nbytes - subSize hi lo) / dev.blockSize * dev.blockSize := by
        rw [subSize_eq (Nat.zero_le _) (by omega), Nat.sub_zero]
      rw [subSize_eq (Nat.le_of_lt hmore) hnbytes]
      refine ⟨_, [blockBuf dev m false lo hi, userBuf (subSize hi lo)
        ((d.nbytes - subSize hi lo) / dev.blockSize * dev.blockSize) false], rfl, by simp,
        by simp [blockBuf, userBuf], ?_⟩
      rw [sumRanges_two]
      show addSize (subSize hi lo)
        (subSize ((d.nbytes - subSize hi lo) / dev.blockSize * dev.blockSize) 0) = _
      rw [huser, addSize_eq (by omega)]
  · next hone =>
      refine ⟨_, [blockBuf dev m false lo hi], rfl, by simp, by simp [blockBuf], ?_⟩
      rw [sumRanges_one, Nat.sub_eq_zero_of_le (Nat.le_of_not_lt hone), Nat.zero_div, Nat.zero_mul,
        Nat.add_zero]
      rfl

/-! ## Results and addresses that wrap around -/

theorem toSsize_neg {n : Nat} (hlo : 2 ^ 63 ≤ n) (hhi : n < 2 ^ 64) : toSsize n < 0 := by
  unfold toSsize
  rw [← Int.sub_bmod_right, Int.bmod_eq_of_le (by omega) (by omega)]
  omega

/-- A result that is not negative is the size it was converted from. -/
theorem eq_of_toSsize_eq {x m : Nat} (hx : x < 2 ^ 64) (h : toSsize x = m) : x = m := by
  by_cases hsmall : x < 2 ^ 63
  · rw [toSsize_eq hsmall] at h
    omega
  · have hneg := toSsize_neg (by omega) hx
    omega

/-- The address of the block after the last one is that of another block only if it is cut off. -/
theorem numBlocks_eq_of_wrap (hsize : dev.numBlocks < 2 ^ 64)
    (h : dev.numBlocks % 2 ^ lbaBits dev < dev.numBlocks) : dev.numBlocks = 2 ^ 32 := by
  unfold lbaBits at h
  split at h
  · rw [Nat.mod_eq_of_lt hsize] at h
    omega
  · omega

/-- A device whose size in bytes is a `size_t`. -/
structure VirtioDev.Exact (dev : VirtioDev) : Prop extends dev.Ok where
  size : dev.cap = dev.blockSize * dev.numBlocks

/-- The block after the last one is read as block zero at most. -/
theorem VirtioDev.Exact.numBlocks_lt (h : dev.Exact) : dev.numBlocks < 2 ^ 64 := by
  refine Nat.lt_of_le_of_lt ?_ h.cap
  rw [h.size]
  exact Nat.le_mul_of_pos_left _ h.pos

theorem clippedLen_le (hpast : dev.cap < d.offset + d.nbytes) : clippedLen dev d ≤ d.nbytes := by
  unfold clippedLen clipToCap
  split
  · omega
  · exact Nat.le_refl _

/-- The end of the device is the end of a block, so what is left of a head ends with its block. -/
theorem clippedHead_ends (hdev : dev.Exact) (hoff : d.offset ≤ dev.cap)
    (hr : firstResid dev d ≠ 0) :
    clippedHead dev d = d.nbytes ∨ firstResid dev d + clippedHead dev d = dev.blockSize := by
  have hfirst := first_block dev d
  have hmod := firstResid_lt (d := d) hdev.toOk
  have hcap := hdev.cap
  have hsize := hdev.size
  unfold clippedHead
  rw [if_neg hr]
  split
  · next hfits =>
      unfold clippedLen clipToCap at hfits ⊢
      split
      · next hclip =>
          right
          rw [if_pos hclip, addSize_eq (by omega)] at hfits
          have hend : dev.blockSize ∣ d.offset / dev.blockSize * dev.blockSize +
              (firstResid dev d + (dev.cap - d.offset)) := ⟨dev.numBlocks, by omega⟩
          have hle := Nat.le_of_dvd (by omega) ((Nat.dvd_add_right (Nat.dvd_mul_left ..)).mp hend)
          omega
      · exact Or.inl rfl
  · omega

/-- A disk whose first block can be told from the others. -/
def marked (dev : VirtioDev) : Bytes := fun x => if x < dev.blockSize then 2 else 0

/-- Bytes that are nowhere on that disk. -/
def ones : Bytes := fun _ => 1

namespace Clips

/-- After whole blocks the last block is not written. Where it is, `E` is the unclipped end. -/
theorem no_tail {S : Nat} {m : Bytes} {r : VirtioScsiCmdResp} (hdev : dev.Exact)
    (hoff : d.offset ≤ dev.cap) (hones : d.buf = ones) (hP : Clips dev (marked dev) d)
    (hlt : S < 2 ^ 64) (hS : (S + firstResid dev d) % dev.blockSize = 0)
    (hresid : addSize d.offset d.nbytes % dev.blockSize ≠ 0)
    (hr : Reached dev (marked dev) d (.ok w))
    (h : Alone w dev disk t { d with retval := toSsize S } .blkReadLastBlockDone
      [reqBuf dev (addSize d.offset d.nbytes / dev.blockSize) 1 false, respBuf r,
        blockBuf dev m true 0 (addSize d.offset d.nbytes % dev.blockSize)] false) : False := by
  have hpos := hdev.pos
  have hint := hdev.int
  have hcap := hdev.cap
  have hsize := hdev.size
  have hmod := Nat.mod_lt (addSize d.offset d.nbytes) hdev.pos
  obtain ⟨-, hblock, hret, m', hm', hdisk⟩ := hP.tail hr h (by omega)
  generalize addSize d.offset d.nbytes % dev.blockSize = e at *
  generalize addSize d.offset d.nbytes / dev.blockSize % 2 ^ lbaBits dev = j at *
  by_cases hsmall : S < 2 ^ 63
  · -- what is counted ends with a block, as the device does, but is too long by `e`
    rw [toSsize_eq hsmall, if_neg (Int.not_lt.mpr (Int.natCast_nonneg S)), Int.toNat_natCast,
      addSize_eq (by omega)] at hret
    have hsum : S + e = dev.cap - d.offset := eq_of_toSsize_eq (by omega) hret
    have hfirst := first_block dev d
    have hend : dev.blockSize ∣ (S + firstResid dev d) + d.offset / dev.blockSize * dev.blockSize + e := by
      refine ⟨dev.numBlocks, ?_⟩
      omega
    have hdvd : dev.blockSize ∣ (S + firstResid dev d) + d.offset / dev.blockSize * dev.blockSize :=
      Nat.dvd_add (Nat.dvd_of_mod_eq_zero hS) (Nat.dvd_mul_left ..)
    have hle := Nat.le_of_dvd (by omega) ((Nat.dvd_add_right hdvd).mp hend)
    omega
  · -- the result starts again with the last block, whose bytes are stored before the request
    have hneg := toSsize_neg (by omega) hlt
    generalize toSsize S = x at hret hneg
    rw [if_pos hneg] at hret
    have hsum : e = dev.cap - d.offset := eq_of_toSsize_eq (by omega) hret
    have hbefore : (j + 1) * dev.blockSize ≤ dev.cap := by
      rw [hsize, Nat.mul_comm]
      exact Nat.mul_le_mul_left _ hblock
    rw [Nat.add_mul, Nat.one_mul] at hbefore
    have hbyte := congrFun hdisk (j * dev.blockSize)
    rw [Bytes.patch_inside _ _ (Nat.le_refl _) (by omega), Nat.sub_self, hm' 0 hpos,
      Bytes.patch_inside _ _ (Nat.le_refl _) (by omega),
      Bytes.patch_outside _ _ (Or.inl (by show j * dev.blockSize < d.offset; omega))] at hbyte
    simp only [hones, ones, marked] at hbyte
    split at hbyte
    · cases hbyte
    · cases hbyte

/-- No write of whole blocks is the beginning of a clipped write. -/
theorem no_body {lba n : Nat} {data : List Buffer} (hdev : dev.Exact) (hoff : d.offset ≤ dev.cap)
    (hpast : dev.cap < d.offset + d.nbytes) (hones : d.buf = ones)
    (hP : Clips dev (marked dev) d) (hdata : data ≠ [])
    (hout : ∀ b ∈ data, b.response = false) (hlt : sumRanges data < 2 ^ 64)
    (hS : sumRanges data ≠ d.nbytes → (sumRanges data + firstResid dev d) % dev.blockSize = 0)
    (hr : Reached dev (marked dev) d (.ok w))
    (h : Alone w dev disk t { d with retval := -1 } .blkWriteFullBlocksDone
      (reqBuf dev lba n true :: (data ++ [respBuf ⟨0, 0⟩])) false) : False := by
  rcases hP.body hr hdata hout h with ⟨hall, hret⟩ | ⟨hdiff, hresid, v, disk', t', m', hrv, hv⟩
  · have hsum : sumRanges data = dev.cap - d.offset := eq_of_toSsize_eq hlt hret
    have hall' : sumRanges data = d.nbytes := hall
    omega
  · exact hP.no_tail hdev hoff hones hlt (hS hdiff) hresid hrv hv

theorem no_head {m : Bytes} (hdev : dev.Exact) (hoff : d.offset ≤ dev.cap)
    (hnbytes : d.nbytes < 2 ^ 64) (hpast : dev.cap < d.offset + d.nbytes) (hones : d.buf = ones)
    (hP : Clips dev (marked dev) d) (hresid : firstResid dev d ≠ 0)
    (hr : Reached dev (marked dev) d (.ok w))
    (h : Alone w dev disk t { d with retval := -1 } .blkReadFirstBlockDone
      [reqBuf dev (d.offset / dev.blockSize) 1 false, respBuf ⟨0, 0⟩,
        blockBuf dev m true (firstResid dev d) (addSize (firstResid dev d) (clippedHead dev d))] false) :
    False := by
  have hle : clippedHead dev d ≤ d.nbytes :=
    Nat.le_trans (clippedHead_le dev d) (clippedLen_le hpast)
  have hfirst := firstResid_lt (d := d) hdev.toOk
  have hint := hdev.int
  have hrange : subSize (addSize (firstResid dev d) (clippedHead dev d)) (firstResid dev d) =
      clippedHead dev d := subSize_addSize (by omega) (by omega)
  obtain ⟨-, w₁, m₁, hr₁, -, h₁⟩ := hP.read hr h
  have htake : (w₁.take t).dev = dev := h₁.dev
  obtain ⟨w₂, hr₂, ⟨hdrop, -⟩ | ⟨-, m', -, hpass⟩⟩ := hP.reap hr₁ h₁ fun task hvbufs =>
    blkReadFirstBlockDone_calls h₁.ready (by rw [htake]; exact hvbufs)
  · cases hdrop trivial
  have h₂ := h₁.passed hpass
  have hown : ((w₁.take t).ios 0).desc = { d with retval := -1 } := congrArg Io.desc h₁.own
  rw [htake, hown] at h₂
  obtain ⟨n, data, hsplit, hne, hout, hsum⟩ := @headWriteBufs_split dev
    { d with retval := -1 } m' (firstResid dev d) (addSize (firstResid dev d) (clippedHead dev d))
      hnbytes
  rw [hsplit] at h₂
  have hwhole := Nat.div_mul_le_self (d.nbytes - clippedHead dev d) dev.blockSize
  rw [hrange] at hsum
  refine hP.no_body hdev hoff hpast hones hne hout ?_ (fun hdiff => ?_) hr₂ h₂
  · rw [hsum]
    show clippedHead dev d + (d.nbytes - clippedHead dev d) / dev.blockSize * dev.blockSize < 2 ^ 64
    omega
  · rcases clippedHead_ends hdev hoff hresid with hall | hfill
    · refine absurd ?_ hdiff
      rw [hsum, hall, Nat.sub_self, Nat.zero_div, Nat.zero_mul, Nat.add_zero]
    · rw [hsum]
      show (clippedHead dev d + (d.nbytes - clippedHead dev d) / dev.blockSize * dev.blockSize +
        firstResid dev d) % dev.blockSize = 0
      rw [Nat.add_right_comm, Nat.add_comm (clippedHead dev d), hfill, Nat.add_mul_mod_self_right,
        Nat.mod_self]

/-- A write that begins with its last block begins at the end of the device. Only if the address
there is cut off to zero it is one of the device, and then the block goes back to block zero. -/
theorem tail_wraps {m : Bytes} (hdev : dev.Exact) (hoff : d.offset ≤ dev.cap)
    (hnbytes : d.nbytes < 2 ^ 64) (hpast : dev.cap < d.offset + d.nbytes) (hP : Clips dev (marked dev) d)
    (hresid : firstResid dev d = 0) (hone : clippedLen dev d < dev.blockSize)
    (hr : Reached dev (marked dev) d (.ok w))
    (h : Alone w dev (marked dev) t { d with retval := -1 } .blkReadLastBlockDone
      [reqBuf dev (d.offset / dev.blockSize) 1 false, respBuf ⟨0, 0⟩,
        blockBuf dev m true 0 (clippedLen dev d % dev.blockSize)] false) :
    dev.numBlocks = 2 ^ 32 ∧ d.offset = dev.cap ∧ d.offset + d.nbytes < 2 ^ 64 ∧
      d.nbytes / dev.blockSize % 2 ^ 32 = 0 := by
  have hpos := hdev.pos
  have hint := hdev.int
  have hcap := hdev.cap
  have hsize := hdev.size
  have hfirst := first_block dev d
  rw [hresid, Nat.add_zero] at hfirst
  obtain ⟨hlba, -, -, m', hm', hdisk⟩ := hP.tail hr h
    (Nat.lt_trans (Nat.mod_lt _ hpos) (by omega))
  have hend : d.offset / dev.blockSize = dev.numBlocks := by
    have hle : d.offset / dev.blockSize ≤ dev.numBlocks := by
      refine Nat.le_of_mul_le_mul_left ?_ hpos
      rw [Nat.mul_comm]
      omega
    refine Nat.le_antisymm hle (Nat.le_of_not_lt fun hlt => ?_)
    -- a whole block is left
    have hblock := Nat.mul_le_mul_left dev.blockSize (Nat.succ_le_of_lt hlt)
    rw [Nat.mul_succ, Nat.mul_comm, hfirst, ← hsize] at hblock
    unfold clippedLen clipToCap at hone
    split at hone
    · omega
    · omega
  rw [hend] at hlba hm' hfirst
  have hwrap := numBlocks_eq_of_wrap hdev.numBlocks_lt hlba
  have hbits : lbaBits dev = 32 := by
    rw [lbaBits, hwrap]
    rfl
  have hoffset : d.offset = dev.cap := by
    rw [hsize, Nat.mul_comm]
    exact hfirst.symm
  rw [hwrap] at hsize hm'
  rw [hbits] at hm' hdisk
  have hsum : d.offset + d.nbytes < 2 ^ 64 := by
    refine Nat.lt_of_not_le fun hbig => ?_
    unfold clippedLen clipToCap addSize at hone
    split at hone
    · omega
    · omega
  have hlen : clippedLen dev d = 0 := by
    rw [clippedLen, clipToCap, addSize_eq hsum, if_pos hpast]
    omega
  refine ⟨hwrap, hoffset, hsum, ?_⟩
  have hblocks : addSize d.offset d.nbytes / dev.blockSize = d.nbytes / dev.blockSize + 2 ^ 32 := by
    rw [addSize_eq hsum, hoffset, hsize, Nat.add_comm, Nat.add_mul_div_left _ _ hpos]
  have hnone : dev.cap - d.offset = 0 := by omega
  rw [hblocks, Nat.add_mod_right, hnone, Bytes.patch_zero] at hdisk
  have hbyte := congrFun hdisk (d.nbytes / dev.blockSize % 2 ^ 32 * dev.blockSize)
  rw [Bytes.patch_inside _ _ (Nat.le_refl _) (by omega), Nat.sub_self, hm' 0 hpos, hlen,
    Nat.zero_mod, Bytes.patch_zero, Nat.mod_self, Nat.zero_mul] at hbyte
  simp only [marked, if_pos hpos] at hbyte
  split at hbyte
  · next hlt =>
      refine Nat.lt_one_iff.mp (Nat.lt_of_not_le fun hle => ?_)
      have hmul := Nat.mul_le_mul_right dev.blockSize hle
      omega
  · cases hbyte

end Clips

/-- A write past the end is clipped in this one case at most. -/
theorem WriteClipped.wraps (hdev : dev.Exact) (htype : d.type = .write) (hoff : d.offset ≤ dev.cap)
    (hn : 0 < d.nbytes) (hnbytes : d.nbytes < 2 ^ 64) (hpast : dev.cap < d.offset + d.nbytes)
    (h : WriteClipped dev d) : dev.numBlocks = 2 ^ 32 ∧ d.offset = dev.cap ∧
      d.offset + d.nbytes < 2 ^ 64 ∧ d.nbytes / dev.blockSize % 2 ^ 32 = 0 := by
  obtain ⟨d', hd', hones⟩ : ∃ d', SameRequest d d' ∧ d'.buf = ones :=
    ⟨{ d with buf := ones }, ⟨rfl, rfl, rfl⟩, rfl⟩
  have hP := h d' (marked dev) hd'
  rw [← hd'.type] at htype
  rw [← hd'.offset] at hoff hpast ⊢
  rw [← hd'.nbytes] at hn hnbytes hpast ⊢
  have hnone : ∀ o ∈ ([] : List (Option Bytes)), o.isSome = true := fun o ho => nomatch ho
  obtain ⟨w, cb, vbufs, hsubmit, hopen, hw⟩ :=
    submitted (marked dev) htype hdev.pos hoff hn hnone
  have hr : Reached dev (marked dev) d' (.ok w) := ⟨[], _, [], hnone, hsubmit, .nil _⟩
  cases hopen with
  | head m hresid => exact (hP.no_head hdev hoff hnbytes hpast hones hresid hr hw).elim
  | tail m hresid hone => exact hP.tail_wraps hdev hoff hnbytes hpast hresid hone hr hw
  | body hresid hmany =>
      have hwhole := Nat.div_mul_le_self (clippedLen dev d') dev.blockSize
      have hlen := clippedLen_le hpast
      have hne : [userBuf 0 (clippedLen dev d' / dev.blockSize * dev.blockSize) false] ≠ [] := by
        simp
      have hout : ∀ b ∈ [userBuf 0 (clippedLen dev d' / dev.blockSize * dev.blockSize) false],
          b.response = false := by
        simp [userBuf]
      have hsum : sumRanges [userBuf 0 (clippedLen dev d' / dev.blockSize * dev.blockSize) false] =
          clippedLen dev d' / dev.blockSize * dev.blockSize := by
        rw [sumRanges_one]
        show subSize (clippedLen dev d' / dev.blockSize * dev.blockSize) 0 = _
        rw [subSize_eq (Nat.zero_le _) (by omega), Nat.sub_zero]
      refine (hP.no_body hdev hoff hpast hones hne hout ?_ (fun _ => ?_) hr hw).elim
      · rw [hsum]
        omega
      · rw [hsum, hresid, Nat.add_zero, Nat.mul_mod_left]

/-! ## The write that is clipped -/

namespace Alone

variable {cb : TaskCb} {vbufs : List Buffer} {answered : Bool}

theorem only (h : Alone w dev disk t d cb vbufs answered) {x : Nat} {f : Flight}
    (hf : w.flights x = some f) : x = t ∧ f.task.vbufs = vbufs ∧ f.cb = cb ∧ f.io = 0 ∧
      f.answered = answered := by
  obtain ⟨task, hvbufs, hflights⟩ := h.flights
  rw [hflights] at hf
  by_cases hx : x = t
  · rw [hx, Function.update_self] at hf
    cases hf
    exact ⟨hx, hvbufs, rfl, rfl, rfl⟩
  · rw [Function.update_of_ne hx] at hf
    cases hf

theorem next_reap (h : Alone w dev disk t d cb vbufs true) {e : Event} {s : Except Fault World}
    (hok : CalmStep e) (hs : step (.ok w) e = some s) {Q : Unit → World → Prop}
    (hcalls : ∀ task : Task, task.vbufs = vbufs →
      Calls True False (runCallback cb ⟨t, task⟩ 0) Q (w.take t)) :
    ∃ w', s = .ok w' ∧ Q () w' := by
  cases e with
  | exec x a =>
      cases hf : w.flights x with
      | none => simp [step, stepWorld, hf] at hs
      | some f =>
          have hans := (h.only hf).2.2.2.2
          simp [step, stepWorld, hf, hans] at hs
  | reap x os =>
      obtain ⟨task, hvbufs, hflights⟩ := h.flights
      by_cases hx : x = t
      · subst hx
        have hf : w.flights x = some ⟨task, cb, 0, true⟩ := by
          rw [hflights, Function.update_self]
        obtain ⟨u, w', os', hrun, hQ⟩ := (hcalls task hvbufs).ends id fun o ho _ => hok o ho
        refine ⟨w', ?_, hQ⟩
        simp only [step, stepWorld, hf, if_pos, hrun, Option.some.injEq] at hs
        rw [← hs]
        rfl
      · have hf : w.flights x = none := by
          rw [hflights, Function.update_of_ne hx]
        simp [step, stepWorld, hf] at hs
  | submit io desc os => exact hok.elim
  | collect => exact hok.elim
  | watermark n => exact hok.elim

theorem next_exec {lba : Nat} {isWrite : Bool} {rest : List Buffer}
    (h : Alone w dev disk t d cb (reqBuf dev lba 1 isWrite :: rest) false)
    (hlba : lba % 2 ^ lbaBits dev < dev.numBlocks) {e : Event} {s : Except Fault World}
    (hok : RangeStep (.ok w) e) (hs : step (.ok w) e = some s) :
    ∃ f junk used, w.flights t = some f ∧ s = .ok (w.exec t f (.done dev.blockSize junk used)) := by
  cases e with
  | exec x a =>
      obtain ⟨f, cmd, hf, hcmd, ha⟩ := hok
      obtain ⟨rfl, hvbufs, -, -, hans⟩ := h.only hf
      rw [commandOf_reqBuf hvbufs] at hcmd
      cases hcmd
      have hs' : s = .ok (w.exec x f a) := by
        simp only [step, stepWorld, hf, hans, Bool.false_eq_true, if_false, Option.some.injEq] at hs
        exact hs.symm
      cases a with
      | failed resp used =>
          rw [Answers, h.dev, inDevice_one] at ha
          exact absurd hlba ha.1
      | done transferred junk used =>
          rw [Answers, h.dev, one_mod_countBits, Nat.one_mul] at ha
          exact ⟨f, junk, used, hf, ha.2 ▸ hs'⟩
  | reap x os =>
      obtain ⟨task, -, hflights⟩ := h.flights
      by_cases hx : x = t
      · have hf : w.flights x = some ⟨task, cb, 0, false⟩ := by
          rw [hx, hflights, Function.update_self]
        simp [step, stepWorld, hf] at hs
      · have hf : w.flights x = none := by
          rw [hflights, Function.update_of_ne hx]
        simp [step, stepWorld, hf] at hs
  | submit io desc os => exact hok.elim
  | collect => exact hok.elim
  | watermark n => exact hok.elim

theorem clipped {lba : Nat} {isWrite : Bool} {rest : List Buffer} {d' : AsyncIoDesc}
    (h : Alone w dev disk t d cb (reqBuf dev lba 1 isWrite :: rest) answered)
    (hlba : lba % 2 ^ lbaBits dev < dev.numBlocks) (disk₀ : Bytes) : Clipped disk₀ d' w := by
  constructor
  · intro x f cmd hf hcmd
    rw [commandOf_reqBuf (h.only hf).2.1] at hcmd
    cases hcmd
    rw [h.dev]
    exact inDevice_one.mpr hlba
  · intro hnone
    obtain ⟨f, hf, -⟩ := h.command
    rw [hnone t] at hf
    cases hf

end Alone

/-- With no command in the vring the device and the poller have nothing to do. -/
theorem no_step (hnone : ∀ x, w.flights x = none) {e : Event} {s : Except Fault World}
    (hok : CalmStep e) (hs : step (.ok w) e = some s) : False := by
  cases e with
  | exec x a => simp [step, stepWorld, hnone] at hs
  | reap x os => simp [step, stepWorld, hnone] at hs
  | submit io desc os => exact hok.elim
  | collect => exact hok.elim
  | watermark n => exact hok.elim

/-- A write of nothing at the end of the device, all of whose commands are for block zero. -/
inductive EmptyWrite (dev : VirtioDev) (disk : Bytes) (d : AsyncIoDesc) : Except Fault World → Prop
  | reading (w : World) (t : Nat) (m : Bytes) (h : Alone w dev disk t { d with retval := -1 }
      .blkReadLastBlockDone [reqBuf dev (d.offset / dev.blockSize) 1 false, respBuf ⟨0, 0⟩,
        blockBuf dev m true 0 0] false) : EmptyWrite dev disk d (.ok w)
  | read (w : World) (t : Nat) (m : Bytes) (hm : ∀ k < dev.blockSize, m k = disk k)
      (h : Alone w dev disk t { d with retval := -1 } .blkReadLastBlockDone
        [reqBuf dev (d.offset / dev.blockSize) 1 false, respBuf ⟨0, 0⟩, blockBuf dev m true 0 0]
        true) : EmptyWrite dev disk d (.ok w)
  | writing (w : World) (t : Nat) (m : Bytes) (hm : ∀ k < dev.blockSize, m k = disk k)
      (h : Alone w dev disk t { d with retval := -1 } .blkWriteLastBlockDone
        [reqBuf dev (addSize d.offset d.nbytes / dev.blockSize) 1 true, blockBuf dev m false 0 0,
          respBuf ⟨0, 0⟩] false) : EmptyWrite dev disk d (.ok w)
  | written (w : World) (t : Nat) (m : Bytes) (h : Alone w dev disk t { d with retval := -1 }
      .blkWriteLastBlockDone [reqBuf dev (addSize d.offset d.nbytes / dev.blockSize) 1 true,
        blockBuf dev m false 0 0, respBuf ⟨0, 0⟩] true) : EmptyWrite dev disk d (.ok w)
  | finished (w : World) (h : Finished w dev disk { d with retval := 0 }) : EmptyWrite dev disk d (.ok w)

/-- Both addresses are cut off to zero. -/
structure ToZero (dev : VirtioDev) (d : AsyncIoDesc) : Prop where
  block : 0 < dev.numBlocks
  offset : d.offset = dev.cap
  first : d.offset / dev.blockSize % 2 ^ lbaBits dev = 0
  last : addSize d.offset d.nbytes / dev.blockSize % 2 ^ lbaBits dev = 0

namespace EmptyWrite

theorem clipped {s : Except Fault World} (h : EmptyWrite dev disk d s) (hz : ToZero dev d) :
    ∃ w, s = .ok w ∧ Clipped disk d w := by
  have hfirst : d.offset / dev.blockSize % 2 ^ lbaBits dev < dev.numBlocks := hz.first ▸ hz.block
  have hlast : addSize d.offset d.nbytes / dev.blockSize % 2 ^ lbaBits dev < dev.numBlocks :=
    hz.last ▸ hz.block
  cases h with
  | reading w t m h => exact ⟨w, rfl, h.clipped hfirst disk⟩
  | read w t m hm h => exact ⟨w, rfl, h.clipped hfirst disk⟩
  | writing w t m hm h => exact ⟨w, rfl, h.clipped hlast disk⟩
  | written w t m h => exact ⟨w, rfl, h.clipped hlast disk⟩
  | finished w h =>
      refine ⟨w, rfl, fun x f cmd hf => ?_, fun _ => ⟨h.pushes, ?_, ?_⟩⟩
      · rw [h.flights x] at hf
        cases hf
      · rw [h.own, h.dev, hz.offset, Nat.sub_self]
        rfl
      · rw [h.disk, h.dev, hz.offset, Nat.sub_self, Bytes.patch_zero]

/-- One step of the chain, whatever the device and the poller do. -/
theorem step {s s' : Except Fault World} {e : Event} (h : EmptyWrite dev disk d s) (hz : ToZero dev d)
    (hok : RangeStep s e) (hs : Dev.step s e = some s') : EmptyWrite dev disk d s' := by
  have hfirst : d.offset / dev.blockSize % 2 ^ lbaBits dev < dev.numBlocks := hz.first ▸ hz.block
  have hlast : addSize d.offset d.nbytes / dev.blockSize % 2 ^ lbaBits dev < dev.numBlocks :=
    hz.last ▸ hz.block
  cases h with
  | reading w t m h =>
      obtain ⟨f, junk, used, hf, rfl⟩ := h.next_exec hfirst hok hs
      obtain ⟨m', hm', h'⟩ := h.execRead hf junk used
      simp only [hz.first, Nat.zero_mul, Nat.zero_add] at hm'
      exact .read _ t m' hm' h'
  | read w t m hm h =>
      have hown : ((w.take t).ios 0).desc = { d with retval := -1 } := congrArg Io.desc h.own
      have htake : (w.take t).dev = dev := h.dev
      obtain ⟨w', rfl, ⟨hdrop, -⟩ | ⟨-, m', hm', hpass⟩⟩ := h.next_reap hok.calm hs fun task hvbufs =>
        blkReadLastBlockDone_calls h.ready (by rw [htake]; exact hvbufs)
      · cases hdrop trivial
      have h' := h.passed hpass
      rw [hown, htake] at h'
      refine .writing w' _ m' (fun k hk => ?_) h'
      rw [hm' k (htake ▸ hk), show subSize 0 0 = 0 from rfl, Bytes.patch_zero, hm k hk]
  | writing w t m hm h =>
      obtain ⟨f, junk, used, hf, rfl⟩ := h.next_exec hlast hok hs
      have h' := h.execWrite hf dev.blockSize junk used
      rw [hz.last, one_mod_countBits, Nat.zero_mul, Nat.one_mul, patch_carried,
        (Bytes.patch_eq_self_iff disk m 0 dev.blockSize).mpr fun k hk => by
          rw [hm k hk, Nat.zero_add]] at h'
      exact .written _ t m h'
  | written w t m h =>
      have hown : ((w.take t).ios 0).desc = { d with retval := -1 } := congrArg Io.desc h.own
      have htake : (w.take t).dev = dev := h.dev
      obtain ⟨w', rfl, ⟨hbad, -⟩ | ⟨-, hclosed⟩⟩ := h.next_reap hok.calm hs fun task hvbufs =>
        blkWriteLastBlockDone_calls h.ready (by rw [htake]; exact hvbufs)
      · cases hbad
      have h' := h.closed hclosed
      rw [hown, if_pos (show (-1 : Int) < 0 by decide), show subSize 0 0 = 0 from rfl,
        toSsize_eq (by decide)] at h'
      exact .finished w' h'
  | finished w h => exact (no_step h.flights hok.calm hs).elim

end EmptyWrite

/-- A write past the end of the device goes wrong, except for this one. -/
theorem write_past_end_iff (dev : VirtioDev) (hdev : dev.Exact) (d : AsyncIoDesc)
    (htype : d.type = .write) (hoff : d.offset ≤ dev.cap) (hn : 0 < d.nbytes)
    (hnbytes : d.nbytes < 2 ^ 64) (hpast : dev.cap < d.offset + d.nbytes) :
    WriteClipped dev d ↔ dev.numBlocks = 2 ^ 32 ∧ d.offset = dev.cap ∧
      d.offset + d.nbytes < 2 ^ 64 ∧ d.nbytes / dev.blockSize % 2 ^ 32 = 0 := by
  refine ⟨WriteClipped.wraps hdev htype hoff hn hnbytes hpast, ?_⟩
  rintro ⟨hblocks, hoffset, hsum, hwhole⟩ d' disk hd' s ⟨os, s₁, es, hos, hsubmit, hrun⟩
  rw [← hd'.type] at htype
  rw [← hd'.offset] at hoff hpast hoffset hsum
  rw [← hd'.nbytes] at hn hpast hsum hwhole
  have hsize := hdev.size
  have hbits : lbaBits dev = 32 := by
    rw [lbaBits, hblocks]
    rfl
  have hlen : clippedLen dev d' = 0 := by
    rw [clippedLen, clipToCap, addSize_eq hsum, if_pos hpast, hoffset, Nat.sub_self]
  have hlast : addSize d'.offset d'.nbytes / dev.blockSize = 2 ^ 32 + d'.nbytes / dev.blockSize := by
    rw [addSize_eq hsum, hoffset, hsize, hblocks, Nat.mul_add_div hdev.pos]
  have hfirst : d'.offset / dev.blockSize = 2 ^ 32 := by
    rw [hoffset, hsize, hblocks, Nat.mul_div_cancel_left _ hdev.pos]
  have hz : ToZero dev d' := by
    refine ⟨?_, hoffset, ?_, ?_⟩
    · rw [hblocks]
      decide
    · rw [hfirst, hbits, Nat.mod_self]
    · rw [hlast, hbits, Nat.add_mod_left, hwhole]
  obtain ⟨w, cb, vbufs, hsubmit', hopen, hw⟩ := submitted disk htype hdev.pos hoff hn hos
  rw [hsubmit] at hsubmit'
  cases hsubmit'
  have hempty : EmptyWrite dev disk d' (.ok w) := by
    cases hopen with
    | head m hresid =>
        refine absurd ?_ hresid
        rw [firstResid, hoffset, hsize, Nat.mul_mod_right]
    | body hresid hmany =>
        rw [hlen, Nat.zero_div] at hmany
        exact absurd hmany (Nat.lt_irrefl 0)
    | tail m hresid hone =>
        rw [hlen, Nat.zero_mod] at hw
        exact .reading w 0 m hw
  exact (hrun.invariant (I := EmptyWrite dev disk d') (fun _ _ _ h hok hs => h.step hz hok hs) hempty).clipped hz

/-- Two TiB of blocks of 512 bytes, and a write of less than a block behind them. -/
theorem write_past_end_iff_wrapped :
    WriteClipped ⟨512, 2 ^ 32, 2 ^ 41⟩ (writeDesc (2 ^ 41) 511 fun _ => 0) :=
  (write_past_end_iff ⟨512, 2 ^ 32, 2 ^ 41⟩ ⟨⟨by decide, by decide, by decide⟩, by decide⟩
    (writeDesc (2 ^ 41) 511 fun _ => 0) rfl (by decide) (by decide) (by decide) (by decide)).mpr
    ⟨rfl, rfl, by decide, by decide⟩

def faultOf : Except Fault World → Option Fault
  | .error e => some e
  | .ok _ => none

theorem eq_error_of_faultOf {s : Except Fault World} {e : Fault} (h : faultOf s = some e) :
    s = .error e := by
  cases s with
  | ok w => cases h
  | error e' =>
      cases h
      rfl

/-- Sixteen bytes from the middle of the device on: the two blocks up to its end are written,
and then the callback finds no byte left for the last block. -/
theorem write_past_end_asserts :
    Reached smallDev countingDisk (writeDesc 8 16 fun _ => 255) (.error .assertion) ∧
      ¬ WriteClipped smallDev (writeDesc 8 16 fun _ => 255) := by
  have hcheck : ((stepWorld (init smallDev countingDisk)
      (.submit 0 (writeDesc 8 16 fun _ => 255) [])).any fun s =>
      ((machine smallDev countingDisk).execIf (fun s e => decide (RangeStep s e)) s
        [.exec 0 (.done 8 (fun _ => 0) 0), .reap 0 []]).any fun s =>
          decide (faultOf s = some .assertion)) = true := by
    decide +kernel
  simp only [Option.any_eq_true, decide_eq_true_eq] at hcheck
  obtain ⟨s₁, hsubmit, s, hexec, hs⟩ := hcheck
  have hrun : (machine smallDev countingDisk).Path RangeStep s₁ _ s :=
    Machine.Path.of_execIf (fun _ _ h => of_decide_eq_true h) hexec
  rw [eq_error_of_faultOf hs] at hrun
  have hnone : ∀ o ∈ ([] : List (Option Bytes)), o.isSome = true := fun o ho => nomatch ho
  have hreached : Reached smallDev countingDisk (writeDesc 8 16 fun _ => 255) (.error .assertion) :=
    ⟨[], s₁, _, hnone, hsubmit, hrun⟩
  refine ⟨hreached, fun h => ?_⟩
  obtain ⟨w, hw, -⟩ := h _ countingDisk ⟨rfl, rfl, rfl⟩ _ hreached
  cases hw

end VhostUser.Dev
