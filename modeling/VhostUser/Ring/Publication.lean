import VhostUser.Ring.GetCall
import VhostUser.Ring.History
import VhostUser.Ring.Reap

/-! # Reservation and publication in the avail ring

`vring_flush` reserves a position with one compare-and-swap, stores the head with
a plain store and publishes the position with a second compare-and-swap, and a
producer can stall at any of these points. What follows from the invariant for
the device that reads the ring: it sees each head once, after it was stored, and
the window between its position and the reservations never closes over itself,
because every unread position pins at least one of the descriptors.
-/

namespace VhostUser.Ring

open VhostUser.Lib

variable {s s' : Sys} {c : Nat}

/-- What producers and device may rely on. Positions `q` are unbounded; the
sixteen-bit indices of the ring are these positions reduced. -/
structure PublicationSafe (s : Sys) : Prop where
  /-- No slot is held by two calls, and a held slot is marked with its task. -/
  disjoint : ∀ c d x, x ∈ s.held c → x ∈ s.held d → c = d
  marked : ∀ c x, x ∈ s.held c → s.mem.vring.tasks x = some (s.calls c).task
  lastAvailIdx : s.mem.vring.lastAvailIdx = s.log.length % 2 ^ 16
  availIdx : s.mem.vring.avail.idx = s.publ % 2 ^ 16
  /-- A put that succeeded has one position below `avail->idx`, a put that failed none. -/
  once : ∀ c, (s.calls c).pc = .done 0 → (s.log.take s.publ).count c = 1
  failed : ∀ c, (s.calls c).pc = .done (-1) → c ∉ s.log
  /-- Below `avail->idx` the call that reserved a position has stored its head there. -/
  stored : ∀ q c, s.log[q]? = some c → s.fetched ≤ q → q < s.publ →
    Published (s.calls c).pc ∧ (s.calls c).slots[0]? = some (s.mem.vring.avail.ring (q &&& mask))
  /-- What the device reads next is the head of the put that reserved this position. -/
  read : ∀ s', step s .fetch = some s' → s.fetched < s.publ ∧ s'.fetched = s.fetched + 1 ∧
    ∃ c head, s.log[s.fetched]? = some c ∧ (s.calls c).slots[0]? = some head ∧
      s'.pending = s.pending ++ [(c, head)]
  /-- A call about to store its head does so at its own position, and no other
  position that is reserved or unread lies on the same entry. -/
  window : ∀ c d idx, (s.calls c).pc = .storeAvailRing d idx →
    ∃ q, s.log[q]? = some c ∧ s.publ ≤ q ∧ idx = q % 2 ^ 16 ∧
      ∀ q', s.fetched ≤ q' → q' < s.log.length → q' ≠ q → idx &&& mask ≠ q' &&& mask

theorem Inv.published_lt (h : Inv s) {q : Nat} (hq : s.log[q]? = some c)
    (hp : Published (s.calls c).pc) : q < s.publ := by
  rcases Nat.lt_or_ge q s.publ with hlt | hge
  · exact hlt
  · rcases h.log.pc_ge q c hq hge with ⟨d, hd⟩ | hd <;> simp [hd, Published] at hp

theorem Inv.count_published (h : Inv s) (hse : Settled s) (hp : Published (s.calls c).pc) :
    (s.log.take s.publ).count c = 1 := by
  obtain ⟨q, hq⟩ := List.getElem?_of_mem (hse.logged c hp)
  have hlt := h.published_lt hq hp
  apply List.count_eq_one_of_mem (h.log.nodup.sublist (List.take_sublist _ _))
  apply List.mem_of_getElem? (i := q)
  rw [List.getElem?_take_of_lt hlt]
  exact hq

theorem Inv.failed_not_logged (h : Inv s) (hpc : (s.calls c).pc = .done (-1)) : c ∉ s.log := by
  intro hmem
  obtain ⟨q, hq⟩ := List.getElem?_of_mem hmem
  rcases Nat.lt_or_ge q s.publ with hlt | hge
  · have hp := h.log.pc_lt q c hq hlt
    simp [hpc, Published] at hp
  · rcases h.log.pc_ge q c hq hge with ⟨d, hd⟩ | hd <;> simp [hpc] at hd

theorem Inv.store_window (h : Inv s) {d idx : Nat} (hpc : (s.calls c).pc = .storeAvailRing d idx) :
    ∃ q, s.log[q]? = some c ∧ s.publ ≤ q ∧ idx = q % 2 ^ 16 ∧
      ∀ q', s.fetched ≤ q' → q' < s.log.length → q' ≠ q → idx &&& mask ≠ q' &&& mask := by
  obtain ⟨q, hq⟩ := List.getElem?_of_mem (h.log.mem c (h.avail_of_pc (Or.inl ⟨d, hpc⟩)))
  have hge : s.publ ≤ q := by
    rcases Nat.lt_or_ge q s.publ with hlt | hge
    · have hp := h.log.pc_lt q c hq hlt
      simp [hpc, Published] at hp
    · exact hge
  have hidx : idx = q % 2 ^ 16 := by
    rcases h.log.pc_ge q c hq hge with ⟨d', hd⟩ | hd <;> simp [hpc] at hd
    exact hd.2
  refine ⟨q, hq, hge, hidx, fun q' hge' hlt' hne heq => hne ?_⟩
  have hfetched := h.counters.fetched_le
  have hlen := (List.getElem?_eq_some_iff.mp hq).1
  rw [and_mask, and_mask, hidx, mod_two_pow_mask] at heq
  exact (h.position_inj (by omega) hge' hlen hlt' heq).symm

/-- For every interleaving of the accesses of any number of producers with calls
of `vring_get_task` as single steps and a device that reads in order. -/
theorem publication_safe {es : List Event} (hrun : machine.Path (GetAtomic 1) init es s) :
    PublicationSafe s := by
  have hrun' := hrun.mono fun _ _ => GetAtomic.noLinkRace Nat.one_pos
  have h := path_inv hrun'
  have hse := path_settled hrun'
  refine ⟨fun _ _ _ => h.owned.held_disjoint, fun _ _ => h.owned.task_of_held,
    h.counters.lastAvailIdx, h.counters.availIdx, ?_, fun _ => h.failed_not_logged, ?_, ?_,
    fun _ _ _ => h.store_window⟩
  · intro c hpc
    exact h.count_published hse (by simp [hpc, Published])
  · intro q c hq hge hlt
    have hp := h.log.pc_lt q c hq hlt
    rw [and_mask]
    exact ⟨hp, h.log.ring q c hq hge fun d i hd => by simp [hd, Published] at hp⟩
  · intro s' hs
    obtain ⟨c, hc, hlt, -, -, hhead, rfl⟩ := h.fetch_cases hs
    exact ⟨hlt, rfl, c, _, hc, hhead, rfl⟩

/-- Call 1 overtakes call 0 in the race for positions and stalls before it stores
its head, so call 0 spins on `avail->idx`. The device then reads both heads and
reports the second, which the poller reaps. -/
def overtakenSchedule : List Event :=
  [.start 0 100 [sector 1, sector 2]] ++ List.replicate 3 (.put 0) ++
    [.start 1 101 [sector 3]] ++ List.replicate 12 (.put 1) ++ List.replicate 22 (.put 0) ++
    List.replicate 6 (.put 1) ++ List.replicate 4 (.put 0) ++ [.fetch, .fetch, .complete 1 12] ++
    List.replicate 13 .poll

theorem publication_safe_overtaken :
    ∃ s, machine.Path (GetAtomic 1) init overtakenSchedule s ∧ s.log = [1, 0] ∧ s.publ = 2 ∧
      s.fetched = 2 ∧ s.poller = .ret (some 100) ∧ PublicationSafe s := by
  have hany : (machine.execIf (getAtomic 1) init overtakenSchedule).any (fun s =>
      s.log == [1, 0] && s.publ == 2 && s.fetched == 2 && s.poller == .ret (some 100)) = true := by
    decide +kernel
  obtain ⟨s, hrun, hs⟩ := Machine.Path.of_check (getAtomic_sound 1) hany
  simp only [Bool.and_eq_true, beq_iff_eq] at hs
  exact ⟨s, hrun, hs.1.1.1, hs.1.1.2, hs.1.2, hs.2, publication_safe hrun⟩

end VhostUser.Ring
