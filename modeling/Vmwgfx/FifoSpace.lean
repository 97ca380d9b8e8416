import Vmwgfx.FifoMachine

set_option autoImplicit false

/-!
# Free space of the FIFO

What each access does to the ring, in terms of the span from `stop` to `nextCmd`.
A reservation keeps that many bytes of the ring free until it is committed, since
the device only shortens the span.
-/
namespace Vmwgfx.FifoSpace
open Word32 LabelledRuns RingSpan FifoMachine

/-- The registers are word aligned and describe a position of the ring. -/
structure Geo (s : Fifo) : Prop where
  minAligned : s.min % 4 = 0
  maxAligned : s.max % 4 = 0
  bounded : s.max ≤ 2 ^ 31
  next : s.min ≤ s.nextCmd ∧ s.nextCmd < s.max
  nextAligned : s.nextCmd % 4 = 0
  stop : s.min ≤ s.stop ∧ s.stop < s.max

def used (s : Fifo) : ℕ := dist s.min s.max s.stop s.nextCmd

/-- What the device has read, followed by what it finds up to `nextCmd`. -/
def queue (s : Fifo) : List UInt8 :=
  s.consumed ++ contents s.min s.max s.mem s.stop s.nextCmd

/-- A store hits no unconsumed byte; `nextCmd` stays in the ring and reaches `stop`
    only where nothing was unconsumed. -/
def SafeEvent (min max : ℕ) : Event → Prop
  | .store addr stop nextCmd => ¬ Within min max stop nextCmd addr
  | .nextCmd old new stop => (min ≤ new ∧ new < max) ∧ (new = stop → old = stop)

def Safe (s : Fifo) : Prop := ∀ e ∈ s.events, SafeEvent s.min s.max e

/-- From `s` to `t` the ring has moved on by `k` bytes, which appended `data` to the
    device's queue; the device may have taken bytes meanwhile. -/
structure RingStep (s t : Fifo) (k : ℕ) (data : List UInt8) : Prop where
  min_eq : t.min = s.min
  max_eq : t.max = s.max
  geo : Geo t
  next_eq : t.nextCmd = move s.min s.max s.nextCmd k
  used_le : used t ≤ used s + k
  queue_eq : queue t = queue s ++ data
  safe : Safe s → Safe t

/-- Accesses to the FIFO leave the driver's own state alone. -/
def Frame (s t : Fifo) : Prop := ∃ nextCmd stop mem sched consumed events,
  t = { s with
    nextCmd := nextCmd, stop := stop, mem := mem
    sched := sched, consumed := consumed, events := events }

theorem Frame.refl (s : Fifo) : Frame s s :=
  ⟨s.nextCmd, s.stop, s.mem, s.sched, s.consumed, s.events, rfl⟩

theorem Frame.trans {s t u : Fifo} (h : Frame s t) (h' : Frame t u) : Frame s u := by
  obtain ⟨_, _, _, _, _, _, rfl⟩ := h
  obtain ⟨_, _, _, _, _, _, rfl⟩ := h'
  exact ⟨_, _, _, _, _, _, rfl⟩

theorem RingStep.refl {s : Fifo} (h : Geo s) : RingStep s s 0 [] := by
  refine ⟨rfl, rfl, h, (move_zero h.next.2).symm, le_refl _, (List.append_nil _).symm, fun hs => hs⟩

theorem RingStep.trans {s t u : Fifo} {j k : ℕ} {d e : List UInt8} (hs : Geo s)
    (h : RingStep s t j d) (h' : RingStep t u k e) (hk : j + k < s.max - s.min) :
    RingStep s u (j + k) (d ++ e) := by
  refine ⟨h'.min_eq.trans h.min_eq, h'.max_eq.trans h.max_eq, h'.geo, ?_, ?_, ?_,
    fun hs => h'.safe (h.safe hs)⟩
  · rw [h'.next_eq, h.next_eq, h.min_eq, h.max_eq]
    exact move_move hs.next hk
  · have h₁ := h.used_le
    have h₂ := h'.used_le
    omega
  · rw [h'.queue_eq, h.queue_eq, List.append_assoc]

theorem RingStep.after {s t u : Fifo} {k : ℕ} {d : List UInt8} (h : RingStep s t 0 [])
    (hs : Geo s) (h' : RingStep t u k d) (hk : k < s.max - s.min) : RingStep s u k d := by
  have := h.trans hs h' (by omega)
  simpa using this

theorem deviceByte_frame (s : Fifo) : Frame s (deviceByte s) := by
  unfold deviceByte
  by_cases hd : s.stop = s.nextCmd
  · rw [if_pos hd]
    exact Frame.refl s
  · rw [if_neg hd]
    exact ⟨_, _, _, _, _, _, rfl⟩

theorem deviceByte_ring {s : Fifo} (h : Geo s) : RingStep s (deviceByte s) 0 [] := by
  unfold deviceByte
  by_cases hd : s.stop = s.nextCmd
  · rw [if_pos hd]
    exact RingStep.refl h
  · rw [if_neg hd]
    have hroom : s.min < s.max := by
      have := h.next
      omega
    have hmove : (if s.stop + 1 = s.max then s.min else s.stop + 1) =
        move s.min s.max s.stop 1 := by
      have := h.stop
      unfold move
      split_ifs <;> omega
    refine ⟨rfl, rfl, ⟨h.minAligned, h.maxAligned, h.bounded, h.next, h.nextAligned, ?_⟩,
      (move_zero h.next.2).symm, ?_, ?_, fun hs => hs⟩
    · rw [hmove]
      exact move_mem h.stop (Nat.sub_pos_of_lt hroom)
    · have := dist_move_start h.stop h.next hd
      simp only [used, hmove]
      omega
    · simp only [queue, hmove, List.append_nil]
      rw [contents_cons h.stop h.next hd, List.append_assoc, List.singleton_append]

theorem deviceRun_spec (k : ℕ) {s : Fifo} (h : Geo s) :
    RingStep s (deviceRun k s) 0 [] ∧ Frame s (deviceRun k s) ∧ (deviceRun k s).mem = s.mem := by
  induction k generalizing s with
  | zero => exact ⟨RingStep.refl h, Frame.refl s, rfl⟩
  | succ k ih =>
    have hb := deviceByte_ring h
    obtain ⟨hr, hf, hm⟩ := ih hb.geo
    refine ⟨hb.after h hr (by have := h.next; omega), (deviceByte_frame s).trans hf, hm.trans ?_⟩
    unfold deviceByte
    split_ifs <;> rfl

theorem deviceRun_before (k : ℕ) {s : Fifo} (h : Geo s) (hb : s.stop ≤ s.nextCmd) :
    (deviceRun k s).stop ≤ (deviceRun k s).nextCmd := by
  induction k generalizing s with
  | zero => exact hb
  | succ k ih =>
    refine ih (deviceByte_ring h).geo ?_
    have hn := h.next
    unfold deviceByte
    by_cases hd : s.stop = s.nextCmd
    · rw [if_pos hd]
      exact hb
    · rw [if_neg hd]
      change (if s.stop + 1 = s.max then s.min else s.stop + 1) ≤ s.nextCmd
      split_ifs <;> omega

theorem tick_spec {s : Fifo} (h : Geo s) :
    RingStep s (tick s) 0 [] ∧ Frame s (tick s) ∧ (tick s).mem = s.mem := by
  obtain ⟨hr, hf, hm⟩ := deviceRun_spec (s.sched.headD 0) (s := { s with sched := s.sched.tail })
    ⟨h.minAligned, h.maxAligned, h.bounded, h.next, h.nextAligned, h.stop⟩
  exact ⟨⟨hr.min_eq, hr.max_eq, hr.geo, hr.next_eq, hr.used_le, hr.queue_eq, hr.safe⟩,
    Frame.trans ⟨_, _, _, _, _, _, rfl⟩ hf, hm⟩

theorem tick_next {s : Fifo} (h : Geo s) : (tick s).nextCmd = s.nextCmd := by
  rw [(tick_spec h).1.next_eq, move_zero h.next.2]

theorem storeByte_spec {s : Fifo} (h : Geo s) {addr i : ℕ} (v : UInt8)
    (ha : addr = move s.min s.max s.nextCmd i) (hi : used s + i < s.max - s.min) :
    RingStep s (storeByte s addr v) 0 [] ∧ Frame s (storeByte s addr v) ∧
      (storeByte s addr v).mem = Function.update s.mem addr v := by
  obtain ⟨hr, hf, hm⟩ := tick_spec h
  have hused := hr.used_le
  have hfree : ¬ Within (tick s).min (tick s).max (tick s).stop (tick s).nextCmd addr := by
    rw [ha, ← hr.min_eq, ← hr.max_eq, ← tick_next h]
    refine not_within_move hr.geo.stop hr.geo.next ?_
    change used (tick s) + i < _
    rw [hr.min_eq, hr.max_eq]
    omega
  have hstore : RingStep (tick s) (storeByte s addr v) 0 [] := by
    refine ⟨rfl, rfl, ?_, (move_zero hr.geo.next.2).symm, le_refl _, ?_, ?_⟩
    · exact ⟨hr.geo.minAligned, hr.geo.maxAligned, hr.geo.bounded, hr.geo.next,
        hr.geo.nextAligned, hr.geo.stop⟩
    · rw [List.append_nil]
      refine congrArg ((tick s).consumed ++ ·) (contents_congr hr.geo.stop hr.geo.next ?_)
      intro a hw
      refine Function.update_of_ne ?_ _ _
      rintro rfl
      exact hfree hw
    · intro hs e he
      rcases List.mem_append.1 he with he | he
      · exact hs e he
      · rw [List.mem_singleton.1 he]
        exact hfree
  refine ⟨hr.after h hstore (by have := h.next; omega), hf.trans ⟨_, _, _, _, _, _, rfl⟩, ?_⟩
  rw [← hm]
  rfl

theorem writeNextCmd_spec {s : Fifo} (h : Geo s) {k v : ℕ}
    (hv : v = move s.min s.max s.nextCmd k) (hk : used s + k < s.max - s.min) (h4 : k % 4 = 0) :
    RingStep s (writeNextCmd s v) k
        ((List.range k).map fun i => s.mem (move s.min s.max s.nextCmd i)) ∧
      Frame s (writeNextCmd s v) := by
  obtain ⟨hr, hf, hm⟩ := tick_spec h
  have hused := hr.used_le
  have hv' : v = move (tick s).min (tick s).max (tick s).nextCmd k := by
    rw [hv, hr.min_eq, hr.max_eq, tick_next h]
  have hk' : used (tick s) + k < (tick s).max - (tick s).min := by
    rw [hr.min_eq, hr.max_eq]
    omega
  have hmem := move_mem (k := k) hr.geo.next (by omega)
  have hdist := dist_move hr.geo.stop hr.geo.next hk'
  have hwrite : RingStep (tick s) (writeNextCmd s v) k
      ((List.range k).map fun i => s.mem (move s.min s.max s.nextCmd i)) := by
    refine ⟨rfl, rfl, ?_, hv', ?_, ?_, ?_⟩
    · refine ⟨hr.geo.minAligned, hr.geo.maxAligned, hr.geo.bounded, ?_, ?_, hr.geo.stop⟩
      · change (tick s).min ≤ v ∧ v < (tick s).max
        rw [hv']
        exact hmem
      · change v % 4 = 0
        have h₁ := hr.geo.minAligned
        have h₂ := hr.geo.maxAligned
        have h₃ := hr.geo.nextAligned
        have h₄ := hr.geo.next
        rw [hv']
        unfold move
        split_ifs <;> omega
    · change dist (tick s).min (tick s).max (tick s).stop v ≤ used (tick s) + k
      rw [hv', hdist]
      exact le_refl _
    · change (tick s).consumed ++
        contents (tick s).min (tick s).max (tick s).mem (tick s).stop v = _
      rw [hv', contents_append hr.geo.stop hr.geo.next hk', ← List.append_assoc,
        hr.min_eq, hr.max_eq, tick_next h, hm]
      simp only [queue, hr.min_eq, hr.max_eq, tick_next h, hm]
    · intro hs e he
      rcases List.mem_append.1 he with he | he
      · exact hs e he
      · rw [List.mem_singleton.1 he]
        refine ⟨hv' ▸ hmem, ?_⟩
        -- reaching `stop` needs an empty span and no move
        intro hstop
        have hzero := (dist_eq_zero_iff (q := v) (tick s).min hr.geo.stop.2).2 hstop.symm
        rw [hv', hdist] at hzero
        exact ((dist_eq_zero_iff (tick s).min hr.geo.stop.2).1 (by omega)).symm
  exact ⟨hr.after h hwrite (by omega), hf.trans ⟨_, _, _, _, _, _, rfl⟩⟩

end Vmwgfx.FifoSpace
