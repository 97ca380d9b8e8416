import Vmwgfx.FifoCalls

set_option autoImplicit false

/-!
# Safety of the FIFO

Over any run of reserve and commit calls, with the device moving at any access,
no unconsumed byte is overwritten, `nextCmd` stays in the ring, and a full FIFO is
never taken for an empty one.
-/
namespace Vmwgfx.FifoSafety
open Word32 LabelledRuns RingSpan FifoMachine FifoSpace FifoCalls

structure Inv (s : Fifo) : Prop where
  geo : Geo s
  dx : s.dx = false
  place : Place s.pointer s
  lock : s.locked = s.pointer.isSome
  safe : Safe s

/-- A commit from the bounce buffer, or on a device that can reserve, or of nothing. -/
def Publishes (s : Fifo) : Act → Prop
  | .commit bytes _ => s.usingBounceBuffer = true ∨ s.reserveable = true ∨ bytes = 0
  | _ => True

theorem init_inv (w : Window) (reserveable : Bool) (mem static : ℕ → UInt8) :
    Inv (vmwFifoInit w reserveable mem static) := by
  have hroom : w.min < w.mmioSize := w.room
  have hmin : w.min % 4 = 0 := by
    unfold Window.min fifoMin
    dsimp only
    split_ifs <;> omega
  refine ⟨⟨hmin, w.aligned, w.bounded, ⟨le_refl _, hroom⟩, hmin, ⟨le_refl _, hroom⟩⟩, rfl,
    ⟨rfl, rfl⟩, rfl, ?_⟩
  intro e he
  cases he

theorem place_after {p : Option Buffer} {s t : Fifo} (h : Place p s) (hs : Geo s)
    (hr : RingStep s t 0 []) (hf : Frame s t) : Place p t := by
  obtain ⟨hsize, hdyn, hbounce, _⟩ := Frame.driver hf
  have hused := hr.used_le
  have hmin := hr.min_eq
  have hmax := hr.max_eq
  have hnext : t.nextCmd = s.nextCmd := by rw [hr.next_eq, move_zero hs.next.2]
  rcases p with _ | addr | _ | _
  · exact ⟨hsize.trans h.1, hdyn.trans h.2⟩
  · obtain ⟨h₁, h₂, h₃, h₄, h₅⟩ := h
    exact ⟨by omega, h₂.trans hnext.symm, by omega, hbounce.trans h₄, hdyn.trans h₅⟩
  · obtain ⟨h₁, h₂, h₃⟩ := h
    exact ⟨by omega, hbounce.trans h₂, hdyn.trans h₃⟩
  · obtain ⟨h₁, h₂, h₃⟩ := h
    exact ⟨by omega, hbounce.trans h₂, by rw [hdyn]; exact h₃⟩

/-- What one step does to the ring, and that a step which publishes records exactly
    the data it appends. -/
structure Advances (s : Fifo) (a : Act) (t : Fifo) : Prop where
  ring : ∃ k data, RingStep s t k data ∧ (Publishes s a → t.committed = s.committed ++ data)
  place : Place t.pointer t
  lock : t.locked = t.pointer.isSome
  dx : t.dx = false

theorem Advances.of_frame {s t : Fifo} {a : Act} (h : Inv s) (hr : RingStep s t 0 [])
    (hf : Frame s t) : Advances s a t := by
  obtain ⟨_, _, _, _, hdx, hcom, hptr, hlock⟩ := Frame.driver hf
  refine ⟨⟨0, [], hr, fun _ => by rw [hcom, List.append_nil]⟩, ?_, ?_, hdx.trans h.dx⟩
  · rw [hptr]
    exact place_after h.place h.geo hr hf
  · rw [hlock, hptr]
    exact h.lock

theorem callerStore_advances {s t : Fifo} (h : Inv s) {i : ℕ} {v : UInt8} {a : Act}
    (hs : callerStore s i v = some t) : Advances s a t := by
  unfold callerStore at hs
  split_ifs at hs with hi
  have hplace := h.place
  split at hs
  · rename_i addr hp
    rw [hp] at hplace
    obtain ⟨hspace, rfl, hmax, _⟩ := hplace
    have hmove : s.nextCmd + i = move s.min s.max s.nextCmd i := (if_pos (by omega)).symm
    obtain ⟨hr, hf, _⟩ := storeByte_spec h.geo v hmove (by omega)
    obtain rfl := Option.some.inj hs
    exact Advances.of_frame h hr hf
  · obtain rfl := Option.some.inj hs
    refine ⟨⟨0, [], RingStep.of_ring (RingStep.refl h.geo) rfl rfl, ?_⟩, ?_, h.lock, h.dx⟩
    · intro _
      exact (List.append_nil _).symm
    · exact h.place.congr rfl rfl
  · rename_i hp
    obtain rfl := Option.some.inj hs
    rw [hp] at hplace
    refine ⟨⟨0, [], RingStep.of_ring (RingStep.refl h.geo) rfl rfl, ?_⟩, ?_, h.lock, h.dx⟩
    · intro _
      exact (List.append_nil _).symm
    · obtain ⟨hspace, hbounce, hdyn⟩ := hplace
      dsimp only
      rw [hp]
      exact ⟨hspace, hbounce, by simpa using hdyn⟩
  · cases hs

theorem step_advances {s t : Fifo} {a : Act} (h : Inv s) (hs : step s a = some t) :
    Advances s a t := by
  have hsched : ∀ sched, Inv { s with sched := sched } := fun sched =>
    ⟨Geo.of_ring h.geo rfl, h.dx, h.place.congr rfl rfl, h.lock, h.safe⟩
  have hback : ∀ {sched t a}, Advances { s with sched := sched } a t → Advances s a t := by
    intro sched t a ha
    obtain ⟨⟨k, data, hr, hc⟩, hp, hl, hd⟩ := ha
    refine ⟨⟨k, data, RingStep.of_ring hr rfl rfl, ?_⟩, hp, hl, hd⟩
    intro hpub
    exact hc (by cases a <;> exact hpub)
  cases a with
  | reserve bytes ctxId waits vmalloc sched =>
    simp only [step] at hs
    split_ifs at hs with hlock
    obtain ⟨r, hr, rfl⟩ := Option.map_eq_some_iff.1 hs
    have hfree : s.locked = false := by simpa using hlock
    have hnone : s.pointer = none := by simpa [hfree] using h.lock
    have hg := vmwFifoReserveDx_granted (hsched sched).geo (hnone ▸ (hsched sched).place) hfree hr
    refine ⟨⟨0, [], RingStep.of_ring hg.ring rfl rfl, ?_⟩, ?_, hg.lock_eq, hg.dx_eq.trans h.dx⟩
    · intro _
      exact hg.committed_eq.trans (List.append_nil _).symm
    · exact hg.place.congr rfl rfl
  | store i v sched => exact hback (callerStore_advances (hsched sched) hs)
  | commit bytes sched =>
    simp only [step] at hs
    split_ifs at hs with hnone
    obtain ⟨p, hp⟩ := Option.ne_none_iff_exists'.1 hnone
    obtain ⟨u, hu, rfl⟩ := Option.map_eq_some_iff.1 hs
    obtain ⟨_, hc⟩ := vmwLocalFifoCommit_spec (hsched sched).geo hp (hp ▸ (hsched sched).place)
      h.dx hu
    refine ⟨?_, ?_, ?_, hc.dx_eq⟩
    · by_cases hpub : s.usingBounceBuffer = true ∨ s.reserveable = true
      · exact ⟨bytes, _, RingStep.of_ring (hc.published hpub) rfl rfl, fun _ => rfl⟩
      · refine ⟨0, [], RingStep.of_ring (hc.dropped hpub) rfl rfl, ?_⟩
        rintro (hb | hr | rfl)
        · exact absurd (.inl hb) hpub
        · exact absurd (.inr hr) hpub
        · rfl
    · dsimp only
      rw [hc.pointer_eq]
      exact hc.place.congr rfl rfl
    · change u.locked = u.pointer.isSome
      rw [hc.pointer_eq, hc.unlocked]
      rfl
  | device k =>
    obtain rfl := Option.some.inj hs
    obtain ⟨hr, hf, _⟩ := deviceRun_spec k h.geo
    exact Advances.of_frame h hr hf

theorem step_inv {s t : Fifo} {a : Act} (h : Inv s) (hs : step s a = some t) : Inv t := by
  obtain ⟨⟨_, _, hr, _⟩, hp, hl, hd⟩ := step_advances h hs
  exact ⟨hr.geo, hd, hp, hl, hr.safe h.safe⟩

/-- Every access of a run spares the unconsumed bytes and keeps `nextCmd` in the
    ring, clear of `stop` unless nothing was unconsumed. -/
theorem runs_safe {w : Window} {reserveable : Bool} {mem static : ℕ → UInt8} {as : List Act}
    {s : Fifo} (h : Runs step anyLabel (vmwFifoInit w reserveable mem static) as s) :
    (∀ e ∈ s.events, SafeEvent s.min s.max e) ∧ s.min ≤ s.nextCmd ∧ s.nextCmd < s.max := by
  have hi : Inv s := h.invariant Inv (init_inv w reserveable mem static)
    fun _ _ _ hi _ hs => step_inv hi hs
  exact ⟨hi.safe, hi.geo.next⟩

theorem twoPages_aligned : 8192 % 4 = 0 := rfl

theorem twoPages_room : fifoMin false 0 < 8192 := by decide

theorem twoPages_bounded : 8192 ≤ 2 ^ 31 := by norm_num

/-- Two pages of FIFO memory, the first of which holds the registers. -/
def twoPages : Window := ⟨false, 0, 8192, twoPages_aligned, twoPages_room, twoPages_bounded⟩

theorem two_words_safe : ∃ s,
    Runs step anyLabel (vmwFifoInit twoPages true (fun _ => 0) (fun _ => 0))
        [.reserve 8 (2 ^ 32 - 1) [0] none [], .store 0 7 [], .commit 8 [], .device 3] s ∧
      ((∀ e ∈ s.events, SafeEvent s.min s.max e) ∧ s.min ≤ s.nextCmd ∧ s.nextCmd < s.max) ∧
      s.nextCmd = 4104 ∧ s.stop = 4099 := by
  have h : Runs step anyLabel (vmwFifoInit twoPages true (fun _ => 0) (fun _ => 0))
      [.reserve 8 (2 ^ 32 - 1) [0] none [], .store 0 7 [], .commit 8 [], .device 3] _ :=
    runs_of_exec rfl
  exact ⟨_, h, runs_safe h, rfl, rfl⟩

end Vmwgfx.FifoSafety
