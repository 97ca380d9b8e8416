import Vmwgfx.InterruptWaits
import Vmwgfx.PartyCounts

set_option autoImplicit false

/-!
# The interrupt masks

A flag is in the mask exactly while somebody waits for it.
-/
namespace Vmwgfx.InterruptWaits
open LabelledRuns PartyCounts

variable {s t : Sys} {p q : ℕ} {env : Env} {w : Want} {f : Flag} {x : Phase} {r : Ret}

def holds (f : Flag) : Phase → Bool
  | .addAck w | .addMask w | .addWrite w | .test w | .prepare w _ | .check w _ | .sleep w
  | .remove w _ => decide (w.flag = f)
  | _ => false

def hasLock : Phase → Bool
  | .addAck _ | .addMask _ | .addWrite _ | .removeMask .. | .removeWrite .. => true
  | _ => false

def MaskOf (s : Sys) : Phase → Prop
  | .addAck w | .addMask w => s.waiters w.flag = 1 ∧
      (∀ f, f ∈ s.irqMask ↔ 0 < s.waiters f ∧ f ≠ w.flag) ∧ s.deviceMask = s.irqMask
  | .addWrite w => s.waiters w.flag = 1 ∧ (∀ f, f ∈ s.irqMask ↔ 0 < s.waiters f) ∧
      ∀ f, f ≠ w.flag → (f ∈ s.deviceMask ↔ f ∈ s.irqMask)
  | .removeMask w _ => s.waiters w.flag = 0 ∧
      (∀ f, f ∈ s.irqMask ↔ 0 < s.waiters f ∨ f = w.flag) ∧ s.deviceMask = s.irqMask
  | .removeWrite w _ => s.waiters w.flag = 0 ∧ (∀ f, f ∈ s.irqMask ↔ 0 < s.waiters f) ∧
      ∀ f, f ≠ w.flag → (f ∈ s.deviceMask ↔ f ∈ s.irqMask)
  | _ => True

structure Masks (s : Sys) : Prop where
  finite : ∀ f, (party (holds f) s.phase).Finite
  count : ∀ f, s.waiters f = count (holds f) s.phase
  lock : ∀ p, hasLock (s.phase p) = true ↔ s.lock = some p
  free : s.lock = none → (∀ f, f ∈ s.irqMask ↔ 0 < s.waiters f) ∧ s.deviceMask = s.irqMask
  held : ∀ p, MaskOf s (s.phase p)

theorem start_masks : Masks start := by
  have hnone : ∀ f, party (holds f) start.phase = ∅ := fun f => by
    ext p
    simp [mem_party, start, holds]
  constructor
  · intro f
    rw [hnone]
    exact Set.finite_empty
  · intro f
    rw [PartyCounts.count, hnone, Set.ncard_empty]
    rfl
  · intro p
    simp [start, hasLock]
  · intro _
    simp [start]
  · intro p
    trivial

theorem maskOf_unlocked (h : hasLock x = false) : MaskOf s x := by
  cases x <;> trivial

theorem maskOf_congr (hw : t.waiters = s.waiters) (hi : t.irqMask = s.irqMask)
    (hd : t.deviceMask = s.deviceMask) (h : MaskOf s x) : MaskOf t x := by
  cases x <;> simp only [MaskOf, hw, hi, hd] at h ⊢ <;> exact h

theorem Masks.congr (h : Masks s) (hph : t.phase = s.phase) (hw : t.waiters = s.waiters)
    (hl : t.lock = s.lock) (hi : t.irqMask = s.irqMask) (hd : t.deviceMask = s.deviceMask) :
    Masks t := by
  constructor
  · rw [hph]
    exact h.finite
  · rw [hph, hw]
    exact h.count
  · rw [hph, hl]
    exact h.lock
  · rw [hl, hw, hi, hd]
    exact h.free
  · rw [hph]
    exact fun p => maskOf_congr hw hi hd (h.held p)

theorem Masks.inside (h : Masks s) (x : Phase) (hph : t.phase = Function.update s.phase p x)
    (hsame : t.waiters = s.waiters ∧ t.lock = s.lock ∧ t.irqMask = s.irqMask ∧
      t.deviceMask = s.deviceMask)
    (hholds : ∀ f, holds f x = holds f (s.phase p))
    (hlock : hasLock x = hasLock (s.phase p)) (hx : MaskOf s x) : Masks t := by
  obtain ⟨hw, hl, hi, hd⟩ := hsame
  constructor
  · intro f
    rw [hph, party_same (hholds f)]
    exact h.finite f
  · intro f
    rw [hph, hw, count_same (hholds f)]
    exact h.count f
  · intro q
    rw [hph, hl, ← h.lock q]
    by_cases hqp : q = p
    · subst hqp
      rw [Function.update_self, hlock]
    · rw [Function.update_of_ne hqp]
  · rw [hl, hw, hi, hd]
    exact h.free
  · intro q
    rw [hph]
    by_cases hqp : q = p
    · subst hqp
      rw [Function.update_self]
      exact maskOf_congr hw hi hd hx
    · rw [Function.update_of_ne hqp]
      exact maskOf_congr hw hi hd (h.held q)

theorem Masks.locked (h : Masks s) (x : Phase) (hph : t.phase = Function.update s.phase p x)
    (hfree : s.lock = none ∨ s.lock = some p)
    (hlock : t.lock = if hasLock x then some p else none)
    (hcount : ∀ f, t.waiters f = PartyCounts.count (holds f) t.phase)
    (hopen : hasLock x = false →
      (∀ f, f ∈ t.irqMask ↔ 0 < t.waiters f) ∧ t.deviceMask = t.irqMask)
    (hx : MaskOf t x) : Masks t := by
  have hother : ∀ q, q ≠ p → hasLock (s.phase q) = false := fun q hq => by
    rw [← Bool.not_eq_true, h.lock q]
    rcases hfree with hf | hf
    · rw [hf]
      exact fun hno => by cases hno
    · rw [hf]
      exact fun hno => hq (Option.some.inj hno).symm
  constructor
  · intro f
    rw [hph]
    exact party_finite (h.finite f) p x
  · exact hcount
  · intro q
    rw [hph, hlock]
    by_cases hqp : q = p
    · subst hqp
      rw [Function.update_self]
      split_ifs with hl <;> simp [hl]
    · rw [Function.update_of_ne hqp, hother q hqp]
      split_ifs <;> simp [Ne.symm hqp]
  · intro hl
    refine hopen ?_
    rw [hlock] at hl
    split_ifs at hl with hno
    exact Bool.not_eq_true _ ▸ hno
  · intro q
    rw [hph]
    by_cases hqp : q = p
    · subst hqp
      rw [Function.update_self]
      exact hx
    · rw [Function.update_of_ne hqp]
      exact maskOf_unlocked (hother q hqp)

theorem Masks.counted (h : Masks s) (hp : ∀ f, holds f (s.phase p) = false)
    (hx : ∀ f, holds f x = decide (w.flag = f)) (f : Flag) :
    Function.update s.waiters w.flag (s.waiters w.flag + 1) f =
      PartyCounts.count (holds f) (Function.update s.phase p x) := by
  by_cases hf : f = w.flag
  · subst hf
    rw [Function.update_self, count_enter (h.finite _) (hp _) (by simp [hx]), h.count]
  · rw [Function.update_of_ne hf, h.count, count_same]
    simp [hx, hp, Ne.symm hf]

theorem Masks.uncounted (h : Masks s) (hp : ∀ f, holds f (s.phase p) = decide (w.flag = f))
    (hx : ∀ f, holds f x = false) (f : Flag) :
    Function.update s.waiters w.flag (s.waiters w.flag - 1) f =
      PartyCounts.count (holds f) (Function.update s.phase p x) := by
  by_cases hf : f = w.flag
  · subst hf
    have hleave := count_leave (h.finite w.flag) (p := p) (by simp [hp]) (hx w.flag)
    rw [Function.update_self, h.count]
    omega
  · rw [Function.update_of_ne hf, h.count, count_same]
    simp [hx, hp, Ne.symm hf]

theorem Masks.add (h : Masks s) (hp : s.phase p = .add w) (hfree : s.lock = none) :
    (s.waiters w.flag = 0 → Masks (setPhase p (.addAck w) { s with
      waiters := Function.update s.waiters w.flag (s.waiters w.flag + 1), lock := some p })) ∧
    (s.waiters w.flag ≠ 0 → Masks (setPhase p (.test w) { s with
      waiters := Function.update s.waiters w.flag (s.waiters w.flag + 1) })) := by
  obtain ⟨hmask, hdev⟩ := h.free hfree
  refine ⟨fun h0 => ?_, fun h0 => ?_⟩
  · refine h.locked (.addAck w) rfl (.inl hfree) rfl
      (h.counted (by simp [hp, holds]) (by simp [holds])) (by simp [hasLock]) ?_
    refine ⟨by simp [setPhase, h0], fun f => ?_, hdev⟩
    by_cases hf : f = w.flag
    · subst hf
      simp [setPhase, hmask, h0]
    · simp [setPhase, hmask, hf]
  · refine h.locked (.test w) rfl (.inl hfree) hfree
      (h.counted (by simp [hp, holds]) (by simp [holds])) (fun _ => ⟨fun f => ?_, hdev⟩) trivial
    by_cases hf : f = w.flag
    · subst hf
      simp [setPhase, hmask, Nat.pos_iff_ne_zero, h0]
    · simp [setPhase, hmask, hf]

theorem Masks.remove (h : Masks s) (hp : s.phase p = .remove w r) (hfree : s.lock = none) :
    (s.waiters w.flag - 1 = 0 → Masks (setPhase p (.removeMask w r) { s with
      waiters := Function.update s.waiters w.flag (s.waiters w.flag - 1), lock := some p })) ∧
    (s.waiters w.flag - 1 ≠ 0 → Masks (setPhase p (.finished w r) { s with
      waiters := Function.update s.waiters w.flag (s.waiters w.flag - 1) })) := by
  obtain ⟨hmask, hdev⟩ := h.free hfree
  have hpos : 0 < s.waiters w.flag := by
    rw [h.count]
    exact count_pos (h.finite _) (p := p) (by simp [hp, holds])
  refine ⟨fun h0 => ?_, fun h0 => ?_⟩
  · refine h.locked (.removeMask w r) rfl (.inl hfree) rfl
      (h.uncounted (by simp [hp, holds]) (by simp [holds])) (by simp [hasLock]) ?_
    refine ⟨by simp [setPhase, h0], fun f => ?_, hdev⟩
    by_cases hf : f = w.flag
    · subst hf
      simp [setPhase, hmask, hpos]
    · simp [setPhase, hmask, hf]
  · refine h.locked (.finished w r) rfl (.inl hfree) hfree
      (h.uncounted (by simp [hp, holds]) (by simp [holds])) (fun _ => ⟨fun f => ?_, hdev⟩) trivial
    by_cases hf : f = w.flag
    · subst hf
      simp [setPhase, hmask, hpos]
      omega
    · simp [setPhase, hmask, hf]

theorem Masks.within (h : Masks s) (x : Phase) (hph : t.phase = Function.update s.phase p x)
    (hw : t.waiters = s.waiters) (hp : hasLock (s.phase p) = true)
    (hlock : t.lock = if hasLock x then s.lock else none)
    (hholds : ∀ f, holds f x = holds f (s.phase p))
    (hopen : hasLock x = false →
      (∀ f, f ∈ t.irqMask ↔ 0 < t.waiters f) ∧ t.deviceMask = t.irqMask)
    (hx : MaskOf t x) : Masks t := by
  have hl := (h.lock p).1 hp
  refine h.locked x hph (.inr hl) (hl ▸ hlock) (fun f => ?_) hopen hx
  rw [hw, hph, count_same (hholds f), h.count]

theorem Masks.checked (h : Masks s) {expired : Bool} (hp : s.phase p = .check w expired) :
    Masks (checked p env w expired s) := by
  unfold InterruptWaits.checked
  split_ifs <;>
    exact h.inside _ rfl ⟨rfl, rfl, rfl, rfl⟩ (by simp [hp, holds]) (by simp [hp, hasLock]) trivial

theorem Masks.next (h : Masks s) (ht : next p env s = some t) : Masks t := by
  have hheld := h.held p
  unfold InterruptWaits.next at ht
  cases hp : s.phase p with
  | idle | finished w r =>
    rw [hp] at ht
    cases ht
  | start w | test w =>
    rw [hp] at ht
    cases w <;> dsimp only at ht <;> (try split_ifs at ht) <;> cases ht <;>
      exact h.inside _ rfl ⟨rfl, rfl, rfl, rfl⟩ (by simp [hp, holds]) (by simp [hp, hasLock])
        trivial
  | add w =>
    simp only [hp] at ht
    split_ifs at ht with hfree h0
    · cases ht
      exact (h.add hp hfree).1 h0
    · cases ht
      exact (h.add hp hfree).2 h0
  | addAck w =>
    rw [hp] at ht hheld
    cases ht
    exact h.within (.addMask w) rfl rfl (by rw [hp]; rfl) rfl (by simp [hp, holds])
      (by simp [hasLock]) hheld
  | addMask w =>
    rw [hp] at ht hheld
    cases ht
    obtain ⟨hone, hmask, hdev⟩ := hheld
    refine h.within (.addWrite w) rfl rfl (by rw [hp]; rfl) rfl (by simp [hp, holds])
      (by simp [hasLock]) ⟨hone, fun f => ?_, fun f hf => ?_⟩
    · by_cases hf : f = w.flag
      · subst hf
        simp [setPhase, hone]
      · simp [setPhase, hf, hmask]
    · simp [setPhase, hf, hdev]
  | addWrite w =>
    rw [hp] at ht hheld
    cases ht
    exact h.within (.test w) rfl rfl (by rw [hp]; rfl) rfl (by simp [hp, holds])
      (fun _ => ⟨hheld.2.1, rfl⟩) trivial
  | prepare w expired =>
    rw [hp] at ht
    cases ht
    exact h.inside _ rfl ⟨rfl, rfl, rfl, rfl⟩ (by simp [hp, holds]) (by simp [hp, hasLock]) trivial
  | check w expired =>
    rw [hp] at ht
    cases ht
    exact h.checked hp
  | sleep w =>
    simp only [hp, Option.ite_none_right_eq_some, Option.some.injEq] at ht
    obtain ⟨-, rfl⟩ := ht
    exact h.inside _ rfl ⟨rfl, rfl, rfl, rfl⟩ (by simp [hp, holds]) (by simp [hp, hasLock]) trivial
  | remove w r =>
    simp only [hp] at ht
    split_ifs at ht with hfree h0
    · cases ht
      exact (h.remove hp hfree).1 h0
    · cases ht
      exact (h.remove hp hfree).2 h0
  | removeMask w r =>
    rw [hp] at ht hheld
    cases ht
    obtain ⟨hzero, hmask, hdev⟩ := hheld
    refine h.within (.removeWrite w r) rfl rfl (by rw [hp]; rfl) rfl (by simp [hp, holds])
      (by simp [hasLock]) ⟨hzero, fun f => ?_, fun f hf => ?_⟩
    · by_cases hf : f = w.flag
      · subst hf
        simp [setPhase, hzero]
      · simp [setPhase, hf, hmask]
    · simp [setPhase, hf, hdev]
  | removeWrite w r =>
    rw [hp] at ht hheld
    cases ht
    exact h.within (.finished w r) rfl rfl (by rw [hp]; rfl) rfl (by simp [hp, holds])
      (fun _ => ⟨hheld.2.1, rfl⟩) trivial

theorem vmwIrqHandler_same (s : Sys) : (vmwIrqHandler s).phase = s.phase ∧
    (vmwIrqHandler s).waiters = s.waiters ∧ (vmwIrqHandler s).lock = s.lock ∧
    (vmwIrqHandler s).irqMask = s.irqMask ∧ (vmwIrqHandler s).deviceMask = s.deviceMask ∧
    (vmwIrqHandler s).raising = s.raising ∧ (vmwIrqHandler s).completed = s.completed ∧
    (vmwIrqHandler s).space = s.space ∧ (vmwIrqHandler s).thread = s.thread := by
  unfold vmwIrqHandler
  cases s.handler <;> dsimp only <;> (try split_ifs) <;>
    exact ⟨rfl, rfl, rfl, rfl, rfl, rfl, rfl, rfl, rfl⟩

theorem vmwThreadFn_same (ht : vmwThreadFn s = some t) : t.phase = s.phase ∧
    t.waiters = s.waiters ∧ t.lock = s.lock ∧ t.irqMask = s.irqMask ∧
    t.deviceMask = s.deviceMask ∧ t.raising = s.raising ∧ t.completed = s.completed ∧
    t.space = s.space ∧ t.handler = s.handler ∧ t.status = s.status := by
  unfold vmwThreadFn at ht
  cases hth : s.thread with
  | idle =>
    simp only [hth, Option.ite_none_right_eq_some, Option.some.injEq] at ht
    obtain ⟨-, rfl⟩ := ht
    exact ⟨rfl, rfl, rfl, rfl, rfl, rfl, rfl, rfl, rfl, rfl⟩
  | _ =>
    rw [hth] at ht
    cases ht
    exact ⟨rfl, rfl, rfl, rfl, rfl, rfl, rfl, rfl, rfl, rfl⟩

theorem device_same (s : Sys) (e : Event) : (device s e).phase = s.phase ∧
    (device s e).waiters = s.waiters ∧ (device s e).lock = s.lock ∧
    (device s e).irqMask = s.irqMask ∧ (device s e).deviceMask = s.deviceMask ∧
    (device s e).awake = s.awake ∧ (device s e).handler = s.handler ∧
    (device s e).thread = s.thread := by
  cases e with
  | post f =>
    unfold device
    dsimp only
    split_ifs <;> exact ⟨rfl, rfl, rfl, rfl, rfl, rfl, rfl, rfl⟩
  | _ => exact ⟨rfl, rfl, rfl, rfl, rfl, rfl, rfl, rfl⟩

theorem step_masks {a : Act} (h : Masks s) (ht : step s a = some t) : Masks t := by
  cases a with
  | call p w =>
    simp only [step, Option.ite_none_right_eq_some, Option.some.injEq] at ht
    obtain ⟨hidle, rfl⟩ := ht
    exact h.inside (.start w) rfl ⟨rfl, rfl, rfl, rfl⟩ (by simp [hidle, holds])
      (by simp [hidle, hasLock]) trivial
  | next p env => exact h.next ht
  | handler =>
    obtain rfl := Option.some.inj ht
    obtain ⟨hph, hw, hl, hi, hd, -⟩ := vmwIrqHandler_same s
    exact h.congr hph hw hl hi hd
  | thread =>
    obtain ⟨hph, hw, hl, hi, hd, -⟩ := vmwThreadFn_same ht
    exact h.congr hph hw hl hi hd
  | device e =>
    obtain rfl := Option.some.inj ht
    obtain ⟨hph, hw, hl, hi, hd, -⟩ := device_same s e
    exact h.congr hph hw hl hi hd

theorem runs_masks {as : List Act} (h : Runs step anyLabel start as s) : Masks s :=
  h.invariant Masks start_masks fun _ _ _ hs _ ht => step_masks hs ht

/-- Each flag is counted as often as calls wait for it. While nobody has the lock the masks of the
    driver and of the device hold just the flags that are waited for. -/
theorem runs_mask {as : List Act} (h : Runs step anyLabel start as s) :
    (∀ f, s.waiters f = {p | holds f (s.phase p) = true}.ncard) ∧
    (s.lock = none → s.deviceMask = s.irqMask ∧
      ∀ f, f ∈ s.irqMask ↔ ∃ p, holds f (s.phase p) = true) := by
  have hm := runs_masks h
  refine ⟨hm.count, fun hl => ?_⟩
  obtain ⟨hmask, hdev⟩ := hm.free hl
  refine ⟨hdev, fun f => ?_⟩
  rw [hmask, hm.count]
  exact Set.ncard_pos (hm.finite f)

def sleeping : List Act :=
  .call 1 (.seqno 1 true) :: List.replicate 8 (.next 1 ⟨false, false⟩)

def slept : Sys := (execAdmitted step Undisturbed start sleeping).getD start

theorem slept_runs : Runs step Undisturbed start sleeping slept := runs_admitted_getD (by decide)

theorem slept_mask : .anyFence ∈ slept.deviceMask := by
  obtain ⟨-, hmask⟩ := runs_mask (slept_runs.weaken fun _ _ _ => trivial)
  obtain ⟨hdev, hwaits⟩ := hmask (by decide)
  rw [hdev, hwaits]
  exact ⟨1, by decide⟩

/-- The call is counted and has set the mask, or has found it set. -/
def registered (f : Flag) : Phase → Bool
  | .test w | .prepare w _ | .check w _ | .sleep w | .remove w _ => decide (w.flag = f)
  | _ => false

theorem MaskOf.mem (h : MaskOf s x) (hx : hasLock x = true) (hpos : 0 < s.waiters f)
    (hadd : ∀ w, x = .addAck w ∨ x = .addMask w ∨ x = .addWrite w → w.flag ≠ f) :
    f ∈ s.irqMask ∧ f ∈ s.deviceMask := by
  cases x with
  | addAck w | addMask w =>
    obtain ⟨-, hmask, hdev⟩ := h
    simp [hdev, hmask, hpos, (hadd w (by simp)).symm]
  | addWrite w =>
    obtain ⟨-, hmask, hdev⟩ := h
    simp [hdev f (hadd w (by simp)).symm, hmask, hpos]
  | removeMask w r =>
    obtain ⟨-, hmask, hdev⟩ := h
    simp [hdev, hmask, hpos]
  | removeWrite w r =>
    obtain ⟨hzero, hmask, hdev⟩ := h
    have hf : f ≠ w.flag := fun hf => by rw [← hf] at hzero; exact hpos.ne' hzero
    simp [hdev f hf, hmask, hpos]
  | _ => cases hx

theorem Masks.registered (h : Masks s) (hp : registered f (s.phase p) = true) :
    f ∈ s.irqMask ∧ f ∈ s.deviceMask ∧ ∀ q w, s.phase q = .addAck w → w.flag ≠ f := by
  have hholds : holds f (s.phase p) = true := by
    revert hp
    cases s.phase p <;> simp [InterruptWaits.registered, holds]
  have hno : hasLock (s.phase p) = false := by
    revert hp
    cases s.phase p <;> simp [InterruptWaits.registered, hasLock]
  have hpos : 0 < s.waiters f := by
    rw [h.count]
    exact count_pos (h.finite f) hholds
  -- whoever sets the mask for a flag is the only one that is counted for it
  have halone : ∀ q, q ≠ p → holds f (s.phase q) = true → s.waiters f ≠ 1 := fun q hqp hq => by
    have hlt := one_lt_count (h.finite f) hq hholds hqp
    rw [h.count]
    omega
  have hq : ∀ q w, s.phase q = .addAck w ∨ s.phase q = .addMask w ∨ s.phase q = .addWrite w →
      w.flag ≠ f := by
    rintro q w hw rfl
    have hqp : q ≠ p := by
      rintro rfl
      rcases hw with hw | hw | hw <;> simp [hw, hasLock] at hno
    have hone : s.waiters w.flag = 1 := by
      have hheld := h.held q
      rcases hw with hw | hw | hw <;> rw [hw] at hheld <;> exact hheld.1
    refine halone q hqp ?_ hone
    rcases hw with hw | hw | hw <;> simp [hw, holds]
  have hin : f ∈ s.irqMask ∧ f ∈ s.deviceMask := by
    cases hl : s.lock with
    | none =>
      obtain ⟨hmask, hdev⟩ := h.free hl
      simp [hdev, hmask, hpos]
    | some q => exact (h.held q).mem ((h.lock q).2 hl) hpos (hq q)
  exact ⟨hin.1, hin.2, fun q w hw => hq q w (.inl hw)⟩

end Vmwgfx.InterruptWaits
