import Vmwgfx.InterruptMasks

set_option autoImplicit false

/-!
# No wake-up is lost

An event that a sleeping call waits for is announced by the device, posted in the status, read by
the handler or left to the thread until the call is woken, in every run in which the handler does
not acknowledge an event that it has masked out for somebody who came after.
-/
namespace Vmwgfx.InterruptWaits
open LabelledRuns

variable {s t : Sys} {p q : ℕ} {env : Env} {w : Want} {f : Flag} {x : Phase}

def wakes : Handler → Bool
  | .cmdbuf _ wake | .ret wake => wake
  | _ => false

/-- What the handler leaves to the thread is not left alone. -/
structure Left (s : Sys) : Prop where
  fence : s.pendingFence = true →
    s.woken = true ∨ wakes s.handler = true ∨ s.thread = .fence
  cmdbuf : s.pendingCmdbuf = true →
    s.woken = true ∨ wakes s.handler = true ∨ s.thread ≠ .idle

theorem start_left : Left start :=
  ⟨fun h => absurd h (by simp [start]), fun h => absurd h (by simp [start])⟩

theorem Left.handler (h : Left s) : Left (vmwIrqHandler s) := by
  obtain ⟨h1, h2⟩ := h
  unfold vmwIrqHandler
  cases hh : s.handler with
  | fence m =>
    rw [hh] at h1 h2
    dsimp only
    split_ifs
    · exact ⟨fun _ => .inr (.inl rfl), fun _ => .inr (.inl rfl)⟩
    · exact ⟨h1, h2⟩
  | cmdbuf m wake =>
    rw [hh] at h1 h2
    dsimp only
    split_ifs
    · exact ⟨fun _ => .inr (.inl rfl), fun _ => .inr (.inl rfl)⟩
    · exact ⟨h1, h2⟩
  | ret wake =>
    rw [hh] at h1 h2
    simp only [wakes] at h1 h2
    constructor
    · intro hp
      rcases h1 hp with hw | hw | hw <;> simp [hw]
    · intro hp
      rcases h2 hp with hw | hw | hw <;> simp [hw]
  | _ =>
    rw [hh] at h1 h2
    dsimp only
    (try split_ifs) <;> exact ⟨h1, h2⟩

theorem Left.thread (h : Left s) (ht : vmwThreadFn s = some t) : Left t := by
  obtain ⟨h1, h2⟩ := h
  unfold vmwThreadFn at ht
  cases hth : s.thread with
  | idle =>
    simp only [hth, Option.ite_none_right_eq_some, Option.some.injEq] at ht
    obtain ⟨-, rfl⟩ := ht
    exact ⟨fun _ => .inr (.inr rfl), fun _ => .inr (.inr (by simp))⟩
  | fence =>
    rw [hth] at ht
    cases ht
    refine ⟨fun hp => absurd hp (by simp), fun _ => .inr (.inr ?_)⟩
    dsimp only
    split_ifs <;> simp
  | update =>
    rw [hth] at ht h1
    cases ht
    exact ⟨fun hp => (h1 hp).imp_right (.imp_right (by simp)), fun _ => .inr (.inr (by simp))⟩
  | wake =>
    rw [hth] at ht h1
    cases ht
    exact ⟨fun hp => (h1 hp).imp_right (.imp_right (by simp)),
      fun _ => .inr (.inr (by simp [wakeUpAll]))⟩
  | cmdbuf =>
    rw [hth] at ht h1
    cases ht
    exact ⟨fun hp => (h1 hp).imp_right (.imp_right (by simp)), fun hp => absurd hp (by simp)⟩

theorem Left.congr (h : Left s) (hf : t.pendingFence = s.pendingFence)
    (hc : t.pendingCmdbuf = s.pendingCmdbuf) (hw : t.woken = s.woken)
    (hh : t.handler = s.handler) (hth : t.thread = s.thread) : Left t := by
  obtain ⟨h1, h2⟩ := h
  constructor
  · rwa [hf, hw, hh, hth]
  · rwa [hc, hw, hh, hth]

/-- The handler has read the event and has not left it to the thread yet. -/
def Handled (f : Flag) : Handler → Prop
  | .mask st => f ∈ st
  | .ack _ m | .fifo m => f ∈ m
  | .fence m => f ∈ m ∧ f = .anyFence
  | _ => False

/-- The thread is going to wake the calls that wait for fences. -/
def InThread (s : Sys) : Prop := s.pendingFence = true ∨ s.thread = .update ∨ s.thread = .wake

def Coming (s : Sys) (f : Flag) : Prop :=
  f ∈ s.raising ∨ f ∈ s.status ∨ Handled f s.handler ∨ f = .anyFence ∧ InThread s

/-- What a call in the loop of `wait_event_timeout` waits for. -/
def waitsFor : Phase → Option Want
  | .prepare w _ | .check w _ | .sleep w => some w
  | _ => none

/-- Every call that sleeps although its condition holds is going to be woken. -/
structure Arrives (s : Sys) : Prop where
  wants : ∀ p f, waitsFor (s.phase p) ≠ some (.hold f)
  comes : ∀ p w, s.phase p = .sleep w → s.awake p = false → ready s w = true → Coming s w.flag

theorem start_arrives : Arrives start :=
  ⟨fun p f h => by simp [start, waitsFor] at h, fun p w h => by simp [start] at h⟩

structure Goes (p : ℕ) (s t : Sys) : Prop where
  other : ∀ q, q ≠ p → t.phase q = s.phase q ∧ t.awake q = s.awake q
  device : t.raising = s.raising ∧ t.completed = s.completed ∧ t.space = s.space
  irq : t.handler = s.handler ∧ t.thread = s.thread ∧ t.pendingFence = s.pendingFence ∧
    t.pendingCmdbuf = s.pendingCmdbuf ∧ t.woken = s.woken
  status : t.status = s.status ∨ ∃ w, s.phase p = .addAck w ∧ t.status = s.status.erase w.flag
  sleeps : ∀ w, t.phase p = .sleep w → ready s w = false
  wants : ∀ f, waitsFor (t.phase p) = some (.hold f) → waitsFor (s.phase p) = some (.hold f)

theorem Goes.setPhase (x : Phase) (hph : t.phase = Function.update s.phase p x)
    (haw : t.awake = s.awake ∨ ∃ b, t.awake = Function.update s.awake p b)
    (hsame : t = { s with
      phase := t.phase, awake := t.awake, waiters := t.waiters, lock := t.lock,
      irqMask := t.irqMask, deviceMask := t.deviceMask })
    (hx : ∀ w, x = .sleep w → ready s w = false)
    (hw : ∀ f, waitsFor x = some (.hold f) → waitsFor (s.phase p) = some (.hold f)) :
    Goes p s t := by
  constructor
  · intro q hq
    refine ⟨by rw [hph, Function.update_of_ne hq], ?_⟩
    rcases haw with ha | ⟨b, ha⟩
    · rw [ha]
    · rw [ha, Function.update_of_ne hq]
  · rw [hsame]
    exact ⟨rfl, rfl, rfl⟩
  · rw [hsame]
    exact ⟨rfl, rfl, rfl, rfl, rfl⟩
  · rw [hsame]
    exact .inl rfl
  · rwa [hph, Function.update_self]
  · rwa [hph, Function.update_self]

theorem next_goes (ht : next p env s = some t) : Goes p s t := by
  unfold InterruptWaits.next at ht
  cases hp : s.phase p with
  | idle | finished w r =>
    rw [hp] at ht
    cases ht
  | start w | test w =>
    rw [hp] at ht
    cases w <;> dsimp only at ht <;> (try split_ifs at ht) <;> cases ht <;>
      exact .setPhase _ rfl (.inl rfl) rfl (by simp) (by simp [waitsFor])
  | add w | remove w r =>
    simp only [hp] at ht
    split_ifs at ht <;> cases ht <;>
      exact .setPhase _ rfl (.inl rfl) rfl (by simp) (by simp [waitsFor])
  | addAck w =>
    rw [hp] at ht
    cases ht
    constructor
    · exact fun q hq => ⟨Function.update_of_ne hq _ _, rfl⟩
    · exact ⟨rfl, rfl, rfl⟩
    · exact ⟨rfl, rfl, rfl, rfl, rfl⟩
    · exact .inr ⟨w, hp, rfl⟩
    · simp [InterruptWaits.setPhase]
    · simp [InterruptWaits.setPhase, waitsFor]
  | prepare w expired =>
    rw [hp] at ht
    cases ht
    exact .setPhase _ rfl (.inr ⟨_, rfl⟩) rfl (by simp) (by simp [waitsFor, hp])
  | check w expired =>
    rw [hp] at ht
    cases ht
    unfold checked
    split_ifs with hr
    · exact .setPhase _ rfl (.inr ⟨_, rfl⟩) rfl (by simp) (by simp [waitsFor])
    · exact .setPhase _ rfl (.inr ⟨_, rfl⟩) rfl (by simp) (by simp [waitsFor])
    · exact .setPhase _ rfl (.inr ⟨_, rfl⟩) rfl (by simp) (by simp [waitsFor])
    · refine .setPhase _ rfl (.inl rfl) rfl ?_ (by simp [waitsFor, hp])
      rintro w' ⟨⟩
      exact Bool.not_eq_true _ ▸ hr
  | sleep w =>
    simp only [hp, Option.ite_none_right_eq_some, Option.some.injEq] at ht
    obtain ⟨-, rfl⟩ := ht
    exact .setPhase _ rfl (.inr ⟨_, rfl⟩) rfl (by simp) (by simp [waitsFor, hp])
  | _ =>
    rw [hp] at ht
    cases ht
    exact .setPhase _ rfl (.inl rfl) rfl (by simp) (by simp [waitsFor])

theorem ready_congr (hc : t.completed = s.completed) (hs : t.space = s.space) (w : Want) :
    ready t w = ready s w := by
  cases w <;> simp only [ready, hc, hs]

theorem sleep_registered (hp : s.phase p = .sleep w) : registered w.flag (s.phase p) = true := by
  simp [hp, registered]

theorem Arrives.goes (h : Arrives s) (hm : Masks s) (hg : Goes p s t) : Arrives t := by
  obtain ⟨hraise, hc, hsp⟩ := hg.device
  obtain ⟨hh, hth, hpf, -, -⟩ := hg.irq
  refine ⟨fun q f hq => ?_, fun q w hq ha hr => ?_⟩
  · by_cases hqp : q = p
    · subst hqp
      exact h.wants q f (hg.wants f hq)
    · rw [(hg.other q hqp).1] at hq
      exact h.wants q f hq
  · rw [ready_congr hc hsp] at hr
    have hqp : q ≠ p := by
      rintro rfl
      rw [hg.sleeps w hq] at hr
      cases hr
    obtain ⟨hph, haw⟩ := hg.other q hqp
    rw [hph] at hq
    rw [haw] at ha
    have hcome := h.comes q w hq ha hr
    unfold Coming InThread at hcome ⊢
    rw [hraise, hh, hth, hpf]
    rcases hg.status with hst | ⟨w', hack, hst⟩
    · rwa [hst]
    · -- a flag that somebody waits for is not acknowledged
      have hne := (hm.registered (sleep_registered hq)).2.2 p w' hack
      rw [hst]
      simpa [hne.symm] using hcome

theorem Arrives.handler (h : Arrives s) (hm : Masks s) (hok : Undisturbed s .handler) :
    Arrives (vmwIrqHandler s) := by
  obtain ⟨hph, -, -, -, -, hraise, hc, hsp, hth⟩ := vmwIrqHandler_same s
  refine ⟨fun p f hp => h.wants p f (by rwa [hph] at hp), fun p w hp ha hr => ?_⟩
  rw [hph] at hp
  rw [ready_congr hc hsp] at hr
  have hflag : w.flag = .anyFence ∨ w.flag = .fifoProgress := by
    cases w with
    | seqno n intr => exact .inl rfl
    | fifo bytes intr => exact .inr rfl
    | hold f => exact absurd (by rw [hp]; rfl) (h.wants p f)
  obtain ⟨hmask, -, -⟩ := hm.registered (sleep_registered hp)
  have hcome : s.awake p = false → Coming s w.flag := fun ha => h.comes p w hp ha hr
  unfold Coming InThread at hcome ⊢
  rw [hraise, hth]
  unfold vmwIrqHandler at ha ⊢
  cases hh : s.handler with
  | idle =>
    rw [hh] at ha hcome
    have hc := hcome ha
    by_cases hst : s.status = ∅
    · simpa [hst] using hc
    · simpa [hst, Handled] using hc
  | mask st =>
    rw [hh] at ha hcome
    have hc := hcome ha
    simpa [Handled, hmask] using hc
  | ack st m =>
    rw [hh] at ha hcome
    have hc := hcome ha
    simp only [Handled, Finset.mem_sdiff] at hc ⊢
    by_cases hin : w.flag ∈ st
    · have hin' : w.flag ∈ m := by
        by_contra hno
        simp only [Undisturbed, hh] at hok
        exact hok w.flag hin hno hmask
      simp [hin']
    · simpa [hin] using hc
  | fifo m =>
    rw [hh] at ha hcome
    dsimp only at ha ⊢
    by_cases hin : .fifoProgress ∈ m
    · rw [if_pos hin] at ha ⊢
      simp only [wakeUpAll, Bool.or_eq_false_iff] at ha
      have hc := hcome ha.1
      have hne : w.flag = .anyFence := by
        refine hflag.resolve_right fun hf => ?_
        have hq := ha.2
        rw [hp] at hq
        simp [queued, hf] at hq
      simpa [Handled, wakeUpAll, hne] using hc
    · rw [if_neg hin] at ha ⊢
      have hc := hcome ha
      rcases hflag with hf | hf
      · simpa [Handled, hf] using hc
      · simpa [Handled, hf, hin] using hc
  | fence m =>
    rw [hh] at ha hcome
    dsimp only at ha ⊢
    by_cases hin : (forFences m && !s.pendingFence) = true
    · rw [if_pos hin] at ha ⊢
      have hc := hcome ha
      rcases hflag with hf | hf
      · exact .inr (.inr (.inr ⟨hf, .inl rfl⟩))
      · simpa [Handled, hf] using hc
    · rw [if_neg hin] at ha ⊢
      have hc := hcome ha
      simp only [Handled] at hc ⊢
      rcases hc with hc | hc | ⟨hc, hf⟩ | hc
      · exact .inl hc
      · exact .inr (.inl hc)
      · -- the bit was set before
        have hset : s.pendingFence = true := by
          rw [hf] at hc
          simpa [forFences, hc] using hin
        exact .inr (.inr (.inr ⟨hf, .inl hset⟩))
      · exact .inr (.inr (.inr hc))
  | cmdbuf m wake =>
    rw [hh] at ha hcome
    dsimp only at ha ⊢
    split_ifs at ha ⊢ <;> simpa [Handled] using hcome ha
  | ret wake =>
    rw [hh] at ha hcome
    simpa [Handled] using hcome ha

theorem Arrives.thread (h : Arrives s) (ht : vmwThreadFn s = some t) : Arrives t := by
  obtain ⟨hph, -, -, -, -, hraise, hc, hsp, hh, hst⟩ := vmwThreadFn_same ht
  refine ⟨fun p f hp => h.wants p f (by rwa [hph] at hp), fun p w hp ha hr => ?_⟩
  rw [hph] at hp
  rw [ready_congr hc hsp] at hr
  have hcome : s.awake p = false → Coming s w.flag := fun ha => h.comes p w hp ha hr
  unfold Coming InThread at hcome ⊢
  rw [hraise, hh, hst]
  unfold vmwThreadFn at ht
  cases hth : s.thread with
  | idle =>
    rw [hth] at hcome
    simp only [hth, Option.ite_none_right_eq_some, Option.some.injEq] at ht
    obtain ⟨-, rfl⟩ := ht
    simpa using hcome ha
  | fence =>
    rw [hth] at ht hcome
    cases ht
    cases hset : s.pendingFence <;> simpa [hset] using hcome ha
  | update | cmdbuf =>
    rw [hth] at ht hcome
    cases ht
    simpa using hcome ha
  | wake =>
    rw [hth] at ht hcome
    cases ht
    simp only [wakeUpAll, Bool.or_eq_false_iff] at ha
    have hne : w.flag ≠ .anyFence := fun hf => by
      have hq := ha.2
      rw [hp] at hq
      simp [queued, hf] at hq
    simpa [hne] using hcome ha.1

theorem Arrives.device (h : Arrives s) (e : Event) : Arrives (device s e) := by
  obtain ⟨hph, -, -, -, -, haw, hh, hth⟩ := device_same s e
  refine ⟨fun p f hp => h.wants p f (by rwa [hph] at hp), fun p w hp ha hr => ?_⟩
  rw [hph] at hp
  rw [haw] at ha
  have hcome : ready s w = true → Coming s w.flag := h.comes p w hp ha
  have hno := h.wants p
  rw [hp] at hno
  cases e with
  | complete k =>
    cases w with
    | seqno n intr => exact .inl (Finset.mem_insert_self _ _)
    | fifo bytes intr => exact (hcome hr).imp_left (Finset.mem_insert_of_mem ·)
    | hold f => exact absurd rfl (hno f)
  | consume k =>
    cases w with
    | seqno n intr => exact (hcome hr).imp_left (Finset.mem_insert_of_mem ·)
    | fifo bytes intr => exact .inl (Finset.mem_insert_self _ _)
    | hold f => exact absurd rfl (hno f)
  | fill k =>
    refine hcome ?_
    cases w with
    | seqno n intr => exact hr
    | fifo bytes intr =>
      have hle : bytes ≤ s.space - k := of_decide_eq_true hr
      exact decide_eq_true (hle.trans (Nat.sub_le _ _))
    | hold f => exact absurd rfl (hno f)
  | post f =>
    unfold InterruptWaits.device at hr ⊢
    dsimp only at hr ⊢
    split_ifs at hr ⊢ with hin
    · have hc := hcome hr
      unfold Coming InThread at hc ⊢
      by_cases hf : w.flag = f
      · exact .inr (.inl (by simp [hf]))
      · simpa [hf] using hc
    · exact hcome hr
  | other f =>
    have hc := hcome hr
    exact hc.imp_right (.imp_left (Finset.mem_insert_of_mem ·))

theorem Arrives.call (h : Arrives s) : Arrives (setPhase p (.start w) s) := by
  refine ⟨fun q f hq => ?_, fun q w' hq ha hr => ?_⟩
  · by_cases hqp : q = p
    · subst hqp
      simp [InterruptWaits.setPhase, waitsFor] at hq
    · exact h.wants q f (by simpa [InterruptWaits.setPhase, hqp] using hq)
  · by_cases hqp : q = p
    · subst hqp
      simp [InterruptWaits.setPhase] at hq
    · exact h.comes q w' (by simpa [InterruptWaits.setPhase, hqp] using hq) ha hr

structure Inv (s : Sys) : Prop where
  masks : Masks s
  left : Left s
  arrives : Arrives s

theorem step_left {a : Act} (h : Left s) (ht : step s a = some t) : Left t := by
  cases a with
  | call p w =>
    simp only [step, Option.ite_none_right_eq_some, Option.some.injEq] at ht
    obtain ⟨-, rfl⟩ := ht
    exact h.congr rfl rfl rfl rfl rfl
  | next p env =>
    obtain ⟨hh, hth, hf, hc, hw⟩ := (next_goes ht).irq
    exact h.congr hf hc hw hh hth
  | handler =>
    obtain rfl := Option.some.inj ht
    exact h.handler
  | thread => exact h.thread ht
  | device e =>
    obtain rfl := Option.some.inj ht
    cases e with
    | post f =>
      unfold InterruptWaits.device
      dsimp only
      split_ifs <;> exact h.congr rfl rfl rfl rfl rfl
    | _ => exact h.congr rfl rfl rfl rfl rfl

theorem step_arrives {a : Act} (h : Arrives s) (hm : Masks s) (hok : Undisturbed s a)
    (ht : step s a = some t) : Arrives t := by
  cases a with
  | call p w =>
    simp only [step, Option.ite_none_right_eq_some, Option.some.injEq] at ht
    obtain ⟨-, rfl⟩ := ht
    exact h.call
  | next p env => exact h.goes hm (next_goes ht)
  | handler =>
    obtain rfl := Option.some.inj ht
    exact h.handler hm hok
  | thread => exact h.thread ht
  | device e =>
    obtain rfl := Option.some.inj ht
    exact h.device e

theorem runs_inv {as : List Act} (h : Runs step Undisturbed start as s) : Inv s := by
  refine h.invariant Inv ⟨start_masks, start_left, start_arrives⟩ fun s a t hs hok ht => ?_
  exact ⟨step_masks hs.masks ht, step_left hs.left ht, step_arrives hs.arrives hs.masks hok ht⟩

/-- No interrupt is raised, and neither the handler nor the thread has anything to do. -/
def Quiet (s : Sys) : Prop :=
  s.raising = ∅ ∧ s.status ∩ s.deviceMask = ∅ ∧ s.handler = .idle ∧ s.woken = false ∧
    s.thread = .idle

instance (s : Sys) : Decidable (Quiet s) := by
  unfold Quiet
  infer_instance

/-- A call that sleeps while its seqno has passed, or while there is space for it, is going to be
    woken: the event is announced, interrupts, is being handled or is left to the thread, which
    runs. So where all is quiet nobody sleeps in vain. -/
theorem runs_wake {as : List Act} (h : Runs step Undisturbed start as s) :
    (∀ p w, s.phase p = .sleep w → s.awake p = false → ready s w = true →
      w.flag ∈ s.raising ∨ w.flag ∈ s.status ∩ s.deviceMask ∨ Handled w.flag s.handler ∨
        w.flag = .anyFence ∧ (s.thread ≠ .idle ∨ s.woken = true ∨ wakes s.handler = true)) ∧
    (Quiet s → ∀ p w, s.phase p = .sleep w → s.awake p = false → ready s w = false) := by
  obtain ⟨hm, hleft, harr⟩ := runs_inv h
  have hmain : ∀ p w, s.phase p = .sleep w → s.awake p = false → ready s w = true →
      w.flag ∈ s.raising ∨ w.flag ∈ s.status ∩ s.deviceMask ∨ Handled w.flag s.handler ∨
        w.flag = .anyFence ∧ (s.thread ≠ .idle ∨ s.woken = true ∨ wakes s.handler = true) := by
    intro p w hp ha hr
    obtain ⟨-, hdev, -⟩ := hm.registered (sleep_registered hp)
    rcases harr.comes p w hp ha hr with hc | hc | hc | ⟨hf, hc | hc | hc⟩
    · exact .inl hc
    · exact .inr (.inl (Finset.mem_inter.2 ⟨hc, hdev⟩))
    · exact .inr (.inr (.inl hc))
    · refine .inr (.inr (.inr ⟨hf, ?_⟩))
      rcases hleft.fence hc with hw | hw | hw
      · exact .inr (.inl hw)
      · exact .inr (.inr hw)
      · exact .inl (by simp [hw])
    · exact .inr (.inr (.inr ⟨hf, .inl (by simp [hc])⟩))
    · exact .inr (.inr (.inr ⟨hf, .inl (by simp [hc])⟩))
  refine ⟨hmain, fun hq p w hp ha => ?_⟩
  obtain ⟨hraise, hirq, hh, hwoken, hth⟩ := hq
  by_contra hr
  have hc := hmain p w hp ha (by simpa using hr)
  simp [hraise, hirq, hh, hwoken, hth, Handled, wakes] at hc

theorem slept_wake : slept.phase 1 = .sleep (.seqno 1 true) ∧
    ready slept (.seqno 1 true) = false :=
  ⟨by decide, (runs_wake slept_runs).2 (by decide) 1 _ (by decide) (by decide)⟩

/-- The handler has read a status that nobody waited for; then a call begins to wait and its seqno
    passes, and the handler acknowledges that. -/
def overtaken : List Act :=
  [.device (.other .anyFence), .handler, .handler] ++ sleeping ++
  [.device (.complete 1), .device (.post .anyFence)] ++ List.replicate 5 .handler

theorem overtaken_sleeps : ∃ s, Runs step anyLabel start overtaken s ∧ Quiet s ∧
    s.phase 1 = .sleep (.seqno 1 true) ∧ s.awake 1 = false ∧ ready s (.seqno 1 true) = true :=
  ⟨_, runs_getD (d := start) (by decide), by decide, by decide, by decide, by decide⟩

end Vmwgfx.InterruptWaits
