import Vmwgfx.BindingUser

set_option autoImplicit false

/-!
# Runs of submissions, evictions and rebinding

Every reservation succeeds. A resource loses its id only after its bindings were scrubbed.
-/
namespace Vmwgfx.BindingRuns
open BindingSlots BindingMachine BindingLists BindingDirty BindingSync BindingScrub BindingTouch
open BindingUser LabelledRuns

variable {Φ : Relation} {s t : Manager} {p q : SlotRef} {i : StateId} {l : Loc} {c r : ℕ}

inductive DeviceOp where
  | submit (ctx : ℕ) (cmds : List UserCmd)
  | scrub (ctx : ℕ)
  | kill (ctx : ℕ)
  | resListScrub (res : ℕ)
  | resListKill (res : ℕ)
  | rebindAll (ctx : ℕ)
  /-- The resource is destroyed on the device: its bindings are scrubbed, its id is released. -/
  | evict (res : ℕ)
  /-- The resource is created on the device and gets an id. -/
  | validate (res : ℕ)
  deriving DecidableEq, Repr

def setId (r : ℕ) (v : Bool) (s : Manager) : Manager :=
  { s with valid := Function.update s.valid r v }

def deviceStep (s : Manager) : DeviceOp → Option Manager
  | .submit c cmds => submit c cmds s
  | .scrub c => some (vmwBindingStateScrub (.persistent c) s)
  | .kill c => some (vmwBindingStateKill (.persistent c) s)
  | .resListScrub r => some (vmwBindingResListScrub r s)
  | .resListKill r => some (vmwBindingResListKill r s)
  | .rebindAll c => some (vmwBindingRebindAll (.persistent c) s)
  | .evict r => some (setId r false (vmwBindingResListScrub r s))
  | .validate r => some (setId r true s)

/-- The conditions that hold in every run: they say nothing about stream output targets, and
    ids matter only for bindings that are not scrubbed. -/
structure Durable (Φ : Relation) : Prop extends Emittable Φ where
  so : ∀ valid k x y, Φ valid (.so k) x y
  ids : ∀ valid valid' l x y, (x.ctx.isSome → x.scrubbed = false →
    x.res.filter valid' = x.res.filter valid) → Φ valid l x y → Φ valid' l x y

section Steps

theorem Durable.soSafe (hΦ : Durable Φ) (c : ℕ) (k : Fin 4) : SoSafe Φ s c k :=
  .inr (.inr fun _ => hΦ.so _ k)

theorem Effect.unscrubbed {ps : List SlotRef} (h : Effect false ps s t)
    (hq : (t.slot q).scrubbed = false) : t.slot q = s.slot q := by
  rw [h.slot] at hq ⊢
  split_ifs at hq ⊢
  · cases hq
  · rfl

theorem Idle.of_sameTracks (h : Idle Φ s) (hsync : InSync Φ t) (hclean : Clean t)
    (hsame : SameTracks s t)
    (hids : ∀ c l, (s.slot (.persistent c, l)).ctx.isSome →
      (t.slot (.persistent c, l)).scrubbed = false →
      (s.slot (.persistent c, l)).scrubbed = false ∨
        ((s.slot (.persistent c, l)).res.filter s.valid).isSome) : Idle Φ t := by
  refine ⟨hsync, hclean, fun i l => ?_, fun c l hl hs => ?_⟩
  · rw [hsame.ctx]
    exact h.staged i l
  · rw [hsame.ctx] at hl
    rw [hsame.res, hsame.valid]
    rcases hids c l hl hs with hs | hid
    · exact h.hasId c l hl hs
    · exact hid

theorem Idle.stateScrub (hΦ : Durable Φ) (h : Idle Φ s) (c : ℕ) :
    Idle Φ (vmwBindingStateScrub (.persistent c) s) := by
  obtain ⟨hsync, hclean⟩ := h.sync.stateScrub hΦ.toEmittable h.clean
    fun k _ => hΦ.soSafe c k
  obtain ⟨u, heffect, -, hflushed⟩ := stateScrub_effect h.sync h.clean c
  refine Idle.of_sameTracks h hsync hclean (vmwBindingStateScrub_sameTracks _ s)
    fun c' l _ hs => .inl ?_
  rw [hflushed.kept.slot] at hs
  rwa [Effect.unscrubbed heffect hs] at hs

theorem Idle.resListScrub (hΦ : Durable Φ) (h : Idle Φ s) (r : ℕ) :
    Idle Φ (vmwBindingResListScrub r s) := by
  obtain ⟨hsync, hclean⟩ := h.sync.resListScrub hΦ.toEmittable h.clean
    (r := r) fun c k _ => hΦ.soSafe c k
  obtain ⟨u, heffect, -, hflushed⟩ := resListScrub_effect h.sync h.clean r
  refine Idle.of_sameTracks h hsync hclean (vmwBindingResListScrub_sameTracks _ s)
    fun c' l _ hs => .inl ?_
  rw [hflushed.kept.slot] at hs
  rwa [Effect.unscrubbed heffect hs] at hs

theorem Idle.rebindAll (hΦ : Durable Φ) (h : Idle Φ s) (c : ℕ) :
    Idle Φ (vmwBindingRebindAll (.persistent c) s) := by
  obtain ⟨hsync, hclean⟩ := rebindAll_inSync hΦ.toEmittable h.sync h.clean c
  obtain ⟨u, heffect, -, hflushed⟩ := rebindAll_effect h.sync h.clean c
  refine Idle.of_sameTracks h hsync hclean (vmwBindingRebindAll_sameTracks _ s)
    fun c' l _ hs => ?_
  rw [hflushed.kept.slot, heffect.slot] at hs
  split_ifs at hs with hw
  · exact .inr (Bool.and_eq_true_iff.1 hw.2).2
  · exact .inl hs

theorem Idle.dropAll (h : Idle Φ s) {ps : List SlotRef}
    (hdrop : InSync Φ (dropAll ps s) ∧ Clean (dropAll ps s))
    (hps : ∀ p ∈ ps, ∃ c, p.1 = .persistent c) : Idle Φ (dropAll ps s) := by
  refine ⟨hdrop.1, hdrop.2, fun i l => ?_, fun c l hl hs => ?_⟩
  · rw [slot_dropAll_of_notMem]
    · exact h.staged i l
    · intro hmem
      obtain ⟨c, hc⟩ := hps _ hmem
      cases hc
  · by_cases hmem : (.persistent c, l) ∈ ps
    · rw [slot_dropAll_of_mem hmem] at hl
      cases hl
    · rw [slot_dropAll_of_notMem hmem] at hl hs ⊢
      rw [(dropAll_untouched ps s).valid]
      exact h.hasId c l hl hs

theorem Idle.stateKill (hΦ : Durable Φ) (h : Idle Φ s) (c : ℕ) :
    Idle Φ (vmwBindingStateKill (.persistent c) s) := by
  refine Idle.dropAll (Idle.stateScrub hΦ h c)
    (stateKill_inSync hΦ.toEmittable h.sync h.clean fun k _ => hΦ.soSafe c k) fun p hp => ?_
  obtain ⟨l, -, rfl⟩ := List.mem_map.1 hp
  exact ⟨c, rfl⟩

theorem Idle.resListKill (hΦ : Durable Φ) (h : Idle Φ s) (r : ℕ) :
    Idle Φ (vmwBindingResListKill r s) := by
  have hscrub := Idle.resListScrub hΦ h r
  exact Idle.dropAll hscrub
    (resListKill_inSync hΦ.toEmittable h.sync h.clean fun c k _ => hΦ.soSafe c k)
    fun p hp => (hscrub.sync.ok.lists.heads r p hp).1

theorem Idle.setId (hΦ : Durable Φ) (h : Idle Φ s) {v : Bool}
    (hid : v = false → ∀ p ∈ s.bindingHead r, (s.slot p).scrubbed = true) :
    Idle Φ (setId r v s) := by
  have hfilter : ∀ c l, (s.slot (.persistent c, l)).ctx.isSome →
      (s.slot (.persistent c, l)).scrubbed = false →
      (s.slot (.persistent c, l)).res.filter (Function.update s.valid r v) =
        (s.slot (.persistent c, l)).res.filter s.valid := by
    intro c l hl hs
    have hsome := h.hasId c l hl hs
    obtain ⟨r', hres, -, hmem⟩ := h.sync.ok.lists.bound c l hl
    rw [hres] at hsome ⊢
    by_cases hr : r' = r
    · subst hr
      cases v with
      | false =>
        rw [hid rfl _ hmem] at hs
        cases hs
      | true =>
        have hvalid : s.valid r' = true := by simpa using hsome
        simp [Option.filter, hvalid]
    · simp [Option.filter, hr]
  have hok := h.sync.ok
  refine ⟨⟨⟨⟨hok.lists.live, hok.lists.nodup, hok.lists.bound, hok.lists.unlinked, hok.lists.heads,
    hok.lists.headsNodup, hok.lists.safe⟩, hok.owned, hok.covered, hok.dispatched⟩, h.sync.fits,
    h.sync.calm, fun c l => .inr ?_⟩, h.clean, h.staged, fun c l hl hs => ?_⟩
  · exact hΦ.ids _ _ _ _ _ (hfilter c l) (h.rel c l)
  · have hsome := h.hasId c l hl hs
    rw [← hfilter c l hl hs] at hsome
    exact hsome

theorem Idle.step (hΦ : Durable Φ) (h : Idle Φ s) {op : DeviceOp}
    (hop : deviceStep s op = some t) : Idle Φ t := by
  cases op with
  | submit c cmds => exact h.submit hΦ.toEmittable hop
  | scrub c =>
    cases hop
    exact Idle.stateScrub hΦ h c
  | kill c =>
    cases hop
    exact Idle.stateKill hΦ h c
  | resListScrub r =>
    cases hop
    exact Idle.resListScrub hΦ h r
  | resListKill r =>
    cases hop
    exact Idle.resListKill hΦ h r
  | rebindAll c =>
    cases hop
    exact Idle.rebindAll hΦ h c
  | evict r =>
    cases hop
    refine Idle.setId hΦ (Idle.resListScrub hΦ h r) fun _ p hp => ?_
    rw [(vmwBindingResListScrub_sameTracks r s).heads] at hp
    exact resListScrub_scrubbed h.sync h.clean hp
  | validate r =>
    cases hop
    exact Idle.setId hΦ h fun hv => by cases hv

theorem emptyManager_idle (hΦ : Durable Φ) : Idle Φ emptyManager := by
  refine ⟨⟨emptyManager_dirtyOk, fun p hp => ?_, ⟨by simp [emptyManager], by simp [Fine, emptyManager]⟩,
    fun c l => .inr ?_⟩, ?_, fun _ _ => rfl, fun c l hl => ?_⟩
  · cases hp
  · exact hΦ.shown emptyManager.valid l emptySlot
  · rintro c ⟨bit, hbit⟩
    cases hbit
  · cases hl

theorem idle_of_runs (hΦ : Durable Φ) {as : List DeviceOp}
    (h : Runs deviceStep anyLabel emptyManager as s) : Idle Φ s :=
  h.invariant (Idle Φ) (emptyManager_idle hΦ) fun _ _ _ hs _ hop => Idle.step hΦ hs hop

end Steps

end Vmwgfx.BindingRuns
