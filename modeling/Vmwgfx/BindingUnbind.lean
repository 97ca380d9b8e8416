import Vmwgfx.BindingRuns

set_option autoImplicit false

/-!
# A scrubbed resource and the device

After the bindings of a resource are scrubbed, which slots of the device still have it.
-/
namespace Vmwgfx.BindingUnbind
open BindingSlots BindingMachine BindingLists BindingDirty BindingSync BindingScrub BindingTouch
open BindingUser BindingRuns LabelledRuns

variable {s t : Manager} {p q : SlotRef} {i : StateId} {l : Loc} {c r : ℕ}

/-- What the device has in a slot is tracked, and not scrubbed. Stream output targets are
    left out. -/
def held : Relation := fun _ l x y =>
  match l with
  | .so _ => True
  | _ => ∀ z, y = some z → x.ctx.isSome ∧ x.scrubbed = false ∧ x.res = some z.res

theorem held_of (valid : ℕ → Bool) (l : Loc) (x : Slot) (y : Option Content)
    (h : ∀ z, y = some z → x.ctx.isSome ∧ x.scrubbed = false ∧ x.res = some z.res) :
    held valid l x y := by
  unfold held
  split
  · trivial
  · exact h

theorem held.get {valid : ℕ → Bool} {x : Slot} {y : Option Content} (h : held valid l x y)
    (hl : ∀ k, l ≠ .so k) (z : Content) (hz : y = some z) :
    x.ctx.isSome ∧ x.scrubbed = false ∧ x.res = some z.res := by
  unfold held at h
  split at h
  · exact absurd rfl (hl _)
  · exact h z hz

theorem idOf_res {valid : ℕ → Bool} {x : Slot} {data : List ℕ} {z : Content}
    (h : idOf valid x data = some z) : x.res = some z.res := by
  obtain ⟨r, hr, rfl⟩ := Option.map_eq_some_iff.1 h
  exact (Option.filter_eq_some_iff.1 hr).1

theorem shown_eq_some {valid : ℕ → Bool} {x : Slot} {z : Content} (h : shown valid x = some z) :
    x.ctx.isSome ∧ x.scrubbed = false ∧ x.res = some z.res := by
  unfold shown at h
  split_ifs at h with hcond
  rw [Bool.or_eq_true, not_or] at hcond
  obtain ⟨hctx, hs⟩ := hcond
  exact ⟨by simpa [Option.isSome_iff_ne_none] using hctx, by simpa using hs, idOf_res h⟩

theorem held_durable : Durable held where
  shown valid l x := held_of _ _ _ _ fun z hz => shown_eq_some hz
  empty valid l x _ := held_of _ _ _ _ fun z hz => by cases hz
  array valid l x data _ hl hs := held_of _ _ _ _ fun z hz => ⟨hl, hs, idOf_res hz⟩
  unscrub valid l x y _ hs h := by
    unfold held at h ⊢
    split at h
    · trivial
    · intro z hz
      obtain ⟨-, hs', -⟩ := h z hz
      rw [hs] at hs'
      cases hs'
  drop valid l x x' y hx _ h := by
    unfold held at h ⊢
    split at h
    · trivial
    · intro z hz
      obtain ⟨-, hs', hres⟩ := h z hz
      rcases hx with hs | hnone
      · rw [hs] at hs'
        cases hs'
      · rw [hnone] at hres
        cases hres
  links valid l x y k h := h
  so valid k x y := trivial
  ids valid valid' l x y _ h := h

theorem mem_bindingHead (h : ListsOk s) : (.persistent c, l) ∈ s.bindingHead r ↔
    (s.slot (.persistent c, l)).ctx.isSome ∧ (s.slot (.persistent c, l)).res = some r := by
  constructor
  · exact fun hmem => (h.heads r _ hmem).2
  · rintro ⟨hl, hres⟩
    obtain ⟨r', hres', -, hmem⟩ := h.bound c l hl
    rw [hres] at hres'
    cases hres'
    exact hmem

/-- The command for the stream output targets that the scrub of a resource needs is sent if
    the first of them is bound, and one that is not yet scrubbed is bound to the resource. -/
def SoSent (s : Manager) (r c : ℕ) : Prop :=
  (s.slot (.persistent c, .so 0)).ctx.isSome ∧
  ∃ k, (s.slot (.persistent c, .so k)).ctx.isSome ∧ (s.slot (.persistent c, .so k)).res = some r ∧
    (s.slot (.persistent c, .so k)).scrubbed = false

theorem eq_so_of_delayed {bt : BindingType} (hbit : delayed bt = some .so)
    (hfits : fits bt l = true) : ∃ k, l = .so k := by
  cases bt with
  | so =>
    cases l with
    | so k => exact ⟨k, rfl⟩
    | _ => cases hfits
  | _ => cases hbit

variable {Φ : Relation}

theorem resent_so_iff (h : Idle Φ s) (heffect : Effect false (s.bindingHead r) s t)
    (hsame : SameTracks s t) (k : Fin 4) :
    resent (t.cbs (.persistent c)) (.so k) = true ↔ SoSent s r c := by
  have hlists := h.sync.ok.lists
  unfold resent SoSent
  rw [Bool.and_eq_true_iff]
  change (t.cbs (.persistent c)).dirty .so = true ∧ (t.slot (.persistent c, .so 0)).ctx.isSome ↔ _
  rw [heffect.dirty, hsame.ctx, and_comm]
  refine and_congr Iff.rfl ⟨fun hor => ?_, ?_⟩
  · obtain ⟨l, hl, hw, hbit⟩ := hor.resolve_left fun hd => h.clean c ⟨_, hd⟩
    obtain ⟨hlive, hres⟩ := (mem_bindingHead hlists).1 hl
    obtain ⟨k, rfl⟩ := eq_so_of_delayed hbit (h.sync.fits _ hlive)
    exact ⟨k, hlive, hres, by simpa [wants] using hw⟩
  · rintro ⟨k, hlive, hres, hs⟩
    refine .inr ⟨.so k, (mem_bindingHead hlists).2 ⟨hlive, hres⟩, by simp [wants, hs], ?_⟩
    exact delayed_of_fits_so (h.sync.fits _ hlive)

theorem leading_scrubbed (h : ListsOk s) (heffect : Effect false (s.bindingHead r) s t)
    (hsame : SameTracks s t) {x : Content} {k : Fin 4} (hx : leading t c (.so k) = some x) :
    x.res ≠ r := by
  rintro rfl
  have hshown : shown t.valid (t.slot (.persistent c, .so k)) = some x := by
    unfold leading at hx
    dsimp only at hx
    split_ifs at hx
    exact hx
  obtain ⟨hlive, hs, hres⟩ := shown_eq_some hshown
  rw [hsame.ctx] at hlive
  rw [hsame.res] at hres
  rw [heffect.scrubbed ((mem_bindingHead h).2 ⟨hlive, hres⟩)] at hs
  cases hs

theorem resListScrub_so (h : Idle Φ s) (r c : ℕ) (k : Fin 4) :
    (SoSent s r c → ∀ x, (vmwBindingResListScrub r s).device c (.so k) = some x → x.res ≠ r) ∧
    (¬ SoSent s r c →
      (vmwBindingResListScrub r s).device c (.so k) = s.device c (.so k)) := by
  obtain ⟨u, heffect, hsame, hflushed⟩ := resListScrub_effect h.sync h.clean r
  have hresent : resent (u.cbs (.persistent c)) (.so k) = true ↔ SoSent s r c :=
    resent_so_iff h heffect hsame k
  rw [hflushed.array c (.so k) rfl]
  refine ⟨fun hsent x hx => ?_, fun hnot => ?_⟩
  · rw [if_pos (hresent.2 hsent)] at hx
    exact leading_scrubbed h.sync.ok.lists heffect hsame hx
  · rw [if_neg fun hr => hnot (hresent.1 hr), heffect.device, if_neg]
    rintro ⟨hmem, -, hnone⟩
    have hlive := (h.sync.ok.lists.heads r _ hmem).2.1
    rw [delayed_of_fits_so (h.sync.fits _ hlive)] at hnone
    cases hnone

/-- In every run: after a scrub of the bindings of a resource the device has it nowhere, if
    and only if before it, in each context where the device has it as a stream output target,
    the command for these targets could be sent. -/
theorem unbound_iff {ops : List DeviceOp} (h : Runs deviceStep anyLabel emptyManager ops s)
    (r : ℕ) :
    (∀ c l x, (vmwBindingResListScrub r s).device c l = some x → x.res ≠ r) ↔
    ∀ c k x, s.device c (.so k) = some x → x.res = r → SoSent s r c := by
  have hidle := idle_of_runs held_durable h
  constructor
  · intro hnone c k x hx hres
    by_contra hnot
    rw [← (resListScrub_so hidle r c k).2 hnot] at hx
    exact hnone c _ x hx hres
  · rintro hsent c l x hx rfl
    by_cases hso : ∃ k, l = .so k
    · obtain ⟨k, rfl⟩ := hso
      obtain ⟨hif, helse⟩ := resListScrub_so hidle x.res c k
      by_cases hs : SoSent s x.res c
      · exact hif hs x hx rfl
      · rw [helse hs] at hx
        exact hs (hsent c k x hx rfl)
    · have hafter := Idle.resListScrub held_durable hidle x.res
      obtain ⟨hlive, hs, hres⟩ := (hafter.rel c l).get (fun k hk => hso ⟨k, hk⟩) x hx
      have hsame := vmwBindingResListScrub_sameTracks x.res s
      rw [hsame.ctx] at hlive
      rw [hsame.res] at hres
      have hmem := (mem_bindingHead hidle.sync.ok.lists).2 ⟨hlive, hres⟩
      rw [resListScrub_scrubbed hidle.sync hidle.clean hmem] at hs
      cases hs

section Example

/-- Two stream output targets, and a texture that is one of them. -/
def bothTargets : List DeviceOp :=
  [.submit 1 [.soTargets [(some 5, [0, 64]), (some 6, [64, 64])]],
    .submit 2 [.single .tex (.tex 3) (some 6, [])], .scrub 2, .rebindAll 2]

def bothTargetsEnd : Manager := (exec deviceStep emptyManager bothTargets).getD emptyManager

theorem bothTargets_unbound :
    bothTargetsEnd.device 1 (.so 1) = some ⟨6, [64, 64]⟩ ∧
    bothTargetsEnd.device 2 (.tex 3) = some ⟨6, []⟩ ∧
    ((∀ c l x, (vmwBindingResListScrub 6 bothTargetsEnd).device c l = some x → x.res ≠ 6) ↔
      ∀ c k x, bothTargetsEnd.device c (.so k) = some x → x.res = 6 →
        SoSent bothTargetsEnd 6 c) := by
  have hrun : Runs deviceStep anyLabel emptyManager bothTargets bothTargetsEnd :=
    runs_getD (by decide +kernel)
  exact ⟨by decide +kernel, by decide +kernel, unbound_iff hrun 6⟩

def secondTarget : List DeviceOp :=
  [.submit 1 [.soTargets [(none, [0, 0]), (some 5, [0, 64])]]]

def secondTargetEnd : Manager := (exec deviceStep emptyManager secondTarget).getD emptyManager

/-- Nothing is sent, and the device keeps the target. -/
theorem secondTarget_kept : ¬ ∀ ops s r, Runs deviceStep anyLabel emptyManager ops s →
    ∀ c l x, (vmwBindingResListScrub r s).device c l = some x → x.res ≠ r := by
  intro h
  have hrun : Runs deviceStep anyLabel emptyManager secondTarget secondTargetEnd :=
    runs_getD (by decide +kernel)
  have hkept : (vmwBindingResListScrub 5 secondTargetEnd).device 1 (.so 1) =
      some ⟨5, [0, 64]⟩ := by decide +kernel
  exact h _ _ 5 hrun 1 (.so 1) _ hkept rfl

end Example

end Vmwgfx.BindingUnbind
