import Vmwgfx.BindingUnbind

set_option autoImplicit false

/-!
# Scrubbing and binding again

What the device has in the slots of a context after its bindings, or those of some
resources, were scrubbed and all of them bound again.
-/
namespace Vmwgfx.BindingRestore
open BindingSlots BindingMachine BindingLists BindingDirty BindingSync BindingScrub BindingTouch
open BindingUser BindingRuns BindingUnbind LabelledRuns

variable {s t u : Manager} {p q : SlotRef} {i : StateId} {l : Loc} {c r : ℕ}

/-- Outside the arrays that are sent as a whole, the device has what is tracked. -/
def exact : Relation := fun valid l x y => isArray l = false → y = shown valid x

theorem shown_of_ctx {valid : ℕ → Bool} {x : Slot} (h : x.ctx = none) : shown valid x = none := by
  simp [shown, h]

theorem shown_of_scrubbed {valid : ℕ → Bool} {x : Slot} (h : x.scrubbed = true) :
    shown valid x = none := by
  simp [shown, h]

theorem shown_of_live {valid : ℕ → Bool} {x : Slot} (hl : x.ctx.isSome) (hs : x.scrubbed = false) :
    shown valid x = idOf valid x x.data := by
  obtain ⟨k, hk⟩ := Option.isSome_iff_exists.1 hl
  simp [shown, hk, hs]

theorem exact_durable : Durable exact where
  shown valid l x _ := rfl
  empty valid l x harray hl := by
    rw [harray] at hl
    cases hl
  array valid l x data harray _ _ hl := by
    rw [harray] at hl
    cases hl
  unscrub valid l x y harray _ _ hl := by
    rw [harray] at hl
    cases hl
  drop valid l x x' y hx hctx h hl := by
    rw [h hl, shown_of_ctx hctx]
    rcases hx with hs | hres
    · exact shown_of_scrubbed hs
    · simp [shown, idOf, hres]
  links valid l x y k h hl := h hl
  so valid k x y hl := by cases hl
  ids valid valid' l x y hids h hl := by
    rw [h hl]
    unfold shown
    split_ifs with hcond
    · rfl
    · rw [Bool.or_eq_true, not_or] at hcond
      obtain ⟨hctx, hs⟩ := hcond
      unfold idOf
      rw [hids (by simpa [Option.isSome_iff_ne_none] using hctx) (by simpa using hs)]

/-- Which bindings are scrubbed: all of the context, or those of some resources. -/
inductive Scrub where
  | state
  | resources (rs : List ℕ)
  deriving DecidableEq, Repr

def scrubBy (c : ℕ) : Scrub → Manager → Manager
  | .state, s => vmwBindingStateScrub (.persistent c) s
  | .resources rs, s => rs.foldl (fun s r => vmwBindingResListScrub r s) s

def selects : Scrub → Slot → Bool
  | .state, _ => true
  | .resources rs, x => x.res.any fun r => decide (r ∈ rs)

/-- A binding that is scrubbed in between, now or already before. -/
def touched (scrub : Scrub) (x : Slot) : Bool := x.ctx.isSome && (x.scrubbed || selects scrub x)

/-- The array of the slot is sent again: one of the bindings that the command for it lists is
    touched, and the command sets the slot. -/
def Resent (s : Manager) (c : ℕ) (scrub : Scrub) (l : Loc) : Prop :=
  (∃ m, touched scrub (s.slot (.persistent c, m)) = true ∧
    delayed (s.slot (.persistent c, m)).bt = bitOf l) ∧
  reached (s.cbs (.persistent c)) l = true

def trackedAt (valid : ℕ → Bool) (x : Slot) : Option Content :=
  if x.ctx.isNone then none else idOf valid x x.data

/-- The tracked bindings of an array up to the first slot that is not bound. -/
def tracked (s : Manager) (c : ℕ) : Loc → Option Content
  | .rt i =>
    if ∀ j, j ≤ i.val → (rtAt (s.cbs (.persistent c)) j).ctx.isSome then
      trackedAt s.valid (s.slot (.persistent c, .rt i))
    else none
  | .so i =>
    if ∀ j, j ≤ i.val → (soAt (s.cbs (.persistent c)) j).ctx.isSome then
      trackedAt s.valid (s.slot (.persistent c, .so i))
    else none
  | l => trackedAt s.valid (s.slot (.persistent c, l))

section Scrubs

/-- The state after the scrub: which slots are scrubbed, and which slots of the arrays are as
    before. -/
structure ScrubbedBy (c : ℕ) (scrub : Scrub) (s u : Manager) : Prop where
  idle : Idle exact u
  same : SameTracks s u
  slot : ∀ l, (s.slot (.persistent c, l)).ctx.isSome → (u.slot (.persistent c, l)).scrubbed =
    ((s.slot (.persistent c, l)).scrubbed || selects scrub (s.slot (.persistent c, l)))
  array : ∀ l, isArray l = true → ¬ Resent s c scrub l →
    (touched scrub (s.slot (.persistent c, l)) = true →
      delayed (s.slot (.persistent c, l)).bt ≠ none) → u.device c l = s.device c l

theorem reached_same (h : SameTracks s t) :
    reached (t.cbs (.persistent c)) l = reached (s.cbs (.persistent c)) l := by
  unfold reached
  cases l with
  | so k => exact congrArg Option.isSome (h.ctx (.persistent c, .so 0))
  | _ => rfl

theorem array_of_effect {scrub : Scrub} {ps : List SlotRef} (hclean : Clean s)
    (heffect : Effect false ps s t) (hsame : SameTracks s t) (hflushed : Flushed t u)
    (hps : ∀ m, (.persistent c, m) ∈ ps → touched scrub (s.slot (.persistent c, m)) = true)
    (hl : isArray l = true) (hnot : ¬ Resent s c scrub l)
    (htouched : touched scrub (s.slot (.persistent c, l)) = true →
      delayed (s.slot (.persistent c, l)).bt ≠ none) : u.device c l = s.device c l := by
  rw [hflushed.array c l hl, if_neg, heffect.device, if_neg]
  · rintro ⟨hmem, -, hnone⟩
    exact htouched (hps l hmem) hnone
  · intro hresent
    unfold resent at hresent
    rw [Bool.and_eq_true_iff, Option.any_eq_true, reached_same hsame] at hresent
    obtain ⟨⟨bit, hbit, hd⟩, hreached⟩ := hresent
    obtain ⟨m, hm, -, hdelayed⟩ := ((heffect.dirty c bit).1 hd).resolve_left fun hd =>
      hclean c ⟨bit, hd⟩
    exact hnot ⟨⟨m, hps m hm, hdelayed.trans hbit.symm⟩, hreached⟩

theorem stateScrub_scrubbedBy (h : Idle exact s) (c : ℕ) :
    ScrubbedBy c .state s (vmwBindingStateScrub (.persistent c) s) := by
  obtain ⟨t, heffect, hsame, hflushed⟩ := stateScrub_effect h.sync h.clean c
  refine ⟨Idle.stateScrub exact_durable h c, vmwBindingStateScrub_sameTracks _ s, fun l hl => ?_,
    fun l => array_of_effect h.clean heffect hsame hflushed fun m hm => ?_⟩
  · rw [stateScrub_scrubbed h.sync h.clean hl]
    simp [selects]
  · have hlive := h.sync.ok.lists.entries_live _ hm
    simp [touched, hlive, selects]

theorem resListScrub_scrubbedBy (h : Idle exact s) (c r : ℕ) :
    ScrubbedBy c (.resources [r]) s (vmwBindingResListScrub r s) := by
  obtain ⟨t, heffect, hsame, hflushed⟩ := resListScrub_effect h.sync h.clean r
  have hlists := h.sync.ok.lists
  refine ⟨Idle.resListScrub exact_durable h r, vmwBindingResListScrub_sameTracks r s, fun l hl => ?_,
    fun l => array_of_effect h.clean heffect hsame hflushed fun m hm => ?_⟩
  · obtain ⟨r', hres, -, -⟩ := hlists.bound c l hl
    by_cases hr : r' = r
    · subst hr
      rw [resListScrub_scrubbed h.sync h.clean ((mem_bindingHead hlists).2 ⟨hl, hres⟩)]
      simp [selects, hres]
    · rw [hflushed.kept.slot, heffect.slot, if_neg]
      · simp [selects, hres, hr]
      · rintro ⟨hmem, -⟩
        have hres' := ((mem_bindingHead hlists).1 hmem).2
        rw [hres] at hres'
        exact hr (Option.some.inj hres')
  · obtain ⟨hlive, hres⟩ := (mem_bindingHead hlists).1 hm
    simp [touched, hlive, selects, hres]

theorem selects_cons (r : ℕ) (rs : List ℕ) (x : Slot) : selects (.resources (r :: rs)) x =
    (selects (.resources [r]) x || selects (.resources rs) x) := by
  change x.res.any _ = (x.res.any _ || x.res.any _)
  cases x.res with
  | none => rfl
  | some r' => simp [Bool.decide_or]

theorem selects_same (h : SameTracks s t) (scrub : Scrub) (p : SlotRef) :
    selects scrub (t.slot p) = selects scrub (s.slot p) := by
  cases scrub with
  | state => rfl
  | resources rs => exact congrArg (Option.any fun r => decide (r ∈ rs)) (h.res p)

theorem ScrubbedBy.cons {rs : List ℕ} (h : ScrubbedBy c (.resources [r]) s t)
    (h' : ScrubbedBy c (.resources rs) t u) : ScrubbedBy c (.resources (r :: rs)) s u := by
  have hslot : ∀ l, (s.slot (.persistent c, l)).ctx.isSome →
      (u.slot (.persistent c, l)).scrubbed = ((s.slot (.persistent c, l)).scrubbed ||
        selects (.resources (r :: rs)) (s.slot (.persistent c, l))) := by
    intro l hl
    rw [h'.slot l (by rwa [h.same.ctx]), h.slot l hl, selects_same h.same, selects_cons r rs,
      Bool.or_assoc]
  have hfirst : ∀ l, touched (.resources [r]) (s.slot (.persistent c, l)) = true →
      touched (.resources (r :: rs)) (s.slot (.persistent c, l)) = true := by
    intro l ht
    unfold touched at ht ⊢
    rw [selects_cons r rs]
    revert ht
    cases (s.slot (.persistent c, l)).ctx.isSome <;> cases (s.slot (.persistent c, l)).scrubbed <;>
      simp +contextual
  have hrest : ∀ l, touched (.resources rs) (t.slot (.persistent c, l)) = true →
      touched (.resources (r :: rs)) (s.slot (.persistent c, l)) = true := by
    intro l ht
    unfold touched at ht ⊢
    rw [Bool.and_eq_true_iff, h.same.ctx] at ht
    rw [h.slot l ht.1, selects_same h.same, Bool.or_assoc, ← selects_cons r rs] at ht
    rw [Bool.and_eq_true_iff]
    exact ht
  have hbt : ∀ l, (t.slot (.persistent c, l)).bt = (s.slot (.persistent c, l)).bt := by
    intro l
    obtain ⟨v, hv⟩ := h.same.slot (.persistent c, l)
    rw [hv]
  refine ⟨h'.idle, h.same.trans h'.same, hslot, fun l hl hnot htouched => ?_⟩
  refine (h'.array l hl (fun hr => hnot ?_) fun ht => ?_).trans (h.array l hl (fun hr => hnot ?_)
    fun ht => htouched (hfirst l ht))
  · obtain ⟨⟨m, hm, hd⟩, hreached⟩ := hr
    exact ⟨⟨m, hrest m hm, hbt m ▸ hd⟩, reached_same h.same ▸ hreached⟩
  · rw [hbt]
    exact htouched (hrest l ht)
  · obtain ⟨⟨m, hm, hd⟩, hreached⟩ := hr
    exact ⟨⟨m, hfirst m hm, hd⟩, hreached⟩

theorem scrubBy_scrubbedBy (h : Idle exact s) (c : ℕ) (scrub : Scrub) :
    ScrubbedBy c scrub s (scrubBy c scrub s) := by
  cases scrub with
  | state => exact stateScrub_scrubbedBy h c
  | resources rs =>
    induction rs generalizing s with
    | nil =>
      refine ⟨h, (Kept.refl s).sameTracks, fun l hl => ?_, fun _ _ _ _ => rfl⟩
      change (s.slot (.persistent c, l)).scrubbed = _
      cases hres : (s.slot (.persistent c, l)).res <;> simp [selects, hres]
    | cons r rs ih =>
      have hfirst := resListScrub_scrubbedBy h c r
      exact hfirst.cons (ih hfirst.idle)

end Scrubs

section Rebinds

/-- The slots and the arrays of the device after all bindings were made again. -/
structure ReboundBy (c : ℕ) (scrub : Scrub) (s u : Manager) : Prop where
  idle : Idle exact u
  same : SameTracks s u
  slot : ∀ l, (s.slot (.persistent c, l)).ctx.isSome → (u.slot (.persistent c, l)).scrubbed = false
  sent : ∀ l, isArray l = true → Resent s c scrub l → u.device c l = tracked s c l
  alone : ∀ l, isArray l = true → ¬ Resent s c scrub l →
    touched scrub (s.slot (.persistent c, l)) = true →
    delayed (s.slot (.persistent c, l)).bt = none →
    u.device c l = idOf s.valid (s.slot (.persistent c, l)) (boundData (s.slot (.persistent c, l)))
  kept : ∀ l, isArray l = true → ¬ Resent s c scrub l →
    (touched scrub (s.slot (.persistent c, l)) = true →
      delayed (s.slot (.persistent c, l)).bt ≠ none) → u.device c l = s.device c l

theorem leading_tracked (hsame : SameTracks s t)
    (hslot : ∀ l, (s.slot (.persistent c, l)).ctx.isSome →
      (t.slot (.persistent c, l)).scrubbed = false) (l : Loc) : leading t c l = tracked s c l := by
  have hshown : ∀ l, shown t.valid (t.slot (.persistent c, l)) =
      trackedAt s.valid (s.slot (.persistent c, l)) := by
    intro l
    obtain ⟨v, hv⟩ := hsame.slot (.persistent c, l)
    unfold shown trackedAt
    by_cases hl : (s.slot (.persistent c, l)).ctx.isSome
    · rw [hslot l hl, hsame.valid, hv, Bool.or_false]
      rfl
    · have hdead : (s.slot (.persistent c, l)).ctx = none := by simpa using hl
      rw [hv]
      simp [hdead]
  cases l with
  | rt i =>
    refine if_congr (forall_congr' fun j => imp_congr Iff.rfl ?_) (hshown _) rfl
    exact Eq.congr_left (congrArg Option.isSome (hsame.ctx (.persistent c, .rt (Fin.ofNat 10 j))))
  | so i =>
    refine if_congr (forall_congr' fun j => imp_congr Iff.rfl ?_) (hshown _) rfl
    exact Eq.congr_left (congrArg Option.isSome (hsame.ctx (.persistent c, .so (Fin.ofNat 4 j))))
  | _ => exact hshown _

theorem ScrubbedBy.entries {scrub : Scrub} (h : ScrubbedBy c scrub s t) (l : Loc) :
    (.persistent c, l) ∈ t.entries (.persistent c) ↔ (s.slot (.persistent c, l)).ctx.isSome := by
  rw [← h.same.ctx, h.idle.sync.ok.lists.live]
  simp [Manager.entries]

theorem ScrubbedBy.bt {scrub : Scrub} (h : ScrubbedBy c scrub s t) (l : Loc) :
    (t.slot (.persistent c, l)).bt = (s.slot (.persistent c, l)).bt := by
  obtain ⟨v, hv⟩ := h.same.slot (.persistent c, l)
  rw [hv]

theorem ScrubbedBy.wants {scrub : Scrub} (h : ScrubbedBy c scrub s t) {l : Loc}
    (hvalid : ((s.slot (.persistent c, l)).res.filter s.valid).isSome)
    (hl : (s.slot (.persistent c, l)).ctx.isSome) :
    wants true t (t.slot (.persistent c, l)) = touched scrub (s.slot (.persistent c, l)) := by
  change needsRebind t (t.slot (.persistent c, l)) = _
  unfold needsRebind touched
  rw [h.slot l hl, h.same.res, h.same.valid, hvalid, hl, Bool.and_true, Bool.true_and]

theorem rebindAll_reboundBy {scrub : Scrub} (h : ScrubbedBy c scrub s t)
    (hvalid : ∀ l, (s.slot (.persistent c, l)).ctx.isSome →
      ((s.slot (.persistent c, l)).res.filter s.valid).isSome) :
    ReboundBy c scrub s (vmwBindingRebindAll (.persistent c) t) := by
  obtain ⟨w, heffect, hsame, hflushed⟩ := rebindAll_effect h.idle.sync h.idle.clean c
  have hentries := h.entries
  have hbt := h.bt
  have hwants := fun l hl => h.wants (hvalid l hl) hl
  have hall := h.same.trans hsame
  have hunscrubbed : ∀ l, (s.slot (.persistent c, l)).ctx.isSome →
      (w.slot (.persistent c, l)).scrubbed = false := by
    intro l hl
    rw [heffect.slot, hwants l hl]
    split_ifs with hw
    · rfl
    · rw [h.slot l hl]
      simpa [touched, hl, (hentries l).2 hl] using hw
  have hresent : ∀ l, isArray l = true →
      (resent (w.cbs (.persistent c)) l = true ↔ Resent s c scrub l) := by
    intro l hl
    unfold resent
    rw [Bool.and_eq_true_iff, Option.any_eq_true, reached_same hall]
    refine and_congr ⟨?_, ?_⟩ Iff.rfl
    · rintro ⟨bit, hbit, hd⟩
      obtain ⟨m, hm, hw, hdelayed⟩ := ((heffect.dirty c bit).1 hd).resolve_left fun hd =>
        h.idle.clean c ⟨bit, hd⟩
      rw [hwants m ((hentries m).1 hm)] at hw
      rw [hbt] at hdelayed
      exact ⟨m, hw, hdelayed.trans hbit.symm⟩
    · rintro ⟨m, hm, hdelayed⟩
      obtain ⟨bit, hbit⟩ : ∃ bit, bitOf l = some bit := by
        cases l <;> first | exact ⟨_, rfl⟩ | cases hl
      have hlive := (Bool.and_eq_true_iff.1 hm).1
      refine ⟨bit, hbit, (heffect.dirty c bit).2 (.inr ⟨m, (hentries m).2 hlive, ?_, ?_⟩)⟩
      · rw [hwants m hlive]
        exact hm
      · rw [hbt]
        exact hdelayed.trans hbit
  have hbefore : ∀ l, w.device c l =
      if touched scrub (s.slot (.persistent c, l)) = true ∧
        delayed (s.slot (.persistent c, l)).bt = none then
      idOf s.valid (s.slot (.persistent c, l)) (boundData (s.slot (.persistent c, l)))
      else t.device c l := by
    intro l
    obtain ⟨v, hv⟩ := h.same.slot (.persistent c, l)
    have hsent : sent true t.valid (t.slot (.persistent c, l)) =
        idOf s.valid (s.slot (.persistent c, l)) (boundData (s.slot (.persistent c, l))) := by
      rw [hv, h.same.valid]
      rfl
    rw [heffect.device, hsent, hbt]
    refine if_congr ⟨fun ⟨hm, hw, hd⟩ => ?_, fun ⟨ht, hd⟩ => ?_⟩ rfl rfl
    · rw [hwants l ((hentries l).1 hm)] at hw
      exact ⟨hw, hd⟩
    · have hlive := (Bool.and_eq_true_iff.1 ht).1
      exact ⟨(hentries l).2 hlive, (hwants l hlive).trans ht, hd⟩
  refine ⟨Idle.rebindAll exact_durable h.idle c,
    h.same.trans (vmwBindingRebindAll_sameTracks _ t), fun l hl => ?_, fun l hl hr => ?_,
    fun l hl hr ht hd => ?_, fun l hl hr ht => ?_⟩
  · rw [hflushed.kept.slot]
    exact hunscrubbed l hl
  · rw [hflushed.array c l hl, if_pos ((hresent l hl).2 hr)]
    exact leading_tracked hall hunscrubbed l
  · rw [hflushed.array c l hl, if_neg fun h => hr ((hresent l hl).1 h), hbefore l,
      if_pos ⟨ht, hd⟩]
  · rw [hflushed.array c l hl, if_neg fun h => hr ((hresent l hl).1 h), hbefore l,
      if_neg fun h => ht h.1 h.2]
    exact h.array l hl hr ht

end Rebinds

/-- The states of a context that a scrub and a rebind leave as they are. Outside the arrays no
    binding was scrubbed before; in the arrays that are sent again the device has the tracked
    bindings, and none after an unbound slot; and a render target that is bound again by
    itself was bound with face 0 and mipmap 0. -/
structure Restorable (s : Manager) (c : ℕ) (scrub : Scrub) : Prop where
  unscrubbed : ∀ l, isArray l = false → (s.slot (.persistent c, l)).ctx.isSome →
    (s.slot (.persistent c, l)).scrubbed = false
  arrays : ∀ l, isArray l = true → Resent s c scrub l → s.device c l = tracked s c l
  targets : ∀ k, ¬ Resent s c scrub (.rt k) →
    touched scrub (s.slot (.persistent c, .rt k)) = true →
    (s.slot (.persistent c, .rt k)).bt = .rt →
    ∃ r, (s.slot (.persistent c, .rt k)).res = some r ∧ s.device c (.rt k) = some ⟨r, [0, 0]⟩

section Restoring

theorem idOf_of_valid {valid : ℕ → Bool} {x : Slot} (data : List ℕ)
    (h : (x.res.filter valid).isSome) : ∃ r, x.res = some r ∧ idOf valid x data = some ⟨r, data⟩ := by
  obtain ⟨r, hr⟩ := Option.isSome_iff_exists.1 h
  exact ⟨r, (Option.filter_eq_some_iff.1 hr).1, by simp [idOf, hr]⟩

theorem restored_single {scrub : Scrub} (hs : Idle exact s) (h : ReboundBy c scrub s t)
    (hvalid : (s.slot (.persistent c, l)).ctx.isSome →
      ((s.slot (.persistent c, l)).res.filter s.valid).isSome) (hl : isArray l = false) :
    t.device c l = s.device c l ↔ ((s.slot (.persistent c, l)).ctx.isSome →
      (s.slot (.persistent c, l)).scrubbed = false) := by
  rw [h.idle.rel c l hl, hs.rel c l hl, h.same.valid]
  obtain ⟨v, hv⟩ := h.same.slot (.persistent c, l)
  by_cases hlive : (s.slot (.persistent c, l)).ctx.isSome
  · have hv' : v = false := by
      have := h.slot l hlive
      rwa [hv] at this
    obtain ⟨r, hres, hid⟩ := idOf_of_valid (s.slot (.persistent c, l)).data (hvalid hlive)
    have hafter : shown s.valid (t.slot (.persistent c, l)) =
        some ⟨r, (s.slot (.persistent c, l)).data⟩ := by
      rw [hv, hv', ← hid]
      exact shown_of_live hlive rfl
    rw [hafter]
    constructor
    · intro heq _
      exact (shown_eq_some heq.symm).2.1
    · intro hfalse
      rw [← hid, shown_of_live hlive (hfalse hlive)]
  · have hdead : (s.slot (.persistent c, l)).ctx = none := by simpa using hlive
    rw [shown_of_ctx hdead, shown_of_ctx (by rw [hv]; exact hdead)]
    simp [hdead]

theorem eq_rt_of_single {bt : BindingType} (hl : isArray l = true) (hfits : fits bt l = true)
    (hbit : delayed bt = none) : bt = .rt ∧ ∃ k, l = .rt k := by
  cases l with
  | rt k =>
    cases bt with
    | rt => exact ⟨rfl, k, rfl⟩
    | dxRt => cases hbit
    | _ => cases hfits
  | ds =>
    cases bt with
    | ds => cases hbit
    | _ => cases hfits
  | so k =>
    rw [delayed_of_fits_so hfits] at hbit
    cases hbit
  | _ => cases hl

theorem restored_array_iff {scrub : Scrub} (hs : Idle exact s) (h : ReboundBy c scrub s t)
    (hvalid : ∀ l, (s.slot (.persistent c, l)).ctx.isSome →
      ((s.slot (.persistent c, l)).res.filter s.valid).isSome) (hl : isArray l = true) :
    t.device c l = s.device c l ↔
      (Resent s c scrub l → s.device c l = tracked s c l) ∧
      (¬ Resent s c scrub l → touched scrub (s.slot (.persistent c, l)) = true →
        (s.slot (.persistent c, l)).bt = .rt → ∃ r, (s.slot (.persistent c, l)).res = some r ∧
          s.device c l = some ⟨r, [0, 0]⟩) := by
  by_cases hr : Resent s c scrub l
  · rw [h.sent l hl hr]
    exact ⟨fun heq => ⟨fun _ => heq.symm, fun hn => absurd hr hn⟩, fun hif => (hif.1 hr).symm⟩
  · by_cases ht : touched scrub (s.slot (.persistent c, l)) = true ∧
        delayed (s.slot (.persistent c, l)).bt = none
    · obtain ⟨ht, hd⟩ := ht
      have hlive := (Bool.and_eq_true_iff.1 ht).1
      obtain ⟨hrt, -⟩ := eq_rt_of_single hl (hs.sync.fits _ hlive) hd
      obtain ⟨r, hres, hid⟩ := idOf_of_valid (boundData (s.slot (.persistent c, l))) (hvalid l hlive)
      have hdata : boundData (s.slot (.persistent c, l)) = [0, 0] := if_pos hrt
      rw [h.alone l hl hr ht hd, hid, hdata]
      constructor
      · exact fun heq => ⟨fun h => absurd h hr, fun _ _ _ => ⟨r, hres, heq.symm⟩⟩
      · rintro ⟨-, htarget⟩
        obtain ⟨r', hres', heq⟩ := htarget hr ht hrt
        rw [hres] at hres'
        cases hres'
        exact heq.symm
    · rw [h.kept l hl hr fun h₁ h₂ => ht ⟨h₁, h₂⟩]
      refine ⟨fun _ => ⟨fun h => absurd h hr, fun _ h₁ hrt => absurd ⟨h₁, ?_⟩ ht⟩, fun _ => rfl⟩
      rw [hrt]
      rfl

/-- In every run, if all bound resources of a context have an id: scrubbing its bindings, or
    those of some resources, and binding all again restores the slots of the device if and
    only if the state was restorable. -/
theorem restored_iff {ops : List DeviceOp} (h : Runs deviceStep anyLabel emptyManager ops s)
    (c : ℕ) (scrub : Scrub)
    (hvalid : ∀ l, (s.slot (.persistent c, l)).ctx ≠ none →
      ∃ r, (s.slot (.persistent c, l)).res = some r ∧ s.valid r = true) :
    (vmwBindingRebindAll (.persistent c) (scrubBy c scrub s)).device c = s.device c ↔
      Restorable s c scrub := by
  have hidle := idle_of_runs exact_durable h
  have hvalid' : ∀ l, (s.slot (.persistent c, l)).ctx.isSome →
      ((s.slot (.persistent c, l)).res.filter s.valid).isSome := by
    intro l hl
    obtain ⟨r, hres, hr⟩ := hvalid l (Option.isSome_iff_ne_none.1 hl)
    simp [hres, hr]
  have hrebound := rebindAll_reboundBy (scrubBy_scrubbedBy hidle c scrub) hvalid'
  rw [funext_iff]
  constructor
  · intro heq
    refine ⟨fun l hl => (restored_single hidle hrebound (hvalid' l) hl).1 (heq l), fun l hl => ?_,
      fun k => ?_⟩
    · exact ((restored_array_iff hidle hrebound hvalid' hl).1 (heq l)).1
    · exact ((restored_array_iff (l := .rt k) hidle hrebound hvalid' rfl).1 (heq _)).2
  · intro hcond l
    cases hl : isArray l with
    | false => exact (restored_single hidle hrebound (hvalid' l) hl).2 (hcond.unscrubbed l hl)
    | true =>
      refine (restored_array_iff hidle hrebound hvalid' hl).2 ⟨hcond.arrays l hl, fun hr ht hrt => ?_⟩
      have hlive := (Bool.and_eq_true_iff.1 ht).1
      obtain ⟨-, k, rfl⟩ := eq_rt_of_single hl (hidle.sync.fits _ hlive) (by rw [hrt]; rfl)
      exact hcond.targets k hr ht hrt

end Restoring

section Example

/-- A constant buffer, two shader resource views with a free slot between them, and two render
    targets. -/
def drawState : List DeviceOp :=
  [.submit 1 [.single .cb (.cb 1 3) (some 7, [16, 256]), .shaderResources 2 4 [some 8, none, some 9],
    .renderTargets (some 3) [some 4, some 6]]]

def drawStateEnd : Manager := (exec deviceStep emptyManager drawState).getD emptyManager

theorem drawState_run : Runs deviceStep anyLabel emptyManager drawState drawStateEnd :=
  runs_getD (by decide +kernel)

theorem submitted_valid {cmds : List UserCmd} {k : ℕ}
    (h : Runs deviceStep anyLabel emptyManager [.submit k cmds] s) (c : ℕ) (l : Loc)
    (hl : (s.slot (.persistent c, l)).ctx ≠ none) :
    ∃ r, (s.slot (.persistent c, l)).res = some r ∧ s.valid r = true := by
  obtain ⟨r, hres, -⟩ := (idle_of_runs exact_durable h).sync.ok.lists.bound c l
    (Option.isSome_iff_ne_none.2 hl)
  refine ⟨r, hres, ?_⟩
  cases h with
  | next _ hstep htail =>
    cases htail
    rw [submit_valid hstep]
    rfl

theorem drawState_restored :
    (drawStateEnd.device 1 (.sr 2 6) = some ⟨9, []⟩ ∧
      (vmwBindingRebindAll (.persistent 1) (scrubBy 1 .state drawStateEnd)).device 1 (.sr 2 6) =
        some ⟨9, []⟩) ∧
    ((vmwBindingRebindAll (.persistent 1) (scrubBy 1 .state drawStateEnd)).device 1 =
        drawStateEnd.device 1 ↔ Restorable drawStateEnd 1 .state) :=
  ⟨by decide +kernel,
    restored_iff drawState_run 1 .state (submitted_valid drawState_run 1)⟩

def holeState : List DeviceOp := [.submit 1 [.renderTargets none [some 4, none, some 6]]]

def holeStateEnd : Manager := (exec deviceStep emptyManager holeState).getD emptyManager

/-- The third render target is not bound again. -/
theorem holeState_lost : ¬ ∀ ops s c scrub, Runs deviceStep anyLabel emptyManager ops s →
    (∀ l, (s.slot (.persistent c, l)).ctx ≠ none →
      ∃ r, (s.slot (.persistent c, l)).res = some r ∧ s.valid r = true) →
    (vmwBindingRebindAll (.persistent c) (scrubBy c scrub s)).device c = s.device c := by
  intro h
  have hrun : Runs deviceStep anyLabel emptyManager holeState holeStateEnd :=
    runs_getD (by decide +kernel)
  have heq := congrFun (h _ _ 1 .state hrun (submitted_valid hrun 1)) (.rt 2)
  have hbefore : holeStateEnd.device 1 (.rt 2) = some ⟨6, []⟩ := by decide +kernel
  have hafter : (vmwBindingRebindAll (.persistent 1) (scrubBy 1 .state holeStateEnd)).device 1
      (.rt 2) = none := by decide +kernel
  rw [hbefore, hafter] at heq
  cases heq

end Example

end Vmwgfx.BindingRestore
