import Vmwgfx.BindingScrub

set_option autoImplicit false

/-!
# What the loops over slots do

Scrubbing and binding again are one loop with two tests. Its effect on the slots, the dirty
bits and the device is given exactly, and so is that of the delayed commands for the arrays
that are sent as a whole.
-/
namespace Vmwgfx.BindingTouch
open BindingSlots BindingMachine BindingLists BindingDirty BindingSync BindingScrub

variable {Φ : Relation} {s t : Manager} {p q : SlotRef} {i : StateId} {l : Loc} {c r : ℕ}

section Loops

/-- The slots that a loop acts on: those not yet scrubbed, or those that are bound again. -/
def wants (rebind : Bool) (s : Manager) (x : Slot) : Bool :=
  if rebind then needsRebind s x else !x.scrubbed

def touch (rebind : Bool) (p : SlotRef) (s : Manager) : Manager :=
  if wants rebind s (s.slot p) then setScrubbed p (!rebind) (scrubFunc p rebind s).2 else s

def touchAll (rebind : Bool) (ps : List SlotRef) (s : Manager) : Manager :=
  ps.foldl (fun s p => touch rebind p s) s

def sent (rebind : Bool) (valid : ℕ → Bool) (x : Slot) : Option Content :=
  if rebind then idOf valid x (boundData x) else none

def anyRelation : Relation := fun _ _ _ _ => True

theorem anyRelation_emittable : Emittable anyRelation :=
  ⟨fun _ _ _ => trivial, fun _ _ _ _ => trivial, fun _ _ _ _ _ _ _ => trivial,
    fun _ _ _ _ _ _ _ => trivial, fun _ _ _ _ _ _ _ _ => trivial, fun _ _ _ _ _ _ => trivial⟩

theorem inSync_any (h : InSync Φ s) : InSync anyRelation s :=
  ⟨h.ok, h.fits, h.calm, fun _ _ => .inr trivial⟩

theorem touch_inSync (h : InSync anyRelation s) (hp : Bound s p) (rebind : Bool) :
    InSync anyRelation (touch rebind p s) := by
  obtain ⟨⟨c, hc⟩, hlive⟩ := hp
  obtain ⟨i, l⟩ := p
  cases hc
  unfold touch
  split_ifs
  · exact h.entry hlive rebind _ (fun _ => trivial) fun _ _ => .inr trivial
  · exact h

theorem touch_sameTracks (rebind : Bool) (p : SlotRef) (s : Manager) :
    SameTracks s (touch rebind p s) := by
  unfold touch
  split_ifs
  · exact (scrubFunc_kept p rebind s).sameTracks.trans (setScrubbed_sameTracks p _ _)
  · exact (Kept.refl s).sameTracks

theorem wants_eq {rebind : Bool} (hvalid : t.valid = s.valid) (x : Slot) :
    wants rebind t x = wants rebind s x := by
  unfold wants needsRebind
  rw [hvalid]

theorem scrubAll_eq (ps : List SlotRef) (s : Manager) : scrubAll ps s = touchAll false ps s := by
  have hentry : ∀ p (s : Manager), scrubEntry p s = touch false p s := by
    intro p s
    unfold scrubEntry touch wants
    cases (s.slot p).scrubbed <;> rfl
  unfold scrubAll touchAll
  simp only [hentry]

theorem rebindEntries_eq {ps : List SlotRef} (h : InSync anyRelation s)
    (hps : ∀ p ∈ ps, Bound s p) : rebindEntries ps s = (true, touchAll true ps s) := by
  induction ps generalizing s with
  | nil => rfl
  | cons p ps ih =>
    have hp := hps p List.mem_cons_self
    have hrest := ih (touch_inSync h hp true) fun q hq =>
      SameTracks.bound (touch_sameTracks true p s) (hps q (List.mem_cons_of_mem _ hq))
    have hret : (scrubFunc p true s).1 = true := by
      obtain ⟨⟨c, hc⟩, hlive⟩ := hp
      obtain ⟨i, l⟩ := p
      cases hc
      rcases scrubFunc_cases h.ok h.calm hlive true with ⟨bit, -, hrun⟩ | ⟨-, hrun⟩ <;> rw [hrun]
    change _ = (true, touchAll true ps (touch true p s))
    rw [← hrest]
    conv_lhs => unfold rebindEntries
    unfold touch wants
    dsimp only
    rw [if_pos rfl, if_pos hret]
    by_cases hneeds : needsRebind s (s.slot p) = true
    · rw [if_pos hneeds, if_pos hneeds]
      rfl
    · rw [if_neg hneeds, if_neg hneeds]

theorem touchAll_sameTracks (rebind : Bool) (ps : List SlotRef) (s : Manager) :
    SameTracks s (touchAll rebind ps s) :=
  sameTracks_foldl (fun s p => touch_sameTracks rebind p s) ps s

/-- Which slots a loop has changed, the marks that it has left and what it has sent. -/
structure Effect (rebind : Bool) (ps : List SlotRef) (s t : Manager) : Prop where
  slot : ∀ q, t.slot q = if q ∈ ps ∧ wants rebind s (s.slot q) = true then
    { s.slot q with scrubbed := !rebind } else s.slot q
  dirty : ∀ c bit, (t.cbs (.persistent c)).dirty bit = true ↔
    (s.cbs (.persistent c)).dirty bit = true ∨ ∃ l, (.persistent c, l) ∈ ps ∧
      wants rebind s (s.slot (.persistent c, l)) = true ∧
      delayed (s.slot (.persistent c, l)).bt = some bit
  device : ∀ c l, t.device c l = if (.persistent c, l) ∈ ps ∧
      wants rebind s (s.slot (.persistent c, l)) = true ∧
      delayed (s.slot (.persistent c, l)).bt = none then
    sent rebind s.valid (s.slot (.persistent c, l)) else s.device c l

theorem dirty_setScrubbed {v : Bool} : ((setScrubbed p v s).cbs i).dirty = (s.cbs i).dirty := by
  by_cases hi : i = p.1
  · subst hi
    rw [cbs_setScrubbed_self]
    rfl
  · rw [cbs_setScrubbed_of_ne hi]

theorem touch_effect (h : InSync anyRelation s) (hp : Bound s p) (rebind : Bool) :
    Effect rebind [p] s (touch rebind p s) := by
  obtain ⟨⟨c, hc⟩, hlive⟩ := hp
  obtain ⟨i, l⟩ := p
  cases hc
  unfold touch
  by_cases hw : wants rebind s (s.slot (.persistent c, l)) = true
  · rw [if_pos hw]
    have hkept := scrubFunc_kept (.persistent c, l) rebind s
    refine ⟨fun q => ?_, fun c' bit => ?_, fun c' m => ?_⟩
    · rw [slot_setScrubbed, hkept.slot, hkept.slot]
      by_cases hq : q = (.persistent c, l)
      · subst hq
        rw [if_pos rfl, if_pos ⟨List.mem_singleton_self _, hw⟩]
      · rw [if_neg hq, if_neg fun hm => hq (List.mem_singleton.1 hm.1)]
    · rw [dirty_setScrubbed]
      rcases scrubFunc_cases h.ok h.calm hlive rebind with ⟨bit', hbit, hrun⟩ | ⟨hbit, hrun⟩
      · rw [hrun]
        by_cases hcc : c' = c
        · subst hcc
          dsimp only
          rw [cbs_setCbs_self, markDirty_dirty]
          by_cases hb : bit = bit'
          · subst hb
            simp [hw, hbit]
          · have hne : ¬ bit' = bit := fun he => hb he.symm
            simp [hb, hne, hbit]
        · dsimp only
          rw [cbs_setCbs_of_ne (by simpa using hcc)]
          simp [hcc]
      · rw [hrun]
        have hnone : ∀ m, (.persistent c', m) ∈ [((.persistent c, l) : SlotRef)] →
            delayed (s.slot (.persistent c', m)).bt ≠ some bit := by
          intro m hm
          rw [List.mem_singleton.1 hm, hbit]
          exact fun he => by cases he
        refine ⟨.inl, fun hor => hor.resolve_right ?_⟩
        rintro ⟨m, hm, -, hd⟩
        exact hnone m hm hd
    · change (scrubFunc (.persistent c, l) rebind s).2.device c' m = _
      rcases scrubFunc_cases h.ok h.calm hlive rebind with ⟨bit', hbit, hrun⟩ | ⟨hbit, hrun⟩
      · rw [hrun, if_neg]
        · rfl
        · rintro ⟨hm, -, hd⟩
          rw [List.mem_singleton.1 hm, hbit] at hd
          cases hd
      · rw [hrun]
        dsimp only
        rw [exec_single]
        by_cases hcm : c' = c ∧ m = l
        · obtain ⟨rfl, rfl⟩ := hcm
          have hmem : (.persistent c', m) ∈ [((.persistent c', m) : SlotRef)] :=
            List.mem_singleton_self _
          rw [if_pos (⟨rfl, rfl⟩ : c' = c' ∧ m = m)]
          change sent rebind s.valid (s.slot (.persistent c', m)) = _
          rw [if_pos ⟨hmem, hw, hbit⟩]
        · rw [if_neg hcm, if_neg]
          rintro ⟨hm, -⟩
          exact hcm (by simpa using hm)
  · rw [if_neg hw]
    refine ⟨fun q => ?_, fun c' bit => ?_, fun c' m => ?_⟩
    · rw [if_neg]
      rintro ⟨hm, hwq⟩
      rw [List.mem_singleton.1 hm] at hwq
      exact hw hwq
    · refine ⟨.inl, fun hor => hor.resolve_right ?_⟩
      rintro ⟨m, hm, hwq, -⟩
      rw [List.mem_singleton.1 hm] at hwq
      exact hw hwq
    · rw [if_neg]
      rintro ⟨hm, hwq, -⟩
      rw [List.mem_singleton.1 hm] at hwq
      exact hw hwq

theorem touchAll_effect {ps : List SlotRef} (h : InSync anyRelation s) (hnodup : ps.Nodup)
    (hps : ∀ p ∈ ps, Bound s p) (rebind : Bool) :
    InSync anyRelation (touchAll rebind ps s) ∧ Effect rebind ps s (touchAll rebind ps s) := by
  induction ps generalizing s with
  | nil => exact ⟨h, fun q => by simp [touchAll], fun c bit => by simp [touchAll],
      fun c l => by simp [touchAll]⟩
  | cons p ps ih =>
    rw [List.nodup_cons] at hnodup
    have hp := hps p List.mem_cons_self
    have hsame := touch_sameTracks rebind p s
    have hfirst := touch_effect h hp rebind
    obtain ⟨hsync, hrest⟩ := ih (touch_inSync h hp rebind) hnodup.2 fun q hq =>
      SameTracks.bound hsame (hps q (List.mem_cons_of_mem _ hq))
    change InSync anyRelation (touchAll rebind ps (touch rebind p s)) ∧
      Effect rebind (p :: ps) s (touchAll rebind ps (touch rebind p s))
    generalize hu : touch rebind p s = u at *
    have hslot : ∀ q, q ≠ p → u.slot q = s.slot q := by
      intro q hq
      rw [hfirst.slot, if_neg fun hm => hq (List.mem_singleton.1 hm.1)]
    have hother : ∀ q ∈ ps, q ≠ p := by
      rintro q hq rfl
      exact hnodup.1 hq
    refine ⟨hsync, fun q => ?_, fun c bit => ?_, fun c l => ?_⟩
    · rw [hrest.slot, wants_eq hsame.valid]
      by_cases hq : q = p
      · subst hq
        rw [if_neg fun hm => hnodup.1 hm.1, hfirst.slot]
        simp
      · rw [hslot q hq]
        simp [hq]
    · rw [hrest.dirty, hfirst.dirty]
      constructor
      · rintro ((hd | ⟨l, hl, hw, hd⟩) | ⟨l, hl, hw, hd⟩)
        · exact .inl hd
        · exact .inr ⟨l, List.mem_cons.2 (.inl (List.mem_singleton.1 hl)), hw, hd⟩
        · rw [wants_eq hsame.valid, hslot _ (hother _ hl)] at hw
          rw [hslot _ (hother _ hl)] at hd
          exact .inr ⟨l, List.mem_cons_of_mem _ hl, hw, hd⟩
      · rintro (hd | ⟨l, hl, hw, hd⟩)
        · exact .inl (.inl hd)
        · rcases List.mem_cons.1 hl with hl | hl
          · exact .inl (.inr ⟨l, List.mem_singleton.2 hl, hw, hd⟩)
          · refine .inr ⟨l, hl, ?_, ?_⟩
            · rw [wants_eq hsame.valid, hslot _ (hother _ hl)]
              exact hw
            · rw [hslot _ (hother _ hl)]
              exact hd
    · rw [hrest.device, hfirst.device, wants_eq hsame.valid, hsame.valid]
      by_cases hq : (.persistent c, l) = p
      · rw [if_neg fun hm => hnodup.1 (hq ▸ hm.1)]
        simp [hq]
      · rw [hslot _ hq]
        simp [hq]

end Loops

section Arrays

/-- What a command for a whole array says about a slot: nothing after the first slot that is
    not bound. -/
def leading (s : Manager) (c : ℕ) : Loc → Option Content
  | .rt i =>
    if ∀ j, j ≤ i.val → (rtAt (s.cbs (.persistent c)) j).ctx.isSome then
      shown s.valid (s.slot (.persistent c, .rt i))
    else none
  | .so i =>
    if ∀ j, j ≤ i.val → (soAt (s.cbs (.persistent c)) j).ctx.isSome then
      shown s.valid (s.slot (.persistent c, .so i))
    else none
  | l => shown s.valid (s.slot (.persistent c, l))

/-- Whether the command for the array sets the slot: there are ten older render targets, and
    without the first stream output target there is no command. -/
def reached (b : Cbs) : Loc → Bool
  | .rt i => decide (i.val < 8)
  | .so _ => (b.slots (.so 0)).ctx.isSome
  | _ => true

def resent (b : Cbs) (l : Loc) : Bool := (bitOf l).any b.dirty && reached b l

theorem leading_kept (h : Kept s t) : leading t c l = leading s c l := by
  unfold leading
  cases l with
  | rt i =>
    simp only [h.valid, h.slot]
    exact if_congr (by simp only [rtAt, h.slots]) rfl rfl
  | so i =>
    simp only [h.valid, h.slot]
    exact if_congr (by simp only [soAt, h.slots]) rfl rfl
  | _ => simp only [h.valid, h.slot]

theorem reached_kept (h : Kept s t) : reached (t.cbs i) l = reached (s.cbs i) l := by
  unfold reached
  cases l <;> simp only [h.slots]

theorem emitShaders_array (hctx : vmwCbsContext (s.cbs (.persistent c)) = some c) (hfine : Fine s)
    (hl : isArray l = true) (shs : List (Fin 3)) :
    (emitShaders (.persistent c) shs s).device c l = s.device c l ∧
    ((emitShaders (.persistent c) shs s).cbs (.persistent c)).dirty =
      (s.cbs (.persistent c)).dirty := by
  induction shs generalizing s with
  | nil => exact ⟨rfl, rfl⟩
  | cons sh shs ih =>
    have hfine' := vmwEmitSetSr_fine (by rw [hctx]; rfl) hfine sh
    have hdirty : ((vmwEmitSetSr (.persistent c) sh s).2.cbs (.persistent c)).dirty =
        (s.cbs (.persistent c)).dirty := by
      unfold vmwEmitSetSr
      dsimp only
      split_ifs
      · rw [cbs_setCbs_self]
      · rw [(sendSome_cbs _ _ _ s).1]
    have hdev : (vmwEmitSetSr (.persistent c) sh s).2.device c l = s.device c l := by
      rw [vmwEmitSetSr_device hctx hfine]
      cases l with
      | sr _ _ => cases hl
      | _ => rfl
    unfold emitShaders
    dsimp only
    rw [if_pos hfine'.1]
    split_ifs
    · have hkept := (vmwEmitSetSr_kept (.persistent c) sh s).trans (kept_setCbs (i := .persistent c)
        (b := { (vmwEmitSetSr (.persistent c) sh s).2.cbs (.persistent c) with
          dirtyPs := Function.update ((vmwEmitSetSr (.persistent c) sh s).2.cbs
            (.persistent c)).dirtyPs sh false }) rfl rfl)
      have hctx' := hkept.vmwCbsContext_eq.trans hctx
      refine ⟨(ih hctx' hfine'.2).1.trans hdev, (ih hctx' hfine'.2).2.trans ?_⟩
      rw [cbs_setCbs_self]
      exact hdirty
    · exact ih hctx hfine

section Emitters

variable (hctx : vmwCbsContext (s.cbs (.persistent c)) = some c) (hfine : Fine s)
  (hl : isArray l = true)
include hctx hfine hl

theorem emitter_array (bit : DirtyBit) : (emitter (.persistent c) bit s).2.device c l =
    if bitOf l = some bit ∧ reached (s.cbs (.persistent c)) l = true then leading s c l
    else s.device c l := by
  cases bit with
  | rt =>
    change (vmwEmitSetRt (.persistent c) s).2.device c l = _
    rw [vmwEmitSetRt_device hctx hfine]
    cases l with
    | rt i => simp [bitOf, reached, leading]
    | ds => simp [bitOf, reached, leading]
    | so i => simp [bitOf]
    | _ => cases hl
  | ps =>
    change (emitShaders (.persistent c) [0, 1, 2] s).device c l = _
    rw [(emitShaders_array hctx hfine hl _).1, if_neg]
    rintro ⟨hbit, -⟩
    cases l with
    | sr _ _ => cases hl
    | _ => cases hbit
  | so =>
    change (vmwEmitSetSo (.persistent c) s).2.device c l = _
    rw [vmwEmitSetSo_device hctx hfine]
    cases l with
    | rt i => simp [bitOf]
    | ds => simp [bitOf]
    | so i =>
      change (if (s.slot (.persistent c, .so 0)).ctx.isSome then leading s c (.so i)
        else s.device c (.so i)) = _
      exact if_congr (by simp [bitOf, reached, Manager.slot]) rfl rfl
    | _ => cases hl
  | vb =>
    change (vmwEmitSetVb (.persistent c) s).2.device c l = _
    rw [vmwEmitSetVb_device hctx hfine]
    cases l with
    | rt i => simp [bitOf]
    | ds => simp [bitOf]
    | so i => simp [bitOf]
    | _ => cases hl

theorem emitter_dirty (bit : DirtyBit) :
    ((emitter (.persistent c) bit s).2.cbs (.persistent c)).dirty =
      (s.cbs (.persistent c)).dirty := by
  cases bit with
  | rt => exact congrArg Cbs.dirty (congrFun (sendLater_cbs _ _ s).1 _)
  | ps => exact (emitShaders_array hctx hfine hl _).2
  | so => exact congrArg Cbs.dirty (congrFun (sendSome_cbs _ _ _ s).1 _)
  | vb =>
    change ((vmwEmitSetVb (.persistent c) s).2.cbs (.persistent c)).dirty = _
    unfold vmwEmitSetVb
    dsimp only
    split_ifs
    · rw [cbs_setCbs_self]
    · rw [(sendSome_cbs _ _ _ s).1]

theorem emitBit_array (bit : DirtyBit) :
    (emitBit (.persistent c) bit s).2.device c l =
      (if bitOf l = some bit ∧ reached (s.cbs (.persistent c)) l = true then leading s c l
        else s.device c l) ∧
    ((emitBit (.persistent c) bit s).2.cbs (.persistent c)).dirty =
      Function.update (s.cbs (.persistent c)).dirty bit false := by
  have hdev := emitter_array
    (s := { s with dispatches := s.dispatches ++ [vmwCbsContext (s.cbs (.persistent c))] })
    hctx hfine hl bit
  have hdirty := emitter_dirty
    (s := { s with dispatches := s.dispatches ++ [vmwCbsContext (s.cbs (.persistent c))] })
    hctx hfine hl bit
  have hret := emitter_fine (i := .persistent c)
    (s := { s with dispatches := s.dispatches ++ [vmwCbsContext (s.cbs (.persistent c))] })
    (by change (vmwCbsContext (s.cbs (.persistent c))).isSome; rw [hctx]; rfl) hfine bit
  unfold emitBit
  dsimp only
  rw [if_pos hret.1]
  refine ⟨hdev, ?_⟩
  rw [cbs_setCbs_self]
  dsimp only
  rw [hdirty]

theorem emitBits_array {bits : List DirtyBit} (hnodup : bits.Nodup) :
    (emitBits (.persistent c) bits s).2.device c l =
      if (∃ bit ∈ bits, bitOf l = some bit ∧ (s.cbs (.persistent c)).dirty bit = true) ∧
        reached (s.cbs (.persistent c)) l = true then leading s c l else s.device c l := by
  induction bits generalizing s with
  | nil => simp [emitBits]
  | cons bit bits ih =>
    rw [List.nodup_cons] at hnodup
    unfold emitBits
    dsimp only
    by_cases hbit : (s.cbs (.persistent c)).dirty bit = true
    · obtain ⟨hret, hfine', -⟩ := emitBit_fine (by rw [hctx]; rfl) hfine bit
      obtain ⟨hdev, hdirty⟩ := emitBit_array hctx hfine hl bit
      have hkept := emitBit_kept (.persistent c) bit s
      rw [if_pos hbit, if_pos hret, ih (by rw [hkept.vmwCbsContext_eq, hctx]) hfine' hnodup.2,
        hdev, hdirty, leading_kept hkept, reached_kept hkept]
      by_cases hl' : bitOf l = some bit
      · have hnone : ¬ ∃ bit' ∈ bits, bitOf l = some bit' ∧
            Function.update (s.cbs (.persistent c)).dirty bit false bit' = true := by
          rintro ⟨bit', hmem, he, -⟩
          rw [hl'] at he
          cases he
          exact hnodup.1 hmem
        rw [if_neg fun h => hnone h.1]
        refine if_congr ⟨fun h => ⟨⟨bit, List.mem_cons_self, hl', hbit⟩, h.2⟩,
          fun h => ⟨hl', h.2⟩⟩ rfl rfl
      · rw [if_neg (fun h => hl' h.1 : ¬ (bitOf l = some bit ∧ _))]
        refine if_congr (and_congr ?_ Iff.rfl) rfl rfl
        constructor
        · rintro ⟨bit', hmem, he, hd⟩
          have hne : bit' ≠ bit := by
            rintro rfl
            exact hl' he
          rw [Function.update_of_ne hne] at hd
          exact ⟨bit', List.mem_cons_of_mem _ hmem, he, hd⟩
        · rintro ⟨bit', hmem, he, hd⟩
          have hne : bit' ≠ bit := by
            rintro rfl
            exact hl' he
          refine ⟨bit', (List.mem_cons.1 hmem).resolve_left hne, he, ?_⟩
          rw [Function.update_of_ne hne]
          exact hd
    · rw [if_neg hbit, ih hctx hfine hnodup.2]
      refine if_congr (and_congr ?_ Iff.rfl) rfl rfl
      constructor
      · rintro ⟨bit', hmem, hd⟩
        exact ⟨bit', List.mem_cons_of_mem _ hmem, hd⟩
      · rintro ⟨bit', hmem, he, hd⟩
        refine ⟨bit', (List.mem_cons.1 hmem).resolve_left ?_, he, hd⟩
        rintro rfl
        exact hbit hd

end Emitters

theorem vmwBindingEmitDirty_array (h : InSync anyRelation s) (hl : isArray l = true) (c c' : ℕ) :
    (vmwBindingEmitDirty (.persistent c) s).2.device c' l =
      if c' = c ∧ resent (s.cbs (.persistent c)) l = true then leading s c l
      else s.device c' l := by
  by_cases hp : Pending (s.cbs (.persistent c))
  · obtain ⟨m, hm⟩ := h.ok.covered c hp
    by_cases hc : c' = c
    · subst hc
      unfold vmwBindingEmitDirty
      rw [emitBits_array (h.ok.context hm) h.calm.2 hl (by decide)]
      refine if_congr ?_ rfl rfl
      unfold resent
      rw [Bool.and_eq_true_iff, Option.any_eq_true]
      constructor
      · rintro ⟨⟨bit, -, he, hd⟩, hr⟩
        exact ⟨rfl, ⟨bit, he, hd⟩, hr⟩
      · rintro ⟨-, ⟨bit, he, hd⟩, hr⟩
        exact ⟨⟨bit, by cases bit <;> simp, he, hd⟩, hr⟩
    · rw [if_neg fun h => hc h.1]
      exact congrFun (emitBits_onlyCtx (DirtyOk.names h.ok c) _ c' hc) l
  · unfold vmwBindingEmitDirty
    rw [emitBits_of_not_pending hp, if_neg]
    rintro ⟨-, hr⟩
    unfold resent at hr
    rw [Bool.and_eq_true_iff, Option.any_eq_true] at hr
    obtain ⟨⟨bit, -, hd⟩, -⟩ := hr
    exact hp ⟨bit, hd⟩

/-- All delayed commands of `s` have been sent. -/
structure Flushed (s t : Manager) : Prop where
  kept : Kept s t
  array : ∀ c l, isArray l = true → t.device c l =
    if resent (s.cbs (.persistent c)) l = true then leading s c l else s.device c l

theorem pending_of_resent {b : Cbs} (h : resent b l = true) : Pending b := by
  unfold resent at h
  rw [Bool.and_eq_true_iff, Option.any_eq_true] at h
  obtain ⟨⟨bit, -, hd⟩, -⟩ := h
  exact ⟨bit, hd⟩

theorem emitDirty_flushed (h : InSync anyRelation s)
    (hclean : ∀ c', c' ≠ c → ¬ Pending (s.cbs (.persistent c'))) :
    Flushed s (vmwBindingEmitDirty (.persistent c) s).2 := by
  refine ⟨vmwBindingEmitDirty_kept _ s, fun c' l hl => ?_⟩
  rw [vmwBindingEmitDirty_array h hl]
  by_cases hc : c' = c
  · subst hc
    simp
  · rw [if_neg fun h => hc h.1, if_neg fun h => hclean c' hc (pending_of_resent h)]

theorem emitOwners_array {ps : List SlotRef} (h : InSync anyRelation s)
    (hps : ∀ p ∈ ps, Bound s p) (hl : isArray l = true) (c : ℕ) :
    (emitOwners ps s).device c l =
      if (∃ p ∈ ps, p.1 = .persistent c) ∧ resent (s.cbs (.persistent c)) l = true then
        leading s c l else s.device c l := by
  induction ps generalizing s with
  | nil => simp [emitOwners]
  | cons p ps ih =>
    obtain ⟨⟨c', hc'⟩, hlive⟩ := hps p List.mem_cons_self
    obtain ⟨i, m⟩ := p
    cases hc'
    obtain ⟨k, hk⟩ := Option.isSome_iff_exists.1 hlive
    obtain rfl := h.ok.owned c' m k hk
    have howner : emitOwner (.persistent k, m) s = (vmwBindingEmitDirty (.persistent k) s).2 := by
      unfold emitOwner
      rw [hk]
    have hemits := vmwBindingEmitDirty_emits (.persistent k) s
    obtain ⟨hsync, hdone⟩ := h.emit anyRelation_emittable k
    have hdev := vmwBindingEmitDirty_array h hl k c
    change (emitOwners ps (emitOwner (.persistent k, m) s)).device c l = _
    rw [howner, ih hsync fun q hq =>
      SameTracks.bound hemits.kept.sameTracks (hps q (List.mem_cons_of_mem _ hq))]
    by_cases hc : c = k
    · subst hc
      rw [if_neg fun h => hdone (pending_of_resent h.2), hdev]
      refine if_congr ⟨fun h => ⟨⟨_, List.mem_cons_self, rfl⟩, h.2⟩, fun h => ⟨rfl, h.2⟩⟩ rfl rfl
    · rw [if_neg fun h => hc h.1] at hdev
      rw [hdev, hemits.others _ (by simpa using hc), leading_kept hemits.kept]
      refine if_congr (and_congr ?_ Iff.rfl) rfl rfl
      constructor
      · rintro ⟨q, hq, hqc⟩
        exact ⟨q, List.mem_cons_of_mem _ hq, hqc⟩
      · rintro ⟨q, hq, hqc⟩
        refine ⟨q, (List.mem_cons.1 hq).resolve_left ?_, hqc⟩
        rintro rfl
        exact hc (StateId.persistent.inj hqc).symm

end Arrays

section Operations

theorem resListScrub_effect (h : InSync Φ s) (hclean : Clean s) (r : ℕ) : ∃ u,
    Effect false (s.bindingHead r) s u ∧ SameTracks s u ∧
    Flushed u (vmwBindingResListScrub r s) := by
  have hbound := BindingDirty.ListsOk.heads_bound h.ok.lists (r := r)
  obtain ⟨hsync, heffect⟩ := touchAll_effect (inSync_any h) (h.ok.lists.headsNodup r) hbound false
  have hsame := touchAll_sameTracks false (s.bindingHead r) s
  refine ⟨_, heffect, hsame, ?_⟩
  unfold vmwBindingResListScrub
  rw [scrubAll_eq]
  refine ⟨?_, fun c l hl => ?_⟩
  · exact emitOwners_kept _ _
  · rw [emitOwners_array hsync (BindingDirty.ListsOk.heads_bound hsync.ok.lists) hl]
    refine if_congr ⟨fun h => h.2, fun hr => ⟨?_, hr⟩⟩ rfl rfl
    obtain ⟨bit, hbit⟩ := pending_of_resent hr
    rcases (heffect.dirty c bit).1 hbit with hd | ⟨m, hm, -⟩
    · exact absurd ⟨bit, hd⟩ (hclean c)
    · exact ⟨_, hsame.heads ▸ hm, rfl⟩

theorem entries_clean {rebind : Bool} {u : Manager} (hclean : Clean s)
    (heffect : Effect rebind (s.entries (.persistent c)) s u) :
    ∀ c', c' ≠ c → ¬ Pending (u.cbs (.persistent c')) := by
  rintro c' hc ⟨bit, hbit⟩
  rcases (heffect.dirty c' bit).1 hbit with hd | ⟨m, hm, -⟩
  · exact hclean c' ⟨bit, hd⟩
  · obtain ⟨k, -, hk⟩ := List.mem_map.1 hm
    cases hk
    exact hc rfl

theorem stateScrub_effect (h : InSync Φ s) (hclean : Clean s) (c : ℕ) : ∃ u,
    Effect false (s.entries (.persistent c)) s u ∧ SameTracks s u ∧
    Flushed u (vmwBindingStateScrub (.persistent c) s) := by
  obtain ⟨hsync, heffect⟩ := touchAll_effect (inSync_any h) h.ok.lists.entries_nodup
    (BindingDirty.ListsOk.entries_bound h.ok.lists (c := c)) false
  refine ⟨_, heffect, touchAll_sameTracks false _ s, ?_⟩
  unfold vmwBindingStateScrub
  rw [scrubAll_eq]
  exact emitDirty_flushed hsync (entries_clean hclean heffect)

theorem vmwBindingRebindAll_eq (h : InSync Φ s) : vmwBindingRebindAll (.persistent c) s =
    (vmwBindingEmitDirty (.persistent c)
      (touchAll true (s.entries (.persistent c)) s)).2 := by
  unfold vmwBindingRebindAll
  rw [rebindEntries_eq (inSync_any h) (BindingDirty.ListsOk.entries_bound h.ok.lists)]
  rfl

theorem rebindAll_effect (h : InSync Φ s) (hclean : Clean s) (c : ℕ) : ∃ u,
    Effect true (s.entries (.persistent c)) s u ∧ SameTracks s u ∧
    Flushed u (vmwBindingRebindAll (.persistent c) s) := by
  obtain ⟨hsync, heffect⟩ := touchAll_effect (inSync_any h) h.ok.lists.entries_nodup
    (BindingDirty.ListsOk.entries_bound h.ok.lists (c := c)) true
  refine ⟨_, heffect, touchAll_sameTracks true _ s, ?_⟩
  rw [vmwBindingRebindAll_eq h]
  exact emitDirty_flushed hsync (entries_clean hclean heffect)

theorem touchAll_rebind {ps : List SlotRef} (hΦ : Emittable Φ) (h : InSync Φ s)
    (hps : ∀ p ∈ ps, Bound s p) : InSync Φ (touchAll true ps s) := by
  induction ps generalizing s with
  | nil => exact h
  | cons p ps ih =>
    have hp := hps p List.mem_cons_self
    refine ih (s := touch true p s) ?_ fun q hq =>
      SameTracks.bound (touch_sameTracks true p s) (hps q (List.mem_cons_of_mem _ hq))
    unfold touch
    split_ifs with hw
    · exact h.rebindEntry hΦ hp hw
    · exact h

theorem rebindAll_inSync (hΦ : Emittable Φ) (h : InSync Φ s) (hclean : Clean s) (c : ℕ) :
    InSync Φ (vmwBindingRebindAll (.persistent c) s) ∧
    Clean (vmwBindingRebindAll (.persistent c) s) := by
  have hbound := BindingDirty.ListsOk.entries_bound h.ok.lists (c := c)
  obtain ⟨-, heffect⟩ := touchAll_effect (inSync_any h) h.ok.lists.entries_nodup hbound true
  rw [vmwBindingRebindAll_eq h]
  have hemits := vmwBindingEmitDirty_emits (.persistent c)
    (touchAll true (s.entries (.persistent c)) s)
  obtain ⟨hsync, hdone⟩ := (touchAll_rebind hΦ h hbound).emit hΦ c
  refine ⟨hsync, fun c' hp => ?_⟩
  by_cases hc : c' = c
  · subst hc
    exact hdone hp
  · rw [hemits.others _ (by simpa using hc)] at hp
    exact entries_clean hclean heffect c' hc hp

theorem Effect.scrubbed {ps : List SlotRef} (h : Effect false ps s t) (hq : q ∈ ps) :
    (t.slot q).scrubbed = true := by
  rw [h.slot]
  split_ifs with hw
  · rfl
  · simpa [wants, hq] using hw

theorem resListScrub_scrubbed (h : InSync Φ s) (hclean : Clean s) (hq : q ∈ s.bindingHead r) :
    ((vmwBindingResListScrub r s).slot q).scrubbed = true := by
  obtain ⟨u, heffect, -, hflushed⟩ := resListScrub_effect h hclean r
  rw [hflushed.kept.slot]
  exact heffect.scrubbed hq

theorem stateScrub_scrubbed (h : InSync Φ s) (hclean : Clean s)
    (hl : (s.slot (.persistent c, l)).ctx.isSome) :
    ((vmwBindingStateScrub (.persistent c) s).slot (.persistent c, l)).scrubbed = true := by
  obtain ⟨u, heffect, -, hflushed⟩ := stateScrub_effect h hclean c
  rw [hflushed.kept.slot]
  exact heffect.scrubbed (List.mem_map.2 ⟨l, (h.ok.lists.live _ l).1 hl, rfl⟩)

theorem stateKill_inSync (hΦ : Emittable Φ) (h : InSync Φ s) (hclean : Clean s)
    (hso : ∀ k, (s.slot (.persistent c, .so k)).ctx.isSome → SoSafe Φ s c k) :
    InSync Φ (vmwBindingStateKill (.persistent c) s) ∧
    Clean (vmwBindingStateKill (.persistent c) s) := by
  obtain ⟨hsync, hclean'⟩ := h.stateScrub hΦ hclean hso
  have hsame := vmwBindingStateScrub_sameTracks (.persistent c) s
  refine hsync.dropAll hΦ hclean' hsync.ok.lists.entries_nodup fun p hp => ?_
  have hlive := hsync.ok.lists.entries_live p hp
  obtain ⟨l, -, rfl⟩ := List.mem_map.1 hp
  exact ⟨hlive, stateScrub_scrubbed h hclean (hsame.ctx _ ▸ hlive)⟩

theorem resListKill_inSync (hΦ : Emittable Φ) (h : InSync Φ s) (hclean : Clean s)
    (hso : ∀ c k, (.persistent c, .so k) ∈ s.bindingHead r → SoSafe Φ s c k) :
    InSync Φ (vmwBindingResListKill r s) ∧ Clean (vmwBindingResListKill r s) := by
  obtain ⟨hsync, hclean'⟩ := h.resListScrub hΦ hclean hso
  have hsame := vmwBindingResListScrub_sameTracks r s
  refine hsync.dropAll hΦ hclean' (hsync.ok.lists.headsNodup r) fun p hp => ?_
  exact ⟨(hsync.ok.lists.heads r p hp).2.1, resListScrub_scrubbed h hclean (hsame.heads ▸ hp)⟩

end Operations

end Vmwgfx.BindingTouch
