import Vmwgfx.BindingSync

set_option autoImplicit false

/-!
# Scrubbing and binding again, with all reservations successful

Each operation on the tracker keeps a condition that commands establish, and leaves no
command delayed.
-/
namespace Vmwgfx.BindingScrub
open BindingSlots BindingMachine BindingLists BindingDirty BindingSync

variable {Φ : Relation} {s t : Manager} {p q : SlotRef} {i : StateId} {l : Loc} {c r : ℕ}

/-- The array of a binding type; there are eight DX render targets. -/
def fits : BindingType → Loc → Bool
  | .shader, .shader _ | .dxShader, .shader _ => true
  | .rt, .rt _ => true
  | .dxRt, .rt i => decide (i.val < 8)
  | .tex, .tex _ | .cb, .cb _ _ | .sr, .sr _ _ | .ds, .ds | .so, .so _ | .vb, .vb _
  | .ib, .ib => true
  | _, _ => false

def Calm (s : Manager) : Prop := (∀ b ∈ s.now, b = true) ∧ Fine s

structure InSync (Φ : Relation) (s : Manager) : Prop where
  ok : DirtyOk s
  fits : ∀ p, (s.slot p).ctx.isSome → fits (s.slot p).bt p.2 = true
  calm : Calm s
  synced : ∀ c l, SyncedAt Φ s c l

section Marks

theorem marked_setSlot {b : Cbs} {x : Slot} {m : Loc} (hx : x.ctx = (b.slots l).ctx) :
    Marked (b.setSlot l x) m ↔ Marked b m := by
  cases m with
  | so i =>
    refine and_congr Iff.rfl ?_
    by_cases hl : l = .so 0
    · subst hl
      simp [Cbs.setSlot, hx]
    · simp [Cbs.setSlot, Function.update_of_ne (Ne.symm hl)]
  | _ => exact Iff.rfl

theorem markDirty_dirty (b : Cbs) (bit bit' : DirtyBit) (l : Loc) :
    (markDirty b bit l).dirty bit' = if bit' = bit then true else b.dirty bit' := by
  have h : (markDirty b bit l).dirty = Function.update b.dirty bit true := by
    unfold markDirty
    dsimp only
    split <;> rfl
  rw [h, Function.update_apply]

theorem markDirty_dirtyPs {b : Cbs} {bit : DirtyBit} {sh : Fin 3} (h : b.dirtyPs sh = true) :
    (markDirty b bit l).dirtyPs sh = true := by
  unfold markDirty
  dsimp only
  split
  · rename_i sh' k'
    by_cases hsh : sh = sh'
    · subst hsh
      simp
    · simp [hsh, h]
  · exact h
  · exact h

theorem markDirty_dirtySr {b : Cbs} {bit : DirtyBit} {sh : Fin 3} {k : ℕ}
    (h : b.dirtySr sh k = true) : (markDirty b bit l).dirtySr sh k = true := by
  unfold markDirty
  dsimp only
  split
  · rename_i sh' k'
    by_cases hsh : sh = sh'
    · subst hsh
      by_cases hk : k = k'
      · subst hk
        simp
      · simp [hk, h]
    · simp [hsh, h]
  · exact h
  · exact h

theorem markDirty_dirtyVb {b : Cbs} {bit : DirtyBit} {k : ℕ} (h : b.dirtyVb k = true) :
    (markDirty b bit l).dirtyVb k = true := by
  unfold markDirty
  dsimp only
  split
  · exact h
  · rename_i k'
    by_cases hk : k = k'
    · subst hk
      simp
    · simp [hk, h]
  · exact h

theorem Marked.markDirty {b : Cbs} {bit : DirtyBit} {m : Loc} (h : Marked b m) :
    Marked (markDirty b bit l) m := by
  have hdirty : ∀ bit', b.dirty bit' = true → (BindingMachine.markDirty b bit l).dirty bit' = true := by
    intro bit' hb
    rw [markDirty_dirty]
    split_ifs
    · rfl
    · exact hb
  cases m with
  | rt i => exact ⟨hdirty _ h.1, h.2⟩
  | ds => exact hdirty _ h
  | so i =>
    refine ⟨hdirty _ h.1, ?_⟩
    rw [(markDirty_slots b bit l).1]
    exact h.2
  | sr sh i => exact ⟨hdirty _ h.1, markDirty_dirtyPs h.2.1, markDirty_dirtySr h.2.2⟩
  | vb i => exact ⟨hdirty _ h.1, markDirty_dirtyVb h.2⟩
  | shader _ | tex _ | cb _ _ | ib => exact h.elim

theorem markDirty_marked {b : Cbs} {bt : BindingType} {bit : DirtyBit} (hbit : delayed bt = some bit)
    (hfits : fits bt l = true)
    (hso : ∀ i, l = .so i → (b.slots (.so 0)).ctx.isSome) : Marked (markDirty b bit l) l := by
  have hset : (markDirty b bit l).dirty bit = true := by
    rw [markDirty_dirty, if_pos rfl]
  cases bt with
  | dxRt =>
    cases hbit
    cases l with
    | rt i => exact ⟨hset, of_decide_eq_true hfits⟩
    | _ => cases hfits
  | ds =>
    cases hbit
    cases l with
    | ds => exact hset
    | _ => cases hfits
  | sr =>
    cases hbit
    cases l with
    | sr sh k => exact ⟨hset, by simp [markDirty], by simp [markDirty]⟩
    | _ => cases hfits
  | so =>
    cases hbit
    cases l with
    | so i =>
      refine ⟨hset, ?_⟩
      rw [(markDirty_slots b .so (.so i)).1]
      exact hso i rfl
    | _ => cases hfits
  | vb =>
    cases hbit
    cases l with
    | vb k => exact ⟨hset, by simp [markDirty]⟩
    | _ => cases hfits
  | _ => cases hbit

end Marks

section Entries

theorem cbs_setScrubbed_self {v : Bool} : (setScrubbed p v s).cbs p.1 =
    (s.cbs p.1).setSlot p.2 { s.slot p with scrubbed := v } := cbs_setCbs_self

theorem cbs_setScrubbed_of_ne {v : Bool} (h : i ≠ p.1) : (setScrubbed p v s).cbs i = s.cbs i :=
  cbs_setCbs_of_ne h

theorem marked_setScrubbed {v : Bool} {m : Loc} :
    Marked ((setScrubbed p v s).cbs i) m ↔ Marked (s.cbs i) m := by
  by_cases hi : i = p.1
  · subst hi
    rw [cbs_setScrubbed_self]
    exact marked_setSlot rfl
  · rw [cbs_setScrubbed_of_ne hi]

theorem slot_setScrubbed {v : Bool} : (setScrubbed p v s).slot q =
    if q = p then { s.slot p with scrubbed := v } else s.slot q := slot_setSlot _

theorem exec_single {x : Option Content} {dev : Device} {c' : ℕ} {m : Loc} :
    (BindCmd.single c l x).exec dev c' m = if c' = c ∧ m = l then x else dev c' m := by
  rw [exec_apply]
  by_cases hc : c' = c
  · subst hc
    by_cases hm : m = l
    · simp [BindCmd.ctx, BindCmd.set, hm]
    · simp [BindCmd.ctx, BindCmd.set, hm]
  · simp [BindCmd.ctx, hc]

theorem scrubFunc_cases (h : DirtyOk s) (hcalm : Calm s)
    (hlive : (s.slot (.persistent c, l)).ctx.isSome) (rebind : Bool) :
    (∃ bit, delayed (s.slot (.persistent c, l)).bt = some bit ∧
      scrubFunc (.persistent c, l) rebind s =
        (true, s.setCbs (.persistent c) (markDirty (s.cbs (.persistent c)) bit l))) ∨
    (delayed (s.slot (.persistent c, l)).bt = none ∧
      scrubFunc (.persistent c, l) rebind s =
        (true, { s with
          now := s.now.tail
          device := (BindCmd.single c l (if rebind then
            idOf s.valid (s.slot (.persistent c, l)) (boundData (s.slot (.persistent c, l)))
            else none)).exec s.device })) := by
  obtain ⟨c', hc'⟩ := Option.isSome_iff_exists.1 hlive
  obtain rfl := h.owned c l c' hc'
  have hnow : s.now.headD true = true := by
    rcases hl : s.now with _ | ⟨b, bs⟩
    · rfl
    · exact hcalm.1 b (hl ▸ List.mem_cons_self)
  rcases hbit : delayed (s.slot (.persistent c', l)).bt with _ | bit
  · refine .inr ⟨rfl, ?_⟩
    simp only [scrubFunc, hc', hbit, sendNow, hnow, if_true]
  · refine .inl ⟨bit, rfl, ?_⟩
    simp only [scrubFunc, hc', hbit]

theorem Calm.scrubFunc (h : Calm s) (p : SlotRef) (rebind : Bool) :
    Calm (scrubFunc p rebind s).2 := by
  unfold BindingMachine.scrubFunc sendNow
  dsimp only
  split
  · exact h
  · split
    · exact h
    · split_ifs <;> exact ⟨fun b hb => h.1 b (List.mem_of_mem_tail hb), h.2⟩

/-- A slot is scrubbed or bound again; the other slots are as before, and for the slot
    itself there is a mark, or the condition holds of what was sent. -/
theorem InSync.entry (h : InSync Φ s) (hlive : (s.slot (.persistent c, l)).ctx.isSome)
    (rebind v : Bool)
    (hsent : delayed (s.slot (.persistent c, l)).bt = none →
      Φ s.valid l { s.slot (.persistent c, l) with scrubbed := v } (if rebind then
        idOf s.valid (s.slot (.persistent c, l)) (boundData (s.slot (.persistent c, l)))
        else none))
    (hso : ∀ i, l = .so i → (s.slot (.persistent c, .so 0)).ctx.isSome ∨
      Φ s.valid l { s.slot (.persistent c, l) with scrubbed := v } (s.device c l)) :
    InSync Φ (setScrubbed (.persistent c, l) v (scrubFunc (.persistent c, l) rebind s).2) := by
  have hkept := scrubFunc_kept (.persistent c, l) rebind s
  have hsame := hkept.sameTracks.trans (setScrubbed_sameTracks (.persistent c, l) v _)
  refine ⟨(h.ok.scrubFunc hlive rebind).setScrubbed _ v, fun p hp => ?_, ?_, fun c' m => ?_⟩
  · obtain ⟨w, hw⟩ := hsame.slot p
    rw [hw] at hp ⊢
    exact h.fits p hp
  · exact h.calm.scrubFunc _ rebind
  · have hslot : (setScrubbed (.persistent c, l) v (scrubFunc (.persistent c, l) rebind s).2).slot
        (.persistent c', m) = if (.persistent c', m) = ((.persistent c, l) : SlotRef) then
          { s.slot (.persistent c, l) with scrubbed := v } else s.slot (.persistent c', m) := by
      rw [slot_setScrubbed, hkept.slot, hkept.slot]
    unfold SyncedAt
    rw [marked_setScrubbed, hslot, hsame.valid]
    change _ ∨ Φ _ _ _ ((scrubFunc (.persistent c, l) rebind s).2.device c' m)
    rcases scrubFunc_cases h.ok h.calm hlive rebind with ⟨bit, hbit, hrun⟩ | ⟨hbit, hrun⟩
    · rw [hrun]
      by_cases hc : c' = c
      · subst hc
        dsimp only
        rw [cbs_setCbs_self]
        by_cases hm : m = l
        · subst hm
          rw [if_pos rfl]
          by_cases hfirst : ∀ i, m = .so i → (s.slot (.persistent c', .so 0)).ctx.isSome
          · exact .inl (markDirty_marked hbit (h.fits _ hlive) hfirst)
          · push Not at hfirst
            obtain ⟨i, hi, hdead⟩ := hfirst
            exact .inr ((hso i hi).resolve_left hdead)
        · rw [if_neg (by simpa using hm)]
          exact (h.synced c' m).imp (fun hmark => Marked.markDirty hmark) fun hrel => hrel
      · dsimp only
        rw [cbs_setCbs_of_ne (by simpa using hc), if_neg (by simp [hc])]
        exact h.synced c' m
    · rw [hrun]
      dsimp only
      by_cases hp : c' = c ∧ m = l
      · obtain ⟨rfl, rfl⟩ := hp
        refine .inr ?_
        rw [if_pos rfl, exec_single, if_pos ⟨rfl, rfl⟩]
        exact hsent hbit
      · rw [if_neg (by simpa using hp), exec_single, if_neg hp]
        exact h.synced c' m

end Entries

/-- A stream output target that can be scrubbed: the first one is bound, so that the command
    is sent, or the device has nothing there, or the condition says nothing about it. -/
def SoSafe (Φ : Relation) (s : Manager) (c : ℕ) (i : Fin 4) : Prop :=
  (s.slot (.persistent c, .so 0)).ctx.isSome ∨ s.device c (.so i) = none ∨
    ∀ valid x y, Φ valid (.so i) x y

section Scrubs

variable (hΦ : Emittable Φ)

theorem SoSafe.rel (hΦ : Emittable Φ) {k : Fin 4} (h : SoSafe Φ s c k) (x : Slot) :
    (s.slot (.persistent c, .so 0)).ctx.isSome ∨ Φ s.valid (.so k) x (s.device c (.so k)) := by
  rcases h with hlive | hnone | hany
  · exact .inl hlive
  · rw [hnone]
    exact .inr (hΦ.empty _ _ _ rfl)
  · exact .inr (hany _ _ _)

include hΦ in
theorem InSync.scrubEntry (h : InSync Φ s) (hp : Bound s p)
    (hso : ∀ c k, p = (.persistent c, .so k) → SoSafe Φ s c k) : InSync Φ (scrubEntry p s) := by
  obtain ⟨⟨c, hc⟩, hlive⟩ := hp
  obtain ⟨i, l⟩ := p
  cases hc
  unfold BindingMachine.scrubEntry
  split_ifs
  · exact h
  · refine h.entry hlive false true (fun _ => ?_) fun k hk => ?_
    · have hshown : shown s.valid { s.slot (.persistent c, l) with scrubbed := true } = none := by
        simp [shown]
      have hrel := hΦ.shown s.valid l { s.slot (.persistent c, l) with scrubbed := true }
      rw [hshown] at hrel
      exact hrel
    · subst hk
      exact (hso c k rfl).rel hΦ _

theorem delayed_of_fits_so {bt : BindingType} {k : Fin 4} (h : fits bt (.so k) = true) :
    delayed bt = some .so := by
  cases bt with
  | so => rfl
  | _ => cases h

theorem scrubFunc_device_so (h : InSync Φ s) (hp : Bound s p) (rebind : Bool) (k : Fin 4) :
    (scrubFunc p rebind s).2.device c (.so k) = s.device c (.so k) := by
  obtain ⟨⟨c', hc⟩, hlive⟩ := hp
  obtain ⟨i, l⟩ := p
  cases hc
  rcases scrubFunc_cases h.ok h.calm hlive rebind with ⟨bit, -, hrun⟩ | ⟨hbit, hrun⟩
  · rw [hrun]
    rfl
  · rw [hrun]
    dsimp only
    rw [exec_single, if_neg]
    rintro ⟨-, rfl⟩
    rw [delayed_of_fits_so (h.fits _ hlive)] at hbit
    cases hbit

theorem scrubEntry_device_so (h : InSync Φ s) (hp : Bound s p) (k : Fin 4) :
    (scrubEntry p s).device c (.so k) = s.device c (.so k) := by
  unfold BindingMachine.scrubEntry
  split_ifs
  · rfl
  · exact scrubFunc_device_so h hp false k

theorem SoSafe.scrubEntry (h : InSync Φ s) (hp : Bound s p) {k : Fin 4} (hso : SoSafe Φ s c k) :
    SoSafe Φ (scrubEntry p s) c k := by
  unfold SoSafe
  rw [(scrubEntry_sameTracks p s).ctx, scrubEntry_device_so h hp]
  exact hso

include hΦ in
theorem InSync.scrubAll {ps : List SlotRef} (h : InSync Φ s) (hps : ∀ p ∈ ps, Bound s p)
    (hso : ∀ c k, (.persistent c, .so k) ∈ ps → SoSafe Φ s c k) : InSync Φ (scrubAll ps s) := by
  induction ps generalizing s with
  | nil => exact h
  | cons p ps ih =>
    have hp := hps p List.mem_cons_self
    refine ih (h.scrubEntry hΦ hp fun c k hk => hso c k (hk ▸ List.mem_cons_self))
      (fun q hq => ?_) fun c k hk => ?_
    · exact SameTracks.bound (scrubEntry_sameTracks p s) (hps q (List.mem_cons_of_mem _ hq))
    · exact (hso c k (List.mem_cons_of_mem _ hk)).scrubEntry h hp

include hΦ in
theorem InSync.emit (h : InSync Φ s) (c : ℕ) :
    InSync Φ (vmwBindingEmitDirty (.persistent c) s).2 ∧
    ¬ Pending ((vmwBindingEmitDirty (.persistent c) s).2.cbs (.persistent c)) := by
  have hemits := vmwBindingEmitDirty_emits (.persistent c) s
  have hfine : Fine (vmwBindingEmitDirty (.persistent c) s).2 ∧
      ¬ Pending ((vmwBindingEmitDirty (.persistent c) s).2.cbs (.persistent c)) := by
    by_cases hp : Pending (s.cbs (.persistent c))
    · obtain ⟨l, hl⟩ := h.ok.covered c hp
      exact (vmwBindingEmitDirty_fine (BindingDirty.ListsOk.context h.ok.lists hl) h.calm.2).2
    · have hnone : vmwBindingEmitDirty (.persistent c) s = (true, s) := emitBits_of_not_pending hp _
      rw [hnone]
      exact ⟨h.calm.2, hp⟩
  refine ⟨⟨h.ok.emit c, fun p hp => ?_, ⟨?_, hfine.1⟩, ?_⟩, hfine.2⟩
  · rw [hemits.kept.slot] at hp ⊢
    exact h.fits p hp
  · rw [hemits.now]
    exact h.calm.1
  · exact vmwBindingEmitDirty_synced hΦ h.ok h.calm.2 h.synced c

def Clean (s : Manager) : Prop := ∀ c, ¬ Pending (s.cbs (.persistent c))

theorem scrubEntry_pending (h : DirtyOk s) (hp : Bound s p)
    (hpend : Pending ((scrubEntry p s).cbs (.persistent c))) :
    Pending (s.cbs (.persistent c)) ∨ p.1 = .persistent c := by
  by_cases hc : p.1 = .persistent c
  · exact .inr hc
  · obtain ⟨⟨c', hc'⟩, hlive⟩ := hp
    obtain ⟨i, l⟩ := p
    cases hc'
    refine .inl ?_
    unfold scrubEntry at hpend
    split_ifs at hpend
    · exact hpend
    · rw [cbs_setScrubbed_of_ne (fun he => hc he.symm)] at hpend
      obtain ⟨k, hk⟩ := Option.isSome_iff_exists.1 hlive
      obtain rfl := h.owned c' l k hk
      unfold scrubFunc sendNow at hpend
      simp only [hk] at hpend
      split at hpend
      · rwa [cbs_setCbs_of_ne (fun he => hc he.symm)] at hpend
      · split_ifs at hpend
        all_goals exact hpend

theorem scrubAll_pending {ps : List SlotRef} (h : DirtyOk s) (hps : ∀ p ∈ ps, Bound s p)
    (hpend : Pending ((scrubAll ps s).cbs (.persistent c))) :
    Pending (s.cbs (.persistent c)) ∨ ∃ p ∈ ps, p.1 = .persistent c := by
  induction ps generalizing s with
  | nil => exact .inl hpend
  | cons p ps ih =>
    have hp := hps p List.mem_cons_self
    rcases ih (h.scrubEntry hp) (fun q hq => SameTracks.bound (scrubEntry_sameTracks p s)
      (hps q (List.mem_cons_of_mem _ hq))) hpend with hpend | ⟨q, hq, hqc⟩
    · exact (scrubEntry_pending h hp hpend).imp (fun hs => hs) fun hc => ⟨p, List.mem_cons_self, hc⟩
    · exact .inr ⟨q, List.mem_cons_of_mem _ hq, hqc⟩

include hΦ in
theorem InSync.emitOwners (h : InSync Φ s) (ps : List SlotRef) : InSync Φ (emitOwners ps s) := by
  induction ps generalizing s with
  | nil => exact h
  | cons p ps ih =>
    refine ih (s := emitOwner p s) ?_
    unfold emitOwner
    split
    · exact (h.emit hΦ _).1
    · exact h

include hΦ in
theorem InSync.stateScrub (h : InSync Φ s) (hclean : Clean s)
    (hso : ∀ k, (s.slot (.persistent c, .so k)).ctx.isSome → SoSafe Φ s c k) :
    InSync Φ (vmwBindingStateScrub (.persistent c) s) ∧
    Clean (vmwBindingStateScrub (.persistent c) s) := by
  have hbound := BindingDirty.ListsOk.entries_bound h.ok.lists (c := c)
  have hscrub : InSync Φ (BindingMachine.scrubAll (s.entries (.persistent c)) s) := by
    refine h.scrubAll hΦ hbound fun c' k hk => ?_
    obtain ⟨l, -, hl⟩ := List.mem_map.1 hk
    cases hl
    exact hso k (hbound _ hk).2
  obtain ⟨hsync, hdone⟩ := hscrub.emit hΦ c
  refine ⟨hsync, fun c' hp => ?_⟩
  by_cases hc : c' = c
  · subst hc
    exact hdone hp
  · have hemits := vmwBindingEmitDirty_emits (.persistent c)
      (BindingMachine.scrubAll (s.entries (.persistent c)) s)
    unfold vmwBindingStateScrub at hp
    rw [hemits.others _ (by simpa using hc)] at hp
    rcases scrubAll_pending h.ok hbound hp with hp | ⟨p, hp, hpc⟩
    · exact hclean c' hp
    · obtain ⟨l, -, rfl⟩ := List.mem_map.1 hp
      exact hc (StateId.persistent.inj hpc).symm

include hΦ in
theorem InSync.resListScrub (h : InSync Φ s) (hclean : Clean s)
    (hso : ∀ c k, (.persistent c, .so k) ∈ s.bindingHead r → SoSafe Φ s c k) :
    InSync Φ (vmwBindingResListScrub r s) ∧ Clean (vmwBindingResListScrub r s) := by
  have hbound := BindingDirty.ListsOk.heads_bound h.ok.lists (r := r)
  have hscrub := h.scrubAll hΦ hbound hso
  have hsame := scrubAll_sameTracks (s.bindingHead r) s
  refine ⟨hscrub.emitOwners hΦ _, fun c => ?_⟩
  have hbound' : ∀ p ∈ (BindingMachine.scrubAll (s.bindingHead r) s).bindingHead r,
      Bound (BindingMachine.scrubAll (s.bindingHead r) s) p :=
    BindingDirty.ListsOk.heads_bound hscrub.ok.lists
  refine (emitOwners_fine hscrub.ok hscrub.calm.2 hbound').2 c ?_
  by_cases hp : Pending ((BindingMachine.scrubAll (s.bindingHead r) s).cbs (.persistent c))
  · rw [hsame.heads]
    exact .inr ((scrubAll_pending h.ok hbound hp).resolve_left (hclean c))
  · exact .inl hp

end Scrubs

section Rebinds

variable (hΦ : Emittable Φ)
include hΦ

theorem rebound_rel {valid : ℕ → Bool} {x : Slot} (hlive : x.ctx.isSome)
    (hfits : fits x.bt l = true) :
    Φ valid l { x with scrubbed := false } (idOf valid x (boundData x)) := by
  by_cases hrt : x.bt = .rt
  · have harray : isArray l = true := by
      rw [hrt] at hfits
      cases l with
      | rt _ => rfl
      | _ => cases hfits
    exact hΦ.array valid l { x with scrubbed := false } (boundData x) harray hlive rfl
  · have hdata : boundData x = x.data := if_neg hrt
    have hshown : shown valid { x with scrubbed := false } = idOf valid x (boundData x) := by
      obtain ⟨k, hk⟩ := Option.isSome_iff_exists.1 hlive
      rw [hdata]
      simp [shown, hk, idOf]
    rw [← hshown]
    exact hΦ.shown _ _ _

theorem InSync.rebindEntry (h : InSync Φ s) (hp : Bound s p)
    (hneeds : needsRebind s (s.slot p) = true) :
    InSync Φ (setScrubbed p false (scrubFunc p true s).2) := by
  obtain ⟨⟨c, hc⟩, hlive⟩ := hp
  obtain ⟨i, l⟩ := p
  cases hc
  refine h.entry hlive true false (fun _ => ?_) fun k hk => ?_
  · exact rebound_rel hΦ hlive (h.fits _ hlive)
  · subst hk
    by_cases hfirst : (s.slot (.persistent c, .so 0)).ctx.isSome
    · exact .inl hfirst
    · have hrel := (h.synced c (.so k)).resolve_left fun hm => hfirst hm.2
      have hscrubbed : (s.slot (.persistent c, .so k)).scrubbed = true :=
        (Bool.and_eq_true_iff.1 hneeds).1
      exact .inr (hΦ.unscrub _ _ _ _ rfl hscrubbed hrel)

end Rebinds

section Drops

theorem InSync.dropAll (hΦ : Emittable Φ) {ps : List SlotRef} (h : InSync Φ s) (hclean : Clean s)
    (hnodup : ps.Nodup) (hps : ∀ p ∈ ps, (s.slot p).ctx.isSome ∧ (s.slot p).scrubbed = true) :
    InSync Φ (dropAll ps s) ∧ Clean (dropAll ps s) := by
  have hsame := dropAll_untouched ps s
  have hclean' : Clean (BindingMachine.dropAll ps s) := by
    rintro c ⟨bit, hbit⟩
    rw [hsame.dirty] at hbit
    exact hclean c ⟨bit, hbit⟩
  refine ⟨⟨?_, fun p hp => ?_, ?_, fun c l => ?_⟩, hclean'⟩
  · exact h.ok.dropAll hnodup (fun p hp => (hps p hp).1) fun c hc => absurd hc (hclean c)
  · by_cases hmem : p ∈ ps
    · rw [slot_dropAll_of_mem hmem] at hp
      cases hp
    · rw [slot_dropAll_of_notMem hmem] at hp ⊢
      exact h.fits p hp
  · refine ⟨?_, ?_⟩
    · rw [hsame.now]
      exact h.calm.1
    · unfold Fine
      rw [hsame.later]
      exact h.calm.2
  · have hrel := (h.synced c l).resolve_left fun hm => hclean c hm.pending
    refine .inr ?_
    rw [hsame.valid, hsame.device]
    by_cases hmem : (.persistent c, l) ∈ ps
    · exact hΦ.drop _ _ _ _ _ (.inl (hps _ hmem).2) (slot_dropAll_of_mem hmem) hrel
    · rw [slot_dropAll_of_notMem hmem]
      exact hrel

end Drops

end Vmwgfx.BindingScrub
