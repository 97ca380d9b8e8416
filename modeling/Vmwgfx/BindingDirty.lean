import Vmwgfx.BindingLists

set_option autoImplicit false

/-!
# Delayed commands and the context they are for

A dirty bit stays set when the reservation for its command fails. The emitters take the
context from the first binding on the list, so the bits must not outlive the last binding.
-/
namespace Vmwgfx.BindingDirty
open BindingSlots BindingMachine BindingLists LabelledRuns

variable {s t : Manager} {p q : SlotRef} {i : StateId} {l : Loc} {c r : ℕ}

def Pending (b : Cbs) : Prop := ∃ bit, b.dirty bit = true

structure Emits (i : StateId) (s t : Manager) : Prop where
  kept : Kept s t
  now : t.now = s.now
  others : ∀ j, j ≠ i → t.cbs j = s.cbs j
  fewer : ∀ bit, (t.cbs i).dirty bit = true → (s.cbs i).dirty bit = true
  dispatched : ∀ d ∈ t.dispatches,
    d ∈ s.dispatches ∨ Pending (s.cbs i) ∧ d = vmwCbsContext (s.cbs i)

section Emission

theorem Emits.refl (i : StateId) (s : Manager) : Emits i s s :=
  ⟨.refl s, rfl, fun _ _ => rfl, fun _ h => h, fun _ h => .inl h⟩

theorem Emits.pending (h : Emits i s t) (hp : Pending (t.cbs i)) : Pending (s.cbs i) := by
  obtain ⟨bit, hbit⟩ := hp
  exact ⟨bit, h.fewer bit hbit⟩

theorem Emits.trans {u : Manager} (h : Emits i s t) (h' : Emits i t u) : Emits i s u := by
  refine ⟨h.kept.trans h'.kept, h'.now.trans h.now,
    fun j hj => (h'.others j hj).trans (h.others j hj),
    fun bit hb => h.fewer bit (h'.fewer bit hb), fun d hd => ?_⟩
  rcases h'.dispatched d hd with hd | ⟨hp, rfl⟩
  · exact h.dispatched d hd
  · exact .inr ⟨h.pending hp, h.kept.vmwCbsContext_eq⟩

theorem emits_setCbs {b : Cbs} (hslots : b.slots = (s.cbs i).slots)
    (hlist : b.list = (s.cbs i).list) (hdirty : ∀ bit, b.dirty bit = true →
      (s.cbs i).dirty bit = true) : Emits i s (s.setCbs i b) := by
  refine ⟨kept_setCbs hslots hlist, rfl, fun j hj => cbs_setCbs_of_ne hj, fun bit hb => ?_,
    fun _ h => .inl h⟩
  rw [cbs_setCbs_self] at hb
  exact hdirty bit hb

theorem sendLater_cbs (i : StateId) (cmd : ℕ → BindCmd) (s : Manager) :
    (sendLater i cmd s).2.cbs = s.cbs ∧ (sendLater i cmd s).2.dispatches = s.dispatches ∧
    (sendLater i cmd s).2.now = s.now := by
  unfold sendLater
  split
  · exact ⟨rfl, rfl, rfl⟩
  · split_ifs <;> exact ⟨rfl, rfl, rfl⟩

theorem sendSome_cbs (i : StateId) (n : ℕ) (cmd : ℕ → BindCmd) (s : Manager) :
    (sendSome i n cmd s).2.cbs = s.cbs ∧ (sendSome i n cmd s).2.dispatches = s.dispatches ∧
    (sendSome i n cmd s).2.now = s.now := by
  unfold sendSome
  split_ifs
  · exact ⟨rfl, rfl, rfl⟩
  · exact sendLater_cbs i cmd s

theorem sendSome_emits (i : StateId) (n : ℕ) (cmd : ℕ → BindCmd) (s : Manager) :
    Emits i s (sendSome i n cmd s).2 := by
  obtain ⟨hcbs, hdispatches, hnow⟩ := sendSome_cbs i n cmd s
  refine ⟨sendSome_kept i n cmd s, hnow, fun j _ => by rw [hcbs], fun bit hb => ?_, fun d hd => ?_⟩
  · rwa [hcbs] at hb
  · rw [hdispatches] at hd
    exact .inl hd

theorem sendLater_emits (i : StateId) (cmd : ℕ → BindCmd) (s : Manager) :
    Emits i s (sendLater i cmd s).2 := sendSome_emits i 1 cmd s

theorem vmwEmitSetSr_emits (i : StateId) (sh : Fin 3) (s : Manager) :
    Emits i s (vmwEmitSetSr i sh s).2 := by
  have hsend := sendSome_emits i (dirtySpan ((s.cbs i).dirtySr sh) 128).2
    (fun c => .shaderResources c sh (dirtySpan ((s.cbs i).dirtySr sh) 128).1
      (collectDirty s.valid (srAt (s.cbs i) sh) (dirtySpan ((s.cbs i).dirtySr sh) 128))) s
  unfold vmwEmitSetSr
  dsimp only
  split_ifs
  · refine hsend.trans (emits_setCbs (hsend.kept.slots i).symm (hsend.kept.lists i).symm ?_)
    intro bit hb
    rwa [(sendSome_cbs _ _ _ s).1]
  · exact hsend

theorem vmwEmitSetVb_emits (i : StateId) (s : Manager) : Emits i s (vmwEmitSetVb i s).2 := by
  have hsend := sendSome_emits i (dirtySpan (s.cbs i).dirtyVb 32).2
    (fun c => .vertexBuffers c (dirtySpan (s.cbs i).dirtyVb 32).1
      (collectDirty s.valid (vbAt (s.cbs i)) (dirtySpan (s.cbs i).dirtyVb 32))) s
  unfold vmwEmitSetVb
  dsimp only
  split_ifs
  · refine hsend.trans (emits_setCbs (hsend.kept.slots i).symm (hsend.kept.lists i).symm ?_)
    intro bit hb
    rwa [(sendSome_cbs _ _ _ s).1]
  · exact hsend

theorem emitShaders_emits (i : StateId) (shs : List (Fin 3)) (s : Manager) :
    Emits i s (emitShaders i shs s) := by
  induction shs generalizing s with
  | nil => exact .refl i s
  | cons sh shs ih =>
    have hsr := vmwEmitSetSr_emits i sh s
    unfold emitShaders
    dsimp only
    split_ifs
    · refine Emits.trans ?_ (ih _)
      exact hsr.trans (emits_setCbs rfl rfl fun _ h => h)
    · exact hsr
    · exact ih s

theorem emitter_emits (i : StateId) (bit : DirtyBit) (s : Manager) :
    Emits i s (emitter i bit s).2 := by
  cases bit
  · exact sendLater_emits i _ s
  · exact emitShaders_emits i _ s
  · exact sendSome_emits i _ _ s
  · exact vmwEmitSetVb_emits i s

theorem emitBit_emits {bit : DirtyBit} (hbit : (s.cbs i).dirty bit = true) :
    Emits i s (emitBit i bit s).2 := by
  have hnote : Emits i s { s with dispatches := s.dispatches ++ [vmwCbsContext (s.cbs i)] } := by
    refine ⟨⟨fun _ => rfl, fun _ => rfl, rfl, rfl, rfl⟩, rfl, fun _ _ => rfl, fun _ h => h, ?_⟩
    intro d hd
    rcases List.mem_append.1 hd with hd | hd
    · exact .inl hd
    · exact .inr ⟨⟨bit, hbit⟩, List.mem_singleton.1 hd⟩
  have hemit := hnote.trans (emitter_emits i bit _)
  unfold emitBit
  dsimp only
  split_ifs
  · refine hemit.trans (emits_setCbs rfl rfl fun b hb => ?_)
    by_cases h : b = bit
    · subst h
      simp at hb
    · simpa [h] using hb
  · exact hemit

theorem emitBits_emits (i : StateId) (bits : List DirtyBit) (s : Manager) :
    Emits i s (emitBits i bits s).2 := by
  induction bits generalizing s with
  | nil => exact .refl i s
  | cons bit bits ih =>
    unfold emitBits
    dsimp only
    split_ifs with hbit
    · exact (emitBit_emits hbit).trans (ih _)
    · exact emitBit_emits hbit
    · exact ih s

theorem vmwBindingEmitDirty_emits (i : StateId) (s : Manager) :
    Emits i s (vmwBindingEmitDirty i s).2 := emitBits_emits i _ s

end Emission

def Fine (s : Manager) : Prop := ∀ b ∈ s.later, b = true

section Success

variable (hctx : (vmwCbsContext (s.cbs i)).isSome) (hfine : Fine s)
include hctx hfine

theorem sendLater_fine (cmd : ℕ → BindCmd) :
    (sendLater i cmd s).1 = true ∧ Fine (sendLater i cmd s).2 := by
  obtain ⟨c, hc⟩ := Option.isSome_iff_exists.1 hctx
  have hhead : s.later.headD true = true := by
    rcases hl : s.later with _ | ⟨b, bs⟩
    · rfl
    · exact hfine b (hl ▸ List.mem_cons_self)
  unfold sendLater
  rw [hc]
  dsimp only
  rw [if_pos hhead]
  exact ⟨rfl, fun b hb => hfine b (List.mem_of_mem_tail hb)⟩

theorem sendSome_fine (n : ℕ) (cmd : ℕ → BindCmd) :
    (sendSome i n cmd s).1 = true ∧ Fine (sendSome i n cmd s).2 := by
  unfold sendSome
  split_ifs
  · exact ⟨rfl, hfine⟩
  · exact sendLater_fine hctx hfine cmd

theorem vmwEmitSetSr_fine (sh : Fin 3) :
    (vmwEmitSetSr i sh s).1 = true ∧ Fine (vmwEmitSetSr i sh s).2 := by
  have hsend := sendSome_fine hctx hfine
  unfold vmwEmitSetSr
  dsimp only
  rw [if_pos (hsend _ _).1]
  exact ⟨rfl, (hsend _ _).2⟩

theorem vmwEmitSetVb_fine : (vmwEmitSetVb i s).1 = true ∧ Fine (vmwEmitSetVb i s).2 := by
  have hsend := sendSome_fine hctx hfine
  unfold vmwEmitSetVb
  dsimp only
  rw [if_pos (hsend _ _).1]
  exact ⟨rfl, (hsend _ _).2⟩

theorem emitShaders_fine (shs : List (Fin 3)) : Fine (emitShaders i shs s) := by
  induction shs generalizing s with
  | nil => exact hfine
  | cons sh shs ih =>
    have hsr := vmwEmitSetSr_fine hctx hfine sh
    have hkept := vmwEmitSetSr_kept i sh s
    unfold emitShaders
    dsimp only
    split_ifs
    · have hclear := hkept.trans (kept_setCbs (i := i) (b := { (vmwEmitSetSr i sh s).2.cbs i with
        dirtyPs := Function.update ((vmwEmitSetSr i sh s).2.cbs i).dirtyPs sh false }) rfl rfl)
      exact ih (by rwa [hclear.vmwCbsContext_eq]) hsr.2
    · exact hsr.2
    · exact ih hctx hfine

theorem emitter_fine (bit : DirtyBit) :
    (emitter i bit s).1 = true ∧ Fine (emitter i bit s).2 := by
  cases bit
  · exact sendLater_fine hctx hfine _
  · exact ⟨rfl, emitShaders_fine hctx hfine _⟩
  · exact sendSome_fine hctx hfine _ _
  · exact vmwEmitSetVb_fine hctx hfine

theorem emitBit_fine (bit : DirtyBit) : (emitBit i bit s).1 = true ∧ Fine (emitBit i bit s).2 ∧
    ((emitBit i bit s).2.cbs i).dirty bit = false := by
  have hemit := emitter_fine (i := i)
    (s := { s with dispatches := s.dispatches ++ [vmwCbsContext (s.cbs i)] }) hctx hfine bit
  unfold emitBit
  dsimp only
  rw [if_pos hemit.1]
  refine ⟨rfl, hemit.2, ?_⟩
  rw [cbs_setCbs_self]
  simp

theorem emitBits_fine (bits : List DirtyBit) :
    (emitBits i bits s).1 = true ∧ Fine (emitBits i bits s).2 ∧
    ∀ bit ∈ bits, ((emitBits i bits s).2.cbs i).dirty bit = false := by
  induction bits generalizing s with
  | nil => exact ⟨rfl, hfine, by simp⟩
  | cons bit bits ih =>
    have hclear : ∀ {u : Manager}, (u.cbs i).dirty bit = false →
        ((emitBits i bits u).2.cbs i).dirty bit = false := by
      intro u hu
      by_contra hne
      have := (emitBits_emits i bits u).fewer bit (by simpa using hne)
      rw [hu] at this
      cases this
    unfold emitBits
    dsimp only
    split_ifs with hbit hr
    · obtain ⟨-, hfine', hdirty⟩ := emitBit_fine hctx hfine bit
      have hctx' : (vmwCbsContext ((emitBit i bit s).2.cbs i)).isSome := by
        rwa [(emitBit_kept i bit s).vmwCbsContext_eq]
      obtain ⟨hret, hfine'', hdone⟩ := ih hctx' hfine'
      refine ⟨hret, hfine'', fun b hb => ?_⟩
      rcases List.mem_cons.1 hb with rfl | hb
      · exact hclear hdirty
      · exact hdone b hb
    · exact absurd (emitBit_fine hctx hfine bit).1 hr
    · obtain ⟨hret, hfine', hdone⟩ := ih hctx hfine
      refine ⟨hret, hfine', fun b hb => ?_⟩
      rcases List.mem_cons.1 hb with rfl | hb
      · exact hclear (by simpa using hbit)
      · exact hdone b hb

theorem vmwBindingEmitDirty_fine : (vmwBindingEmitDirty i s).1 = true ∧
    Fine (vmwBindingEmitDirty i s).2 ∧ ¬ Pending ((vmwBindingEmitDirty i s).2.cbs i) := by
  obtain ⟨hret, hfine', hdone⟩ := emitBits_fine hctx hfine [.rt, .ps, .so, .vb]
  refine ⟨hret, hfine', ?_⟩
  rintro ⟨bit, hbit⟩
  have := hdone bit (by cases bit <;> simp)
  unfold vmwBindingEmitDirty at hbit
  rw [this] at hbit
  cases hbit

end Success

theorem emitBits_of_not_pending (h : ¬ Pending (s.cbs i)) (bits : List DirtyBit) :
    emitBits i bits s = (true, s) := by
  induction bits with
  | nil => rfl
  | cons bit bits ih =>
    unfold emitBits
    rw [if_neg fun hbit => h ⟨bit, hbit⟩]
    exact ih

/-- The bindings of a context name it, and a state with dirty bits has bindings. -/
structure DirtyOk (s : Manager) : Prop where
  lists : ListsOk s
  owned : ∀ c l c', (s.slot (.persistent c, l)).ctx = some c' → c' = c
  covered : ∀ c, Pending (s.cbs (.persistent c)) → ∃ l, (s.slot (.persistent c, l)).ctx.isSome
  dispatched : ∀ d ∈ s.dispatches, d ≠ none

section Steps

theorem ListsOk.context (h : ListsOk s) (hl : (s.slot (i, l)).ctx.isSome) :
    (vmwCbsContext (s.cbs i)).isSome := by
  have hmem := (h.live i l).1 hl
  rcases hlist : (s.cbs i).list with _ | ⟨m, ms⟩
  · rw [hlist] at hmem
    cases hmem
  · have hm : ((s.cbs i).slots m).ctx.isSome := (h.live i m).2 (hlist ▸ List.mem_cons_self)
    simpa [vmwCbsContext, hlist] using hm

theorem DirtyOk.context (h : DirtyOk s) (hl : (s.slot (.persistent c, l)).ctx.isSome) :
    vmwCbsContext (s.cbs (.persistent c)) = some c := by
  obtain ⟨c', hc'⟩ := Option.isSome_iff_exists.1 (ListsOk.context h.lists hl)
  obtain ⟨m, -, hm⟩ := Option.bind_eq_some_iff.1 hc'
  rw [hc', h.owned c m c' hm]

theorem DirtyOk.of_kept (h : DirtyOk s) (hkept : Kept s t)
    (hcovered : ∀ c, Pending (t.cbs (.persistent c)) →
      ∃ l, (s.slot (.persistent c, l)).ctx.isSome)
    (hdispatched : ∀ d ∈ t.dispatches, d ≠ none) : DirtyOk t := by
  refine ⟨hkept.sameTracks.listsOk h.lists, fun c l c' hc => ?_, fun c hp => ?_, hdispatched⟩
  · rw [hkept.slot] at hc
    exact h.owned c l c' hc
  · simpa only [hkept.slot] using hcovered c hp

theorem DirtyOk.emit (h : DirtyOk s) (c : ℕ) :
    DirtyOk (vmwBindingEmitDirty (.persistent c) s).2 := by
  have hemits := vmwBindingEmitDirty_emits (.persistent c) s
  refine h.of_kept hemits.kept (fun c' hp => ?_) fun d hd => ?_
  · by_cases hc : c' = c
    · subst hc
      exact h.covered c' (hemits.pending hp)
    · rw [hemits.others _ (by simpa using hc)] at hp
      exact h.covered c' hp
  · rcases hemits.dispatched d hd with hd | ⟨hp, rfl⟩
    · exact h.dispatched d hd
    · obtain ⟨l, hl⟩ := h.covered c hp
      rw [h.context hl]
      exact Option.some_ne_none c

theorem DirtyOk.scrubFunc (h : DirtyOk s) (hl : (s.slot (.persistent c, l)).ctx.isSome)
    (rebind : Bool) : DirtyOk (scrubFunc (.persistent c, l) rebind s).2 := by
  refine h.of_kept (scrubFunc_kept _ rebind s) (fun c' hp => ?_) fun d hd => ?_
  · unfold BindingMachine.scrubFunc at hp
    dsimp only at hp
    split at hp
    · exact h.covered c' hp
    · rename_i k hk
      obtain rfl := h.owned c l k hk
      split at hp
      · by_cases hc : c' = k
        · exact ⟨l, hc ▸ hl⟩
        · rw [cbs_setCbs_of_ne (by simpa using hc)] at hp
          exact h.covered c' hp
      · unfold sendNow at hp
        split_ifs at hp
        all_goals exact h.covered c' hp
  · refine h.dispatched d ?_
    unfold BindingMachine.scrubFunc sendNow at hd
    dsimp only at hd
    split at hd
    · exact hd
    · split at hd
      · exact hd
      · split_ifs at hd
        all_goals exact hd

theorem DirtyOk.setScrubbed (h : DirtyOk s) (p : SlotRef) (v : Bool) :
    DirtyOk (setScrubbed p v s) := by
  have hsame := setScrubbed_sameTracks p v s
  have hdirty := setSlot_untouched p { s.slot p with scrubbed := v } s
  refine ⟨hsame.listsOk h.lists, fun c l c' hc => ?_, fun c hp => ?_, h.dispatched⟩
  · rw [hsame.ctx] at hc
    exact h.owned c l c' hc
  · obtain ⟨bit, hbit⟩ := hp
    change ((s.setSlot p _).cbs (.persistent c)).dirty bit = true at hbit
    rw [hdirty.dirty] at hbit
    simpa only [hsame.ctx] using h.covered c ⟨bit, hbit⟩

def Bound (s : Manager) (p : SlotRef) : Prop := (∃ c, p.1 = .persistent c) ∧ (s.slot p).ctx.isSome

theorem ListsOk.heads_bound (h : ListsOk s) : ∀ p ∈ s.bindingHead r, Bound s p := fun p hp =>
  ⟨(h.heads r p hp).1, (h.heads r p hp).2.1⟩

theorem ListsOk.entries_bound (h : ListsOk s) : ∀ p ∈ s.entries (.persistent c), Bound s p := by
  intro p hp
  refine ⟨?_, h.entries_live p hp⟩
  obtain ⟨l, -, rfl⟩ := List.mem_map.1 hp
  exact ⟨c, rfl⟩

theorem SameTracks.bound (h : SameTracks s t) (hp : Bound s p) : Bound t p :=
  ⟨hp.1, by rw [h.ctx]; exact hp.2⟩

theorem DirtyOk.scrubEntry (h : DirtyOk s) (hp : Bound s p) : DirtyOk (scrubEntry p s) := by
  obtain ⟨⟨c, hc⟩, hlive⟩ := hp
  obtain ⟨i, l⟩ := p
  cases hc
  unfold BindingMachine.scrubEntry
  split_ifs
  · exact h
  · exact (h.scrubFunc hlive false).setScrubbed _ true

theorem DirtyOk.scrubAll {ps : List SlotRef} (h : DirtyOk s) (hps : ∀ p ∈ ps, Bound s p) :
    DirtyOk (scrubAll ps s) := by
  induction ps generalizing s with
  | nil => exact h
  | cons p ps ih =>
    refine ih (h.scrubEntry (hps p List.mem_cons_self)) fun q hq => ?_
    exact SameTracks.bound (scrubEntry_sameTracks p s) (hps q (List.mem_cons_of_mem _ hq))

theorem DirtyOk.emitOwner (h : DirtyOk s) (p : SlotRef) : DirtyOk (emitOwner p s) := by
  unfold BindingMachine.emitOwner
  split
  · exact h.emit _
  · exact h

theorem DirtyOk.emitOwners (h : DirtyOk s) (ps : List SlotRef) : DirtyOk (emitOwners ps s) := by
  induction ps generalizing s with
  | nil => exact h
  | cons p ps ih => exact ih (h.emitOwner p)

theorem DirtyOk.rebindEntries {ps : List SlotRef} (h : DirtyOk s) (hps : ∀ p ∈ ps, Bound s p) :
    DirtyOk (rebindEntries ps s).2 := by
  induction ps generalizing s with
  | nil => exact h
  | cons p ps ih =>
    obtain ⟨⟨c, hc⟩, hlive⟩ := hps p List.mem_cons_self
    have hrest : ∀ q ∈ ps, Bound s q := fun q hq => hps q (List.mem_cons_of_mem _ hq)
    have hscrub : DirtyOk (BindingMachine.scrubFunc p true s).2 := by
      obtain ⟨i, l⟩ := p
      cases hc
      exact h.scrubFunc hlive true
    unfold BindingMachine.rebindEntries
    dsimp only
    split_ifs
    · refine ih (hscrub.setScrubbed p false) fun q hq => ?_
      exact SameTracks.bound ((scrubFunc_kept p true s).sameTracks.trans
        (setScrubbed_sameTracks p false _)) (hrest q hq)
    · exact hscrub
    · exact ih h hrest

theorem DirtyOk.rebindAll (h : DirtyOk s) (c : ℕ) :
    DirtyOk (vmwBindingRebindAll (.persistent c) s) := by
  have hentries := h.rebindEntries (ListsOk.entries_bound h.lists (c := c))
  unfold vmwBindingRebindAll
  dsimp only
  split_ifs
  · exact hentries.emit c
  · exact hentries

theorem DirtyOk.stateScrub (h : DirtyOk s) (c : ℕ) :
    DirtyOk (vmwBindingStateScrub (.persistent c) s) :=
  (h.scrubAll (ListsOk.entries_bound h.lists)).emit c

theorem DirtyOk.resListScrub (h : DirtyOk s) (r : ℕ) : DirtyOk (vmwBindingResListScrub r s) :=
  (h.scrubAll (ListsOk.heads_bound h.lists)).emitOwners _

theorem DirtyOk.dropAll {ps : List SlotRef} (h : DirtyOk s) (hnodup : ps.Nodup)
    (hlive : ∀ p ∈ ps, (s.slot p).ctx.isSome)
    (hleft : ∀ c, Pending (s.cbs (.persistent c)) →
      ∃ l, (s.slot (.persistent c, l)).ctx.isSome ∧ (.persistent c, l) ∉ ps) :
    DirtyOk (dropAll ps s) := by
  have hdirty := dropAll_untouched ps s
  refine ⟨h.lists.dropAll hnodup hlive, fun c l c' hc => ?_, fun c hp => ?_, ?_⟩
  · by_cases hmem : (.persistent c, l) ∈ ps
    · rw [slot_dropAll_of_mem hmem] at hc
      cases hc
    · rw [slot_dropAll_of_notMem hmem] at hc
      exact h.owned c l c' hc
  · obtain ⟨bit, hbit⟩ := hp
    rw [hdirty.dirty] at hbit
    obtain ⟨l, hl, hmem⟩ := hleft c ⟨bit, hbit⟩
    exact ⟨l, by rw [slot_dropAll_of_notMem hmem]; exact hl⟩
  · rw [hdirty.dispatches]
    exact h.dispatched

end Steps

section Kills

theorem scrubAll_later (ps : List SlotRef) (s : Manager) : (scrubAll ps s).later = s.later := by
  induction ps generalizing s with
  | nil => rfl
  | cons p ps ih =>
    change (scrubAll ps (scrubEntry p s)).later = _
    rw [ih]
    unfold scrubEntry
    split_ifs
    · rfl
    · change (scrubFunc p false s).2.later = _
      unfold scrubFunc sendNow
      dsimp only
      split
      · rfl
      · split
        · rfl
        · split_ifs <;> rfl

theorem stateScrub_not_pending (h : DirtyOk s)
    (hfine : (s.cbs (.persistent c)).list ≠ [] → Fine s) :
    ¬ Pending ((vmwBindingStateScrub (.persistent c) s).cbs (.persistent c)) := by
  intro hp
  have hscrub := h.scrubAll (ListsOk.entries_bound h.lists (c := c))
  have hemits := vmwBindingEmitDirty_emits (.persistent c) (scrubAll (s.entries (.persistent c)) s)
  obtain ⟨l, hl⟩ := hscrub.covered c (hemits.pending hp)
  have hlist : (s.cbs (.persistent c)).list ≠ [] := by
    rw [(scrubAll_sameTracks _ s).ctx] at hl
    exact List.ne_nil_of_mem ((h.lists.live _ l).1 hl)
  refine (vmwBindingEmitDirty_fine (ListsOk.context hscrub.lists hl) ?_).2.2 hp
  unfold Fine
  rw [scrubAll_later]
  exact hfine hlist

theorem emitOwners_fine {ps : List SlotRef} (h : DirtyOk s) (hfine : Fine s)
    (hps : ∀ p ∈ ps, Bound s p) : Fine (emitOwners ps s) ∧
    ∀ c, (¬ Pending (s.cbs (.persistent c)) ∨ ∃ p ∈ ps, p.1 = .persistent c) →
      ¬ Pending ((emitOwners ps s).cbs (.persistent c)) := by
  induction ps generalizing s with
  | nil => exact ⟨hfine, fun c hc => hc.resolve_right (by simp)⟩
  | cons p ps ih =>
    obtain ⟨⟨c, hc⟩, hlive⟩ := hps p List.mem_cons_self
    obtain ⟨i, l⟩ := p
    cases hc
    obtain ⟨c', hctx⟩ := Option.isSome_iff_exists.1 hlive
    obtain rfl := h.owned c l c' hctx
    have howner : emitOwner (.persistent c', l) s = (vmwBindingEmitDirty (.persistent c') s).2 := by
      unfold emitOwner
      rw [hctx]
    obtain ⟨-, hfine', hclean⟩ := vmwBindingEmitDirty_fine (ListsOk.context h.lists hlive) hfine
    have hemits := vmwBindingEmitDirty_emits (.persistent c') s
    change Fine (emitOwners ps (emitOwner (.persistent c', l) s)) ∧ ∀ c, _ →
      ¬ Pending ((emitOwners ps (emitOwner (.persistent c', l) s)).cbs (.persistent c))
    rw [howner]
    obtain ⟨hrest, hdone⟩ := ih (h.emit c') hfine' fun q hq =>
      SameTracks.bound hemits.kept.sameTracks (hps q (List.mem_cons_of_mem _ hq))
    refine ⟨hrest, fun c hc => hdone c ?_⟩
    by_cases heq : c = c'
    · subst heq
      exact .inl hclean
    · rcases hc with hc | ⟨q, hq, hqc⟩
      · rw [hemits.others _ (by simpa using heq)]
        exact .inl hc
      · rcases List.mem_cons.1 hq with rfl | hq
        · cases hqc
          exact absurd rfl heq
        · exact .inr ⟨q, hq, hqc⟩

end Kills

section Runs

/-- What the callers see to: the bindings that are committed to a context name it. -/
def Proper (s : Manager) : BindOp → Prop
  | .commit c i => ∀ l c', (s.slot (.staged i, l)).ctx = some c' → c' = c
  | _ => True

/-- No step takes away the last binding of a context while commands for it are delayed: the
    steps that drop all its bindings make no reservation that fails, and a commit that
    leaves nothing bound finds no dirty bits. -/
def Careful (s : Manager) (a : BindStep) : Prop :=
  match a.op with
  | .commit c i => Pending (s.cbs (.persistent c)) → ∃ l,
      ((s.slot (.staged i, l)).ctx.isSome ∧ (s.slot (.staged i, l)).res.isSome) ∨
      ((s.slot (.persistent c, l)).ctx.isSome ∧ (s.slot (.staged i, l)).ctx = none)
  | .kill c => (s.cbs (.persistent c)).list ≠ [] → ∀ b ∈ a.later, b = true
  | .resListKill r => (∃ c, (s.cbs (.persistent c)).list ≠ [] ∧
      ∀ l ∈ (s.cbs (.persistent c)).list, (s.slot (.persistent c, l)).res = some r) →
      ∀ b ∈ a.later, b = true
  | .reset (.persistent c) => ¬ Pending (s.cbs (.persistent c))
  | _ => True

theorem DirtyOk.add (h : DirtyOk s) {i : ℕ} (bi : BindInfo) :
    DirtyOk (vmwBindingAdd (.staged i, l) bi s) := by
  have hdirty := vmwBindingAdd_untouched (.staged i, l) bi s
  have hslot : ∀ c m, (vmwBindingAdd (.staged i, l) bi s).slot (.persistent c, m) =
      s.slot (.persistent c, m) := by
    intro c m
    unfold vmwBindingAdd
    rw [slot_setSlot, if_neg (by simp), slot_ctxListAdd]
    exact slot_dropLive (by simp)
  refine ⟨h.lists.add bi, fun c m c' hc => ?_, fun c hp => ?_, ?_⟩
  · rw [hslot] at hc
    exact h.owned c m c' hc
  · obtain ⟨bit, hbit⟩ := hp
    rw [hdirty.dirty] at hbit
    simpa only [hslot] using h.covered c ⟨bit, hbit⟩
  · rw [hdirty.dispatches]
    exact h.dispatched

theorem DirtyOk.commit (h : DirtyOk s) {i : ℕ} (hproper : Proper s (.commit c i))
    (hcareful : Pending (s.cbs (.persistent c)) → ∃ l,
      ((s.slot (.staged i, l)).ctx.isSome ∧ (s.slot (.staged i, l)).res.isSome) ∨
      ((s.slot (.persistent c, l)).ctx.isSome ∧ (s.slot (.staged i, l)).ctx = none)) :
    DirtyOk (vmwBindingStateCommit c i s) := by
  have hdirty := vmwBindingStateCommit_untouched c i s
  have hother : ∀ c' l, c' ≠ c → (vmwBindingStateCommit c i s).slot (.persistent c', l) =
      s.slot (.persistent c', l) := fun c' l hc =>
    h.lists.commit_of_ne (by simpa using hc) (by simp)
  refine ⟨h.lists.commit c i, fun c' l k hk => ?_, fun c' hp => ?_, ?_⟩
  · by_cases hc : c' = c
    · subst hc
      rcases hs : (s.slot (.staged i, l)).ctx with _ | k'
      · rw [h.lists.commit_of_dead hs] at hk
        exact h.owned c' l k hk
      · have htrans := h.lists.commit_transferred (c := c') (i := i) (l := l) (by simp [hs])
        unfold Transferred at htrans
        split at htrans
        · rw [htrans] at hk
          exact hproper l k hk
        · rw [htrans] at hk
          cases hk
    · rw [hother c' l hc] at hk
      exact h.owned c' l k hk
  · obtain ⟨bit, hbit⟩ := hp
    rw [hdirty.dirty] at hbit
    by_cases hc : c' = c
    · subst hc
      obtain ⟨l, ⟨hlive, hres⟩ | ⟨hlive, hdead⟩⟩ := hcareful ⟨bit, hbit⟩
      · obtain ⟨r, hr⟩ := Option.isSome_iff_exists.1 hres
        have htrans := h.lists.commit_transferred (c := c') hlive
        unfold Transferred at htrans
        rw [hr] at htrans
        exact ⟨l, by rw [htrans]; exact hlive⟩
      · exact ⟨l, by rw [h.lists.commit_of_dead hdead]; exact hlive⟩
    · obtain ⟨l, hl⟩ := h.covered c' ⟨bit, hbit⟩
      exact ⟨l, by rw [hother c' l hc]; exact hl⟩
  · rw [hdirty.dispatches]
    exact h.dispatched

theorem DirtyOk.kill (h : DirtyOk s) (hfine : (s.cbs (.persistent c)).list ≠ [] → Fine s) :
    DirtyOk (vmwBindingStateKill (.persistent c) s) := by
  have hscrub := h.stateScrub c
  refine hscrub.dropAll hscrub.lists.entries_nodup hscrub.lists.entries_live fun c' hp => ?_
  have hc : c' ≠ c := by
    rintro rfl
    exact stateScrub_not_pending h hfine hp
  obtain ⟨l, hl⟩ := hscrub.covered c' hp
  refine ⟨l, hl, fun hmem => ?_⟩
  obtain ⟨m, -, hm⟩ := List.mem_map.1 hmem
  cases hm
  exact hc rfl

theorem DirtyOk.resListKill (h : DirtyOk s)
    (hfine : (∃ c, (s.cbs (.persistent c)).list ≠ [] ∧
      ∀ l ∈ (s.cbs (.persistent c)).list, (s.slot (.persistent c, l)).res = some r) → Fine s) :
    DirtyOk (vmwBindingResListKill r s) := by
  have hscrub := h.resListScrub r
  have hsame := vmwBindingResListScrub_sameTracks r s
  refine hscrub.dropAll (hscrub.lists.headsNodup r)
    (fun p hp => (hscrub.lists.heads r p hp).2.1) fun c hp => ?_
  by_contra hnone
  push Not at hnone
  have hall : ∀ l ∈ (s.cbs (.persistent c)).list, (s.slot (.persistent c, l)).res = some r := by
    intro l hl
    have hlive := (h.lists.live _ l).2 hl
    rw [← hsame.ctx] at hlive
    have := (hscrub.lists.heads r _ (hnone l hlive)).2.2
    rwa [hsame.res] at this
  obtain ⟨l, hl⟩ := hscrub.covered c hp
  have hlist : (s.cbs (.persistent c)).list ≠ [] := by
    rw [hsame.ctx] at hl
    exact List.ne_nil_of_mem ((h.lists.live _ l).1 hl)
  have hmarked := h.scrubAll (ListsOk.heads_bound h.lists (r := r))
  have hfine' : Fine (BindingMachine.scrubAll (s.bindingHead r) s) := by
    unfold Fine
    rw [scrubAll_later]
    exact hfine ⟨c, hlist, hall⟩
  refine (emitOwners_fine hmarked hfine' (ListsOk.heads_bound hmarked.lists (r := r))).2 c
    (.inr ⟨(.persistent c, l), ?_, rfl⟩) hp
  have hmem := hnone l hl
  rw [hsame.heads] at hmem
  rw [(scrubAll_sameTracks _ s).heads]
  exact hmem

theorem DirtyOk.reset (h : DirtyOk s)
    (hclean : ∀ c, i = .persistent c → ¬ Pending (s.cbs (.persistent c))) :
    DirtyOk (vmwBindingStateReset i s) := by
  refine h.dropAll h.lists.entries_nodup h.lists.entries_live fun c hp => ?_
  obtain ⟨l, hl⟩ := h.covered c hp
  refine ⟨l, hl, fun hmem => ?_⟩
  obtain ⟨m, -, hm⟩ := List.mem_map.1 hmem
  cases hm
  exact hclean c rfl hp

theorem DirtyOk.step {a : BindStep} (h : DirtyOk s) (hproper : Proper s a.op)
    (hcareful : Careful s a) (ha : bindStep s a = some t) : DirtyOk t := by
  obtain ⟨op, now, later⟩ := a
  have h' : DirtyOk { s with now := now, later := later } := by
    refine ⟨?_, h.owned, h.covered, h.dispatched⟩
    exact ⟨h.lists.live, h.lists.nodup, h.lists.bound, h.lists.unlinked, h.lists.heads,
      h.lists.headsNodup, h.lists.safe⟩
  change bindOp op { s with now := now, later := later } = some t at ha
  cases op with
  | add i bi shaderSlot slot =>
    obtain ⟨l, -, rfl⟩ := Option.map_eq_some_iff.1 ha
    exact h'.add bi
  | commit c i =>
    cases ha
    exact h'.commit hproper hcareful
  | kill c =>
    cases ha
    exact h'.kill hcareful
  | scrub c =>
    cases ha
    exact h'.stateScrub c
  | resListKill r =>
    cases ha
    exact h'.resListKill hcareful
  | resListScrub r =>
    cases ha
    exact h'.resListScrub r
  | rebindAll c =>
    cases ha
    exact h'.rebindAll c
  | reset i =>
    cases ha
    refine h'.reset fun c hc => ?_
    subst hc
    exact hcareful
  | setIds valid =>
    cases ha
    refine ⟨?_, h'.owned, h'.covered, h'.dispatched⟩
    exact ⟨h'.lists.live, h'.lists.nodup, h'.lists.bound, h'.lists.unlinked, h'.lists.heads,
      h'.lists.headsNodup, h'.lists.safe⟩

theorem emptyManager_dirtyOk : DirtyOk emptyManager := by
  refine ⟨emptyManager_listsOk, ?_, ?_, by simp [emptyManager]⟩
  · intro c l c' hc
    cases hc
  · rintro c ⟨bit, hbit⟩
    cases hbit

/-- In every run whose steps do not take the last binding of a context away while commands
    are delayed, each call of an emitter has had a context to take from the list, and a dirty
    bit means that the list is not empty. -/
theorem emitters_have_context {as : List BindStep}
    (h : Runs bindStep (fun s a => Proper s a.op ∧ Careful s a) emptyManager as s) :
    (∀ d ∈ s.dispatches, d ≠ none) ∧
    ∀ c, (∃ bit, (s.cbs (.persistent c)).dirty bit = true) → (s.cbs (.persistent c)).list ≠ [] := by
  have hs : DirtyOk s := by
    refine h.invariant DirtyOk emptyManager_dirtyOk fun u a v hu hok ha => ?_
    exact hu.step hok.1 hok.2 ha
  refine ⟨hs.dispatched, fun c hp => ?_⟩
  obtain ⟨l, hl⟩ := hs.covered c hp
  exact List.ne_nil_of_mem ((hs.lists.live _ l).1 hl)

end Runs

section Example

/-- A render target is bound, and no reservation for a delayed command succeeds after that. -/
def targetStaged : Manager :=
  vmwBindingAdd (.staged 0, .rt 0) ⟨1, some 5, .dxRt, []⟩ emptyManager

def targetBound : Manager := vmwBindingStateCommit 1 0 targetStaged

def bindTarget : List BindStep :=
  [⟨.add 0 ⟨1, some 5, .dxRt, []⟩ 0 0, [], []⟩, ⟨.commit 1 0, [], []⟩]

theorem targetStaged_ctx : ((targetStaged.slot p).ctx = some c) →
    p = (.staged 0, .rt 0) ∧ c = 1 := by
  intro h
  unfold targetStaged vmwBindingAdd at h
  rw [slot_setSlot] at h
  split_ifs at h with hp
  · exact ⟨hp, (Option.some.inj h).symm⟩
  · rw [slot_ctxListAdd, slot_dropLive hp] at h
    cases h

theorem bindTarget_run : Runs bindStep (fun s a => Proper s a.op ∧ Careful s a) emptyManager
    bindTarget targetBound := by
  refine .next (u := targetStaged) ⟨trivial, trivial⟩ rfl (.next ⟨?_, ?_⟩ rfl (.refl _))
  · exact fun l c' hc => (targetStaged_ctx hc).2
  · rintro ⟨bit, hbit⟩
    unfold targetStaged at hbit
    rw [(vmwBindingAdd_untouched _ _ _).dirty] at hbit
    cases hbit

def rebindLater : List BindStep := [⟨.resListScrub 5, [], [false]⟩, ⟨.rebindAll 1, [], [false]⟩]

def rebindLaterEnd : Manager := (exec bindStep targetBound rebindLater).getD targetBound

/-- The failures leave the bit set, and the binding is still on the list. -/
theorem rebindLater_context :
    ((rebindLaterEnd.cbs (.persistent 1)).dirty .rt = true ∧ rebindLaterEnd.dispatches.length = 2) ∧
    (∀ d ∈ rebindLaterEnd.dispatches, d ≠ none) ∧
    ∀ c, (∃ bit, (rebindLaterEnd.cbs (.persistent c)).dirty bit = true) →
      (rebindLaterEnd.cbs (.persistent c)).list ≠ [] := by
  have hrun : Runs bindStep (fun s a => Proper s a.op ∧ Careful s a) emptyManager
      (bindTarget ++ rebindLater) rebindLaterEnd :=
    bindTarget_run.trans (.next ⟨trivial, trivial⟩ rfl (.next ⟨trivial, trivial⟩ rfl (.refl _)))
  exact ⟨by decide +kernel, emitters_have_context hrun⟩

def killThenRebind : List BindStep := [⟨.resListKill 5, [], [false]⟩, ⟨.rebindAll 1, [], []⟩]

/-- The resource is destroyed while its commands cannot be sent: at the next submission the
    emitter is called for a context without bindings. -/
theorem killThenRebind_no_context : ∃ s,
    Runs bindStep (fun s a => Proper s a.op) emptyManager (bindTarget ++ killThenRebind) s ∧
    s.dispatches = [some 1, none] := by
  refine ⟨(exec bindStep targetBound killThenRebind).getD targetBound, ?_, by decide +kernel⟩
  refine (bindTarget_run.weaken fun _ _ h => h.1).trans ?_
  exact .next trivial rfl (.next trivial rfl (.refl _))

end Example

end Vmwgfx.BindingDirty
