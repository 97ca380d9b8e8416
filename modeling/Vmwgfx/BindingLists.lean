import Vmwgfx.BindingMachine
import Vmwgfx.LabelledRuns

set_option autoImplicit false

/-!
# Which lists a slot is on

A slot that is bound is on the list of its state once, and, if the state is that of a
context, also on the list of its resource. Scrubbing and binding again change no list.
-/
namespace Vmwgfx.BindingLists
open BindingSlots BindingMachine LabelledRuns

variable {s t : Manager} {p q : SlotRef} {i : StateId} {l : Loc} {r : ℕ}

section Equations

theorem cbs_setCbs_self {b : Cbs} : (s.setCbs i b).cbs i = b := by simp [Manager.setCbs]

theorem cbs_setCbs_of_ne {j : StateId} {b : Cbs} (h : j ≠ i) : (s.setCbs i b).cbs j = s.cbs j := by
  simp [Manager.setCbs, h]

theorem slot_setSlot (x : Slot) : (s.setSlot p x).slot q = if q = p then x else s.slot q := by
  obtain ⟨i, l⟩ := p
  obtain ⟨j, m⟩ := q
  by_cases hij : j = i
  · subst hij
    by_cases hlm : m = l <;>
      simp [Manager.setSlot, Manager.setCbs, Manager.slot, Cbs.setSlot, hlm]
  · simp [Manager.setSlot, Manager.setCbs, Manager.slot, hij]

@[simp] theorem list_setSlot (x : Slot) : ((s.setSlot p x).cbs i).list = (s.cbs i).list := by
  by_cases h : i = p.1
  · subst h
    simp [Manager.setSlot, Manager.setCbs, Cbs.setSlot]
  · simp [Manager.setSlot, Manager.setCbs, h]

@[simp] theorem bindingHead_setSlot (x : Slot) : (s.setSlot p x).bindingHead = s.bindingHead := rfl

@[simp] theorem misuse_setSlot (x : Slot) : (s.setSlot p x).misuse = s.misuse := rfl

theorem slot_setList {b : List Loc} :
    (s.setCbs i { s.cbs i with list := b }).slot q = s.slot q := by
  by_cases h : q.1 = i
  · subst h
    simp [Manager.setCbs, Manager.slot]
  · simp [Manager.setCbs, Manager.slot, h]

@[simp] theorem slot_ctxListDel : (ctxListDel p s).slot q = s.slot q := slot_setList

@[simp] theorem slot_ctxListAdd : (ctxListAdd p s).slot q = s.slot q := slot_setList

@[simp] theorem slot_ctxListAddTail : (ctxListAddTail p s).slot q = s.slot q := slot_setList

@[simp] theorem slot_resListDel : (resListDel p s).slot q = s.slot q := by
  unfold resListDel
  split <;> rfl

@[simp] theorem cbs_resListDel : (resListDel p s).cbs = s.cbs := by
  unfold resListDel
  split <;> rfl

theorem list_ctxListDel :
    ((ctxListDel p s).cbs i).list = if i = p.1 then (s.cbs i).list.erase p.2 else (s.cbs i).list := by
  by_cases h : i = p.1
  · subst h
    simp [ctxListDel, Manager.setCbs]
  · simp [ctxListDel, Manager.setCbs, h]

theorem list_ctxListAdd :
    ((ctxListAdd p s).cbs i).list = if i = p.1 then p.2 :: (s.cbs i).list else (s.cbs i).list := by
  by_cases h : i = p.1
  · subst h
    simp [ctxListAdd, Manager.setCbs]
  · simp [ctxListAdd, Manager.setCbs, h]

theorem list_ctxListAddTail :
    ((ctxListAddTail p s).cbs i).list =
      if i = p.1 then (s.cbs i).list ++ [p.2] else (s.cbs i).list := by
  by_cases h : i = p.1
  · subst h
    simp [ctxListAddTail, Manager.setCbs]
  · simp [ctxListAddTail, Manager.setCbs, h]

theorem bindingHead_resListDel : (resListDel p s).bindingHead r =
    if (s.slot p).resList = .on r then (s.bindingHead r).erase p else s.bindingHead r := by
  unfold resListDel
  split
  · rename_i h
    simp [h]
  · rename_i r' h
    by_cases hr : r = r'
    · subst hr
      simp [h]
    · have hne : ResLink.on r' ≠ .on r := fun he => hr (ResLink.on.inj he).symm
      simp [h, hne, hr]
  · rename_i h
    simp [h]

theorem slot_vmwBindingDrop : (vmwBindingDrop p s).slot q =
    if q = p then { s.slot p with ctx := none, resList := (s.slot p).resList.deleted }
    else s.slot q := by
  unfold vmwBindingDrop
  simp only [slot_setSlot, slot_resListDel, slot_ctxListDel]

theorem list_vmwBindingDrop : ((vmwBindingDrop p s).cbs i).list =
    if i = p.1 then (s.cbs i).list.erase p.2 else (s.cbs i).list := by
  unfold vmwBindingDrop
  simp only [list_setSlot, cbs_resListDel, list_ctxListDel]

theorem bindingHead_vmwBindingDrop : (vmwBindingDrop p s).bindingHead r =
    if (s.slot p).resList = .on r then (s.bindingHead r).erase p else s.bindingHead r := by
  unfold vmwBindingDrop
  simp only [bindingHead_setSlot, bindingHead_resListDel, slot_ctxListDel]
  rfl

end Equations

/-- The double membership of bound slots, and the lists as sets of slots. -/
structure ListsOk (s : Manager) : Prop where
  live : ∀ i l, (s.slot (i, l)).ctx.isSome ↔ l ∈ (s.cbs i).list
  nodup : ∀ i, (s.cbs i).list.Nodup
  bound : ∀ c l, (s.slot (.persistent c, l)).ctx.isSome → ∃ r,
    (s.slot (.persistent c, l)).res = some r ∧ (s.slot (.persistent c, l)).resList = .on r ∧
    (.persistent c, l) ∈ s.bindingHead r
  unlinked : ∀ i l, (s.slot (.staged i, l)).ctx.isSome → (s.slot (.staged i, l)).resList = .self
  heads : ∀ r, ∀ p ∈ s.bindingHead r, (∃ c, p.1 = .persistent c) ∧ (s.slot p).ctx.isSome ∧
    (s.slot p).res = some r
  headsNodup : ∀ r, (s.bindingHead r).Nodup
  safe : s.misuse = false

section Steps

theorem ListsOk.linked (h : ListsOk s) (hp : (s.slot p).ctx.isSome) :
    (s.slot p).resList = .self ∧ (∀ r, p ∉ s.bindingHead r) ∨
    ∃ r, (s.slot p).resList = .on r ∧ p ∈ s.bindingHead r := by
  obtain ⟨i, l⟩ := p
  cases i with
  | persistent c =>
    obtain ⟨r, -, hlink, hmem⟩ := h.bound c l hp
    exact .inr ⟨r, hlink, hmem⟩
  | staged i =>
    refine .inl ⟨h.unlinked i l hp, fun r hr => ?_⟩
    obtain ⟨c, hc⟩ := (h.heads r _ hr).1
    cases hc

theorem misuse_vmwBindingDrop (h : ListsOk s) (hp : (s.slot p).ctx.isSome) :
    (vmwBindingDrop p s).misuse = false := by
  have hlist : p.2 ∈ (s.cbs p.1).list := (h.live p.1 p.2).1 hp
  have hctx : (ctxListDel p s).misuse = false := by simp [ctxListDel, h.safe, hlist]
  unfold vmwBindingDrop
  simp only [misuse_setSlot]
  unfold resListDel
  simp only [slot_ctxListDel]
  rcases h.linked hp with ⟨hself, -⟩ | ⟨r, hon, hmem⟩
  · simp only [hself, hctx]
  · have hhead : p ∈ (ctxListDel p s).bindingHead r := hmem
    simp only [hon, hctx, hhead, not_true_eq_false, decide_false, Bool.or_false]

theorem ListsOk.drop (h : ListsOk s) (hp : (s.slot p).ctx.isSome) :
    ListsOk (vmwBindingDrop p s) := by
  have hother : ∀ {q}, ((vmwBindingDrop p s).slot q).ctx.isSome → q ≠ p := by
    rintro q hq rfl
    rw [slot_vmwBindingDrop, if_pos rfl] at hq
    cases hq
  have hsame : ∀ {q}, q ≠ p → (vmwBindingDrop p s).slot q = s.slot q := fun hq => by
    rw [slot_vmwBindingDrop, if_neg hq]
  have hhead : ∀ {q r}, q ≠ p → (q ∈ (vmwBindingDrop p s).bindingHead r ↔ q ∈ s.bindingHead r) := by
    intro q r hq
    rw [bindingHead_vmwBindingDrop]
    split_ifs
    · rw [List.mem_erase_of_ne hq]
    · rfl
  constructor
  · intro i l
    rw [list_vmwBindingDrop]
    by_cases hq : (i, l) = p
    · subst hq
      rw [slot_vmwBindingDrop, if_pos rfl, if_pos rfl]
      simp [(h.nodup i).mem_erase_iff]
    · rw [hsame hq, h.live]
      split_ifs with hi
      · subst hi
        rw [List.mem_erase_of_ne]
        rintro rfl
        exact hq rfl
      · rfl
  · intro i
    rw [list_vmwBindingDrop]
    split_ifs
    · exact (h.nodup i).erase _
    · exact h.nodup i
  · intro c l hq
    have hne := hother hq
    rw [hsame hne] at hq ⊢
    obtain ⟨r, hres, hlink, hmem⟩ := h.bound c l hq
    exact ⟨r, hres, hlink, (hhead hne).2 hmem⟩
  · intro i l hq
    have hne := hother hq
    rw [hsame hne] at hq ⊢
    exact h.unlinked i l hq
  · intro r q hq
    have hne : q ≠ p := by
      rintro rfl
      rw [bindingHead_vmwBindingDrop] at hq
      split_ifs at hq with hon
      · exact ((h.headsNodup r).mem_erase_iff.1 hq).1 rfl
      · rcases h.linked hp with ⟨-, hnone⟩ | ⟨r', hon', hmem'⟩
        · exact hnone r hq
        · have hr := (h.heads r q hq).2.2
          rw [(h.heads r' q hmem').2.2] at hr
          exact hon (Option.some.inj hr ▸ hon')
    rw [hsame hne]
    exact h.heads r q ((hhead hne).1 hq)
  · intro r
    rw [bindingHead_vmwBindingDrop]
    split_ifs
    · exact (h.headsNodup r).erase _
    · exact h.headsNodup r
  · exact misuse_vmwBindingDrop h hp

theorem ListsOk.dropLive (h : ListsOk s) : ListsOk (dropLive p s) := by
  unfold BindingMachine.dropLive
  split_ifs with hp
  · exact h.drop hp
  · exact h

theorem dropLive_dead (p : SlotRef) (s : Manager) : ((dropLive p s).slot p).ctx = none := by
  unfold BindingMachine.dropLive
  split_ifs with hp
  · rw [slot_vmwBindingDrop, if_pos rfl]
  · simpa using hp

theorem slot_dropLive (hq : q ≠ p) : (dropLive p s).slot q = s.slot q := by
  unfold BindingMachine.dropLive
  split_ifs
  · rw [slot_vmwBindingDrop, if_neg hq]
  · rfl

theorem ListsOk.unlisted (h : ListsOk s) (hp : (s.slot p).ctx = none) :
    p.2 ∉ (s.cbs p.1).list ∧ ∀ r, p ∉ s.bindingHead r := by
  have hdead : ¬ (s.slot p).ctx.isSome := by simp [hp]
  exact ⟨fun hmem => hdead ((h.live p.1 p.2).2 hmem), fun r hr => hdead (h.heads r p hr).2.1⟩

theorem ListsOk.add (h : ListsOk s) {i : ℕ} (bi : BindInfo) :
    ListsOk (vmwBindingAdd (.staged i, l) bi s) := by
  unfold vmwBindingAdd
  have hdead := dropLive_dead (.staged i, l) s
  have h' : ListsOk (BindingMachine.dropLive (.staged i, l) s) := h.dropLive
  generalize BindingMachine.dropLive (.staged i, l) s = u at h' hdead
  obtain ⟨hlist, hheads⟩ := h'.unlisted hdead
  constructor
  · intro j m
    rw [slot_setSlot, list_setSlot, list_ctxListAdd, slot_ctxListAdd]
    by_cases hq : (j, m) = (.staged i, l)
    · cases hq
      simp
    · rw [if_neg hq, h'.live]
      split_ifs with hj
      · subst hj
        have hml : m ≠ l := fun he => hq (by rw [he])
        simp [hml]
      · rfl
  · intro j
    rw [list_setSlot, list_ctxListAdd]
    split_ifs with hj
    · subst hj
      exact List.nodup_cons.2 ⟨hlist, h'.nodup _⟩
    · exact h'.nodup j
  · intro c m hq
    rw [slot_setSlot, if_neg (by simp), slot_ctxListAdd] at hq ⊢
    exact h'.bound c m hq
  · intro j m hq
    rw [slot_setSlot, slot_ctxListAdd] at hq ⊢
    split_ifs at hq ⊢
    · rfl
    · exact h'.unlinked j m hq
  · intro r q hq
    have hne : q ≠ (.staged i, l) := by
      rintro rfl
      exact hheads r hq
    rw [slot_setSlot, if_neg hne, slot_ctxListAdd]
    exact h'.heads r q hq
  · exact h'.headsNodup
  · simp [ctxListAdd, h'.safe, hlist]

theorem slot_linkCopy {bi : Slot} : (linkCopy p bi r s).slot q =
    if q = p then { bi with resList := .on r } else s.slot q := by
  change ((ctxListAddTail p s).setSlot p _).slot q = _
  rw [slot_setSlot, slot_ctxListAddTail]

theorem list_linkCopy {bi : Slot} : ((linkCopy p bi r s).cbs i).list =
    if i = p.1 then (s.cbs i).list ++ [p.2] else (s.cbs i).list := by
  change (((ctxListAddTail p s).setSlot p _).cbs i).list = _
  rw [list_setSlot, list_ctxListAddTail]

theorem bindingHead_linkCopy {bi : Slot} {r' : ℕ} : (linkCopy p bi r s).bindingHead r' =
    if r' = r then s.bindingHead r' ++ [p] else s.bindingHead r' := by
  change Function.update s.bindingHead r (s.bindingHead r ++ [p]) r' = _
  rw [Function.update_apply]
  split_ifs with h
  · rw [h]
  · rfl

theorem ListsOk.link (h : ListsOk s) {c : ℕ} {bi : Slot}
    (hdead : (s.slot (.persistent c, l)).ctx = none) (hlive : bi.ctx.isSome)
    (hres : bi.res = some r) : ListsOk (linkCopy (.persistent c, l) bi r s) := by
  obtain ⟨hlist, hheads⟩ := h.unlisted hdead
  constructor
  · intro j m
    rw [slot_linkCopy, list_linkCopy]
    by_cases hq : (j, m) = (.persistent c, l)
    · cases hq
      simp [hlive]
    · rw [if_neg hq, h.live]
      split_ifs with hj
      · subst hj
        have hml : m ≠ l := fun he => hq (by rw [he])
        simp [hml]
      · rfl
  · intro j
    rw [list_linkCopy]
    split_ifs with hj
    · subst hj
      exact (h.nodup _).append (List.nodup_singleton l) (by simpa using hlist)
    · exact h.nodup j
  · intro c' m hq
    rw [slot_linkCopy] at hq ⊢
    split_ifs at hq ⊢ with heq
    · refine ⟨r, hres, rfl, ?_⟩
      rw [bindingHead_linkCopy, if_pos rfl, heq]
      simp
    · obtain ⟨r', hres', hlink, hmem⟩ := h.bound c' m hq
      refine ⟨r', hres', hlink, ?_⟩
      rw [bindingHead_linkCopy]
      split_ifs
      · exact List.mem_append_left _ hmem
      · exact hmem
  · intro j m hq
    rw [slot_linkCopy, if_neg (by simp)] at hq ⊢
    exact h.unlinked j m hq
  · intro r' q hq
    rw [bindingHead_linkCopy] at hq
    rw [slot_linkCopy]
    by_cases heq : q = (.persistent c, l)
    · rw [if_pos heq]
      subst heq
      split_ifs at hq with hr
      · exact ⟨⟨c, rfl⟩, hlive, hr ▸ hres⟩
      · exact absurd hq (hheads r')
    · rw [if_neg heq]
      refine h.heads r' q ?_
      split_ifs at hq
      · simpa [heq] using hq
      · exact hq
  · intro r'
    rw [bindingHead_linkCopy]
    split_ifs
    · exact (h.headsNodup r').append (List.nodup_singleton _) (by simpa using hheads r')
    · exact h.headsNodup r'
  · have hctx : (ctxListAddTail (.persistent c, l) s).misuse = false := by
      simp [ctxListAddTail, h.safe, hlist]
    change ((ctxListAddTail (.persistent c, l) s).misuse ||
      decide ((.persistent c, l) ∈ s.bindingHead r)) = false
    simp [hctx, hheads r]

theorem ListsOk.transfer (h : ListsOk s) {c i : ℕ} (hl : (s.slot (.staged i, l)).ctx.isSome) :
    ListsOk (vmwBindingTransfer c i l s) := by
  unfold vmwBindingTransfer
  dsimp only
  split
  · exact h.dropLive
  · rename_i hres
    exact h.dropLive.link (dropLive_dead _ _) hl hres

theorem ListsOk.dropAll {ps : List SlotRef} (h : ListsOk s) (hnodup : ps.Nodup)
    (hlive : ∀ p ∈ ps, (s.slot p).ctx.isSome) : ListsOk (dropAll ps s) := by
  induction ps generalizing s with
  | nil => exact h
  | cons p ps ih =>
    rw [List.nodup_cons] at hnodup
    refine ih (h.drop (hlive p List.mem_cons_self)) hnodup.2 fun q hq => ?_
    rw [slot_vmwBindingDrop, if_neg (by rintro rfl; exact hnodup.1 hq)]
    exact hlive q (List.mem_cons_of_mem _ hq)

theorem ListsOk.entries_live (h : ListsOk s) : ∀ p ∈ s.entries i, (s.slot p).ctx.isSome := by
  intro p hp
  obtain ⟨l, hl, rfl⟩ := List.mem_map.1 hp
  exact (h.live i l).2 hl

theorem ListsOk.entries_nodup (h : ListsOk s) : (s.entries i).Nodup :=
  (h.nodup i).map fun _ _ he => (Prod.mk.inj he).2

theorem ListsOk.reset (h : ListsOk s) : ListsOk (vmwBindingStateReset i s) :=
  h.dropAll h.entries_nodup h.entries_live

theorem ListsOk.commit (h : ListsOk s) (c i : ℕ) : ListsOk (vmwBindingStateCommit c i s) := by
  unfold vmwBindingStateCommit
  have hlive : ∀ l ∈ (s.cbs (.staged i)).list, (s.slot (.staged i, l)).ctx.isSome := fun l hl =>
    (h.live _ l).2 hl
  have hnodup := h.nodup (.staged i)
  generalize (s.cbs (.staged i)).list = ls at hlive hnodup
  induction ls generalizing s with
  | nil => exact h
  | cons l ls ih =>
    rw [List.nodup_cons] at hnodup
    have hl := hlive l List.mem_cons_self
    have hstaged : ∀ m, (vmwBindingTransfer c i l s).slot (.staged i, m) = s.slot (.staged i, m) := by
      intro m
      unfold vmwBindingTransfer
      dsimp only
      split
      · exact slot_dropLive (by simp)
      · rw [slot_linkCopy, if_neg (by simp)]
        exact slot_dropLive (by simp)
    refine ih ((h.transfer hl).drop ?_) (fun m hm => ?_) hnodup.2
    · rw [hstaged]
      exact hl
    · rw [slot_vmwBindingDrop, if_neg (by rintro ⟨⟩; exact hnodup.1 hm), hstaged]
      exact hlive m (List.mem_cons_of_mem _ hm)

end Steps

/-- Nothing is changed but dirty bits, the device and the reservations. -/
structure Kept (s t : Manager) : Prop where
  slots : ∀ i, (t.cbs i).slots = (s.cbs i).slots
  lists : ∀ i, (t.cbs i).list = (s.cbs i).list
  heads : t.bindingHead = s.bindingHead
  valid : t.valid = s.valid
  misuse : t.misuse = s.misuse

/-- Besides, slots are marked as scrubbed or no longer so. -/
structure SameTracks (s t : Manager) : Prop where
  slot : ∀ p, ∃ v, t.slot p = { s.slot p with scrubbed := v }
  lists : ∀ i, (t.cbs i).list = (s.cbs i).list
  heads : t.bindingHead = s.bindingHead
  valid : t.valid = s.valid
  misuse : t.misuse = s.misuse

section Frames

theorem Kept.refl (s : Manager) : Kept s s := ⟨fun _ => rfl, fun _ => rfl, rfl, rfl, rfl⟩

theorem Kept.trans {u : Manager} (h : Kept s t) (h' : Kept t u) : Kept s u :=
  ⟨fun i => (h'.slots i).trans (h.slots i), fun i => (h'.lists i).trans (h.lists i),
    h'.heads.trans h.heads, h'.valid.trans h.valid, h'.misuse.trans h.misuse⟩

theorem Kept.slot (h : Kept s t) (p : SlotRef) : t.slot p = s.slot p := by
  unfold Manager.slot
  rw [h.slots]

theorem Kept.sameTracks (h : Kept s t) : SameTracks s t :=
  ⟨fun p => ⟨(s.slot p).scrubbed, by rw [h.slot p]⟩, h.lists, h.heads, h.valid, h.misuse⟩

theorem SameTracks.trans {u : Manager} (h : SameTracks s t) (h' : SameTracks t u) :
    SameTracks s u := by
  refine ⟨fun p => ?_, fun i => (h'.lists i).trans (h.lists i), h'.heads.trans h.heads,
    h'.valid.trans h.valid, h'.misuse.trans h.misuse⟩
  obtain ⟨v, hv⟩ := h.slot p
  obtain ⟨w, hw⟩ := h'.slot p
  exact ⟨w, by rw [hw, hv]⟩

theorem SameTracks.ctx (h : SameTracks s t) (p : SlotRef) : (t.slot p).ctx = (s.slot p).ctx := by
  obtain ⟨v, hv⟩ := h.slot p
  rw [hv]

theorem SameTracks.res (h : SameTracks s t) (p : SlotRef) : (t.slot p).res = (s.slot p).res := by
  obtain ⟨v, hv⟩ := h.slot p
  rw [hv]

theorem SameTracks.resList (h : SameTracks s t) (p : SlotRef) :
    (t.slot p).resList = (s.slot p).resList := by
  obtain ⟨v, hv⟩ := h.slot p
  rw [hv]

theorem SameTracks.listsOk (h : SameTracks s t) (hs : ListsOk s) : ListsOk t where
  live i l := by rw [h.ctx, h.lists, hs.live]
  nodup i := by rw [h.lists]; exact hs.nodup i
  bound c l := by rw [h.ctx, h.res, h.resList, h.heads]; exact hs.bound c l
  unlinked i l := by rw [h.ctx, h.resList]; exact hs.unlinked i l
  heads r p := by rw [h.heads, h.ctx, h.res]; exact hs.heads r p
  headsNodup r := by rw [h.heads]; exact hs.headsNodup r
  safe := by rw [h.misuse]; exact hs.safe

theorem kept_setCbs {b : Cbs} (hslots : b.slots = (s.cbs i).slots) (hlist : b.list = (s.cbs i).list) :
    Kept s (s.setCbs i b) := by
  refine ⟨fun j => ?_, fun j => ?_, rfl, rfl, rfl⟩
  · by_cases hj : j = i
    · rw [hj, cbs_setCbs_self, hslots]
    · rw [cbs_setCbs_of_ne hj]
  · by_cases hj : j = i
    · rw [hj, cbs_setCbs_self, hlist]
    · rw [cbs_setCbs_of_ne hj]

theorem Kept.vmwCbsContext_eq (h : Kept s t) :
    vmwCbsContext (t.cbs i) = vmwCbsContext (s.cbs i) := by
  unfold vmwCbsContext
  rw [h.slots, h.lists]

theorem sendLater_kept (i : StateId) (cmd : ℕ → BindCmd) (s : Manager) :
    Kept s (sendLater i cmd s).2 := by
  unfold sendLater
  split
  · exact .refl s
  · split_ifs <;> exact ⟨fun _ => rfl, fun _ => rfl, rfl, rfl, rfl⟩

theorem sendSome_kept (i : StateId) (n : ℕ) (cmd : ℕ → BindCmd) (s : Manager) :
    Kept s (sendSome i n cmd s).2 := by
  unfold sendSome
  split_ifs
  · exact .refl s
  · exact sendLater_kept i cmd s

theorem sendNow_kept (c : ℕ) (l : Loc) (x : Option Content) (s : Manager) :
    Kept s (sendNow c l x s).2 := by
  unfold sendNow
  split_ifs <;> exact ⟨fun _ => rfl, fun _ => rfl, rfl, rfl, rfl⟩

theorem Kept.setCbs {b : Cbs} (h : Kept s t) (hslots : b.slots = (s.cbs i).slots)
    (hlist : b.list = (s.cbs i).list) : Kept s (t.setCbs i b) :=
  h.trans (kept_setCbs (hslots.trans (h.slots i).symm) (hlist.trans (h.lists i).symm))

theorem vmwEmitSetSr_kept (i : StateId) (sh : Fin 3) (s : Manager) :
    Kept s (vmwEmitSetSr i sh s).2 := by
  unfold vmwEmitSetSr
  dsimp only
  split_ifs
  · exact (sendSome_kept _ _ _ s).setCbs rfl rfl
  · exact sendSome_kept _ _ _ s

theorem vmwEmitSetVb_kept (i : StateId) (s : Manager) : Kept s (vmwEmitSetVb i s).2 := by
  unfold vmwEmitSetVb
  dsimp only
  split_ifs
  · exact (sendSome_kept _ _ _ s).setCbs rfl rfl
  · exact sendSome_kept _ _ _ s

theorem emitShaders_kept (i : StateId) (shs : List (Fin 3)) (s : Manager) :
    Kept s (emitShaders i shs s) := by
  induction shs generalizing s with
  | nil => exact .refl s
  | cons sh shs ih =>
    unfold emitShaders
    dsimp only
    have hsr := vmwEmitSetSr_kept i sh s
    split_ifs
    · refine Kept.trans ?_ (ih _)
      exact hsr.trans (kept_setCbs rfl rfl)
    · exact hsr
    · exact ih s

theorem emitter_kept (i : StateId) (bit : DirtyBit) (s : Manager) :
    Kept s (emitter i bit s).2 := by
  cases bit
  · exact sendLater_kept _ _ s
  · exact emitShaders_kept i _ s
  · exact sendSome_kept _ _ _ s
  · exact vmwEmitSetVb_kept i s

theorem emitBit_kept (i : StateId) (bit : DirtyBit) (s : Manager) :
    Kept s (emitBit i bit s).2 := by
  have hnote : Kept s { s with dispatches := s.dispatches ++ [vmwCbsContext (s.cbs i)] } :=
    ⟨fun _ => rfl, fun _ => rfl, rfl, rfl, rfl⟩
  have hemit := hnote.trans (emitter_kept i bit _)
  unfold emitBit
  dsimp only
  split_ifs
  · exact hemit.trans (kept_setCbs rfl rfl)
  · exact hemit

theorem emitBits_kept (i : StateId) (bits : List DirtyBit) (s : Manager) :
    Kept s (emitBits i bits s).2 := by
  induction bits generalizing s with
  | nil => exact .refl s
  | cons bit bits ih =>
    have hbit := emitBit_kept i bit s
    unfold emitBits
    dsimp only
    split_ifs
    · exact hbit.trans (ih _)
    · exact hbit
    · exact ih s

theorem vmwBindingEmitDirty_kept (i : StateId) (s : Manager) :
    Kept s (vmwBindingEmitDirty i s).2 := emitBits_kept i _ s

theorem markDirty_slots (b : Cbs) (bit : DirtyBit) (l : Loc) :
    (markDirty b bit l).slots = b.slots ∧ (markDirty b bit l).list = b.list := by
  unfold markDirty
  dsimp only
  split <;> exact ⟨rfl, rfl⟩

theorem scrubFunc_kept (p : SlotRef) (rebind : Bool) (s : Manager) :
    Kept s (scrubFunc p rebind s).2 := by
  unfold scrubFunc
  dsimp only
  split
  · exact .refl s
  · split
    · exact kept_setCbs (markDirty_slots _ _ _).1 (markDirty_slots _ _ _).2
    · exact sendNow_kept _ _ _ s

theorem setScrubbed_sameTracks (p : SlotRef) (v : Bool) (s : Manager) :
    SameTracks s (setScrubbed p v s) := by
  refine ⟨fun q => ?_, fun i => list_setSlot _, rfl, rfl, rfl⟩
  unfold setScrubbed
  rw [slot_setSlot]
  split_ifs with h
  · exact ⟨v, by rw [h]⟩
  · exact ⟨_, rfl⟩

theorem scrubEntry_sameTracks (p : SlotRef) (s : Manager) : SameTracks s (scrubEntry p s) := by
  unfold scrubEntry
  split_ifs
  · exact (Kept.refl s).sameTracks
  · exact (scrubFunc_kept p false s).sameTracks.trans (setScrubbed_sameTracks p true _)

theorem sameTracks_foldl {f : Manager → SlotRef → Manager} (hf : ∀ s p, SameTracks s (f s p))
    (ps : List SlotRef) (s : Manager) : SameTracks s (ps.foldl f s) := by
  induction ps generalizing s with
  | nil => exact (Kept.refl s).sameTracks
  | cons p ps ih => exact (hf s p).trans (ih _)

theorem scrubAll_sameTracks (ps : List SlotRef) (s : Manager) : SameTracks s (scrubAll ps s) :=
  sameTracks_foldl (fun s p => scrubEntry_sameTracks p s) ps s

theorem emitOwner_kept (p : SlotRef) (s : Manager) : Kept s (emitOwner p s) := by
  unfold emitOwner
  split
  · exact vmwBindingEmitDirty_kept _ s
  · exact .refl s

theorem emitOwners_kept (ps : List SlotRef) (s : Manager) : Kept s (emitOwners ps s) := by
  induction ps generalizing s with
  | nil => exact .refl s
  | cons p ps ih => exact (emitOwner_kept p s).trans (ih _)

theorem vmwBindingStateScrub_sameTracks (i : StateId) (s : Manager) :
    SameTracks s (vmwBindingStateScrub i s) :=
  (scrubAll_sameTracks _ s).trans (vmwBindingEmitDirty_kept i _).sameTracks

theorem vmwBindingResListScrub_sameTracks (r : ℕ) (s : Manager) :
    SameTracks s (vmwBindingResListScrub r s) :=
  (scrubAll_sameTracks _ s).trans (emitOwners_kept _ _).sameTracks

theorem rebindEntries_sameTracks (ps : List SlotRef) (s : Manager) :
    SameTracks s (rebindEntries ps s).2 := by
  induction ps generalizing s with
  | nil => exact (Kept.refl s).sameTracks
  | cons p ps ih =>
    have hscrub := (scrubFunc_kept p true s).sameTracks
    unfold rebindEntries
    dsimp only
    split_ifs
    · exact (hscrub.trans (setScrubbed_sameTracks p false _)).trans (ih _)
    · exact hscrub
    · exact ih s

theorem vmwBindingRebindAll_sameTracks (i : StateId) (s : Manager) :
    SameTracks s (vmwBindingRebindAll i s) := by
  have hentries := rebindEntries_sameTracks (s.entries i) s
  unfold vmwBindingRebindAll
  dsimp only
  split_ifs
  · exact hentries.trans (vmwBindingEmitDirty_kept i _).sameTracks
  · exact hentries

end Frames

/-- List operations leave the dirty bits and the device alone. -/
structure Untouched (s t : Manager) : Prop where
  dirty : ∀ i, (t.cbs i).dirty = (s.cbs i).dirty
  dirtyVb : ∀ i, (t.cbs i).dirtyVb = (s.cbs i).dirtyVb
  dirtyPs : ∀ i, (t.cbs i).dirtyPs = (s.cbs i).dirtyPs
  dirtySr : ∀ i, (t.cbs i).dirtySr = (s.cbs i).dirtySr
  device : t.device = s.device
  valid : t.valid = s.valid
  later : t.later = s.later
  dispatches : t.dispatches = s.dispatches
  now : t.now = s.now

section Tracking

theorem Untouched.refl (s : Manager) : Untouched s s :=
  ⟨fun _ => rfl, fun _ => rfl, fun _ => rfl, fun _ => rfl, rfl, rfl, rfl, rfl, rfl⟩

theorem Untouched.trans {u : Manager} (h : Untouched s t) (h' : Untouched t u) : Untouched s u :=
  ⟨fun i => (h'.dirty i).trans (h.dirty i), fun i => (h'.dirtyVb i).trans (h.dirtyVb i),
    fun i => (h'.dirtyPs i).trans (h.dirtyPs i), fun i => (h'.dirtySr i).trans (h.dirtySr i),
    h'.device.trans h.device, h'.valid.trans h.valid, h'.later.trans h.later,
    h'.dispatches.trans h.dispatches, h'.now.trans h.now⟩

theorem untouched_setCbs {b : Cbs} (hdirty : b.dirty = (s.cbs i).dirty)
    (hvb : b.dirtyVb = (s.cbs i).dirtyVb) (hps : b.dirtyPs = (s.cbs i).dirtyPs)
    (hsr : b.dirtySr = (s.cbs i).dirtySr) : Untouched s (s.setCbs i b) := by
  refine ⟨fun j => ?_, fun j => ?_, fun j => ?_, fun j => ?_, rfl, rfl, rfl, rfl, rfl⟩
  all_goals
    by_cases hj : j = i
    · rw [hj, cbs_setCbs_self]
      assumption
    · rw [cbs_setCbs_of_ne hj]

theorem setSlot_untouched (p : SlotRef) (x : Slot) (s : Manager) : Untouched s (s.setSlot p x) :=
  untouched_setCbs rfl rfl rfl rfl

theorem ctxListDel_untouched (p : SlotRef) (s : Manager) : Untouched s (ctxListDel p s) := by
  have h : Untouched s (s.setCbs p.1 { s.cbs p.1 with list := (s.cbs p.1).list.erase p.2 }) :=
    untouched_setCbs rfl rfl rfl rfl
  exact ⟨h.dirty, h.dirtyVb, h.dirtyPs, h.dirtySr, rfl, rfl, rfl, rfl, rfl⟩

theorem ctxListAdd_untouched (p : SlotRef) (s : Manager) : Untouched s (ctxListAdd p s) := by
  have h : Untouched s (s.setCbs p.1 { s.cbs p.1 with list := p.2 :: (s.cbs p.1).list }) :=
    untouched_setCbs rfl rfl rfl rfl
  exact ⟨h.dirty, h.dirtyVb, h.dirtyPs, h.dirtySr, rfl, rfl, rfl, rfl, rfl⟩

theorem ctxListAddTail_untouched (p : SlotRef) (s : Manager) :
    Untouched s (ctxListAddTail p s) := by
  have h : Untouched s (s.setCbs p.1 { s.cbs p.1 with list := (s.cbs p.1).list ++ [p.2] }) :=
    untouched_setCbs rfl rfl rfl rfl
  exact ⟨h.dirty, h.dirtyVb, h.dirtyPs, h.dirtySr, rfl, rfl, rfl, rfl, rfl⟩

theorem resListDel_untouched (p : SlotRef) (s : Manager) : Untouched s (resListDel p s) := by
  unfold resListDel
  split <;> exact ⟨fun _ => rfl, fun _ => rfl, fun _ => rfl, fun _ => rfl, rfl, rfl, rfl, rfl, rfl⟩

theorem vmwBindingDrop_untouched (p : SlotRef) (s : Manager) : Untouched s (vmwBindingDrop p s) :=
  ((ctxListDel_untouched p s).trans (resListDel_untouched p _)).trans (setSlot_untouched p _ _)

theorem dropLive_untouched (p : SlotRef) (s : Manager) : Untouched s (dropLive p s) := by
  unfold BindingMachine.dropLive
  split_ifs
  · exact vmwBindingDrop_untouched p s
  · exact .refl s

theorem vmwBindingAdd_untouched (p : SlotRef) (bi : BindInfo) (s : Manager) :
    Untouched s (vmwBindingAdd p bi s) :=
  ((dropLive_untouched p s).trans (ctxListAdd_untouched p _)).trans (setSlot_untouched p _ _)

theorem linkCopy_untouched (p : SlotRef) (bi : Slot) (r : ℕ) (s : Manager) :
    Untouched s (linkCopy p bi r s) := by
  have h := (ctxListAddTail_untouched p s).trans
    (setSlot_untouched p { bi with resList := .on r } _)
  exact ⟨h.dirty, h.dirtyVb, h.dirtyPs, h.dirtySr, rfl, rfl, rfl, rfl, rfl⟩

theorem vmwBindingTransfer_untouched (c i : ℕ) (l : Loc) (s : Manager) :
    Untouched s (vmwBindingTransfer c i l s) := by
  unfold vmwBindingTransfer
  dsimp only
  split
  · exact dropLive_untouched _ s
  · exact (dropLive_untouched _ s).trans (linkCopy_untouched _ _ _ _)

theorem dropAll_untouched (ps : List SlotRef) (s : Manager) : Untouched s (dropAll ps s) := by
  induction ps generalizing s with
  | nil => exact .refl s
  | cons p ps ih => exact (vmwBindingDrop_untouched p s).trans (ih _)

theorem vmwBindingStateCommit_untouched (c i : ℕ) (s : Manager) :
    Untouched s (vmwBindingStateCommit c i s) := by
  unfold vmwBindingStateCommit
  generalize (s.cbs (.staged i)).list = ls
  induction ls generalizing s with
  | nil => exact .refl s
  | cons l ls ih =>
    exact ((vmwBindingTransfer_untouched c i l s).trans (vmwBindingDrop_untouched _ _)).trans (ih _)

theorem slot_dropAll_of_notMem {ps : List SlotRef} (hq : q ∉ ps) :
    (dropAll ps s).slot q = s.slot q := by
  induction ps generalizing s with
  | nil => rfl
  | cons p ps ih =>
    rw [List.mem_cons, not_or] at hq
    change (dropAll ps (vmwBindingDrop p s)).slot q = _
    rw [ih hq.2, slot_vmwBindingDrop, if_neg hq.1]

theorem slot_dropAll_of_mem {ps : List SlotRef} (hq : q ∈ ps) :
    ((dropAll ps s).slot q).ctx = none := by
  induction ps generalizing s with
  | nil => cases hq
  | cons p ps ih =>
    change ((dropAll ps (vmwBindingDrop p s)).slot q).ctx = none
    by_cases hps : q ∈ ps
    · exact ih hps
    · obtain rfl := (List.mem_cons.1 hq).resolve_right hps
      rw [slot_dropAll_of_notMem hps, slot_vmwBindingDrop, if_pos rfl]

/-- What becomes of a slot of the context when a staged one is transferred. -/
def Transferred (staged new : Slot) : Prop :=
  match staged.res with
  | some r => new = { staged with resList := .on r }
  | none => new.ctx = none

theorem vmwBindingTransfer_transferred (c i : ℕ) (l : Loc) (s : Manager) :
    Transferred (s.slot (.staged i, l)) ((vmwBindingTransfer c i l s).slot (.persistent c, l)) := by
  unfold Transferred vmwBindingTransfer
  dsimp only
  split
  · rename_i hres
    rw [hres]
    dsimp only
    rw [slot_linkCopy, if_pos rfl, hres]
  · rename_i hres
    rw [hres]
    exact dropLive_dead _ s

theorem slot_vmwBindingTransfer_of_ne {c i : ℕ} (hq : q ≠ (.persistent c, l)) :
    (vmwBindingTransfer c i l s).slot q = s.slot q := by
  unfold vmwBindingTransfer
  dsimp only
  split
  · exact slot_dropLive hq
  · rw [slot_linkCopy, if_neg hq]
    exact slot_dropLive hq

theorem commit_foldl {c i : ℕ} {ls : List Loc} (hnodup : ls.Nodup) (u : Manager)
    (hu : u = ls.foldl
      (fun s l => vmwBindingDrop (.staged i, l) (vmwBindingTransfer c i l s)) s) :
    (∀ l ∈ ls, Transferred (s.slot (.staged i, l)) (u.slot (.persistent c, l)) ∧
      (u.slot (.staged i, l)).ctx = none) ∧
    ∀ q, (∀ l ∈ ls, q ≠ (.persistent c, l) ∧ q ≠ (.staged i, l)) → u.slot q = s.slot q := by
  induction ls generalizing s with
  | nil =>
    subst hu
    exact ⟨by simp, fun _ _ => rfl⟩
  | cons l ls ih =>
    rw [List.nodup_cons] at hnodup
    obtain ⟨hmem, hothers⟩ := ih hnodup.2 hu
    have hstep : ∀ q, q ≠ (.persistent c, l) → q ≠ (.staged i, l) →
        (vmwBindingDrop (.staged i, l) (vmwBindingTransfer c i l s)).slot q = s.slot q := by
      intro q hp hq
      rw [slot_vmwBindingDrop, if_neg hq, slot_vmwBindingTransfer_of_ne hp]
    refine ⟨fun m hm => ?_, fun q hq => ?_⟩
    · by_cases hml : m = l
      · subst hml
        rw [hothers (.persistent c, m) fun k hk => ?_, hothers (.staged i, m) fun k hk => ?_,
          slot_vmwBindingDrop, if_neg (by simp), slot_vmwBindingDrop, if_pos rfl]
        · exact ⟨vmwBindingTransfer_transferred c i m s, rfl⟩
        · refine ⟨by simp, ?_⟩
          rintro ⟨⟩
          exact hnodup.1 hk
        · refine ⟨?_, by simp⟩
          rintro ⟨⟩
          exact hnodup.1 hk
      · have := hmem m ((List.mem_cons.1 hm).resolve_left hml)
        rwa [hstep _ (by simp) (by simpa using hml)] at this
    · rw [hothers q fun k hk => hq k (List.mem_cons_of_mem _ hk)]
      exact hstep q (hq l List.mem_cons_self).1 (hq l List.mem_cons_self).2

variable {c i : ℕ}

theorem ListsOk.commit_transferred (h : ListsOk s) (hl : (s.slot (.staged i, l)).ctx.isSome) :
    Transferred (s.slot (.staged i, l))
      ((vmwBindingStateCommit c i s).slot (.persistent c, l)) :=
  ((commit_foldl (h.nodup _) _ rfl).1 l ((h.live _ l).1 hl)).1

theorem ListsOk.commit_of_dead (h : ListsOk s) (hl : (s.slot (.staged i, l)).ctx = none) :
    (vmwBindingStateCommit c i s).slot (.persistent c, l) = s.slot (.persistent c, l) := by
  refine (commit_foldl (h.nodup _) _ rfl).2 _ fun m hm => ⟨?_, by simp⟩
  rintro ⟨⟩
  have := (h.live (.staged i) l).2 hm
  rw [hl] at this
  cases this

theorem ListsOk.commit_of_ne (h : ListsOk s) (hp : q.1 ≠ .persistent c) (hq : q.1 ≠ .staged i) :
    (vmwBindingStateCommit c i s).slot q = s.slot q := by
  refine (commit_foldl (h.nodup _) _ rfl).2 _ fun m _ => ⟨?_, ?_⟩
  · rintro rfl
    exact hp rfl
  · rintro rfl
    exact hq rfl

theorem ListsOk.commit_staged (h : ListsOk s) :
    ((vmwBindingStateCommit c i s).slot (.staged i, l)).ctx = none := by
  by_cases hl : (s.slot (.staged i, l)).ctx.isSome
  · exact ((commit_foldl (h.nodup _) _ rfl).1 l ((h.live _ l).1 hl)).2
  · have hq : (vmwBindingStateCommit c i s).slot (.staged i, l) = s.slot (.staged i, l) := by
      refine (commit_foldl (h.nodup _) _ rfl).2 _ fun m hm => ⟨by simp, ?_⟩
      rintro ⟨⟩
      exact hl ((h.live (.staged i) l).2 hm)
    rw [hq]
    simpa using hl

end Tracking

section Runs

inductive BindOp where
  | add (i : ℕ) (bi : BindInfo) (shaderSlot slot : ℕ)
  | commit (ctx i : ℕ)
  | kill (ctx : ℕ)
  | scrub (ctx : ℕ)
  | resListKill (res : ℕ)
  | resListScrub (res : ℕ)
  | rebindAll (ctx : ℕ)
  | reset (i : StateId)
  /-- Resources get ids and lose them. -/
  | setIds (valid : ℕ → Bool)

/-- An operation with the outcomes of the reservations that it makes. -/
structure BindStep where
  op : BindOp
  now : List Bool
  later : List Bool

def bindOp : BindOp → Manager → Option Manager
  | .add i bi shaderSlot slot, s =>
    (vmwBindingLoc bi.bt shaderSlot slot).map fun l => vmwBindingAdd (.staged i, l) bi s
  | .commit c i, s => some (vmwBindingStateCommit c i s)
  | .kill c, s => some (vmwBindingStateKill (.persistent c) s)
  | .scrub c, s => some (vmwBindingStateScrub (.persistent c) s)
  | .resListKill r, s => some (vmwBindingResListKill r s)
  | .resListScrub r, s => some (vmwBindingResListScrub r s)
  | .rebindAll c, s => some (vmwBindingRebindAll (.persistent c) s)
  | .reset i, s => some (vmwBindingStateReset i s)
  | .setIds valid, s => some { s with valid := valid }

def bindStep (s : Manager) (a : BindStep) : Option Manager :=
  bindOp a.op { s with now := a.now, later := a.later }

def emptySlot : Slot := ⟨none, none, .shader, false, [], .self⟩

def emptyCbs : Cbs := ⟨fun _ => emptySlot, [], fun _ => false, fun _ => false, fun _ => false,
  fun _ _ => false⟩

/-- Any number of states, each just allocated, and a device with nothing bound. -/
def emptyManager : Manager where
  cbs _ := emptyCbs
  bindingHead _ := []
  valid _ := true
  device _ _ := none
  now := []
  later := []
  misuse := false
  dispatches := []

theorem emptyManager_listsOk : ListsOk emptyManager where
  live _ _ := by simp [emptyManager, Manager.slot, emptyCbs, emptySlot]
  nodup _ := List.nodup_nil
  bound _ _ h := by simp [emptyManager, Manager.slot, emptyCbs, emptySlot] at h
  unlinked _ _ h := by simp [emptyManager, Manager.slot, emptyCbs, emptySlot] at h
  heads _ _ h := by simp [emptyManager] at h
  headsNodup _ := List.nodup_nil
  safe := rfl

theorem ListsOk.resListKill (h : ListsOk s) : ListsOk (vmwBindingResListKill r s) := by
  have h' := (vmwBindingResListScrub_sameTracks r s).listsOk h
  exact h'.dropAll (h'.headsNodup r) fun p hp => (h'.heads r p hp).2.1

theorem ListsOk.step {a : BindStep} (h : ListsOk s) (ha : bindStep s a = some t) : ListsOk t := by
  obtain ⟨op, now, later⟩ := a
  have h' : ListsOk { s with now := now, later := later } :=
    ⟨h.live, h.nodup, h.bound, h.unlinked, h.heads, h.headsNodup, h.safe⟩
  change bindOp op { s with now := now, later := later } = some t at ha
  generalize ({ s with now := now, later := later } : Manager) = u at h' ha
  cases op with
  | add i bi shaderSlot slot =>
    obtain ⟨l, -, rfl⟩ := Option.map_eq_some_iff.1 ha
    exact h'.add bi
  | commit c i =>
    cases ha
    exact h'.commit c i
  | kill c =>
    cases ha
    exact ((vmwBindingStateScrub_sameTracks _ _).listsOk h').reset
  | scrub c =>
    cases ha
    exact (vmwBindingStateScrub_sameTracks _ _).listsOk h'
  | resListKill r =>
    cases ha
    exact h'.resListKill
  | resListScrub r =>
    cases ha
    exact (vmwBindingResListScrub_sameTracks _ _).listsOk h'
  | rebindAll c =>
    cases ha
    exact (vmwBindingRebindAll_sameTracks _ _).listsOk h'
  | reset i =>
    cases ha
    exact h'.reset
  | setIds valid =>
    cases ha
    exact ⟨h'.live, h'.nodup, h'.bound, h'.unlinked, h'.heads, h'.headsNodup, h'.safe⟩

theorem listsOk_of_runs {as : List BindStep} (h : Runs bindStep anyLabel emptyManager as s) :
    ListsOk s :=
  h.invariant ListsOk emptyManager_listsOk fun _ _ _ hs _ ha => hs.step ha

/-- In every run, however reservations end: a slot has a context exactly if it is on the
    list of its state, and then it is there once; a bound slot of a context has a resource
    and is on its list once; a staged slot is on no resource's list; and the entries of a
    resource's list are bound slots of contexts with that resource. No list operation is
    misused. -/
theorem memberships {as : List BindStep} (h : Runs bindStep anyLabel emptyManager as s) :
    (∀ i l, ((s.slot (i, l)).ctx ≠ none ↔ l ∈ (s.cbs i).list) ∧
      ((s.slot (i, l)).ctx ≠ none → (s.cbs i).list.count l = 1)) ∧
    (∀ c l, (s.slot (.persistent c, l)).ctx ≠ none → ∃ r,
      (s.slot (.persistent c, l)).res = some r ∧
      (s.bindingHead r).count (.persistent c, l) = 1) ∧
    (∀ i l r, (.staged i, l) ∉ s.bindingHead r) ∧
    (∀ r, ∀ p ∈ s.bindingHead r, (∃ c, p.1 = .persistent c) ∧ (s.slot p).ctx ≠ none ∧
      (s.slot p).res = some r) ∧
    s.misuse = false := by
  have hs := listsOk_of_runs h
  have hlive : ∀ {x : Slot}, x.ctx ≠ none ↔ x.ctx.isSome := Option.isSome_iff_ne_none.symm
  refine ⟨fun i l => ⟨hlive.trans (hs.live i l), fun hl => ?_⟩, fun c l hl => ?_, fun i l r hr => ?_,
    fun r p hp => ?_, hs.safe⟩
  · exact List.count_eq_one_of_mem (hs.nodup i) ((hs.live i l).1 (hlive.1 hl))
  · obtain ⟨r, hres, -, hmem⟩ := hs.bound c l (hlive.1 hl)
    exact ⟨r, hres, List.count_eq_one_of_mem (hs.headsNodup r) hmem⟩
  · obtain ⟨c, hc⟩ := (hs.heads r _ hr).1
    cases hc
  · obtain ⟨hc, hctx, hres⟩ := hs.heads r p hp
    exact ⟨hc, hlive.2 hctx, hres⟩

/-- Two stream output targets are bound, and the scrubbing of the second fails. -/
def twoTargets : List BindStep :=
  [⟨.add 0 ⟨1, some 5, .so, [0, 64]⟩ 0 0, [], []⟩, ⟨.add 0 ⟨1, some 6, .so, [64, 64]⟩ 0 1, [], []⟩,
    ⟨.commit 1 0, [], []⟩, ⟨.resListScrub 6, [], [false]⟩]

def twoTargetsEnd : Manager := (exec bindStep emptyManager twoTargets).getD emptyManager

theorem twoTargets_run : Runs bindStep anyLabel emptyManager twoTargets twoTargetsEnd :=
  runs_of_exec rfl

theorem twoTargets_memberships :
    (twoTargetsEnd.slot (.persistent 1, .so 1)).ctx = some 1 ∧
    (∀ i l, ((twoTargetsEnd.slot (i, l)).ctx ≠ none ↔ l ∈ (twoTargetsEnd.cbs i).list) ∧
      ((twoTargetsEnd.slot (i, l)).ctx ≠ none → (twoTargetsEnd.cbs i).list.count l = 1)) ∧
    (∀ c l, (twoTargetsEnd.slot (.persistent c, l)).ctx ≠ none → ∃ r,
      (twoTargetsEnd.slot (.persistent c, l)).res = some r ∧
      (twoTargetsEnd.bindingHead r).count (.persistent c, l) = 1) ∧
    (∀ i l r, (.staged i, l) ∉ twoTargetsEnd.bindingHead r) ∧
    (∀ r, ∀ p ∈ twoTargetsEnd.bindingHead r, (∃ c, p.1 = .persistent c) ∧
      (twoTargetsEnd.slot p).ctx ≠ none ∧ (twoTargetsEnd.slot p).res = some r) ∧
    twoTargetsEnd.misuse = false :=
  ⟨by decide +kernel, memberships twoTargets_run⟩

end Runs

end Vmwgfx.BindingLists
