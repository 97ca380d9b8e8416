import Vmwgfx.BindingMemory

set_option autoImplicit false

/-!
# What a commit leaves in memory

The functions on memory do what those on slots and lists say, and so a commit puts the
staged bindings over those of the context, slot by slot.
-/
namespace Vmwgfx.BindingCommit
open BindingSlots BindingMachine BindingLists BindingLayout KernelLists LabelledRuns
open BindingMemory (Placement Node Rings PayloadSame copyIn copyIn_other copyIn_inside memcpy
  commitLoop)

def attrsAt (m : Mem) (loc bt : ℕ) : List ℕ :=
  (List.range (attrWords.getD bt 0)).map fun j => m (loc + (sizeofBindinfo + 4 * j))

structure Binding where
  ctx : ℕ
  res : ℕ
  bt : ℕ
  scrubbed : ℕ
  attrs : List ℕ
  deriving DecidableEq, Repr

def bindingAt (m : Mem) (loc : ℕ) : Option Binding :=
  if m (loc + offCtx) = 0 then none
  else some ⟨m (loc + offCtx), m (loc + offRes), m (loc + offBt), m (loc + offScrubbed),
    attrsAt m loc (m (loc + offBt))⟩

def encode (P : Placement) (x : Slot) : Option Binding :=
  x.ctx.map fun c => ⟨P.ctx c, P.resPtr x.res, enumValue x.bt, x.scrubbed.toNat, x.data⟩

structure Holds (P : Placement) (m : Mem) (p : SlotRef) (x : Slot) : Prop where
  res : m (P.addr p + offRes) = P.resPtr x.res
  bt : m (P.addr p + offBt) = enumValue x.bt
  scrubbed : m (P.addr p + offScrubbed) = x.scrubbed.toNat
  data : attrsAt m (P.addr p) (enumValue x.bt) = x.data
  size : (bindingInfo (enumValue x.bt)).size = slotSize p.2

/-- The live slots of staged states, whose `res_list` is a list of its own. -/
def alone (s : Manager) (p : SlotRef) : Prop := (∃ i, p.1 = .staged i) ∧ (s.slot p).ctx.isSome

structure Rep (P : Placement) (m : Mem) (s : Manager) : Prop where
  rings : Rings P m (fun i => (s.cbs i).list) s.bindingHead (alone s)
  ctx : ∀ p, m (P.addr p + offCtx) = P.ctxPtr (s.slot p).ctx
  live : ∀ p, (s.slot p).ctx.isSome → Holds P m p (s.slot p)

variable {P : Placement} {m t : Mem} {s : Manager} {p q : SlotRef} {x : Slot} {l : Loc} {c i : ℕ}

section Words

theorem payload_bounds (l : Loc) : offCtx < slotSize l ∧ offRes < slotSize l ∧ offBt < slotSize l ∧
    offScrubbed < slotSize l := by
  have := (slot_inside l).2.2
  have hoff : offCtx = 32 ∧ offRes = 40 ∧ offBt = 48 ∧ offScrubbed = 52 ∧ sizeofBindinfo = 56 :=
    ⟨rfl, rfl, rfl, rfl, rfl⟩
  omega

theorem attr_inside (bt : BindingType) {j : ℕ} (h : j < attrWords.getD (enumValue bt) 0) :
    sizeofBindinfo + 4 * j < (bindingInfo (enumValue bt)).size := by
  have hsize : (bindingInfo (enumValue bt)).size = sizeofDerived (attrWords.getD (enumValue bt) 0) := by
    cases bt <;> rfl
  rw [hsize]
  unfold sizeofDerived
  omega

theorem Holds.copy (h : Holds P m q x) (hsize : slotSize p.2 = slotSize q.2)
    (hsame : ∀ k, offCtx ≤ k → k < slotSize q.2 → t (P.addr p + k) = m (P.addr q + k)) :
    Holds P t p x := by
  have hoff : offCtx = 32 ∧ offRes = 40 ∧ offBt = 48 ∧ offScrubbed = 52 ∧ sizeofBindinfo = 56 :=
    ⟨rfl, rfl, rfl, rfl, rfl⟩
  obtain ⟨-, hres, hbt, hscrubbed⟩ := payload_bounds q.2
  refine ⟨(hsame _ (by omega) hres).trans h.res, (hsame _ (by omega) hbt).trans h.bt,
    (hsame _ (by omega) hscrubbed).trans h.scrubbed, ?_, h.size.trans hsize.symm⟩
  refine Eq.trans (List.map_congr_left fun j hj => ?_) h.data
  have := attr_inside x.bt (List.mem_range.1 hj)
  exact hsame _ (by omega) (h.size ▸ this)

theorem Holds.relink (h : Holds P m p x) (link : ResLink) : Holds P m p { x with resList := link } :=
  ⟨h.res, h.bt, h.scrubbed, h.data, h.size⟩

theorem Rep.bindingAt (h : Rep P m s) (p : SlotRef) :
    bindingAt m (P.addr p) = encode P (s.slot p) := by
  unfold BindingCommit.bindingAt encode
  rw [h.ctx p]
  cases hctx : (s.slot p).ctx with
  | none => rfl
  | some c =>
    have hl := h.live p (by rw [hctx]; rfl)
    rw [if_neg (show P.ctxPtr (some c) ≠ 0 from P.ctx_pos c), hl.res, hl.bt, hl.scrubbed, hl.data]
    rfl

theorem word_ne {j k : ℕ} (hpq : q ≠ p) (hj : j < slotSize q.2) (hk : k < slotSize p.2) :
    P.addr q + j ≠ P.addr p + k := by
  have := Placement.addr_apart (P := P) hpq
  omega

theorem Rings.weaken {L : StateId → List Loc} {H : ℕ → List SlotRef} {S T : SlotRef → Prop}
    (h : Rings P m L H S) (hT : ∀ q, T q → S q) : Rings P m L H T :=
  ⟨h.list, h.heads, fun q hq => h.alone q (hT q hq), h.once, fun q r hq => h.apart q r (hT q hq)⟩

end Words

section Steps

theorem if_update {ι α : Type} [DecidableEq ι] (f : ι → α) (g : α → α) (a i : ι) :
    (if i = a then g (f i) else f i) = Function.update f a (g (f a)) i := by
  by_cases h : i = a
  · subst h
    rw [if_pos rfl, Function.update_self]
  · rw [if_neg h, Function.update_of_ne h]

theorem rings_resDel (hs : ListsOk s) (hp : (s.slot p).ctx.isSome)
    {L : StateId → List Loc} (hr : Rings P t L s.bindingHead (alone s)) :
    Rings P (if listEmpty (P.addr p + offResList) t then t
        else listDel (P.addr p + offResList) t) L (vmwBindingDrop p s).bindingHead (alone s) ∧
      PayloadSame P t (if listEmpty (P.addr p + offResList) t then t
        else listDel (P.addr p + offResList) t) := by
  obtain ⟨state, l⟩ := p
  cases state with
  | staged i =>
    have hself := hs.unlinked i l hp
    have hempty : listEmpty (P.addr (.staged i, l) + offResList) t = true :=
      (hr.alone _ ⟨⟨i, rfl⟩, hp⟩).empty
    have hheads : (vmwBindingDrop (.staged i, l) s).bindingHead = s.bindingHead := by
      funext r
      rw [bindingHead_vmwBindingDrop, hself, if_neg (by simp)]
    rw [hempty, hheads]
    exact ⟨hr, fun _ _ _ _ => rfl⟩
  | persistent c =>
    obtain ⟨r, -, hon, hmem⟩ := hs.bound c l hp
    have hnode := (hr.heads r).not_empty Placement.placed (List.mem_map_of_mem (f := Node.resNode) hmem)
    have hempty : listEmpty (P.addr (.persistent c, l) + offResList) t = false := hnode
    have hheads : (vmwBindingDrop (.persistent c, l) s).bindingHead =
        Function.update s.bindingHead r ((s.bindingHead r).erase (.persistent c, l)) := by
      funext k
      rw [bindingHead_vmwBindingDrop, hon]
      by_cases hk : k = r
      · subst hk
        rw [if_pos rfl, Function.update_self]
      · rw [if_neg fun heq => hk (ResLink.on.inj heq).symm, Function.update_of_ne hk]
    rw [hempty, hheads]
    exact hr.resDel hmem

theorem Rep.drop (h : Rep P m s) (hs : ListsOk s) (hp : (s.slot p).ctx.isSome) :
    Rep P (BindingMemory.vmwBindingDrop (P.addr p) m) (vmwBindingDrop p s) := by
  obtain ⟨hring, hsame⟩ := h.rings.ctxDel ((hs.live p.1 p.2).1 hp)
  obtain ⟨hring', hsame'⟩ := rings_resDel hs hp hring
  have hpay : PayloadSame P m _ := fun q k hk hlt => (hsame' q k hk hlt).trans (hsame q k hk hlt)
  have hlist : (fun i => ((vmwBindingDrop p s).cbs i).list) =
      Function.update (fun i => (s.cbs i).list) p.1 ((s.cbs p.1).list.erase p.2) := by
    funext i
    rw [list_vmwBindingDrop]
    exact if_update (fun i => (s.cbs i).list) (·.erase p.2) p.1 i
  have hctx := (payload_bounds p.2).1
  have hother : ∀ q, q ≠ p → ∀ k, offCtx ≤ k → k < slotSize q.2 →
      BindingMemory.vmwBindingDrop (P.addr p) m (P.addr q + k) = m (P.addr q + k) := by
    intro q hq k hk hlt
    simp only [BindingMemory.vmwBindingDrop, write, Function.update_apply,
      word_ne hq hlt hctx, if_false]
    exact hpay q k hk hlt
  refine ⟨?_, fun q => ?_, fun q hq => ?_⟩
  · rw [hlist]
    refine Rings.weaken (hring'.payload le_rfl hctx) fun q hq => ⟨hq.1, ?_⟩
    have hlive := hq.2
    rw [slot_vmwBindingDrop] at hlive
    split_ifs at hlive with hqp
    · cases hlive
    · exact hlive
  · rw [slot_vmwBindingDrop]
    by_cases hqp : q = p
    · subst hqp
      rw [if_pos rfl]
      simp only [BindingMemory.vmwBindingDrop, write, Function.update_self]
      rfl
    · rw [if_neg hqp, hother q hqp _ le_rfl (payload_bounds q.2).1]
      exact h.ctx q
  · rw [slot_vmwBindingDrop] at hq ⊢
    by_cases hqp : q = p
    · rw [if_pos hqp] at hq
      cases hq
    · rw [if_neg hqp] at hq ⊢
      exact (h.live q hq).copy rfl fun k hk hlt => hother q hqp k hk hlt

theorem Rep.dropLive (h : Rep P m s) (hs : ListsOk s) (p : SlotRef) :
    Rep P (BindingMemory.dropLive (P.addr p) m) (BindingMachine.dropLive p s) := by
  unfold BindingMemory.dropLive BindingMachine.dropLive
  rw [h.ctx p]
  cases hctx : (s.slot p).ctx with
  | none => exact h
  | some c =>
    rw [if_pos (show P.ctxPtr (some c) ≠ 0 from P.ctx_pos c)]
    simp only [Option.isSome_some, if_true]
    exact h.drop hs (by rw [hctx]; rfl)

structure Describes (P : Placement) (buf : ℕ → ℕ) (bi : BindInfo) : Prop where
  ctx : buf offCtx = P.ctx bi.ctx
  res : buf offRes = P.resPtr bi.res
  bt : buf offBt = enumValue bi.bt
  data : attrsAt buf 0 (enumValue bi.bt) = bi.data

theorem Rep.fill (h : Rep P m s) (hs : ListsOk s) (buf : ℕ → ℕ) (hdead : (s.slot p).ctx = none)
    (hnot : ¬ alone s p) :
    Rings P (copyIn (P.addr p) buf (slotSize p.2) m) (fun i => (s.cbs i).list) s.bindingHead
        (alone s) ∧
      ∀ q, q ≠ p → ∀ k, k < slotSize q.2 →
        copyIn (P.addr p) buf (slotSize p.2) m (P.addr q + k) = m (P.addr q + k) := by
  obtain ⟨hlist, hheads⟩ := hs.unlisted hdead
  refine ⟨h.rings.copyIn hlist hheads hnot, fun q hq k hk => copyIn_other ?_⟩
  have := Placement.addr_apart (P := P) hq
  omega

theorem slot_vmwBindingAdd {bi : BindInfo} : (vmwBindingAdd p bi s).slot q =
    if q = p then ⟨some bi.ctx, bi.res, bi.bt, false, bi.data, .self⟩
    else (dropLive p s).slot q := by
  unfold vmwBindingAdd
  rw [slot_setSlot, slot_ctxListAdd]

theorem list_vmwBindingAdd {bi : BindInfo} : (fun i => ((vmwBindingAdd p bi s).cbs i).list) =
    Function.update (fun i => ((dropLive p s).cbs i).list) p.1
      (p.2 :: ((dropLive p s).cbs p.1).list) := by
  funext i
  unfold vmwBindingAdd
  rw [list_setSlot, list_ctxListAdd]
  exact if_update (fun i => ((dropLive p s).cbs i).list) (p.2 :: ·) p.1 i

theorem holds_described {buf : ℕ → ℕ} {bi : BindInfo} (hbuf : Describes P buf bi)
    (hsize : (bindingInfo (enumValue bi.bt)).size = slotSize p.2)
    (hsame : ∀ k, offCtx ≤ k → k < slotSize p.2 →
      t (P.addr p + k) = if k = offScrubbed then 0 else buf k) :
    t (P.addr p + offCtx) = P.ctx bi.ctx ∧
      Holds P t p ⟨some bi.ctx, bi.res, bi.bt, false, bi.data, .self⟩ := by
  have hoff : offCtx = 32 ∧ offRes = 40 ∧ offBt = 48 ∧ offScrubbed = 52 ∧ sizeofBindinfo = 56 :=
    ⟨rfl, rfl, rfl, rfl, rfl⟩
  obtain ⟨hctx, hres, hbt, hscrubbed⟩ := payload_bounds p.2
  have hbuf' : ∀ k, offCtx ≤ k → k < slotSize p.2 → k ≠ offScrubbed →
      t (P.addr p + k) = buf k := fun k hk hlt hne => (hsame k hk hlt).trans (if_neg hne)
  refine ⟨(hbuf' _ le_rfl hctx (by omega)).trans hbuf.ctx,
    (hbuf' _ (by omega) hres (by omega)).trans hbuf.res,
    (hbuf' _ (by omega) hbt (by omega)).trans hbuf.bt,
    (hsame _ (by omega) hscrubbed).trans (if_pos rfl), ?_, hsize⟩
  refine Eq.trans (List.map_congr_left fun j hj => ?_) hbuf.data
  have := attr_inside bi.bt (List.mem_range.1 hj)
  rw [zero_add]
  exact hbuf' _ (by omega) (by omega) (by omega)

theorem Rep.add (h : Rep P m s) (hs : ListsOk s) {buf : ℕ → ℕ} {bi : BindInfo}
    (hbuf : Describes P buf bi) {shaderSlot slot : ℕ}
    (hl : BindingSlots.vmwBindingLoc bi.bt shaderSlot slot = some l) :
    Rep P (BindingMemory.vmwBindingAdd (P.cbs (.staged i)) buf shaderSlot slot m)
      (BindingMachine.vmwBindingAdd (.staged i, l) bi s) := by
  obtain ⟨hloc, hsize⟩ := vmwBindingLoc_eq (P.cbs (.staged i)) hl
  have hrep := h.dropLive hs (.staged i, l)
  have hok : ListsOk (BindingMachine.dropLive (.staged i, l) s) := hs.dropLive
  have hdead := dropLive_dead (.staged i, l) s
  have hnot : ¬ alone (BindingMachine.dropLive (.staged i, l) s) (.staged i, l) := fun hal => by
    have hlive := hal.2
    rw [hdead] at hlive
    cases hlive
  obtain ⟨hlist, hheads⟩ := hok.unlisted hdead
  obtain ⟨hfill, hothers⟩ := hrep.fill hok buf hdead hnot
  obtain ⟨-, -, -, hscrubbed⟩ := payload_bounds l
  have hwritten := hfill.payload (v := 0) (p := (.staged i, l)) (k := offScrubbed) (by decide) hscrubbed
  obtain ⟨hadd, hsame⟩ := hwritten.ctxAdd hlist
  obtain ⟨hinit, hsame'⟩ := hadd.resInit hheads
  unfold BindingMemory.vmwBindingAdd
  rw [hbuf.bt, hloc, hsize]
  have hpay : PayloadSame P _ _ := fun q k hk hlt => (hsame' q k hk hlt).trans (hsame q k hk hlt)
  have hq : ∀ q, q ≠ (.staged i, l) → ∀ k, offCtx ≤ k → k < slotSize q.2 → _ =
      BindingMemory.dropLive (P.addr (.staged i, l)) m (P.addr q + k) := fun q hq k hk hlt =>
    (hpay q k hk hlt).trans (by
      rw [write, Function.update_of_ne (word_ne hq hlt hscrubbed)]
      exact hothers q hq k hlt)
  obtain ⟨hctx, hholds⟩ := holds_described (p := (.staged i, l)) hbuf hsize fun k hk hlt =>
    (hpay _ k hk hlt).trans (by
      simp only [write, Function.update_apply, Nat.add_left_cancel_iff]
      split_ifs
      · rfl
      · exact copyIn_inside hlt)
  refine ⟨?_, fun q => ?_, fun q hlive => ?_⟩
  · rw [list_vmwBindingAdd]
    refine Rings.weaken hinit fun q hal => ?_
    have hlive := hal.2
    rw [slot_vmwBindingAdd] at hlive
    by_cases hqp : q = (.staged i, l)
    · exact .inl hqp
    · rw [if_neg hqp] at hlive
      exact .inr ⟨hal.1, hlive⟩
  · rw [slot_vmwBindingAdd]
    by_cases hqp : q = (.staged i, l)
    · subst hqp
      rw [if_pos rfl]
      exact hctx
    · rw [if_neg hqp]
      exact (hq q hqp _ le_rfl (payload_bounds q.2).1).trans (hrep.ctx q)
  · rw [slot_vmwBindingAdd] at hlive ⊢
    by_cases hqp : q = (.staged i, l)
    · subst hqp
      rw [if_pos rfl]
      exact hholds
    · rw [if_neg hqp] at hlive ⊢
      exact (hrep.live q hlive).copy rfl fun k hk hlt => hq q hqp k hk hlt

theorem linkCopy_lists (bi : Slot) {r : ℕ} :
    (fun i => ((linkCopy p bi r s).cbs i).list) =
        Function.update (fun i => (s.cbs i).list) p.1 ((s.cbs p.1).list ++ [p.2]) ∧
      (linkCopy p bi r s).bindingHead =
        Function.update s.bindingHead r (s.bindingHead r ++ [p]) := by
  constructor
  · funext i
    rw [list_linkCopy]
    exact if_update (fun i => (s.cbs i).list) (· ++ [p.2]) p.1 i
  · funext k
    rw [bindingHead_linkCopy]
    exact if_update s.bindingHead (· ++ [p]) r k

theorem Rep.link (h : Rep P m s) (hs : ListsOk s) {r : ℕ} (hdead : (s.slot p).ctx = none)
    (hp : ∀ i, p.1 ≠ .staged i) (hsize : slotSize p.2 = slotSize q.2)
    (hctx : m (P.addr q + offCtx) = P.ctxPtr x.ctx) (hheld : Holds P m q x) (hres : x.res = some r)
    (ht : t = listAddTail (P.addr p) (P.cbs p.1 + offList)
      (memcpy (P.addr p) (P.addr q) (slotSize p.2) m)) :
    Rep P (listAddTail (P.addr p + offResList) (t (P.addr p + offRes) + offBindingHead) t)
      (linkCopy p x r s) := by
  have hnot : ¬ alone s p := fun hal => hal.1.elim hp
  obtain ⟨hlist, hheads⟩ := hs.unlisted hdead
  obtain ⟨hfill, hothers⟩ := h.fill hs (fun k => m (P.addr q + k)) hdead hnot
  obtain ⟨hadd, hsame⟩ := hfill.ctxAddTail hlist
  change Rings P (listAddTail (P.addr p) (P.cbs p.1 + offList)
    (memcpy (P.addr p) (P.addr q) (slotSize p.2) m)) _ _ _ at hadd
  change PayloadSame P _ (listAddTail (P.addr p) (P.cbs p.1 + offList)
    (memcpy (P.addr p) (P.addr q) (slotSize p.2) m)) at hsame
  rw [← ht] at hadd hsame
  obtain ⟨hctxlt, hreslt, -⟩ := payload_bounds p.2
  have hcopied : ∀ k, offCtx ≤ k → k < slotSize p.2 → t (P.addr p + k) = m (P.addr q + k) :=
    fun k hk hlt => (hsame p k hk hlt).trans (copyIn_inside hlt)
  have hword : t (P.addr p + offRes) = P.res r := by
    rw [hcopied _ (by decide) hreslt, hheld.res, hres]
    rfl
  rw [hword]
  obtain ⟨htail, hsame'⟩ := hadd.resAddTail (r := r) hheads hnot
  obtain ⟨hlists, hbinding⟩ := linkCopy_lists (p := p) (s := s) (r := r) x
  have hq : ∀ k, k ≠ p → ∀ j, offCtx ≤ j → j < slotSize k.2 → _ = m (P.addr k + j) :=
    fun k hk j hj hlt => (hsame' k j hj hlt).trans ((hsame k j hj hlt).trans (hothers k hk j hlt))
  have hholds : Holds P _ p { x with resList := .on r } := (hheld.copy hsize fun k hk hlt =>
    (hsame' p k hk (hsize.symm ▸ hlt)).trans (hcopied k hk (hsize.symm ▸ hlt))).relink (.on r)
  refine ⟨?_, fun k => ?_, fun k hlive => ?_⟩
  · rw [hlists, hbinding]
    refine Rings.weaken htail fun k hal => ⟨hal.1, ?_⟩
    have hlive := hal.2
    rw [slot_linkCopy] at hlive
    by_cases hkp : k = p
    · subst hkp
      exact absurd hal.1 fun ⟨i, hi⟩ => hp i hi
    · rw [if_neg hkp] at hlive
      exact hlive
  · rw [slot_linkCopy]
    by_cases hkp : k = p
    · subst hkp
      rw [if_pos rfl]
      exact (hsame' _ _ le_rfl hctxlt).trans ((hcopied _ le_rfl hctxlt).trans hctx)
    · rw [if_neg hkp]
      exact (hq k hkp _ le_rfl (payload_bounds k.2).1).trans (h.ctx k)
  · rw [slot_linkCopy] at hlive ⊢
    by_cases hkp : k = p
    · subst hkp
      rw [if_pos rfl]
      exact hholds
    · rw [if_neg hkp] at hlive ⊢
      exact (h.live k hlive).copy rfl fun j hj hlt => hq k hkp j hj hlt

theorem Rep.transfer (h : Rep P m s) (hs : ListsOk s) (hl : (s.slot (.staged i, l)).ctx.isSome) :
    Rep P (BindingMemory.vmwBindingTransfer (P.cbs (.persistent c)) (P.cbs (.staged i))
      (P.addr (.staged i, l)) m) (vmwBindingTransfer c i l s) := by
  have hrep := h.dropLive hs (.persistent c, l)
  have hok : ListsOk (BindingMachine.dropLive (.persistent c, l) s) := hs.dropLive
  have hdead := dropLive_dead (.persistent c, l) s
  have hstaged : (BindingMachine.dropLive (.persistent c, l) s).slot (.staged i, l) =
      s.slot (.staged i, l) := slot_dropLive (by simp)
  have hloc : P.cbs (.persistent c) + (P.addr (.staged i, l) - P.cbs (.staged i)) =
      P.addr (.persistent c, l) := by
    unfold Placement.addr
    rw [Nat.add_sub_cancel_left]
  have hheld := hrep.live (.staged i, l) (by rw [hstaged]; exact hl)
  rw [hstaged] at hheld
  unfold BindingMemory.vmwBindingTransfer vmwBindingTransfer
  dsimp only
  rw [hloc, hheld.res, hheld.bt, hheld.size]
  cases hres : (s.slot (.staged i, l)).res with
  | none => exact hrep
  | some r =>
    rw [if_pos (show P.resPtr (some r) ≠ 0 from P.res_pos r)]
    exact hrep.link (p := (.persistent c, l)) (q := (.staged i, l)) hok hdead (by simp) rfl
      ((hrep.ctx (.staged i, l)).trans (by rw [hstaged])) hheld hres rfl

theorem list_vmwBindingTransfer :
    ((vmwBindingTransfer c i l s).cbs (.staged i)).list = (s.cbs (.staged i)).list := by
  have hdrop : ((BindingMachine.dropLive (.persistent c, l) s).cbs (.staged i)).list =
      (s.cbs (.staged i)).list := by
    unfold BindingMachine.dropLive
    split_ifs
    · rw [list_vmwBindingDrop, if_neg (by simp)]
    · rfl
  unfold vmwBindingTransfer
  dsimp only
  split
  · exact hdrop
  · rw [list_linkCopy, if_neg (by simp)]
    exact hdrop

theorem Rep.pass (h : Rep P m s) (hs : ListsOk s) (hl : (s.slot (.staged i, l)).ctx.isSome) :
    let u := vmwBindingDrop (.staged i, l) (vmwBindingTransfer c i l s)
    Rep P (BindingMemory.vmwBindingDrop (P.addr (.staged i, l))
        (BindingMemory.vmwBindingTransfer (P.cbs (.persistent c)) (P.cbs (.staged i))
          (P.addr (.staged i, l)) m)) u ∧
      ListsOk u ∧ (u.cbs (.staged i)).list = (s.cbs (.staged i)).list.erase l := by
  have hlive : ((vmwBindingTransfer c i l s).slot (.staged i, l)).ctx.isSome := by
    rw [slot_vmwBindingTransfer_of_ne (by simp)]
    exact hl
  refine ⟨(h.transfer hs hl).drop (hs.transfer hl) hlive, (hs.transfer hl).drop hlive, ?_⟩
  rw [list_vmwBindingDrop, if_pos rfl, list_vmwBindingTransfer]

theorem Rep.loop {ls : List Loc} {fuel : ℕ} (h : Rep P m s) (hs : ListsOk s)
    (hls : (s.cbs (.staged i)).list = ls) (hfuel : ls.length < fuel) :
    ∃ t, commitLoop (P.cbs (.persistent c)) (P.cbs (.staged i)) fuel
        (m (P.cbs (.staged i) + offList)) (m (m (P.cbs (.staged i) + offList))) m = some t ∧
      Rep P t (ls.foldl (fun s l => vmwBindingDrop (.staged i, l) (vmwBindingTransfer c i l s)) s) := by
  induction ls generalizing m s fuel with
  | nil =>
    have hring := h.rings.list (.staged i)
    rw [hls] at hring
    have hhead : m (P.cbs (.staged i) + offList) = P.cbs (.staged i) + offList := hring.next_head
    obtain ⟨n, rfl⟩ := Nat.exists_eq_succ_of_ne_zero (Nat.ne_of_gt hfuel)
    refine ⟨m, ?_, h⟩
    rw [hhead, commitLoop, if_pos rfl]
  | cons l ls ih =>
    have hring := h.rings.list (.staged i)
    rw [hls] at hring
    have hentry : m (P.cbs (.staged i) + offList) = P.addr (.staged i, l) := hring.next_head
    have hnext := hring.next_first
    have hne : P.place (.ctxNode (.staged i, l)) ≠ P.place (.ctxHead (.staged i)) := fun heq =>
      Node.noConfusion (Placement.placed.injective heq)
    change P.addr (.staged i, l) ≠ P.cbs (.staged i) + offList at hne
    have hl : (s.slot (.staged i, l)).ctx.isSome :=
      (hs.live _ l).2 (hls ▸ List.mem_cons_self)
    obtain ⟨hrep, hok, hlist⟩ := h.pass (c := c) hs hl
    rw [hls, List.erase_cons_head] at hlist
    obtain ⟨n, rfl⟩ := Nat.exists_eq_succ_of_ne_zero (Nat.ne_of_gt (Nat.zero_lt_of_lt hfuel))
    obtain ⟨t, ht, hend⟩ := ih hrep hok hlist (Nat.lt_of_succ_lt_succ hfuel)
    have hring' := hrep.rings.list (.staged i)
    rw [hlist] at hring'
    refine ⟨t, ?_, hend⟩
    rw [hentry, commitLoop, if_neg hne]
    rw [← ht]
    have hsucc : m (P.addr (.staged i, l)) = _ := hnext.trans hring'.next_head.symm
    rw [hsucc]
    rfl

theorem staged_length (hs : ListsOk s) (i : StateId) : (s.cbs i).list.length < sizeofCbs := by
  have hinj : Function.Injective slotOffset := fun l k h => by
    by_contra hne
    have := slots_apart hne
    have := (slot_inside l).2.2
    have := (slot_inside k).2.2
    have hoff : sizeofBindinfo = 56 := rfl
    omega
  have hsub : ((s.cbs i).list.map slotOffset).toFinset ⊆ Finset.Ico 1 sizeofCbs := by
    intro o ho
    obtain ⟨l, -, rfl⟩ := List.mem_map.1 (List.mem_toFinset.1 ho)
    have := slot_inside l
    have hoff : offList = 8 ∧ sizeofBindinfo = 56 := ⟨rfl, rfl⟩
    rw [Finset.mem_Ico]
    omega
  have hcard := Finset.card_le_card hsub
  rw [List.toFinset_card_of_nodup ((hs.nodup i).map hinj), List.length_map, Nat.card_Ico] at hcard
  have hsize : sizeofCbs = 34264 := rfl
  omega

theorem Rep.commit (h : Rep P m s) (hs : ListsOk s) (c i : ℕ) :
    ∃ t, BindingMemory.vmwBindingStateCommit (P.cbs (.persistent c)) (P.cbs (.staged i)) m = some t ∧
      Rep P t (vmwBindingStateCommit c i s) :=
  h.loop hs rfl (staged_length hs (.staged i))

end Steps

end Vmwgfx.BindingCommit
