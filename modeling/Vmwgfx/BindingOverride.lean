import Vmwgfx.BindingCommit

set_option autoImplicit false

/-!
# A commit overrides slot by slot

Runs of the binding functions on the memory, from states that are just allocated. After any
of them, and any bindings that are staged then, `vmw_binding_state_commit` puts the staged
bindings over those of the context.
-/
namespace Vmwgfx.BindingOverride
open BindingSlots BindingMachine BindingLists BindingLayout KernelLists BindingCommit LabelledRuns
open BindingMemory (Placement Node Rings)

section Runs
variable (P : Placement)

/-- A call of `vmw_binding_add`: the caller's struct from its start on, and the indices. -/
structure StagedAdd where
  buf : ℕ → ℕ
  shaderSlot : ℕ
  slot : ℕ

/-- The struct names a context, a resource or none, and a slot within the arrays. -/
def StagedAdd.InRange (a : StagedAdd) : Prop :=
  ∃ bi l, Describes P a.buf bi ∧ BindingSlots.vmwBindingLoc bi.bt a.shaderSlot a.slot = some l

def StagedAdd.apply (a : StagedAdd) (i : ℕ) (m : Mem) : Mem :=
  BindingMemory.vmwBindingAdd (P.cbs (.staged i)) a.buf a.shaderSlot a.slot m

/-- The functions that end bindings drop the entries of a list; scrubbing and binding again
    take a note in an entry. -/
inductive MemOp where
  | add (i : ℕ) (a : StagedAdd)
  | commit (c i : ℕ)
  | drop (p : SlotRef)
  | scrub (p : SlotRef) (v : Bool)

def memStep (m : Mem) : MemOp → Option Mem
  | .add i a => some (a.apply P i m)
  | .commit c i => BindingMemory.vmwBindingStateCommit (P.cbs (.persistent c)) (P.cbs (.staged i)) m
  | .drop p =>
    if m (P.addr p + offCtx) = 0 then none else some (BindingMemory.vmwBindingDrop (P.addr p) m)
  | .scrub p v =>
    if m (P.addr p + offCtx) = 0 then none else some (write (P.addr p + offScrubbed) v.toNat m)

def inRange (_ : Mem) : MemOp → Prop
  | .add _ a => a.InRange P
  | _ => True

/-- Every list is initialized, and no slot has a context. -/
structure Fresh (m : Mem) : Prop where
  list : ∀ i, m (P.cbs i + offList) = P.cbs i + offList ∧
    m (P.cbs i + offList + 8) = P.cbs i + offList
  heads : ∀ r, m (P.res r + offBindingHead) = P.res r + offBindingHead ∧
    m (P.res r + offBindingHead + 8) = P.res r + offBindingHead
  ctx : ∀ p, m (P.addr p + offCtx) = 0

/-- The memory is that of some manager whose lists are in order. -/
def Tracked (m : Mem) : Prop := ∃ s, Rep P m s ∧ ListsOk s

end Runs

/-- The new binding of a slot, where there is one; a binding to nothing ends the old. -/
def override (old new : Option Binding) : Option Binding :=
  match new with
  | none => old
  | some b => if b.res = 0 then none else some b

def StagedAdd.binding (a : StagedAdd) : Option Binding :=
  bindingAt (fun k => if k = offScrubbed then 0 else a.buf k) 0

def StagedAdd.loc (P : Placement) (i : ℕ) (a : StagedAdd) : ℕ :=
  BindingLayout.vmwBindingLoc (P.cbs (.staged i)) (a.buf offBt) a.shaderSlot a.slot

/-- What is staged in a slot after some calls: by the last that names it. -/
def lastStaged (P : Placement) (i loc : ℕ) (adds : List StagedAdd) (old : Option Binding) :
    Option Binding :=
  adds.foldl (fun b a => if a.loc P i = loc then a.binding else b) old

def stageAll (P : Placement) (i : ℕ) (adds : List StagedAdd) (m : Mem) : Mem :=
  adds.foldl (fun m a => a.apply P i m) m

variable {P : Placement} {m t : Mem} {s : Manager} {p q : SlotRef} {l : Loc} {c i : ℕ}

theorem Fresh.tracked (h : Fresh P m) : Tracked P m := by
  refine ⟨emptyManager, ⟨⟨fun i => ?_, fun r => ?_, fun p hp => ?_, fun p r q hr => ?_,
    fun p r hp => ?_⟩, h.ctx, fun p hp => ?_⟩, emptyManager_listsOk⟩
  · exact ring_iff.2 ⟨.singleton _, h.list i, List.nodup_singleton _⟩
  · exact ring_iff.2 ⟨.singleton _, h.heads r, List.nodup_singleton _⟩
  · cases hp.2
  · cases hr
  · cases hp.2
  · cases hp

theorem Rep.isSome (h : Rep P m s) (hp : m (P.addr p + offCtx) ≠ 0) : (s.slot p).ctx.isSome := by
  rw [h.ctx p] at hp
  cases hctx : (s.slot p).ctx with
  | none => exact absurd (by rw [hctx]; rfl) hp
  | some c => rfl

theorem Rep.scrub (h : Rep P m s) (hp : (s.slot p).ctx.isSome) (v : Bool) :
    Rep P (write (P.addr p + offScrubbed) v.toNat m) (setScrubbed p v s) := by
  have hoff : offCtx = 32 ∧ offRes = 40 ∧ offBt = 48 ∧ offScrubbed = 52 ∧ sizeofBindinfo = 56 :=
    ⟨rfl, rfl, rfl, rfl, rfl⟩
  have hscrubbed := (payload_bounds p.2).2.2.2
  have hslot : ∀ q, (setScrubbed p v s).slot q =
      if q = p then { s.slot p with scrubbed := v } else s.slot q := fun q => slot_setSlot _
  have hctx : ∀ q, ((setScrubbed p v s).slot q).ctx = (s.slot q).ctx := fun q => by
    rw [hslot]
    split_ifs with hq
    · rw [hq]
    · rfl
  have hword : ∀ q k, k < slotSize q.2 → (q = p → k ≠ offScrubbed) →
      write (P.addr p + offScrubbed) v.toNat m (P.addr q + k) = m (P.addr q + k) := by
    intro q k hk hne
    rw [write, Function.update_of_ne]
    by_cases hq : q = p
    · subst hq
      exact fun heq => hne rfl (Nat.add_left_cancel heq)
    · exact word_ne hq hk hscrubbed
  refine ⟨?_, fun q => ?_, fun q hq => ?_⟩
  · have hlists : (fun i => ((setScrubbed p v s).cbs i).list) = fun i => (s.cbs i).list := by
      funext i
      exact list_setSlot _
    rw [hlists]
    refine Rings.weaken (h.rings.payload (by decide) hscrubbed) fun q hal => ⟨hal.1, ?_⟩
    rw [← hctx q]
    exact hal.2
  · rw [hctx, hword q _ (payload_bounds q.2).1 fun _ => by omega]
    exact h.ctx q
  · rw [hctx] at hq
    have hl := h.live q hq
    rw [hslot]
    by_cases hqp : q = p
    · subst hqp
      rw [if_pos rfl]
      obtain ⟨-, hres, hbt, -⟩ := payload_bounds q.2
      refine ⟨(hword q _ hres fun _ => by omega).trans hl.res,
        (hword q _ hbt fun _ => by omega).trans hl.bt, ?_, ?_, hl.size⟩
      · rw [write, Function.update_self]
      · refine Eq.trans (List.map_congr_left fun j hj => ?_) hl.data
        have := attr_inside (s.slot q).bt (List.mem_range.1 hj)
        rw [hl.size] at this
        exact hword q _ this fun _ => by omega
    · rw [if_neg hqp]
      exact hl.copy rfl fun k _ hlt => hword q k hlt fun heq => absurd heq hqp

theorem Tracked.step {a : MemOp} (h : Tracked P m) (hok : inRange P m a)
    (ha : memStep P m a = some t) : Tracked P t := by
  obtain ⟨s, hrep, hs⟩ := h
  cases a with
  | add i a =>
    obtain ⟨bi, l, hbuf, hl⟩ := hok
    obtain rfl := Option.some.inj ha
    exact ⟨_, hrep.add hs hbuf hl, hs.add bi⟩
  | commit c i =>
    obtain ⟨u, hu, hend⟩ := hrep.commit hs c i
    obtain rfl := Option.some.inj (hu.symm.trans ha)
    exact ⟨_, hend, hs.commit c i⟩
  | drop p =>
    simp only [memStep, Option.ite_none_left_eq_some, Option.some.injEq] at ha
    obtain ⟨hne, rfl⟩ := ha
    have hp := Rep.isSome hrep hne
    exact ⟨_, hrep.drop hs hp, hs.drop hp⟩
  | scrub p v =>
    simp only [memStep, Option.ite_none_left_eq_some, Option.some.injEq] at ha
    obtain ⟨hne, rfl⟩ := ha
    exact ⟨_, Rep.scrub hrep (Rep.isSome hrep hne) v,
      (setScrubbed_sameTracks p v s).listsOk hs⟩

theorem addr_eq_iff : P.addr p = P.addr q ↔ p = q := by
  refine ⟨fun h => ?_, fun h => h ▸ rfl⟩
  by_contra hne
  have := Placement.addr_apart (P := P) hne
  have := (slot_inside p.2).2.2
  have := (slot_inside q.2).2.2
  have hoff : sizeofBindinfo = 56 := rfl
  omega

theorem binding_eq {a : StagedAdd} {bi : BindInfo} (hbuf : Describes P a.buf bi) :
    a.binding = encode P ⟨some bi.ctx, bi.res, bi.bt, false, bi.data, .self⟩ := by
  have hoff : offCtx = 32 ∧ offRes = 40 ∧ offBt = 48 ∧ offScrubbed = 52 ∧ sizeofBindinfo = 56 :=
    ⟨rfl, rfl, rfl, rfl, rfl⟩
  have hattrs : attrsAt (fun k => if k = offScrubbed then 0 else a.buf k) 0 (enumValue bi.bt) =
      bi.data := by
    refine Eq.trans (List.map_congr_left fun j _ => ?_) hbuf.data
    exact if_neg (by omega)
  unfold StagedAdd.binding bindingAt encode
  simp only [zero_add, if_true]
  rw [if_neg (show offCtx ≠ offScrubbed by decide), if_neg (show offRes ≠ offScrubbed by decide),
    if_neg (show offBt ≠ offScrubbed by decide), hbuf.ctx, hbuf.res, hbuf.bt, hattrs,
    if_neg (P.ctx_pos bi.ctx)]
  rfl

theorem staged_by {a : StagedAdd} (h : Tracked P m) (ha : a.InRange P) :
    Tracked P (a.apply P i m) ∧ (∃ l, a.loc P i = P.addr (.staged i, l)) ∧
      ∀ q, bindingAt (a.apply P i m) (P.addr q) =
        if a.loc P i = P.addr q then a.binding else bindingAt m (P.addr q) := by
  obtain ⟨s, hrep, hs⟩ := h
  obtain ⟨bi, l, hbuf, hl⟩ := ha
  have hend := hrep.add (i := i) hs hbuf hl
  have hloc : a.loc P i = P.addr (.staged i, l) := by
    unfold StagedAdd.loc
    rw [hbuf.bt, (vmwBindingLoc_eq _ hl).1]
    rfl
  refine ⟨⟨_, hend, hs.add bi⟩, ⟨l, hloc⟩, fun q => ?_⟩
  rw [StagedAdd.apply, hend.bindingAt, slot_vmwBindingAdd, hloc]
  by_cases hq : q = (.staged i, l)
  · rw [if_pos hq, if_pos (congrArg P.addr hq.symm), binding_eq hbuf]
  · rw [if_neg hq, if_neg fun heq => hq (addr_eq_iff.1 heq).symm, hrep.bindingAt, slot_dropLive hq]

theorem stageAll_spec {adds : List StagedAdd} (h : Tracked P m) (hadds : ∀ a ∈ adds, a.InRange P) :
    Tracked P (stageAll P i adds m) ∧
      (∀ q, q.1 ≠ .staged i → bindingAt (stageAll P i adds m) (P.addr q) = bindingAt m (P.addr q)) ∧
      ∀ l, bindingAt (stageAll P i adds m) (P.addr (.staged i, l)) =
        lastStaged P i (P.addr (.staged i, l)) adds (bindingAt m (P.addr (.staged i, l))) := by
  induction adds generalizing m with
  | nil => exact ⟨h, fun _ _ => rfl, fun _ => rfl⟩
  | cons a adds ih =>
    obtain ⟨htracked, ⟨k, hloc⟩, hstaged⟩ := staged_by (i := i) h (hadds a List.mem_cons_self)
    obtain ⟨hend, hothers, hlast⟩ := ih htracked fun b hb => hadds b (List.mem_cons_of_mem a hb)
    refine ⟨hend, fun q hq => ?_, fun l => ?_⟩
    · have hne : a.loc P i ≠ P.addr q := fun heq => by
        rw [hloc, addr_eq_iff] at heq
        exact hq (heq ▸ rfl)
      exact (hothers q hq).trans ((hstaged q).trans (if_neg hne))
    · rw [show stageAll P i (a :: adds) m = stageAll P i adds (a.apply P i m) from rfl, hlast l,
        hstaged]
      rfl

theorem Tracked.commit (h : Tracked P m) (c i : ℕ) :
    ∃ t, BindingMemory.vmwBindingStateCommit (P.cbs (.persistent c)) (P.cbs (.staged i)) m = some t ∧
      (∀ l, bindingAt t (P.addr (.persistent c, l)) =
        override (bindingAt m (P.addr (.persistent c, l))) (bindingAt m (P.addr (.staged i, l)))) ∧
      (∀ l, bindingAt t (P.addr (.staged i, l)) = none) ∧
      listEmpty (P.cbs (.staged i) + offList) t = true ∧
      ∀ q, q.1 ≠ .persistent c → q.1 ≠ .staged i → bindingAt t (P.addr q) = bindingAt m (P.addr q) := by
  obtain ⟨s, hrep, hs⟩ := h
  obtain ⟨t, ht, hend⟩ := hrep.commit hs c i
  have hstaged : ∀ l, ((vmwBindingStateCommit c i s).slot (.staged i, l)).ctx = none :=
    fun l => hs.commit_staged
  refine ⟨t, ht, fun l => ?_, fun l => ?_, ?_, fun q hc hi => ?_⟩
  · rw [hend.bindingAt, hrep.bindingAt, hrep.bindingAt]
    cases hctx : (s.slot (.staged i, l)).ctx with
    | none =>
      rw [hs.commit_of_dead hctx]
      simp only [encode, hctx, Option.map_none, override]
    | some d =>
      have hnew := hs.commit_transferred (c := c) (l := l) (i := i) (by rw [hctx]; rfl)
      unfold Transferred at hnew
      cases hres : (s.slot (.staged i, l)).res with
      | none =>
        rw [hres] at hnew
        simp only [encode, hnew, hctx, hres, Option.map_none, Option.map_some, override]
        rfl
      | some r =>
        rw [hres] at hnew
        rw [hnew]
        simp only [encode, hctx, hres, Option.map_some, override]
        rw [if_neg (show P.resPtr (some r) ≠ 0 from P.res_pos r)]
  · rw [hend.bindingAt, encode, hstaged l]
    rfl
  · have hlist : ((vmwBindingStateCommit c i s).cbs (.staged i)).list = [] := by
      refine List.eq_nil_iff_forall_not_mem.2 fun l hl => ?_
      have hlive := ((hs.commit c i).live (.staged i) l).2 hl
      rw [hstaged l] at hlive
      cases hlive
    have hring := hend.rings.list (.staged i)
    rw [hlist] at hring
    exact hring.empty
  · rw [hend.bindingAt, hrep.bindingAt, hs.commit_of_ne hc hi]

/-- After any run, whatever is staged then: the commit ends, each slot of the context holds
    the binding that was staged for it last, or none if that is a binding to nothing, or else
    the one that it held, and the staged state is empty. No other state has changed. -/
theorem commit_overrides {m₀ : Mem} {as : List MemOp} {adds : List StagedAdd} (hfresh : Fresh P m₀)
    (hrun : Runs (memStep P) (inRange P) m₀ as m) (hadds : ∀ a ∈ adds, a.InRange P) (c i : ℕ) :
    ∃ t, BindingMemory.vmwBindingStateCommit (P.cbs (.persistent c)) (P.cbs (.staged i))
        (stageAll P i adds m) = some t ∧
      (∀ l, bindingAt t (P.addr (.persistent c, l)) =
        override (bindingAt m (P.addr (.persistent c, l)))
          (lastStaged P i (P.addr (.staged i, l)) adds (bindingAt m (P.addr (.staged i, l))))) ∧
      (∀ l, bindingAt t (P.addr (.staged i, l)) = none) ∧
      listEmpty (P.cbs (.staged i) + offList) t = true ∧
      ∀ q, q.1 ≠ .persistent c → q.1 ≠ .staged i → bindingAt t (P.addr q) = bindingAt m (P.addr q) := by
  have htracked : Tracked P m := hrun.invariant (Tracked P) hfresh.tracked
    fun _ _ _ hu hok ha => hu.step hok ha
  obtain ⟨hstaged, hothers, hlast⟩ := stageAll_spec (i := i) htracked hadds
  obtain ⟨t, ht, hslots, hempty, hlist, hrest⟩ := hstaged.commit c i
  refine ⟨t, ht, fun l => ?_, hempty, hlist, fun q hc hi => (hrest q hc hi).trans (hothers q hi)⟩
  rw [hslots l, hlast l, hothers (.persistent c, l) (by simp)]

def spreadCbs : StateId → ℕ
  | .persistent c => 100000 * (3 * c + 1)
  | .staged i => 100000 * (3 * i + 2)

theorem spreadCbs_apart (i j : StateId) (h : i ≠ j) :
    spreadCbs i + sizeofCbs ≤ spreadCbs j ∨ spreadCbs j + sizeofCbs ≤ spreadCbs i := by
  have hsize : sizeofCbs = 34264 := rfl
  cases i <;> cases j <;>
    simp only [ne_eq, StateId.persistent.injEq, StateId.staged.injEq, spreadCbs] at h ⊢ <;>
    omega

theorem spreadRes_apart (r q : ℕ) (h : r ≠ q) :
    100000 * (3 * r + 3) + sizeofResource ≤ 100000 * (3 * q + 3) ∨
      100000 * (3 * q + 3) + sizeofResource ≤ 100000 * (3 * r + 3) := by
  have hsize : sizeofResource = 136 := rfl
  omega

theorem spreadCbs_res (i : StateId) (r : ℕ) :
    spreadCbs i + sizeofCbs ≤ 100000 * (3 * r + 3) ∨
      100000 * (3 * r + 3) + sizeofResource ≤ spreadCbs i := by
  have hsize : sizeofCbs = 34264 ∧ sizeofResource = 136 := ⟨rfl, rfl⟩
  cases i <;> dsimp only [spreadCbs] <;> omega

theorem spreadRes_pos (r : ℕ) : 100000 * (3 * r + 3) ≠ 0 := by omega

/-- States and resources by turns, 100000 bytes from each other. -/
def spread : Placement where
  cbs := spreadCbs
  res r := 100000 * (3 * r + 3)
  ctx c := c + 1
  cbs_apart := spreadCbs_apart
  res_apart := spreadRes_apart
  cbs_res := spreadCbs_res
  res_pos := spreadRes_pos
  ctx_pos := Nat.succ_ne_zero

/-- The heads of the lists point to themselves, and all else is zero. -/
def blank : Mem := fun w =>
  let head := if w / 100000 % 3 = 0 then offBindingHead else offList
  if w % 100000 = head then w else if w % 100000 = head + 8 then w - 8 else 0

theorem blank_zero {b k : ℕ} (hb : b % 3 ≠ 0) (hk : 24 ≤ k) (hlt : k < 100000) :
    blank (100000 * b + k) = 0 := by
  have hdiv : (100000 * b + k) / 100000 = b := by omega
  have hmod : (100000 * b + k) % 100000 = k := by omega
  have hoff : offList = 8 := rfl
  unfold blank
  simp only [hdiv, hmod, if_neg hb]
  rw [if_neg (by omega), if_neg (by omega)]

theorem spread_cbs (i : StateId) : ∃ b, b % 3 ≠ 0 ∧ spread.cbs i = 100000 * b := by
  cases i with
  | persistent c => exact ⟨3 * c + 1, by omega, rfl⟩
  | staged i => exact ⟨3 * i + 2, by omega, rfl⟩

theorem blank_head {b off : ℕ} (hoff : off = if b % 3 = 0 then offBindingHead else offList)
    (hlt : off + 8 < 100000) :
    blank (100000 * b + off) = 100000 * b + off ∧
      blank (100000 * b + off + 8) = 100000 * b + off := by
  have hdiv : (100000 * b + off) / 100000 = b ∧ (100000 * b + off + 8) / 100000 = b := by omega
  have hmod : (100000 * b + off) % 100000 = off ∧ (100000 * b + off + 8) % 100000 = off + 8 := by
    omega
  unfold blank
  simp only [hdiv, hmod, ← hoff, if_true, Nat.add_sub_cancel]
  exact ⟨trivial, if_neg (by omega)⟩

theorem blank_fresh : Fresh spread blank where
  list i := by
    obtain ⟨b, hb, hcbs⟩ := spread_cbs i
    rw [hcbs]
    exact blank_head (if_neg hb).symm (by decide)
  heads r := blank_head (b := 3 * r + 3) (if_pos (by omega)).symm (by decide)
  ctx p := by
    obtain ⟨b, hb, hcbs⟩ := spread_cbs p.1
    have hin := slot_inside p.2
    have hoff : offList = 8 ∧ offCtx = 32 ∧ sizeofCbs = 34264 ∧ sizeofBindinfo = 56 :=
      ⟨rfl, rfl, rfl, rfl⟩
    have hk : slotOffset p.2 + offCtx < 100000 := by omega
    unfold Placement.addr
    rw [hcbs, Nat.add_assoc]
    exact blank_zero hb (by omega) hk

def target (res : Option ℕ) (slot size : ℕ) : StagedAdd where
  buf k :=
    if k = offCtx then spread.ctx 1 else if k = offRes then spread.resPtr res
    else if k = offBt then 8 else if k = sizeofBindinfo + 4 then size
    else if k = sizeofBindinfo + 8 then slot else 0
  shaderSlot := 0
  slot := slot

theorem so_loc {slot : ℕ} (h : slot < 4) :
    BindingSlots.vmwBindingLoc .so 0 slot = some (.so ⟨slot, h⟩) := by
  rw [BindingSlots.vmwBindingLoc, single_eq_some, Option.map_eq_some_iff]
  exact ⟨rfl, ⟨slot, h⟩, index_eq_some.2 rfl, rfl⟩

theorem target_inRange (res : Option ℕ) {slot size : ℕ} (h : slot < 4) :
    (target res slot size).InRange spread :=
  ⟨⟨1, res, .so, [0, size, slot]⟩, .so ⟨slot, h⟩, ⟨rfl, rfl, rfl, rfl⟩, so_loc h⟩

theorem target_loc (res : Option ℕ) {slot size i : ℕ} (h : slot < 4) :
    (target res slot size).loc spread i = spread.addr (.staged i, .so ⟨slot, h⟩) :=
  (vmwBindingLoc_eq (spread.cbs (.staged i)) (so_loc h)).1

theorem target_binding (res : Option ℕ) (slot size : ℕ) :
    (target res slot size).binding = some ⟨2, spread.resPtr res, 8, 0, [0, size, slot]⟩ := rfl

/-- Two targets are bound; then the first is staged anew, twice, and the second with no
    resource. -/
theorem targets_override : ∃ m t,
    Runs (memStep spread) (inRange spread) blank
      [.add 0 (target (some 5) 0 64), .add 0 (target (some 5) 1 64), .commit 1 0] m ∧
    BindingMemory.vmwBindingStateCommit (spread.cbs (.persistent 1)) (spread.cbs (.staged 0))
      (stageAll spread 0 [target (some 6) 0 32, target none 1 0, target (some 7) 0 16] m) = some t ∧
    bindingAt m (spread.addr (.persistent 1, .so 1)) = some ⟨2, spread.res 5, 8, 0, [0, 64, 1]⟩ ∧
    bindingAt t (spread.addr (.persistent 1, .so 0)) = some ⟨2, spread.res 7, 8, 0, [0, 16, 0]⟩ ∧
    bindingAt t (spread.addr (.persistent 1, .so 1)) = none ∧
    bindingAt t (spread.addr (.persistent 1, .ds)) = bindingAt m (spread.addr (.persistent 1, .ds)) := by
  have hfirst : ∀ a ∈ [target (some 5) 0 64, target (some 5) 1 64], a.InRange spread := by
    simp only [List.mem_cons, List.not_mem_nil, or_false, forall_eq_or_imp, forall_eq]
    exact ⟨target_inRange _ (by omega), target_inRange _ (by omega)⟩
  have hthen : ∀ a ∈ [target (some 6) 0 32, target none 1 0, target (some 7) 0 16],
      a.InRange spread := by
    simp only [List.mem_cons, List.not_mem_nil, or_false, forall_eq_or_imp, forall_eq]
    exact ⟨target_inRange _ (by omega), target_inRange _ (by omega), target_inRange _ (by omega)⟩
  obtain ⟨m, hm, hslots, hempty, -⟩ := commit_overrides blank_fresh (.refl blank) hfirst 1 0
  have hrun : Runs (memStep spread) (inRange spread) blank
      [.add 0 (target (some 5) 0 64), .add 0 (target (some 5) 1 64), .commit 1 0] m :=
    .next (target_inRange _ (by omega)) rfl (.next (target_inRange _ (by omega)) rfl
      (.next trivial hm (.refl m)))
  obtain ⟨t, ht, hslots', -⟩ := commit_overrides blank_fresh hrun hthen 1 0
  simp only [lastStaged, List.foldl_cons, List.foldl_nil, target_loc _ (show 0 < 4 by omega),
    target_loc _ (show 1 < 4 by omega), addr_eq_iff, target_binding] at hslots hslots'
  refine ⟨m, t, hrun, ht, ?_, ?_, ?_, ?_⟩
  · rw [hslots]
    rfl
  · rw [hslots']
    rfl
  · rw [hslots']
    rfl
  · rw [hslots', hempty]
    rfl

end Vmwgfx.BindingOverride
