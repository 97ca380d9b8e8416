import Vmwgfx.ExecbufVerifier
import Vmwgfx.ValidationLists

set_option autoImplicit false

/-!
# Submissions with their validation lists

The driver around a submission with the lists of `vmwgfx_validation.c` for its resources, and
what `vmw_resource_context_res_add` puts on them. Buffers stay on the list of the submission
context.
-/
namespace Vmwgfx.ExecbufListing
open HashTable FailingState ExecbufState
open Validation hiding vmwValidationAddBo vmwValidationFindBoDup BoNode

/-- Whether there is memory for the node of a resource, and whether its last reference is gone. -/
structure Supply (σ : Type) where
  mem : ℕ → σ → Bool
  doomed : ℕ → σ → Bool

structure BackupSwitch where
  noBufferNeeded : Bool
  newBackup : ℕ
  newBackupOffset : ℕ
  deriving DecidableEq, Repr

structure Lists (hash : ℕ → ℕ) (σ : Type) where
  val : ValContext hash
  /-- The nodes with `switching_backup`. -/
  switch : ℕ → Option BackupSwitch
  rest : σ

section Kernel
variable {hash : ℕ → ℕ} {σ α : Type}

def onRest (op : Op σ α) : Op (Lists hash σ) α := fun s =>
  ((op s.rest).1, { s with rest := (op s.rest).2 })

def actRest (f : σ → σ) (s : Lists hash σ) : Lists hash σ := { s with rest := f s.rest }

def addResource (A : Allocator) (D : Device) (S : Supply σ) (res : ℕ) :
    Op (Lists hash σ) (ℕ × Bool) := fun s =>
  let r := vmwValidationAddResource A D res (S.mem res s.rest) (S.doomed res s.rest) s.val
  (r.1.map fun x => (x.2, x.1), { s with val := r.2 })

def vmwValidationResSwitchBackup (node vbo offset : ℕ) (s : Lists hash σ) : Lists hash σ :=
  let kept := (s.switch node).any BackupSwitch.noBufferNeeded
  { s with
    switch := Function.update s.switch node
      (some ⟨kept || (s.val.resNode node).firstUsage, vbo, offset⟩) }

def listed (hash : ℕ → ℕ) (A : Allocator) (S : Supply σ) (K : Kernel σ) :
    Kernel (Lists hash σ) where
  hasMob := K.hasMob
  hasDx := K.hasDx
  gb := K.gb
  intraSurfaceCopy := K.intraSurfaceCopy
  dummyQueryBo := K.dummyQueryBo
  resType := K.resType
  viewSrf := K.viewSrf
  numPages := K.numPages
  contextResMan := K.contextResMan
  contextBindingState := K.contextBindingState
  contextBindingList ctx s := K.contextBindingList ctx s.rest
  cotables ctx i s := K.cotables ctx i s.rest
  contextGetDxQueryMob ctx s := K.contextGetDxQueryMob ctx s.rest
  bindingStateAlloc := onRest K.bindingStateAlloc
  validationPreloadRes size := onRest (K.validationPreloadRes size)
  validationPreloadBo := onRest K.validationPreloadBo
  validationAddResource res _ := addResource A ⟨K.hasMob, K.resType⟩ S res
  validationNewBo bo := onRest (K.validationNewBo bo)
  validationMemAlloc s := ((K.validationMemAlloc s.rest).1, actRest (fun r => (K.validationMemAlloc r).2) s)
  validationResSwitchBackup := vmwValidationResSwitchBackup
  userResourceLookup c handle := onRest (K.userResourceLookup c handle)
  userBoLookup handle := onRest (K.userBoLookup handle)
  viewLookup man t id := onRest (K.viewLookup man t id)
  viewAlloc size := onRest (K.viewAlloc size)
  viewCreate man ctx srf t id := onRest (K.viewCreate man ctx srf t id)
  cmdbufResRemove man t id := onRest (K.cmdbufResRemove man t id)
  shaderLookup man id type := onRest (K.shaderLookup man id type)
  shaderRemove man id type := onRest (K.shaderRemove man id type)
  compatShaderAdd man id code type size := onRest (K.compatShaderAdd man id code type size)
  dxShaderAdd man ctx id type := onRest (K.dxShaderAdd man ctx id type)
  cotableSeen cotable id := actRest (K.cotableSeen cotable id)
  kmsCursorSnoop srf bo p := actRest (K.kmsCursorSnoop srf bo p)

end Kernel

section Order
variable {hash : ℕ → ℕ} {A : Allocator} {D : Device} {s t : ValContext hash} {res x : ℕ}

/-- The resources in the order in which they are reserved. -/
def order (s : ValContext hash) : List ℕ := s.resNodes.map fun x => (s.resNode x).res

/-- What holds while no addition has failed: the table finds the resources on the lists. -/
structure Registered (s : ValContext hash) : Prop where
  mergeDups : s.mergeDups = true
  hasHt : s.hasHt = true
  found : ∀ r x, drmHtFindItem s.table r = some x ↔ x ∈ s.resNodes ∧ (s.resNode x).res = r
  used : ∀ x ∈ s.resNodes, x ∈ s.used

theorem Registered.findResDup (h : Registered s) (r : ℕ) :
    vmwValidationFindResDup s r = drmHtFindItem s.table r := by
  simp [vmwValidationFindResDup, h.mergeDups, h.hasHt]

theorem mem_order : res ∈ order s ↔ ∃ x ∈ s.resNodes, (s.resNode x).res = res := List.mem_map

theorem Registered.mem_order_of_found (h : Registered s) (hf : drmHtFindItem s.table res = some x) :
    res ∈ order s := mem_order.2 ⟨x, (h.found res x).1 hf⟩

theorem Registered.free_of_not_mem (h : Registered s) (hres : res ∉ order s) :
    drmHtFindItem s.table res = none := by
  by_contra hf
  obtain ⟨x, hx⟩ := Option.ne_none_iff_exists'.1 hf
  exact hres (h.mem_order_of_found hx)

/-- `t` is `s` with one more resource, unless it was there before. -/
structure Added (D : Device) (res : ℕ) (s t : ValContext hash) : Prop where
  registered : Registered t
  sublist : (order s).Sublist (order t)
  mem : ∀ r, r ∈ order t ↔ r ∈ order s ∨ r = res
  last : res ∉ order s → D.resType res = .view → order t = order s ++ [res]

theorem usedAgain_res (x y : ℕ) : ((s.usedAgain x).resNode y).res = (s.resNode y).res := by
  change (Function.update s.resNode x _ y).res = _
  by_cases h : y = x
  · rw [h, Function.update_self]
  · rw [Function.update_of_ne h]

theorem order_usedAgain : order (s.usedAgain x) = order s :=
  List.map_congr_left fun y _ => usedAgain_res x y

theorem Registered.usedAgain (h : Registered s) (x : ℕ) : Registered (s.usedAgain x) where
  mergeDups := h.mergeDups
  hasHt := h.hasHt
  found r y := by
    rw [usedAgain_res]
    exact h.found r y
  used := h.used

theorem addResource_again (h : Registered s) (hres : res ∈ order s) (mem doomed : Bool) :
    ∃ x, vmwValidationAddResource A D res mem doomed s = (.ok (false, x), s.usedAgain x) ∧
      Added D res s (s.usedAgain x) := by
  obtain ⟨x, hx⟩ := mem_order.1 hres
  have hfound : vmwValidationFindResDup s res = some x := by
    rw [h.findResDup]
    exact (h.found res x).2 hx
  refine ⟨x, ?_, h.usedAgain x, ?_, fun r => ?_, fun hno => absurd hres hno⟩
  · simp [vmwValidationAddResource, hfound, ValContext.usedAgain]
  · rw [order_usedAgain]
  · rw [order_usedAgain]
    exact ⟨.inl, fun hr => hr.elim id fun heq => heq ▸ hres⟩

theorem order_listRes (D : Device) (res : ℕ) (hx : x ∉ s.resNodes) :
    ∃ a b, order s = a ++ b ∧ order (s.listRes D x res) = a ++ res :: b ∧
      (D.resType res = .view → b = []) := by
  obtain ⟨-, heq⟩ := listRes_spec D s x res
  have hnode : ∀ y, ((s.listRes D x res).resNode y).res = if y = x then res else (s.resNode y).res := by
    intro y
    rw [heq]
    change (Function.update s.resNode x _ y).res = _
    by_cases hy : y = x
    · rw [hy, Function.update_self, if_pos rfl]
    · rw [Function.update_of_ne hy, if_neg hy]
  have hold : ∀ l : List ℕ, (∀ y ∈ l, y ∈ s.resNodes) →
      l.map (fun y => ((s.listRes D x res).resNode y).res) = l.map fun y => (s.resNode y).res := by
    intro l hl
    refine List.map_congr_left fun y hy => ?_
    rw [hnode, if_neg]
    rintro rfl
    exact hx (hl y hy)
  have hctx := hold s.resourceCtxList fun y hy => List.mem_append_left _ hy
  have hlist := hold s.resourceList fun y hy => List.mem_append_right _ hy
  have hself : ((s.listRes D x res).resNode x).res = res := by rw [hnode, if_pos rfl]
  have hsplit : order s = (s.resourceCtxList.map fun y => (s.resNode y).res) ++
      s.resourceList.map fun y => (s.resNode y).res := List.map_append
  have hlast : (s.listRes D x res).resNodes = s.resourceCtxList ++ (s.resourceList ++ [x]) →
      order (s.listRes D x res) = order s ++ [res] := by
    intro hnodes
    unfold order
    rw [hnodes, List.map_append, List.map_append, hctx, hlist, List.map_singleton, hself,
      ← List.append_assoc, ← hsplit]
    rfl
  by_cases hmob : D.hasMob = true
  · cases htype : D.resType res
    case context | dxContext =>
      refine ⟨[], order s, rfl, ?_, fun h => by cases h⟩
      have hnodes : (s.listRes D x res).resNodes = x :: (s.resourceCtxList ++ s.resourceList) := by
        simp [ValContext.listRes, ValContext.resNodes, hmob, htype]
      unfold order
      rw [hnodes, List.map_cons, hself, List.map_append, hctx, hlist, ← hsplit]
      rfl
    case cotable =>
      refine ⟨s.resourceCtxList.map fun y => (s.resNode y).res,
        s.resourceList.map fun y => (s.resNode y).res, hsplit, ?_, fun h => by cases h⟩
      have hnodes : (s.listRes D x res).resNodes = s.resourceCtxList ++ x :: s.resourceList := by
        simp [ValContext.listRes, ValContext.resNodes, hmob, htype]
      unfold order
      rw [hnodes, List.map_append, List.map_cons, hself, hctx, hlist]
    all_goals
      refine ⟨order s, [], (List.append_nil _).symm, hlast ?_, fun _ => rfl⟩
      simp [ValContext.listRes, ValContext.resNodes, hmob, htype]
  · refine ⟨order s, [], (List.append_nil _).symm, hlast ?_, fun _ => rfl⟩
    simp [ValContext.listRes, ValContext.resNodes, hmob]

theorem Registered.fresh (h : Registered s) (A : Allocator) : A.alloc s.used ∉ s.resNodes :=
  fun hx => A.fresh _ (h.used _ hx)

theorem order_withNode (hused : ∀ x ∈ s.resNodes, x ∈ s.used) (A : Allocator)
    (ht : OpenHash hash ℕ) : order (s.withNode A ht) = order s := by
  refine List.map_congr_left fun y hy => ?_
  change (Function.update s.resNode (A.alloc s.used) _ y).res = _
  rw [Function.update_of_ne]
  rintro rfl
  exact A.fresh _ (hused _ hy)

theorem Registered.listRes (h : Registered s) {ht : OpenHash hash ℕ}
    (hins : drmHtInsertItem s.table ⟨A.alloc s.used, res⟩ = some ht) :
    Registered ((s.withNode A ht).listRes D (A.alloc s.used) res) := by
  obtain ⟨hperm, heq⟩ := listRes_spec D (s.withNode A ht) (A.alloc s.used) res
  generalize (s.withNode A ht).listRes D (A.alloc s.used) res = t at hperm heq
  have hmem : ∀ y, y ∈ t.resNodes ↔ y = A.alloc s.used ∨ y ∈ s.resNodes := fun y =>
    hperm.mem_iff.trans List.mem_cons
  have hnode : t.resNode (A.alloc s.used) = ⟨res, true⟩ := by
    rw [heq]
    exact Function.update_self _ _ _
  have hself : (t.resNode (A.alloc s.used)).res = res := by rw [hnode]
  have hother : ∀ y ∈ s.resNodes, (t.resNode y).res = (s.resNode y).res := by
    intro y hy
    have hne : y ≠ A.alloc s.used := fun hyx => h.fresh A (hyx ▸ hy)
    rw [heq]
    exact congrArg ResNode.res
      ((Function.update_of_ne hne _ _).trans (Function.update_of_ne hne _ _))
  refine ⟨by rw [heq]; exact h.mergeDups, by rw [heq]; exact h.hasHt, fun r y => ?_, fun y hy => ?_⟩
  · have htable : t.table = ht := by
      rw [heq]
      rfl
    rw [htable, drmHtFindItem_insert_iff hins, h.found, hmem]
    constructor
    · rintro (⟨rfl, rfl⟩ | ⟨hy, hr⟩)
      · exact ⟨.inl rfl, hself⟩
      · exact ⟨.inr hy, (hother y hy).trans hr⟩
    · rintro ⟨rfl | hy, hr⟩
      · exact .inl ⟨hr.symm.trans hself, rfl⟩
      · exact .inr ⟨hy, (hother y hy).symm.trans hr⟩
  · rw [heq]
    change y ∈ A.alloc s.used :: s.used
    rcases (hmem y).1 hy with rfl | hy
    · exact List.mem_cons_self
    · exact List.mem_cons_of_mem _ (h.used y hy)

theorem addResource_new (h : Registered s) (hres : res ∉ order s) :
    ∃ x t, vmwValidationAddResource A D res true false s = (.ok (true, x), t) ∧
      Added D res s t := by
  have hfree := h.free_of_not_mem hres
  obtain ⟨ht, hadd, hins, -⟩ := addNode_new (s := s) A res (fun node => .listRes D node res)
    fun _ => hfree
  have hnone : vmwValidationFindResDup s res = none := by
    rw [h.findResDup]
    exact hfree
  have hfresh : A.alloc s.used ∉ (s.withNode A ht).resNodes := h.fresh A
  have hnode : ((s.withNode A ht).listRes D (A.alloc s.used) res).resNode (A.alloc s.used) =
      ⟨res, true⟩ := by
    rw [(listRes_spec D (s.withNode A ht) (A.alloc s.used) res).2]
    exact Function.update_self _ _ _
  obtain ⟨a, b, hold, hnew, hlast⟩ := order_listRes D res hfresh
  rw [order_withNode h.used] at hold
  refine ⟨A.alloc s.used, (s.withNode A ht).listRes D (A.alloc s.used) res, ?_,
    h.listRes (hins h.hasHt), ?_, fun r => ?_, fun _ hview => ?_⟩
  · simp only [vmwValidationAddResource, hnone, hadd, Except.map, hnode]
  · rw [hold, hnew]
    exact (List.sublist_cons_self res b).append_left a
  · rw [hold, hnew]
    simp only [List.mem_append, List.mem_cons]
    tauto
  · obtain rfl := hlast hview
    rw [hnew, hold, List.append_nil]

end Order

section Refusal
variable {hash : ℕ → ℕ} {σ : Type} {A : Allocator} {D : Device} {S : Supply σ}
  {s : Lists hash σ} {res : ℕ} {e : Errno}

def refusal (S : Supply σ) (s : Lists hash σ) (res : ℕ) : Option Errno :=
  if res ∈ order s.val then none
  else if S.mem res s.rest then if S.doomed res s.rest then some .esrch else none
  else some .enomem

theorem addResource_added (h : Registered s.val) (hr : refusal S s res = none) :
    ∃ x v, addResource A D S res s = (.ok x, { s with val := v }) ∧ Added D res s.val v := by
  unfold addResource
  by_cases hres : res ∈ order s.val
  · obtain ⟨x, hx, hadded⟩ :=
      addResource_again (A := A) (D := D) h hres (S.mem res s.rest) (S.doomed res s.rest)
    rw [hx]
    exact ⟨_, _, rfl, hadded⟩
  · rw [refusal, if_neg hres] at hr
    cases hmem : S.mem res s.rest with
    | false => simp [hmem] at hr
    | true =>
      cases hdoomed : S.doomed res s.rest with
      | true => simp [hmem, hdoomed] at hr
      | false =>
        obtain ⟨x, t, hx, hadded⟩ := addResource_new (A := A) (D := D) h hres
        rw [hx]
        exact ⟨_, _, rfl, hadded⟩

theorem addResource_refused (h : Registered s.val) (hr : refusal S s res = some e) :
    ∃ v, addResource A D S res s = (.error e, { s with val := v }) := by
  have hres : res ∉ order s.val := by
    intro hres
    rw [refusal, if_pos hres] at hr
    cases hr
  rw [refusal, if_neg hres] at hr
  have hfree := h.free_of_not_mem hres
  have hnone : vmwValidationFindResDup s.val res = none := by
    rw [h.findResDup]
    exact hfree
  simp only [addResource, vmwValidationAddResource, hnone]
  cases hmem : S.mem res s.rest with
  | false =>
    rw [hmem] at hr
    cases hr
    exact ⟨_, rfl⟩
  | true =>
    cases hdoomed : S.doomed res s.rest with
    | false => simp [hmem, hdoomed] at hr
    | true =>
      rw [hmem, hdoomed] at hr
      cases hr
      cases hins : (s.val.memAlloc A).insertNode (A.alloc s.val.used) res with
      | none => exact absurd hfree (insertNode_none (s := s.val.memAlloc A) h.hasHt hins)
      | some t => exact ⟨t, by simp [addNode, hins, Except.map]⟩

end Refusal

section Adds
variable {hash : ℕ → ℕ} {σ : Type} {A : Allocator} {S : Supply σ} {K : Kernel σ}
  {s t u : SwContext (Lists hash σ)} {res : ℕ} {rs rs' : List (Option ℕ)}

/-- The cache holds listed resources, and a view comes after its surface. -/
structure Tracked (K : Kernel σ) (s : SwContext (Lists hash σ)) : Prop where
  registered : Registered s.rest.val
  cached : ∀ t r, (s.resCache t).holds r = true → r ∈ order s.rest.val
  views : ∀ v ∈ order s.rest.val, K.resType v = .view →
    [K.viewSrf v, v].Sublist (order s.rest.val)

structure Typed (K : Kernel σ) : Prop where
  cotables : ∀ ctx i w r, K.cotables ctx i w = some r → K.resType r = .cotable
  viewSrf : ∀ v, K.resType v = .view → K.resType (K.viewSrf v) = .surface

structure Quiet (s t : SwContext (Lists hash σ)) : Prop where
  rest : t.rest.rest = s.rest.rest
  boList : t.boList = s.boList

/-- The resources `rs` are added, and no others. -/
structure Grown (K : Kernel σ) (S : Supply σ) (rs : List (Option ℕ))
    (s t : SwContext (Lists hash σ)) : Prop where
  tracked : Tracked K t
  sublist : (order s.rest.val).Sublist (order t.rest.val)
  mem : ∀ r, r ∈ order t.rest.val ↔ r ∈ order s.rest.val ∨ some r ∈ rs
  refusal : ∀ r, refusal S t.rest r = refusal S s.rest r

/-- How the addition of resources one after the other ends; a NULL is followed. -/
def tried (S : Supply σ) (s : Lists hash σ) : List (Option ℕ) → Except Stop Unit
  | [] => .ok ()
  | none :: _ => .error .nullRes
  | some r :: rs =>
    match refusal S s r with
    | some e => .error (.errno e)
    | none => tried S s rs

theorem tried_append (s : Lists hash σ) (rs rs' : List (Option ℕ)) :
    tried S s (rs ++ rs') = match tried S s rs with
      | .ok () => tried S s rs'
      | .error f => .error f := by
  induction rs with
  | nil => rfl
  | cons r rs ih =>
    cases r with
    | none => rfl
    | some r =>
      simp only [List.cons_append, tried, ih]
      cases refusal S s r <;> rfl

theorem tried_congr {s t : Lists hash σ} (h : ∀ r, refusal S t r = refusal S s r) :
    ∀ rs, tried S t rs = tried S s rs
  | [] => rfl
  | none :: _ => rfl
  | some r :: rs => by simp only [tried, h, tried_congr h rs]

theorem tried_ok_iff {s : Lists hash σ} :
    tried S s rs = .ok () ↔ ∀ r ∈ rs, ∃ x, r = some x ∧ refusal S s x = none := by
  induction rs with
  | nil => simp [tried]
  | cons r rs ih =>
    cases r with
    | none => simp [tried]
    | some r => cases hr : refusal S s r <;> simp [tried, hr, ih]

/-- A computation that adds the resources `rs` in order and stops at the first that is refused. -/
def Adds (K : Kernel σ) (S : Supply σ) (m : Check (Lists hash σ) Unit) (rs : List (Option ℕ))
    (s : SwContext (Lists hash σ)) : Prop :=
  ∃ t, m s = (tried S s.rest rs, t) ∧ Quiet s t ∧ (tried S s.rest rs = .ok () → Grown K S rs s t)

theorem adds_nil (h : Tracked K s) : Adds K S (pure ()) [] s :=
  ⟨s, rfl, ⟨rfl, rfl⟩, fun _ => ⟨h, List.Sublist.refl _, by simp, fun _ => rfl⟩⟩

theorem Grown.trans (h : Grown K S rs s t) (h' : Grown K S rs' t u) :
    Grown K S (rs ++ rs') s u where
  tracked := h'.tracked
  sublist := h.sublist.trans h'.sublist
  mem r := by
    rw [h'.mem, h.mem, List.mem_append, or_assoc]
  refusal r := (h'.refusal r).trans (h.refusal r)

theorem Adds.bind {m : Check (Lists hash σ) Unit} {f : Unit → Check (Lists hash σ) Unit}
    (hm : Adds K S m rs s) (hf : ∀ t, Quiet s t → Grown K S rs s t → Adds K S (f ()) rs' t) :
    Adds K S (m >>= f) (rs ++ rs') s := by
  obtain ⟨t, ht, hquiet, hgrown⟩ := hm
  rw [Adds, tried_append]
  cases htried : tried S s.rest rs with
  | error e =>
    rw [htried] at ht
    exact ⟨t, by simp only [Bind.bind, Run.andThen, ht], hquiet, fun h => by cases h⟩
  | ok =>
    have hg := hgrown htried
    obtain ⟨u, hu, hquiet', hgrown'⟩ := hf t hquiet hg
    rw [tried_congr hg.refusal] at hu hgrown'
    rw [htried] at ht
    refine ⟨u, by simp only [Bind.bind, Run.andThen, ht, hu], ?_, fun hok => hg.trans (hgrown' hok)⟩
    exact ⟨hquiet'.rest.trans hquiet.rest, hquiet'.boList.trans hquiet.boList⟩

theorem Added.refusal {v : ValContext hash} {D : Device} {x : ℕ} (h : Added D res s.rest.val v)
    (hr : refusal S s.rest res = none) :
    ExecbufListing.refusal S { s.rest with val := v } x = ExecbufListing.refusal S s.rest x := by
  by_cases hx : x = res
  · rw [hx, hr]
    exact if_pos ((h.mem res).2 (.inr rfl))
  · unfold ExecbufListing.refusal
    simp only [h.mem, hx, or_false]

theorem noctx_hit (h : (s.resCache (K.resType res)).holds res = true) :
    vmwExecbufResNoctxValAdd (listed hash A S K) res s = (.ok (), s) := by
  change (if (s.resCache (K.resType res)).holds res = true then _ else _ : Check _ Unit) s = _
  rw [if_pos h]
  rfl

theorem noctx_miss (h : (s.resCache (K.resType res)).holds res = false) :
    vmwExecbufResNoctxValAdd (listed hash A S K) res s =
      (do
        let node ← call (addResource A ⟨K.hasMob, K.resType⟩ S res)
        vmwExecbufRcacheUpdate (K.resType res) res node.1 : Check _ Unit) s := by
  change (if (s.resCache (K.resType res)).holds res = true then _ else _ : Check _ Unit) s = _
  rw [if_neg (by rw [h]; decide)]
  rfl

/-- The lists are now `v`, and the cache has the resource and its node. -/
def noded (K : Kernel σ) (s : SwContext (Lists hash σ)) (v : ValContext hash) (res x : ℕ) :
    SwContext (Lists hash σ) :=
  { s with
    rest := { s.rest with val := v }
    resCache := Function.update s.resCache (K.resType res)
      ((s.resCache (K.resType res)).refreshed res x) }

theorem Tracked.added {v : ValContext hash} {x : ℕ} (hs : Tracked K s)
    (h : Added ⟨K.hasMob, K.resType⟩ res s.rest.val v)
    (hview : K.resType res = .view → K.viewSrf res ∈ order s.rest.val) :
    Tracked K (noded K s v res x) where
  registered := h.registered
  cached u r hr := by
    unfold noded at hr
    refine (h.mem r).2 ?_
    by_cases hu : u = K.resType res
    · subst hu
      simp only [Function.update_self, CacheEntry.holds, CacheEntry.refreshed, Bool.true_and,
        decide_eq_true_eq, Option.some.injEq] at hr
      exact .inr hr.symm
    · simp only [Function.update_of_ne hu] at hr
      exact .inl (hs.cached u r hr)
  views w hw htype := by
    by_cases hold : w ∈ order s.rest.val
    · exact (hs.views w hold htype).trans h.sublist
    · obtain rfl := ((h.mem w).1 hw).resolve_left hold
      change [K.viewSrf w, w].Sublist (order v)
      rw [h.last hold htype]
      exact (List.singleton_sublist.2 (hview htype)).append (List.Sublist.refl [w])

theorem noctx_adds (hs : Tracked K s)
    (hview : K.resType res = .view → K.viewSrf res ∈ order s.rest.val) :
    Adds K S (vmwExecbufResNoctxValAdd (listed hash A S K) res) [some res] s := by
  cases hholds : (s.resCache (K.resType res)).holds res with
  | true =>
    have hmem := hs.cached _ _ hholds
    have hnone : refusal S s.rest res = none := if_pos hmem
    refine ⟨s, ?_, ⟨rfl, rfl⟩, fun _ => ⟨hs, List.Sublist.refl _, fun r => ?_, fun _ => rfl⟩⟩
    · rw [noctx_hit hholds, tried, hnone]
      rfl
    · simp only [List.mem_singleton, Option.some.injEq]
      exact ⟨.inl, fun hr => hr.elim id fun heq => heq ▸ hmem⟩
  | false =>
    rw [Adds, noctx_miss hholds, tried]
    cases hr : refusal S s.rest res with
    | some e =>
      obtain ⟨v, hv⟩ := addResource_refused (A := A) (D := ⟨K.hasMob, K.resType⟩) hs.registered hr
      refine ⟨{ s with rest := { s.rest with val := v } }, ?_, ⟨rfl, rfl⟩, fun h => by cases h⟩
      simp only [Bind.bind, Run.andThen, call, hv]
    | none =>
      obtain ⟨x, v, hv, hadded⟩ :=
        addResource_added (A := A) (D := ⟨K.hasMob, K.resType⟩) hs.registered hr
      refine ⟨noded K s v res x.1, ?_, ⟨rfl, rfl⟩,
        fun _ => ⟨hs.added hadded hview, hadded.sublist, ?_, ?_⟩⟩
      · simp only [Bind.bind, Run.andThen, call, hv]
        rfl
      · intro r
        simp only [List.mem_singleton, Option.some.injEq]
        exact hadded.mem r
      · intro r
        exact hadded.refusal hr

variable (hK : Typed K)
include hK

theorem viewRes_adds {view : ℕ} (hs : Tracked K s) (hview : K.resType view = .view) :
    Adds K S (vmwViewResValAdd (listed hash A S K) view) [some (K.viewSrf view), some view] s := by
  have hsrf : Adds K S (vmwExecbufResNoctxValAdd (listed hash A S K) (K.viewSrf view))
      [some (K.viewSrf view)] s := noctx_adds hs fun h => by
    rw [hK.viewSrf view hview] at h
    cases h
  have hnext (t : SwContext (Lists hash σ)) (hgrown : Grown K S [some (K.viewSrf view)] s t) :
      Adds K S (vmwExecbufResNoctxValAdd (listed hash A S K) view) [some view] t :=
    noctx_adds hgrown.tracked fun _ => (hgrown.mem _).2 (.inr (List.mem_singleton.2 rfl))
  exact Adds.bind hsrf fun t _ => hnext t

/-- The resources that a bound resource puts on the list. -/
def boundResources (K : Kernel σ) (res : ℕ) : List (Option ℕ) :=
  if K.resType res = .view then [some (K.viewSrf res), some res] else [some res]

theorem bound_adds (hs : Tracked K s) :
    Adds K S (boundValAdd (listed hash A S K) res) (boundResources K res) s := by
  unfold boundResources
  change Adds K S (if K.resType res = .view then _ else _) _ s
  by_cases hview : K.resType res = .view
  · rw [if_pos hview, if_pos hview]
    exact viewRes_adds hK hs hview
  · rw [if_neg hview, if_neg hview]
    exact noctx_adds hs fun h => absurd h hview

theorem boundList_adds (l : List ℕ) (hs : Tracked K s) :
    Adds K S (forEach (boundValAdd (listed hash A S K)) l) (l.flatMap (boundResources K)) s := by
  induction l generalizing s with
  | nil => exact adds_nil hs
  | cons r l ih =>
    rw [List.flatMap_cons]
    exact (bound_adds hK hs).bind fun t _ hgrown => ih hgrown.tracked

/-- The cotables of a context from `i` on, in the state `w` of the driver. -/
def cotableResources (K : Kernel σ) (ctx : ℕ) (w : σ) (i n : ℕ) : List (Option ℕ) :=
  (List.range' i n).map fun k => K.cotables ctx k w

theorem cotable_adds {ctx i : ℕ} (hs : Tracked K s) (hi : i < svgaCotableDx10Max) :
    Adds K S (cotableValAdd (listed hash A S K) ctx i) [K.cotables ctx i s.rest.rest] s := by
  have hrun : cotableValAdd (listed hash A S K) ctx i s =
      (do
        let r ← deref (K.cotables ctx i s.rest.rest)
        vmwExecbufResNoctxValAdd (listed hash A S K) r : Check _ Unit) s := by
    simp only [cotableValAdd, vmwContextCotable, Bind.bind, Run.andThen, inspect,
      if_neg (not_le.2 hi)]
    rfl
  rw [Adds, hrun]
  cases hc : K.cotables ctx i s.rest.rest with
  | none => exact ⟨s, rfl, ⟨rfl, rfl⟩, fun h => by cases h⟩
  | some r =>
    have hadd : Adds K S (vmwExecbufResNoctxValAdd (listed hash A S K) r) [some r] s :=
      noctx_adds hs fun h => by
        rw [hK.cotables _ _ _ _ hc] at h
        cases h
    exact hadd

theorem cotables_adds {ctx : ℕ} (n : ℕ) {i : ℕ} (hs : Tracked K s)
    (hn : i + n ≤ svgaCotableDx10Max) :
    Adds K S (repeatFrom (cotableValAdd (listed hash A S K) ctx) i n)
      (cotableResources K ctx s.rest.rest i n) s := by
  induction n generalizing i s with
  | zero => exact adds_nil hs
  | succ n ih =>
    unfold cotableResources
    rw [List.range'_succ, List.map_cons]
    refine (cotable_adds hK hs (by omega)).bind fun t hquiet hgrown => ?_
    have hrest := ih hgrown.tracked (by omega : i + 1 + n ≤ svgaCotableDx10Max)
    rw [hquiet.rest] at hrest
    exact hrest

end Adds

section Context
variable {hash : ℕ → ℕ} {σ : Type} {A : Allocator} {S : Supply σ} {K : Kernel σ} {ctx bo : ℕ}
  {s t u : SwContext (Lists hash σ)}

def hasCotables (K : Kernel σ) (ctx : ℕ) : Bool := K.hasDx && decide (K.resType ctx = .dxContext)

def contextCotables (K : Kernel σ) (ctx : ℕ) (w : σ) : List (Option ℕ) :=
  if hasCotables K ctx then cotableResources K ctx w 0 svgaCotableDx10Max else []

def contextBound (K : Kernel σ) (ctx : ℕ) (w : σ) : List (Option ℕ) :=
  (K.contextBindingList ctx w).flatMap (boundResources K)

def contextMob (K : Kernel σ) (ctx : ℕ) (w : σ) : Option ℕ :=
  if hasCotables K ctx then K.contextGetDxQueryMob ctx w else none

def mobRefusal (K : Kernel σ) (s : SwContext (Lists hash σ)) (bo : ℕ) : Option Errno :=
  match vmwValidationFindBoDup s.boList bo with
  | some node => if node.asMob == true && node.cpuBlit == false then none else some .einval
  | none =>
    match (K.validationNewBo bo s.rest.rest).1 with
    | .error e => some e
    | .ok _ => none

/-- All that the state of the context needs is on the lists of `t`. -/
structure Complete (K : Kernel σ) (ctx : ℕ) (w : σ) (t : SwContext (Lists hash σ)) : Prop where
  cotables : ∀ r ∈ contextCotables K ctx w, ∃ x ∈ order t.rest.val, r = some x
  bound : ∀ r ∈ K.contextBindingList ctx w, r ∈ order t.rest.val
  views : ∀ r ∈ K.contextBindingList ctx w, K.resType r = .view →
    [K.viewSrf r, r].Sublist (order t.rest.val)
  mob : ∀ bo, contextMob K ctx w = some bo → ∃ node ∈ t.boList, node.vbo = bo

def errnos : Except Stop Unit → List Errno
  | .error (.errno e) => [e]
  | _ => []

def failures (S : Supply σ) (K : Kernel σ) (ctx : ℕ) (s : SwContext (Lists hash σ)) : List Errno :=
  match tried S s.rest (contextCotables K ctx s.rest.rest) with
  | .ok () => errnos (tried S s.rest (contextBound K ctx s.rest.rest)) ++
      (contextMob K ctx s.rest.rest).toList.flatMap fun bo => (mobRefusal K s bo).toList
  | r => errnos r

/-- On success all is listed, and a failure is returned. -/
structure Sound (A : Allocator) (S : Supply σ) (K : Kernel σ) (ctx : ℕ)
    (s : SwContext (Lists hash σ)) : Prop where
  complete : ∀ t, vmwResourceContextResAdd (listed hash A S K) ctx s = (.ok (), t) →
    Complete K ctx s.rest.rest t
  returned : failures S K ctx s ≠ [] → ∃ e ∈ failures S K ctx s,
    (vmwResourceContextResAdd (listed hash A S K) ctx s).1 = .error (.errno e)

/-- No bound resource is refused, or the addition of the query MOB fails too, or there is none. -/
def Survives (S : Supply σ) (K : Kernel σ) (ctx : ℕ) (s : SwContext (Lists hash σ)) : Prop :=
  (∀ r ∈ contextCotables K ctx s.rest.rest, ∃ x, r = some x ∧ refusal S s.rest x = none) →
    (∀ r ∈ contextBound K ctx s.rest.rest, ∃ x, r = some x ∧ refusal S s.rest x = none) ∨
    ∀ bo, contextMob K ctx s.rest.rest = some bo → (mobRefusal K s bo).isSome

theorem addBo_eq (hquiet : Quiet s t) : vmwValidationAddBo (listed hash A S K) bo true false t =
    boNodeFor (listed hash A S K) ⟨bo, true, false⟩ (vmwValidationFindBoDup s.boList bo) t := by
  have hdup : (inspect fun s => vmwValidationFindBoDup s.boList bo : Check (Lists hash σ) _) t =
      (.ok (vmwValidationFindBoDup s.boList bo), t) := by rw [inspect, hquiet.boList]
  rw [vmwValidationAddBo, bind_of_ok hdup]

theorem mob_refused {e : Errno} (hquiet : Quiet s t) (h : mobRefusal K s bo = some e) :
    (vmwValidationAddBo (listed hash A S K) bo true false t).1 = .error (.errno e) := by
  rw [addBo_eq hquiet]
  unfold mobRefusal at h
  cases hdup : vmwValidationFindBoDup s.boList bo with
  | some node =>
    rw [hdup] at h
    dsimp only at h
    split_ifs at h with hflags
    cases h
    change (require (node.asMob == true && node.cpuBlit == false) _ t).1 = _
    rw [require, if_neg hflags]
    rfl
  | none =>
    rw [hdup] at h
    dsimp only at h
    rcases hop : K.validationNewBo bo s.rest.rest with ⟨e' | a, w⟩
    · rw [hop] at h
      cases h
      have hop' : call ((listed hash A S K).validationNewBo bo) t =
          (.error (.errno e), { t with rest := { t.rest with rest := w } }) := by
        change call (onRest (K.validationNewBo bo)) t = _
        simp only [call, onRest, hquiet.rest, hop]
      rw [boNodeFor, bind_of_error hop']
    · simp [hop] at h

theorem mob_added (hquiet : Quiet s t) (h : mobRefusal K s bo = none) :
    ∃ u, vmwValidationAddBo (listed hash A S K) bo true false t = (.ok (), u) ∧
      u.rest.val = t.rest.val ∧ ∃ node ∈ u.boList, node.vbo = bo := by
  rw [addBo_eq hquiet]
  unfold mobRefusal at h
  cases hdup : vmwValidationFindBoDup s.boList bo with
  | some node =>
    rw [hdup] at h
    dsimp only at h
    split_ifs at h with hflags
    refine ⟨t, ?_, rfl, node, ?_, ?_⟩
    · change require (node.asMob == true && node.cpuBlit == false) _ t = _
      rw [require, if_pos hflags]
      rfl
    · rw [hquiet.boList]
      exact List.mem_of_find?_eq_some hdup
    · simpa using List.find?_some hdup
  | none =>
    rw [hdup] at h
    dsimp only at h
    rcases hop : K.validationNewBo bo s.rest.rest with ⟨e | a, w⟩
    · simp [hop] at h
    · have hop' : call ((listed hash A S K).validationNewBo bo) t =
          (.ok a, { t with rest := { t.rest with rest := w } }) := by
        change call (onRest (K.validationNewBo bo)) t = _
        simp only [call, onRest, hquiet.rest, hop]
      refine ⟨{ t with
        boList := t.boList ++ [⟨bo, true, false⟩], rest := { t.rest with rest := w } }, ?_, rfl,
        ⟨bo, true, false⟩, List.mem_append_right _ (List.mem_singleton_self _), rfl⟩
      rw [boNodeFor, bind_of_ok hop']
      rfl

theorem boundResources_some {r : Option ℕ} {res : ℕ} (h : r ∈ boundResources K res) :
    r ≠ none := by
  unfold boundResources at h
  rintro rfl
  split_ifs at h <;> simp at h

theorem tried_some {w : Lists hash σ} {rs : List (Option ℕ)} (h : ∀ r ∈ rs, r ≠ none) :
    tried S w rs = .ok () ∨ ∃ e, tried S w rs = .error (.errno e) := by
  induction rs with
  | nil => exact .inl rfl
  | cons r rs ih =>
    cases r with
    | none => exact absurd rfl (h none List.mem_cons_self)
    | some r =>
      unfold tried
      cases refusal S w r with
      | some e => exact .inr ⟨e, rfl⟩
      | none => exact ih fun r' hr => h r' (List.mem_cons_of_mem _ hr)

theorem tried_bound (ctx : ℕ) (w : Lists hash σ) : tried S w (contextBound K ctx w.rest) = .ok () ∨
    ∃ e, tried S w (contextBound K ctx w.rest) = .error (.errno e) := by
  refine tried_some fun r hr => ?_
  obtain ⟨x, -, hx⟩ := List.mem_flatMap.1 hr
  exact boundResources_some hx

variable (hK : Typed K) (hs : Tracked K s)
include hK hs

theorem contextCotables_adds (ctx : ℕ) : Adds K S
    (runIf (hasCotables K ctx)
      (repeatFrom (cotableValAdd (listed hash A S K) ctx) 0 svgaCotableDx10Max))
    (contextCotables K ctx s.rest.rest) s := by
  unfold contextCotables
  cases hasCotables K ctx with
  | false => exact adds_nil hs
  | true => exact cotables_adds hK _ hs (le_of_eq (Nat.zero_add _))

omit hK hs in
theorem contextResAdd_eq : vmwResourceContextResAdd (listed hash A S K) ctx = (do
    runIf (hasCotables K ctx)
      (repeatFrom (cotableValAdd (listed hash A S K) ctx) 0 svgaCotableDx10Max)
    let l ← inspect fun s => K.contextBindingList ctx s.rest.rest
    let ret ← retOf (forEach (boundValAdd (listed hash A S K)) l)
    let mob ← inspect fun s => contextMob K ctx s.rest.rest
    match mob with
    | some bo => vmwValidationAddBo (listed hash A S K) bo true false
    | none => ofRet ret) := rfl

theorem contextResAdd_cotable {f : Stop}
    (h : tried S s.rest (contextCotables K ctx s.rest.rest) = .error f) :
    (vmwResourceContextResAdd (listed hash A S K) ctx s).1 = .error f := by
  obtain ⟨t, ht, -, -⟩ := contextCotables_adds (A := A) (S := S) hK hs ctx
  rw [h] at ht
  rw [contextResAdd_eq, bind_of_error ht]

theorem contextResAdd_run (h : tried S s.rest (contextCotables K ctx s.rest.rest) = .ok ()) :
    ∃ u, Quiet s u ∧
      (tried S s.rest (contextBound K ctx s.rest.rest) = .ok () →
        Grown K S (contextCotables K ctx s.rest.rest ++ contextBound K ctx s.rest.rest) s u) ∧
      vmwResourceContextResAdd (listed hash A S K) ctx s =
        match contextMob K ctx s.rest.rest with
        | some bo => vmwValidationAddBo (listed hash A S K) bo true false u
        | none => (tried S s.rest (contextBound K ctx s.rest.rest), u) := by
  obtain ⟨t, ht, hquiet, hgrown⟩ := contextCotables_adds (A := A) (S := S) hK hs ctx
  have hg := hgrown h
  obtain ⟨u, hu, hquiet', hgrown'⟩ := boundList_adds (A := A) (S := S) hK
    (K.contextBindingList ctx s.rest.rest) hg.tracked
  rw [tried_congr hg.refusal] at hu hgrown'
  have hall : Quiet s u := ⟨hquiet'.rest.trans hquiet.rest, hquiet'.boList.trans hquiet.boList⟩
  refine ⟨u, hall, fun hok => hg.trans (hgrown' hok), ?_⟩
  rw [h] at ht
  have hlist : (inspect fun s => K.contextBindingList ctx s.rest.rest : Check (Lists hash σ) _) t =
      (.ok (K.contextBindingList ctx s.rest.rest), t) := by rw [inspect, hquiet.rest]
  have hmob : (inspect fun s => contextMob K ctx s.rest.rest : Check (Lists hash σ) _) u =
      (.ok (contextMob K ctx s.rest.rest), u) := by rw [inspect, hall.rest]
  rw [contextResAdd_eq, bind_of_ok ht, bind_of_ok hlist]
  change tried S s.rest (contextBound K ctx s.rest.rest) = .ok () → _ at hgrown'
  change forEach _ _ _ = (tried S s.rest (contextBound K ctx s.rest.rest), u) at hu
  rcases tried_bound (S := S) (K := K) ctx s.rest with hok | ⟨e, he⟩
  · rw [hok] at hu ⊢
    have hret : retOf (forEach (boundValAdd (listed hash A S K))
        (K.contextBindingList ctx s.rest.rest)) t = (.ok (.ok ()), u) := by rw [retOf, hu]
    rw [bind_of_ok hret, bind_of_ok hmob]
    cases contextMob K ctx s.rest.rest <;> rfl
  · rw [he] at hu ⊢
    have hret : retOf (forEach (boundValAdd (listed hash A S K))
        (K.contextBindingList ctx s.rest.rest)) t = (.ok (.error e), u) := by rw [retOf, hu]
    rw [bind_of_ok hret, bind_of_ok hmob]
    cases contextMob K ctx s.rest.rest <;> rfl

omit hK hs in
theorem Grown.complete
    (h : Grown K S (contextCotables K ctx s.rest.rest ++ contextBound K ctx s.rest.rest) s u)
    (hcot : tried S s.rest (contextCotables K ctx s.rest.rest) = .ok ())
    (hval : t.rest.val = u.rest.val)
    (hmob : ∀ bo, contextMob K ctx s.rest.rest = some bo → ∃ node ∈ t.boList, node.vbo = bo) :
    Complete K ctx s.rest.rest t := by
  have hbound : ∀ r ∈ K.contextBindingList ctx s.rest.rest, r ∈ order u.rest.val := by
    intro r hr
    refine (h.mem r).2 (.inr (List.mem_append_right _ (List.mem_flatMap.2 ⟨r, hr, ?_⟩)))
    unfold boundResources
    split_ifs <;> simp
  refine ⟨fun r hr => ?_, ?_, fun r hr htype => ?_, hmob⟩
  · obtain ⟨x, rfl, -⟩ := tried_ok_iff.1 hcot r hr
    rw [hval]
    exact ⟨x, (h.mem x).2 (.inr (List.mem_append_left _ hr)), rfl⟩
  · rw [hval]
    exact hbound
  · rw [hval]
    exact h.tracked.views r (hbound r hr) htype

/-- The return code of the query MOB takes the place of the one of the binding loop. -/
theorem contextResAdd_sound_iff : Sound A S K ctx s ↔ Survives S K ctx s := by
  unfold Survives
  rw [← tried_ok_iff, ← tried_ok_iff]
  cases hcot : tried S s.rest (contextCotables K ctx s.rest.rest) with
  | error f =>
    have hrun := contextResAdd_cotable (A := A) hK hs hcot
    refine iff_of_true ⟨fun t ht => ?_, fun hne => ?_⟩ fun h => by cases h
    · rw [ht] at hrun
      cases hrun
    · unfold failures at hne ⊢
      rw [hcot] at hne ⊢
      cases f with
      | errno e => exact ⟨e, List.mem_singleton_self e, hrun⟩
      | nullRes | nullNode | bugOn | badIndex => exact absurd rfl hne
  | ok =>
    obtain ⟨u, hquiet, hgrown, hrun⟩ := contextResAdd_run (A := A) hK hs hcot
    have hfail : failures S K ctx s = errnos (tried S s.rest (contextBound K ctx s.rest.rest)) ++
        (contextMob K ctx s.rest.rest).toList.flatMap fun bo => (mobRefusal K s bo).toList := by
      rw [failures, hcot]
    cases hmob : contextMob K ctx s.rest.rest with
    | none =>
      rw [hmob] at hrun hfail
      refine iff_of_true ⟨fun t ht => ?_, fun hne => ?_⟩ fun _ => .inr fun bo hbo => by cases hbo
      · rw [hrun] at ht
        have hok := congrArg Prod.fst ht
        have hut := congrArg Prod.snd ht
        dsimp only at hok hut
        subst hut
        exact (hgrown hok).complete hcot rfl fun bo hbo => by
          rw [hmob] at hbo
          cases hbo
      · rcases tried_bound (S := S) (K := K) ctx s.rest with hok | ⟨e, he⟩
        · rw [hfail, hok] at hne
          exact absurd rfl hne
        · rw [hfail, hrun, he]
          exact ⟨e, List.mem_singleton_self e, rfl⟩
    | some bo =>
      rw [hmob] at hrun hfail
      dsimp only at hrun
      cases hr : mobRefusal K s bo with
      | some e =>
        have hrefused := mob_refused (A := A) (S := S) hquiet hr
        rw [← hrun] at hrefused
        refine iff_of_true ⟨fun t ht => ?_, fun _ => ⟨e, ?_, hrefused⟩⟩ fun _ => .inr fun bo' hbo => ?_
        · rw [ht] at hrefused
          cases hrefused
        · rw [hfail]
          simp [hr]
        · cases hbo
          rw [hr]
          rfl
      | none =>
        obtain ⟨t, ht, hval, hlisted⟩ := mob_added (A := A) (S := S) hquiet hr
        rw [← hrun] at ht
        rcases tried_bound (S := S) (K := K) ctx s.rest with hok | ⟨e, he⟩
        · refine iff_of_true ⟨fun t' ht' => ?_, fun hne => ?_⟩ fun _ => .inl hok
          · rw [ht] at ht'
            cases ht'
            refine (hgrown hok).complete hcot hval fun bo' hbo => ?_
            rw [hmob] at hbo
            cases hbo
            exact hlisted
          · rw [hfail, hok] at hne
            simp [hr, errnos] at hne
        · refine iff_of_false (fun hsound => ?_) fun h => ?_
          · obtain ⟨e', -, he'⟩ := hsound.returned (by rw [hfail, he]; simp [errnos])
            rw [ht] at he'
            cases he'
          · rcases h rfl with hok | hsome
            · rw [he] at hok
              cases hok
            · have hnone := hsome bo rfl
              rw [hr] at hnone
              cases hnone

end Context

section Sample
variable {hash : ℕ → ℕ} {σ : Type} {K : Kernel σ}

/-- A submission that begins with the context `v`, which has an empty table. -/
def begun (s : SwContext σ) (v : ValContext hash) : SwContext (Lists hash σ) :=
  { s with rest := ⟨declareValContext true true v, fun _ => none, s.rest⟩ }

theorem begun_tracked {s : SwContext σ} {v : ValContext hash}
    (hempty : ∀ k, drmHtFindItem v.table k = none) (hcache : ∀ t, (s.resCache t).valid = false) :
    Tracked K (begun s v) where
  registered := by
    refine ⟨rfl, rfl, fun r x => ?_, fun x hx => by cases hx⟩
    change drmHtFindItem v.table r = some x ↔ _
    rw [hempty]
    constructor
    · intro h
      cases h
    · rintro ⟨h, -⟩
      cases h
  cached t r h := by
    change ((s.resCache t).valid && _) = true at h
    rw [hcache] at h
    cases h
  views w hw := by cases hw

/-- A DX context with a bound view, the surface 3 under it, and a query MOB. -/
def boundKernel : Kernel Bool :=
  { ExecbufVerifier.sampleKernel true with
    contextBindingList := fun _ _ => [5]
    contextGetDxQueryMob := fun _ _ => some 60 }

theorem boundKernel_typed : Typed boundKernel where
  cotables ctx i w r h := by
    change (if ctx = 2 then some (20 + i) else none) = some r at h
    split_ifs at h
    cases h
    change ExecbufVerifier.sampleType (20 + i) = .cotable
    unfold ExecbufVerifier.sampleType
    split <;> first | omega | rfl
  viewSrf v h := rfl

/-- There is memory for all nodes but the one of a given resource. -/
def allBut (res : ℕ) : Supply Bool := ⟨fun r _ => r ≠ res, fun _ _ => false⟩

def boundContext : SwContext (Lists (· % 256) Bool) :=
  begun (ExecbufVerifier.sampleContext [] true) (unused (· % 256))

theorem boundContext_tracked : Tracked boundKernel boundContext :=
  begun_tracked (fun _ => rfl) fun _ => rfl

/-- With memory for all of them the cotables, the surface, the view and the MOB are listed. -/
theorem boundContext_sound : Sound .next (allBut 0) boundKernel 2 boundContext :=
  (contextResAdd_sound_iff boundKernel_typed boundContext_tracked).2 fun _ => .inl (by
    decide +kernel)

/-- Without memory for the surface the function returns 0. -/
theorem boundContext_dropped : Typed boundKernel ∧ Tracked boundKernel boundContext ∧
    ¬ Sound .next (allBut 3) boundKernel 2 boundContext := by
  refine ⟨boundKernel_typed, boundContext_tracked, fun h => ?_⟩
  obtain ⟨e, -, he⟩ := h.returned (by decide +kernel)
  have hok : (vmwResourceContextResAdd (listed (· % 256) .next (allBut 3) boundKernel) 2
      boundContext).1.toOption = some () := by decide +kernel
  rw [he] at hok
  cases hok

end Sample

end Vmwgfx.ExecbufListing
