import Vmwgfx.ExecbufState
import Vmwgfx.FailingState
import Mathlib.Algebra.Group.Pi.Lemmas

set_option autoImplicit false

/-!
# Failing initialisation of contexts

`vmw_gb_context_init` with the allocations that it makes and the clean-up on its error paths. A
field of the context is no pointer, an object or an error that has been encoded as a pointer;
a run ends early where an error is used as an object.
-/
namespace Vmwgfx.ContextInit
open ExecbufState (Errno)
open FailingState

inductive Obj where
  | context
  | manager
  | bindingState
  | cotable (type : ℕ)
  deriving DecidableEq, Repr

inductive Ptr where
  | null
  | obj (x : Obj)
  /-- `ERR_PTR`. -/
  | err (e : Errno)
  deriving DecidableEq, Repr

/-- The accounted memory, how often each object exists, and the pointers of
    `struct vmw_user_context`. -/
structure World where
  memGlob : ℤ
  live : Obj → ℤ
  man : Ptr
  cbs : Ptr
  cotables : ℕ → Ptr

/-- The sizes that are accounted: `vmw_user_context_size`, that of a binding state and
    `cotable_acc_size`. -/
structure Sizes where
  userContext : ℤ
  bindingState : ℤ
  cotable : ℤ

/-- What the steps of `vmw_cotable_alloc` return; `kzalloc` tells whether there is memory. -/
structure CotableEnds where
  memGlobalAlloc : Option Errno
  kzalloc : Bool
  resourceInit : Option Errno

structure InitEnds where
  resourceInit : Option Errno
  /-- `kzalloc` and `drm_ht_create` in `vmw_cmdbuf_res_man_create`. -/
  manKzalloc : Bool
  htCreate : Option Errno
  /-- `ttm_mem_global_alloc` and `vzalloc` in `vmw_binding_state_alloc`. -/
  bindingAlloc : Option Errno
  bindingVzalloc : Bool
  cotable : ℕ → CotableEnds

def svgaCotableDx10Max : ℕ := 11

abbrev Step := Run World Ptr

def charge (n : ℤ) (w : World) : World := { w with memGlob := w.memGlob + n }
def acquire (x : Obj) (w : World) : World := { w with live := w.live + Pi.single x 1 }
def release (x : Obj) (w : World) : World := { w with live := w.live - Pi.single x 1 }

def setCotable (i : ℕ) (p : Ptr) (w : World) : World :=
  { w with cotables := Function.update w.cotables i p }

def deref : Ptr → Step Obj
  | .obj x => pure x
  | p => stop p

section
variable (z : Sizes)

def vmwCmdbufResManCreate (o : InitEnds) : Step Ptr :=
  if !o.manKzalloc then pure (.err .enomem)
  else do
    update (acquire .manager)
    match o.htCreate with
    | none => pure (.obj .manager)
    | some e =>
      update (release .manager)
      pure (.err e)

def vmwBindingStateAlloc (o : InitEnds) : Step Ptr :=
  match o.bindingAlloc with
  | some e => pure (.err e)
  | none => do
    update (charge z.bindingState)
    if !o.bindingVzalloc then
      update (charge (-z.bindingState))
      pure (.err .enomem)
    else
      update (acquire .bindingState)
      pure (.obj .bindingState)

def vmwBindingStateFree (p : Ptr) : Step Unit := do
  let x ← deref p
  update (release x)
  update (charge (-z.bindingState))

def vmwCotableAlloc (o : CotableEnds) (type : ℕ) : Step Ptr :=
  match o.memGlobalAlloc with
  | some e => pure (.err e)
  | none => do
    update (charge z.cotable)
    if !o.kzalloc then
      update (charge (-z.cotable))
      pure (.err .enomem)
    else
      update (acquire (.cotable type))
      match o.resourceInit with
      | none => pure (.obj (.cotable type))
      | some e =>
        update (release (.cotable type))
        update (charge (-z.cotable))
        pure (.err e)

/-- `vmw_resource_unreference` of a table, whose only reference it is, with
    `vmw_cotable_free`. -/
def unreferenceCotable (p : Ptr) : Step Unit := do
  let x ← deref p
  update (release x)
  update (charge (-z.cotable))

/-- The body of the loop of `vmw_context_cotables_unref`. -/
def unrefCotableAt (i : ℕ) : Step Unit := do
  let res ← inspect fun w => w.cotables i
  update (setCotable i .null)
  runIf (decide (res ≠ .null)) (unreferenceCotable z res)

def vmwContextCotablesUnref : Step Unit := repeatFrom (unrefCotableAt z) 0 svgaCotableDx10Max

/-- `vmw_user_context_free`, of a context without a buffer for queries. -/
def vmwUserContextFree : Step Unit := do
  let cbs ← inspect World.cbs
  runIf (decide (cbs ≠ .null)) (vmwBindingStateFree z cbs)
  update (release .context)
  update (charge (-z.userContext))

/-- The label `out_err`. -/
def outErr (e : Errno) : Step (Option Errno) := do
  vmwUserContextFree z
  pure (some e)

/-- The loop over the tables from `i` on, and the label `out_cotables`. -/
def allocCotables (o : ℕ → CotableEnds) : ℕ → ℕ → Step (Option Errno)
  | _, 0 => pure none
  | i, n + 1 => do
    let p ← vmwCotableAlloc z (o i) i
    update (setCotable i p)
    match p with
    | .err e =>
      vmwContextCotablesUnref z
      outErr z e
    | _ => allocCotables o (i + 1) n

/-- `vmw_gb_context_init` from the binding state on. -/
def initBindings (o : InitEnds) (dx : Bool) : Step (Option Errno) := do
  let p ← vmwBindingStateAlloc z o
  update fun w => { w with cbs := p }
  match p with
  | .err e => outErr z e
  | _ => if dx then allocCotables z o.cotable 0 svgaCotableDx10Max else pure none

/-- `vmw_gb_context_init` with `vmw_user_context_free`. The result is the error. -/
def vmwGbContextInit (o : InitEnds) (hasMob dx : Bool) : Step (Option Errno) :=
  match o.resourceInit with
  | some e => outErr z e
  | none =>
    if hasMob then do
      let p ← vmwCmdbufResManCreate o
      match p with
      | .err e =>
        update fun w => { w with man := .null }
        outErr z e
      | _ =>
        update fun w => { w with man := p }
        initBindings z o dx
    else initBindings z o dx

/-- What `vmw_context_define` does before: the context is accounted and allocated. -/
def createContext (o : InitEnds) (hasMob dx : Bool) : Step (Option Errno) := do
  update (charge z.userContext)
  update fun w => { acquire .context w with man := .null, cbs := .null, cotables := fun _ => .null }
  vmwGbContextInit z o hasMob dx

/-- A context is created, or else nothing is left of it; no error is used as an object. -/
def Clean (o : InitEnds) (hasMob dx : Bool) (w : World) : Prop :=
  match createContext z o hasMob dx w with
  | (.error _, _) => False
  | (.ok none, _) => True
  | (.ok (some _), t) => t.memGlob = w.memGlob ∧ t.live = w.live

end

def InitEnds.manOk (o : InitEnds) : Prop := o.manKzalloc = true ∧ o.htCreate = none

def InitEnds.bindingOk (o : InitEnds) : Prop := o.bindingAlloc = none ∧ o.bindingVzalloc = true

def CotableEnds.ok (c : CotableEnds) : Prop :=
  c.memGlobalAlloc = none ∧ c.kzalloc = true ∧ c.resourceInit = none

/-- Neither the binding state nor a table is tried in vain. -/
def Safe (o : InitEnds) (hasMob dx : Bool) : Prop :=
  o.resourceInit.isSome ∨ (hasMob = true ∧ ¬ o.manOk) ∨
    (o.bindingOk ∧ (dx = true → ∀ i < svgaCotableDx10Max, (o.cotable i).ok))

variable {z : Sizes} {o : InitEnds} {c : CotableEnds} {hasMob dx : Bool} {w t : World} {i n k : ℕ}
  {x : Obj} {e : Errno} {p : Ptr}

@[simp] theorem charge_back (n : ℤ) (w : World) : charge (-n) (charge n w) = w := by
  simp [charge]

@[simp] theorem release_acquire (x : Obj) (w : World) : release x (acquire x w) = w := by
  simp [release, acquire]

theorem cotableAlloc_ok (h : c.ok) : vmwCotableAlloc z c i w =
    (.ok (.obj (.cotable i)), acquire (.cotable i) (charge z.cotable w)) := by
  unfold vmwCotableAlloc
  rw [h.1, h.2.1, h.2.2]
  rfl

theorem cotableAlloc_fails (h : ¬ c.ok) : ∃ e, vmwCotableAlloc z c i w = (.ok (.err e), w) := by
  unfold vmwCotableAlloc
  cases hmem : c.memGlobalAlloc with
  | some e => exact ⟨e, rfl⟩
  | none =>
    cases hz : c.kzalloc with
    | false =>
      refine ⟨.enomem, ?_⟩
      change (Except.ok (Ptr.err .enomem), charge (-z.cotable) (charge z.cotable w)) = _
      rw [charge_back]
    | true =>
      cases hinit : c.resourceInit with
      | none => exact absurd ⟨hmem, hz, hinit⟩ h
      | some e =>
        refine ⟨e, ?_⟩
        change (Except.ok (Ptr.err e), charge (-z.cotable) (release (.cotable i)
          (acquire (.cotable i) (charge z.cotable w)))) = _
        rw [release_acquire, charge_back]

theorem manCreate_ok (h : o.manOk) :
    vmwCmdbufResManCreate o w = (.ok (.obj .manager), acquire .manager w) := by
  unfold vmwCmdbufResManCreate
  rw [h.1, h.2]
  rfl

theorem manCreate_fails (h : ¬ o.manOk) :
    ∃ e, vmwCmdbufResManCreate o w = (.ok (.err e), w) := by
  unfold vmwCmdbufResManCreate
  cases hz : o.manKzalloc with
  | false => exact ⟨.enomem, rfl⟩
  | true =>
    cases hht : o.htCreate with
    | none => exact absurd ⟨hz, hht⟩ h
    | some e =>
      refine ⟨e, ?_⟩
      change (Except.ok (Ptr.err e), release .manager (acquire .manager w)) = _
      rw [release_acquire]

theorem bindingAlloc_ok (h : o.bindingOk) : vmwBindingStateAlloc z o w =
    (.ok (.obj .bindingState), acquire .bindingState (charge z.bindingState w)) := by
  unfold vmwBindingStateAlloc
  rw [h.1, h.2]
  rfl

theorem bindingAlloc_fails (h : ¬ o.bindingOk) :
    ∃ e, vmwBindingStateAlloc z o w = (.ok (.err e), w) := by
  unfold vmwBindingStateAlloc
  cases hmem : o.bindingAlloc with
  | some e => exact ⟨e, rfl⟩
  | none =>
    cases hz : o.bindingVzalloc with
    | true => exact absurd ⟨hmem, hz⟩ h
    | false =>
      refine ⟨.enomem, ?_⟩
      change (Except.ok (Ptr.err .enomem), charge (-z.bindingState) (charge z.bindingState w)) = _
      rw [charge_back]

theorem unrefTables_faults (hk : i ≤ k ∧ k < i + n) (he : w.cotables k = .err e) :
    ∃ p t, repeatFrom (unrefCotableAt z) i n w = (.error p, t) := by
  induction n generalizing i w with
  | zero => omega
  | succ n ih =>
    have hbody : unrefCotableAt z i w =
        runIf (decide (w.cotables i ≠ .null)) (unreferenceCotable z (w.cotables i))
          (setCotable i .null w) := rfl
    cases hp : w.cotables i with
    | err e' =>
      refine ⟨.err e', setCotable i .null w, ?_⟩
      apply bind_of_error
      rw [hbody, hp]
      rfl
    | null =>
      have hne : k ≠ i := fun h => by
        rw [h, hp] at he
        cases he
      have hrun : unrefCotableAt z i w = (.ok (), setCotable i .null w) := by
        rw [hbody, hp]
        rfl
      rw [repeatFrom, bind_of_ok hrun]
      apply ih (by omega)
      change Function.update w.cotables i .null k = _
      rw [Function.update_of_ne hne]
      exact he
    | obj x =>
      have hne : k ≠ i := fun h => by
        rw [h, hp] at he
        cases he
      have hrun : unrefCotableAt z i w =
          (.ok (), charge (-z.cotable) (release x (setCotable i .null w))) := by
        rw [hbody, hp]
        rfl
      rw [repeatFrom, bind_of_ok hrun]
      apply ih (by omega)
      change Function.update w.cotables i .null k = _
      rw [Function.update_of_ne hne]
      exact he

theorem outErr_null (h : w.cbs = .null) (e : Errno) :
    outErr z e w = (.ok (some e), charge (-z.userContext) (release .context w)) := by
  have hfree : vmwUserContextFree z w = (do
      runIf (decide (w.cbs ≠ .null)) (vmwBindingStateFree z w.cbs)
      update (release .context)
      update (charge (-z.userContext)) : Step Unit) w := rfl
  apply bind_of_ok
  rw [hfree, h]
  rfl

theorem allocCotables_ok (h : ∀ j, i ≤ j → j < i + n → (o.cotable j).ok) :
    ∃ t, allocCotables z o.cotable i n w = (.ok none, t) := by
  induction n generalizing i w with
  | zero => exact ⟨w, rfl⟩
  | succ n ih =>
    rw [allocCotables, bind_of_ok (cotableAlloc_ok (h i le_rfl (by omega)))]
    exact ih fun j hj hlt => h j (by omega) (by omega)

theorem allocCotables_faults (hn : i + n ≤ svgaCotableDx10Max) (hk : i ≤ k ∧ k < i + n)
    (h : ¬ (o.cotable k).ok) : ∃ p t, allocCotables z o.cotable i n w = (.error p, t) := by
  induction n generalizing i w with
  | zero => omega
  | succ n ih =>
    by_cases hi : (o.cotable i).ok
    · have hne : k ≠ i := by
        rintro rfl
        exact h hi
      rw [allocCotables, bind_of_ok (cotableAlloc_ok hi)]
      exact ih (by omega) (by omega)
    · obtain ⟨e, he⟩ := cotableAlloc_fails (z := z) (i := i) (w := w) hi
      have hself : (setCotable i (.err e) w).cotables i = .err e := Function.update_self ..
      have hwalk : 0 ≤ i ∧ i < 0 + svgaCotableDx10Max := by omega
      obtain ⟨p, t, hfault⟩ := unrefTables_faults (z := z) hwalk hself
      refine ⟨p, t, ?_⟩
      rw [allocCotables, bind_of_ok he]
      have hset : (update (setCotable i (.err e)) : Step Unit) w =
          (.ok (), setCotable i (.err e) w) := rfl
      rw [bind_of_ok hset]
      exact bind_of_error hfault

theorem initBindings_ok (hb : o.bindingOk)
    (h : dx = true → ∀ i < svgaCotableDx10Max, (o.cotable i).ok) :
    ∃ t, initBindings z o dx w = (.ok none, t) := by
  unfold initBindings
  rw [bind_of_ok (bindingAlloc_ok hb)]
  cases dx with
  | false => exact ⟨_, rfl⟩
  | true => exact allocCotables_ok fun j _ hj => h rfl j (by omega)

theorem initBindings_faults (h : ¬ (o.bindingOk ∧
    (dx = true → ∀ i < svgaCotableDx10Max, (o.cotable i).ok))) :
    ∃ p t, initBindings z o dx w = (.error p, t) := by
  unfold initBindings
  by_cases hb : o.bindingOk
  · rw [bind_of_ok (bindingAlloc_ok hb)]
    obtain ⟨hdx, hall⟩ := Classical.not_imp.1 fun hok => h ⟨hb, hok⟩
    push Not at hall
    obtain ⟨k, hk, hbad⟩ := hall
    rw [hdx]
    exact allocCotables_faults (by omega) (by omega) hbad
  · obtain ⟨e, he⟩ := bindingAlloc_fails (z := z) (w := w) hb
    rw [bind_of_ok he]
    exact ⟨_, _, rfl⟩

def Freed (z : Sizes) (w t : World) : Prop :=
  t.memGlob = w.memGlob - z.userContext ∧ t.live = w.live - Pi.single .context 1

theorem freed_outErr (z : Sizes) (w : World) :
    Freed z w (charge (-z.userContext) (release .context w)) :=
  ⟨(sub_eq_add_neg _ _).symm, rfl⟩

theorem gbContextInit_safe (h : Safe o hasMob dx) (hcbs : w.cbs = .null) :
    (∃ t, vmwGbContextInit z o hasMob dx w = (.ok none, t)) ∨
      ∃ e t, vmwGbContextInit z o hasMob dx w = (.ok (some e), t) ∧ Freed z w t := by
  unfold vmwGbContextInit
  cases hinit : o.resourceInit with
  | some e => exact .inr ⟨e, _, outErr_null hcbs e, freed_outErr z w⟩
  | none =>
    by_cases hman : hasMob = true ∧ ¬ o.manOk
    · obtain ⟨e, he⟩ := manCreate_fails (w := w) hman.2
      right
      refine ⟨e, _, ?_, freed_outErr z { w with man := .null }⟩
      dsimp only
      rw [if_pos hman.1, bind_of_ok he]
      exact outErr_null (w := { w with man := .null }) hcbs e
    · have hbind : o.bindingOk ∧ (dx = true → ∀ i < svgaCotableDx10Max, (o.cotable i).ok) := by
        rcases h with hres | hm | hb
        · rw [hinit] at hres
          cases hres
        · exact absurd hm hman
        · exact hb
      left
      dsimp only
      cases hmob : hasMob with
      | false => exact initBindings_ok hbind.1 hbind.2
      | true =>
        have hok : o.manOk := not_not.1 fun hbad => hman ⟨hmob, hbad⟩
        rw [if_pos rfl, bind_of_ok (manCreate_ok hok)]
        exact initBindings_ok hbind.1 hbind.2

theorem gbContextInit_faults (h : ¬ Safe o hasMob dx) :
    ∃ p t, vmwGbContextInit z o hasMob dx w = (.error p, t) := by
  unfold Safe at h
  push Not at h
  obtain ⟨hinit, hman, hbind⟩ := h
  have hbind' : ¬ (o.bindingOk ∧ (dx = true → ∀ i < svgaCotableDx10Max, (o.cotable i).ok)) := by
    rintro ⟨hb, hall⟩
    obtain ⟨hdx, i, hi, hbad⟩ := hbind hb
    exact hbad (hall hdx i hi)
  unfold vmwGbContextInit
  rw [Option.not_isSome_iff_eq_none.1 hinit]
  dsimp only
  cases hmob : hasMob with
  | false => exact initBindings_faults hbind'
  | true =>
    rw [if_pos rfl, bind_of_ok (manCreate_ok (hman hmob))]
    exact initBindings_faults hbind'

/-- A failure of the resource or of the manager leaves nothing; every later one uses an error
    as an object. -/
theorem context_clean_iff (z : Sizes) (o : InitEnds) (hasMob dx : Bool) (w : World) :
    Clean z o hasMob dx w ↔ Safe o hasMob dx := by
  have hcreate : createContext z o hasMob dx w = vmwGbContextInit z o hasMob dx
      { acquire .context (charge z.userContext w) with
        man := .null, cbs := .null, cotables := fun _ => .null } := rfl
  unfold Clean
  rw [hcreate]
  constructor
  · intro hclean
    by_contra hsafe
    obtain ⟨p, t, hfault⟩ := gbContextInit_faults (z := z)
      (w := { acquire .context (charge z.userContext w) with
        man := .null, cbs := .null, cotables := fun _ => .null }) hsafe
    rw [hfault] at hclean
    exact hclean
  · intro hsafe
    rcases gbContextInit_safe (z := z) (w := { acquire .context (charge z.userContext w) with
        man := .null, cbs := .null, cotables := fun _ => .null }) hsafe rfl with
      ⟨t, ht⟩ | ⟨e, t, ht, hmem, hlive⟩
    · rw [ht]
      trivial
    · rw [ht]
      refine ⟨hmem.trans ?_, hlive.trans ?_⟩
      · exact add_sub_cancel_right _ _
      · exact add_sub_cancel_right _ _

def someSizes : Sizes := ⟨1024, 4096, 256⟩

def noWorld : World := ⟨0, 0, .null, .null, fun _ => .null⟩

def noBinding : InitEnds :=
  ⟨none, true, none, some .enomem, true, fun _ => ⟨none, true, none⟩⟩

/-- The error of the binding state is freed as a binding state, with the manager still there. -/
theorem noBinding_unclean :
    (createContext someSizes noBinding true true noWorld).1 = .error (.err .enomem) ∧
    (createContext someSizes noBinding true true noWorld).2.live .manager = 1 ∧
    (createContext someSizes noBinding true true noWorld).2.memGlob = 1024 ∧
    ¬ Clean someSizes noBinding true true noWorld := by
  have hfault : (createContext someSizes noBinding true true noWorld).1 =
      .error (.err .enomem) := rfl
  refine ⟨hfault, rfl, rfl, ?_⟩
  intro h
  exact h

end Vmwgfx.ContextInit
