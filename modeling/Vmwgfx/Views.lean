import Vmwgfx.ExecbufState
import Vmwgfx.LabelledRuns

set_option autoImplicit false

/-!
# Views

`vmwgfx_so.c`: the views of surfaces, their lists at the surface and at the table of the
context, and what the manager of command buffer resources and the other holders of a view
do with it. The last reference of a view destroys it.
-/
namespace Vmwgfx.Views
open ExecbufState (Errno)

/-- Where the entry of a view is in its manager; `gone` is a view without entry. -/
inductive EntryPhase where
  | staged
  | committed
  | removing
  | gone
  deriving DecidableEq, Repr

/-- `struct vmw_view`; `srf` and `cotable` are the resources that it refers to. -/
structure View where
  srf : ℕ
  cotable : ℕ
  viewType : Fin 3
  viewId : ℕ
  committed : Bool
  id : ℤ
  phase : EntryPhase
  refs : ℕ
  deriving DecidableEq, Repr

inductive FifoCmd where
  | defineView (viewType : Fin 3) (viewId srf : ℕ)
  | destroyView (viewType : Fin 3) (viewId : ℕ)
  deriving DecidableEq, Repr

/-- The views by their addresses, `view_list` of the surfaces and `resource_list` of the
    tables. -/
structure ViewDev where
  views : ℕ → Option View
  viewList : ℕ → List ℕ
  resourceList : ℕ → List ℕ
  fifo : List FifoCmd

def start : ViewDev := ⟨fun _ => none, fun _ => [], fun _ => [], []⟩

def svgaCotableMaxIds : ℕ := 65533

def setView (v : ℕ) (V : Option View) (s : ViewDev) : ViewDev :=
  { s with views := Function.update s.views v V }

@[simp] theorem setView_self (v : ℕ) (V : Option View) (s : ViewDev) :
    (setView v V s).views v = V := Function.update_self ..

theorem setView_of_ne {v w : ℕ} (h : w ≠ v) (V : Option View) (s : ViewDev) :
    (setView v V s).views w = s.views w := Function.update_of_ne h ..

def emit (cmd : FifoCmd) (s : ViewDev) : ViewDev := { s with fifo := s.fifo ++ [cmd] }

/-- `list_add_tail` to the lists of the surface and of the table. -/
def link (v : ℕ) (V : View) (s : ViewDev) : ViewDev :=
  { s with
    viewList := Function.update s.viewList V.srf (s.viewList V.srf ++ [v])
    resourceList := Function.update s.resourceList V.cotable (s.resourceList V.cotable ++ [v]) }

/-- `list_del_init` of both. -/
def unlink (v : ℕ) (V : View) (s : ViewDev) : ViewDev :=
  { s with
    viewList := Function.update s.viewList V.srf ((s.viewList V.srf).erase v)
    resourceList := Function.update s.resourceList V.cotable ((s.resourceList V.cotable).erase v) }

/-- `vmw_view_commit_notify` for an addition. -/
def notifyAdd (v : ℕ) (V : View) (s : ViewDev) : ViewDev :=
  setView v (some { V with committed := true, id := V.viewId }) (link v V s)

/-- `vmw_view_commit_notify` for a removal. -/
def notifyRemove (v : ℕ) (V : View) (s : ViewDev) : ViewDev :=
  setView v (some { V with committed := false, id := -1 }) (unlink v V s)

def vmwViewCreate (space : Bool) (v : ℕ) (V : View) (s : ViewDev) : Option Errno × ViewDev :=
  if !V.committed then (none, s)
  else if !space then (some .enomem, s)
  else
    (none, link v V (setView v (some { V with id := V.viewId })
      (emit (.defineView V.viewType V.viewId V.srf) s)))

def vmwViewDestroy (space : Bool) (v : ℕ) (V : View) (s : ViewDev) : Option Errno × ViewDev :=
  if !V.committed || V.id == -1 then (none, s)
  else if !space then (some .enomem, s)
  else
    (none, unlink v V (setView v (some { V with id := -1 })
      (emit (.destroyView V.viewType V.viewId) s)))

/-- `vmw_hw_view_destroy` and `vmw_view_res_free`: whatever the first one leaves of the view, the
    second one frees it. -/
def vmwResourceRelease (space : Bool) (v : ℕ) (V : View) (s : ViewDev) : ViewDev :=
  setView v none (vmwViewDestroy space v V s).2

def vmwResourceUnreference (space : Bool) (v : ℕ) (V : View) (s : ViewDev) : ViewDev :=
  if V.refs ≤ 1 then vmwResourceRelease space v V s
  else setView v (some { V with refs := V.refs - 1 }) s

def vmwCmdbufResFree (space : Bool) (v : ℕ) (V : View) (s : ViewDev) : ViewDev :=
  vmwResourceUnreference space v { V with phase := .gone } s

/-- `vmw_view_surface_list_destroy` and `vmw_view_cotable_list_destroy`; `space` tells for every
    view whether the FIFO has space. There is no result where a view on the list is freed. -/
def listDestroy (space : ℕ → Bool) : List ℕ → ViewDev → Option ViewDev
  | [], s => some s
  | v :: l, s =>
    match s.views v with
    | none => none
    | some V => listDestroy space l (vmwViewDestroy (space v) v V s).2

def vmwViewIdOk (userKey : ℕ) : Bool := userKey < svgaCotableMaxIds

def View.otherRefs (V : View) : ℕ := if V.phase = .gone then V.refs else V.refs - 1

inductive Op where
  /-- `vmw_view_add` at a free address. -/
  | add (v srf cotable : ℕ) (viewType : Fin 3) (userKey : ℕ)
  /-- `vmw_cmdbuf_res_commit` and `vmw_cmdbuf_res_revert`; a staged addition can also be
      removed. -/
  | commitAdd (v : ℕ)
  | revertAdd (space : Bool) (v : ℕ)
  | remove (v : ℕ)
  | commitRemove (space : Bool) (v : ℕ)
  | revertRemove (v : ℕ)
  /-- The entries that are left when the manager is destroyed. -/
  | manDestroy (space : Bool) (v : ℕ)
  | hold (v : ℕ)
  | drop (space : Bool) (v : ℕ)
  /-- The creation by `vmw_resource_do_validate`. -/
  | create (space : Bool) (v : ℕ)
  | surfaceListDestroy (space : ℕ → Bool) (srf : ℕ)
  | cotableListDestroy (space : ℕ → Bool) (cotable : ℕ)

/-- A step on a view that is alive and whose entry is in the given phase. -/
def onView (p : EntryPhase → Bool) (v : ℕ) (s : ViewDev) (f : View → ViewDev) : Option ViewDev :=
  match s.views v with
  | none => none
  | some V => if p V.phase then some (f V) else none

def step (s : ViewDev) : Op → Option ViewDev
  | .add v srf cotable viewType userKey =>
    if s.views v = none then
      if vmwViewIdOk userKey then
        some (setView v (some ⟨srf, cotable, viewType, userKey, false, userKey, .staged, 1⟩) s)
      else some s
    else none
  | .commitAdd v =>
    onView (· = .staged) v s fun V => notifyAdd v { V with phase := .committed } s
  | .revertAdd space v => onView (· = .staged) v s fun V => vmwCmdbufResFree space v V s
  | .remove v =>
    onView (· = .committed) v s fun V => setView v (some { V with phase := .removing }) s
  | .commitRemove space v =>
    onView (· = .removing) v s fun V =>
      let W := { V with committed := false, id := -1 }
      vmwCmdbufResFree space v W (notifyRemove v V s)
  | .revertRemove v =>
    onView (· = .removing) v s fun V => setView v (some { V with phase := .committed }) s
  | .manDestroy space v => onView (· = .committed) v s fun V => vmwCmdbufResFree space v V s
  | .hold v =>
    onView (fun _ => true) v s fun V => setView v (some { V with refs := V.refs + 1 }) s
  | .drop space v =>
    match s.views v with
    | none => none
    | some V => if 0 < V.otherRefs then some (vmwResourceUnreference space v V s) else none
  | .create space v =>
    match s.views v with
    | none => none
    | some V => if V.id = -1 then some (vmwViewCreate space v V s).2 else none
  | .surfaceListDestroy space srf => listDestroy space (s.viewList srf) s
  | .cotableListDestroy space cotable => listDestroy space (s.resourceList cotable) s

end Vmwgfx.Views
