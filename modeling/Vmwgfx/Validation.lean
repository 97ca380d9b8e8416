import Vmwgfx.ExecbufState
import Vmwgfx.HashTable

set_option autoImplicit false

/-!
# Validation lists

`vmwgfx_validation.c`: the buffer objects and resources of a submission are registered on
lists. Duplicates are found in a hash table, which the submissions share, or by a search
of the lists. Objects and nodes are named by their addresses; the key of a node in the
table is the address of its object.
-/
namespace Vmwgfx.Validation
open HashTable
open ExecbufState (Errno ResType)

structure BoNode where
  bo : ℕ
  asMob : Bool
  cpuBlit : Bool
  deriving DecidableEq, Repr

/-- `struct vmw_validation_res_node`, without the data of a backup switch. -/
structure ResNode where
  res : ℕ
  firstUsage : Bool
  deriving DecidableEq, Repr

/-- What the lists depend on: `dev_priv->has_mob` and the types of the resources. -/
structure Device where
  hasMob : Bool
  resType : ℕ → ResType

/-- The validation context with the hash table of its owner, and the references to buffer
    objects and resources. `used` are the nodes in the pages of the context. -/
structure ValContext (hash : ℕ → ℕ) where
  table : OpenHash hash ℕ
  /-- `ctx->ht` is not NULL. -/
  hasHt : Bool
  mergeDups : Bool
  boNode : ℕ → BoNode
  resNode : ℕ → ResNode
  boList : List ℕ
  resourceList : List ℕ
  resourceCtxList : List ℕ
  used : List ℕ
  boRefs : ℕ → ℤ
  resRefs : ℕ → ℤ

variable {hash : ℕ → ℕ}

/-- A table that has just been created, before any submission. -/
def unused (hash : ℕ → ℕ) : ValContext hash where
  table := drmHtCreate hash ℕ
  hasHt := false
  mergeDups := true
  boNode _ := ⟨0, false, false⟩
  resNode _ := ⟨0, false⟩
  boList := []
  resourceList := []
  resourceCtxList := []
  used := []
  boRefs _ := 0
  resRefs _ := 0

def declareValContext (hasHt mergeDups : Bool) (s : ValContext hash) : ValContext hash :=
  { s with
    hasHt := hasHt, mergeDups := mergeDups
    boList := [], resourceList := [], resourceCtxList := [], used := [] }

def vmwValidationFindBoDup (s : ValContext hash) (vbo : ℕ) : Option ℕ :=
  if !s.mergeDups then none
  else if s.hasHt then drmHtFindItem s.table vbo
  else s.boList.find? fun entry => (s.boNode entry).bo = vbo

def vmwValidationFindResDup (s : ValContext hash) (res : ℕ) : Option ℕ :=
  if !s.mergeDups then none
  else if s.hasHt then drmHtFindItem s.table res
  else (s.resourceCtxList.find? fun entry => (s.resNode entry).res = res).or
    (s.resourceList.find? fun entry => (s.resNode entry).res = res)

/-- A successful `vmw_validation_mem_alloc`; the pages are zeroed. -/
def ValContext.memAlloc (A : Allocator) (s : ValContext hash) : ValContext hash :=
  { s with
    used := A.alloc s.used :: s.used
    boNode := Function.update s.boNode (A.alloc s.used) ⟨0, false, false⟩
    resNode := Function.update s.resNode (A.alloc s.used) ⟨0, false⟩ }

def ValContext.insertNode (node key : ℕ) (s : ValContext hash) : Option (ValContext hash) :=
  if s.hasHt then (drmHtInsertItem s.table ⟨node, key⟩).map fun ht => { s with table := ht }
  else some s

/-- A new node for an object: `mem` tells whether there is memory for it, `doomed` whether
    the last reference to the object is gone. `list` takes the reference and links the node. -/
def addNode (A : Allocator) (key : ℕ) (mem doomed : Bool)
    (list : ℕ → ValContext hash → ValContext hash) (s : ValContext hash) :
    Except Errno ℕ × ValContext hash :=
  if mem then
    match (s.memAlloc A).insertNode (A.alloc s.used) key with
    | none => (.error .einval, s.memAlloc A)
    | some t =>
      if doomed then (.error .esrch, t)
      else (.ok (A.alloc s.used), list (A.alloc s.used) t)
  else (.error .enomem, s)

def ValContext.listBo (node vbo : ℕ) (asMob cpuBlit : Bool) (s : ValContext hash) :
    ValContext hash :=
  { s with
    boRefs := Function.update s.boRefs vbo (s.boRefs vbo + 1)
    boList := s.boList ++ [node]
    boNode := Function.update s.boNode node ⟨vbo, asMob, cpuBlit⟩ }

def vmwValidationAddBo (A : Allocator) (vbo : ℕ) (asMob cpuBlit mem doomed : Bool)
    (s : ValContext hash) : Except Errno Unit × ValContext hash :=
  match vmwValidationFindBoDup s vbo with
  | some node =>
    if (s.boNode node).asMob ≠ asMob ∨ (s.boNode node).cpuBlit ≠ cpuBlit then
      (.error .einval, s)
    else (.ok (), s)
  | none =>
    let r := addNode A vbo mem doomed (fun node => .listBo node vbo asMob cpuBlit) s
    (r.1.map fun _ => (), r.2)

def ValContext.listRes (D : Device) (node res : ℕ) (s : ValContext hash) : ValContext hash :=
  let t := { s with
    resRefs := Function.update s.resRefs res (s.resRefs res + 1)
    resNode := Function.update s.resNode node ⟨res, true⟩ }
  if !D.hasMob then { t with resourceList := t.resourceList ++ [node] }
  else match D.resType res with
    | .context | .dxContext => { t with resourceCtxList := node :: t.resourceCtxList }
    | .cotable => { t with resourceCtxList := t.resourceCtxList ++ [node] }
    | _ => { t with resourceList := t.resourceList ++ [node] }

/-- `node->first_usage = 0`. -/
def ValContext.usedAgain (node : ℕ) (s : ValContext hash) : ValContext hash :=
  { s with
    resNode := Function.update s.resNode node { s.resNode node with firstUsage := false } }

/-- The result is `*first_usage`, with the node whose private data `*p_node` points to. -/
def vmwValidationAddResource (A : Allocator) (D : Device) (res : ℕ) (mem doomed : Bool)
    (s : ValContext hash) : Except Errno (Bool × ℕ) × ValContext hash :=
  match vmwValidationFindResDup s res with
  | some node =>
    let t := s.usedAgain node
    (.ok ((t.resNode node).firstUsage, node), t)
  | none =>
    let r := addNode A res mem doomed (fun node => .listRes D node res) s
    (r.1.map fun node => ((r.2.resNode node).firstUsage, node), r.2)

/-- `list_splice_init(&ctx->resource_ctx_list, &ctx->resource_list)`, with which
    `vmw_validation_res_reserve` begins. -/
def ValContext.splice (s : ValContext hash) : ValContext hash :=
  { s with
    resourceList := s.resourceCtxList ++ s.resourceList
    resourceCtxList := [] }

def vmwValidationDropHt (s : ValContext hash) : ValContext hash :=
  if s.hasHt then
    { s with
      table := (s.boList ++ s.resourceList ++ s.resourceCtxList).foldl drmHtRemoveItem s.table
      hasHt := false }
  else s

def unreferenceAll (objects : List ℕ) (refs : ℕ → ℤ) : ℕ → ℤ :=
  objects.foldl (fun refs o => Function.update refs o (refs o - 1)) refs

def vmwValidationUnrefLists (s : ValContext hash) : ValContext hash :=
  let t := s.splice
  { t with
    boRefs := unreferenceAll (t.boList.map fun entry => (t.boNode entry).bo) t.boRefs
    resRefs := unreferenceAll (t.resourceList.map fun val => (t.resNode val).res) t.resRefs
    boList := [], resourceList := [], used := [] }

/-- What happens to a context between its declaration and `vmw_validation_drop_ht`. -/
inductive Op where
  | addBo (vbo : ℕ) (asMob cpuBlit mem doomed : Bool)
  | addResource (res : ℕ) (mem doomed : Bool)
  | splice
  deriving DecidableEq, Repr

/-- The result of a call; the lists and the table after a call that fails are used on. -/
def runOp (A : Allocator) (D : Device) (o : Op) (s : ValContext hash) :
    Except Errno (Option (Bool × ℕ)) × ValContext hash :=
  match o with
  | .addBo vbo asMob cpuBlit mem doomed =>
    let r := vmwValidationAddBo A vbo asMob cpuBlit mem doomed s
    (r.1.map fun _ => none, r.2)
  | .addResource res mem doomed =>
    let r := vmwValidationAddResource A D res mem doomed s
    (r.1.map some, r.2)
  | .splice => (.ok none, s.splice)

def runOps (A : Allocator) (D : Device) (os : List Op) (s : ValContext hash) : ValContext hash :=
  os.foldl (fun s o => (runOp A D o s).2) s

end Vmwgfx.Validation
