import Vmwgfx.ExecbufState
import Vmwgfx.HashTable
import Vmwgfx.LabelledRuns

set_option autoImplicit false

/-!
# Managers of command buffer resources

`vmwgfx_cmdbuf_res.c`: shaders and views that a batch defines or destroys are staged on a
list and then committed or reverted. One staging list serves the managers of several
contexts. Managers, entries and resources are named by their addresses.
-/
namespace Vmwgfx.ResManager
open HashTable LabelledRuns FailingState
open ExecbufState (Errno Stop)

inductive ResState where
  | committed
  | add
  | del
  deriving DecidableEq, Repr

inductive CmdbufResType where
  | shader
  | view
  deriving DecidableEq, Repr

def CmdbufResType.code : CmdbufResType → ℕ
  | .shader => 0
  | .view => 1

/-- `user_key | (res_type << 24)`. -/
def resKey (resType : CmdbufResType) (userKey : ℕ) : ℕ := userKey ||| (resType.code <<< 24)

structure CmdbufRes where
  res : ℕ
  key : ℕ
  state : ResState
  man : ℕ
  deriving DecidableEq, Repr

/-- The managers, the staging list of the batch and the entries. `used` are the addresses
    that the allocator has given out. -/
structure Managers (hash : ℕ → ℕ) where
  entry : ℕ → CmdbufRes
  used : List ℕ
  resources : ℕ → OpenHash hash ℕ
  list : ℕ → List ℕ
  staged : List ℕ
  refs : ℕ → ℤ
  notified : List (ℕ × ResState)

variable {hash : ℕ → ℕ}

/-- Nothing is allocated and all tables are empty (`vmw_cmdbuf_res_man_create`). -/
def created (hash : ℕ → ℕ) : Managers hash where
  entry _ := ⟨0, 0, .committed, 0⟩
  used := []
  resources _ := drmHtCreate hash ℕ
  list _ := []
  staged := []
  refs _ := 0
  notified := []

def Managers.found (s : Managers hash) (man key : ℕ) : Option ℕ :=
  drmHtFindItem (s.resources man) key

/-- `list_del(&entry->head)`: the entry leaves the list it is on. -/
def Managers.listDel (a : ℕ) (s : Managers hash) : Managers hash :=
  { s with
    staged := s.staged.filter (· ≠ a)
    list := fun m => (s.list m).filter (· ≠ a) }

def Managers.setTable (man : ℕ) (ht : OpenHash hash ℕ) (s : Managers hash) : Managers hash :=
  { s with resources := Function.update s.resources man ht }

def Managers.unreference (res : ℕ) (s : Managers hash) : Managers hash :=
  { s with refs := Function.update s.refs res (s.refs res - 1) }

def Managers.kfree (a : ℕ) (s : Managers hash) : Managers hash :=
  { s with used := s.used.filter (· ≠ a) }

/-- `entry->state = COMMITTED` and `list_add_tail(&entry->head, &entry->man->list)`. -/
def Managers.settle (a : ℕ) (s : Managers hash) : Managers hash :=
  { s with
    entry := Function.update s.entry a { s.entry a with state := .committed }
    list := Function.update s.list (s.entry a).man (s.list (s.entry a).man ++ [a]) }

def vmwCmdbufResLookup (s : Managers hash) (man : ℕ) (resType : CmdbufResType)
    (userKey : ℕ) : Except Errno ℕ :=
  match s.found man (resKey resType userKey) with
  | none => .error .einval
  | some a => .ok (s.entry a).res

def vmwCmdbufResFree (man a : ℕ) (s : Managers hash) : Managers hash :=
  (((s.listDel a).setTable man (drmHtRemoveItem (s.resources man) a)).unreference
    (s.entry a).res).kfree a

/-- The new entry `cres` is in the table `ht` and on the staging list. -/
def Managers.stageAdd (cres man key res : ℕ) (ht : OpenHash hash ℕ) (s : Managers hash) :
    Managers hash :=
  { s with
    entry := Function.update s.entry cres ⟨res, key, .add, man⟩
    used := cres :: s.used
    resources := Function.update s.resources man ht
    staged := s.staged ++ [cres]
    refs := Function.update s.refs res (s.refs res + 1) }

/-- `mem` tells whether `kzalloc` succeeds. The entry is not freed when its key is taken. -/
def vmwCmdbufResAdd (A : Allocator) (man : ℕ) (resType : CmdbufResType) (userKey res : ℕ)
    (mem : Bool) : Run (Managers hash) Stop Unit := fun s =>
  if mem then
    let cres := A.alloc s.used
    match drmHtInsertItem (s.resources man) ⟨cres, resKey resType userKey⟩ with
    | none => (.error (.errno .einval), { s with used := cres :: s.used })
    | some ht => (.ok (), s.stageAdd cres man (resKey resType userKey) res ht)
  else (.error (.errno .enomem), s)

/-- The committed entry `a` leaves the table and the list of its manager and is staged. -/
def Managers.stageRemove (man a : ℕ) (s : Managers hash) : Managers hash :=
  let t := (s.setTable man (drmHtRemoveItem (s.resources man) a)).listDel a
  { t with
    entry := Function.update t.entry a { t.entry a with state := .del }
    staged := t.staged ++ [a] }

/-- The result is what `*res_p` points to. -/
def vmwCmdbufResRemove (man : ℕ) (resType : CmdbufResType) (userKey : ℕ) :
    Run (Managers hash) Stop (Option ℕ) := fun s =>
  match s.found man (resKey resType userKey) with
  | none => (.error (.errno .einval), s)
  | some a =>
    match (s.entry a).state with
    | .add => (.ok none, vmwCmdbufResFree man a s)
    | .committed => (.ok (some (s.entry a).res), s.stageRemove man a)
    | .del => (.error .bugOn, s)

/-- `notifies` tells for which resources `func->commit_notify` is there. -/
def Managers.notify (notifies : ℕ → Bool) (e : CmdbufRes) (s : Managers hash) :
    Managers hash :=
  if notifies e.res then { s with notified := s.notified ++ [(e.res, e.state)] } else s

/-- The body of the loop of `vmw_cmdbuf_res_commit`. -/
def commitEntry (notifies : ℕ → Bool) (a : ℕ) : Run (Managers hash) Stop Unit := fun s =>
  let t := (s.listDel a).notify notifies (s.entry a)
  match (s.entry a).state with
  | .add => (.ok (), t.settle a)
  | .del => (.ok (), (t.unreference (s.entry a).res).kfree a)
  | .committed => (.error .bugOn, t)

def vmwCmdbufResCommit (notifies : ℕ → Bool) : Run (Managers hash) Stop Unit := fun s =>
  forEach (commitEntry notifies) s.staged s

/-- The entry goes back to its manager; that its key is taken is ignored. -/
def Managers.putBack (a : ℕ) (s : Managers hash) : Managers hash :=
  let t := match drmHtInsertItem (s.resources (s.entry a).man) ⟨a, (s.entry a).key⟩ with
    | none => s
    | some ht => s.setTable (s.entry a).man ht
  (t.listDel a).settle a

/-- The body of the loop of `vmw_cmdbuf_res_revert`. -/
def revertEntry (a : ℕ) : Run (Managers hash) Stop Unit := fun s =>
  match (s.entry a).state with
  | .add => (.ok (), vmwCmdbufResFree (s.entry a).man a s)
  | .del => (.ok (), s.putBack a)
  | .committed => (.error .bugOn, s)

def vmwCmdbufResRevert : Run (Managers hash) Stop Unit := fun s =>
  forEach revertEntry s.staged s

inductive Call where
  | add (man : ℕ) (resType : CmdbufResType) (userKey res : ℕ) (mem : Bool)
  | remove (man : ℕ) (resType : CmdbufResType) (userKey : ℕ)
  deriving DecidableEq, Repr

def Call.man : Call → ℕ
  | .add man _ _ _ _ => man
  | .remove man _ _ => man

def Call.key : Call → ℕ
  | .add _ resType userKey _ _ => resKey resType userKey
  | .remove _ resType userKey => resKey resType userKey

def call (A : Allocator) (c : Call) (s : Managers hash) :
    Except Stop (Option ℕ) × Managers hash :=
  match c with
  | .add man resType userKey res mem =>
    let r := vmwCmdbufResAdd A man resType userKey res mem s
    (r.1.map fun _ => none, r.2)
  | .remove man resType userKey => vmwCmdbufResRemove man resType userKey s

/-- The calls of a batch in order. A call that fails is followed by the next one. -/
def callAll (A : Allocator) : List Call → Managers hash →
    List (Call × Except Stop (Option ℕ)) × Managers hash
  | [], s => ([], s)
  | c :: cs, s =>
    let r := call A c s
    let rest := callAll A cs r.2
    ((c, r.1) :: rest.1, rest.2)

end Vmwgfx.ResManager
