import Vmwgfx.ExecbufState
import Vmwgfx.LabelledRuns
import Vmwgfx.Word32

set_option autoImplicit false

/-!
# Context object tables

`vmwgfx_cotable.c` for one table of a context, with what `vmwgfx_resource.c` does to its
backup buffer between the calls. The device executes the commands in the FIFO in their
order and later; a wait for a buffer ends when they are executed. Objects that are listed
on the table are not part of this model.
-/
namespace Vmwgfx.Cotable
open ExecbufState (Errno)
open Word32

inductive CotableType where
  | rtView | dsView | srView | elementLayout | blendState | depthStencil | rasterizerState
  | sampler | streamOutput | dxQuery | dxShader
  deriving DecidableEq, Repr

/-- `struct vmw_cotable_info`, without the function. -/
structure CotableInfo where
  minInitialEntries : ℕ
  size : ℕ
  deriving DecidableEq, Repr

/-- `co_info`, with the sizes of the entry structures. -/
def coInfo : CotableType → CotableInfo
  | .rtView => ⟨1, 32⟩
  | .dsView => ⟨1, 32⟩
  | .srView => ⟨1, 32⟩
  | .elementLayout => ⟨1, 1024⟩
  | .blendState => ⟨1, 128⟩
  | .depthStencil => ⟨1, 16⟩
  | .rasterizerState => ⟨1, 32⟩
  | .sampler => ⟨1, 64⟩
  | .streamOutput => ⟨1, 2048⟩
  | .dxQuery => ⟨1, 16⟩
  | .dxShader => ⟨1, 32⟩

def pageSize : ℕ := 4096

def svgaCotableMaxIds : ℤ := 65533

/-- A buffer object: its pages and its bytes by their offsets. -/
structure Buffer where
  numPages : ℕ
  data : ℕ → ℕ

inductive DevCmd where
  | readbackCotable
  | setCotable (mobid : Option ℕ) (validSizeInBytes : ℕ)
  deriving DecidableEq, Repr

/-- The table with its resource; `mobHead` is the buffer whose list the resource is on. `refs`
    and `maps` count the references to buffers and the pages that are mapped. `queue` holds
    the commands that are not executed; `mob` and `table` are those of the device, and
    `lastRead` is what it has read back last. -/
structure CotDev where
  type : CotableType
  seenEntries : ℤ
  scrubbed : Bool
  sizeReadBack : ℕ
  id : ℤ
  backup : Option ℕ
  backupSize : ℕ
  mobHead : Option ℕ
  buffers : ℕ → Option Buffer
  refs : ℕ → ℤ
  maps : ℤ
  queue : List DevCmd
  mob : Option ℕ
  table : ℕ → ℕ
  lastRead : ℕ → ℕ

def CotableType.index (type : CotableType) : ℤ := type.ctorIdx

def pagesOf (size : ℕ) : ℕ := (size + pageSize - 1) / pageSize

def vmwCotableAlloc (type : CotableType) : CotDev where
  type := type
  seenEntries := -1
  scrubbed := true
  sizeReadBack := 0
  id := type.index
  backup := none
  backupSize :=
    if pageSize / (coInfo type).size < (coInfo type).minInitialEntries then
      pagesOf ((coInfo type).minInitialEntries * (coInfo type).size) * pageSize
    else pageSize
  mobHead := none
  buffers := fun _ => none
  refs := 0
  maps := 0
  queue := []
  mob := none
  table := 0
  lastRead := 0

def setBuffer (b : ℕ) (v : Option Buffer) (s : CotDev) : CotDev :=
  { s with buffers := Function.update s.buffers b v }

@[simp] theorem setBuffer_self (b : ℕ) (v : Option Buffer) (s : CotDev) :
    (setBuffer b v s).buffers b = v := Function.update_self ..

theorem setBuffer_of_ne {b c : ℕ} (h : c ≠ b) (v : Option Buffer) (s : CotDev) :
    (setBuffer b v s).buffers c = s.buffers c := Function.update_of_ne h ..

def Buffer.receive (B : Buffer) (table : ℕ → ℕ) : Buffer :=
  { B with data := fun i => if i < B.numPages * pageSize then table i else B.data i }

def deviceExec (cmd : DevCmd) (s : CotDev) : CotDev :=
  match cmd with
  | .readbackCotable =>
    match s.mob with
    | none => s
    | some b =>
      match s.buffers b with
      | none => s
      | some B => { setBuffer b (some (B.receive s.table)) s with lastRead := s.table }
  | .setCotable none _ => { s with mob := none }
  | .setCotable (some b) valid =>
    { s with
      mob := some b
      table := fun i => if i < valid then (s.buffers b).elim 0 (fun B => B.data i) else 0 }

def drain (s : CotDev) : CotDev :=
  { s.queue.foldl (fun t cmd => deviceExec cmd t) s with queue := [] }

def submit (cmds : List DevCmd) (s : CotDev) : CotDev := { s with queue := s.queue ++ cmds }

/-- `vmw_cotable_unscrub`; there is no result where it dereferences a null pointer. -/
def vmwCotableUnscrub (space : Bool) (s : CotDev) : Option (Option Errno × CotDev) :=
  s.backup.map fun b =>
    if space then
      (none, { submit [.setCotable (some b) s.sizeReadBack] s with scrubbed := false })
    else (some .enomem, s)

def vmwCotableBind (space : Bool) (s : CotDev) : Option (Option Errno × CotDev) :=
  vmwCotableUnscrub space s

def vmwCotableScrub (readback space : Bool) (s : CotDev) : Option Errno × CotDev :=
  if s.scrubbed then (none, s)
  else if !space then (some .enomem, s)
  else
    let cmds := (if readback then [.readbackCotable] else []) ++ [.setCotable none 0]
    (none, { submit cmds s with
      sizeReadBack := if readback then s.backupSize else 0
      scrubbed := true
      id := -1 })

def vmwCotableUnbind (readback space : Bool) (s : CotDev) : CotDev :=
  if s.mobHead = none then s
  else if s.scrubbed then s
  else (vmwCotableScrub readback space s).2

def vmwCotableReadback (space : Bool) (s : CotDev) : Option Errno × CotDev :=
  if s.scrubbed then (none, s)
  else if !space then (some .enomem, s)
  else (none, { submit [.readbackCotable] s with sizeReadBack := s.backupSize })

/-- What the calls of `vmw_cotable_resize` return; the maps by the page. -/
structure ResizeEnds where
  readbackSpace : Bool
  kzalloc : Bool
  boInit : Option Errno
  boWait : Option Errno
  mapOld : ℕ → Option Errno
  mapNew : ℕ → Option Errno
  boValidate : Option Errno
  unscrubSpace : Bool

/-- `vmw_bo_init` for a buffer whose pages are cleared. -/
def vmwBoInit (buf size : ℕ) (s : CotDev) : CotDev :=
  { setBuffer buf (some ⟨pagesOf size, 0⟩) s with refs := s.refs + Pi.single buf 1 }

def vmwBoUnreference (b : ℕ) (s : CotDev) : CotDev := { s with refs := s.refs - Pi.single b 1 }

def ttmBoKmap (s : CotDev) : CotDev := { s with maps := s.maps + 1 }

def ttmBoKunmap (s : CotDev) : CotDev := { s with maps := s.maps - 1 }

theorem ttmBoKunmap_kmap (s : CotDev) : ttmBoKunmap (ttmBoKmap s) = s := by
  simp [ttmBoKunmap, ttmBoKmap]

/-- `memcpy` of one page. -/
def copyPage (i oldBo bo : ℕ) (s : CotDev) : CotDev :=
  match s.buffers oldBo, s.buffers bo with
  | some old, some new =>
    setBuffer bo
      (some { new with data := fun k => if k / pageSize = i then old.data k else new.data k }) s
  | _, _ => s

theorem copyPage_kmap (i oldBo bo : ℕ) (s : CotDev) :
    copyPage i oldBo bo (ttmBoKmap s) = ttmBoKmap (copyPage i oldBo bo s) := by
  cases ho : s.buffers oldBo <;> cases hb : s.buffers bo <;>
    simp only [copyPage, ttmBoKmap, ho, hb, setBuffer]

/-- The loop of `vmw_cotable_resize` over the first pages. -/
def copyPages (o : ResizeEnds) (oldBo bo : ℕ) : ℕ → CotDev → Option Errno × CotDev
  | 0, s => (none, s)
  | i + 1, s =>
    match copyPages o oldBo bo i s with
    | (some e, t) => (some e, t)
    | (none, t) =>
      if (o.mapOld i).isSome then (o.mapOld i, t)
      else
        let u := ttmBoKmap t
        if (o.mapNew i).isSome then (o.mapNew i, ttmBoKunmap u)
        else (none, ttmBoKunmap (ttmBoKunmap (copyPage i oldBo bo (ttmBoKmap u))))

/-- `vmw_cotable_resize` after the readback, with the size of the data read back. -/
def switchBackup (o : ResizeEnds) (newSize buf old cur : ℕ) (s : CotDev) :
    Option (Option Errno × CotDev) :=
  if !o.kzalloc then some (some .enomem, s)
  else if o.boInit.isSome then some (o.boInit, s)
  else
    let t := vmwBoInit buf newSize s
    if o.boWait.isSome then some (o.boWait, vmwBoUnreference buf t)
    else
      let u := drain t
      match copyPages o old buf ((u.buffers old).elim 0 (·.numPages)) u with
      | (some e, v) => some (some e, vmwBoUnreference buf v)
      | (none, v) =>
        if o.boValidate.isSome then some (o.boValidate, vmwBoUnreference buf v)
        else
          let w := { v with backup := some buf, backupSize := newSize, sizeReadBack := cur }
          (vmwCotableUnscrub o.unscrubSpace w).map fun r =>
            match r.1 with
            | some e =>
              (some e, vmwBoUnreference buf { r.2 with
                backup := some old
                backupSize := s.backupSize
                sizeReadBack := s.sizeReadBack })
            | none =>
              (none, vmwBoUnreference old { r.2 with mobHead := some buf, id := s.type.index })

/-- `vmw_cotable_resize`; `buf` is the buffer that it allocates. -/
def vmwCotableResize (o : ResizeEnds) (newSize buf : ℕ) (s : CotDev) :
    Option (Option Errno × CotDev) :=
  s.backup.bind fun old =>
    match vmwCotableReadback o.readbackSpace s with
    | (some e, t) => some (some e, t)
    | (none, t) => switchBackup o newSize buf old t.sizeReadBack { t with sizeReadBack := s.sizeReadBack }

/-- The loop of `vmw_cotable_create`, for at most the given number of passes. -/
def doubleSize (neededSize : ℕ) : ℕ → ℕ → Option ℕ
  | 0, _ => none
  | fuel + 1, newSize =>
    if newSize < neededSize then doubleSize neededSize fuel (newSize * 2 % 2 ^ 32)
    else some newSize

/-- `needed_size`, a product of an `int` and a `u32`. -/
def neededSize (s : CotDev) : ℕ :=
  ((s.seenEntries + 1) * (coInfo s.type).size % 2 ^ 32).toNat

/-- After as many passes as there are bits a size that is still too small is zero. -/
def sizePasses : ℕ := 33

/-- `vmw_cotable_create`; there is no result either where it does not return. -/
def vmwCotableCreate (o : ResizeEnds) (unscrubSpace : Bool) (buf : ℕ) (s : CotDev) :
    Option (Option Errno × CotDev) :=
  (doubleSize (neededSize s) sizePasses s.backupSize).bind fun newSize =>
    if newSize ≤ s.backupSize then
      if s.scrubbed ∧ s.mobHead ≠ none then
        (vmwCotableUnscrub unscrubSpace s).map fun r =>
          match r.1 with
          | some e => (some e, r.2)
          | none => (none, { r.2 with id := s.type.index })
      else some (none, { s with id := s.type.index })
    else vmwCotableResize o newSize buf s

def vmwCotableNotify (id : ℤ) (s : CotDev) : Option Errno × CotDev :=
  if id < 0 ∨ svgaCotableMaxIds ≤ id then (some .einval, s)
  else if s.seenEntries < id then (none, { s with id := -1, seenEntries := id })
  else (none, s)

inductive Op where
  | notify (id : ℤ)
  | create (o : ResizeEnds) (unscrubSpace : Bool) (buf : ℕ)
  | scrub (readback space : Bool)
  | unbind (readback space : Bool)
  | readback (space : Bool)
  /-- The binding by `vmw_resource_do_validate`. -/
  | bind (space : Bool)
  /-- `list_del_init(&res->mob_head)` after an unbind. -/
  | unlink
  /-- `vmw_resource_buf_alloc`. -/
  | bufAlloc (buf : ℕ)
  | deviceStep
  /-- The device changes a byte of its table. -/
  | deviceWrite (i v : ℕ)

def step (s : CotDev) : Op → Option CotDev
  | .notify id => some (vmwCotableNotify id s).2
  | .create o unscrubSpace buf =>
    if s.buffers buf = none then (vmwCotableCreate o unscrubSpace buf s).map (·.2) else none
  | .scrub readback space => some (vmwCotableScrub readback space s).2
  | .unbind readback space => some (vmwCotableUnbind readback space s)
  | .readback space => some (vmwCotableReadback space s).2
  | .bind space =>
    if s.mobHead = none then
      (vmwCotableBind space s).map fun r =>
        match r.1 with
        | some _ => r.2
        | none => { r.2 with mobHead := s.backup }
    else none
  | .unlink => some { s with mobHead := none }
  | .bufAlloc buf =>
    if s.backup = none ∧ s.buffers buf = none then
      some { vmwBoInit buf s.backupSize s with backup := some buf }
    else none
  | .deviceStep =>
    match s.queue with
    | [] => none
    | cmd :: cmds => some (deviceExec cmd { s with queue := cmds })
  | .deviceWrite i v => some { s with table := Function.update s.table i v }

end Vmwgfx.Cotable
