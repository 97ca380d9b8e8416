import Vmwgfx.ExecbufState
import Vmwgfx.LabelledRuns
import Vmwgfx.Shares

set_option autoImplicit false

/-!
# Base objects, reference objects and CPU access

`ttm_object.c` with the CPU access to user buffers of `vmwgfx_bo.c`. What a thread does
between two critical sections can be interleaved with the calls of others: a grab between
the increment of `cpu_writers` and `ttm_ref_object_add`, and a release after the reference
object has left the lists of its file.
-/
namespace Vmwgfx.RefObjects
open ExecbufState (Errno)

inductive RefType where
  | usage
  | synccpuRead
  | synccpuWrite
  deriving DecidableEq, Repr

/-- `struct ttm_ref_object`; `key` is its key in the hash table of its type. -/
structure RefObject where
  tfile : ℕ
  key : ℕ
  obj : ℕ
  refType : RefType
  kref : ℕ
  deriving DecidableEq, Repr

/-- `struct ttm_base_object`. Only that of a user buffer has a `ref_obj_release`. -/
structure BaseObject where
  handle : ℕ
  tfile : ℕ
  shareable : Bool
  isBuffer : Bool
  refcount : ℤ
  deriving DecidableEq, Repr

/-- The open files with their reference objects, the base objects by their addresses, and
    `cpu_writers` of the buffer that belongs to an object. `grabs` are the threads inside a
    grab, with file and object; `releases` are reference objects whose release is going on;
    `otherRefs` are the references to base objects that have other holders. -/
structure TtmDev where
  files : Finset ℕ
  closing : Finset ℕ
  refList : ℕ → List RefObject
  base : ℕ → Option BaseObject
  /-- `tdev->idr`. -/
  idr : ℕ → Option ℕ
  cpuWriters : ℕ → ℤ
  grabs : List (ℕ × ℕ)
  releases : List RefObject
  otherRefs : ℕ → ℤ

def start : TtmDev := ⟨∅, ∅, fun _ => [], fun _ => none, fun _ => none, 0, [], [], 0⟩

def ebusy : Errno := .other 16

/-- A file is used by calls as long as it is open and not being closed. -/
def usable (f : ℕ) (s : TtmDev) : Bool := decide (f ∈ s.files ∧ f ∉ s.closing)

/-- No release of a reference object of the file is going on. -/
def idle (f : ℕ) (s : TtmDev) : Prop := ∀ r ∈ s.releases, r.tfile ≠ f

instance decidableIdle (f : ℕ) (s : TtmDev) : Decidable (idle f s) :=
  inferInstanceAs (Decidable (∀ r ∈ s.releases, r.tfile ≠ f))

def setRefs (f : ℕ) (l : List RefObject) (s : TtmDev) : TtmDev :=
  { s with refList := Function.update s.refList f l }

@[simp] theorem setRefs_self (f : ℕ) (l : List RefObject) (s : TtmDev) :
    (setRefs f l s).refList f = l := Function.update_self ..

theorem setRefs_of_ne {f g : ℕ} (h : g ≠ f) (l : List RefObject) (s : TtmDev) :
    (setRefs f l s).refList g = s.refList g := Function.update_of_ne h ..

def kindOf (ty : RefType) (key : ℕ) (r : RefObject) : Bool := decide (r.refType = ty ∧ r.key = key)

/-- `drm_ht_find_item` in `tfile->ref_hash[ty]`. -/
def findRef (f : ℕ) (ty : RefType) (key : ℕ) (s : TtmDev) : Option RefObject :=
  (s.refList f).find? (kindOf ty key)

def setBase (b : ℕ) (v : Option BaseObject) (s : TtmDev) : TtmDev :=
  { s with base := Function.update s.base b v }

@[simp] theorem setBase_self (b : ℕ) (v : Option BaseObject) (s : TtmDev) :
    (setBase b v s).base b = v := Function.update_self ..

theorem setBase_of_ne {b c : ℕ} (h : c ≠ b) (v : Option BaseObject) (s : TtmDev) :
    (setBase b v s).base c = s.base c := Function.update_of_ne h ..

def addBaseRef (b : ℕ) (s : TtmDev) : TtmDev :=
  match s.base b with
  | none => s
  | some B => setBase b (some { B with refcount := B.refcount + 1 }) s

/-- `ttm_base_object_unref`; the last reference frees the object and its handle. -/
def ttmBaseObjectUnref (b : ℕ) (s : TtmDev) : TtmDev :=
  match s.base b with
  | none => s
  | some B =>
    if B.refcount = 1 then
      let t := setBase b none s
      { t with idr := Function.update t.idr B.handle none }
    else setBase b (some { B with refcount := B.refcount - 1 }) s

def ttmBoSynccpuWriteRelease (b : ℕ) (s : TtmDev) : TtmDev :=
  { s with cpuWriters := s.cpuWriters - Pi.single b 1 }

def getKref (r q : RefObject) : RefObject := if q = r then { q with kref := q.kref + 1 } else q

/-- `ttm_ref_object_add`, by a caller that holds a reference to the object. The result is
    `*existed`; `mem` is what the allocations return. -/
def ttmRefObjectAdd (mem : Option Errno) (f b : ℕ) (ty : RefType) (s : TtmDev) :
    Except Errno Bool × TtmDev :=
  match s.base b with
  | none => (.error .einval, s)
  | some B =>
    if B.tfile ≠ f ∧ B.shareable = false then (.error .eperm, s)
    else
      match findRef f ty B.handle s with
      | some r => (.ok true, setRefs f ((s.refList f).map (getKref r)) s)
      | none =>
        match mem with
        | some e => (.error e, s)
        | none =>
          (.ok false, addBaseRef b (setRefs f (s.refList f ++ [⟨f, B.handle, b, ty, 1⟩]) s))

/-- `ttm_ref_object_release` up to the point where it leaves `tfile->lock`. -/
def detachRef (f : ℕ) (r : RefObject) (s : TtmDev) : TtmDev :=
  { setRefs f ((s.refList f).erase r) s with releases := r :: s.releases }

/-- The rest of `ttm_ref_object_release`, with `vmw_user_bo_ref_obj_release`. -/
def finishRefRelease (r : RefObject) (s : TtmDev) : TtmDev :=
  let t := { s with releases := s.releases.erase r }
  ttmBaseObjectUnref r.obj
    (if r.refType = .synccpuWrite ∧ (s.base r.obj).any (·.isBuffer) then
      ttmBoSynccpuWriteRelease r.obj t
    else t)

def putKref (r q : RefObject) : RefObject := if q = r then { q with kref := q.kref - 1 } else q

def ttmRefObjectBaseUnref (f key : ℕ) (ty : RefType) (s : TtmDev) : Option Errno × TtmDev :=
  match findRef f ty key s with
  | none => (some .einval, s)
  | some r =>
    if r.kref = 1 then (none, detachRef f r s)
    else (none, setRefs f ((s.refList f).map (putKref r)) s)

def vmwUserBoLookup (f handle : ℕ) (s : TtmDev) : Except Errno ℕ :=
  match findRef f .usage handle s with
  | none => .error .esrch
  | some r => if (s.base r.obj).any (·.isBuffer) then .ok r.obj else .error .einval

/-- What the waits of a grab return. `idleWait` is that of
    `reservation_object_wait_timeout_rcu`: the time that is left, or an error. -/
structure GrabEnds where
  idleWait : Except Errno ℕ
  boReserve : Option Errno
  boWait : Option Errno
  deriving Repr

def synccpuAllowCs (flags : ℕ) : Bool := flags.testBit 3

/-- The check of the flags in `vmw_user_bo_synccpu_ioctl`. -/
def synccpuFlagsOk (flags : ℕ) : Bool := (flags.testBit 0 || flags.testBit 1) && flags / 16 == 0

/-- `vmw_user_bo_synccpu_grab` until `ttm_bo_synccpu_write_grab` has returned. -/
def vmwUserBoSynccpuGrab (o : GrabEnds) (f b flags : ℕ) (s : TtmDev) : Option Errno × TtmDev :=
  if synccpuAllowCs flags then
    match o.idleWait with
    | .error e => (some e, s)
    | .ok left => (if left = 0 then some ebusy else none, s)
  else if o.boReserve.isSome then (o.boReserve, s)
  else if o.boWait.isSome then (o.boWait, s)
  else
    (none, addBaseRef b
      { s with cpuWriters := s.cpuWriters + Pi.single b 1, grabs := (f, b) :: s.grabs })

/-- A grab by `vmw_user_bo_synccpu_ioctl`. -/
def synccpuGrabIoctl (o : GrabEnds) (f handle flags : ℕ) (s : TtmDev) : Option Errno × TtmDev :=
  if !synccpuFlagsOk flags then (some .einval, s)
  else
    match vmwUserBoLookup f handle s with
    | .error e => (some e, s)
    | .ok b => vmwUserBoSynccpuGrab o f b flags s

/-- The rest of a grab, with the reference that the lookup has taken. -/
def finishGrab (mem : Option Errno) (f b : ℕ) (s : TtmDev) : Option Errno × TtmDev :=
  let t := { s with grabs := s.grabs.erase (f, b) }
  match ttmRefObjectAdd mem f b .synccpuWrite t with
  | (.error e, u) => (some e, ttmBaseObjectUnref b (ttmBoSynccpuWriteRelease b u))
  | (.ok existed, u) =>
    (none, ttmBaseObjectUnref b (if existed then ttmBoSynccpuWriteRelease b u else u))

/-- A release by `vmw_user_bo_synccpu_ioctl`. -/
def synccpuReleaseIoctl (f handle flags : ℕ) (s : TtmDev) : Option Errno × TtmDev :=
  if !synccpuFlagsOk flags then (some .einval, s)
  else if synccpuAllowCs flags then (none, s)
  else ttmRefObjectBaseUnref f handle .synccpuWrite s

/-- `ttm_base_object_init` for a new object; `handle` is what `idr_alloc` returns. -/
def ttmBaseObjectInit (f b handle : ℕ) (shareable isBuffer : Bool) (s : TtmDev) : TtmDev :=
  let t := { s with
    base := Function.update s.base b (some ⟨handle, f, shareable, isBuffer, 1⟩)
    idr := Function.update s.idr handle (some b)
    cpuWriters := Function.update s.cpuWriters b 0 }
  ttmBaseObjectUnref b (ttmRefObjectAdd none f b .usage t).2

inductive Op where
  | openFile (f : ℕ)
  | init (f b handle : ℕ) (shareable isBuffer : Bool)
  /-- Another handle to an object, as for `vmw_user_bo_reference`. -/
  | addUsage (mem : Option Errno) (f b : ℕ)
  /-- References to a base object with another holder. -/
  | hold (b : ℕ)
  | drop (b : ℕ)
  | grab (o : GrabEnds) (f handle flags : ℕ)
  | finishGrab (mem : Option Errno) (f b : ℕ)
  | release (f handle flags : ℕ)
  | unrefUsage (f handle : ℕ)
  | finishRelease (r : RefObject)
  /-- `ttm_object_file_release`: its start, a pass of its loop and its end. -/
  | close (f : ℕ)
  | closeNext (f : ℕ)
  | closed (f : ℕ)
  deriving Repr

def step (s : TtmDev) : Op → Option TtmDev
  | .openFile f =>
    if f ∈ s.files then none else some { setRefs f [] s with files := insert f s.files }
  | .init f b handle shareable isBuffer =>
    if usable f s ∧ s.base b = none ∧ s.idr handle = none then
      some (ttmBaseObjectInit f b handle shareable isBuffer s)
    else none
  | .addUsage mem f b =>
    if usable f s ∧ (s.base b).isSome then some (ttmRefObjectAdd mem f b .usage s).2 else none
  | .hold b =>
    if (s.base b).isSome then
      some { addBaseRef b s with otherRefs := s.otherRefs + Pi.single b 1 }
    else none
  | .drop b =>
    if 0 < s.otherRefs b then
      some { ttmBaseObjectUnref b s with otherRefs := s.otherRefs - Pi.single b 1 }
    else none
  | .grab o f handle flags =>
    if usable f s then some (synccpuGrabIoctl o f handle flags s).2 else none
  | .finishGrab mem f b => if (f, b) ∈ s.grabs then some (finishGrab mem f b s).2 else none
  | .release f handle flags =>
    if usable f s then some (synccpuReleaseIoctl f handle flags s).2 else none
  | .unrefUsage f handle =>
    if usable f s then some (ttmRefObjectBaseUnref f handle .usage s).2 else none
  | .finishRelease r => if r ∈ s.releases then some (finishRefRelease r s) else none
  | .close f =>
    -- no call uses a file that is closed
    if usable f s ∧ (∀ g ∈ s.grabs, g.1 ≠ f) ∧ idle f s then
      some { s with closing := insert f s.closing }
    else none
  | .closeNext f =>
    if f ∈ s.closing ∧ idle f s then (s.refList f).head?.map fun r => detachRef f r s else none
  | .closed f =>
    if f ∈ s.closing ∧ idle f s ∧ s.refList f = [] then
      some { s with files := s.files.erase f, closing := s.closing.erase f }
    else none

inductive Stepped (s : TtmDev) : Op → TtmDev → Prop
  | openFile (f : ℕ) (hf : f ∉ s.files) :
    Stepped s (.openFile f) { setRefs f [] s with files := insert f s.files }
  | init (f b handle : ℕ) (shareable isBuffer : Bool)
    (hc : usable f s ∧ s.base b = none ∧ s.idr handle = none) :
    Stepped s (.init f b handle shareable isBuffer)
      (ttmBaseObjectInit f b handle shareable isBuffer s)
  | addUsage (mem : Option Errno) (f b : ℕ) (hc : usable f s ∧ (s.base b).isSome) :
    Stepped s (.addUsage mem f b) (ttmRefObjectAdd mem f b .usage s).2
  | hold (b : ℕ) (hc : (s.base b).isSome) :
    Stepped s (.hold b) { addBaseRef b s with otherRefs := s.otherRefs + Pi.single b 1 }
  | drop (b : ℕ) (hc : 0 < s.otherRefs b) :
    Stepped s (.drop b) { ttmBaseObjectUnref b s with otherRefs := s.otherRefs - Pi.single b 1 }
  | grab (o : GrabEnds) (f handle flags : ℕ) (hc : usable f s) :
    Stepped s (.grab o f handle flags) (synccpuGrabIoctl o f handle flags s).2
  | finishGrab (mem : Option Errno) (f b : ℕ) (hc : (f, b) ∈ s.grabs) :
    Stepped s (.finishGrab mem f b) (finishGrab mem f b s).2
  | release (f handle flags : ℕ) (hc : usable f s) :
    Stepped s (.release f handle flags) (synccpuReleaseIoctl f handle flags s).2
  | unrefUsage (f handle : ℕ) (hc : usable f s) :
    Stepped s (.unrefUsage f handle) (ttmRefObjectBaseUnref f handle .usage s).2
  | finishRelease (r : RefObject) (hc : r ∈ s.releases) :
    Stepped s (.finishRelease r) (finishRefRelease r s)
  | close (f : ℕ) (hc : usable f s ∧ (∀ g ∈ s.grabs, g.1 ≠ f) ∧ idle f s) :
    Stepped s (.close f) { s with closing := insert f s.closing }
  | closeNext (f : ℕ) (r : RefObject) (hc : f ∈ s.closing ∧ idle f s)
    (hr : (s.refList f).head? = some r) : Stepped s (.closeNext f) (detachRef f r s)
  | closed (f : ℕ) (hc : f ∈ s.closing ∧ idle f s ∧ s.refList f = []) :
    Stepped s (.closed f) { s with files := s.files.erase f, closing := s.closing.erase f }

theorem step_cases {s t : TtmDev} {op : Op} (h : step s op = some t) : Stepped s op t := by
  cases op with
  | openFile f =>
    simp only [step] at h
    split_ifs at h with hf
    cases h
    exact .openFile f hf
  | closeNext f =>
    simp only [step] at h
    split_ifs at h with hc
    obtain ⟨r, hr, rfl⟩ := Option.map_eq_some_iff.1 h
    exact .closeNext f r hc hr
  | _ =>
    simp only [step] at h
    split_ifs at h with hc
    cases h
    constructor
    exact hc

end Vmwgfx.RefObjects
