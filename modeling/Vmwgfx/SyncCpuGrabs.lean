import Vmwgfx.SyncCpu

set_option autoImplicit false

/-!
# What a grab for CPU access reports

`vmw_user_bo_synccpu_ioctl` with the waits of a grab as `ttm_bo.c` makes them. A grab that
finds the buffer busy, or is interrupted, ends in the `break` of its branch and so reports
success without a reference.
-/
namespace Vmwgfx.RefObjects
open ExecbufState (Errno)
open LabelledRuns

/-- What a grab is told about the buffer: `ww_mutex_trylock` and `ww_mutex_lock_interruptible`
    on its reservation, `reservation_object_test_signaled_rcu` and
    `reservation_object_wait_timeout_rcu` on its fences, the last as in `GrabEnds`. -/
structure GrabCalls where
  trylock : Bool
  lock : Option Errno
  signaled : Bool
  wait : Except Errno ℕ
  deriving Repr

def eintr : Errno := .other 4

def synccpuDontblock (flags : ℕ) : Bool := flags.testBit 2

/-- `ttm_bo_reserve` and `__ttm_bo_reserve`, without a ticket. -/
def ttmBoReserve (c : GrabCalls) (noWait : Bool) : Option Errno :=
  if noWait then if c.trylock then none else some ebusy
  else if c.lock = some eintr then some .erestartsys
  else c.lock

/-- What follows from the result of `reservation_object_wait_timeout_rcu`. -/
def timeoutError : Except Errno ℕ → Option Errno
  | .error e => some e
  | .ok left => if left = 0 then some ebusy else none

def ttmBoWait (c : GrabCalls) (noWait : Bool) : Option Errno :=
  if noWait then if c.signaled then none else some ebusy else timeoutError c.wait

def grabEnds (c : GrabCalls) (flags : ℕ) : GrabEnds :=
  ⟨c.wait, ttmBoReserve c (synccpuDontblock flags), ttmBoWait c (synccpuDontblock flags)⟩

/-- What `ttm_mem_global_alloc` and `kmalloc` return for a reference object. -/
def allocError (noMem : Bool) : Option Errno := if noMem then some .enomem else none

/-- The whole of `vmw_user_bo_synccpu_grab`. The calls of others have led to `v` when it
    comes to `ttm_ref_object_add`. -/
def vmwUserBoSynccpuGrabAll (c : GrabCalls) (noMem : Bool) (f b flags : ℕ) (s v : TtmDev) :
    Option Errno × TtmDev :=
  match vmwUserBoSynccpuGrab (grabEnds c flags) f b flags s with
  | (some e, t) => (some e, t)
  | (none, t) => if synccpuAllowCs flags then (none, t) else finishGrab (allocError noMem) f b v

/-- The errors of a grab that `vmw_user_bo_synccpu_ioctl` does not print. -/
def expected (ret : Option Errno) : Bool := ret = some .erestartsys || ret = some ebusy

/-- The end of the ioctl's branch for a grab: an error that is expected leads to the `break`. -/
def grabResult (ret : Option Errno) : Option Errno := if expected ret then none else ret

/-- `vmw_user_bo_synccpu_ioctl`, with the numbers of `enum drm_vmw_synccpu_op`. -/
def vmwUserBoSynccpuIoctl (op : ℕ) (c : GrabCalls) (noMem : Bool) (f handle flags : ℕ)
    (s v : TtmDev) : Option Errno × TtmDev :=
  if !synccpuFlagsOk flags then (some .einval, s)
  else if op = 0 then
    match vmwUserBoLookup f handle s with
    | .error e => (some e, s)
    | .ok b =>
      let r := vmwUserBoSynccpuGrabAll c noMem f b flags s v
      (grabResult r.1, r.2)
  else if op = 1 then synccpuReleaseIoctl f handle flags s
  else (some .einval, s)

/-- How many references of a type a file has under a handle. -/
def refsOf (f : ℕ) (ty : RefType) (key : ℕ) (s : TtmDev) : ℕ := (findRef f ty key s).elim 0 (·.kref)

def heldRefs (f key : ℕ) (s : TtmDev) : ℕ := refsOf f .synccpuWrite key s

/-- The wait for the fences succeeded before its time was over. -/
def WaitDone (c : GrabCalls) : Prop := ∃ left, 0 < left ∧ c.wait = .ok left

def Idle (c : GrabCalls) (flags : ℕ) : Prop :=
  if synccpuAllowCs flags then WaitDone c
  else if synccpuDontblock flags then c.trylock = true ∧ c.signaled = true
  else c.lock = none ∧ WaitDone c

/-- A grab that starts in `s`, comes to its reference in `v` and ends in `u`. -/
structure TookEffect (c : GrabCalls) (f handle flags : ℕ) (s v u : TtmDev) : Prop where
  found : ∃ b, vmwUserBoLookup f handle s = .ok b
  idle : Idle c flags
  holds : synccpuAllowCs flags = false → heldRefs f handle u = heldRefs f handle v + 1

def waitError (o : GrabEnds) (flags : ℕ) : Option Errno :=
  if synccpuAllowCs flags then timeoutError o.idleWait else o.boReserve.or o.boWait

def withoutGrab (f b : ℕ) (s : TtmDev) : TtmDev := { s with grabs := s.grabs.erase (f, b) }

/-- The error of `ttm_ref_object_add` at the end of a grab. -/
def addError (mem : Option Errno) (f b : ℕ) (s : TtmDev) : Option Errno :=
  match (ttmRefObjectAdd mem f b .synccpuWrite (withoutGrab f b s)).1 with
  | .error e => some e
  | .ok _ => none

def failedStep (c : GrabCalls) (noMem : Bool) (f handle flags : ℕ) (s v : TtmDev) : Option Errno :=
  match vmwUserBoLookup f handle s with
  | .error e => some e
  | .ok b => (waitError (grabEnds c flags) flags).or
      (if synccpuAllowCs flags then none else addError (allocError noMem) f b v)

/-- A grab returns 0 when it took effect, and else the error of the step that failed. -/
def Reports (c : GrabCalls) (noMem : Bool) (f handle flags : ℕ) (s v : TtmDev) : Prop :=
  let r := vmwUserBoSynccpuIoctl 0 c noMem f handle flags s v
  (r.1 = none ↔ TookEffect c f handle flags s v r.2) ∧
    r.1 = failedStep c noMem f handle flags s v

/-- The steps of others lead a grab that starts in `s` to `v`. -/
def Resumes (c : GrabCalls) (f handle flags : ℕ) (s v : TtmDev) : Prop :=
  ∀ b, vmwUserBoLookup f handle s = .ok b → waitError (grabEnds c flags) flags = none →
    synccpuAllowCs flags = false → (f, b) ∈ v.grabs ∧
      ∃ ops, Runs step (fun t _ => (f, b) ∈ t.grabs)
        (vmwUserBoSynccpuGrab (grabEnds c flags) f b flags s).2 ops v

variable {s t u v : TtmDev} {f g b key key' : ℕ} {ty ty' : RefType} {r q : RefObject}
  {l : List RefObject} {p : RefObject → RefObject} {mem : Option Errno} {o : GrabEnds}
  {flags handle : ℕ}

def refsIn (ty : RefType) (key : ℕ) (l : List RefObject) : ℕ :=
  (l.find? (kindOf ty key)).elim 0 (·.kref)

theorem refsOf_eq : refsOf f ty key s = refsIn ty key (s.refList f) := rfl

theorem refsOf_congr (h : t.refList f = s.refList f) : refsOf f ty key t = refsOf f ty key s := by
  rw [refsOf_eq, refsOf_eq, h]

theorem kindOf_eq_iff : kindOf ty key r = true ↔ r.refType = ty ∧ r.key = key := decide_eq_true_iff

theorem kindOf_other (h : ¬ (ty = r.refType ∧ key = r.key)) : kindOf ty key r = false := by
  rw [Bool.eq_false_iff, Ne, kindOf_eq_iff]
  exact fun hr => h ⟨hr.1.symm, hr.2.symm⟩

theorem refsIn_map (hr : l.find? (kindOf ty' key') = some r)
    (hkind : ∀ ty key q, kindOf ty key (p q) = kindOf ty key q) (hp : ∀ q, q ≠ r → p q = q) :
    refsIn ty key (l.map p) = if ty = ty' ∧ key = key' then (p r).kref else refsIn ty key l := by
  have hfind : (l.map p).find? (kindOf ty key) = (l.find? (kindOf ty key)).map p := by
    rw [List.find?_map]
    congr 2
    funext q
    exact hkind ty key q
  unfold refsIn
  rw [hfind]
  split_ifs with h
  · rw [h.1, h.2, hr, Option.map_some, Option.elim_some]
  · cases hl : l.find? (kindOf ty key) with
    | none => rfl
    | some q =>
      have hq := kindOf_eq_iff.1 (List.find?_some hl)
      have hr' := kindOf_eq_iff.1 (List.find?_some hr)
      have hne : q ≠ r := by
        intro heq
        subst heq
        exact h ⟨hq.1.symm.trans hr'.1, hq.2.symm.trans hr'.2⟩
      rw [Option.map_some, hp q hne]

theorem refsIn_append (hr : l.find? (kindOf r.refType r.key) = none) : refsIn ty key (l ++ [r]) =
    if ty = r.refType ∧ key = r.key then r.kref else refsIn ty key l := by
  unfold refsIn
  rw [List.find?_append, List.find?_cons]
  split_ifs with h
  · have hself : kindOf r.refType r.key r = true := kindOf_eq_iff.2 ⟨rfl, rfl⟩
    rw [h.1, h.2, hr, hself, Option.none_or, Option.elim_some]
  · rw [kindOf_other h, List.find?_nil, Option.or_none]

theorem refsIn_erase (h : ¬ (ty = r.refType ∧ key = r.key)) :
    refsIn ty key (l.erase r) = refsIn ty key l := by
  unfold refsIn
  congr 1
  induction l with
  | nil => rfl
  | cons q l ih =>
    by_cases hq : q = r
    · subst hq
      rw [List.erase_cons_head, List.find?_cons, kindOf_other h]
    · rw [List.erase_cons_tail (by simpa using hq), List.find?_cons, List.find?_cons, ih]

theorem Placed.refsIn_erase (h : Placed s) (hr : r ∈ s.refList f) :
    refsIn r.refType r.key ((s.refList f).erase r) = 0 := by
  have hpair := (List.perm_cons_erase hr).pairwise (h.unique f)
    fun hne hq => hne ⟨hq.1.symm, hq.2.symm⟩
  have hnone : ((s.refList f).erase r).find? (kindOf r.refType r.key) = none := by
    apply List.find?_eq_none.2
    intro q hq hkind
    rw [kindOf_eq_iff] at hkind
    exact List.rel_of_pairwise_cons hpair hq ⟨hkind.1.symm, hkind.2.symm⟩
  rw [refsIn, hnone, Option.elim_none]

theorem addBaseRef_refList (b : ℕ) (s : TtmDev) : (addBaseRef b s).refList = s.refList := by
  unfold addBaseRef
  split <;> rfl

theorem ttmBaseObjectUnref_refList (b : ℕ) (s : TtmDev) :
    (ttmBaseObjectUnref b s).refList = s.refList := by
  unfold ttmBaseObjectUnref
  split
  · rfl
  · split_ifs <;> rfl

theorem refsOf_setRefs {n : ℕ} (hl : ∀ ty' key', refsIn ty' key' l =
      if ty' = ty ∧ key' = key then n else refsIn ty' key' (s.refList f)) :
    refsOf g ty' key' (setRefs f l s) =
      if g = f ∧ ty' = ty ∧ key' = key then n else refsOf g ty' key' s := by
  by_cases hg : g = f
  · subst hg
    rw [refsOf_eq, setRefs_self, hl]
    simp only [true_and, refsOf_eq]
  · rw [refsOf_congr (setRefs_of_ne hg _ _), if_neg fun h => hg h.1]

theorem refsOf_add {B : BaseObject} (hB : s.base b = some B) {existed : Bool}
    (h : ttmRefObjectAdd mem f b ty s = (.ok existed, t)) : refsOf g ty' key t =
      if g = f ∧ ty' = ty ∧ key = B.handle then refsOf f ty B.handle s + 1
      else refsOf g ty' key s := by
  unfold ttmRefObjectAdd at h
  rw [hB] at h
  dsimp only at h
  split at h
  · cases h
  · cases hfind : findRef f ty B.handle s with
    | some r =>
      rw [hfind] at h
      cases h
      have hkind : ∀ ty key q, kindOf ty key (getKref r q) = kindOf ty key q := by
        intro ty key q
        unfold getKref
        split <;> rfl
      have hcount : (getKref r r).kref = refsOf f ty B.handle s + 1 := by
        rw [getKref, if_pos rfl, refsOf, hfind, Option.elim_some]
      apply refsOf_setRefs
      intro ty' key'
      rw [refsIn_map hfind hkind fun q hq => if_neg hq, hcount]
    | none =>
      rw [hfind] at h
      cases mem with
      | some e => cases h
      | none =>
        cases h
        have hcount : 1 = refsOf f ty B.handle s + 1 := by
          rw [refsOf, hfind, Option.elim_none]
        rw [refsOf_congr (t := addBaseRef b _) (congrFun (addBaseRef_refList b _) g)]
        apply refsOf_setRefs
        intro ty' key'
        rw [refsIn_append (r := ⟨f, B.handle, b, ty, 1⟩) hfind, ← hcount]

theorem ttmRefObjectAdd_error {e : Errno} (h : ttmRefObjectAdd mem f b ty s = (.error e, t)) :
    t = s ∧ (e = .einval ∨ e = .eperm ∨ mem = some e) := by
  unfold ttmRefObjectAdd at h
  split at h
  · cases h
    exact ⟨rfl, .inl rfl⟩
  · split at h
    · cases h
      exact ⟨rfl, .inr (.inl rfl)⟩
    · split at h
      · cases h
      · split at h <;> cases h
        exact ⟨rfl, .inr (.inr rfl)⟩

theorem Placed.refsOf_detach (h : Placed s) (hr : r ∈ s.refList f) :
    refsOf g ty key (detachRef f r s) =
      if g = f ∧ ty = r.refType ∧ key = r.key then 0 else refsOf g ty key s := by
  apply refsOf_setRefs
  intro ty' key'
  split_ifs with hkind
  · rw [hkind.1, hkind.2, h.refsIn_erase hr]
  · exact RefObjects.refsIn_erase hkind

theorem Placed.refsOf_unref (h : Placed s) : refsOf g ty' key'
      (ttmRefObjectBaseUnref f key ty s).2 =
    if g = f ∧ ty' = ty ∧ key' = key then refsOf f ty key s - 1 else refsOf g ty' key' s := by
  unfold ttmRefObjectBaseUnref
  cases hfind : findRef f ty key s with
  | none =>
    have hcount : refsOf f ty key s = 0 := by rw [refsOf, hfind, Option.elim_none]
    split_ifs with hkind
    · rw [hkind.1, hkind.2.1, hkind.2.2, hcount]
    · rfl
  | some r =>
    obtain ⟨rfl, rfl⟩ := kindOf_eq_iff.1 (List.find?_some hfind)
    have hcount : refsOf f r.refType r.key s = r.kref := by rw [refsOf, hfind, Option.elim_some]
    rw [hcount]
    dsimp only
    split
    · rename_i hlast
      rw [h.refsOf_detach (List.mem_of_find?_eq_some hfind), hlast]
    · have hkind : ∀ ty key q, kindOf ty key (putKref r q) = kindOf ty key q := by
        intro ty key q
        unfold putKref
        split <;> rfl
      have hput : (putKref r r).kref = r.kref - 1 := by rw [putKref, if_pos rfl]
      apply refsOf_setRefs
      intro ty' key'
      rw [refsIn_map hfind hkind fun q hq => if_neg hq, hput]

/-- Where a grab stands when its waits are over: the ioctl returns, or it goes on to add a
    reference to an object. -/
inductive GrabPhase where
  | returned (ret : Option Errno)
  | adds (b : ℕ)
  deriving DecidableEq, Repr

def grabPhase (o : GrabEnds) (f handle flags : ℕ) (s : TtmDev) : GrabPhase :=
  if !synccpuFlagsOk flags then .returned (some .einval)
  else
    match vmwUserBoLookup f handle s with
    | .error e => .returned (some e)
    | .ok b =>
      match waitError o flags with
      | some e => .returned (grabResult (some e))
      | none => if synccpuAllowCs flags then .returned none else .adds b

theorem waitError_eq (f b : ℕ) (s : TtmDev) :
    (vmwUserBoSynccpuGrab o f b flags s).1 = waitError o flags := by
  unfold vmwUserBoSynccpuGrab waitError
  split_ifs with hcs hreserve hwait
  · cases o.idleWait <;> rfl
  · obtain ⟨e, he⟩ := Option.isSome_iff_exists.1 hreserve
    rw [he, Option.some_or]
  · rw [Option.not_isSome_iff_eq_none.1 hreserve, Option.none_or]
  · rw [Option.not_isSome_iff_eq_none.1 hreserve, Option.not_isSome_iff_eq_none.1 hwait,
      Option.none_or]

theorem timeoutError_eq_none {c : GrabCalls} : timeoutError c.wait = none ↔ WaitDone c := by
  unfold WaitDone timeoutError
  cases c.wait with
  | error e => simp
  | ok left => simp [Nat.pos_iff_ne_zero]

theorem vmwUserBoSynccpuIoctl_phases (c : GrabCalls) (noMem : Bool) :
    vmwUserBoSynccpuIoctl 0 c noMem f handle flags s v =
      match grabPhase (grabEnds c flags) f handle flags s with
      | .returned ret => (ret, (synccpuGrabIoctl (grabEnds c flags) f handle flags s).2)
      | .adds b => (grabResult (finishGrab (allocError noMem) f b v).1,
          (finishGrab (allocError noMem) f b v).2) := by
  unfold vmwUserBoSynccpuIoctl grabPhase synccpuGrabIoctl vmwUserBoSynccpuGrabAll
  cases synccpuFlagsOk flags with
  | false => rfl
  | true =>
    simp only [Bool.not_true, Bool.false_eq_true, if_false, if_true]
    cases vmwUserBoLookup f handle s with
    | error e => rfl
    | ok b =>
      dsimp only
      rw [← waitError_eq f b s]
      rcases vmwUserBoSynccpuGrab (grabEnds c flags) f b flags s with ⟨_ | e, t⟩
      · cases synccpuAllowCs flags <;> rfl
      · rfl

theorem waitError_eq_none {c : GrabCalls} :
    waitError (grabEnds c flags) flags = none ↔ Idle c flags := by
  unfold waitError Idle
  by_cases hcs : synccpuAllowCs flags = true
  · rw [if_pos hcs, if_pos hcs]
    exact timeoutError_eq_none
  · rw [if_neg hcs, if_neg hcs, Option.or_eq_none_iff]
    simp only [grabEnds, ttmBoReserve, ttmBoWait]
    by_cases hblock : synccpuDontblock flags = true
    · simp [hblock]
    · rw [if_neg hblock, if_neg hblock, if_neg hblock, timeoutError_eq_none]
      apply and_congr_left'
      split_ifs with hlock
      · simp [hlock]
      · rfl

theorem refsOf_unref_base : refsOf g ty key (ttmBaseObjectUnref b s) = refsOf g ty key s :=
  refsOf_congr (congrFun (ttmBaseObjectUnref_refList b s) g)

theorem refsOf_release_write : refsOf g ty key (ttmBoSynccpuWriteRelease b s) = refsOf g ty key s :=
  rfl

theorem finishGrab_error {e : Errno}
    (h : ttmRefObjectAdd mem f b .synccpuWrite (withoutGrab f b s) = (.error e, u)) :
    finishGrab mem f b s = (some e, ttmBaseObjectUnref b (ttmBoSynccpuWriteRelease b u)) := by
  rw [withoutGrab] at h
  rw [finishGrab, h]

theorem finishGrab_ok {existed : Bool}
    (h : ttmRefObjectAdd mem f b .synccpuWrite (withoutGrab f b s) = (.ok existed, u)) :
    finishGrab mem f b s =
      (none, ttmBaseObjectUnref b (if existed then ttmBoSynccpuWriteRelease b u else u)) := by
  rw [withoutGrab] at h
  rw [finishGrab, h]

theorem finishGrab_fst : (finishGrab mem f b s).1 = addError mem f b s := by
  unfold addError
  rcases hadd : ttmRefObjectAdd mem f b .synccpuWrite (withoutGrab f b s) with ⟨e | existed, u⟩
  · rw [finishGrab_error hadd]
  · rw [finishGrab_ok hadd]

theorem refsOf_finishGrab {B : BaseObject} (hB : s.base b = some B) :
    refsOf g ty key (finishGrab mem f b s).2 =
      if addError mem f b s = none ∧ g = f ∧ ty = .synccpuWrite ∧ key = B.handle then
        refsOf f .synccpuWrite B.handle s + 1
      else refsOf g ty key s := by
  rcases hadd : ttmRefObjectAdd mem f b .synccpuWrite (withoutGrab f b s) with ⟨e | existed, u⟩
  · have herror : addError mem f b s ≠ none := by simp [addError, hadd]
    rw [finishGrab_error hadd, if_neg fun h => herror h.1, refsOf_unref_base, refsOf_release_write,
      (ttmRefObjectAdd_error hadd).1]
    rfl
  · have hdone : addError mem f b s = none := by simp [addError, hadd]
    have hcount : ∀ v, refsOf g ty key (if existed then ttmBoSynccpuWriteRelease b v else v) =
        refsOf g ty key v := by
      intro v
      cases existed <;> rfl
    rw [finishGrab_ok hadd, refsOf_unref_base, hcount, refsOf_add (s := withoutGrab f b s) hB hadd]
    simp only [hdone, true_and]
    rfl

theorem Inv.handle_of_lookup (h : Inv s) (hb : vmwUserBoLookup f handle s = .ok b) :
    ∃ B, s.base b = some B ∧ B.handle = handle := by
  unfold vmwUserBoLookup at hb
  cases hfind : findRef f .usage handle s with
  | none =>
    rw [hfind] at hb
    cases hb
  | some r =>
    rw [hfind] at hb
    dsimp only at hb
    split at hb
    · cases hb
      have hr := List.mem_of_find?_eq_some hfind
      obtain ⟨B, hB⟩ := h.alive_of_ref hr
      have hkey := ((h.fits f r hr).2 B hB).1
      exact ⟨B, hB, hkey.trans (kindOf_eq_iff.1 (List.find?_some hfind)).2⟩
    · cases hb

/-- No object and no file has appeared, no file is being closed, and the objects that are left
    have their handles. -/
structure Keeps (s t : TtmDev) : Prop where
  handles : ∀ c C, t.base c = some C → ∃ B, s.base c = some B ∧ C.handle = B.handle
  files : t.files = s.files
  closing : t.closing = s.closing

theorem keeps_of_eq (hb : t.base = s.base) (hf : t.files = s.files) (hc : t.closing = s.closing) :
    Keeps s t := by
  refine ⟨?_, hf, hc⟩
  intro c C hC
  rw [hb] at hC
  exact ⟨C, hC, rfl⟩

theorem Keeps.refl (s : TtmDev) : Keeps s s := keeps_of_eq rfl rfl rfl

theorem Keeps.trans (h : Keeps s t) (h' : Keeps t u) : Keeps s u := by
  refine ⟨?_, h'.files.trans h.files, h'.closing.trans h.closing⟩
  intro c D hD
  obtain ⟨C, hC, hhandle⟩ := h'.handles c D hD
  obtain ⟨B, hB, hhandle'⟩ := h.handles c C hC
  exact ⟨B, hB, hhandle.trans hhandle'⟩

theorem keeps_setBase {B : BaseObject} (hB : s.base b = some B) {x : Option BaseObject}
    (hx : ∀ C, x = some C → C.handle = B.handle) : Keeps s (setBase b x s) := by
  refine ⟨?_, rfl, rfl⟩
  intro c C hC
  by_cases hcb : c = b
  · subst hcb
    rw [setBase_self] at hC
    exact ⟨B, hB, hx C hC⟩
  · rw [setBase_of_ne hcb] at hC
    exact ⟨C, hC, rfl⟩

theorem keeps_addBaseRef (b : ℕ) (s : TtmDev) : Keeps s (addBaseRef b s) := by
  unfold addBaseRef
  split
  · exact .refl s
  · rename_i B hB
    apply keeps_setBase hB
    intro C hC
    cases hC
    rfl

theorem keeps_unref (b : ℕ) (s : TtmDev) : Keeps s (ttmBaseObjectUnref b s) := by
  unfold ttmBaseObjectUnref
  split
  · exact .refl s
  · rename_i B hB
    split_ifs
    · exact (keeps_setBase hB fun C hC => by cases hC).trans (keeps_of_eq rfl rfl rfl)
    · apply keeps_setBase hB
      intro C hC
      cases hC
      rfl

theorem keeps_add (mem : Option Errno) (f b : ℕ) (ty : RefType) (s : TtmDev) :
    Keeps s (ttmRefObjectAdd mem f b ty s).2 := by
  unfold ttmRefObjectAdd
  split
  · exact .refl s
  · split
    · exact .refl s
    · split
      · exact keeps_of_eq rfl rfl rfl
      · split
        · exact .refl s
        · exact Keeps.trans (t := setRefs _ _ s) (keeps_of_eq rfl rfl rfl) (keeps_addBaseRef b _)

theorem keeps_finishGrab (mem : Option Errno) (f b : ℕ) (s : TtmDev) :
    Keeps s (finishGrab mem f b s).2 := by
  have hadd := keeps_add mem f b .synccpuWrite (withoutGrab f b s)
  have hold : Keeps s (withoutGrab f b s) := keeps_of_eq rfl rfl rfl
  rcases hr : ttmRefObjectAdd mem f b .synccpuWrite (withoutGrab f b s) with ⟨e | existed, u⟩
  · rw [hr] at hadd
    rw [finishGrab_error hr]
    have hrelease : Keeps u (ttmBoSynccpuWriteRelease b u) := keeps_of_eq rfl rfl rfl
    exact (hold.trans hadd).trans (hrelease.trans (keeps_unref b _))
  · rw [hr] at hadd
    rw [finishGrab_ok hr]
    apply (hold.trans hadd).trans (Keeps.trans (keeps_of_eq _ _ _) (keeps_unref b _)) <;>
      cases existed <;> rfl

theorem keeps_unrefKey (f key : ℕ) (ty : RefType) (s : TtmDev) :
    Keeps s (ttmRefObjectBaseUnref f key ty s).2 := by
  unfold ttmRefObjectBaseUnref
  split
  · exact .refl s
  · split <;> exact keeps_of_eq rfl rfl rfl

theorem keeps_grab (o : GrabEnds) (f b flags : ℕ) (s : TtmDev) :
    Keeps s (vmwUserBoSynccpuGrab o f b flags s).2 := by
  unfold vmwUserBoSynccpuGrab
  split_ifs
  · split <;> exact .refl s
  · exact .refl s
  · exact .refl s
  · refine Keeps.trans ?_ (keeps_addBaseRef b _)
    exact keeps_of_eq rfl rfl rfl

theorem init_keeps (s : TtmDev) (f b k : ℕ) (shareable isBuffer : Bool) :
    ∃ u : TtmDev, Keeps u (ttmBaseObjectInit f b k shareable isBuffer s) ∧
      u.base = Function.update s.base b (some ⟨k, f, shareable, isBuffer, 1⟩) ∧
      u.files = s.files ∧ u.closing = s.closing :=
  ⟨_, (keeps_add none f b .usage _).trans (keeps_unref b _), rfl, rfl, rfl⟩

/-- The steps that open or close a file, and those that make an object. -/
def Appears : Op → Prop
  | .openFile _ | .init .. | .close _ | .closed _ => True
  | _ => False

theorem step_keeps {op : Op} (hs : step s op = some t) (hop : ¬ Appears op) : Keeps s t := by
  cases step_cases hs with
  | openFile g _ => exact absurd trivial hop
  | init g c k shareable isBuffer _ => exact absurd trivial hop
  | close g _ => exact absurd trivial hop
  | closed g _ => exact absurd trivial hop
  | addUsage mem g c _ => exact keeps_add mem g c .usage s
  | hold c _ => exact (keeps_addBaseRef c s).trans (keeps_of_eq rfl rfl rfl)
  | drop c _ => exact (keeps_unref c s).trans (keeps_of_eq rfl rfl rfl)
  | grab o g handle flags _ =>
    unfold synccpuGrabIoctl
    split_ifs
    · exact .refl s
    · split
      · exact .refl s
      · exact keeps_grab o g _ flags s
  | finishGrab mem g c _ => exact keeps_finishGrab mem g c s
  | release g handle flags _ =>
    unfold synccpuReleaseIoctl
    split_ifs
    · exact .refl s
    · exact .refl s
    · exact keeps_unrefKey g handle _ s
  | unrefUsage g handle _ => exact keeps_unrefKey g handle .usage s
  | finishRelease r _ =>
    unfold finishRefRelease
    refine Keeps.trans (keeps_of_eq ?_ ?_ ?_) (keeps_unref r.obj _) <;> split_ifs <;> rfl
  | closeNext g r _ _ => exact keeps_of_eq rfl rfl rfl

theorem step_handle {op : Op} {B C : BaseObject} (hs : step s op = some t)
    (hB : s.base b = some B) (hC : t.base b = some C) : C.handle = B.handle := by
  have hsame : ∀ D, s.base b = some D → C.handle = D.handle → C.handle = B.handle := by
    intro D hD hhandle
    rw [hB] at hD
    cases hD
    exact hhandle
  have hkeeps : Keeps s t → C.handle = B.handle := by
    intro h
    obtain ⟨D, hD, hhandle⟩ := h.handles b C hC
    exact hsame D hD hhandle
  cases step_cases hs with
  | openFile g _ => exact hsame C hC rfl
  | init g c k shareable isBuffer hnew =>
    have hne : b ≠ c := by
      intro heq
      rw [← heq, hB] at hnew
      cases hnew.2.1
    obtain ⟨u, hkept, hbase, -, -⟩ := init_keeps s g c k shareable isBuffer
    obtain ⟨D, hD, hhandle⟩ := hkept.handles b C hC
    rw [hbase, Function.update_of_ne hne] at hD
    exact hsame D hD hhandle
  | close g _ => exact hsame C hC rfl
  | closed g _ => exact hsame C hC rfl
  | _ => exact hkeeps (step_keeps hs not_false)

theorem runs_handle {ops : List Op} (hr : Runs step (fun t _ => (f, b) ∈ t.grabs) s ops v)
    (h : Inv s) (hB : ∀ B, s.base b = some B → B.handle = handle) :
    Inv v ∧ ∀ B, v.base b = some B → B.handle = handle := by
  apply hr.invariant (fun u => Inv u ∧ ∀ B, u.base b = some B → B.handle = handle) ⟨h, hB⟩
  intro t op u ht hg hs
  obtain ⟨B, hB⟩ := ht.1.alive_of_grab hg
  exact ⟨step_inv ht.1 hs, fun C hC => (step_handle hs hB hC).trans (ht.2 B hB)⟩

theorem Resumes.resumed {c : GrabCalls} (hv : Resumes c f handle flags s v) (h : Inv s)
    (hf : usable f s = true) (hflags : synccpuFlagsOk flags = true)
    (hb : vmwUserBoLookup f handle s = .ok b) (hw : waitError (grabEnds c flags) flags = none)
    (hcs : synccpuAllowCs flags = false) : ∃ B, v.base b = some B ∧ B.handle = handle := by
  obtain ⟨hg, ops, hr⟩ := hv b hb hw hcs
  have hstart : Inv (vmwUserBoSynccpuGrab (grabEnds c flags) f b flags s).2 := by
    have hgrab : Inv (synccpuGrabIoctl (grabEnds c flags) f handle flags s).2 := h.grab hf
    simp only [synccpuGrabIoctl, hflags, hb, Bool.not_true, Bool.false_eq_true, if_false] at hgrab
    exact hgrab
  obtain ⟨B, hB, hhandle⟩ := h.handle_of_lookup hb
  obtain ⟨hend, hkept⟩ := runs_handle hr hstart fun C hC => by
    obtain ⟨B', hB', hsame⟩ := (keeps_grab _ _ _ _ _).handles b C hC
    rw [hB] at hB'
    cases hB'
    exact hsame.trans hhandle
  obtain ⟨C, hC⟩ := hend.alive_of_grab hg
  exact ⟨C, hC, hkept C hC⟩

theorem not_expected_addError (noMem : Bool) (f b : ℕ) (s : TtmDev) :
    expected (addError (allocError noMem) f b s) = false := by
  unfold addError
  rcases hadd : ttmRefObjectAdd (allocError noMem) f b .synccpuWrite (withoutGrab f b s) with
    ⟨e | existed, u⟩
  · rcases (ttmRefObjectAdd_error hadd).2 with rfl | rfl | hmem
    · rfl
    · rfl
    · cases noMem <;> cases hmem
      rfl
  · rfl

/-- The condition under which a grab reports what it has done: its waits do not end with an
    error that the ioctl takes for expected. -/
def WaitsReported (c : GrabCalls) (f handle flags : ℕ) (s : TtmDev) : Prop :=
  ∀ b, vmwUserBoLookup f handle s = .ok b → expected (waitError (grabEnds c flags) flags) = false

theorem grabResult_eq_iff {e : Errno} : grabResult (some e) = some e ↔ expected (some e) = false := by
  unfold grabResult
  cases expected (some e) <;> simp

theorem grabResult_of_not {e : Option Errno} (h : expected e = false) : grabResult e = e := by
  rw [grabResult, h]
  rfl

variable {c : GrabCalls} {noMem : Bool}

theorem reports_of_error {e : Errno} (hflags : synccpuFlagsOk flags = true)
    (hb : vmwUserBoLookup f handle s = .error e) : Reports c noMem f handle flags s v := by
  have hioctl : vmwUserBoSynccpuIoctl 0 c noMem f handle flags s v = (some e, s) := by
    simp [vmwUserBoSynccpuIoctl, hflags, hb]
  have hnot : ¬ TookEffect c f handle flags s v s := by
    rintro ⟨⟨b, hb'⟩, -, -⟩
    rw [hb] at hb'
    cases hb'
  simp only [Reports, hioctl, failedStep, hb]
  simp [hnot]

theorem reports_of_wait {e : Errno} (hflags : synccpuFlagsOk flags = true)
    (hb : vmwUserBoLookup f handle s = .ok b)
    (hw : waitError (grabEnds c flags) flags = some e) :
    Reports c noMem f handle flags s v ↔ expected (some e) = false := by
  have hioctl : (vmwUserBoSynccpuIoctl 0 c noMem f handle flags s v).1 = grabResult (some e) := by
    rw [vmwUserBoSynccpuIoctl_phases]
    simp [grabPhase, hflags, hb, hw]
  have hnot : ∀ u, ¬ TookEffect c f handle flags s v u := by
    intro u hu
    have hidle := waitError_eq_none.2 hu.idle
    rw [hw] at hidle
    cases hidle
  simp only [Reports, hioctl, failedStep, hb, hw, Option.some_or, hnot, iff_false]
  constructor
  · exact fun h => grabResult_eq_iff.1 h.2
  · intro h
    rw [grabResult_of_not h]
    exact ⟨fun hnone => (Option.some_ne_none e) hnone, rfl⟩

theorem reports_of_idle (h : Inv s) (hf : usable f s = true) (hflags : synccpuFlagsOk flags = true)
    (hv : Resumes c f handle flags s v) (hb : vmwUserBoLookup f handle s = .ok b)
    (hw : waitError (grabEnds c flags) flags = none) : Reports c noMem f handle flags s v := by
  have hidle := waitError_eq_none.1 hw
  cases hcs : synccpuAllowCs flags with
  | true =>
    have hphase : grabPhase (grabEnds c flags) f handle flags s = .returned none := by
      simp [grabPhase, hflags, hb, hw, hcs]
    simp only [Reports, vmwUserBoSynccpuIoctl_phases, hphase, failedStep, hb, hw, hcs,
      Option.none_or, if_true, true_iff, and_true]
    exact ⟨⟨b, hb⟩, hidle, fun hno => by rw [hcs] at hno; cases hno⟩
  | false =>
    have hphase : grabPhase (grabEnds c flags) f handle flags s = .adds b := by
      simp [grabPhase, hflags, hb, hw, hcs]
    obtain ⟨B, hB, rfl⟩ := hv.resumed h hf hflags hb hw hcs
    simp only [Reports, vmwUserBoSynccpuIoctl_phases, hphase, failedStep, hb, hw, hcs,
      Option.none_or, Bool.false_eq_true, if_false]
    rw [finishGrab_fst, grabResult_of_not (not_expected_addError noMem f b v)]
    refine ⟨⟨fun hdone => ⟨⟨b, hb⟩, hidle, fun _ => ?_⟩, fun heffect => ?_⟩, rfl⟩
    · rw [heldRefs, refsOf_finishGrab hB, if_pos ⟨hdone, rfl, rfl, rfl⟩, heldRefs]
    · by_contra herror
      have hholds := heffect.holds hcs
      rw [heldRefs, refsOf_finishGrab hB, if_neg fun h => herror h.1, heldRefs] at hholds
      omega

/-- A grab that starts in a state between two steps reports what it has done when the end of
    its waits is not taken for an expected error. -/
theorem reports_iff (h : Inv s) (hf : usable f s = true) (hflags : synccpuFlagsOk flags = true)
    (hv : Resumes c f handle flags s v) :
    Reports c noMem f handle flags s v ↔ WaitsReported c f handle flags s := by
  unfold WaitsReported
  cases hb : vmwUserBoLookup f handle s with
  | error e =>
    simp only [reports_of_error hflags hb, true_iff]
    intro b hb'
    cases hb'
  | ok b =>
    simp only [Except.ok.injEq, forall_eq']
    cases hw : waitError (grabEnds c flags) flags with
    | none => exact iff_of_true (reports_of_idle h hf hflags hv hb hw) rfl
    | some e => exact reports_of_wait hflags hb hw

end Vmwgfx.RefObjects
