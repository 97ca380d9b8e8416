import Vmwgfx.ExecbufState
import Vmwgfx.LabelledRuns

set_option autoImplicit false

/-!
# Accounting of user fences

`vmw_user_fence_create` and the two ways a user fence goes: its references are dropped and its
handle is closed. The memory of a fence is charged when it is created and given back by its
destructor; on the error path of a handle that cannot be made, also by the caller.
-/
namespace Vmwgfx.UserFences
open ExecbufState (Errno)
open LabelledRuns

/-- `struct vmw_user_fence`: the references to the fence, of which the base object has one while
    it has references itself. -/
structure UserFence where
  refs : ℕ
  baseRefs : ℕ
  deriving DecidableEq, Repr

/-- The fence manager with the user fences that exist, by their addresses. `charged` is the part
    of the global memory that user fences are charged. -/
structure FenceDev where
  userFenceSize : ℤ
  charged : ℤ
  fifoDown : Bool
  numFenceObjects : ℤ
  fenceList : List ℕ
  live : Finset ℕ
  fence : ℕ → UserFence

/-- What the steps of a creation return; `kzalloc` is the address of the new object. -/
structure CreateEnds where
  memGlobalAlloc : Option Errno
  kzalloc : Option ℕ
  baseObjectInit : Option Errno
  deriving DecidableEq, Repr

def ebusy : Errno := .other 16

def start (userFenceSize : ℤ) : FenceDev :=
  ⟨userFenceSize, 0, true, 0, [], ∅, fun _ => ⟨0, 0⟩⟩

def charge (n : ℤ) (s : FenceDev) : FenceDev := { s with charged := s.charged + n }

def setFence (i : ℕ) (f : UserFence) (s : FenceDev) : FenceDev :=
  { s with fence := Function.update s.fence i f }

/-- `kzalloc` of a fence, and `kfree`. -/
def alloc (i : ℕ) (s : FenceDev) : FenceDev := { s with live := insert i s.live }
def free (i : ℕ) (s : FenceDev) : FenceDev := { s with live := s.live.erase i }

def vmwUserFenceDestroy (i : ℕ) (s : FenceDev) : FenceDev :=
  charge (-s.userFenceSize) (free i s)

def vmwFenceObjDestroy (i : ℕ) (s : FenceDev) : FenceDev :=
  vmwUserFenceDestroy i
    { s with fenceList := s.fenceList.erase i, numFenceObjects := s.numFenceObjects - 1 }

def vmwFenceObjUnreference (i : ℕ) (s : FenceDev) : FenceDev :=
  let f := s.fence i
  let t := setFence i { f with refs := f.refs - 1 } s
  if f.refs - 1 = 0 then vmwFenceObjDestroy i t else t

def vmwFenceObjReference (i : ℕ) (s : FenceDev) : FenceDev :=
  setFence i { s.fence i with refs := (s.fence i).refs + 1 } s

/-- `ttm_base_object_unref`, with `vmw_user_fence_base_release`. -/
def ttmBaseObjectUnref (i : ℕ) (s : FenceDev) : FenceDev :=
  let f := s.fence i
  let t := setFence i { f with baseRefs := f.baseRefs - 1 } s
  if f.baseRefs - 1 = 0 then vmwFenceObjUnreference i t else t

/-- The fence goes to the end of `fman->fence_list`. -/
def listFence (i : ℕ) (s : FenceDev) : FenceDev :=
  { s with fenceList := s.fenceList ++ [i], numFenceObjects := s.numFenceObjects + 1 }

def vmwFenceObjInit (i : ℕ) (s : FenceDev) : Option Errno × FenceDev :=
  let t := setFence i ⟨1, 0⟩ s
  if s.fifoDown then (some ebusy, t) else (none, listFence i t)

/-- `ttm_base_object_init`; the handle has the reference that stays. -/
def ttmBaseObjectInit (ret : Option Errno) (i : ℕ) (s : FenceDev) : Option Errno × FenceDev :=
  match ret with
  | some e => (some e, s)
  | none => (none, setFence i { s.fence i with baseRefs := 1 } s)

/-- `vmw_user_fence_create`; the result is the fence. -/
def vmwUserFenceCreate (o : CreateEnds) (s : FenceDev) : Except Errno ℕ × FenceDev :=
  match o.memGlobalAlloc with
  | some e => (.error e, s)
  | none =>
    let s := charge s.userFenceSize s
    match o.kzalloc with
    | none => (.error .enomem, charge (-s.userFenceSize) s)
    | some i =>
      let s := alloc i s
      match vmwFenceObjInit i s with
      | (some e, s) => (.error e, charge (-s.userFenceSize) (free i s))
      | (none, s) =>
        let s := vmwFenceObjReference i s
        match ttmBaseObjectInit o.baseObjectInit i s with
        | (some e, s) =>
          -- the base object's reference, then the caller's at `out_err`
          let s := vmwFenceObjUnreference i s
          let s := vmwFenceObjUnreference i s
          (.error e, charge (-s.userFenceSize) s)
        | (none, s) => (.ok i, s)

inductive Op where
  | create (o : CreateEnds)
  /-- References to a fence by others than its base object. -/
  | reference (i : ℕ)
  | unreference (i : ℕ)
  /-- References to the base object: that of a lookup, and that of a lookup or a handle that is
      dropped. -/
  | baseRef (i : ℕ)
  | baseUnref (i : ℕ)
  | setFifoDown (b : Bool)
  deriving DecidableEq, Repr

def baseHeld (f : UserFence) : ℕ := if 0 < f.baseRefs then 1 else 0

def addressFree (o : CreateEnds) (s : FenceDev) : Bool :=
  match o.kzalloc with
  | none => true
  | some i => decide (i ∉ s.live)

def step (s : FenceDev) : Op → Option FenceDev
  | .create o => if addressFree o s then some (vmwUserFenceCreate o s).2 else none
  | .reference i =>
    if i ∈ s.live ∧ 0 < (s.fence i).refs then some (vmwFenceObjReference i s) else none
  | .unreference i =>
    if i ∈ s.live ∧ baseHeld (s.fence i) < (s.fence i).refs then
      some (vmwFenceObjUnreference i s)
    else none
  | .baseRef i =>
    if i ∈ s.live ∧ 0 < (s.fence i).baseRefs then
      some (setFence i { s.fence i with baseRefs := (s.fence i).baseRefs + 1 } s)
    else none
  | .baseUnref i =>
    if i ∈ s.live ∧ 0 < (s.fence i).baseRefs then some (ttmBaseObjectUnref i s) else none
  | .setFifoDown b => some { s with fifoDown := b }

/-- The creation comes to its last step, and that fails: the handle cannot be made. -/
def failsAtHandle (o : CreateEnds) (s : FenceDev) : Prop :=
  o.memGlobalAlloc = none ∧ o.kzalloc.isSome = true ∧ s.fifoDown = false ∧
    o.baseObjectInit.isSome = true

instance decidableFailsAtHandle (o : CreateEnds) (s : FenceDev) : Decidable (failsAtHandle o s) :=
  inferInstanceAs (Decidable (_ ∧ _ ∧ _ ∧ _))

/-- Every creation gets its handle, or fails before it is to get one. -/
def handleMade (s : FenceDev) : Op → Prop
  | .create o => ¬ failsAtHandle o s
  | _ => True

instance decidableHandleMade (s : FenceDev) (a : Op) : Decidable (handleMade s a) := by
  unfold handleMade
  split <;> infer_instance

/-- What user fences are charged is what the fences that exist have been charged. -/
structure Charged (userFenceSize : ℤ) (s : FenceDev) : Prop where
  size : s.userFenceSize = userFenceSize
  charged : s.charged = userFenceSize * s.live.card

variable {z : ℤ} {s t : FenceDev} {i : ℕ} {o : CreateEnds} {a : Op} {as : List Op} {f : UserFence}

theorem Charged.congr (h : Charged z s) (hsize : t.userFenceSize = s.userFenceSize)
    (hcharged : t.charged = s.charged) (hlive : t.live = s.live) : Charged z t :=
  ⟨hsize.trans h.size, by rw [hcharged, hlive, h.charged]⟩

theorem Charged.destroy (h : Charged z s) (hi : i ∈ s.live) : Charged z (vmwFenceObjDestroy i s) := by
  refine ⟨h.size, ?_⟩
  change s.charged + -s.userFenceSize = z * (s.live.erase i).card
  have hcard : (s.live.card : ℤ) = (s.live.erase i).card + 1 := by
    exact_mod_cast (Finset.card_erase_add_one hi).symm
  rw [h.charged, h.size, hcard]
  ring

theorem Charged.unreference (h : Charged z s) (hi : i ∈ s.live) :
    Charged z (vmwFenceObjUnreference i s) := by
  unfold vmwFenceObjUnreference
  dsimp only
  split
  · exact (h.congr (t := setFence i _ s) rfl rfl rfl).destroy hi
  · exact h.congr rfl rfl rfl

theorem Charged.baseUnref (h : Charged z s) (hi : i ∈ s.live) :
    Charged z (ttmBaseObjectUnref i s) := by
  unfold ttmBaseObjectUnref
  dsimp only
  split
  · exact (h.congr (t := setFence i _ s) rfl rfl rfl).unreference hi
  · exact h.congr rfl rfl rfl

structure Made (s : FenceDev) (i : ℕ) (t : FenceDev) : Prop where
  fresh : i ∉ s.live
  size : t.userFenceSize = s.userFenceSize
  charged : t.charged = s.charged + s.userFenceSize
  live : t.live = insert i s.live

/-- After an error there is no fence, and without a handle its memory is given back twice. -/
structure Failed (o : CreateEnds) (s t : FenceDev) : Prop where
  size : t.userFenceSize = s.userFenceSize
  charged : t.charged = s.charged - if failsAtHandle o s then s.userFenceSize else 0
  live : t.live = s.live

theorem not_failsAtHandle_of_mem {e : Errno} (h : o.memGlobalAlloc = some e) :
    ¬ failsAtHandle o s := fun hf => by
  rw [hf.1] at h
  cases h

theorem unreference_shared (h : s.fence i = f) (hf : f.refs - 1 ≠ 0) :
    vmwFenceObjUnreference i s = setFence i { f with refs := f.refs - 1 } s := by
  unfold vmwFenceObjUnreference
  rw [h]
  exact if_neg hf

theorem unreference_last (h : s.fence i = f) (hf : f.refs - 1 = 0) :
    vmwFenceObjUnreference i s =
      vmwFenceObjDestroy i (setFence i { f with refs := f.refs - 1 } s) := by
  unfold vmwFenceObjUnreference
  rw [h]
  exact if_pos hf

@[simp] theorem setFence_self (i : ℕ) (f : UserFence) (s : FenceDev) :
    (setFence i f s).fence i = f := Function.update_self ..

theorem dropBoth_eq (h : s.fence i = ⟨2, 0⟩) :
    ∃ t, vmwFenceObjUnreference i (vmwFenceObjUnreference i s) = vmwFenceObjDestroy i t ∧
      t.userFenceSize = s.userFenceSize ∧ t.charged = s.charged ∧ t.live = s.live := by
  rw [unreference_shared h (by decide), unreference_last (setFence_self i _ s) (by decide)]
  exact ⟨_, rfl, rfl, rfl, rfl⟩

/-- The state in which the base object is to be initialised. -/
def begun (i : ℕ) (s : FenceDev) : FenceDev :=
  vmwFenceObjReference i (listFence i (setFence i ⟨1, 0⟩ (alloc i (charge s.userFenceSize s))))

theorem begun_fence (i : ℕ) (s : FenceDev) : (begun i s).fence i = ⟨2, 0⟩ := by
  have hone : (listFence i (setFence i ⟨1, 0⟩ (alloc i (charge s.userFenceSize s)))).fence i =
      ⟨1, 0⟩ := setFence_self ..
  rw [begun, vmwFenceObjReference, setFence_self, hone]

theorem create_begun (hmem : o.memGlobalAlloc = none) (hz : o.kzalloc = some i)
    (hfifo : s.fifoDown = false) : vmwUserFenceCreate o s =
      match ttmBaseObjectInit o.baseObjectInit i (begun i s) with
      | (some e, s) =>
        let s := vmwFenceObjUnreference i s
        let s := vmwFenceObjUnreference i s
        (.error e, charge (-s.userFenceSize) s)
      | (none, s) => (.ok i, s) := by
  have hinit : vmwFenceObjInit i (alloc i (charge s.userFenceSize s)) =
      (none, listFence i (setFence i ⟨1, 0⟩ (alloc i (charge s.userFenceSize s)))) := by
    have hup : ¬ (alloc i (charge s.userFenceSize s)).fifoDown = true := by
      change ¬ s.fifoDown = true
      rw [hfifo]
      decide
    exact if_neg hup
  unfold vmwUserFenceCreate
  rw [hmem, hz]
  dsimp only
  rw [hinit]
  rfl

theorem create_down (hmem : o.memGlobalAlloc = none) (hz : o.kzalloc = some i)
    (hfifo : s.fifoDown = true) : vmwUserFenceCreate o s =
      (.error ebusy, charge (-s.userFenceSize)
        (free i (setFence i ⟨1, 0⟩ (alloc i (charge s.userFenceSize s))))) := by
  have hinit : vmwFenceObjInit i (alloc i (charge s.userFenceSize s)) =
      (some ebusy, setFence i ⟨1, 0⟩ (alloc i (charge s.userFenceSize s))) := if_pos hfifo
  unfold vmwUserFenceCreate
  rw [hmem, hz]
  dsimp only
  rw [hinit]
  rfl

theorem create_spec (hfree : addressFree o s = true) :
    (∃ i t, vmwUserFenceCreate o s = (.ok i, t) ∧ Made s i t) ∨
      ∃ e t, vmwUserFenceCreate o s = (.error e, t) ∧ Failed o s t := by
  cases hmem : o.memGlobalAlloc with
  | some e =>
    have hno : ¬ failsAtHandle o s := not_failsAtHandle_of_mem hmem
    unfold vmwUserFenceCreate
    rw [hmem]
    exact .inr ⟨e, s, rfl, rfl, by rw [if_neg hno, sub_zero], rfl⟩
  | none =>
    cases hz : o.kzalloc with
    | none =>
      have hno : ¬ failsAtHandle o s := fun hf => by simp [failsAtHandle, hz] at hf
      unfold vmwUserFenceCreate
      rw [hmem, hz]
      refine .inr ⟨.enomem, _, rfl, rfl, ?_, rfl⟩
      rw [if_neg hno, sub_zero]
      exact add_neg_cancel_right _ _
    | some i =>
      have hi : i ∉ s.live := by
        unfold addressFree at hfree
        rw [hz] at hfree
        exact of_decide_eq_true hfree
      cases hfifo : s.fifoDown with
      | true =>
        have hno : ¬ failsAtHandle o s := fun hf => by simp [failsAtHandle, hfifo] at hf
        rw [create_down hmem hz hfifo]
        refine .inr ⟨ebusy, _, rfl, rfl, ?_, Finset.erase_insert hi⟩
        rw [if_neg hno, sub_zero]
        exact add_neg_cancel_right _ _
      | false =>
        rw [create_begun hmem hz hfifo]
        cases hbase : o.baseObjectInit with
        | some e =>
          have hyes : failsAtHandle o s := ⟨hmem, by rw [hz]; rfl, hfifo, by rw [hbase]; rfl⟩
          obtain ⟨t, ht, hsize, hcharged, hlive⟩ := dropBoth_eq (begun_fence i s)
          refine .inr ⟨e, charge (-t.userFenceSize) (vmwFenceObjDestroy i t), ?_, hsize, ?_, ?_⟩
          · dsimp only [ttmBaseObjectInit]
            rw [ht]
            rfl
          · rw [if_pos hyes]
            change t.charged + -t.userFenceSize + -t.userFenceSize = _
            rw [hcharged, hsize]
            change s.charged + s.userFenceSize + -s.userFenceSize + -s.userFenceSize = _
            ring
          · change t.live.erase i = s.live
            rw [hlive]
            exact Finset.erase_insert hi
        | none => exact .inl ⟨i, _, rfl, hi, rfl, rfl, rfl⟩

theorem Charged.create (h : Charged z s) (hfree : addressFree o s = true)
    (hok : ¬ failsAtHandle o s) : Charged z (vmwUserFenceCreate o s).2 := by
  rcases create_spec hfree with ⟨i, t, ht, hmade⟩ | ⟨e, t, ht, hfailed⟩
  · rw [ht]
    refine ⟨hmade.size.trans h.size, ?_⟩
    rw [hmade.charged, hmade.live, h.charged, h.size, Finset.card_insert_of_notMem hmade.fresh]
    push_cast
    ring
  · rw [ht]
    apply h.congr hfailed.size _ hfailed.live
    rw [hfailed.charged, if_neg hok, sub_zero]

theorem Charged.step (h : Charged z s) (hok : handleMade s a) (hs : step s a = some t) :
    Charged z t := by
  cases a with
  | create o =>
    simp only [UserFences.step, Option.ite_none_right_eq_some, Option.some.injEq] at hs
    obtain ⟨hfree, rfl⟩ := hs
    exact h.create hfree hok
  | reference i =>
    simp only [UserFences.step, Option.ite_none_right_eq_some, Option.some.injEq] at hs
    obtain ⟨-, rfl⟩ := hs
    exact h.congr rfl rfl rfl
  | unreference i =>
    simp only [UserFences.step, Option.ite_none_right_eq_some, Option.some.injEq] at hs
    obtain ⟨⟨hi, -⟩, rfl⟩ := hs
    exact h.unreference hi
  | baseRef i =>
    simp only [UserFences.step, Option.ite_none_right_eq_some, Option.some.injEq] at hs
    obtain ⟨-, rfl⟩ := hs
    exact h.congr rfl rfl rfl
  | baseUnref i =>
    simp only [UserFences.step, Option.ite_none_right_eq_some, Option.some.injEq] at hs
    obtain ⟨⟨hi, -⟩, rfl⟩ := hs
    exact h.baseUnref hi
  | setFifoDown b =>
    obtain rfl := Option.some.inj hs
    exact h.congr rfl rfl rfl

theorem charged_start (z : ℤ) : Charged z (start z) := ⟨rfl, by simp [start]⟩

/-- As long as no creation fails at the handle, the charge is that of the fences that exist; and
    a creation that fails changes it only there. -/
theorem userFences_charged (h : Runs step handleMade (start z) as s) :
    s.charged = z * s.live.card ∧
      ∀ o, addressFree o s = true → ∀ e, (vmwUserFenceCreate o s).1 = .error e →
        (vmwUserFenceCreate o s).2.live = s.live ∧
        (vmwUserFenceCreate o s).2.charged = s.charged - if failsAtHandle o s then z else 0 := by
  have hcharged := h.invariant (Charged z) (charged_start z)
    fun _ _ _ hu hok hs => hu.step hok hs
  refine ⟨hcharged.charged, ?_⟩
  intro o hfree e he
  rcases create_spec hfree with ⟨i, t, ht, -⟩ | ⟨e', t, ht, hfailed⟩
  · rw [ht] at he
    cases he
  · rw [ht, ← hcharged.size]
    exact ⟨hfailed.live, hfailed.charged⟩

/-- A fence is created, its handle closed and its last reference dropped, and another created. -/
def closedRun : List Op :=
  [.setFifoDown false, .create ⟨none, some 7, none⟩, .reference 7, .baseUnref 7, .unreference 7,
    .unreference 7, .create ⟨none, some 9, none⟩]

theorem closedRun_charged :
    ((execAdmitted step handleMade (start 256) closedRun).getD (start 256)).charged = 256 := by
  have hrun : Runs step handleMade (start 256) closedRun
      ((execAdmitted step handleMade (start 256) closedRun).getD (start 256)) :=
    runs_admitted_getD (by decide)
  rw [(userFences_charged hrun).1]
  decide

/-- The creation of a fence whose handle cannot be made. -/
def refusedRun : List Op := [.setFifoDown false, .create ⟨none, some 7, some .enomem⟩]

theorem refusedRun_overfrees : ∃ s, Runs step anyLabel (start 256) refusedRun s ∧
    s.live = ∅ ∧ s.charged = -256 ∧ ¬ s.charged = 256 * s.live.card :=
  ⟨(exec step (start 256) refusedRun).getD (start 256), runs_getD (by decide), by decide,
    by decide, by decide⟩

end Vmwgfx.UserFences
