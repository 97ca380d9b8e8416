import Vmwgfx.ExecbufVerifier
import Vmwgfx.HoldLedger
import Vmwgfx.LabelledRuns

set_option autoImplicit false

/-!
# The pinned query buffer

`dev_priv->pinned_bo` from batch to batch: `vmw_query_bo_switch_commit` and
`__vmw_execbuf_release_pinned_bo` with their references, inside `vmw_execbuf_process` and
the other functions that release the buffer. A `BUG_ON` or a NULL buffer ends a run; a
buffer that cannot be pinned where it is is such a `BUG_ON`.
-/
namespace Vmwgfx.ExecbufQuery
open FailingState ExecbufState HoldLedger LabelledRuns

variable {σ : Type} (K : Kernel σ)

/-- `refs` are the references that are taken and dropped through `pinned_bo`. -/
structure QueryDev extends QueryPins where
  queryCidValid : Bool
  refs : List (ℕ × Bool)
  deriving DecidableEq

def start : QueryDev := ⟨⟨none, false, none, [], []⟩, false, []⟩

inductive Fault where
  | check (stop : Stop)
  | ctxEntry
  | lastQueryCtx
  | nullBo
  | fence
  deriving DecidableEq, Repr

def vmwBoPinReserved (bo : ℕ) (pin : Bool) (d : QueryDev) : QueryDev :=
  { d with pins := d.pins ++ [(bo, pin)] }

/-- `vmw_bo_unreference(&dev_priv->pinned_bo)`. -/
def vmwBoUnreference (bo : ℕ) (d : QueryDev) : QueryDev :=
  { d with
    refs := d.refs ++ [(bo, false)]
    pinnedBo := none }

def unpinDummy (d : QueryDev) : QueryDev :=
  if d.dummyQueryBoPinned then
    { vmwBoPinReserved K.dummyQueryBo false d with dummyQueryBoPinned := false }
  else d

def pinDummy (d : QueryDev) : QueryDev :=
  if d.dummyQueryBoPinned then d
  else { vmwBoPinReserved K.dummyQueryBo true d with dummyQueryBoPinned := true }

def vmwFifoEmitDummyQuery (ctx : Option ℕ) (d : QueryDev) : QueryDev :=
  { d with dummyQueries := d.dummyQueries ++ [ctx] }

def postQueryBarrier (s : SwContext σ) (d : QueryDev) : Except Fault QueryDev :=
  if s.needsPostQueryBarrier then
    if (s.resCache .context).valid then
      -- without space for the query this is only logged
      .ok (vmwFifoEmitDummyQuery (s.resCache .context).res d)
    else .error .ctxEntry
  else .ok d

def dropPinnedBo (d : QueryDev) : QueryDev :=
  match d.pinnedBo with
  | some bo => vmwBoUnreference bo (vmwBoPinReserved bo false d)
  | none => d

/-- `pinned_bo` becomes a new reference to `cur_query_bo`. -/
def pinQueryBo (s : SwContext σ) (d : QueryDev) : Except Fault QueryDev :=
  match s.curQueryBo with
  | none => .error .nullBo
  | some bo =>
    let d := pinDummy K (vmwBoPinReserved bo true d)
    match s.lastQueryCtx with
    | none => .error .lastQueryCtx
    | some ctx => .ok { d with
        queryCtx := some ctx
        queryCidValid := true
        refs := d.refs ++ [(bo, true)]
        pinnedBo := some bo }

def vmwQueryBoSwitchCommit (s : SwContext σ) (d : QueryDev) : Except Fault QueryDev := do
  let d ← postQueryBarrier s d
  if d.pinnedBo = s.curQueryBo then pure d
  else if s.needsPostQueryBarrier then pure (dropPinnedBo d)
  else pinQueryBo K s (dropPinnedBo d)

structure ReleaseEnds where
  addPinnedBo : Option Errno
  addDummyBo : Option Errno
  boReserve : Option Errno
  emitDummyQuery : Option Errno
  deriving DecidableEq, Repr

def vmwExecbufUnpinPanic (bo : ℕ) (d : QueryDev) : QueryDev :=
  unpinDummy K (vmwBoPinReserved bo false d)

/-- `__vmw_execbuf_release_pinned_bo`; `fence` tells that it is called with a fence. -/
def vmwExecbufReleasePinnedBoLocked (o : ReleaseEnds) (fence : Bool) (d : QueryDev) :
    Except Fault QueryDev :=
  match d.pinnedBo with
  | none => .ok d
  | some bo =>
    if o.addPinnedBo.isSome ∨ o.addDummyBo.isSome ∨ o.boReserve.isSome then
      .ok (vmwBoUnreference bo (vmwExecbufUnpinPanic K bo d))
    else if d.queryCidValid then
      if fence then .error .fence
      else if o.emitDummyQuery.isSome then
        .ok (vmwBoUnreference bo (vmwExecbufUnpinPanic K bo d))
      else finish bo { vmwFifoEmitDummyQuery d.queryCtx d with queryCidValid := false }
    else finish bo d
where
  finish (bo : ℕ) (d : QueryDev) : Except Fault QueryDev :=
    .ok (vmwBoUnreference bo (unpinDummy K (vmwBoPinReserved bo false d)))

def vmwExecbufReleasePinnedBo (o : ReleaseEnds) (d : QueryDev) : Except Fault QueryDev :=
  if d.queryCidValid then vmwExecbufReleasePinnedBoLocked K o false d else .ok d

/-- The release where `pinned_bo` is kept for a context that is gone. -/
def releaseStale (o : ReleaseEnds) (fence : Bool) (d : QueryDev) : Except Fault QueryDev :=
  if d.pinnedBo ≠ none ∧ d.queryCidValid = false then vmwExecbufReleasePinnedBoLocked K o fence d
  else .ok d

/-- What the verification of a batch does apart from ending queries: nothing else in the
    source writes these fields. -/
structure OtherCheck (σ : Type) where
  run : SwContext σ → SwContext σ
  curQueryBo : ∀ s, (run s).curQueryBo = s.curQueryBo
  lastQueryCtx : ∀ s, (run s).lastQueryCtx = s.lastQueryCtx
  needsPostQueryBarrier : ∀ s, (run s).needsPostQueryBarrier = s.needsPostQueryBarrier

inductive CheckStep (σ : Type) where
  | endQuery (ctx : Option ℕ) (newQueryBo : ℕ)
  | other (c : OtherCheck σ)

def CheckStep.run : CheckStep σ → Check σ Unit
  | .endQuery ctx bo => vmwQueryBoSwitchPrepare K ctx bo
  | .other c => update c.run

/-- `sw` is what `sw_context` was before. -/
structure Batch (σ : Type) where
  sw : SwContext σ
  /-- A step before `vmw_execbuf_tie_context` failed. -/
  early : Option Errno
  checks : List (CheckStep σ)
  /-- Another command, or a later step up to the submission, failed. -/
  late : Option Errno
  fence : Bool
  release : ReleaseEnds

def Batch.begin (b : Batch σ) (d : QueryDev) : SwContext σ :=
  { b.sw with
    curQueryBo := d.pinnedBo
    lastQueryCtx := none
    needsPostQueryBarrier := false }

def Batch.verify (b : Batch σ) (d : QueryDev) : Except Stop Unit × SwContext σ :=
  forEach (CheckStep.run K) b.checks (b.begin d)

def vmwExecbufProcess (b : Batch σ) (d : QueryDev) : Except Fault QueryDev :=
  if b.early.isSome then .ok d
  else match b.verify K d with
    | (.error (.errno _), _) => releaseStale K b.release false d
    | (.error stop, _) => .error (.check stop)
    | (.ok (), s) =>
      if b.late.isSome then releaseStale K b.release false d
      else do
        let d ← vmwQueryBoSwitchCommit K s d
        releaseStale K b.release b.fence d

/-- `gone` tells that the destroy command for the context was emitted. -/
def vmwHwContextDestroy (ctx : ℕ) (gone : Bool) (o : ReleaseEnds) (d : QueryDev) :
    Except Fault QueryDev :=
  releaseStale K o false
    (if gone ∧ d.queryCtx = some ctx then { d with queryCidValid := false } else d)

inductive Act (σ : Type) where
  | execbufProcess (b : Batch σ)
  | releasePinnedBoLocked (o : ReleaseEnds) (fence : Bool)
  | releasePinnedBo (o : ReleaseEnds)
  | hwContextDestroy (ctx : ℕ) (gone : Bool) (o : ReleaseEnds)

def perform (d : QueryDev) : Act σ → Except Fault QueryDev
  | .execbufProcess b => vmwExecbufProcess K b d
  | .releasePinnedBoLocked o fence => vmwExecbufReleasePinnedBoLocked K o fence d
  | .releasePinnedBo o => vmwExecbufReleasePinnedBo K o d
  | .hwContextDestroy ctx gone o => vmwHwContextDestroy K ctx gone o d

def step (d : QueryDev) (a : Act σ) : Option QueryDev := (perform K d a).toOption

/-- The buffer of queries stays or becomes one of those in `P`. -/
def CurIn (P : ℕ → Prop) (s t : SwContext σ) : Prop :=
  t.curQueryBo = s.curQueryBo ∨ ∃ bo, P bo ∧ t.curQueryBo = some bo

variable {K} {P : ℕ → Prop} {F : Stop → Prop} {d e : QueryDev}

instance : Std.Refl (CurIn P : SwContext σ → SwContext σ → Prop) where
  refl _ := .inl rfl

instance : IsTrans (SwContext σ) (CurIn P) where
  trans _ _ _ h h' := by
    rcases h' with h' | h'
    · unfold CurIn
      rwa [h']
    · exact .inr h'

theorem call_curIn {α : Type} (op : Op σ α) : Keeps (CurIn P) (fun _ => True) (call op) := by
  intro s
  have hcur : ∀ u, CurIn P s { s with rest := u } := fun _ => .inl rfl
  rcases h : op s.rest with ⟨r, u⟩
  cases r with
  | ok a => exact keepsAt_of_ok a (by simp only [call, h]) (hcur u)
  | error e => exact keepsAt_of_error (.errno e) (by simp only [call, h]) (hcur u) trivial

theorem vmwValidationAddBo_curIn (bo : ℕ) (asMob cpuBlit : Bool) :
    Keeps (CurIn P) (fun _ => True) (vmwValidationAddBo K bo asMob cpuBlit) := by
  refine (keeps_inspect _).bind fun dup => ?_
  cases dup with
  | some node => exact keeps_require _ trivial
  | none => exact (call_curIn _).bind fun _ => keeps_update fun _ => .inl rfl

theorem vmwQueryBoSwitchPrepare_curIn (ctx : Option ℕ) {bo : ℕ} (hbo : P bo) :
    Keeps (CurIn P) (fun _ => True) (vmwQueryBoSwitchPrepare K ctx bo) := by
  refine (keeps_inspect _).bind fun s => ?_
  refine (keeps_require _ trivial).bind fun _ => ?_
  refine (keeps_update fun _ => .inl rfl).bind fun _ => ?_
  refine (keeps_update fun _ => .inl rfl).bind fun _ => ?_
  refine Keeps.runIf ?_ _
  refine (keeps_require _ trivial).bind fun _ => ?_
  refine Keeps.bind ?_ fun _ => ?_
  · cases s.curQueryBo with
    | none => exact keeps_pure ()
    | some old =>
      exact (keeps_update fun _ => .inl rfl).bind fun _ => vmwValidationAddBo_curIn _ _ _
  · refine (keeps_update fun _ => ?_).bind fun _ => vmwValidationAddBo_curIn _ _ _
    exact .inr ⟨bo, hbo, rfl⟩

/-- The buffers that the query-ending commands of a batch name. -/
def Batch.names (b : Batch σ) (bo : ℕ) : Prop := ∃ ctx, .endQuery ctx bo ∈ b.checks

theorem forEach_curIn (cs : List (CheckStep σ)) (h : ∀ ctx bo, .endQuery ctx bo ∈ cs → P bo) :
    Keeps (CurIn P) (fun _ => True) (forEach (CheckStep.run K) cs) := by
  induction cs with
  | nil => exact keeps_pure ()
  | cons c cs ih =>
    refine Keeps.bind ?_ fun _ => ih fun ctx bo hc => h ctx bo (List.mem_cons_of_mem c hc)
    cases c with
    | endQuery ctx bo => exact vmwQueryBoSwitchPrepare_curIn ctx (h ctx bo (by simp))
    | other c => exact keeps_update fun s => .inl (c.curQueryBo s)

theorem verify_curQueryBo (b : Batch σ) (d : QueryDev) :
    (b.verify K d).2.curQueryBo = d.pinnedBo ∨
      ∃ bo, b.names bo ∧ (b.verify K d).2.curQueryBo = some bo :=
  (forEach_curIn b.checks (fun ctx _ h => ⟨ctx, h⟩) (b.begin d)).state

def dummyHeld (K : Kernel σ) (d : QueryDev) : Multiset ℕ :=
  if d.dummyQueryBoPinned then {K.dummyQueryBo} else 0

def boHeld (d : QueryDev) : Multiset ℕ := d.pinnedBo.elim 0 fun bo => {bo}

/-- The logs balance, and what they leave is told by the fields. -/
structure Balanced (K : Kernel σ) (d : QueryDev) : Prop where
  pins : held d.pins = some (boHeld d + dummyHeld K d)
  refs : held d.refs = some (boHeld d)

theorem start_balanced : Balanced K start := ⟨rfl, rfl⟩

theorem dropPinnedBo_balanced (h : Balanced K d) : Balanced K (dropPinnedBo d) := by
  unfold dropPinnedBo
  split
  · rename_i bo hbo
    have hpins := h.pins
    have hrefs := h.refs
    simp only [boHeld, hbo, Option.elim_some] at hpins hrefs
    constructor
    · change held (d.pins ++ [(bo, false)]) = some (0 + dummyHeld K d)
      rw [zero_add]
      exact held_drop hpins
    · exact held_drop hrefs
  · exact h

theorem unpinDummy_balanced (h : Balanced K d) : Balanced K (unpinDummy K d) := by
  unfold unpinDummy
  split_ifs with hd
  · refine ⟨?_, h.refs⟩
    have hpins := h.pins
    simp only [dummyHeld, hd, if_true] at hpins
    rw [add_comm] at hpins
    change held (d.pins ++ [(K.dummyQueryBo, false)]) = some (boHeld d + 0)
    rw [add_zero]
    exact held_drop hpins
  · exact h

theorem pinDummy_balanced (h : Balanced K d) : Balanced K (pinDummy K d) := by
  unfold pinDummy
  split_ifs with hd
  · exact h
  · refine ⟨?_, h.refs⟩
    have hpins := held_take K.dummyQueryBo h.pins
    simp only [dummyHeld, if_neg hd, add_zero] at hpins
    change held (d.pins ++ [(K.dummyQueryBo, true)]) = some (boHeld d + {K.dummyQueryBo})
    rw [hpins, add_comm]
    rfl

theorem take_balanced (bo ctx : ℕ) (h : Balanced K d) (hnone : d.pinnedBo = none) :
    Balanced K { vmwBoPinReserved bo true d with
      queryCtx := some ctx
      queryCidValid := true
      refs := d.refs ++ [(bo, true)]
      pinnedBo := some bo } := by
  have hpins := held_take bo h.pins
  have hrefs := held_take bo h.refs
  simp only [boHeld, hnone, Option.elim_none, zero_add] at hpins hrefs
  exact ⟨hpins, hrefs⟩

theorem dropPinnedBo_pinnedBo (d : QueryDev) : (dropPinnedBo d).pinnedBo = none := by
  unfold dropPinnedBo
  split
  · rfl
  · assumption

theorem finish_eq (bo : ℕ) (hbo : d.pinnedBo = some bo) :
    vmwBoUnreference bo (unpinDummy K (vmwBoPinReserved bo false d)) =
      unpinDummy K (dropPinnedBo d) := by
  unfold dropPinnedBo unpinDummy
  rw [hbo]
  cases hd : d.dummyQueryBoPinned <;> simp [vmwBoPinReserved, vmwBoUnreference, hd]

theorem pinQueryBo_eq {s : SwContext σ} (h : pinQueryBo K s d = .ok e) :
    ∃ bo ctx, s.curQueryBo = some bo ∧ s.lastQueryCtx = some ctx ∧
      e = pinDummy K { vmwBoPinReserved bo true d with
        queryCtx := some ctx
        queryCidValid := true
        refs := d.refs ++ [(bo, true)]
        pinnedBo := some bo } := by
  unfold pinQueryBo at h
  split at h
  · cases h
  · rename_i bo hbo
    cases hctx : s.lastQueryCtx with
    | none => simp [hctx] at h
    | some ctx =>
      simp only [hctx, Except.ok.injEq] at h
      refine ⟨bo, ctx, hbo, rfl, ?_⟩
      rw [← h]
      unfold pinDummy
      cases hd : d.dummyQueryBoPinned <;> simp [vmwBoPinReserved, hd]

theorem postQueryBarrier_ok {s : SwContext σ} (h : postQueryBarrier s d = .ok e) :
    ∃ queries, e = { d with dummyQueries := queries } := by
  unfold postQueryBarrier at h
  split_ifs at h
  · exact ⟨_, (Except.ok.inj h).symm⟩
  · exact ⟨d.dummyQueries, (Except.ok.inj h).symm⟩

theorem vmwQueryBoSwitchCommit_ok {s : SwContext σ} (h : vmwQueryBoSwitchCommit K s d = .ok e) :
    ∃ queries, (d.pinnedBo = s.curQueryBo ∧ e = { d with dummyQueries := queries }) ∨
      (d.pinnedBo ≠ s.curQueryBo ∧ e = dropPinnedBo { d with dummyQueries := queries }) ∨
      (d.pinnedBo ≠ s.curQueryBo ∧
        pinQueryBo K s (dropPinnedBo { d with dummyQueries := queries }) = .ok e) := by
  unfold vmwQueryBoSwitchCommit at h
  cases hpost : postQueryBarrier s d with
  | error f =>
    rw [hpost] at h
    cases h
  | ok u =>
    obtain ⟨queries, rfl⟩ := postQueryBarrier_ok hpost
    rw [hpost] at h
    change (if d.pinnedBo = s.curQueryBo then _ else _) = _ at h
    refine ⟨queries, ?_⟩
    split_ifs at h with hcur hbarrier
    · exact .inl ⟨hcur, (Except.ok.inj h).symm⟩
    · exact .inr (.inl ⟨hcur, (Except.ok.inj h).symm⟩)
    · exact .inr (.inr ⟨hcur, h⟩)

theorem vmwExecbufReleasePinnedBoLocked_ok {o : ReleaseEnds} {fence : Bool}
    (h : vmwExecbufReleasePinnedBoLocked K o fence d = .ok e) :
    e = d ∨ ∃ queries valid,
      e = unpinDummy K (dropPinnedBo { d with dummyQueries := queries, queryCidValid := valid }) := by
  unfold vmwExecbufReleasePinnedBoLocked at h
  split at h
  · exact .inl (Except.ok.inj h).symm
  · rename_i bo hbo
    refine .inr ?_
    have hpanic : vmwBoUnreference bo (vmwExecbufUnpinPanic K bo d) =
        unpinDummy K (dropPinnedBo { d with
          dummyQueries := d.dummyQueries, queryCidValid := d.queryCidValid }) := finish_eq bo hbo
    split_ifs at h with hvalidate hvalid hfence hemit
    · exact ⟨_, _, (Except.ok.inj h).symm.trans hpanic⟩
    · exact ⟨_, _, (Except.ok.inj h).symm.trans hpanic⟩
    · refine ⟨d.dummyQueries ++ [d.queryCtx], false, (Except.ok.inj h).symm.trans ?_⟩
      exact finish_eq bo hbo
    · exact ⟨_, _, (Except.ok.inj h).symm.trans hpanic⟩

theorem releaseStale_ok {o : ReleaseEnds} {fence : Bool} (h : releaseStale K o fence d = .ok e) :
    e = d ∨ vmwExecbufReleasePinnedBoLocked K o fence d = .ok e := by
  unfold releaseStale at h
  split_ifs at h
  · exact .inr h
  · exact .inl (Except.ok.inj h).symm

theorem vmwExecbufProcess_ok {b : Batch σ} (h : vmwExecbufProcess K b d = .ok e) :
    e = d ∨ (∃ fence, releaseStale K b.release fence d = .ok e) ∨
      ∃ u fence, vmwQueryBoSwitchCommit K (b.verify K d).2 d = .ok u ∧
        releaseStale K b.release fence u = .ok e := by
  unfold vmwExecbufProcess at h
  by_cases hearly : b.early.isSome
  · rw [if_pos hearly] at h
    exact .inl (Except.ok.inj h).symm
  · rw [if_neg hearly] at h
    split at h
    · exact .inr (.inl ⟨false, h⟩)
    · cases h
    · rename_i s hs
      rw [hs]
      split_ifs at h with hlate
      · exact .inr (.inl ⟨false, h⟩)
      · cases hcommit : vmwQueryBoSwitchCommit K s d with
        | error f =>
          rw [hcommit] at h
          cases h
        | ok u =>
          rw [hcommit] at h
          exact .inr (.inr ⟨u, b.fence, rfl, h⟩)

theorem vmwQueryBoSwitchCommit_balanced {s : SwContext σ} (hd : Balanced K d)
    (h : vmwQueryBoSwitchCommit K s d = .ok e) : Balanced K e := by
  obtain ⟨queries, ⟨-, rfl⟩ | ⟨-, rfl⟩ | ⟨-, h⟩⟩ := vmwQueryBoSwitchCommit_ok h
  · exact ⟨hd.pins, hd.refs⟩
  · exact dropPinnedBo_balanced ⟨hd.pins, hd.refs⟩
  · obtain ⟨bo, ctx, -, -, rfl⟩ := pinQueryBo_eq h
    refine pinDummy_balanced (take_balanced bo ctx ?_ (dropPinnedBo_pinnedBo _))
    exact dropPinnedBo_balanced ⟨hd.pins, hd.refs⟩

theorem vmwExecbufReleasePinnedBoLocked_balanced {o : ReleaseEnds} {fence : Bool}
    (hd : Balanced K d) (h : vmwExecbufReleasePinnedBoLocked K o fence d = .ok e) :
    Balanced K e := by
  obtain rfl | ⟨queries, valid, rfl⟩ := vmwExecbufReleasePinnedBoLocked_ok h
  · exact hd
  · exact unpinDummy_balanced (dropPinnedBo_balanced ⟨hd.pins, hd.refs⟩)

theorem releaseStale_balanced {o : ReleaseEnds} {fence : Bool} (hd : Balanced K d)
    (h : releaseStale K o fence d = .ok e) : Balanced K e := by
  obtain rfl | h := releaseStale_ok h
  · exact hd
  · exact vmwExecbufReleasePinnedBoLocked_balanced hd h

theorem vmwExecbufProcess_balanced {b : Batch σ} (hd : Balanced K d)
    (h : vmwExecbufProcess K b d = .ok e) : Balanced K e := by
  obtain rfl | ⟨fence, h⟩ | ⟨u, fence, hu, h⟩ := vmwExecbufProcess_ok h
  · exact hd
  · exact releaseStale_balanced hd h
  · exact releaseStale_balanced (vmwQueryBoSwitchCommit_balanced hd hu) h

theorem perform_balanced {a : Act σ} (hd : Balanced K d) (h : perform K d a = .ok e) :
    Balanced K e := by
  cases a with
  | execbufProcess b => exact vmwExecbufProcess_balanced hd h
  | releasePinnedBoLocked o fence => exact vmwExecbufReleasePinnedBoLocked_balanced hd h
  | releasePinnedBo o =>
    simp only [perform, vmwExecbufReleasePinnedBo] at h
    split_ifs at h
    · exact vmwExecbufReleasePinnedBoLocked_balanced hd h
    · cases h
      exact hd
  | hwContextDestroy ctx gone o =>
    refine releaseStale_balanced ?_ h
    split_ifs
    · exact ⟨hd.pins, hd.refs⟩
    · exact hd

@[simp] theorem unpinDummy_pinnedBo (d : QueryDev) : (unpinDummy K d).pinnedBo = d.pinnedBo := by
  unfold unpinDummy
  split_ifs <;> rfl

@[simp] theorem pinDummy_pinnedBo (d : QueryDev) : (pinDummy K d).pinnedBo = d.pinnedBo := by
  unfold pinDummy
  split_ifs <;> rfl

theorem vmwQueryBoSwitchCommit_pinnedBo {s : SwContext σ}
    (h : vmwQueryBoSwitchCommit K s d = .ok e) :
    e.pinnedBo = none ∨ e.pinnedBo = s.curQueryBo := by
  obtain ⟨queries, ⟨hcur, rfl⟩ | ⟨-, rfl⟩ | ⟨-, h⟩⟩ := vmwQueryBoSwitchCommit_ok h
  · exact .inr hcur
  · exact .inl (dropPinnedBo_pinnedBo _)
  · obtain ⟨bo, ctx, hcur, -, rfl⟩ := pinQueryBo_eq h
    rw [pinDummy_pinnedBo, hcur]
    exact .inr rfl

theorem releaseStale_pinnedBo {o : ReleaseEnds} {fence : Bool}
    (h : releaseStale K o fence d = .ok e) : e.pinnedBo = none ∨ e.pinnedBo = d.pinnedBo := by
  obtain rfl | h := releaseStale_ok h
  · exact .inr rfl
  · obtain rfl | ⟨queries, valid, rfl⟩ := vmwExecbufReleasePinnedBoLocked_ok h
    · exact .inr rfl
    · rw [unpinDummy_pinnedBo]
      exact .inl (dropPinnedBo_pinnedBo _)

theorem vmwExecbufProcess_pinnedBo {b : Batch σ} (h : vmwExecbufProcess K b d = .ok e) :
    e.pinnedBo = none ∨ e.pinnedBo = d.pinnedBo ∨ ∃ bo, b.names bo ∧ e.pinnedBo = some bo := by
  obtain rfl | ⟨fence, h⟩ | ⟨u, fence, hu, h⟩ := vmwExecbufProcess_ok h
  · exact .inr (.inl rfl)
  · exact (releaseStale_pinnedBo h).imp_right .inl
  · rcases releaseStale_pinnedBo h with h | h
    · exact .inl h
    · rw [h]
      refine (vmwQueryBoSwitchCommit_pinnedBo hu).imp_right fun hcur => ?_
      rw [hcur]
      exact verify_curQueryBo b d

/-- The query-ending commands name buffers of users; the dummy buffer has no handle. -/
def Act.ofUsers (K : Kernel σ) : Act σ → Prop
  | .execbufProcess b => ¬ b.names K.dummyQueryBo
  | _ => True

theorem perform_pinnedBo {a : Act σ} (ha : a.ofUsers K) (hd : d.pinnedBo ≠ some K.dummyQueryBo)
    (h : perform K d a = .ok e) : e.pinnedBo ≠ some K.dummyQueryBo := by
  have hlocked : ∀ {o fence}, vmwExecbufReleasePinnedBoLocked K o fence d = .ok e →
      e.pinnedBo ≠ some K.dummyQueryBo := by
    intro o fence h
    obtain rfl | ⟨queries, valid, rfl⟩ := vmwExecbufReleasePinnedBoLocked_ok h
    · exact hd
    · rw [unpinDummy_pinnedBo, dropPinnedBo_pinnedBo]
      exact Option.some_ne_none _ |>.symm
  cases a with
  | execbufProcess b =>
    rcases vmwExecbufProcess_pinnedBo h with h | h | ⟨bo, hbo, h⟩
    · simp [h]
    · rwa [h]
    · rw [h]
      rintro heq
      cases heq
      exact ha hbo
  | releasePinnedBoLocked o fence => exact hlocked h
  | releasePinnedBo o =>
    simp only [perform, vmwExecbufReleasePinnedBo] at h
    split_ifs at h
    · exact hlocked h
    · cases h
      exact hd
  | hwContextDestroy ctx gone o =>
    rcases releaseStale_pinnedBo h with h | h
    · simp [h]
    · rw [h]
      split_ifs <;> exact hd

variable {as : List (Act σ)}

theorem step_some {a : Act σ} (h : step K d a = some e) : perform K d a = .ok e := by
  unfold step at h
  cases hp : perform K d a with
  | error f => simp [hp, Except.toOption] at h
  | ok u =>
    rw [hp] at h
    rw [Option.some.inj h]

theorem runs_balanced (h : Runs (step K) anyLabel start as d) : Balanced K d :=
  h.invariant (Balanced K) start_balanced fun _ _ _ hd _ hs => perform_balanced hd (step_some hs)

theorem runs_pinnedBo {d₀ : QueryDev} (h : Runs (step K) anyLabel d₀ as d)
    (h₀ : d₀.pinnedBo ≠ some K.dummyQueryBo) (has : ∀ a ∈ as, a.ofUsers K) :
    d.pinnedBo ≠ some K.dummyQueryBo := by
  induction h with
  | refl _ => exact h₀
  | next ok hs _ ih =>
    refine ih (perform_pinnedBo (has _ (by simp)) h₀ (step_some hs)) fun a ha => ?_
    exact has a (List.mem_cons_of_mem _ ha)

/-- Between batches there is one pin and one reference for `pinned_bo` and one pin for the
    dummy buffer if the flag is set, and there are no others; every unpin has its pin. -/
theorem query_pins (h : Runs (step K) anyLabel start as d) :
    (∀ bo, d.pins.count (bo, true) = d.pins.count (bo, false) +
        ((if d.pinnedBo = some bo then 1 else 0) +
          if d.dummyQueryBoPinned = true ∧ bo = K.dummyQueryBo then 1 else 0)) ∧
    (∀ bo, d.refs.count (bo, true) = d.refs.count (bo, false) +
        if d.pinnedBo = some bo then 1 else 0) ∧
    ((∀ a ∈ as, a.ofUsers K) → d.pinnedBo ≠ some K.dummyQueryBo) ∧
    ∀ bo before after, d.pins = before ++ (bo, false) :: after →
      before.count (bo, false) < before.count (bo, true) := by
  have hd := runs_balanced h
  have hbo : ∀ bo, (boHeld d).count bo = if d.pinnedBo = some bo then 1 else 0 := by
    intro bo
    unfold boHeld
    cases d.pinnedBo with
    | none => simp
    | some x => simp [Multiset.count_singleton, eq_comm]
  have hdummy : ∀ bo, (dummyHeld K d).count bo =
      if d.dummyQueryBoPinned = true ∧ bo = K.dummyQueryBo then 1 else 0 := by
    intro bo
    unfold dummyHeld
    cases d.dummyQueryBoPinned <;> simp [Multiset.count_singleton]
  refine ⟨fun bo => ?_, fun bo => ?_, runs_pinnedBo h (by simp [start]), ?_⟩
  · rw [count_held bo hd.pins, Multiset.count_add, hbo, hdummy]
  · rw [count_held bo hd.refs, hbo]
  · intro bo before after hpins
    have := hd.pins
    rw [hpins] at this
    exact drop_matched this

section Sample
open ExecbufVerifier

def sampleEnds : ReleaseEnds := ⟨none, none, none, none⟩

/-- A batch that ends a query of context 1 on the buffer. -/
def sampleBatch (bo : ℕ) : Batch Bool where
  sw := { sampleContext [] true with resCache := fun _ => ⟨1, some 1, some 101, true, true⟩ }
  early := none
  checks := [.endQuery (some 1) bo]
  late := none
  fence := true
  release := sampleEnds

/-- The queries move from buffer 7 to buffer 8, which is pinned by the batch after the one with
    the barrier. -/
def sampleActs : List (Act Bool) :=
  [.execbufProcess (sampleBatch 7), .execbufProcess (sampleBatch 8), .execbufProcess (sampleBatch 8)]

def sampleEnd : QueryDev where
  pinnedBo := some 8
  dummyQueryBoPinned := true
  queryCtx := some 1
  pins := [(7, true), (60, true), (7, false), (8, true)]
  dummyQueries := [some 1]
  queryCidValid := true
  refs := [(7, true), (7, false), (8, true)]

theorem moved_pins :
    (∀ bo, sampleEnd.pins.count (bo, true) = sampleEnd.pins.count (bo, false) +
        ((if sampleEnd.pinnedBo = some bo then 1 else 0) +
          if sampleEnd.dummyQueryBoPinned = true ∧ bo = (sampleKernel true).dummyQueryBo then 1
          else 0)) ∧
    (∀ bo, sampleEnd.refs.count (bo, true) = sampleEnd.refs.count (bo, false) +
        if sampleEnd.pinnedBo = some bo then 1 else 0) ∧
    ((∀ a ∈ sampleActs, a.ofUsers (sampleKernel true)) →
      sampleEnd.pinnedBo ≠ some (sampleKernel true).dummyQueryBo) ∧
    ∀ bo before after, sampleEnd.pins = before ++ (bo, false) :: after →
      before.count (bo, false) < before.count (bo, true) :=
  query_pins (K := sampleKernel true) (runs_of_exec
    (by decide +kernel : exec (step (sampleKernel true)) start sampleActs = some sampleEnd))

end Sample

theorem releaseStale_isOk (o : ReleaseEnds) (fence : Bool) (d : QueryDev) :
    ∃ e, releaseStale K o fence d = .ok e := by
  unfold releaseStale
  split_ifs with h
  · unfold vmwExecbufReleasePinnedBoLocked
    rw [h.2]
    simp only [Bool.false_eq_true, if_false]
    split
    · exact ⟨_, rfl⟩
    · split_ifs
      · exact ⟨_, rfl⟩
      · exact ⟨_, rfl⟩
  · exact ⟨_, rfl⟩

theorem vmwQueryBoSwitchCommit_error {s : SwContext σ} {f : Fault}
    (h : vmwQueryBoSwitchCommit K s d = .error f) :
    f = .ctxEntry ∨ f = .lastQueryCtx ∨
      (f = .nullBo ∧ d.pinnedBo ≠ none ∧ s.curQueryBo = none) := by
  unfold vmwQueryBoSwitchCommit at h
  cases hpost : postQueryBarrier s d with
  | error g =>
    rw [hpost] at h
    cases h
    unfold postQueryBarrier at hpost
    split_ifs at hpost
    cases hpost
    exact .inl rfl
  | ok u =>
    obtain ⟨queries, rfl⟩ := postQueryBarrier_ok hpost
    rw [hpost] at h
    change (if d.pinnedBo = s.curQueryBo then _ else _) = _ at h
    split_ifs at h with heq hbarrier
    · cases h
    · cases h
    · unfold pinQueryBo at h
      cases hcur : s.curQueryBo with
      | none =>
        rw [hcur] at h heq
        cases h
        exact .inr (.inr ⟨rfl, heq, rfl⟩)
      | some bo =>
        rw [hcur] at h
        cases hctx : s.lastQueryCtx with
        | none =>
          simp only [hctx, Except.error.injEq] at h
          exact .inr (.inl h.symm)
        | some ctx => simp [hctx] at h

/-- The buffer that a batch pins is not NULL, and no release on its behalf comes with a fence
    while a query may be outstanding. -/
theorem vmwExecbufProcess_fault {b : Batch σ} {f : Fault}
    (h : vmwExecbufProcess K b d = .error f) : f ≠ .nullBo ∧ f ≠ .fence := by
  have hstale : ∀ fence u, releaseStale K b.release fence u ≠ .error f := by
    intro fence u hu
    obtain ⟨e, he⟩ := releaseStale_isOk (K := K) b.release fence u
    rw [he] at hu
    cases hu
  unfold vmwExecbufProcess at h
  by_cases hearly : b.early.isSome
  · rw [if_pos hearly] at h
    cases h
  · rw [if_neg hearly] at h
    split at h
    · exact absurd h (hstale _ _)
    · cases h
      simp
    · rename_i s hs
      split_ifs at h with hlate
      · exact absurd h (hstale _ _)
      · cases hcommit : vmwQueryBoSwitchCommit K s d with
        | ok u =>
          rw [hcommit] at h
          exact absurd h (hstale _ _)
        | error g =>
          rw [hcommit] at h
          cases h
          obtain rfl | rfl | ⟨-, hpinned, hcur⟩ := vmwQueryBoSwitchCommit_error hcommit
          · simp
          · simp
          · have := verify_curQueryBo (K := K) b d
            rw [hs] at this
            obtain h | ⟨bo, -, hbo⟩ := this
            · exact absurd (h.symm.trans hcur) hpinned
            · simp [hcur] at hbo

theorem dropPinnedBo_toQueryPins (d : QueryDev) :
    (dropPinnedBo d).toQueryPins = d.toQueryPins.unpinned := by
  unfold dropPinnedBo QueryPins.unpinned
  cases hd : d.pinnedBo with
  | none =>
    simp only [Option.toList_none, List.map_nil, List.append_nil]
    rw [← hd]
  | some bo => rfl

theorem pinQueryBo_toQueryPins {s : SwContext σ} (h : pinQueryBo K s d = .ok e) :
    ∃ ctx, s.lastQueryCtx = some ctx ∧
      e.toQueryPins = d.toQueryPins.pinned K.dummyQueryBo s.curQueryBo ctx := by
  obtain ⟨bo, ctx, hcur, hctx, rfl⟩ := pinQueryBo_eq h
  refine ⟨ctx, hctx, ?_⟩
  rw [hcur]
  unfold pinDummy QueryPins.pinned
  cases hd : d.dummyQueryBoPinned <;> simp [vmwBoPinReserved, hd]

theorem vmwQueryBoSwitchCommit_toQueryPins {s : SwContext σ}
    (h : vmwQueryBoSwitchCommit K s d = .ok e) :
    ExecbufState.vmwQueryBoSwitchCommit K s d.toQueryPins = .ok e.toQueryPins := by
  have hend : ∀ u : QueryDev, (if u.pinnedBo = s.curQueryBo then pure u
        else if s.needsPostQueryBarrier then pure (dropPinnedBo u)
        else pinQueryBo K s (dropPinnedBo u)) = Except.ok e →
      (if u.toQueryPins.pinnedBo = s.curQueryBo then pure u.toQueryPins
        else if s.needsPostQueryBarrier then pure u.toQueryPins.unpinned
        else match s.lastQueryCtx with
          | some ctx => pure (u.toQueryPins.unpinned.pinned K.dummyQueryBo s.curQueryBo ctx)
          | none => throw .lastQueryCtx : Except CommitBug QueryPins) = .ok e.toQueryPins := by
    intro u hu
    split_ifs at hu ⊢
    · cases hu
      rfl
    · cases hu
      rw [dropPinnedBo_toQueryPins]
      rfl
    · obtain ⟨ctx, hctx, he⟩ := pinQueryBo_toQueryPins hu
      rw [hctx, he, dropPinnedBo_toQueryPins]
      rfl
  unfold vmwQueryBoSwitchCommit postQueryBarrier at h
  unfold ExecbufState.vmwQueryBoSwitchCommit
  by_cases hneeds : s.needsPostQueryBarrier
  · by_cases hvalid : (s.resCache .context).valid
    · rw [if_pos hneeds, if_pos hvalid] at h ⊢
      exact hend _ h
    · rw [if_pos hneeds, if_neg hvalid] at h
      cases h
  · rw [if_neg hneeds] at h ⊢
    exact hend _ h

end Vmwgfx.ExecbufQuery
