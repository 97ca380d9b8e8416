import Vmwgfx.BindingLists
import Vmwgfx.ExecbufState
import Vmwgfx.HashTable

set_option autoImplicit false

/-!
# Staged bindings from batch to batch

`staged_bindings` of the submission context is shared by all batches: it goes to the first
context of a batch, is emptied when the next batch begins, and what is staged there is
committed only at the end of a batch. Other contexts of a batch have staged states of
their own. Freed states keep what was in them until they are allocated again.
-/
namespace Vmwgfx.ExecbufBindings
open FailingState BindingSlots BindingMachine BindingLists HashTable LabelledRuns
open ExecbufState (Errno)

/-- `struct vmw_ctx_validation_info`; `cur` is the state of the context. -/
structure Node where
  ctx : ℕ
  staged : ℕ
  deriving DecidableEq, Repr

/-- The part of `struct vmw_sw_context` that concerns bindings. -/
structure SwContext where
  mgr : Manager
  stagedBindings : Option ℕ
  stagedBindingsInuse : Bool
  ctxList : List Node

def start : SwContext := ⟨emptyManager, none, false, []⟩

variable (A : Allocator) (hasMob : Bool)

def SwContext.used (s : SwContext) : List ℕ :=
  s.stagedBindings.toList ++ s.ctxList.map Node.staged

def SwContext.alloc (s : SwContext) : SwContext :=
  { s with mgr := s.mgr.setCbs (.staged (A.alloc s.used)) emptyCbs }

def vmwBindingStateAlloc (ends : Option Errno) : Run SwContext Errno ℕ := fun s =>
  match ends with
  | some e => (.error e, s)
  | none => (.ok (A.alloc s.used), s.alloc A)

def failIf : Option Errno → Run SwContext Errno Unit
  | some e => stop e
  | none => pure ()

structure SetupEnds where
  contextResAdd : Option Errno
  sharedAlloc : Option Errno
  ownAlloc : Option Errno
  deriving DecidableEq, Repr

def sharedStaged (o : SetupEnds) : Run SwContext Errno ℕ := do
  match ← inspect fun s => s.stagedBindings with
  | some i => pure i
  | none => do
    let i ← vmwBindingStateAlloc A o.sharedAlloc
    update fun s => { s with stagedBindings := some i }
    pure i

def nodeStaged (o : SetupEnds) (shared : ℕ) : Run SwContext Errno ℕ := do
  if ← inspect fun s => s.stagedBindingsInuse then
    vmwBindingStateAlloc A o.ownAlloc
  else do
    update fun s => { s with stagedBindingsInuse := true }
    pure shared

def vmwCmdCtxFirstSetup (ctx : ℕ) (o : SetupEnds) : Run SwContext Errno Unit := do
  failIf o.contextResAdd
  let shared ← sharedStaged A o
  let staged ← nodeStaged A o shared
  update fun s => { s with ctxList := s.ctxList ++ [⟨ctx, staged⟩] }

def SwContext.node (s : SwContext) (ctx : ℕ) : Option Node :=
  s.ctxList.find? fun n => n.ctx = ctx

/-- What the verification of a batch does with bindings: it uses a context, with the setup at
    the first use, or it binds a resource to a slot of one. -/
inductive CheckStep where
  | useContext (ctx : ℕ) (o : SetupEnds)
  | bindingAdd (l : Loc) (bi : BindInfo)

def CheckStep.run : CheckStep → Run SwContext Errno Unit
  | .useContext ctx o => do
    match ← inspect fun s => s.node ctx with
    | some _ => pure ()
    | none => vmwCmdCtxFirstSetup A ctx o
  | .bindingAdd l bi => do
    match ← inspect fun s => s.node bi.ctx with
    | some n => update fun s => { s with mgr := vmwBindingAdd (.staged n.staged, l) bi s.mgr }
    | none => stop .einval

inductive Eviction where
  | context (ctx : ℕ)
  | resource (res : ℕ)

def Eviction.run (s : Manager) : Eviction → Manager
  | .context c => vmwBindingStateScrub (.persistent c) s
  | .resource r => vmwBindingResListScrub r s

/-- `vmw_binding_rebind_all` with its return code. -/
def rebindAll (i : StateId) (s : Manager) : Bool × Manager :=
  let r := rebindEntries (s.entries i) s
  if r.1 then vmwBindingEmitDirty i r.2 else r

/-- The list has the results of `vmw_rebind_all_dx_query`. -/
def vmwRebindContexts : List Node → List (Option Errno) → Manager → Option Errno × Manager
  | [], _, s => (none, s)
  | n :: ns, queries, s =>
    let r := rebindAll (.persistent n.ctx) s
    if r.1 then
      match queries.headD none with
      | some e => (some e, r.2)
      | none => vmwRebindContexts ns queries.tail r.2
    else (some .enomem, r.2)

def rebind (queries : List (Option Errno)) : Run SwContext Errno Unit := fun s =>
  if hasMob then
    let r := vmwRebindContexts s.ctxList queries s.mgr
    match r.1 with
    | some e => (.error e, { s with mgr := r.2 })
    | none => (.ok (), { s with mgr := r.2 })
  else (.ok (), s)

def commitEntry (backoff : Bool) (s : SwContext) (n : Node) : SwContext :=
  { s with
    mgr := if backoff then s.mgr else vmwBindingStateCommit n.ctx n.staged s.mgr
    stagedBindingsInuse :=
      if s.stagedBindings = some n.staged then false else s.stagedBindingsInuse }

def vmwExecbufBindingsCommit (backoff : Bool) (s : SwContext) : SwContext :=
  { s.ctxList.foldl (commitEntry backoff) s with ctxList := [] }

/-- A batch, with the ends of its steps and of the reservations of FIFO space. -/
structure Batch where
  /-- A step before the verification. -/
  early : Option Errno
  htCreate : Option Errno
  checks : List CheckStep
  /-- Another command, or a later step up to the taking of `binding_mutex`. -/
  late : Option Errno
  evictions : List Eviction
  now : List Bool
  later : List Bool
  queries : List (Option Errno)
  submit : Option Errno

/-- What follows the check of the commands, up to the submission. -/
def Batch.afterChecks (b : Batch) : Run SwContext Errno Unit := do
  update fun s =>
    { s with mgr := b.evictions.foldl Eviction.run { s.mgr with now := b.now, later := b.later } }
  failIf b.late
  rebind hasMob b.queries
  failIf b.submit

def Batch.verify (b : Batch) : Run SwContext Errno Unit := do
  forEach (CheckStep.run A) b.checks
  b.afterChecks hasMob

def SwContext.begin (s : SwContext) : SwContext :=
  { s with
    ctxList := []
    mgr := match s.stagedBindings with
      | some i => vmwBindingStateReset (.staged i) s.mgr
      | none => s.mgr }

def vmwExecbufProcess (b : Batch) : Run SwContext Errno Unit := fun s =>
  match b.early, b.htCreate with
  | some e, _ => (.error e, s)
  | none, some e => (.error e, s.begin)
  | none, none =>
    match b.verify A hasMob s.begin with
    | (.ok (), t) => (.ok (), vmwExecbufBindingsCommit false t)
    | (.error e, t) => (.error e, vmwExecbufBindingsCommit true t)

structure Entry where
  res : ℕ
  bt : BindingType
  data : List ℕ
  deriving DecidableEq, Repr

abbrev Bound := ℕ → Loc → Option Entry

/-- A live slot takes the place of what was there before, also when it has no resource. -/
def onTop (x : Slot) (old : Option Entry) : Option Entry :=
  if x.ctx.isSome then x.res.map fun r => ⟨r, x.bt, x.data⟩ else old

def bound (s : Manager) : Bound := fun c l => onTop (s.slot (.persistent c, l)) none

def bindOne (m : Bound) (b : Loc × BindInfo) : Bound := fun c l =>
  if c = b.2.ctx ∧ l = b.1 then b.2.res.map fun r => ⟨r, b.2.bt, b.2.data⟩ else m c l

/-- All bindings of a list, the later ones over the earlier ones. -/
def commits (log : List (Loc × BindInfo)) (m : Bound) : Bound := log.foldl bindOne m

def CheckStep.binds : CheckStep → List (Loc × BindInfo)
  | .useContext _ _ => []
  | .bindingAdd l bi => [(l, bi)]

def Batch.binds (b : Batch) : List (Loc × BindInfo) := b.checks.flatMap CheckStep.binds

variable {A hasMob} {s t : SwContext} {m : Bound} {log : List (Loc × BindInfo)} {v : Manager}

@[simp] theorem onTop_scrubbed (x : Slot) (w : Bool) (old : Option Entry) :
    onTop { x with scrubbed := w } old = onTop x old := rfl

theorem commits_concat (b : Loc × BindInfo) : commits (log ++ [b]) m = bindOne (commits log m) b := by
  simp [commits]

/-- During a batch: the persistent bindings are the old ones, and each context that is in use
    has in its staged state what the batch has bound so far. -/
structure Staging (m : Bound) (log : List (Loc × BindInfo)) (s : SwContext) : Prop where
  lists : ListsOk s.mgr
  kept : bound s.mgr = m
  ctxs : (s.ctxList.map Node.ctx).Nodup
  stageds : (s.ctxList.map Node.staged).Nodup
  inuse : s.stagedBindingsInuse = true ↔ ∃ n ∈ s.ctxList, s.stagedBindings = some n.staged
  unused : s.stagedBindingsInuse = false → ∀ i, s.stagedBindings = some i → ∀ l,
    (s.mgr.slot (.staged i, l)).ctx = none
  staged : ∀ n ∈ s.ctxList, ∀ l,
    commits log m n.ctx l = onTop (s.mgr.slot (.staged n.staged, l)) (m n.ctx l)
  others : ∀ c, (∀ n ∈ s.ctxList, n.ctx ≠ c) → ∀ l, commits log m c l = m c l

theorem mem_used_node {n : Node} (h : n ∈ s.ctxList) : n.staged ∈ s.used :=
  List.mem_append_right _ (List.mem_map_of_mem h)

theorem mem_used_shared {i : ℕ} (h : s.stagedBindings = some i) : i ∈ s.used := by
  simp [SwContext.used, h]

theorem Staging.frame (h : Staging m log s) (hlists : ListsOk v) (hbound : bound v = bound s.mgr)
    (hstaged : ∀ i ∈ s.used, ∀ l, ∃ w,
      v.slot (.staged i, l) = { s.mgr.slot (.staged i, l) with scrubbed := w }) :
    Staging m log { s with mgr := v } where
  lists := hlists
  kept := hbound.trans h.kept
  ctxs := h.ctxs
  stageds := h.stageds
  inuse := h.inuse
  unused hin i hi l := by
    obtain ⟨w, hw⟩ := hstaged i (mem_used_shared hi) l
    change (v.slot (.staged i, l)).ctx = none
    rw [hw]
    exact h.unused hin i hi l
  staged n hn l := by
    obtain ⟨w, hw⟩ := hstaged n.staged (mem_used_node hn) l
    change _ = onTop (v.slot (.staged n.staged, l)) _
    rw [hw, onTop_scrubbed]
    exact h.staged n hn l
  others := h.others

theorem Staging.sameTracks (h : Staging m log s) (hv : SameTracks s.mgr v) :
    Staging m log { s with mgr := v } := by
  refine h.frame (hv.listsOk h.lists) ?_ fun i _ l => hv.slot _
  funext c l
  obtain ⟨w, hw⟩ := hv.slot (.persistent c, l)
  unfold bound
  rw [hw, onTop_scrubbed]

theorem slot_setCbs_of_ne {i : StateId} {b : Cbs} {q : SlotRef} (h : q.1 ≠ i) :
    (v.setCbs i b).slot q = v.slot q := by
  unfold Manager.slot
  rw [cbs_setCbs_of_ne h]

theorem slot_setCbs_empty (i : StateId) (l : Loc) :
    (v.setCbs i emptyCbs).slot (i, l) = emptySlot := by
  unfold Manager.slot
  rw [cbs_setCbs_self]
  rfl

theorem listsOk_alloc (h : ListsOk v) (i : ℕ) : ListsOk (v.setCbs (.staged i) emptyCbs) where
  live j l := by
    by_cases hj : j = .staged i
    · subst hj
      rw [slot_setCbs_empty, cbs_setCbs_self]
      simp [emptySlot, emptyCbs]
    · rw [slot_setCbs_of_ne hj, cbs_setCbs_of_ne hj]
      exact h.live j l
  nodup j := by
    by_cases hj : j = .staged i
    · rw [hj, cbs_setCbs_self]
      exact List.nodup_nil
    · rw [cbs_setCbs_of_ne hj]
      exact h.nodup j
  bound c l hl := by
    rw [slot_setCbs_of_ne (by simp)] at hl ⊢
    exact h.bound c l hl
  unlinked j l hl := by
    by_cases hj : StateId.staged j = .staged i
    · rw [hj, slot_setCbs_empty] at hl
      cases hl
    · rw [slot_setCbs_of_ne hj] at hl ⊢
      exact h.unlinked j l hl
  heads r q hq := by
    obtain ⟨c, hc⟩ := (h.heads r q hq).1
    rw [slot_setCbs_of_ne (by rw [hc]; simp)]
    exact h.heads r q hq
  headsNodup := h.headsNodup
  safe := h.safe

theorem Staging.alloc (h : Staging m log s) : Staging m log (s.alloc A) := by
  refine h.frame (listsOk_alloc h.lists _) ?_ fun i hi l => ?_
  · funext c l
    unfold bound
    rw [slot_setCbs_of_ne (by simp)]
  · have hne : i ≠ A.alloc s.used := by
      rintro rfl
      exact A.fresh _ hi
    rw [slot_setCbs_of_ne (by simpa using hne)]
    exact ⟨_, rfl⟩

theorem alloc_dead (s : SwContext) (l : Loc) :
    ((s.alloc A).mgr.slot (.staged (A.alloc s.used), l)).ctx = none := by
  change ((s.mgr.setCbs _ emptyCbs).slot _).ctx = none
  rw [slot_setCbs_empty]
  rfl

theorem node_some {c : ℕ} {n : Node} (h : s.node c = some n) : n ∈ s.ctxList ∧ n.ctx = c :=
  ⟨List.mem_of_find?_eq_some h, by simpa using List.find?_some h⟩

theorem node_none {c : ℕ} (h : s.node c = none) : ∀ n ∈ s.ctxList, n.ctx ≠ c := by
  intro n hn
  simpa using List.find?_eq_none.1 h n hn

theorem Staging.addNode (h : Staging m log s) {c i : ℕ} (hc : ∀ n ∈ s.ctxList, n.ctx ≠ c)
    (hi : ∀ n ∈ s.ctxList, n.staged ≠ i) (hdead : ∀ l, (s.mgr.slot (.staged i, l)).ctx = none)
    {inuse : Bool} (hold : s.stagedBindingsInuse = true → inuse = true)
    (hinuse : inuse = true ↔ s.stagedBindingsInuse = true ∨ s.stagedBindings = some i) :
    Staging m log
      { s with stagedBindingsInuse := inuse, ctxList := s.ctxList ++ [⟨c, i⟩] } where
  lists := h.lists
  kept := h.kept
  ctxs := by
    rw [List.map_append, List.nodup_append]
    refine ⟨h.ctxs, List.nodup_singleton _, fun a ha b hb => ?_⟩
    obtain ⟨n, hn, rfl⟩ := List.mem_map.1 ha
    obtain rfl := List.mem_singleton.1 hb
    exact hc n hn
  stageds := by
    rw [List.map_append, List.nodup_append]
    refine ⟨h.stageds, List.nodup_singleton _, fun a ha b hb => ?_⟩
    obtain ⟨n, hn, rfl⟩ := List.mem_map.1 ha
    obtain rfl := List.mem_singleton.1 hb
    exact hi n hn
  inuse := by
    rw [hinuse, h.inuse]
    simp only [List.mem_append, List.mem_singleton]
    constructor
    · rintro (⟨n, hn, hs⟩ | hs)
      · exact ⟨n, .inl hn, hs⟩
      · exact ⟨_, .inr rfl, hs⟩
    · rintro ⟨n, hn | rfl, hs⟩
      · exact .inl ⟨n, hn, hs⟩
      · exact .inr hs
  unused hin := by
    refine h.unused ?_
    cases hs : s.stagedBindingsInuse
    · rfl
    · rw [hold hs] at hin
      cases hin
  staged n hn l := by
    rcases List.mem_append.1 hn with hn | hn
    · exact h.staged n hn l
    · obtain rfl := List.mem_singleton.1 hn
      unfold onTop
      rw [hdead]
      exact h.others c hc l
  others c' hc' := h.others c' fun n hn => hc' n (List.mem_append_left _ hn)

theorem bound_vmwBindingAdd {i : ℕ} {l : Loc} {bi : BindInfo} :
    bound (vmwBindingAdd (.staged i, l) bi v) = bound v := by
  funext c k
  unfold bound vmwBindingAdd
  rw [slot_setSlot, if_neg (by simp), slot_ctxListAdd, slot_dropLive (by simp)]

theorem staged_vmwBindingAdd {i j : ℕ} {l k : Loc} {bi : BindInfo} :
    (vmwBindingAdd (.staged i, l) bi v).slot (.staged j, k) =
      if j = i ∧ k = l then ⟨some bi.ctx, bi.res, bi.bt, false, bi.data, .self⟩
      else v.slot (.staged j, k) := by
  unfold vmwBindingAdd
  rw [slot_setSlot, slot_ctxListAdd]
  by_cases h : j = i ∧ k = l
  · obtain ⟨rfl, rfl⟩ := h
    rw [if_pos rfl, if_pos ⟨rfl, rfl⟩]
  · have hne : ((StateId.staged j, k) : SlotRef) ≠ (.staged i, l) := by
      rintro ⟨⟩
      exact h ⟨rfl, rfl⟩
    rw [if_neg hne, if_neg h, slot_dropLive hne]

theorem Staging.add (h : Staging m log s) {n : Node} {l : Loc} {bi : BindInfo} (hn : n ∈ s.ctxList)
    (hctx : n.ctx = bi.ctx) : Staging m (log ++ [(l, bi)])
      { s with mgr := vmwBindingAdd (.staged n.staged, l) bi s.mgr } where
  lists := h.lists.add bi
  kept := bound_vmwBindingAdd.trans h.kept
  ctxs := h.ctxs
  stageds := h.stageds
  inuse := h.inuse
  unused hin i hi k := by
    have hne : i ≠ n.staged := by
      rintro rfl
      have := h.inuse.2 ⟨n, hn, hi⟩
      rw [hin] at this
      cases this
    change ((vmwBindingAdd _ bi s.mgr).slot _).ctx = none
    rw [staged_vmwBindingAdd, if_neg fun he => hne he.1]
    exact h.unused hin i hi k
  staged n' hn' k := by
    change _ = onTop ((vmwBindingAdd _ bi s.mgr).slot _) _
    rw [commits_concat, staged_vmwBindingAdd]
    unfold bindOne
    rw [← hctx]
    by_cases heq : n' = n
    · subst heq
      simp only [true_and]
      split_ifs
      · rfl
      · exact h.staged n' hn' k
    · have hctxs : n'.ctx ≠ n.ctx := fun he =>
        heq (List.inj_on_of_nodup_map h.ctxs hn' hn he)
      have hstageds : n'.staged ≠ n.staged := fun he =>
        heq (List.inj_on_of_nodup_map h.stageds hn' hn he)
      rw [if_neg fun he => hctxs he.1, if_neg fun he => hstageds he.1]
      exact h.staged n' hn' k
  others c hc k := by
    rw [commits_concat]
    unfold bindOne
    rw [if_neg fun he => hc n hn (hctx.trans he.1.symm)]
    exact h.others c hc k

theorem sharedStaged_staging (h : Staging m log s) (o : SetupEnds) :
    Staging m log (sharedStaged A o s).2 ∧ (sharedStaged A o s).2.ctxList = s.ctxList ∧
      ∀ i, (sharedStaged A o s).1 = .ok i →
        (sharedStaged A o s).2.stagedBindings = some i := by
  cases hs : s.stagedBindings with
  | some i =>
    have hrun : sharedStaged A o s = (.ok i, s) := by
      simp [sharedStaged, bind, Run.andThen, inspect, hs, pure, Run.result]
    rw [hrun]
    refine ⟨h, rfl, fun j hj => ?_⟩
    cases hj
    exact hs
  | none =>
    cases ho : o.sharedAlloc with
    | some e =>
      have hrun : sharedStaged A o s = (.error e, s) := by
        simp [sharedStaged, bind, Run.andThen, inspect, hs, vmwBindingStateAlloc, ho]
      rw [hrun]
      exact ⟨h, rfl, fun j hj => by cases hj⟩
    | none =>
      have hrun : sharedStaged A o s = (.ok (A.alloc s.used),
          { s.alloc A with stagedBindings := some (A.alloc s.used) }) := by
        simp [sharedStaged, bind, Run.andThen, inspect, hs, vmwBindingStateAlloc, ho, update,
          pure, Run.result]
      rw [hrun]
      have ha := h.alloc (A := A)
      have hidle : s.stagedBindingsInuse = false := by
        cases hin : s.stagedBindingsInuse
        · rfl
        · obtain ⟨n, -, hn⟩ := h.inuse.1 hin
          rw [hs] at hn
          cases hn
      refine ⟨⟨ha.lists, ha.kept, ha.ctxs, ha.stageds, ⟨fun hin => ?_, ?_⟩, ?_, ha.staged,
        ha.others⟩, rfl, fun j hj => ?_⟩
      · change s.stagedBindingsInuse = true at hin
        rw [hidle] at hin
        cases hin
      · rintro ⟨n, hn, he⟩
        have := A.fresh s.used
        rw [Option.some.inj he] at this
        exact absurd (mem_used_node (s := s) hn) this
      · intro _ i hi l
        cases hi
        exact alloc_dead s l
      · cases hj
        rfl

theorem vmwCmdCtxFirstSetup_staging (h : Staging m log s) {c : ℕ} (hc : s.node c = none)
    (o : SetupEnds) : Staging m log (vmwCmdCtxFirstSetup A c o s).2 := by
  cases hadd : o.contextResAdd with
  | some e =>
    have hrun : vmwCmdCtxFirstSetup A c o s = (.error e, s) := by
      simp [vmwCmdCtxFirstSetup, bind, Run.andThen, failIf, hadd, stop]
    rw [hrun]
    exact h
  | none =>
    obtain ⟨hshared, hlist, hsome⟩ := sharedStaged_staging (A := A) h o
    have hnone : ∀ n ∈ (sharedStaged A o s).2.ctxList, n.ctx ≠ c := by
      rw [hlist]
      exact node_none hc
    rcases hr : sharedStaged A o s with ⟨r, t⟩
    rw [hr] at hshared hsome hnone
    cases r with
    | error e =>
      have hrun : vmwCmdCtxFirstSetup A c o s = (.error e, t) := by
        simp [vmwCmdCtxFirstSetup, bind, Run.andThen, failIf, hadd, pure, Run.result, hr]
      rw [hrun]
      exact hshared
    | ok i =>
      have hi := hsome i rfl
      cases hin : t.stagedBindingsInuse with
      | false =>
        have hrun : vmwCmdCtxFirstSetup A c o s = (.ok (),
            { t with stagedBindingsInuse := true, ctxList := t.ctxList ++ [⟨c, i⟩] }) := by
          simp [vmwCmdCtxFirstSetup, bind, Run.andThen, failIf, hadd, pure, Run.result, hr,
            nodeStaged, inspect, hin, update]
        rw [hrun]
        refine hshared.addNode hnone (fun n hn he => ?_) (hshared.unused hin i hi) (fun _ => rfl)
          ⟨fun _ => .inr hi, fun _ => rfl⟩
        have := hshared.inuse.2 ⟨n, hn, by rw [he, hi]⟩
        rw [hin] at this
        cases this
      | true =>
        cases hown : o.ownAlloc with
        | some e =>
          have hrun : vmwCmdCtxFirstSetup A c o s = (.error e, t) := by
            simp [vmwCmdCtxFirstSetup, bind, Run.andThen, failIf, hadd, pure, Run.result, hr,
              nodeStaged, inspect, hin, vmwBindingStateAlloc, hown]
          rw [hrun]
          exact hshared
        | none =>
          have hrun : vmwCmdCtxFirstSetup A c o s = (.ok (),
              { t.alloc A with
                stagedBindingsInuse := true
                ctxList := t.ctxList ++ [⟨c, A.alloc t.used⟩] }) := by
            simp [vmwCmdCtxFirstSetup, bind, Run.andThen, failIf, hadd, pure, Run.result, hr,
              nodeStaged, inspect, hin, vmwBindingStateAlloc, hown, update, SwContext.alloc]
          rw [hrun]
          refine (hshared.alloc (A := A)).addNode hnone (fun n hn he => ?_) (alloc_dead t)
            (fun _ => rfl) ?_
          · exact A.fresh t.used (he ▸ mem_used_node hn)
          · refine ⟨fun _ => .inl hin, fun _ => rfl⟩

theorem CheckStep.run_staging (h : Staging m log s) (x : CheckStep) :
    (∃ log', Staging m log' (x.run A s).2) ∧
      ((x.run A s).1 = .ok () → Staging m (log ++ x.binds) (x.run A s).2) := by
  cases x with
  | useContext c o =>
    have hstage : Staging m log ((CheckStep.useContext c o).run A s).2 := by
      cases hc : s.node c with
      | some n => simpa [CheckStep.run, bind, Run.andThen, inspect, hc, pure, Run.result] using h
      | none =>
        simpa [CheckStep.run, bind, Run.andThen, inspect, hc] using
          vmwCmdCtxFirstSetup_staging (A := A) h hc o
    exact ⟨⟨log, hstage⟩, fun _ => by simpa [CheckStep.binds] using hstage⟩
  | bindingAdd l bi =>
    cases hc : s.node bi.ctx with
    | none =>
      have hrun : (CheckStep.bindingAdd l bi).run A s = (.error .einval, s) := by
        simp [CheckStep.run, bind, Run.andThen, inspect, hc, stop]
      rw [hrun]
      exact ⟨⟨log, h⟩, fun hf => by cases hf⟩
    | some n =>
      have hrun : (CheckStep.bindingAdd l bi).run A s =
          (.ok (), { s with mgr := vmwBindingAdd (.staged n.staged, l) bi s.mgr }) := by
        simp [CheckStep.run, bind, Run.andThen, inspect, hc, update]
      rw [hrun]
      have hadd := h.add (node_some hc).1 (node_some hc).2 (l := l)
      exact ⟨⟨_, hadd⟩, fun _ => hadd⟩

theorem forEach_staging (h : Staging m log s) (xs : List CheckStep) :
    (∃ log', Staging m log' (forEach (CheckStep.run A) xs s).2) ∧
      ((forEach (CheckStep.run A) xs s).1 = .ok () →
        Staging m (log ++ xs.flatMap CheckStep.binds) (forEach (CheckStep.run A) xs s).2) := by
  induction xs generalizing s log with
  | nil =>
    refine ⟨⟨log, h⟩, fun _ => ?_⟩
    rw [List.flatMap_nil, List.append_nil]
    exact h
  | cons x xs ih =>
    obtain ⟨hany, hok⟩ := x.run_staging (A := A) h
    rcases hr : x.run A s with ⟨r, t⟩
    rw [hr] at hany hok
    cases r with
    | error e =>
      have hrun : forEach (CheckStep.run A) (x :: xs) s = (.error e, t) := by
        simp [forEach, bind, Run.andThen, hr]
      rw [hrun]
      exact ⟨hany, fun hf => by cases hf⟩
    | ok u =>
      have hrun : forEach (CheckStep.run A) (x :: xs) s = forEach (CheckStep.run A) xs t := by
        simp [forEach, bind, Run.andThen, hr]
      rw [hrun, List.flatMap_cons, ← List.append_assoc]
      exact ih (hok rfl)

/-- What follows the verification leaves alone what is bound and what is staged. -/
def Stays (s t : SwContext) : Prop := ∀ m log, Staging m log s → Staging m log t

instance : Std.Refl Stays := ⟨fun _ _ _ h => h⟩

instance : IsTrans SwContext Stays := ⟨fun _ _ _ h h' m log hs => h' m log (h m log hs)⟩

theorem evictions_sameTracks (es : List Eviction) (v : Manager) :
    SameTracks v (es.foldl Eviction.run v) := by
  induction es generalizing v with
  | nil => exact (Kept.refl v).sameTracks
  | cons e es ih =>
    refine SameTracks.trans ?_ (ih _)
    cases e with
    | context c => exact vmwBindingStateScrub_sameTracks _ v
    | resource r => exact vmwBindingResListScrub_sameTracks r v

theorem rebindAll_snd (i : StateId) (v : Manager) : (rebindAll i v).2 = vmwBindingRebindAll i v := by
  unfold rebindAll vmwBindingRebindAll
  dsimp only
  split_ifs <;> rfl

theorem vmwRebindContexts_sameTracks (ns : List Node) (queries : List (Option Errno))
    (v : Manager) : SameTracks v (vmwRebindContexts ns queries v).2 := by
  induction ns generalizing queries v with
  | nil => exact (Kept.refl v).sameTracks
  | cons n ns ih =>
    have hn : SameTracks v (rebindAll (.persistent n.ctx) v).2 := by
      rw [rebindAll_snd]
      exact vmwBindingRebindAll_sameTracks _ v
    unfold vmwRebindContexts
    dsimp only
    split_ifs
    · split
      · exact hn
      · exact hn.trans (ih _ _)
    · exact hn

theorem failIf_stays (e : Option Errno) : Keeps Stays (fun _ => True) (failIf e) := by
  cases e with
  | none => exact keeps_pure ()
  | some e => exact keeps_stop trivial

theorem rebind_stays (queries : List (Option Errno)) :
    Keeps Stays (fun _ => True) (rebind hasMob queries) := by
  intro s
  have htracks := vmwRebindContexts_sameTracks s.ctxList queries s.mgr
  refine ⟨fun m log h => ?_, fun _ _ => trivial⟩
  unfold rebind
  split_ifs
  · dsimp only
    split <;> exact h.sameTracks htracks
  · exact h

variable (hasMob) in
theorem afterChecks_stays (b : Batch) : Keeps Stays (fun _ => True) (b.afterChecks hasMob) := by
  refine (keeps_update fun s m log hs => ?_).bind fun _ => ?_
  · refine hs.sameTracks (SameTracks.trans ?_ (evictions_sameTracks _ _))
    exact ⟨fun p => ⟨_, rfl⟩, fun _ => rfl, rfl, rfl, rfl⟩
  · refine (failIf_stays _).bind fun _ => ?_
    exact (rebind_stays _).bind fun _ => failIf_stays _

variable (A hasMob) in
theorem verify_staging (h : Staging m [] s) (b : Batch) :
    (∃ log, Staging m log (b.verify A hasMob s).2) ∧
      ((b.verify A hasMob s).1 = .ok () → Staging m b.binds (b.verify A hasMob s).2) := by
  obtain ⟨⟨log, hany⟩, hok⟩ := forEach_staging (A := A) h b.checks
  rcases hr : forEach (CheckStep.run A) b.checks s with ⟨r, t⟩
  rw [hr] at hany hok
  cases r with
  | error e =>
    have hrun : b.verify A hasMob s = (.error e, t) := by
      simp only [Batch.verify, bind, Run.andThen, hr]
    rw [hrun]
    exact ⟨⟨log, hany⟩, fun hf => by cases hf⟩
  | ok u =>
    have hrun : b.verify A hasMob s = b.afterChecks hasMob t := by
      simp only [Batch.verify, bind, Run.andThen, hr]
    rw [hrun]
    have hstate := (afterChecks_stays hasMob b t).state m b.binds (hok rfl)
    exact ⟨⟨b.binds, hstate⟩, fun _ => hstate⟩

/-- Between batches the shared state belongs to no context. -/
structure Idle (s : SwContext) : Prop where
  lists : ListsOk s.mgr
  inuse : s.stagedBindingsInuse = false

theorem bound_reset {i : ℕ} : bound (vmwBindingStateReset (.staged i) v) = bound v := by
  funext c l
  unfold bound vmwBindingStateReset
  rw [slot_dropAll_of_notMem]
  intro hmem
  obtain ⟨k, -, hk⟩ := List.mem_map.1 hmem
  cases hk

theorem dead_reset (h : ListsOk v) (i : StateId) (l : Loc) :
    ((vmwBindingStateReset i v).slot (i, l)).ctx = none := by
  unfold vmwBindingStateReset
  by_cases hmem : ((i, l) : SlotRef) ∈ v.entries i
  · exact slot_dropAll_of_mem hmem
  · rw [slot_dropAll_of_notMem hmem]
    by_contra hlive
    refine hmem (List.mem_map.2 ⟨l, (h.live i l).1 ?_, rfl⟩)
    exact Option.isSome_iff_ne_none.2 hlive

theorem Idle.begin (h : Idle s) : Staging (bound s.mgr) [] s.begin where
  lists := by
    unfold SwContext.begin
    dsimp only
    split
    · exact h.lists.reset
    · exact h.lists
  kept := by
    unfold SwContext.begin
    dsimp only
    split
    · exact bound_reset
    · rfl
  ctxs := List.nodup_nil
  stageds := List.nodup_nil
  inuse := by
    change s.stagedBindingsInuse = true ↔ ∃ n ∈ ([] : List Node), _
    simp [h.inuse]
  unused _ i hi l := by
    change s.stagedBindings = some i at hi
    unfold SwContext.begin
    rw [hi]
    exact dead_reset h.lists _ l
  staged n hn := by cases hn
  others _ _ _ := rfl

theorem foldl_commitEntry_inuse (backoff : Bool) (ns : List Node) (s : SwContext)
    (h : (ns.foldl (commitEntry backoff) s).stagedBindingsInuse = true) :
    s.stagedBindingsInuse = true ∧ ∀ n ∈ ns, s.stagedBindings ≠ some n.staged := by
  induction ns generalizing s with
  | nil => exact ⟨h, by simp⟩
  | cons n ns ih =>
    obtain ⟨hin, hns⟩ := ih _ h
    change (if s.stagedBindings = some n.staged then false else s.stagedBindingsInuse) = true at hin
    split_ifs at hin with hn
    refine ⟨hin, fun n' hn' => ?_⟩
    rcases List.mem_cons.1 hn' with rfl | hn'
    · exact hn
    · exact hns n' hn'

theorem Staging.inuse_commit (h : Staging m log s) (backoff : Bool) :
    (vmwExecbufBindingsCommit backoff s).stagedBindingsInuse = false := by
  cases hin : (vmwExecbufBindingsCommit backoff s).stagedBindingsInuse with
  | false => rfl
  | true =>
    obtain ⟨hs, hns⟩ := foldl_commitEntry_inuse backoff s.ctxList s hin
    obtain ⟨n, hn, he⟩ := h.inuse.1 hs
    exact absurd he (hns n hn)

theorem foldl_backoff_mgr (ns : List Node) (s : SwContext) :
    (ns.foldl (commitEntry true) s).mgr = s.mgr := by
  induction ns generalizing s with
  | nil => rfl
  | cons n ns ih => exact ih _

theorem Staging.backoff (h : Staging m log s) :
    Idle (vmwExecbufBindingsCommit true s) ∧ bound (vmwExecbufBindingsCommit true s).mgr = m := by
  have hmgr : (vmwExecbufBindingsCommit true s).mgr = s.mgr := foldl_backoff_mgr s.ctxList s
  refine ⟨⟨?_, h.inuse_commit true⟩, ?_⟩
  · rw [hmgr]
    exact h.lists
  · rw [hmgr]
    exact h.kept

theorem onTop_transferred {x y : Slot} (hx : x.ctx.isSome) (h : Transferred x y)
    (old : Option Entry) : onTop y none = onTop x old := by
  unfold Transferred at h
  unfold onTop
  rw [if_pos hx]
  cases hr : x.res with
  | none =>
    rw [hr] at h
    have hy : ¬ y.ctx.isSome := by simp [show y.ctx = none from h]
    rw [if_neg hy]
    rfl
  | some r =>
    rw [hr] at h
    rw [show y = _ from h, if_pos hx, ← hr]

/-- What one commit does: the bindings of the staged state go on top of those of the context,
    and other contexts and staged states are left alone. -/
theorem commit_bound (h : ListsOk v) (c i : ℕ) :
    (∀ l, bound (vmwBindingStateCommit c i v) c l =
      onTop (v.slot (.staged i, l)) (bound v c l)) ∧
    (∀ c', c' ≠ c → ∀ l, bound (vmwBindingStateCommit c i v) c' l = bound v c' l) ∧
    ∀ j, j ≠ i → ∀ l,
      (vmwBindingStateCommit c i v).slot (.staged j, l) = v.slot (.staged j, l) := by
  refine ⟨fun l => ?_, fun c' hc l => ?_, fun j hj l => ?_⟩
  · by_cases hl : (v.slot (.staged i, l)).ctx.isSome
    · exact onTop_transferred hl (h.commit_transferred hl) _
    · unfold bound
      rw [h.commit_of_dead (by simpa using hl)]
      exact (if_neg hl).symm
  · unfold bound
    rw [h.commit_of_ne (by simpa using hc) (by simp)]
  · exact h.commit_of_ne (by simp) (by simpa using hj)

theorem foldl_commit (ns : List Node) (s : SwContext) (h : ListsOk s.mgr)
    (hctxs : (ns.map Node.ctx).Nodup) (hstageds : (ns.map Node.staged).Nodup) :
    ListsOk (ns.foldl (commitEntry false) s).mgr ∧
    (∀ n ∈ ns, ∀ l, bound (ns.foldl (commitEntry false) s).mgr n.ctx l =
      onTop (s.mgr.slot (.staged n.staged, l)) (bound s.mgr n.ctx l)) ∧
    ∀ c, (∀ n ∈ ns, n.ctx ≠ c) → ∀ l,
      bound (ns.foldl (commitEntry false) s).mgr c l = bound s.mgr c l := by
  induction ns generalizing s with
  | nil => exact ⟨h, by simp, fun _ _ _ => rfl⟩
  | cons n ns ih =>
    obtain ⟨hown, hother, hstaged⟩ := commit_bound h n.ctx n.staged
    rw [List.map_cons, List.nodup_cons] at hctxs hstageds
    obtain ⟨hlists, hns, hrest⟩ := ih (commitEntry false s n) (h.commit n.ctx n.staged) hctxs.2
      hstageds.2
    have hne : ∀ n' ∈ ns, n'.ctx ≠ n.ctx := fun n' hn' he =>
      hctxs.1 (he ▸ List.mem_map_of_mem hn')
    refine ⟨hlists, fun n' hn' l => ?_, fun c hc l => ?_⟩
    · rcases List.mem_cons.1 hn' with rfl | hn'
      · exact (hrest n'.ctx hne l).trans (hown l)
      · refine (hns n' hn' l).trans ?_
        have hs : n'.staged ≠ n.staged := fun he => hstageds.1 (he ▸ List.mem_map_of_mem hn')
        change onTop ((vmwBindingStateCommit n.ctx n.staged s.mgr).slot _)
          (bound (vmwBindingStateCommit n.ctx n.staged s.mgr) n'.ctx l) = _
        rw [hstaged _ hs, hother _ (hne n' hn')]
    · refine (hrest c (fun n' hn' => hc n' (List.mem_cons_of_mem _ hn')) l).trans ?_
      exact hother c (hc n List.mem_cons_self).symm l

theorem Staging.commit (h : Staging m log s) :
    Idle (vmwExecbufBindingsCommit false s) ∧
      bound (vmwExecbufBindingsCommit false s).mgr = commits log m := by
  obtain ⟨hlists, hns, hrest⟩ := foldl_commit s.ctxList s h.lists h.ctxs h.stageds
  refine ⟨⟨hlists, h.inuse_commit false⟩, ?_⟩
  funext c l
  by_cases hc : ∀ n ∈ s.ctxList, n.ctx ≠ c
  · rw [h.others c hc l, ← h.kept]
    exact hrest c hc l
  · push Not at hc
    obtain ⟨n, hn, rfl⟩ := hc
    rw [h.staged n hn l, ← h.kept]
    exact hns n hn l

variable (A hasMob) in
/-- A batch that fails leaves the bindings of contexts as they were, and one that succeeds
    binds what its commands bind. -/
theorem vmwExecbufProcess_bound (h : Idle s) (b : Batch) :
    Idle (vmwExecbufProcess A hasMob b s).2 ∧
    bound (vmwExecbufProcess A hasMob b s).2.mgr =
      if (vmwExecbufProcess A hasMob b s).1 = .ok () then commits b.binds (bound s.mgr)
      else bound s.mgr := by
  unfold vmwExecbufProcess
  cases b.early with
  | some e => exact ⟨h, rfl⟩
  | none =>
    cases b.htCreate with
    | some e => exact ⟨⟨h.begin.lists, h.inuse⟩, h.begin.kept⟩
    | none =>
      dsimp only
      obtain ⟨⟨log, hany⟩, hok⟩ := verify_staging A hasMob h.begin b
      rcases hr : b.verify A hasMob s.begin with ⟨r, t⟩
      rw [hr] at hany hok
      cases r with
      | error e => exact hany.backoff
      | ok u => exact (hok rfl).commit

/-- A batch, or an operation of the binding manager on behalf of someone else. -/
inductive Act where
  | execbufProcess (b : Batch)
  | manager (a : BindStep)

variable (A hasMob) in
def step (s : SwContext) : Act → Option SwContext
  | .execbufProcess b => some (vmwExecbufProcess A hasMob b s).2
  | .manager a => (bindStep s.mgr a).map fun v => { s with mgr := v }

theorem Idle.step (h : Idle s) {a : Act} (ha : step A hasMob s a = some t) : Idle t := by
  cases a with
  | execbufProcess b =>
    cases ha
    exact (vmwExecbufProcess_bound A hasMob h b).1
  | manager a =>
    obtain ⟨v, hv, rfl⟩ := Option.map_eq_some_iff.1 ha
    exact ⟨h.lists.step hv, h.inuse⟩

theorem idle_of_runs {as : List Act} (h : Runs (step A hasMob) anyLabel start as s) : Idle s :=
  h.invariant Idle ⟨emptyManager_listsOk, rfl⟩ fun _ _ _ hs _ ha => hs.step ha

/-- In every state that can be reached: a batch after a failed one leaves what it leaves alone,
    if it ends alike, and nothing that the failed batch has staged is ever bound. -/
theorem failed_batch_leaves_nothing {as : List Act} {e : Errno}
    (hs : Runs (step A hasMob) anyLabel start as s) (b₁ b₂ : Batch)
    (h₁ : (vmwExecbufProcess A hasMob b₁ s).1 = .error e) :
    (((vmwExecbufProcess A hasMob b₂ (vmwExecbufProcess A hasMob b₁ s).2).1 = .ok () ↔
        (vmwExecbufProcess A hasMob b₂ s).1 = .ok ()) →
      bound (vmwExecbufProcess A hasMob b₂ (vmwExecbufProcess A hasMob b₁ s).2).2.mgr =
        bound (vmwExecbufProcess A hasMob b₂ s).2.mgr) ∧
    bound (vmwExecbufProcess A hasMob b₂ (vmwExecbufProcess A hasMob b₁ s).2).2.mgr =
      if (vmwExecbufProcess A hasMob b₂ (vmwExecbufProcess A hasMob b₁ s).2).1 = .ok () then
        commits b₂.binds (bound s.mgr)
      else bound s.mgr := by
  have hidle := idle_of_runs hs
  obtain ⟨hidle₁, hbound₁⟩ := vmwExecbufProcess_bound A hasMob hidle b₁
  rw [h₁, if_neg (by simp)] at hbound₁
  have hafter := (vmwExecbufProcess_bound A hasMob hidle₁ b₂).2
  have halone := (vmwExecbufProcess_bound A hasMob hidle b₂).2
  rw [hbound₁] at hafter
  refine ⟨fun halike => ?_, hafter⟩
  rw [hafter, halone]
  simp only [halike]

section Sample

def sampleSetup : SetupEnds := ⟨none, none, none⟩

/-- A batch for contexts 1 and 2 that fails when it is validated. -/
def failingBatch : Batch where
  early := none
  htCreate := none
  checks := [.useContext 1 sampleSetup, .useContext 2 sampleSetup,
    .bindingAdd .ds ⟨1, some 5, .ds, []⟩, .bindingAdd .ds ⟨2, some 6, .ds, []⟩]
  late := some .enomem
  evictions := [.resource 5]
  now := []
  later := []
  queries := []
  submit := none

def nextBatch : Batch :=
  { failingBatch with
    checks := [.useContext 1 sampleSetup, .bindingAdd .ib ⟨1, some 7, .ib, [0]⟩]
    late := none }

/-- The batch succeeds after the failing one, which used the same staged state. -/
example :
    let s := (vmwExecbufProcess Allocator.next true nextBatch
      (vmwExecbufProcess Allocator.next true failingBatch start).2)
    s.1 = .ok () ∧ bound s.2.mgr 1 .ds = none ∧ bound s.2.mgr 1 .ib = some ⟨7, .ib, [0]⟩ := by
  decide +kernel

theorem failing_then_next :
    (((vmwExecbufProcess Allocator.next true nextBatch
          (vmwExecbufProcess Allocator.next true failingBatch start).2).1 = .ok () ↔
        (vmwExecbufProcess Allocator.next true nextBatch start).1 = .ok ()) →
      bound (vmwExecbufProcess Allocator.next true nextBatch
          (vmwExecbufProcess Allocator.next true failingBatch start).2).2.mgr =
        bound (vmwExecbufProcess Allocator.next true nextBatch start).2.mgr) ∧
    bound (vmwExecbufProcess Allocator.next true nextBatch
        (vmwExecbufProcess Allocator.next true failingBatch start).2).2.mgr =
      if (vmwExecbufProcess Allocator.next true nextBatch
          (vmwExecbufProcess Allocator.next true failingBatch start).2).1 = .ok () then
        commits nextBatch.binds (bound start.mgr)
      else bound start.mgr :=
  failed_batch_leaves_nothing (e := .enomem) (.refl start) failingBatch nextBatch
    (by decide +kernel)

/-- `nextBatch` when there is no memory for a shared state. -/
def scarceBatch : Batch :=
  { nextBatch with
    checks := [.useContext 1 ⟨none, some .enomem, none⟩, .bindingAdd .ib ⟨1, some 7, .ib, [0]⟩] }

/-- The failed batch has left the shared state allocated: the batch after it needs no memory for
    one and succeeds, while alone it fails. -/
theorem scarceBatch_ends_otherwise :
    (vmwExecbufProcess Allocator.next true failingBatch start).1 = .error .enomem ∧
    (vmwExecbufProcess Allocator.next true scarceBatch start).1 = .error .enomem ∧
    bound (vmwExecbufProcess Allocator.next true scarceBatch start).2.mgr 1 .ib = none ∧
    bound (vmwExecbufProcess Allocator.next true scarceBatch
      (vmwExecbufProcess Allocator.next true failingBatch start).2).2.mgr 1 .ib =
        some ⟨7, .ib, [0]⟩ := by
  decide +kernel

end Sample

end Vmwgfx.ExecbufBindings
