import Vmwgfx.CmdbufPlaces

set_option autoImplicit false

/-!
# Regions of a command buffer

`vmw_cmdbuf_reserve` and `vmw_cmdbuf_commit` of `vmwgfx_cmdbuf.c`. The manager keeps a
position and the headers keep sizes. A ledger beside the manager notes where each commit
lies and what each flush gives to the device.
-/
namespace Vmwgfx.CmdbufRegions
open Word32 LabelledRuns CmdbufMachine CmdbufPlaces

structure Region where
  offset : ℕ
  size : ℕ
  deriving DecidableEq, Repr

/-- Regions one behind the other, from `lo` to `hi`. -/
def Contiguous : ℕ → List Region → ℕ → Prop
  | lo, [], hi => hi = lo
  | lo, r :: rs, hi => r.offset = lo ∧ Contiguous (lo + r.size) rs hi

def total (rs : List Region) : ℕ := (rs.map Region.size).sum

section Contiguous
variable {lo mid hi : ℕ} {rs : List Region}

theorem Contiguous.append (h : Contiguous lo rs mid) (size : ℕ) :
    Contiguous lo (rs ++ [⟨mid, size⟩]) (mid + size) := by
  induction rs generalizing lo with
  | nil =>
    have hmid : mid = lo := h
    exact ⟨hmid, by rw [hmid]; rfl⟩
  | cons r rs ih => exact ⟨h.1, ih h.2⟩

theorem Contiguous.total_eq (h : Contiguous lo rs hi) : hi = lo + total rs := by
  induction rs generalizing lo with
  | nil => exact h
  | cons r rs ih =>
    have hrest := ih h.2
    have hsum : total (r :: rs) = r.size + total rs := by simp [total]
    omega

theorem Contiguous.inside (h : Contiguous lo rs hi) :
    ∀ r ∈ rs, lo ≤ r.offset ∧ r.offset + r.size ≤ hi := by
  induction rs generalizing lo with
  | nil =>
    intro r hr
    cases hr
  | cons a rs ih =>
    have hrest := ih h.2
    have hend := h.2.total_eq
    have hstart := h.1
    intro r hr
    cases List.mem_cons.1 hr with
    | inl heq =>
      subst heq
      omega
    | inr hmem =>
      have hr := hrest r hmem
      omega

theorem Contiguous.disjoint (h : Contiguous lo rs hi) :
    rs.Pairwise fun r r' => r.offset + r.size ≤ r'.offset := by
  induction rs generalizing lo with
  | nil => exact List.Pairwise.nil
  | cons r rs ih =>
    apply List.Pairwise.cons
    · intro r' hr'
      have hinside := h.2.inside r' hr'
      have hstart := h.1
      omega
    · exact ih h.2

end Contiguous

/-- A buffer as `__vmw_cmdbuf_cur_flush` gives it to `vmw_cmdbuf_ctx_add`, with the regions
    committed into it. -/
structure Submission where
  id : ℕ
  size : ℕ
  length : ℕ
  regions : List Region
  deriving DecidableEq, Repr

structure Ledger (σ ε : Type) where
  man : Man σ ε
  /-- Where the pointer of the last `vmw_cmdbuf_reserve_cur` points, from `cur->cmd`. -/
  told : ℕ
  /-- What was committed into each buffer since it was allocated. -/
  regions : ℕ → List Region
  given : List Submission

variable {σ ε : Type} (H : Host σ ε) (stray : ℕ → ℕ → Option ℕ)

/-- What `__vmw_cmdbuf_cur_flush` submits; `length` is a `uint32_t`. -/
def submission (l : Ledger σ ε) : Option Submission :=
  match l.man.cur with
  | none => none
  | some id =>
    if l.man.curPos = 0 then none
    else some ⟨id, (l.man.headers id).size, l.man.curPos % 2 ^ 32, l.regions id⟩

/-- `__vmw_cmdbuf_cur_flush`. -/
def curFlush (l : Ledger σ ε) : Ledger σ ε :=
  { l with man := vmwCmdbufCurFlush H l.man, given := l.given ++ (submission l).toList }

theorem curFlush_submits {l : Ledger σ ε} {g : Submission} (h : submission l = some g) :
    ∃ s, (curFlush H l).man = vmwCmdbufCtxAdd H s g.id .zero ∧
      (s.headers g.id).length = g.length ∧ (s.headers g.id).size = g.size := by
  unfold submission at h
  split at h
  · cases h
  · next id hcur =>
    split_ifs at h with hzero
    cases h
    refine ⟨setHeader { l.man with cur := none, curPos := 0 } id
      { l.man.headers id with length := l.man.curPos % 2 ^ 32 }, ?_, ?_, ?_⟩
    · simp only [curFlush, vmwCmdbufCurFlush, hcur, if_neg hzero]
    · simp only [setHeader, Function.update_self]
    · simp only [setHeader, Function.update_self]

theorem curFlush_quiet {l : Ledger σ ε} (h : submission l = none) :
    (curFlush H l).man.ctx = l.man.ctx ∧ (curFlush H l).man.added = l.man.added := by
  unfold submission at h
  split at h
  · next hcur => simp only [curFlush, vmwCmdbufCurFlush, hcur, and_self]
  · next id hcur =>
    split_ifs at h with hzero
    simp only [curFlush, vmwCmdbufCurFlush, hcur, if_pos hzero, headerFree, and_self]

/-- `vmw_cmdbuf_alloc`: nothing is committed into a new buffer. -/
def alloc (l : Ledger σ ε) (size : ℕ) (plan : Plan) : Option ℕ × Ledger σ ε :=
  let r := vmwCmdbufAlloc H l.man size plan
  (r.1,
    { l with
      man := r.2
      regions := match r.1 with
        | none => l.regions
        | some id => Function.update l.regions id [] })

def ensureCur (l : Ledger σ ε) (size : ℕ) (plan : Plan) : Option ℕ × Ledger σ ε :=
  match l.man.cur with
  | some id => (some id, l)
  | none =>
    let r := alloc H l (Nat.max size l.man.defaultSize) plan
    (r.1, { r.2 with man := { r.2.man with cur := r.1 } })

/-- `vmw_cmdbuf_reserve_cur`. -/
def reserveCur (l : Ledger σ ε) (size ctxId : ℕ) (plan : Plan) : Ledger σ ε :=
  let l := if mustFlush l.man size ctxId then curFlush H l else l
  let r := ensureCur H l size plan
  match r.1 with
  | none => r.2
  | some id =>
    { r.2 with
      man := { setHeader r.2.man id (reserveIn (r.2.man.headers id) size ctxId) with
        curLocked := true }
      told := r.2.man.curPos }

/-- `vmw_cmdbuf_commit_cur`: the commands are where the reservation pointed. -/
def commitCur (l : Ledger σ ε) (id : ℕ) (cmds : List Command) (flush : Bool) : Ledger σ ε :=
  let man := { l.man with curPos := l.man.curPos + totalSize cmds }
  let l := { l with
    man := setHeader man id (commitIn (man.headers id) cmds)
    regions := Function.update l.regions id (l.regions id ++ [⟨l.told, totalSize cmds⟩]) }
  let l := if flush then curFlush H l else l
  { l with man := { l.man with curLocked := false } }

/-- `vmw_cmdbuf_commit` with a header of the caller's own: the reservation pointed to its
    start. -/
def commit (l : Ledger σ ε) (id : ℕ) (cmds : List Command) (flush : Bool) : Ledger σ ε :=
  let l := curFlush H l
  let man := { l.man with
    cur := some id, curPos := totalSize cmds, hands := l.man.hands.filter (· ≠ id) }
  let l := { l with
    man := setHeader man id (commitIn (man.headers id) cmds)
    regions := Function.update l.regions id (l.regions id ++ [⟨0, totalSize cmds⟩]) }
  if flush then curFlush H l else l

/-- The steps of the manager with their notes. Buffers are submitted by the flush only:
    `vmw_cmdbuf_ctx_add` has no other caller. -/
def step (l : Ledger σ ε) : Act ε → Option (Ledger σ ε)
  | .reserve size ctxId plan sched =>
    if l.man.curLocked then none
    else some (reserveCur H { l with man := { l.man with sched := sched } } size ctxId plan)
  | .commit cmds flush sched =>
    match l.man.cur with
    | none => none
    | some id =>
      if l.man.curLocked = false ∨ (l.man.headers id).reserved < totalSize cmds then none
      else some (commitCur H { l with man := { l.man with sched := sched } } id cmds flush)
  | .alloc size plan sched =>
    let r := alloc H { l with man := { l.man with sched := sched } } size plan
    some { r.2 with man := { r.2.man with hands := r.1.toList ++ r.2.man.hands } }
  | .commitHeader id cmds flush sched =>
    if l.man.curLocked ∨ id ∉ l.man.hands ∨ (l.man.headers id).reserved < totalSize cmds then none
    else some (commit H { l with man := { l.man with sched := sched } } id cmds flush)
  | .curFlush sched =>
    if l.man.curLocked then none
    else some (curFlush H { l with man := { l.man with sched := sched } })
  | .ctxAdd .. => none
  | a => (CmdbufMachine.step H stray l.man a).map fun man => { l with man := man }

def create (dev : σ) (hpQueue usingMob : Bool) : Ledger σ ε where
  man := vmwCmdbufManCreate H dev hpQueue usingMob
  told := 0
  regions := fun _ => []
  given := []

section Machine

theorem ensureCur_man (l : Ledger σ ε) (size : ℕ) (plan : Plan) :
    (ensureCur H l size plan).1 = (CmdbufMachine.ensureCur H l.man size plan).1 ∧
      (ensureCur H l size plan).2.man = (CmdbufMachine.ensureCur H l.man size plan).2 := by
  unfold ensureCur CmdbufMachine.ensureCur
  cases l.man.cur <;> exact ⟨rfl, rfl⟩

theorem reserveCur_man (l : Ledger σ ε) (size ctxId : ℕ) (plan : Plan) :
    (reserveCur H l size ctxId plan).man = vmwCmdbufReserveCur H l.man size ctxId plan := by
  have hflush : (if mustFlush l.man size ctxId then curFlush H l else l).man =
      if mustFlush l.man size ctxId then vmwCmdbufCurFlush H l.man else l.man := by
    split_ifs <;> rfl
  unfold reserveCur vmwCmdbufReserveCur
  dsimp only
  rw [← hflush]
  generalize (if mustFlush l.man size ctxId then curFlush H l else l) = l'
  obtain ⟨hid, hman⟩ := ensureCur_man H l' size plan
  rw [← hid, ← hman]
  cases (ensureCur H l' size plan).1 <;> rfl

theorem commitCur_man (l : Ledger σ ε) (id : ℕ) (cmds : List Command) (flush : Bool) :
    (commitCur H l id cmds flush).man = vmwCmdbufCommitCur H l.man id cmds flush := by
  cases flush <;> rfl

theorem commit_man (l : Ledger σ ε) (id : ℕ) (cmds : List Command) (flush : Bool) :
    (commit H l id cmds flush).man = vmwCmdbufCommit H l.man id cmds flush := by
  cases flush <;> rfl

variable {H stray}

theorem step_man {l l' : Ledger σ ε} {a : Act ε} (h : step H stray l a = some l') :
    CmdbufMachine.step H stray l.man a = some l'.man := by
  cases a with
  | reserve size ctxId plan sched =>
    simp only [step] at h
    split_ifs at h with hlocked
    obtain rfl := Option.some.inj h
    rw [CmdbufMachine.step, if_neg hlocked, reserveCur_man]
  | commit cmds flush sched =>
    simp only [step] at h
    split at h
    · cases h
    · next id hcur =>
      split_ifs at h with hno
      obtain rfl := Option.some.inj h
      simp only [CmdbufMachine.step, hcur, if_neg hno, commitCur_man]
  | alloc size plan sched =>
    obtain rfl := Option.some.inj h
    rfl
  | commitHeader id cmds flush sched =>
    simp only [step] at h
    split_ifs at h with hno
    obtain rfl := Option.some.inj h
    rw [CmdbufMachine.step, if_neg hno, commit_man]
  | curFlush sched =>
    simp only [step] at h
    split_ifs at h with hlocked
    obtain rfl := Option.some.inj h
    rw [CmdbufMachine.step, if_neg hlocked]
    rfl
  | ctxAdd => cases h
  | _ =>
    simp only [step, Option.map_eq_some_iff] at h
    obtain ⟨man, hman, rfl⟩ := h
    exact hman

end Machine

section Still

/-- Neither the size of a buffer nor a reservation in it changes. -/
def SameSpace (f g : ℕ → Header) : Prop :=
  ∀ id, (g id).size = (f id).size ∧ (g id).reserved = (f id).reserved

theorem SameSpace.refl (f : ℕ → Header) : SameSpace f f := fun _ => ⟨rfl, rfl⟩

theorem SameSpace.trans {f g k : ℕ → Header} (h : SameSpace f g) (h' : SameSpace g k) :
    SameSpace f k :=
  fun id => ⟨(h' id).1.trans (h id).1, (h' id).2.trans (h id).2⟩

theorem sameSpace_of_touched {f g : ℕ → Header} (h : Touched f g) : SameSpace f g := by
  intro id
  obtain ⟨_, _, he⟩ := h id
  rw [he]
  exact ⟨rfl, rfl⟩

theorem sameSpace_update (f : ℕ → Header) {id : ℕ} {x : Header} (hsize : x.size = (f id).size)
    (hreserved : x.reserved = (f id).reserved) : SameSpace f (Function.update f id x) := by
  intro i
  by_cases hi : i = id
  · rw [hi, Function.update_self]
    exact ⟨hsize, hreserved⟩
  · rw [Function.update_of_ne hi]
    exact ⟨rfl, rfl⟩

structure Still (s t : Man σ ε) : Prop where
  cur : t.cur = s.cur
  curPos : t.curPos = s.curPos
  locked : t.curLocked = s.curLocked
  hands : t.hands = s.hands
  space : SameSpace s.headers t.headers

theorem Still.refl (s : Man σ ε) : Still s s := ⟨rfl, rfl, rfl, rfl, .refl _⟩

theorem Still.trans {s t u : Man σ ε} (h : Still s t) (h' : Still t u) : Still s u :=
  ⟨h'.cur.trans h.cur, h'.curPos.trans h.curPos, h'.locked.trans h.locked,
    h'.hands.trans h.hands, h.space.trans h'.space⟩

theorem still_setHeader (s : Man σ ε) {id : ℕ} {x : Header}
    (hsize : x.size = (s.headers id).size) (hreserved : x.reserved = (s.headers id).reserved) :
    Still s (setHeader s id x) :=
  ⟨rfl, rfl, rfl, rfl, sameSpace_update _ hsize hreserved⟩

theorem tick_still (s : Man σ ε) : Still s (tick H s) := by
  obtain ⟨_, _, _, he, ht⟩ := tick_eq H s
  rw [he]
  exact ⟨rfl, rfl, rfl, rfl, sameSpace_of_touched ht⟩

theorem headerSubmit_still (s : Man σ ε) (c : Cb) (id : ℕ) : Still s (headerSubmit H s c id) := by
  obtain ⟨_, _, _, _, he, ht, _⟩ := headerSubmit_eq H s c id
  rw [he]
  exact ⟨rfl, rfl, rfl, rfl, sameSpace_of_touched ht⟩

theorem settle_still (s : Man σ ε) (c : Cb) (id : ℕ) (st : Status) :
    Still s (settle s c id st) := by
  have hstatus : Still s (setStatus s id .none) := still_setHeader s rfl rfl
  cases st with
  | commandError => exact ⟨rfl, rfl, rfl, rfl, hstatus.space⟩
  | preempted => exact ⟨rfl, rfl, rfl, rfl, hstatus.space⟩
  | _ => exact ⟨rfl, rfl, rfl, rfl, .refl _⟩

theorem still_rule : ProcessRule H (Still (σ := σ) (ε := ε)) where
  refl := Still.refl
  trans := Still.trans
  tick := tick_still H
  full := fun _ _ _ => (headerSubmit_still H _ _ _).trans (still_setHeader _ rfl rfl)
  move := by
    intro s c id rest _ _ _ _
    exact (headerSubmit_still H s c id).trans ⟨rfl, rfl, rfl, rfl, .refl _⟩
  settle := by
    intro s c id rest _ _
    have htake : Still s (takeHw s c rest) := ⟨rfl, rfl, rfl, rfl, .refl _⟩
    exact htake.trans (settle_still _ c id _)
  irq := fun _ _ => ⟨rfl, rfl, rfl, rfl, .refl _⟩

theorem vmwCmdbufManProcess_still (s : Man σ ε) : Still s (vmwCmdbufManProcess H s) :=
  (still_rule H).manProcess s

theorem vmwCmdbufCurFlush_still (s : Man σ ε) (hidle : s.cur = none → s.curPos = 0) :
    Still { s with cur := none, curPos := 0 } (vmwCmdbufCurFlush H s) := by
  unfold vmwCmdbufCurFlush
  cases hcur : s.cur with
  | none => exact ⟨hcur, hidle hcur, rfl, rfl, .refl _⟩
  | some id =>
    dsimp only
    split_ifs
    · exact ⟨rfl, rfl, rfl, rfl, .refl _⟩
    · apply Still.trans _ (vmwCmdbufManProcess_still H _)
      apply Still.trans (t := setHeader { s with cur := none, curPos := 0 } id
        { s.headers id with length := s.curPos % 2 ^ 32 })
      · exact still_setHeader _ rfl rfl
      · exact ⟨rfl, rfl, rfl, rfl, sameSpace_update _ rfl rfl⟩

theorem restartEntry_still (s : Man σ ε) (id : ℕ) : Still s (restartEntry stray s id) := by
  unfold restartEntry
  dsimp only
  split
  · exact ⟨rfl, rfl, rfl, rfl, .refl _⟩
  · split_ifs
    · exact ⟨rfl, rfl, rfl, rfl, .refl _⟩
    all_goals exact ⟨rfl, rfl, rfl, rfl, sameSpace_update _ rfl rfl⟩

theorem workCollect_still (s : Man σ ε) : Still s (workCollect stray s) := by
  have hall : ∀ (l : List ℕ) (t : Man σ ε), Still t (l.foldl (restartEntry stray) t) := by
    intro l
    induction l with
    | nil => exact Still.refl
    | cons id l ih => exact fun t => (restartEntry_still stray t id).trans (ih _)
  have h := hall s.error { s with
    error := [], workScheduled := false, sendFence := false
    globalBlock := !s.error.isEmpty, restartHead := fun _ => [] }
  exact ⟨h.cur, h.curPos, h.locked, h.hands, h.space⟩

theorem workRestart_still (s : Man σ ε) : Still s (workRestart H s) := by
  have hall : ∀ (l : List Cb) (t : Man σ ε), Still t (l.foldl (restartCtx H) t) := by
    intro l
    induction l with
    | nil => exact Still.refl
    | cons c l ih =>
      intro t
      have h := (still_rule H).ctxProcess t c
      have hctx : Still t (restartCtx H t c) := ⟨h.cur, h.curPos, h.locked, h.hands, h.space⟩
      exact hctx.trans (ih _)
  have h := (hall (contexts s) s).trans (vmwCmdbufManProcess_still H _)
  exact ⟨h.cur, h.curPos, h.locked, h.hands, h.space⟩

theorem sendDeviceCommand_still (s : Man σ ε) (ok : Bool) (cmd : DeviceCommand) :
    Still s (sendDeviceCommand H s ok cmd).2 := by
  unfold sendDeviceCommand
  split_ifs
  · have h := tick_still H s
    exact ⟨h.cur, h.curPos, h.locked, h.hands,
      h.space.trans (sameSpace_of_touched (applyWrites_touched _ _))⟩
  · exact Still.refl s

end Still

theorem vmwCmdbufAlloc_fits (s : Man σ ε) (size : ℕ) (plan : Plan) : ∃ t, Still s t ∧
    (vmwCmdbufAlloc H s size plan = (none, t) ∨
      ∃ x live, vmwCmdbufAlloc H s size plan =
          (some plan.id, { setHeader t plan.id x with live := live }) ∧
        size ≤ x.size ∧ x.reserved = 0 ∧ x.size ≤ poolSize) := by
  have hnew : ∀ (t : Man σ ε) (x : Header), newHeader t plan x = (none, t) ∨
      newHeader t plan x = (some plan.id, { setHeader t plan.id x with live := plan.id :: t.live }) := by
    intro t x
    unfold newHeader
    split_ifs
    · exact .inl rfl
    · exact .inr rfl
  have hpolls := (still_rule H).iterate plan.polls s
  unfold vmwCmdbufAlloc
  dsimp only
  split_ifs with hinline hpool hlarge
  · refine ⟨s, Still.refl s, (hnew s _).imp id fun h => ⟨_, _, h, hinline, rfl, ?_⟩⟩
    change vmwCmdbufInlineSize ≤ poolSize
    decide
  · exact ⟨s, Still.refl s, .inl rfl⟩
  · exact ⟨_, hpolls, .inl rfl⟩
  · refine ⟨_, hpolls, (hnew _ _).imp id fun h => ⟨_, _, h, ?_, rfl, not_lt.1 hlarge⟩⟩
    change size ≤ pageAlign size
    unfold pageAlign
    omega

/-- The steps that leave the current buffer and the callers' buffers alone. -/
def quiet : Act ε → Bool
  | .irqthread _ | .workCollect | .workPreempt .. | .workRestart _ | .workStart .. | .stop ..
  | .setPool .. | .removePool | .device _ => true
  | _ => false

variable {H stray} in
theorem took_still {s t : Man σ ε} {a : Act ε} (h : Took H stray s a t) (ha : quiet a = true) :
    Still s t := by
  have hsched : ∀ (sched : List (List ε)) {u : Man σ ε}, Still { s with sched := sched } u →
      Still s u := fun _ _ hu => ⟨hu.cur, hu.curPos, hu.locked, hu.hands, hu.space⟩
  cases h with
  | reserve => cases ha
  | commit => cases ha
  | alloc => cases ha
  | reserveFails => cases ha
  | reserveHeader => cases ha
  | commitHeader => cases ha
  | headerFree => cases ha
  | ctxAdd => cases ha
  | curFlush => cases ha
  | irqthread => exact hsched _ (vmwCmdbufManProcess_still H _)
  | workCollect => exact workCollect_still stray s
  | @preempt ok sched =>
    have hsent := hsched sched (sendDeviceCommand_still H _ ok .preempt)
    exact ⟨hsent.cur, hsent.curPos, hsent.locked, hsent.hands, hsent.space⟩
  | workRestart => exact hsched _ (workRestart_still H _)
  | @start ok sched =>
    have hsent := hsched sched (sendDeviceCommand_still H _ ok (.startStop true))
    exact ⟨hsent.cur, hsent.curPos, hsent.locked, hsent.hands, hsent.space⟩
  | stop => exact hsched _ (sendDeviceCommand_still H _ _ _)
  | device =>
    obtain ⟨_, _, he, ht⟩ := deviceRun_eq H _ s
    rw [he]
    exact ⟨rfl, rfl, rfl, rfl, sameSpace_of_touched ht⟩
  | noPreempt | noStart | poolKept | setPool | removePool => exact ⟨rfl, rfl, rfl, rfl, .refl _⟩

/-- What is known of a submission: its regions fill it from its start on. -/
def Accounted (g : Submission) : Prop :=
  Contiguous 0 g.regions g.length ∧ 0 < g.length ∧ g.length ≤ g.size

structure Packed (l : Ledger σ ε) : Prop where
  current : ∀ id, l.man.cur = some id →
    Contiguous 0 (l.regions id) l.man.curPos ∧ l.man.curPos ≤ (l.man.headers id).size
  idle : l.man.cur = none → l.man.curPos = 0
  hands : ∀ id ∈ l.man.hands, l.regions id = [] ∧
    (l.man.headers id).reserved ≤ (l.man.headers id).size
  small : ∀ id, (l.man.headers id).size ≤ poolSize
  given : ∀ g ∈ l.given, Accounted g

/-- A reservation in the current buffer starts at the position and ends in the buffer. -/
def Held (l : Ledger σ ε) : Prop :=
  l.man.curLocked = true → ∀ id, l.man.cur = some id → l.told = l.man.curPos ∧
    l.man.curPos + (l.man.headers id).reserved ≤ (l.man.headers id).size

section Packed
variable {H stray} {l : Ledger σ ε}

theorem Packed.still (h : Packed l) {t : Man σ ε} (ht : Still l.man t) :
    Packed { l with man := t } where
  current := by
    intro id hid
    change Contiguous 0 (l.regions id) t.curPos ∧ t.curPos ≤ (t.headers id).size
    rw [ht.curPos, (ht.space id).1]
    exact h.current id (ht.cur ▸ hid)
  idle := fun hid => ht.curPos.trans (h.idle (ht.cur ▸ hid))
  hands := by
    intro id hid
    change l.regions id = [] ∧ (t.headers id).reserved ≤ (t.headers id).size
    rw [(ht.space id).1, (ht.space id).2]
    exact h.hands id (ht.hands ▸ hid)
  small := by
    intro id
    change (t.headers id).size ≤ poolSize
    rw [(ht.space id).1]
    exact h.small id
  given := h.given

theorem Held.still (h : Held l) {t : Man σ ε} (ht : Still l.man t) :
    Held { l with man := t } := by
  intro hl id hid
  change l.told = t.curPos ∧ t.curPos + (t.headers id).reserved ≤ (t.headers id).size
  rw [ht.curPos, (ht.space id).1, (ht.space id).2]
  exact h (ht.locked ▸ hl) id (ht.cur ▸ hid)

theorem held_of_unlocked (hfree : l.man.curLocked = false) : Held l := by
  intro hl
  rw [hfree] at hl
  cases hl

theorem Packed.submission (h : Packed l) : ∀ g ∈ submission l, Accounted g := by
  intro g hg
  unfold CmdbufRegions.submission at hg
  split at hg
  · cases hg
  · next id hcur =>
    split_ifs at hg with hzero
    · cases hg
    · obtain ⟨hregions, hsize⟩ := h.current id hcur
      have hsmall := h.small id
      unfold poolSize at hsmall
      have hmod : l.man.curPos % 2 ^ 32 = l.man.curPos := Nat.mod_eq_of_lt (by omega)
      cases hg
      rw [hmod]
      exact ⟨hregions, Nat.pos_of_ne_zero hzero, hsize⟩

theorem Packed.curFlush (h : Packed l) : Packed (curFlush H l) := by
  have hgone : Packed { l with
      man := { l.man with cur := none, curPos := 0 }
      given := l.given ++ (CmdbufRegions.submission l).toList } := by
    refine ⟨fun _ hid => (by cases hid), fun _ => rfl, h.hands, h.small, ?_⟩
    intro g hg
    cases List.mem_append.1 hg with
    | inl hold => exact h.given g hold
    | inr hnew => exact h.submission g (Option.mem_toList.1 hnew)
  exact hgone.still (vmwCmdbufCurFlush_still H l.man h.idle)

theorem Packed.renew (h : Packed l) {id : ℕ} {x : Header} (hcur : id ∉ l.man.cur)
    (hhands : id ∉ l.man.hands) (hx : x.size ≤ poolSize) (live : List ℕ) :
    Packed { l with
      man := { setHeader l.man id x with live := live }
      regions := Function.update l.regions id [] } := by
  have hother : ∀ i, i ≠ id → Function.update l.regions id [] i = l.regions i ∧
      Function.update l.man.headers id x i = l.man.headers i := by
    intro i hi
    exact ⟨Function.update_of_ne hi _ _, Function.update_of_ne hi _ _⟩
  refine ⟨?_, h.idle, ?_, ?_, h.given⟩
  · intro i hi
    obtain ⟨hregions, hheaders⟩ := hother i (by rintro rfl; exact hcur hi)
    change Contiguous 0 (Function.update l.regions id [] i) l.man.curPos ∧
      l.man.curPos ≤ (Function.update l.man.headers id x i).size
    rw [hregions, hheaders]
    exact h.current i hi
  · intro i hi
    obtain ⟨hregions, hheaders⟩ := hother i (by rintro rfl; exact hhands hi)
    change Function.update l.regions id [] i = [] ∧
      (Function.update l.man.headers id x i).reserved ≤ (Function.update l.man.headers id x i).size
    rw [hregions, hheaders]
    exact h.hands i hi
  · intro i
    change (Function.update l.man.headers id x i).size ≤ poolSize
    by_cases hi : i = id
    · rw [hi, Function.update_self]
      exact hx
    · rw [Function.update_of_ne hi]
      exact h.small i

theorem Held.renew (h : Held l) {id : ℕ} (hcur : id ∉ l.man.cur) (x : Header) (live : List ℕ) :
    Held { l with
      man := { setHeader l.man id x with live := live }
      regions := Function.update l.regions id [] } := by
  intro hl i hi
  have hne : i ≠ id := by
    rintro rfl
    exact hcur hi
  change l.told = l.man.curPos ∧ l.man.curPos + (Function.update l.man.headers id x i).reserved ≤
    (Function.update l.man.headers id x i).size
  rw [Function.update_of_ne hne]
  exact h hl i hi

/-- A new buffer is empty and has room for what it was asked for. -/
structure Fresh (l l' : Ledger σ ε) (o : Option ℕ) (size : ℕ) : Prop where
  cur : l'.man.cur = l.man.cur
  curPos : l'.man.curPos = l.man.curPos
  locked : l'.man.curLocked = l.man.curLocked
  empty : ∀ id, o = some id → l'.regions id = []
  room : ∀ id, o = some id → size ≤ (l'.man.headers id).size
  unreserved : ∀ id, o = some id → (l'.man.headers id).reserved = 0

theorem alloc_fresh {e : List ℕ} (hp : Inv l.man e) (h : Packed l) (size : ℕ) (plan : Plan) :
    Packed (alloc H l size plan).2 ∧ (Held l → Held (alloc H l size plan).2) ∧
      Fresh l (alloc H l size plan).2 (alloc H l size plan).1 size := by
  have hinv := vmwCmdbufAlloc_inv (H := H) hp size plan
  obtain ⟨t, ht, hr | ⟨x, live, hr, hfits, hzero, hsmall⟩⟩ := vmwCmdbufAlloc_fits (H := H)
    l.man size plan
  · unfold alloc
    rw [hr]
    exact ⟨h.still ht, fun hheld => hheld.still ht, ht.cur, ht.curPos, ht.locked,
      fun _ hid => (by cases hid), fun _ hid => (by cases hid), fun _ hid => (by cases hid)⟩
  · rw [hr] at hinv
    obtain ⟨hhands, hcur⟩ := inv_absent hinv
    have hself : Function.update t.headers plan.id x plan.id = x := Function.update_self ..
    unfold alloc
    rw [hr]
    refine ⟨(h.still ht).renew hcur hhands hsmall live, fun hheld => (hheld.still ht).renew hcur x
      live, ht.cur, ht.curPos, ht.locked, ?_, ?_, ?_⟩
    · intro id hid
      cases hid
      exact Function.update_self ..
    · intro id hid
      cases hid
      exact hfits.trans_eq (congrArg Header.size hself.symm)
    · intro id hid
      cases hid
      exact (congrArg Header.reserved hself).trans hzero

theorem Packed.ensureCur {e : List ℕ} (h : Packed l) (hp : Inv l.man e) {size : ℕ}
    (hroom : ∀ id, l.man.cur = some id → size + l.man.curPos ≤ (l.man.headers id).size)
    (plan : Plan) :
    Packed (ensureCur H l size plan).2 ∧
      (ensureCur H l size plan).2.man.curLocked = l.man.curLocked ∧
      (ensureCur H l size plan).2.man.cur = (ensureCur H l size plan).1 ∧
      ∀ id, (ensureCur H l size plan).1 = some id →
        size + (ensureCur H l size plan).2.man.curPos ≤
          ((ensureCur H l size plan).2.man.headers id).size := by
  unfold CmdbufRegions.ensureCur
  cases hcur : l.man.cur with
  | some id =>
    refine ⟨h, rfl, hcur, ?_⟩
    intro i hi
    cases hi
    exact hroom id hcur
  | none =>
    obtain ⟨hpacked, -, hfresh⟩ := alloc_fresh (H := H) hp h (Nat.max size l.man.defaultSize) plan
    have hzero := hfresh.curPos.trans (h.idle hcur)
    refine ⟨⟨?_, fun _ => hzero, hpacked.hands, hpacked.small, hpacked.given⟩, hfresh.locked, rfl,
      ?_⟩
    · intro id hid
      change Contiguous 0 ((alloc H l _ plan).2.regions id) (alloc H l _ plan).2.man.curPos ∧
          (alloc H l _ plan).2.man.curPos ≤ _
      rw [hfresh.empty id hid, hzero]
      exact ⟨rfl, Nat.zero_le _⟩
    · intro id hid
      change size + (alloc H l _ plan).2.man.curPos ≤ ((alloc H l _ plan).2.man.headers id).size
      rw [hzero]
      exact (le_max_left _ _).trans (hfresh.room id hid)

theorem mustFlush_room {s : Man σ ε} {size ctxId : ℕ} (h : mustFlush s size ctxId = false) :
    ∀ id, s.cur = some id → size + s.curPos ≤ (s.headers id).size := by
  intro id hid
  simp only [mustFlush, hid, Bool.or_eq_false_iff, decide_eq_false_iff_not, not_lt] at h
  exact h.1

theorem Packed.mark (h : Packed l) {id : ℕ} {x : Header} (hsize : x.size = (l.man.headers id).size)
    (hfits : x.reserved ≤ x.size) : Packed { l with man := setHeader l.man id x } := by
  have hsizes : ∀ i, (Function.update l.man.headers id x i).size = (l.man.headers i).size := by
    intro i
    by_cases hi : i = id
    · rw [hi, Function.update_self, hsize]
    · rw [Function.update_of_ne hi]
  refine ⟨?_, h.idle, ?_, ?_, h.given⟩
  · intro i hi
    exact ⟨(h.current i hi).1, (h.current i hi).2.trans_eq (hsizes i).symm⟩
  · intro i hi
    refine ⟨(h.hands i hi).1, ?_⟩
    change (Function.update l.man.headers id x i).reserved ≤
      (Function.update l.man.headers id x i).size
    by_cases hid : i = id
    · rw [hid, Function.update_self]
      exact hfits
    · rw [Function.update_of_ne hid]
      exact (h.hands i hi).2
  · intro i
    exact (hsizes i).trans_le (h.small i)

theorem Packed.reserveCur {e : List ℕ} (h : Packed l) (hp : Inv l.man e)
    (hfree : l.man.curLocked = false) (size ctxId : ℕ) (plan : Plan) :
    Packed (reserveCur H l size ctxId plan) ∧ Held (reserveCur H l size ctxId plan) := by
  have hflushed : ∃ l', (if mustFlush l.man size ctxId then CmdbufRegions.curFlush H l else l) =
      l' ∧ Packed l' ∧ Inv l'.man e ∧ l'.man.curLocked = false ∧
        ∀ id, l'.man.cur = some id → size + l'.man.curPos ≤ (l'.man.headers id).size := by
    have hstill := vmwCmdbufCurFlush_still H l.man h.idle
    cases hflush : mustFlush l.man size ctxId with
    | false => exact ⟨l, rfl, h, hp, hfree, mustFlush_room hflush⟩
    | true =>
      refine ⟨_, rfl, h.curFlush, vmwCmdbufCurFlush_inv hp, hstill.locked.trans hfree, ?_⟩
      intro id hid
      have hnone : none = some id := hstill.cur.symm.trans hid
      cases hnone
  obtain ⟨l', hl', hpacked, hinv, hlocked, hroom⟩ := hflushed
  obtain ⟨hensured, hlocked', hcur, hfits⟩ := hpacked.ensureCur (H := H) hinv hroom plan
  unfold CmdbufRegions.reserveCur
  rw [hl']
  dsimp only
  split
  · exact ⟨hensured, held_of_unlocked (hlocked'.trans hlocked)⟩
  · next id hid =>
    have hsize := hfits id hid
    have hmark := hensured.mark (x := reserveIn
      ((CmdbufRegions.ensureCur H l' size plan).2.man.headers id) size ctxId) rfl
      ((Nat.le_add_right _ _).trans hsize)
    refine ⟨⟨hmark.current, hmark.idle, hmark.hands, hmark.small, hmark.given⟩, ?_⟩
    intro _ i hi
    have heq : some id = some i := hid.symm.trans (hcur.symm.trans hi)
    cases heq
    refine ⟨rfl, ?_⟩
    simp only [setHeader, Function.update_self]
    rw [Nat.add_comm]
    exact hsize

theorem Packed.put (h : Packed l) (id pos size : ℕ) (x : Header) (hands : List ℕ)
    (hhands : id ∉ hands) (hsub : ∀ i ∈ hands, i ∈ l.man.hands)
    (hregions : Contiguous 0 (l.regions id) pos) (hsize : x.size = (l.man.headers id).size)
    (hfits : pos + size ≤ x.size) :
    Packed { l with
      man := { setHeader l.man id x with cur := some id, curPos := pos + size, hands := hands }
      regions := Function.update l.regions id (l.regions id ++ [⟨pos, size⟩]) } := by
  refine ⟨?_, fun hid => (by cases hid), ?_, ?_, h.given⟩
  · intro i hi
    cases hi
    simp only [setHeader, Function.update_self]
    exact ⟨hregions.append size, hfits⟩
  · intro i hi
    have hne : i ≠ id := by
      rintro rfl
      exact hhands hi
    simp only [setHeader, Function.update_of_ne hne]
    exact h.hands i (hsub i hi)
  · intro i
    by_cases hi : i = id
    · simp only [setHeader, hi, Function.update_self, hsize]
      exact h.small id
    · simp only [setHeader, Function.update_of_ne hi]
      exact h.small i

theorem Packed.commitCur {e : List ℕ} (h : Packed l) (hheld : Held l) (hp : Inv l.man e) {id : ℕ}
    (hcur : l.man.cur = some id) (hlocked : l.man.curLocked = true) {cmds : List Command}
    (hfits : totalSize cmds ≤ (l.man.headers id).reserved) (flush : Bool) :
    Packed (commitCur H l id cmds flush) := by
  obtain ⟨htold, hroom⟩ := hheld hlocked id hcur
  have hout := (inv_absent (curOut_inv hp hcur)).1
  have hput := h.put id l.man.curPos (totalSize cmds) (commitIn (l.man.headers id) cmds)
    l.man.hands hout (fun _ hi => hi) (h.current id hcur).1 rfl
    ((Nat.add_le_add_left hfits _).trans hroom)
  rw [← hcur, ← htold] at hput
  have hdone : Packed { l with
      man := setHeader { l.man with curPos := l.man.curPos + totalSize cmds } id
        (commitIn (l.man.headers id) cmds)
      regions := Function.update l.regions id (l.regions id ++ [⟨l.told, totalSize cmds⟩]) } := by
    rw [← htold]
    exact hput
  cases flush with
  | false => exact ⟨hdone.current, hdone.idle, hdone.hands, hdone.small, hdone.given⟩
  | true =>
    have hflush := hdone.curFlush (H := H)
    exact ⟨hflush.current, hflush.idle, hflush.hands, hflush.small, hflush.given⟩

theorem Packed.commit (h : Packed l) {id : ℕ} (hid : id ∈ l.man.hands) {cmds : List Command}
    (hfits : totalSize cmds ≤ (l.man.headers id).reserved) (flush : Bool) :
    Packed (commit H l id cmds flush) := by
  obtain ⟨hsize, hreserved⟩ := (vmwCmdbufCurFlush_still H l.man h.idle).space id
  obtain ⟨hnil, hroom⟩ := h.hands id hid
  have hfits' : totalSize cmds ≤ ((vmwCmdbufCurFlush H l.man).headers id).size := by
    rw [hsize]
    exact hfits.trans hroom
  have hempty : Contiguous 0 ((CmdbufRegions.curFlush H l).regions id) 0 := by
    change Contiguous 0 (l.regions id) 0
    rw [hnil]
    rfl
  have hput := (h.curFlush (H := H)).put id 0 (totalSize cmds)
    (commitIn ((vmwCmdbufCurFlush H l.man).headers id) cmds)
    ((vmwCmdbufCurFlush H l.man).hands.filter (· ≠ id)) (by simp)
    (fun _ hi => List.mem_of_mem_filter hi) hempty rfl (by rw [Nat.zero_add]; exact hfits')
  rw [Nat.zero_add] at hput
  cases flush with
  | false => exact hput
  | true => exact hput.curFlush

structure Kept (l : Ledger σ ε) : Prop where
  places : RunInv l.man
  packed : Packed l
  held : Held l

theorem Kept.still (h : Kept l) {t : Man σ ε} (hplaces : RunInv t) (ht : Still l.man t) :
    Kept { l with man := t } :=
  ⟨hplaces, h.packed.still ht, h.held.still ht⟩

theorem step_kept {l l' : Ledger σ ε} {a : Act ε} (h : Kept l)
    (hs : step H stray l a = some l') : Kept l' := by
  have hman := step_man hs
  have hplaces := step_runInv stray h.places hman
  have hsched : ∀ sched : List (List ε), Kept { l with man := { l.man with sched := sched } } := by
    intro sched
    refine h.still ⟨⟨h.places.inv.placed, h.places.inv.counted, h.places.inv.limit,
      h.places.inv.tagged⟩, h.places.unused, h.places.fresh⟩ ?_
    exact ⟨rfl, rfl, rfl, rfl, .refl _⟩
  cases a with
  | reserve size ctxId plan sched =>
    simp only [step] at hs
    split_ifs at hs with hlocked
    cases hs
    obtain ⟨hpacked, hheld⟩ := (hsched sched).packed.reserveCur (H := H) (hsched sched).places.inv
      (by simpa using hlocked) size ctxId plan
    exact ⟨hplaces, hpacked, hheld⟩
  | commit cmds flush sched =>
    simp only [step] at hs
    split at hs
    · cases hs
    · next id hcur =>
      split_ifs at hs with hno
      push Not at hno
      cases hs
      refine ⟨hplaces, ?_, held_of_unlocked rfl⟩
      exact (hsched sched).packed.commitCur (hsched sched).held (hsched sched).places.inv hcur
        (by simpa using hno.1) hno.2 flush
  | alloc size plan sched =>
    obtain ⟨hpacked, hheld, hfresh⟩ := alloc_fresh (H := H) (hsched sched).places.inv
      (hsched sched).packed size plan
    have hheld := hheld (hsched sched).held
    cases hs
    refine ⟨hplaces, ⟨hpacked.current, hpacked.idle, ?_, hpacked.small, hpacked.given⟩, hheld⟩
    intro id hid
    cases List.mem_append.1 hid with
    | inl hnew =>
      refine ⟨hfresh.empty id (Option.mem_toList.1 hnew), ?_⟩
      exact (hfresh.unreserved id (Option.mem_toList.1 hnew)).trans_le (Nat.zero_le _)
    | inr hold => exact hpacked.hands id hold
  | commitHeader id cmds flush sched =>
    simp only [step] at hs
    split_ifs at hs with hno
    push Not at hno
    cases hs
    have hlocked : l.man.curLocked = false := by simpa using hno.1
    refine ⟨hplaces, (hsched sched).packed.commit hno.2.1 hno.2.2 flush, held_of_unlocked ?_⟩
    rw [commit_man, vmwCmdbufCommit_locked]
    exact hlocked
  | curFlush sched =>
    simp only [step] at hs
    split_ifs at hs with hlocked
    cases hs
    refine ⟨hplaces, (hsched sched).packed.curFlush, held_of_unlocked ?_⟩
    exact (vmwCmdbufCurFlush_still H _ (hsched sched).packed.idle).locked.trans
      (by simpa using hlocked)
  | ctxAdd => cases hs
  | reserveHeader id size ctxId =>
    simp only [step, Option.map_eq_some_iff] at hs
    obtain ⟨t, ht, rfl⟩ := hs
    cases step_took H stray ht with
    | reserveFails => exact h
    | reserveHeader hid hfits =>
      refine ⟨hplaces, h.packed.mark rfl hfits, ?_⟩
      intro hl i hi
      have hne : i ≠ id := by
        rintro rfl
        exact (inv_absent (curOut_inv h.places.inv hi)).1 hid
      simp only [setHeader, Function.update_of_ne hne]
      exact h.held hl i hi
  | headerFree id =>
    simp only [step, Option.map_eq_some_iff] at hs
    obtain ⟨t, ht, rfl⟩ := hs
    cases step_took H stray ht with
    | headerFree hid =>
      refine ⟨hplaces, ⟨h.packed.current, h.packed.idle, ?_, h.packed.small, h.packed.given⟩, h.held⟩
      exact fun i hi => h.packed.hands i (List.mem_of_mem_filter hi)
  | _ =>
    simp only [step, Option.map_eq_some_iff] at hs
    obtain ⟨t, ht, rfl⟩ := hs
    refine h.still hplaces (took_still (step_took H stray ht) ?_)
    rfl

end Packed

theorem create_kept (dev : σ) (hpQueue usingMob : Bool) : Kept (create H dev hpQueue usingMob) := by
  refine ⟨⟨create_inv H dev hpQueue usingMob, fun _ _ => rfl, fun _ _ => rfl⟩,
    ⟨fun _ hid => (by cases hid), fun _ => rfl, fun _ hid => (by cases hid), ?_,
      fun _ hg => (by cases hg)⟩, held_of_unlocked rfl⟩
  intro id
  have hsame := sameSpace_of_touched (applyWrites_touched (fun _ => freshHeader 0 0 false false)
    (H.command dev (.startStop true)).2.1) id
  exact hsame.1.trans_le (Nat.zero_le _)

/-- The regions of a buffer of `size` bytes, of which `length` are committed. -/
structure Laid (rs : List Region) (length size : ℕ) : Prop where
  contiguous : Contiguous 0 rs length
  disjoint : rs.Pairwise fun r r' => r.offset + r.size ≤ r'.offset
  inside : ∀ r ∈ rs, r.offset + r.size ≤ size
  length_eq : length = total rs

theorem Contiguous.laid {rs : List Region} {length size : ℕ} (h : Contiguous 0 rs length)
    (hsize : length ≤ size) : Laid rs length size where
  contiguous := h
  disjoint := h.disjoint
  inside := fun r hr => (h.inside r hr).2.trans hsize
  length_eq := h.total_eq.trans (Nat.zero_add _)

variable {H stray}

/-- A flush hands the buffer to `vmw_cmdbuf_ctx_add` with the length that is noted, or hands
    nothing over. -/
def FlushNoted (H : Host σ ε) (l : Ledger σ ε) : Prop :=
  (∀ g, submission l = some g → ∃ s, (curFlush H l).man = vmwCmdbufCtxAdd H s g.id .zero ∧
    (s.headers g.id).length = g.length ∧ (s.headers g.id).size = g.size) ∧
  (submission l = none →
    (curFlush H l).man.ctx = l.man.ctx ∧ (curFlush H l).man.added = l.man.added)

theorem runs_man {l l' : Ledger σ ε} {as : List (Act ε)}
    (h : Runs (step H stray) anyLabel l as l') :
    Runs (CmdbufMachine.step H stray) anyLabel l.man as l'.man := by
  induction h with
  | refl l => exact .refl _
  | next ok hstep _ ih => exact .next ok (step_man hstep) ih

/-- In every run the regions of the current buffer lie one behind the other, and so do those
    of a buffer that a flush submits, with their sum as its length; none is submitted empty.
    The sum in the test of `vmw_cmdbuf_reserve_cur` is exact for the `uint32_t` of its callers.
    The run is one of the manager, and what is noted is what its flush submits. -/
theorem commits_contiguous {dev : σ} {hpQueue usingMob : Bool} {as : List (Act ε)}
    {l : Ledger σ ε} (h : Runs (step H stray) anyLabel (create H dev hpQueue usingMob) as l) :
    (∀ id, l.man.cur = some id → Laid (l.regions id) l.man.curPos (l.man.headers id).size) ∧
      (∀ g ∈ l.given, Laid g.regions g.length g.size ∧ 0 < g.length) ∧
      (∀ size < 2 ^ 32, (size + l.man.curPos) % 2 ^ 64 = size + l.man.curPos) ∧
      Runs (CmdbufMachine.step H stray) anyLabel (vmwCmdbufManCreate H dev hpQueue usingMob) as
        l.man ∧ FlushNoted H l := by
  have hkept := h.invariant Kept (create_kept H dev hpQueue usingMob)
    fun _ _ _ hi _ hs => step_kept hi hs
  refine ⟨?_, ?_, ?_, runs_man h, fun _ => curFlush_submits H, curFlush_quiet H⟩
  · intro id hid
    obtain ⟨hregions, hsize⟩ := hkept.packed.current id hid
    exact hregions.laid hsize
  · intro g hg
    obtain ⟨hregions, hpos, hsize⟩ := hkept.packed.given g hg
    exact ⟨hregions.laid hsize, hpos⟩
  · intro size hsize
    have hpos : l.man.curPos ≤ poolSize := by
      cases hcur : l.man.cur with
      | none => exact (hkept.packed.idle hcur).trans_le (Nat.zero_le _)
      | some id => exact (hkept.packed.current id hcur).2.trans (hkept.packed.small id)
    unfold poolSize at hpos
    omega

theorem eight_pos : 0 < 8 := by decide

/-- Two commits into the current buffer, then one into a caller's own buffer. -/
def mixedCalls : List (Act Unit) :=
  [.reserve 16 3 ⟨5, 0, true, 0⟩ [], .commit [⟨0, 8, true, 0, eight_pos⟩] false [],
    .reserve 24 3 ⟨6, 0, true, 0⟩ [], .commit [⟨1, 24, true, 0, by decide⟩] false [],
    .alloc 64 ⟨7, 0, true, 0⟩ [], .reserveHeader 7 64 3,
    .commitHeader 7 [⟨2, 40, true, 0, by decide⟩] true []]

theorem mixed_calls_contiguous : ∃ l : Ledger Unit Unit,
    Runs (step eagerHost fun _ _ => none) anyLabel (create eagerHost () true false) mixedCalls l ∧
      l.given = [⟨5, 960, 32, [⟨0, 8⟩, ⟨8, 24⟩]⟩, ⟨7, 960, 40, [⟨0, 40⟩]⟩] ∧
      ∀ g ∈ l.given, Laid g.regions g.length g.size ∧ 0 < g.length := by
  have h : Runs (step eagerHost fun _ _ => none) anyLabel (create eagerHost () true false)
      mixedCalls _ := runs_of_exec rfl
  exact ⟨_, h, rfl, (commits_contiguous h).2.1⟩

end Vmwgfx.CmdbufRegions
