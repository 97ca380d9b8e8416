import Vmwgfx.CmdbufMachine

set_option autoImplicit false

/-!
# Every header is in one place

Headers move between the current buffer, the queues of a context, the error list, the
work function's restart lists and a caller's hands. Whatever the device does, each live
header is in exactly one of them, and the count of submitted headers is right.
-/
namespace Vmwgfx.CmdbufPlaces
open Word32 LabelledRuns CmdbufMachine

variable {σ ε : Type} {H : Host σ ε} (stray : ℕ → ℕ → Option ℕ)

def ctxHolds (x : Context) (id : ℕ) : ℕ :=
  x.submitted.count id + x.hwSubmitted.count id + x.preempted.count id

/-- In how many places a header is; the work function and the callers count as
    places for what they hold. -/
def holders (s : Man σ ε) (id : ℕ) : ℕ :=
  s.cur.toList.count id + ctxHolds (s.ctx .zero) id + ctxHolds (s.ctx .one) id +
    s.error.count id + (s.restartHead .zero).count id + (s.restartHead .one).count id +
    s.hands.count id

/-- The number of submitted headers is right and within the device's limit. -/
def Counted (s : Man σ ε) : Prop :=
  ∀ c, (s.ctx c).numHwSubmitted = (s.ctx c).hwSubmitted.length ∧
    (s.ctx c).numHwSubmitted ≤ s.maxHwSubmitted

/-- The invariant, with `extra` the headers that are on their way to a new place. -/
structure Inv (s : Man σ ε) (extra : List ℕ) : Prop where
  placed : ∀ id, holders s id + extra.count id = if id ∈ s.live then 1 else 0
  counted : Counted s
  limit : s.maxHwSubmitted = 31
  tagged : ∀ id, (s.headers id).cbContext ∈ contexts s

theorem zero_mem_contexts (s : Man σ ε) : Cb.zero ∈ contexts s := by
  unfold contexts
  split_ifs <;> simp

theorem touched_tagged {s : Man σ ε} (h : ∀ id, (s.headers id).cbContext ∈ contexts s)
    {headers : ℕ → Header} (ht : Touched s.headers headers) (id : ℕ) :
    (headers id).cbContext ∈ contexts s := by
  obtain ⟨_, _, he⟩ := ht id
  rw [he]
  exact h id

theorem update_tagged {s : Man σ ε} (h : ∀ id, (s.headers id).cbContext ∈ contexts s) (id : ℕ)
    {x : Header} (hx : x.cbContext ∈ contexts s) (i : ℕ) :
    (Function.update s.headers id x i).cbContext ∈ contexts s := by
  by_cases hi : i = id
  · subst hi
    rw [Function.update_self]
    exact hx
  · rw [Function.update_of_ne hi]
    exact h i

theorem create_inv (H : Host σ ε) (dev : σ) (hpQueue usingMob : Bool) :
    Inv (vmwCmdbufManCreate H dev hpQueue usingMob) [] := by
  refine ⟨?_, ?_, rfl, ?_⟩
  · intro id
    simp [holders, ctxHolds, vmwCmdbufManCreate]
  · intro c
    exact ⟨rfl, Nat.zero_le _⟩
  · intro id
    obtain ⟨_, _, he⟩ := applyWrites_touched (fun _ => freshHeader 0 0 false false)
      (H.command dev (.startStop true)).2.1 id
    change (applyWrites _ _ id).cbContext ∈ _
    rw [he]
    exact zero_mem_contexts _

theorem tick_inv {s : Man σ ε} {e : List ℕ} (h : Inv s e) : Inv (tick H s) e := by
  obtain ⟨_, _, _, he, ht⟩ := tick_eq H s
  rw [he]
  exact ⟨h.placed, h.counted, h.limit, touched_tagged h.tagged ht⟩

theorem setHeader_inv {s : Man σ ε} {e : List ℕ} (h : Inv s e) {id : ℕ} {x : Header}
    (hx : x.cbContext ∈ contexts s) : Inv (setHeader s id x) e :=
  ⟨h.placed, h.counted, h.limit, update_tagged h.tagged id hx⟩

theorem headerSubmit_inv {s : Man σ ε} {e : List ℕ} (h : Inv s e) (c : Cb) (id : ℕ) :
    Inv (headerSubmit H s c id) e := by
  obtain ⟨_, _, _, _, he, ht, _⟩ := headerSubmit_eq H s c id
  rw [he]
  exact ⟨h.placed, h.counted, h.limit, touched_tagged h.tagged ht⟩

theorem holders_setCtx (s : Man σ ε) (c : Cb) (x : Context) (id : ℕ) :
    holders (setCtx s c x) id + ctxHolds (s.ctx c) id = holders s id + ctxHolds x id := by
  cases c <;> simp [holders, setCtx, Function.update] <;> omega

theorem setCtx_inv {s : Man σ ε} {c : Cb} {x : Context} {e e' : List ℕ} (h : Inv s e)
    (hx : ∀ id, ctxHolds x id + e'.count id = ctxHolds (s.ctx c) id + e.count id)
    (hn : x.numHwSubmitted = x.hwSubmitted.length ∧ x.numHwSubmitted ≤ s.maxHwSubmitted) :
    Inv (setCtx s c x) e' := by
  refine ⟨?_, ?_, h.limit, h.tagged⟩
  · intro id
    have h₁ := h.placed id
    have h₂ := holders_setCtx s c x id
    have h₃ := hx id
    change holders (setCtx s c x) id + e'.count id = if id ∈ s.live then 1 else 0
    omega
  · intro c'
    by_cases hc : c' = c
    · subst hc
      simpa [setCtx] using hn
    · have := h.counted c'
      simpa [setCtx, Function.update_of_ne hc] using this

theorem moveToHw_inv {s : Man σ ε} {c : Cb} {id : ℕ} {rest e : List ℕ} (h : Inv s e)
    (hl : (s.ctx c).submitted = id :: rest) (hlt : (s.ctx c).numHwSubmitted < s.maxHwSubmitted) :
    Inv (moveToHw s c id rest) e := by
  refine setCtx_inv h ?_ ?_
  · intro x
    simp only [ctxHolds, hl, List.count_append, List.count_cons, List.count_nil]
    omega
  · have hc := h.counted c
    have hlim := h.limit
    dsimp only
    rw [addU32_of_lt (by omega), List.length_append, List.length_singleton]
    omega

theorem headerFree_inv {s : Man σ ε} {id : ℕ} {e : List ℕ} (h : Inv s (id :: e)) :
    Inv (headerFree s id) e := by
  refine ⟨?_, h.counted, h.limit, h.tagged⟩
  intro x
  have hx := h.placed x
  change holders s x + e.count x = if x ∈ s.live.filter (· ≠ id) then 1 else 0
  by_cases hid : x = id
  · subst hid
    simp only [List.count_cons_self] at hx
    split_ifs at hx with hlive
    · simp
      omega
  · simpa [List.count_cons, hid, Ne.symm hid] using hx

theorem settle_inv {s : Man σ ε} {c : Cb} {id : ℕ} {e : List ℕ} (h : Inv s (id :: e))
    (st : Status) : Inv (settle s c id st) e := by
  cases st with
  | commandError =>
    refine ⟨?_, h.counted, h.limit, update_tagged h.tagged id (h.tagged id)⟩
    intro x
    refine Eq.trans ?_ (h.placed x)
    simp only [settle, setStatus, setHeader, holders, List.count_append, List.count_cons,
      List.count_nil]
    omega
  | preempted =>
    refine setCtx_inv (setHeader_inv h (h.tagged id)) ?_ (h.counted c)
    intro x
    simp only [setStatus, setHeader, ctxHolds, List.count_append, List.count_cons, List.count_nil]
    omega
  | none => exact headerFree_inv h
  | completed => exact headerFree_inv h
  | queueFull => exact headerFree_inv h
  | cbHeaderError => exact headerFree_inv h
  | submissionError => exact headerFree_inv h
  | partialComplete => exact headerFree_inv h
  | other code => exact headerFree_inv h

theorem takeHw_inv {s : Man σ ε} {c : Cb} {id : ℕ} {rest e : List ℕ} (h : Inv s e)
    (hl : (s.ctx c).hwSubmitted = id :: rest) : Inv (takeHw s c rest) (id :: e) := by
  refine setCtx_inv h ?_ ?_
  · intro x
    simp only [ctxHolds, hl, List.count_cons]
    omega
  · have hc := h.counted c
    have hlim := h.limit
    rw [hl, List.length_cons] at hc
    dsimp only
    rw [subU32_of_le (by omega) (by omega)]
    omega

theorem inv_rule (H : Host σ ε) (e : List ℕ) :
    ProcessRule H fun s t : Man σ ε => Inv s e → Inv t e where
  refl := fun _ h => h
  trans := fun h h' hs => h' (h hs)
  tick := fun _ h => tick_inv h
  full := by
    intro s c id rest _ _ _ h
    have hs := headerSubmit_inv (H := H) h c id
    exact setHeader_inv hs (hs.tagged id)
  move := by
    intro s c id rest hl hlt _ _ h
    have hs := headerSubmit_inv (H := H) h c id
    obtain ⟨_, _, _, _, he, _⟩ := headerSubmit_eq H s c id
    exact moveToHw_inv hs (by rw [he]; exact hl) (by rw [he]; exact hlt)
  settle := fun hl _ h => settle_inv (takeHw_inv h hl) _
  irq := fun _ _ h => ⟨h.placed, h.counted, h.limit, h.tagged⟩

theorem vmwCmdbufCtxProcess_inv {s : Man σ ε} {e : List ℕ} (h : Inv s e) (c : Cb) :
    Inv (vmwCmdbufCtxProcess H s c) e := (inv_rule H e).ctxProcess s c h

theorem vmwCmdbufManProcess_inv {s : Man σ ε} {e : List ℕ} (h : Inv s e) :
    Inv (vmwCmdbufManProcess H s) e := (inv_rule H e).manProcess s h

theorem enqueue_inv {s : Man σ ε} {id : ℕ} {e : List ℕ} (h : Inv s (id :: e)) {c : Cb}
    (hc : c ∈ contexts s) : Inv (enqueue s id c) e := by
  have hset : Inv (setCtx s c { s.ctx c with submitted := (s.ctx c).submitted ++ [id] }) e := by
    refine setCtx_inv h ?_ (h.counted c)
    intro x
    simp only [ctxHolds, List.count_append, List.count_cons, List.count_nil]
    omega
  exact ⟨hset.placed, hset.counted, hset.limit, update_tagged h.tagged id hc⟩

theorem vmwCmdbufCtxAdd_inv {s : Man σ ε} {id : ℕ} {e : List ℕ} (h : Inv s (id :: e)) {c : Cb}
    (hc : c ∈ contexts s) : Inv (vmwCmdbufCtxAdd H s id c) e :=
  vmwCmdbufManProcess_inv (enqueue_inv h hc)

theorem curOut_inv {s : Man σ ε} {id : ℕ} {e : List ℕ} (h : Inv s e) (hcur : s.cur = some id) :
    Inv { s with cur := none, curPos := 0 } (id :: e) := by
  refine ⟨?_, h.counted, h.limit, h.tagged⟩
  intro x
  refine Eq.trans ?_ (h.placed x)
  simp only [holders, hcur, Option.toList_some, Option.toList_none, List.count_cons,
    List.count_nil]
  omega

theorem vmwCmdbufCurFlush_inv {s : Man σ ε} {e : List ℕ} (h : Inv s e) :
    Inv (vmwCmdbufCurFlush H s) e := by
  unfold vmwCmdbufCurFlush
  cases hcur : s.cur with
  | none => exact h
  | some id =>
    have hout := curOut_inv h hcur
    dsimp only
    split_ifs
    · exact headerFree_inv hout
    · refine vmwCmdbufCtxAdd_inv (setHeader_inv hout ?_) (zero_mem_contexts _)
      exact h.tagged id

theorem inv_absent {s : Man σ ε} {id : ℕ} {e : List ℕ} (h : Inv s (id :: e)) :
    id ∉ s.hands ∧ id ∉ s.cur := by
  have hid := h.placed id
  rw [List.count_cons_self] at hid
  have hzero : holders s id = 0 := by
    split_ifs at hid
    omega
  unfold holders at hzero
  refine ⟨List.count_eq_zero.1 (by omega), ?_⟩
  have hcur : id ∉ s.cur.toList := List.count_eq_zero.1 (by omega)
  simpa using hcur

theorem newHeader_inv {s : Man σ ε} {e : List ℕ} (h : Inv s e) (plan : Plan) (size : ℕ)
    (inl mob : Bool) : let x := freshHeader size plan.ptr inl mob
    Inv (newHeader s plan x).2 ((newHeader s plan x).1.toList ++ e) := by
  unfold newHeader
  dsimp only
  split_ifs with hno
  · exact h
  · push Not at hno
    refine ⟨?_, h.counted, h.limit, update_tagged h.tagged _ (zero_mem_contexts s)⟩
    intro id
    have hid := h.placed id
    change holders s id + ([plan.id] ++ e).count id = if id ∈ plan.id :: s.live then 1 else 0
    rw [List.count_append, List.count_singleton]
    by_cases heq : plan.id = id
    · subst heq
      rw [if_neg hno.2] at hid
      simp
      omega
    · simp only [beq_iff_eq, heq, if_false, zero_add, hid, List.mem_cons, Ne.symm heq, false_or]

theorem vmwCmdbufAlloc_inv {s : Man σ ε} {e : List ℕ} (h : Inv s e) (size : ℕ) (plan : Plan) :
    Inv (vmwCmdbufAlloc H s size plan).2 ((vmwCmdbufAlloc H s size plan).1.toList ++ e) := by
  have hpolls := (inv_rule H e).iterate plan.polls s h
  unfold vmwCmdbufAlloc
  dsimp only
  split_ifs
  · exact newHeader_inv h plan _ _ _
  · exact h
  · exact hpolls
  · exact newHeader_inv hpolls plan _ _ _

theorem setCur_inv {s : Man σ ε} {o : Option ℕ} {e : List ℕ} (h : Inv s (o.toList ++ e))
    (hc : s.cur = none) (pos : ℕ) : Inv { s with cur := o, curPos := pos } e := by
  refine ⟨?_, h.counted, h.limit, h.tagged⟩
  intro id
  refine Eq.trans ?_ (h.placed id)
  simp only [holders, hc, Option.toList_none, List.count_nil, List.count_append]
  omega

theorem ensureCur_inv {s : Man σ ε} {e : List ℕ} (h : Inv s e) (size : ℕ) (plan : Plan) :
    Inv (ensureCur H s size plan).2 e := by
  unfold ensureCur
  cases hcur : s.cur with
  | some id => exact h
  | none =>
    obtain ⟨_, _, _, _, _, _, _, _, _, hp⟩ :=
      vmwCmdbufAlloc_processed H s (Nat.max size s.defaultSize) plan
    exact setCur_inv (vmwCmdbufAlloc_inv h _ plan) (by rw [hp]; exact hcur) _

theorem vmwCmdbufReserveCur_inv {s : Man σ ε} {e : List ℕ} (h : Inv s e) (size ctxId : ℕ)
    (plan : Plan) : Inv (vmwCmdbufReserveCur H s size ctxId plan) e := by
  have hflush : Inv (if mustFlush s size ctxId then vmwCmdbufCurFlush H s else s) e := by
    split_ifs
    · exact vmwCmdbufCurFlush_inv h
    · exact h
  have hcur := ensureCur_inv (H := H) hflush size plan
  unfold vmwCmdbufReserveCur
  dsimp only
  split
  · exact hcur
  · rename_i id _
    exact ⟨hcur.placed, hcur.counted, hcur.limit, update_tagged hcur.tagged id (hcur.tagged id)⟩

theorem vmwCmdbufCommitCur_inv {s : Man σ ε} {e : List ℕ} (h : Inv s e) (id : ℕ)
    (cmds : List Command) (flush : Bool) : Inv (vmwCmdbufCommitCur H s id cmds flush) e := by
  have hset : Inv (setHeader { s with curPos := s.curPos + totalSize cmds } id
      (commitIn (s.headers id) cmds)) e :=
    ⟨h.placed, h.counted, h.limit, update_tagged h.tagged id (h.tagged id)⟩
  have hflush : Inv (if flush then vmwCmdbufCurFlush H (setHeader
      { s with curPos := s.curPos + totalSize cmds } id (commitIn (s.headers id) cmds))
      else setHeader { s with curPos := s.curPos + totalSize cmds } id
        (commitIn (s.headers id) cmds)) e := by
    split_ifs
    · exact vmwCmdbufCurFlush_inv hset
    · exact hset
  exact ⟨hflush.placed, hflush.counted, hflush.limit, hflush.tagged⟩

theorem hands_inv {s : Man σ ε} {id : ℕ} {e : List ℕ} (h : Inv s e) (hid : id ∈ s.hands) :
    Inv { s with hands := s.hands.filter (· ≠ id) } (id :: e) := by
  refine ⟨?_, h.counted, h.limit, h.tagged⟩
  intro x
  have hx := h.placed x
  refine Eq.trans ?_ hx
  by_cases heq : x = id
  · subst heq
    have hpos := List.count_pos_iff.2 hid
    have hle : s.hands.count x ≤ 1 := by
      have : holders s x ≤ 1 := by
        split_ifs at hx <;> omega
      exact le_trans (by unfold holders; omega) this
    have hzero : (s.hands.filter (· ≠ x)).count x = 0 := by simp [List.count_eq_zero]
    simp only [holders, List.count_cons_self, hzero]
    omega
  · have hsame : (s.hands.filter (· ≠ id)).count x = s.hands.count x :=
      List.count_filter (by simpa using heq)
    simp only [holders, hsame, List.count_cons, beq_iff_eq, Ne.symm heq, if_false, add_zero]

theorem vmwCmdbufCommit_inv {s : Man σ ε} {id : ℕ} {e : List ℕ} (h : Inv s e)
    (hid : id ∈ s.hands) (cmds : List Command) (flush : Bool) :
    Inv (vmwCmdbufCommit H s id cmds flush) e := by
  have hf := vmwCmdbufCurFlush_inv (H := H) h
  obtain ⟨_, _, _, _, _, _, _, _, _, _, _, hp⟩ := vmwCmdbufCurFlush_processed H s
  have hhands : id ∈ (vmwCmdbufCurFlush H s).hands := by rw [hp]; exact hid
  have hset := setCur_inv (o := some id) (hands_inv hf hhands) (by rw [hp]) (totalSize cmds)
  unfold vmwCmdbufCommit
  dsimp only
  split_ifs
  · exact vmwCmdbufCurFlush_inv (setHeader_inv hset (hf.tagged id))
  · exact setHeader_inv hset (hf.tagged id)

theorem restartEntry_inv {s : Man σ ε} {id : ℕ} {e : List ℕ} (h : Inv s (id :: e)) :
    Inv (restartEntry stray s id) e := by
  have hfree : Inv { headerFree s id with sendFence := true } e := by
    have := headerFree_inv h
    exact ⟨this.placed, this.counted, this.limit, this.tagged⟩
  unfold restartEntry
  dsimp only
  split
  · exact hfree
  · split_ifs
    · exact hfree
    all_goals
      refine ⟨?_, h.counted, h.limit, update_tagged h.tagged id (h.tagged id)⟩
      intro x
      refine Eq.trans ?_ (h.placed x)
      cases hc : (s.headers id).cbContext <;>
        simp [holders, setHeader, Function.update, List.count_cons] <;> omega

theorem foldl_restartEntry_inv (l : List ℕ) {s : Man σ ε} {e : List ℕ} (h : Inv s (l ++ e)) :
    Inv (l.foldl (restartEntry stray) s) e := by
  induction l generalizing s with
  | nil => exact h
  | cons id l ih => exact ih (restartEntry_inv stray h)

theorem errorsOut_inv {s : Man σ ε} (h : Inv s []) (hr : ∀ c, s.restartHead c = []) :
    Inv { s with
      error := [], workScheduled := false, sendFence := false
      globalBlock := !s.error.isEmpty, restartHead := fun _ => [] } (s.error ++ []) := by
  refine ⟨?_, h.counted, h.limit, h.tagged⟩
  intro x
  refine Eq.trans ?_ (h.placed x)
  simp only [holders, hr, List.count_nil, List.append_nil]
  omega

theorem workCollect_inv {s : Man σ ε} (h : Inv s []) (hr : ∀ c, s.restartHead c = []) :
    Inv (workCollect stray s) [] := by
  have hall := foldl_restartEntry_inv stray s.error (errorsOut_inv h hr)
  refine ⟨?_, ?_, hall.limit, hall.tagged⟩
  · intro x
    refine Eq.trans ?_ (hall.placed x)
    simp only [workCollect, blockAll, holders]
    congr 6 <;> (split_ifs <;> rfl)
  · intro c
    have := hall.counted c
    simp only [workCollect, blockAll]
    split_ifs <;> exact this

theorem restartCtx_inv {s : Man σ ε} {e : List ℕ} (h : Inv s e) (c : Cb) :
    Inv (restartCtx H s c) e := by
  have hp := vmwCmdbufCtxProcess_inv (H := H) h c
  unfold restartCtx
  set t := vmwCmdbufCtxProcess H s c with ht
  refine ⟨?_, ?_, hp.limit, hp.tagged⟩
  · intro x
    refine Eq.trans ?_ (hp.placed x)
    cases c <;> simp [holders, setCtx, ctxHolds, Function.update, List.count_append] <;> omega
  · intro c'
    have hc := hp.counted c'
    by_cases heq : c' = c
    · subst heq
      simpa [setCtx] using hc
    · simpa [setCtx, Function.update_of_ne heq] using hc

theorem foldl_restartCtx_inv (l : List Cb) {s : Man σ ε} {e : List ℕ} (h : Inv s e) :
    Inv (l.foldl (restartCtx H) s) e := by
  induction l generalizing s with
  | nil => exact h
  | cons c l ih => exact ih (restartCtx_inv h c)

theorem workRestart_inv {s : Man σ ε} {e : List ℕ} (h : Inv s e) : Inv (workRestart H s) e := by
  have := vmwCmdbufManProcess_inv (H := H) (foldl_restartCtx_inv (H := H) (contexts s) h)
  exact ⟨this.placed, this.counted, this.limit, this.tagged⟩

theorem sendDeviceCommand_inv {s : Man σ ε} {e : List ℕ} (h : Inv s e) (ok : Bool)
    (cmd : DeviceCommand) : Inv (sendDeviceCommand H s ok cmd).2 e := by
  unfold sendDeviceCommand
  split_ifs
  · have ht := tick_inv (H := H) h
    exact ⟨ht.placed, ht.counted, ht.limit, touched_tagged ht.tagged (applyWrites_touched _ _)⟩
  · exact h

/-- The invariant of whole runs: only the work function's two critical sections
    leave anything on its restart lists. -/
structure RunInv (s : Man σ ε) : Prop where
  inv : Inv s []
  unused : ∀ c ∉ contexts s, s.restartHead c = []
  fresh : s.phase = .idle ∨ s.phase = .restarted → ∀ c, s.restartHead c = []

theorem RunInv.same {s t : Man σ ε} (h : RunInv s) (hi : Inv t []) (hw : SameWork s t) :
    RunInv t := by
  obtain ⟨hphase, hrestart, _, hhp⟩ := hw
  have hctx : contexts t = contexts s := by simp only [contexts, hhp]
  refine ⟨hi, ?_, ?_⟩
  · rw [hctx, hrestart]
    exact h.unused
  · rw [hphase, hrestart]
    exact h.fresh

theorem restartEntry_restart (s : Man σ ε) (id : ℕ)
    (ht : ∀ id, (s.headers id).cbContext ∈ contexts s) :
    contexts (restartEntry stray s id) = contexts s ∧
      ∀ c ∉ contexts s, (restartEntry stray s id).restartHead c = s.restartHead c := by
  unfold restartEntry
  dsimp only
  split
  · exact ⟨rfl, fun _ _ => rfl⟩
  · split_ifs
    · exact ⟨rfl, fun _ _ => rfl⟩
    all_goals
      refine ⟨rfl, ?_⟩
      intro c hc
      refine Function.update_of_ne ?_ _ _
      rintro rfl
      exact hc (ht id)

theorem foldl_restartEntry_restart (l : List ℕ) {s : Man σ ε} {e : List ℕ} (h : Inv s (l ++ e)) :
    contexts (l.foldl (restartEntry stray) s) = contexts s ∧
      ∀ c ∉ contexts s, (l.foldl (restartEntry stray) s).restartHead c = s.restartHead c := by
  induction l generalizing s with
  | nil => exact ⟨rfl, fun _ _ => rfl⟩
  | cons id l ih =>
    obtain ⟨hctx, hr⟩ := restartEntry_restart stray s id h.tagged
    obtain ⟨hctx', hr'⟩ := ih (restartEntry_inv stray h)
    refine ⟨hctx'.trans hctx, ?_⟩
    intro c hc
    exact (hr' c (hctx ▸ hc)).trans (hr c hc)

theorem workCollect_runInv {s : Man σ ε} (h : RunInv s) (hidle : s.phase = .idle) :
    RunInv (workCollect stray s) := by
  have hnone := h.fresh (.inl hidle)
  have hout := errorsOut_inv h.inv hnone
  obtain ⟨hctx, hr⟩ := foldl_restartEntry_restart stray s.error hout
  refine ⟨workCollect_inv stray h.inv hnone, ?_, ?_⟩
  · intro c hc
    exact hr c (hctx ▸ hc)
  · rintro (hp | hp) <;> cases hp

theorem restartCtx_restart (s : Man σ ε) (c c' : Cb) :
    contexts (restartCtx H s c) = contexts s ∧
      (restartCtx H s c).restartHead c' = if c' = c then [] else s.restartHead c' := by
  obtain ⟨_, hr, _, hhp⟩ := ((processed_rule H).ctxProcess s c).sameWork
  refine ⟨?_, ?_⟩
  · change contexts (vmwCmdbufCtxProcess H s c) = contexts s
    simp only [contexts, hhp]
  · change Function.update (vmwCmdbufCtxProcess H s c).restartHead c [] c' = _
    rw [hr, Function.update_apply]

theorem foldl_restartCtx_restart (l : List Cb) (s : Man σ ε) (c' : Cb) :
    contexts (l.foldl (restartCtx H) s) = contexts s ∧
      (l.foldl (restartCtx H) s).restartHead c' = if c' ∈ l then [] else s.restartHead c' := by
  induction l generalizing s with
  | nil => simp
  | cons c l ih =>
    obtain ⟨hctx, hr⟩ := restartCtx_restart (H := H) s c c'
    obtain ⟨hctx', hr'⟩ := ih (restartCtx H s c)
    refine ⟨hctx'.trans hctx, ?_⟩
    rw [List.foldl_cons, hr', hr]
    by_cases h₁ : c' ∈ l <;> by_cases h₂ : c' = c <;> simp [h₁, h₂]

theorem workRestart_runInv {s : Man σ ε} (h : RunInv s) : RunInv (workRestart H s) := by
  obtain ⟨_, hr, _, hhp⟩ := (vmwCmdbufManProcess_processed H
    ((contexts s).foldl (restartCtx H) s)).sameWork
  have hall : ∀ c, (workRestart H s).restartHead c = [] := by
    intro c
    have hc := (foldl_restartCtx_restart (H := H) (contexts s) s c).2
    change (vmwCmdbufManProcess H ((contexts s).foldl (restartCtx H) s)).restartHead c = []
    rw [hr, hc]
    split_ifs with hin
    · rfl
    · exact h.unused c hin
  exact ⟨workRestart_inv h.inv, fun c _ => hall c, fun _ => hall⟩

theorem step_runInv {s t : Man σ ε} {a : Act ε} (h : RunInv s)
    (hs : step H stray s a = some t) : RunInv t := by
  have hsched : ∀ sched : List (List ε), RunInv { s with sched := sched } := fun sched =>
    ⟨⟨h.inv.placed, h.inv.counted, h.inv.limit, h.inv.tagged⟩, h.unused, h.fresh⟩
  cases step_took H stray hs with
  | @reserve _ _ _ sched =>
    exact (hsched sched).same (vmwCmdbufReserveCur_inv (hsched sched).inv _ _ _)
      (vmwCmdbufReserveCur_sameWork H _ _ _ _)
  | @commit _ _ sched =>
    exact (hsched sched).same (vmwCmdbufCommitCur_inv (hsched sched).inv _ _ _)
      (vmwCmdbufCommitCur_sameWork H _ _ _ _)
  | @alloc size plan sched =>
    have hi := vmwCmdbufAlloc_inv (H := H) (hsched sched).inv size plan
    have hw := (vmwCmdbufAlloc_processed H { s with sched := sched } size plan).sameWork
    refine (hsched sched).same ⟨?_, hi.counted, hi.limit, hi.tagged⟩ hw
    intro id
    refine Eq.trans ?_ (hi.placed id)
    simp only [holders, List.count_append, List.count_nil]
    omega
  | reserveFails => exact h
  | @reserveHeader id =>
    exact h.same (setHeader_inv h.inv (h.inv.tagged id)) ⟨rfl, rfl, rfl, rfl⟩
  | @commitHeader _ _ _ sched _ hid =>
    exact (hsched sched).same (vmwCmdbufCommit_inv (hsched sched).inv hid _ _)
      (vmwCmdbufCommit_sameWork H _ _ _ _)
  | headerFree hid =>
    have hfree := headerFree_inv (hands_inv h.inv hid)
    exact h.same ⟨hfree.placed, hfree.counted, hfree.limit, hfree.tagged⟩ ⟨rfl, rfl, rfl, rfl⟩
  | @ctxAdd id _ _ _ hid hc =>
    have hout := hands_inv h.inv hid
    refine h.same (vmwCmdbufCtxAdd_inv ?_ hc) (vmwCmdbufCtxAdd_sameWork H _ _ _)
    exact ⟨hout.placed, hout.counted, hout.limit, update_tagged h.inv.tagged id (h.inv.tagged id)⟩
  | @curFlush sched =>
    exact (hsched sched).same (vmwCmdbufCurFlush_inv (hsched sched).inv)
      (vmwCmdbufCurFlush_sameWork H _)
  | @irqthread sched =>
    exact (hsched sched).same (vmwCmdbufManProcess_inv (hsched sched).inv)
      (vmwCmdbufManProcess_processed H _).sameWork
  | workCollect hidle => exact workCollect_runInv stray h hidle
  | @preempt ok sched =>
    have hi := sendDeviceCommand_inv (H := H) (hsched sched).inv ok .preempt
    have hw := (hsched sched).same hi (sendDeviceCommand_sameWork H _ ok .preempt)
    exact ⟨⟨hi.placed, hi.counted, hi.limit, hi.tagged⟩, hw.unused,
      by rintro (hp | hp) <;> cases hp⟩
  | noPreempt =>
    exact ⟨⟨h.inv.placed, h.inv.counted, h.inv.limit, h.inv.tagged⟩, h.unused,
      by rintro (hp | hp) <;> cases hp⟩
  | @workRestart sched => exact workRestart_runInv (hsched sched)
  | @start ok sched hphase =>
    have hi := sendDeviceCommand_inv (H := H) (hsched sched).inv ok (.startStop true)
    have hw := (hsched sched).same hi (sendDeviceCommand_sameWork H _ ok (.startStop true))
    have hr := (sendDeviceCommand_sameWork H { s with sched := sched } ok (.startStop true)).2.1
    exact ⟨⟨hi.placed, hi.counted, hi.limit, hi.tagged⟩, hw.unused,
      fun _ c => (congrFun hr c).trans (h.fresh (.inr hphase) c)⟩
  | noStart hphase =>
    exact ⟨⟨h.inv.placed, h.inv.counted, h.inv.limit, h.inv.tagged⟩, h.unused,
      fun _ => h.fresh (.inr hphase)⟩
  | @stop _ sched =>
    exact (hsched sched).same (sendDeviceCommand_inv (hsched sched).inv _ _)
      (sendDeviceCommand_sameWork H _ _ _)
  | poolKept => exact h
  | setPool =>
    exact h.same ⟨h.inv.placed, h.inv.counted, h.inv.limit, h.inv.tagged⟩ ⟨rfl, rfl, rfl, rfl⟩
  | removePool =>
    exact h.same ⟨h.inv.placed, h.inv.counted, h.inv.limit, h.inv.tagged⟩ ⟨rfl, rfl, rfl, rfl⟩
  | @device es =>
    obtain ⟨_, _, he, ht⟩ := deviceRun_eq H es s
    rw [he]
    exact h.same ⟨h.inv.placed, h.inv.counted, h.inv.limit, touched_tagged h.inv.tagged ht⟩
      ⟨rfl, rfl, rfl, rfl⟩

/-- Over any run, whatever the device does: a header is live exactly when it is in
    one place, no header is in two, and the counts are right. -/
theorem runs_place_headers {dev : σ} {hpQueue usingMob : Bool} {as : List (Act ε)} {s : Man σ ε}
    (h : Runs (step H stray) anyLabel (vmwCmdbufManCreate H dev hpQueue usingMob) as s) :
    (∀ id, holders s id = if id ∈ s.live then 1 else 0) ∧ Counted s := by
  have hcreate : RunInv (vmwCmdbufManCreate H dev hpQueue usingMob) :=
    ⟨create_inv H dev hpQueue usingMob, fun _ _ => rfl, fun _ _ => rfl⟩
  have hi := h.invariant RunInv hcreate fun _ _ _ hi _ hs => step_runInv stray hi hs
  exact ⟨hi.inv.placed, hi.inv.counted⟩

/-- A device that completes every buffer as soon as it gets it. -/
def eagerHost : Host Unit Unit where
  act := fun _ _ => ((), [])
  submit := fun _ _ id _ => ((), [⟨id, .completed, 0⟩])
  command := fun _ _ => ((), [], .completed)

/-- A buffer of one command goes to the device, comes back, and is freed. -/
theorem single_buffer_placed : ∃ s : Man Unit Unit,
    Runs (step eagerHost fun _ _ => none) anyLabel (vmwCmdbufManCreate eagerHost () true false)
        [.reserve 8 (2 ^ 32 - 1) ⟨5, 0, true, 0⟩ [],
          .commit [⟨0, 8, true, 0, by decide⟩] true [], .irqthread []] s ∧
      ((∀ id, holders s id = if id ∈ s.live then 1 else 0) ∧ Counted s) ∧
      s.live = [] ∧ s.handed.length = 1 := by
  have h : Runs (step eagerHost fun _ _ => none) anyLabel
      (vmwCmdbufManCreate eagerHost () true false)
      [.reserve 8 (2 ^ 32 - 1) ⟨5, 0, true, 0⟩ [],
        .commit [⟨0, 8, true, 0, by decide⟩] true [], .irqthread []] _ := runs_of_exec rfl
  exact ⟨_, h, runs_place_headers _ h, rfl, rfl⟩

end Vmwgfx.CmdbufPlaces
