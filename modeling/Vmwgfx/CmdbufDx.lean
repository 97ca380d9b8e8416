import Vmwgfx.CmdbufPlaces

set_option autoImplicit false

/-!
# DX contexts of command buffers

A buffer carries one DX context for all its commands. A commit of nothing takes the DX
flag back, also when the buffer already holds commands of that context.
-/
namespace Vmwgfx.CmdbufDx
open Word32 LabelledRuns CmdbufMachine CmdbufPlaces

variable {σ ε : Type} {H : Host σ ε} (stray : ℕ → ℕ → Option ℕ)

/-- Every command that was reserved under a DX context finds it in the header. -/
def Carries (h : Header) : Prop :=
  ∀ x ∈ h.cmds, x.ctxId ≠ 2 ^ 32 - 1 → h.dxFlag = true ∧ h.dxContext = x.ctxId

/-- The context of the last reservation is in the header. -/
def Reserved (h : Header) : Prop :=
  h.reservedCtx ≠ 2 ^ 32 - 1 → h.dxFlag = true ∧ h.dxContext = h.reservedCtx

/-- No commit of nothing to a current buffer that holds a DX command. -/
def Admits (s : Man σ ε) : Act ε → Prop
  | .commit cmds _ _ => totalSize cmds = 0 →
      ∀ id ∈ s.cur, ∀ x ∈ (s.headers id).cmds, x.ctxId = 2 ^ 32 - 1
  | _ => True

structure DxInv (s : Man σ ε) : Prop where
  carries : ∀ id, Carries (s.headers id)
  handed : ∀ h ∈ s.handed, Carries h
  hands : ∀ id ∈ s.hands, Reserved (s.headers id) ∧ (s.headers id).cmds = []

/-- Headers change in status only, and what is handed over was there before. -/
def Relayed (s t : Man σ ε) : Prop :=
  Touched s.headers t.headers ∧ ∀ h ∈ t.handed, h ∈ s.handed ∨
    ∃ id st off, h = { s.headers id with status := st, errorOffset := off }

theorem Relayed.trans {s t u : Man σ ε} (h : Relayed s t) (h' : Relayed t u) : Relayed s u := by
  refine ⟨h.1.trans h'.1, ?_⟩
  intro x hx
  rcases h'.2 x hx with hx | ⟨id, st, off, rfl⟩
  · exact h.2 x hx
  · obtain ⟨_, _, he⟩ := h.1 id
    exact .inr ⟨id, st, off, by rw [he]⟩

theorem Relayed.of_touched {s t : Man σ ε} (h : Touched s.headers t.headers)
    (ht : t.handed = s.handed) : Relayed s t := ⟨h, fun _ hx => .inl (ht ▸ hx)⟩

theorem setStatus_touched (s : Man σ ε) (id : ℕ) (st : Status) :
    Touched s.headers (setStatus s id st).headers := by
  intro i
  by_cases hi : i = id
  · subst hi
    exact ⟨st, (s.headers i).errorOffset, Function.update_self ..⟩
  · exact ⟨(s.headers i).status, (s.headers i).errorOffset, Function.update_of_ne hi ..⟩

theorem headerSubmit_relayed (s : Man σ ε) (c : Cb) (id : ℕ) :
    Relayed s (headerSubmit H s c id) := by
  obtain ⟨_, _, _, h, he, ht, st, off, hh⟩ := headerSubmit_eq H s c id
  rw [he]
  refine ⟨ht, ?_⟩
  intro x hx
  rcases List.mem_append.1 hx with hx | hx
  · exact .inl hx
  · rw [List.mem_singleton.1 hx]
    exact .inr ⟨id, st, off, hh⟩

theorem relayed_rule (H : Host σ ε) : ProcessRule H (Relayed (σ := σ) (ε := ε)) where
  refl := fun _ => .of_touched (Touched.refl _) rfl
  trans := Relayed.trans
  tick := by
    intro s
    obtain ⟨_, _, _, he, ht⟩ := tick_eq H s
    rw [he]
    exact .of_touched ht rfl
  full := fun _ _ _ =>
    (headerSubmit_relayed _ _ _).trans (.of_touched (setStatus_touched _ _ _) rfl)
  move := fun _ _ _ _ => (headerSubmit_relayed _ _ _).trans (.of_touched (Touched.refl _) rfl)
  settle := by
    intro s c id rest _ _
    cases (s.headers id).status with
    | commandError => exact .of_touched (setStatus_touched (takeHw s c rest) id .none) rfl
    | preempted => exact .of_touched (setStatus_touched (takeHw s c rest) id .none) rfl
    | _ => exact .of_touched (Touched.refl _) rfl
  irq := fun _ _ => .of_touched (Touched.refl _) rfl

theorem carries_touched {f g : ℕ → Header} (h : Touched f g) {id : ℕ} (hf : Carries (f id)) :
    Carries (g id) := by
  obtain ⟨_, _, he⟩ := h id
  rw [he]
  exact hf

theorem reserved_touched {f g : ℕ → Header} (h : Touched f g) {id : ℕ} (hf : Reserved (f id)) :
    Reserved (g id) := by
  obtain ⟨_, _, he⟩ := h id
  rw [he]
  exact hf

theorem DxInv.relayed {s t : Man σ ε} (h : DxInv s) (hr : Relayed s t)
    (hh : t.hands = s.hands) : DxInv t := by
  refine ⟨fun id => carries_touched hr.1 (h.carries id), ?_, ?_⟩
  · intro x hx
    rcases hr.2 x hx with hx | ⟨id, _, _, rfl⟩
    · exact h.handed x hx
    · exact h.carries id
  · rw [hh]
    intro id hid
    obtain ⟨_, _, he⟩ := hr.1 id
    refine ⟨reserved_touched hr.1 (h.hands id hid).1, ?_⟩
    rw [he]
    exact (h.hands id hid).2

theorem vmwCmdbufManProcess_dx {s : Man σ ε} (h : DxInv s) : DxInv (vmwCmdbufManProcess H s) :=
  h.relayed ((relayed_rule H).manProcess s) (vmwCmdbufManProcess_processed H s).hands.1

theorem update_dx {s : Man σ ε} (id : ℕ) (h : DxInv s) {x : Header} (hx : Carries x)
    (hh : id ∈ s.hands → Reserved x ∧ x.cmds = []) :
    DxInv (setHeader s id x) := by
  refine ⟨?_, h.handed, ?_⟩
  · intro i
    by_cases hi : i = id
    · subst hi
      simpa [setHeader] using hx
    · simpa [setHeader, Function.update_of_ne hi] using h.carries i
  · intro i hmem
    by_cases hi : i = id
    · subst hi
      simpa [setHeader] using hh hmem
    · simpa [setHeader, Function.update_of_ne hi] using h.hands i hmem

theorem enqueue_dx {s : Man σ ε} {id : ℕ} {e : List ℕ} (hp : Inv s (id :: e)) (h : DxInv s)
    (c : Cb) : DxInv (enqueue s id c) := by
  have hset : DxInv (setHeader s id { s.headers id with
      dxContext := if (s.headers id).dxFlag then (s.headers id).dxContext else 0
      cbContext := c }) := by
    refine update_dx _ h ?_ (fun hmem => absurd hmem (inv_absent hp).1)
    intro x hx hne
    obtain ⟨hflag, hctx⟩ := h.carries id x hx hne
    exact ⟨hflag, by simp only [hflag, if_true]; exact hctx⟩
  exact ⟨hset.carries, hset.handed, hset.hands⟩

theorem vmwCmdbufCtxAdd_dx {s : Man σ ε} {id : ℕ} {e : List ℕ} (hp : Inv s (id :: e))
    (h : DxInv s) (c : Cb) : DxInv (vmwCmdbufCtxAdd H s id c) :=
  vmwCmdbufManProcess_dx (enqueue_dx hp h c)

theorem vmwCmdbufCurFlush_dx {s : Man σ ε} {e : List ℕ} (hp : Inv s e) (h : DxInv s) :
    DxInv (vmwCmdbufCurFlush H s) := by
  unfold vmwCmdbufCurFlush
  cases hcur : s.cur with
  | none => exact h
  | some id =>
    have hout := curOut_inv hp hcur
    dsimp only
    split_ifs
    · exact ⟨h.carries, h.handed, h.hands⟩
    · refine vmwCmdbufCtxAdd_dx (setHeader_inv hout ?_) ?_ .zero
      · exact hp.tagged id
      · have hdx : DxInv { s with cur := none, curPos := 0 } := ⟨h.carries, h.handed, h.hands⟩
        refine update_dx _ hdx ?_ (fun hmem => absurd hmem (inv_absent hout).1)
        exact h.carries id

theorem newHeader_dx {s : Man σ ε} (h : DxInv s) (plan : Plan) (size : ℕ) (inl mob : Bool) :
    let r := newHeader s plan (freshHeader size plan.ptr inl mob)
    DxInv r.2 ∧ ∀ id ∈ r.1, Reserved (r.2.headers id) ∧ (r.2.headers id).cmds = [] := by
  have hfresh : Carries (freshHeader size plan.ptr inl mob) := by
    intro x hx
    cases hx
  have hres : Reserved (freshHeader size plan.ptr inl mob) := fun hne => absurd rfl hne
  unfold newHeader
  dsimp only
  split_ifs
  · exact ⟨h, by simp⟩
  · have hset := update_dx plan.id h hfresh (fun _ => ⟨hres, rfl⟩)
    refine ⟨⟨hset.carries, hset.handed, hset.hands⟩, ?_⟩
    intro id hid
    obtain rfl : plan.id = id := by simpa using hid
    simpa [setHeader] using ⟨hres, rfl⟩

theorem vmwCmdbufAlloc_dx {s : Man σ ε} (h : DxInv s) (size : ℕ) (plan : Plan) :
    let r := vmwCmdbufAlloc H s size plan
    DxInv r.2 ∧ ∀ id ∈ r.1, Reserved (r.2.headers id) ∧ (r.2.headers id).cmds = [] := by
  have hdx : DxInv ((vmwCmdbufManProcess H)^[plan.polls] s) :=
    h.relayed ((relayed_rule H).iterate plan.polls s)
      ((processed_rule H).iterate plan.polls s).hands.1
  unfold vmwCmdbufAlloc
  dsimp only
  split_ifs
  · exact newHeader_dx h plan _ _ _
  · exact ⟨h, by simp⟩
  · exact ⟨hdx, by simp⟩
  · exact newHeader_dx hdx plan _ _ _

theorem reserveIn_reserved (h : Header) (size ctxId : ℕ) : Reserved (reserveIn h size ctxId) := by
  intro hne
  have hctx : ctxId ≠ 2 ^ 32 - 1 := hne
  refine ⟨?_, if_pos hctx⟩
  rw [show (reserveIn h size ctxId).dxFlag = (h.dxFlag || decide (ctxId ≠ 2 ^ 32 - 1)) from rfl,
    decide_eq_true hctx, Bool.or_true]

theorem reserveIn_carries {h : Header} (hc : Carries h) (size ctxId : ℕ)
    (hd : h.cmds = [] ∨ ¬ (h.dxFlag = true ∧ ctxId ≠ h.dxContext)) :
    Carries (reserveIn h size ctxId) := by
  intro x hx hne
  rcases hd with hnil | hsame
  · rw [show (reserveIn h size ctxId).cmds = h.cmds from rfl, hnil] at hx
    cases hx
  · obtain ⟨hflag, hctx⟩ := hc x hx hne
    have heq : ctxId = h.dxContext := by
      by_contra hne'
      exact hsame ⟨hflag, hne'⟩
    have hreal : ctxId ≠ 2 ^ 32 - 1 := by rw [heq, hctx]; exact hne
    exact ⟨by simp [reserveIn, hflag], (if_pos hreal).trans (heq.trans hctx)⟩

theorem ensureCur_dx {s : Man σ ε} (h : DxInv s) (size : ℕ) (plan : Plan) :
    let r := ensureCur H s size plan
    DxInv r.2 ∧ ∀ id ∈ r.1, s.cur = some id ∧ r.2 = s ∨ (r.2.headers id).cmds = [] := by
  unfold ensureCur
  cases hcur : s.cur with
  | some id =>
    refine ⟨h, ?_⟩
    intro i hi
    obtain rfl : id = i := by simpa using hi
    exact .inl ⟨rfl, rfl⟩
  | none =>
    obtain ⟨hdx, hnew⟩ := vmwCmdbufAlloc_dx (H := H) h (Nat.max size s.defaultSize) plan
    exact ⟨⟨hdx.carries, hdx.handed, hdx.hands⟩, fun id hid => .inr (hnew id hid).2⟩

theorem ensureCur_cur (s : Man σ ε) (size : ℕ) (plan : Plan) :
    (ensureCur H s size plan).2.cur = (ensureCur H s size plan).1 ∧
      (ensureCur H s size plan).2.curLocked = s.curLocked := by
  unfold ensureCur
  cases hcur : s.cur with
  | some id => exact ⟨hcur, rfl⟩
  | none => exact ⟨rfl, (vmwCmdbufAlloc_processed H s _ plan).hands.2.2⟩

def CurReserved (s : Man σ ε) : Prop :=
  s.curLocked = true → ∀ id ∈ s.cur, Reserved (s.headers id)

theorem vmwCmdbufReserveCur_dx {s : Man σ ε} {e : List ℕ} (hp : Inv s e) (h : DxInv s)
    (hl : s.curLocked = false) (size ctxId : ℕ) (plan : Plan) :
    DxInv (vmwCmdbufReserveCur H s size ctxId plan) ∧
      CurReserved (vmwCmdbufReserveCur H s size ctxId plan) := by
  unfold vmwCmdbufReserveCur
  dsimp only
  set u := if mustFlush s size ctxId then vmwCmdbufCurFlush H s else s with hu
  have hdx : DxInv u := by
    rw [hu]
    split_ifs
    · exact vmwCmdbufCurFlush_dx hp h
    · exact h
  have hul : u.curLocked = false := by
    rw [hu]
    split_ifs
    · obtain ⟨_, _, hf⟩ := vmwCmdbufCurFlush_processed H s
      exact hf.hands.2.2.trans hl
    · exact hl
  have hkeep : ∀ id, u.cur = some id →
      ¬ ((u.headers id).dxFlag = true ∧ ctxId ≠ (u.headers id).dxContext) := by
    intro id hid hbad
    rw [hu] at hid hbad
    split_ifs at hid hbad with hm
    · obtain ⟨_, _, hf⟩ := vmwCmdbufCurFlush_processed H s
      rw [hf.hands.2.1] at hid
      cases hid
    · refine hm ?_
      simp [mustFlush, hid, hbad.1, hbad.2]
  obtain ⟨hr, hcases⟩ := ensureCur_dx (H := H) hdx size plan
  obtain ⟨hcur, hlock⟩ := ensureCur_cur (H := H) u size plan
  split
  · refine ⟨hr, ?_⟩
    intro hlocked
    rw [hlock, hul] at hlocked
    cases hlocked
  · rename_i id hid
    have hd : ((ensureCur H u size plan).2.headers id).cmds = [] ∨
        ¬ (((ensureCur H u size plan).2.headers id).dxFlag = true ∧
          ctxId ≠ ((ensureCur H u size plan).2.headers id).dxContext) := by
      rcases hcases id hid with ⟨huc, hsame⟩ | hnil
      · rw [hsame]
        exact .inr (hkeep id huc)
      · exact .inl hnil
    have hset := update_dx id hr (reserveIn_carries (hr.carries id) size ctxId hd)
      (fun hmem => ⟨reserveIn_reserved _ _ _, (hr.hands id hmem).2⟩)
    refine ⟨⟨hset.carries, hset.handed, hset.hands⟩, ?_⟩
    intro _ i hi
    have hi' : (ensureCur H u size plan).2.cur = some i := hi
    rw [hcur, hid] at hi'
    obtain rfl : id = i := by simpa using hi'
    simpa [setHeader] using reserveIn_reserved ((ensureCur H u size plan).2.headers id) size ctxId

theorem totalSize_eq_zero {cmds : List Command} (h : totalSize cmds = 0) : cmds = [] := by
  cases cmds with
  | nil => rfl
  | cons x cmds =>
    have := x.pos
    simp only [totalSize, List.map_cons, List.sum_cons] at h
    omega

theorem commitIn_carries {h : Header} (hc : Carries h) (hr : Reserved h) (cmds : List Command)
    (hz : totalSize cmds = 0 → ∀ x ∈ h.cmds, x.ctxId = 2 ^ 32 - 1) :
    Carries (commitIn h cmds) := by
  intro x hx hne
  rcases List.mem_append.1 hx with hx | hx
  · have hsome : totalSize cmds ≠ 0 := fun h0 => hne (hz h0 x hx)
    obtain ⟨hflag, hctx⟩ := hc x hx hne
    exact ⟨(if_neg hsome).trans hflag, hctx⟩
  · obtain ⟨y, hy, rfl⟩ := List.mem_map.1 hx
    have hsome : totalSize cmds ≠ 0 := by
      intro h0
      rw [totalSize_eq_zero h0] at hy
      cases hy
    obtain ⟨hflag, hctx⟩ := hr hne
    exact ⟨(if_neg hsome).trans hflag, hctx⟩

theorem vmwCmdbufCommitCur_dx {s : Man σ ε} {e : List ℕ} {id : ℕ} (hp : Inv s e) (h : DxInv s)
    (hcur : s.cur = some id) (hr : Reserved (s.headers id)) (cmds : List Command) (flush : Bool)
    (hz : totalSize cmds = 0 → ∀ x ∈ (s.headers id).cmds, x.ctxId = 2 ^ 32 - 1) :
    DxInv (vmwCmdbufCommitCur H s id cmds flush) := by
  have habs := (inv_absent (curOut_inv hp hcur)).1
  have hset : DxInv (setHeader { s with curPos := s.curPos + totalSize cmds } id
      (commitIn (s.headers id) cmds)) := by
    have hdx : DxInv { s with curPos := s.curPos + totalSize cmds } :=
      ⟨h.carries, h.handed, h.hands⟩
    exact update_dx _ hdx (commitIn_carries (h.carries id) hr cmds hz) (fun hm => absurd hm habs)
  have hpset : Inv (setHeader { s with curPos := s.curPos + totalSize cmds } id
      (commitIn (s.headers id) cmds)) e :=
    ⟨hp.placed, hp.counted, hp.limit, update_tagged hp.tagged id (hp.tagged id)⟩
  cases flush with
  | false => exact ⟨hset.carries, hset.handed, hset.hands⟩
  | true =>
    have hflush := vmwCmdbufCurFlush_dx (H := H) hpset hset
    exact ⟨hflush.carries, hflush.handed, hflush.hands⟩

theorem vmwCmdbufCommit_dx {s : Man σ ε} {e : List ℕ} {id : ℕ} (hp : Inv s e) (h : DxInv s)
    (hid : id ∈ s.hands) (cmds : List Command) (flush : Bool) :
    DxInv (vmwCmdbufCommit H s id cmds flush) := by
  have hf := vmwCmdbufCurFlush_dx (H := H) hp h
  have hpf := vmwCmdbufCurFlush_inv (H := H) hp
  obtain ⟨_, _, hproc⟩ := vmwCmdbufCurFlush_processed H s
  have hmem : id ∈ (vmwCmdbufCurFlush H s).hands := by rw [hproc.hands.1]; exact hid
  obtain ⟨hr, hnil⟩ := hf.hands id hmem
  set u := vmwCmdbufCurFlush H s with hu
  have hout : DxInv { u with
      cur := some id, curPos := totalSize cmds, hands := u.hands.filter (· ≠ id) } :=
    ⟨hf.carries, hf.handed, fun i hi => hf.hands i (List.mem_of_mem_filter hi)⟩
  have hpout := setCur_inv (o := some id) (hands_inv hpf hmem) hproc.hands.2.1 (totalSize cmds)
  have hset := update_dx id hout
    (commitIn_carries (hf.carries id) hr cmds (by rw [hnil]; intro _ x hx; cases hx))
    (by intro hm; simp at hm)
  unfold vmwCmdbufCommit
  dsimp only
  cases flush with
  | false => exact hset
  | true =>
    refine vmwCmdbufCurFlush_dx (setHeader_inv hpout ?_) hset
    exact hpf.tagged id

theorem dropBytes_suffix (off : ℕ) (cmds rest : List Command) (h : dropBytes off cmds = some rest) :
    rest <:+ cmds := by
  induction cmds generalizing off with
  | nil =>
    cases off with
    | zero =>
      obtain rfl := Option.some.inj h
      exact List.suffix_rfl
    | succ off => cases h
  | cons x cmds ih =>
    cases off with
    | zero =>
      obtain rfl := Option.some.inj h
      exact List.suffix_rfl
    | succ off =>
      simp only [dropBytes] at h
      split_ifs at h
      exact (ih _ h).trans (List.suffix_cons x cmds)

theorem restartEntry_dx {s : Man σ ε} {id : ℕ} {e : List ℕ} (hp : Inv s (id :: e))
    (h : DxInv s) : DxInv (restartEntry stray s id) := by
  have hfree : DxInv { headerFree s id with sendFence := true } :=
    ⟨h.carries, h.handed, h.hands⟩
  unfold restartEntry
  dsimp only
  split
  · exact hfree
  · rename_i size _
    by_cases hlen : (s.headers id).length ≤ addU32 (s.headers id).errorOffset size
    · rw [if_pos hlen]
      exact hfree
    · rw [if_neg hlen]
      have hset := update_dx id (x := { s.headers id with
          ptr := forward s.usingMob (s.headers id).ptr (addU32 (s.headers id).errorOffset size)
          cmd := forward (s.headers id).mobFlag (s.headers id).cmd
            (addU32 (s.headers id).errorOffset size)
          cmds := (dropBytes (addU32 (s.headers id).errorOffset size) (s.headers id).cmds).getD []
          length := subU32 (s.headers id).length (addU32 (s.headers id).errorOffset size)
          errorOffset := 0 }) h
        (by
          intro x hx hne
          refine h.carries id x ?_ hne
          cases hd : dropBytes (addU32 (s.headers id).errorOffset size) (s.headers id).cmds with
          | none =>
            simp only [hd, Option.getD_none] at hx
            cases hx
          | some rest =>
            simp only [hd, Option.getD_some] at hx
            exact (dropBytes_suffix _ _ _ hd).subset hx)
        (fun hm => absurd hm (inv_absent hp).1)
      exact ⟨hset.carries, hset.handed, hset.hands⟩

theorem foldl_restartEntry_dx (l : List ℕ) {s : Man σ ε} {e : List ℕ} (hp : Inv s (l ++ e))
    (h : DxInv s) : DxInv (l.foldl (restartEntry stray) s) := by
  induction l generalizing s with
  | nil => exact h
  | cons id l ih => exact ih (restartEntry_inv stray hp) (restartEntry_dx stray hp h)

theorem workCollect_dx {s : Man σ ε} (hp : RunInv s) (hidle : s.phase = .idle) (h : DxInv s) :
    DxInv (workCollect stray s) := by
  have hout := errorsOut_inv hp.inv (hp.fresh (.inl hidle))
  have hall := foldl_restartEntry_dx stray s.error hout
    ⟨h.carries, h.handed, h.hands⟩
  exact ⟨hall.carries, hall.handed, hall.hands⟩

theorem foldl_restartCtx_dx (l : List Cb) {s : Man σ ε} (h : DxInv s) :
    DxInv (l.foldl (restartCtx H) s) := by
  induction l generalizing s with
  | nil => exact h
  | cons c l ih =>
    have hp := h.relayed ((relayed_rule H).ctxProcess s c) ((processed_rule H).ctxProcess s c).hands.1
    exact ih ⟨hp.carries, hp.handed, hp.hands⟩

theorem workRestart_dx {s : Man σ ε} (h : DxInv s) : DxInv (workRestart H s) := by
  have := vmwCmdbufManProcess_dx (H := H) (foldl_restartCtx_dx (H := H) (contexts s) h)
  exact ⟨this.carries, this.handed, this.hands⟩

theorem sendDeviceCommand_relayed (s : Man σ ε) (ok : Bool) (cmd : DeviceCommand) :
    Relayed s (sendDeviceCommand H s ok cmd).2 ∧ Processed s (sendDeviceCommand H s ok cmd).2 := by
  unfold sendDeviceCommand
  split_ifs
  · refine ⟨((relayed_rule H).tick s).trans (.of_touched (applyWrites_touched _ _) rfl), ?_⟩
    exact (tick_processed H s).trans ⟨_, _, _, _, _, _, _, _, _, rfl⟩
  · exact ⟨.of_touched (Touched.refl _) rfl, Processed.refl s⟩

def Keeps (s t : Man σ ε) : Prop := ∀ id, Reserved (s.headers id) → Reserved (t.headers id)

theorem Keeps.trans {s t u : Man σ ε} (h : Keeps s t) (h' : Keeps t u) : Keeps s u :=
  fun id hid => h' id (h id hid)

theorem Relayed.keeps {s t : Man σ ε} (h : Relayed s t) : Keeps s t :=
  fun _ hid => reserved_touched h.1 hid

theorem setHeader_keeps {s : Man σ ε} {id : ℕ} {x : Header}
    (hx : Reserved (s.headers id) → Reserved x) : Keeps s (setHeader s id x) := by
  intro i hi
  by_cases heq : i = id
  · subst heq
    simpa [setHeader] using hx hi
  · simpa [setHeader, Function.update_of_ne heq] using hi

theorem newHeader_keeps (s : Man σ ε) (plan : Plan) (size : ℕ) (inl mob : Bool) :
    Keeps s (newHeader s plan (freshHeader size plan.ptr inl mob)).2 := by
  unfold newHeader
  split_ifs
  · exact fun _ hid => hid
  · exact setHeader_keeps fun _ hne => absurd rfl hne

theorem vmwCmdbufAlloc_keeps (s : Man σ ε) (size : ℕ) (plan : Plan) :
    Keeps s (vmwCmdbufAlloc H s size plan).2 := by
  have hpolls := ((relayed_rule H).iterate plan.polls s).keeps
  unfold vmwCmdbufAlloc
  dsimp only
  split_ifs
  · exact newHeader_keeps s plan _ _ _
  · exact fun _ hid => hid
  · exact hpolls
  · exact hpolls.trans (newHeader_keeps _ plan _ _ _)

theorem vmwCmdbufCtxAdd_keeps (s : Man σ ε) (id : ℕ) (c : Cb) :
    Keeps s (vmwCmdbufCtxAdd H s id c) := by
  have henq : Keeps s (enqueue s id c) := by
    refine setHeader_keeps ?_
    intro hr hne
    obtain ⟨hflag, hctx⟩ := hr hne
    exact ⟨hflag, by simp only [hflag, if_true]; exact hctx⟩
  exact henq.trans ((relayed_rule H).manProcess _).keeps

theorem restartEntry_keeps (s : Man σ ε) (id : ℕ) : Keeps s (restartEntry stray s id) := by
  unfold restartEntry
  dsimp only
  split
  · exact fun _ hid => hid
  · split_ifs
    · exact fun _ hid => hid
    all_goals exact setHeader_keeps fun hr => hr

theorem workCollect_keeps (s : Man σ ε) : Keeps s (workCollect stray s) := by
  have hall : ∀ (l : List ℕ) (t : Man σ ε), Keeps t (l.foldl (restartEntry stray) t) := by
    intro l
    induction l with
    | nil => exact fun _ _ hid => hid
    | cons id l ih => exact fun t => (restartEntry_keeps stray t id).trans (ih _)
  exact hall s.error { s with
    error := [], workScheduled := false, sendFence := false
    globalBlock := !s.error.isEmpty, restartHead := fun _ => [] }

theorem workRestart_keeps (s : Man σ ε) : Keeps s (workRestart H s) := by
  have hall : ∀ (l : List Cb) (t : Man σ ε), Keeps t (l.foldl (restartCtx H) t) := by
    intro l
    induction l with
    | nil => exact fun _ _ hid => hid
    | cons c l ih =>
      intro t
      have hctx : Keeps t (restartCtx H t c) := ((relayed_rule H).ctxProcess t c).keeps
      exact hctx.trans (ih _)
  exact (hall (contexts s) s).trans ((relayed_rule H).manProcess _).keeps

structure RunDx (s : Man σ ε) : Prop where
  places : RunInv s
  dx : DxInv s
  cur : CurReserved s

theorem CurReserved.of_keeps {s t : Man σ ε} (h : CurReserved s) (hk : Keeps s t)
    (hc : t.cur = s.cur) (hl : t.curLocked = s.curLocked) : CurReserved t := by
  intro hlocked id hid
  rw [hl] at hlocked
  rw [hc] at hid
  exact hk id (h hlocked id hid)

theorem RunDx.relayed {s t : Man σ ε} (h : RunDx s) (ht : RunInv t) (hr : Relayed s t)
    (hp : Processed s t) : RunDx t :=
  ⟨ht, h.dx.relayed hr hp.hands.1, h.cur.of_keeps hr.keeps hp.hands.2.1 hp.hands.2.2⟩

theorem curReserved_of_unlocked {s : Man σ ε} (h : s.curLocked = false) : CurReserved s := by
  intro hl
  rw [h] at hl
  cases hl

theorem workCollect_cur (s : Man σ ε) :
    (workCollect stray s).cur = s.cur ∧ (workCollect stray s).curLocked = s.curLocked := by
  have hone : ∀ (t : Man σ ε) (id : ℕ), (restartEntry stray t id).cur = t.cur ∧
      (restartEntry stray t id).curLocked = t.curLocked := by
    intro t id
    unfold restartEntry
    dsimp only
    split
    · exact ⟨rfl, rfl⟩
    · split_ifs <;> exact ⟨rfl, rfl⟩
  have hall : ∀ (l : List ℕ) (t : Man σ ε), (l.foldl (restartEntry stray) t).cur = t.cur ∧
      (l.foldl (restartEntry stray) t).curLocked = t.curLocked := by
    intro l
    induction l with
    | nil => exact fun _ => ⟨rfl, rfl⟩
    | cons id l ih =>
      intro t
      exact ⟨(ih _).1.trans (hone t id).1, (ih _).2.trans (hone t id).2⟩
  exact hall s.error { s with
    error := [], workScheduled := false, sendFence := false
    globalBlock := !s.error.isEmpty, restartHead := fun _ => [] }

theorem workRestart_cur (s : Man σ ε) :
    (workRestart H s).cur = s.cur ∧ (workRestart H s).curLocked = s.curLocked := by
  have hall : ∀ (l : List Cb) (t : Man σ ε), (l.foldl (restartCtx H) t).cur = t.cur ∧
      (l.foldl (restartCtx H) t).curLocked = t.curLocked := by
    intro l
    induction l with
    | nil => exact fun _ => ⟨rfl, rfl⟩
    | cons c l ih =>
      intro t
      have hp := ((processed_rule H).ctxProcess t c).hands
      exact ⟨(ih _).1.trans hp.2.1, (ih _).2.trans hp.2.2⟩
  have hp := (vmwCmdbufManProcess_processed H ((contexts s).foldl (restartCtx H) s)).hands
  exact ⟨hp.2.1.trans (hall _ s).1, hp.2.2.trans (hall _ s).2⟩

theorem step_runDx {s t : Man σ ε} {a : Act ε} (h : RunDx s) (ha : Admits s a)
    (hs : step H stray s a = some t) : RunDx t := by
  have hplaces := step_runInv stray h.places hs
  have hsched : ∀ sched : List (List ε), RunDx { s with sched := sched } := fun sched =>
    ⟨⟨⟨h.places.inv.placed, h.places.inv.counted, h.places.inv.limit, h.places.inv.tagged⟩,
      h.places.unused, h.places.fresh⟩, ⟨h.dx.carries, h.dx.handed, h.dx.hands⟩, h.cur⟩
  cases step_took H stray hs with
  | @reserve size ctxId plan sched hfree =>
    obtain ⟨hdx, hcur⟩ := vmwCmdbufReserveCur_dx (H := H) (hsched sched).places.inv
      (hsched sched).dx hfree size ctxId plan
    exact ⟨hplaces, hdx, hcur⟩
  | @commit cmds flush sched id hid hlocked =>
    refine ⟨hplaces, ?_, curReserved_of_unlocked rfl⟩
    exact vmwCmdbufCommitCur_dx (hsched sched).places.inv (hsched sched).dx hid
      (h.cur hlocked id hid) cmds flush fun h0 => ha h0 id hid
  | @alloc size plan sched =>
    obtain ⟨hdx, hnew⟩ := vmwCmdbufAlloc_dx (H := H) (hsched sched).dx size plan
    have hp := (vmwCmdbufAlloc_processed H { s with sched := sched } size plan).hands
    refine ⟨hplaces, ⟨hdx.carries, hdx.handed, ?_⟩, ?_⟩
    · intro i hi
      rcases List.mem_append.1 hi with hi | hi
      · exact hnew i (Option.mem_toList.1 hi)
      · exact hdx.hands i hi
    · exact (hsched sched).cur.of_keeps (vmwCmdbufAlloc_keeps _ size plan) hp.2.1 hp.2.2
  | reserveFails => exact h
  | @reserveHeader id size ctxId hin =>
    have hnil := (h.dx.hands id hin).2
    refine ⟨hplaces, update_dx _ h.dx (reserveIn_carries (h.dx.carries id) size ctxId (.inl hnil))
      (fun _ => ⟨reserveIn_reserved _ _ _, hnil⟩), ?_⟩
    exact h.cur.of_keeps (setHeader_keeps fun _ => reserveIn_reserved _ _ _) rfl rfl
  | @commitHeader _ _ _ sched hfree hid =>
    refine ⟨hplaces, vmwCmdbufCommit_dx (hsched sched).places.inv (hsched sched).dx hid _ _, ?_⟩
    refine curReserved_of_unlocked ?_
    rw [vmwCmdbufCommit_locked]
    exact hfree
  | headerFree =>
    exact ⟨hplaces, ⟨h.dx.carries, h.dx.handed,
      fun i hi => h.dx.hands i (List.mem_of_mem_filter hi)⟩, h.cur⟩
  | @ctxAdd id c cmds sched hid =>
    obtain ⟨hr, hnil⟩ := h.dx.hands id hid
    have hpout := hands_inv h.places.inv hid
    have hout := update_dx id (x := { commitIn (s.headers id) cmds with
        length := totalSize cmds }) (s := { s with
        hands := s.hands.filter (· ≠ id), sched := sched })
      ⟨h.dx.carries, h.dx.handed, fun i hi => h.dx.hands i (List.mem_of_mem_filter hi)⟩
      (commitIn_carries (h.dx.carries id) hr cmds (by rw [hnil]; intro _ x hx; cases hx))
      (by intro hm; simp at hm)
    refine ⟨hplaces, vmwCmdbufCtxAdd_dx (e := []) ?_ hout c, ?_⟩
    · exact ⟨hpout.placed, hpout.counted, hpout.limit,
        update_tagged h.places.inv.tagged id (h.places.inv.tagged id)⟩
    · obtain ⟨_, hp⟩ := vmwCmdbufCtxAdd_processed H
        { setHeader s id { commitIn (s.headers id) cmds with length := totalSize cmds } with
          hands := s.hands.filter (· ≠ id), sched := sched } id c
      have hcur : CurReserved (setHeader s id
          { commitIn (s.headers id) cmds with length := totalSize cmds }) := by
        intro hl i hi
        have hne : i ≠ id := by
          rintro rfl
          exact (inv_absent hpout).2 hi
        simpa [setHeader, Function.update_of_ne hne] using h.cur hl i hi
      exact CurReserved.of_keeps (s := { setHeader s id
          { commitIn (s.headers id) cmds with length := totalSize cmds } with
          hands := s.hands.filter (· ≠ id), sched := sched }) hcur
        (vmwCmdbufCtxAdd_keeps _ id c) hp.hands.2.1 hp.hands.2.2
  | @curFlush sched hfree =>
    refine ⟨hplaces, vmwCmdbufCurFlush_dx (hsched sched).places.inv (hsched sched).dx, ?_⟩
    obtain ⟨_, _, hp⟩ := vmwCmdbufCurFlush_processed H { s with sched := sched }
    exact curReserved_of_unlocked (hp.hands.2.2.trans hfree)
  | @irqthread sched =>
    exact (hsched sched).relayed hplaces ((relayed_rule H).manProcess _)
      (vmwCmdbufManProcess_processed H _)
  | workCollect hidle =>
    refine ⟨hplaces, workCollect_dx stray h.places hidle h.dx, ?_⟩
    exact h.cur.of_keeps (workCollect_keeps stray s) (workCollect_cur stray s).1
      (workCollect_cur stray s).2
  | @preempt ok sched =>
    obtain ⟨hr, hp⟩ := sendDeviceCommand_relayed (H := H) { s with sched := sched } ok .preempt
    have hdx := (hsched sched).dx.relayed hr hp.hands.1
    exact ⟨hplaces, ⟨hdx.carries, hdx.handed, hdx.hands⟩,
      (hsched sched).cur.of_keeps hr.keeps hp.hands.2.1 hp.hands.2.2⟩
  | noPreempt => exact ⟨hplaces, ⟨h.dx.carries, h.dx.handed, h.dx.hands⟩, h.cur⟩
  | @workRestart sched =>
    refine ⟨hplaces, workRestart_dx (hsched sched).dx, ?_⟩
    exact (hsched sched).cur.of_keeps (workRestart_keeps _) (workRestart_cur _).1
      (workRestart_cur _).2
  | @start ok sched =>
    obtain ⟨hr, hp⟩ := sendDeviceCommand_relayed (H := H) { s with sched := sched } ok
      (.startStop true)
    have hdx := (hsched sched).dx.relayed hr hp.hands.1
    exact ⟨hplaces, ⟨hdx.carries, hdx.handed, hdx.hands⟩,
      (hsched sched).cur.of_keeps hr.keeps hp.hands.2.1 hp.hands.2.2⟩
  | noStart => exact ⟨hplaces, ⟨h.dx.carries, h.dx.handed, h.dx.hands⟩, h.cur⟩
  | @stop ok sched =>
    obtain ⟨hr, hp⟩ := sendDeviceCommand_relayed (H := H) { s with sched := sched } ok
      (.startStop false)
    exact (hsched sched).relayed hplaces hr hp
  | poolKept => exact h
  | setPool => exact ⟨hplaces, ⟨h.dx.carries, h.dx.handed, h.dx.hands⟩, h.cur⟩
  | removePool => exact ⟨hplaces, ⟨h.dx.carries, h.dx.handed, h.dx.hands⟩, h.cur⟩
  | @device es =>
    obtain ⟨_, _, he, ht⟩ := deviceRun_eq H es s
    rw [he] at hplaces ⊢
    exact h.relayed hplaces (.of_touched ht rfl) ⟨_, _, _, _, _, _, _, _, _, rfl⟩

theorem create_runDx (H : Host σ ε) (dev : σ) (hpQueue usingMob : Bool) :
    RunDx (vmwCmdbufManCreate H dev hpQueue usingMob) := by
  refine ⟨⟨create_inv H dev hpQueue usingMob, fun _ _ => rfl, fun _ _ => rfl⟩, ⟨?_, ?_, ?_⟩,
    curReserved_of_unlocked rfl⟩
  · intro id
    refine carries_touched (applyWrites_touched _ _) ?_
    intro x hx
    cases hx
  · intro x hx
    cases hx
  · intro id hid
    cases hid

/-- In every run without a commit of nothing on top of DX commands, each buffer is
    handed to the device with the context of its DX commands. -/
theorem admitted_runs_carry {dev : σ} {hpQueue usingMob : Bool} {as : List (Act ε)}
    {s : Man σ ε}
    (h : Runs (step H stray) Admits (vmwCmdbufManCreate H dev hpQueue usingMob) as s) :
    (∀ b ∈ s.handed, Carries b) ∧ ∀ b ∈ s.handed, ∀ x ∈ b.cmds, ∀ y ∈ b.cmds,
      x.ctxId ≠ 2 ^ 32 - 1 → y.ctxId ≠ 2 ^ 32 - 1 → x.ctxId = y.ctxId := by
  have hi := h.invariant RunDx (create_runDx H dev hpQueue usingMob)
    fun _ _ _ hi ha hs => step_runDx stray hi ha hs
  refine ⟨hi.dx.handed, ?_⟩
  intro b hb x hx y hy hxne hyne
  exact (hi.dx.handed b hb x hx hxne).2.symm.trans (hi.dx.handed b hb y hy hyne).2

/-- A DX command is handed over with its context. -/
theorem dx_command_carried : ∃ s : Man Unit Unit,
    Runs (step eagerHost fun _ _ => none) Admits (vmwCmdbufManCreate eagerHost () true false)
        [.reserve 8 3 ⟨5, 0, true, 0⟩ [], .commit [⟨0, 8, true, 0, by decide⟩] true []] s ∧
      ((∀ b ∈ s.handed, Carries b) ∧ ∀ b ∈ s.handed, ∀ x ∈ b.cmds, ∀ y ∈ b.cmds,
        x.ctxId ≠ 2 ^ 32 - 1 → y.ctxId ≠ 2 ^ 32 - 1 → x.ctxId = y.ctxId) ∧
      s.handed.map Header.dxContext = [3] := by
  have h : Runs (step eagerHost fun _ _ => none) Admits
      (vmwCmdbufManCreate eagerHost () true false)
      [.reserve 8 3 ⟨5, 0, true, 0⟩ [], .commit [⟨0, 8, true, 0, by decide⟩] true []] _ :=
    .next trivial rfl (.next (fun h0 => absurd h0 (by decide)) rfl (.refl _))
  exact ⟨_, h, admitted_runs_carry _ h, rfl⟩

/-- Context 3 commits a command, then nothing: its command reaches the device without
    the DX flag. -/
theorem empty_commit_drops_context :
    ¬ ∀ (as : List (Act Unit)) (s : Man Unit Unit),
      Runs (step eagerHost fun _ _ => none) anyLabel
        (vmwCmdbufManCreate eagerHost () true false) as s → ∀ b ∈ s.handed, Carries b := by
  intro h
  have hr : Runs (step eagerHost fun _ _ => none) anyLabel
      (vmwCmdbufManCreate eagerHost () true false)
      [.reserve 8 3 ⟨5, 0, true, 0⟩ [], .commit [⟨0, 8, true, 0, by decide⟩] false [],
        .reserve 8 3 ⟨5, 0, true, 0⟩ [], .commit [] true []] _ := runs_of_exec rfl
  have hb := h _ _ hr _ (List.mem_singleton.2 rfl) ⟨0, 8, true, 3, by decide⟩
    (List.mem_singleton.2 rfl) (by decide)
  exact absurd hb.1 (by decide)

end Vmwgfx.CmdbufDx
