import Vmwgfx.DxQuery

set_option autoImplicit false

/-!
# Links between query buffers and contexts

A pointer from a buffer back to a context is never the only side of the link: the context is
there, names the buffer and has a reference to it. Readbacks clear the pointer alone, and a
context clears it before it drops the buffer.
-/
namespace Vmwgfx.DxQuery
open ExecbufState (Errno)
open LabelledRuns Shares

def occ (l : List ℕ) (a : ℕ) : ℤ := l.count a

def batchCtxs (s : QueryDev) : List ℕ := s.batch.elim [] (·.ctxs)

def batchBos (s : QueryDev) : List ℕ := s.batch.elim [] (·.bos)

def Tied (b : SwContext) : Prop :=
  b.phase ≠ .ended → (∀ c, b.dxCtx = some c → c ∈ b.ctxs) ∧ ∀ c, b.dxQueryCtx = some c → c ∈ b.ctxs

structure Linked (s : QueryDev) : Prop where
  back : ∀ m c, s.dxQueryCtx m = some c →
    c ∈ s.live ∧ s.dxQueryMob c = some m ∧ c ∉ s.freeing
  dead : ∀ c, c ∉ s.live → s.ctxRefs c = 0
  freed : ∀ c ∈ s.freeing, c ∈ s.live ∧ s.ctxRefs c = 0
  tied : ∀ b, s.batch = some b → Tied b
  others : ∀ c, 0 ≤ s.otherCtxRefs c
  ctxCount : s.ctxRefs = s.otherCtxRefs + occ (batchCtxs s)
  boCount : s.boRefs = s.otherBoRefs + occ (batchBos s) + share s.live s.dxQueryMob

variable {s t : QueryDev} {c m : ℕ} {b : SwContext} {l : List ℕ}

theorem occ_nonneg (l : List ℕ) (a : ℕ) : 0 ≤ occ l a := Int.natCast_nonneg _

theorem occ_pos (h : c ∈ l) : 0 < occ l c := Int.natCast_pos.2 (List.count_pos_iff.2 h)

theorem occ_cons (a : ℕ) (l : List ℕ) : occ (a :: l) = occ l + Pi.single a 1 := by
  funext c
  by_cases h : a = c
  · subst h
    simp [occ]
  · simp [occ, h]

theorem occ_erase (h : c ∈ l) : occ (l.erase c) = occ l - Pi.single c 1 := by
  have hcons := occ_cons c (l.erase c)
  have hperm : occ (c :: l.erase c) = occ l := by
    funext a
    exact congrArg Int.ofNat ((List.perm_cons_erase h).count_eq a).symm
  rw [← hperm, hcons]
  abel

theorem Linked.ctxRefs_pos (h : Linked s) (hb : s.batch = some b) (hc : c ∈ b.ctxs) :
    0 < s.ctxRefs c := by
  have hcount := congrFun h.ctxCount c
  have hoccurs : 0 < occ (batchCtxs s) c := by
    rw [batchCtxs, hb]
    exact occ_pos hc
  have hothers := h.others c
  rw [Pi.add_apply] at hcount
  omega

theorem Linked.ctxRefs_pos_of_other (h : Linked s) (hc : 0 < s.otherCtxRefs c) :
    0 < s.ctxRefs c := by
  have hcount := congrFun h.ctxCount c
  have hocc := occ_nonneg (batchCtxs s) c
  rw [Pi.add_apply] at hcount
  omega

theorem Linked.live_of_pos (h : Linked s) (hc : 0 < s.ctxRefs c) : c ∈ s.live ∧ c ∉ s.freeing := by
  constructor
  · by_contra hlive
    rw [h.dead c hlive] at hc
    exact lt_irrefl 0 hc
  · intro hfree
    rw [(h.freed c hfree).2] at hc
    exact lt_irrefl 0 hc

theorem Linked.clear (h : Linked s) (m : ℕ) : Linked (setQueryCtx m none s) := by
  refine ⟨?_, h.dead, h.freed, h.tied, h.others, h.ctxCount, h.boCount⟩
  intro m' c hc
  by_cases hm : m' = m
  · subst hm
    rw [setQueryCtx_self] at hc
    cases hc
  · rw [setQueryCtx_of_ne hm] at hc
    exact h.back m' c hc

theorem Linked.emit (h : Linked s) (cmd : FifoCmd) : Linked (emit cmd s) :=
  ⟨h.back, h.dead, h.freed, h.tied, h.others, h.ctxCount, h.boCount⟩

theorem Linked.bind (h : Linked s) (hc : 0 < s.ctxRefs c) (m : ℕ) :
    Linked (vmwContextBindDxQuery c m s).2 := by
  obtain ⟨hlive, hfree⟩ := h.live_of_pos hc
  -- the pointers of the other buffers do not go to this context
  have hrest : ∀ m' c', m' ≠ m → (∀ m'', s.dxQueryMob c = some m'' → m'' = m) →
      s.dxQueryCtx m' = some c' → c' ≠ c := by
    rintro m' c' hm hsame hc' rfl
    exact hm (hsame m' (h.back m' c' hc').2.1)
  unfold vmwContextBindDxQuery
  cases hmob : s.dxQueryMob c with
  | some m' =>
    dsimp only
    split_ifs with hne
    · exact h
    · obtain rfl := not_not.1 hne
      refine ⟨?_, h.dead, h.freed, h.tied, h.others, h.ctxCount, h.boCount⟩
      intro m c' hc'
      change (setQueryCtx m' (some c) s).dxQueryCtx m = some c' at hc'
      by_cases hm : m = m'
      · subst hm
        rw [setQueryCtx_self] at hc'
        obtain rfl := Option.some.inj hc'
        exact ⟨hlive, hmob, hfree⟩
      · rw [setQueryCtx_of_ne hm] at hc'
        exact h.back m c' hc'
  | none =>
    refine ⟨?_, h.dead, h.freed, h.tied, h.others, h.ctxCount, ?_⟩
    · intro m' c' hc'
      change (setQueryCtx m (some c) s).dxQueryCtx m' = some c' at hc'
      by_cases hm : m' = m
      · subst hm
        rw [setQueryCtx_self] at hc'
        obtain rfl := Option.some.inj hc'
        exact ⟨hlive, Function.update_self .., hfree⟩
      · rw [setQueryCtx_of_ne hm] at hc'
        have hne := hrest m' c' hm (fun m'' hm'' => by rw [hmob] at hm''; cases hm'') hc'
        obtain ⟨hlive', hmob', hfree'⟩ := h.back m' c' hc'
        exact ⟨hlive', (Function.update_of_ne hne _ _).trans hmob', hfree'⟩
    · simp only [setQueryMob, boRef, setQueryCtx, share_update hlive, hmob, mark_none, sub_zero]
      rw [h.boCount]
      rw [mark_some]
      simp only [batchBos]
      abel

theorem Linked.rebind (h : Linked s) (hc : 0 < s.ctxRefs c) (space : Bool) :
    Linked (vmwRebindAllDxQuery space c s).2 := by
  unfold vmwRebindAllDxQuery
  split
  · exact h
  · split_ifs
    · exact h
    · exact (h.emit _).bind hc _
    · exact h

theorem Linked.readback (h : Linked s) (space : Bool) (m : ℕ) :
    Linked (vmwQueryReadbackAll space m s).2 := by
  unfold vmwQueryReadbackAll
  split
  · exact h
  · split_ifs
    · exact ⟨h.back, h.dead, h.freed, h.tied, h.others, h.ctxCount, h.boCount⟩
    · exact h

theorem Linked.freeClear (h : Linked s) (hlive : c ∈ s.live) (hz : s.ctxRefs c = 0)
    (hm : s.dxQueryMob c = some m) :
    Linked (clearQueryCtx c m s) := by
  have hclear := h.clear m
  refine ⟨?_, h.dead, ?_, h.tied, h.others, h.ctxCount, h.boCount⟩
  · intro m' c' hc'
    obtain ⟨hlive, hmob, hfree⟩ := hclear.back m' c' hc'
    refine ⟨hlive, hmob, fun hmem => ?_⟩
    rcases Finset.mem_insert.1 hmem with rfl | hmem
    · -- the one buffer that it could be is not linked any more
      obtain rfl : m = m' := Option.some.inj (hm.symm.trans hmob)
      change (setQueryCtx m none s).dxQueryCtx m = some c' at hc'
      rw [setQueryCtx_self] at hc'
      cases hc'
    · exact hfree hmem
  · intro c' hc'
    rcases Finset.mem_insert.1 hc' with rfl | hc'
    · exact ⟨hlive, hz⟩
    · exact h.freed c' hc'

theorem Linked.freeDrop (h : Linked s) (hfree : c ∈ s.freeing) (hm : s.dxQueryMob c = some m) :
    Linked (dropQueryMob c m s) := by
  have hlive := (h.freed c hfree).1
  refine ⟨?_, h.dead, h.freed, h.tied, h.others, h.ctxCount, ?_⟩
  · intro m' c' hc'
    obtain ⟨hlive', hmob', hfree'⟩ := h.back m' c' hc'
    have hne : c' ≠ c := by
      rintro rfl
      exact hfree' hfree
    exact ⟨hlive', (Function.update_of_ne hne _ _).trans hmob', hfree'⟩
  · simp only [dropQueryMob, setQueryMob, boRef, share_update hlive, hm, mark_none]
    rw [h.boCount]
    simp only [batchBos]
    rw [mark_some, Pi.single_neg]
    abel

theorem Linked.freeEnd (h : Linked s) (hz : s.ctxRefs c = 0) (hm : s.dxQueryMob c = none)
    (hlive : c ∈ s.live) :
    Linked { s with live := s.live.erase c, freeing := s.freeing.erase c } := by
  refine ⟨?_, ?_, ?_, h.tied, h.others, h.ctxCount, ?_⟩
  · intro m c' hc'
    obtain ⟨hlive', hmob, hfree⟩ := h.back m c' hc'
    have hne : c' ≠ c := by
      rintro rfl
      rw [hm] at hmob
      cases hmob
    exact ⟨Finset.mem_erase.2 ⟨hne, hlive'⟩, hmob, fun hmem => hfree (Finset.mem_of_mem_erase hmem)⟩
  · intro c' hc'
    by_cases hne : c' = c
    · rw [hne]
      exact hz
    · exact h.dead c' fun hmem => hc' (Finset.mem_erase.2 ⟨hne, hmem⟩)
  · intro c' hc'
    obtain ⟨hne, hmem⟩ := Finset.mem_erase.1 hc'
    exact (h.freed c' hmem).imp_left fun hlive' => Finset.mem_erase.2 ⟨hne, hlive'⟩
  · rw [share_erase hlive, hm, mark_none, sub_zero]
    exact h.boCount

theorem Linked.newCtx (h : Linked s) (hc : c ∉ s.live) :
    Linked { setQueryMob c none (ctxRef c 1 s) with
      live := insert c s.live
      otherCtxRefs := s.otherCtxRefs + Pi.single c 1 } := by
  refine ⟨?_, ?_, ?_, h.tied, ?_, ?_, ?_⟩
  · intro m c' hc'
    obtain ⟨hlive, hmob, hfree⟩ := h.back m c' hc'
    have hne : c' ≠ c := by
      rintro rfl
      exact hc hlive
    exact ⟨Finset.mem_insert_of_mem hlive, (Function.update_of_ne hne _ _).trans hmob, hfree⟩
  · intro c' hc'
    have hne : c' ≠ c := fun heq => hc' (Finset.mem_insert.2 (.inl heq))
    exact (ctxRef_of_ne hne 1 s).trans (h.dead c' fun hmem => hc' (Finset.mem_insert_of_mem hmem))
  · intro c' hc'
    obtain ⟨hlive, hz⟩ := h.freed c' hc'
    have hne : c' ≠ c := by
      rintro rfl
      exact hc hlive
    exact ⟨Finset.mem_insert_of_mem hlive, (ctxRef_of_ne hne 1 s).trans hz⟩
  · intro c'
    have hnonneg := h.others c'
    have hone : (0 : ℤ) ≤ (Pi.single c 1 : ℕ → ℤ) c' := by
      rw [Pi.single_apply]
      split_ifs <;> omega
    exact add_nonneg hnonneg hone
  · simp only [ctxRef, setQueryMob, batchCtxs, h.ctxCount]
    abel
  · have hshare : share (insert c s.live) (Function.update s.dxQueryMob c none) =
        share s.live s.dxQueryMob := by
      rw [share_insert hc, Function.update_self, mark_none, add_zero]
      apply share_congr
      intro c' hc'
      have hne : c' ≠ c := by
        rintro rfl
        exact hc hc'
      exact Function.update_of_ne hne _ _
    simp only [ctxRef, setQueryMob, hshare]
    exact h.boCount

theorem Linked.ctxRef (h : Linked s) (hc : 0 < s.ctxRefs c) {k : ℤ} {others : ℕ → ℤ}
    {bt : Option SwContext} (ho : ∀ a, 0 ≤ others a) (ht : ∀ b, bt = some b → Tied b)
    (hcount : others + occ (bt.elim [] (·.ctxs)) =
      s.otherCtxRefs + occ (batchCtxs s) + Pi.single c k)
    (hbos : bt.elim [] (·.bos) = batchBos s) :
    Linked { ctxRef c k s with otherCtxRefs := others, batch := bt } := by
  obtain ⟨hlive, hfree⟩ := h.live_of_pos hc
  refine ⟨h.back, ?_, ?_, ht, ho, ?_, ?_⟩
  · intro a ha
    have hne : a ≠ c := by
      rintro rfl
      exact ha hlive
    exact (ctxRef_of_ne hne k s).trans (h.dead a ha)
  · intro a ha
    have hne : a ≠ c := by
      rintro rfl
      exact hfree ha
    exact ⟨(h.freed a ha).1, (ctxRef_of_ne hne k s).trans (h.freed a ha).2⟩
  · simp only [batchCtxs, hcount, DxQuery.ctxRef]
    rw [h.ctxCount]
    rfl
  · simp only [batchBos, hbos, DxQuery.ctxRef]
    exact h.boCount

theorem Linked.boRef (h : Linked s) {k : ℤ} {others : ℕ → ℤ} {bt : Option SwContext}
    (ht : ∀ b, bt = some b → Tied b)
    (hcount : others + occ (bt.elim [] (·.bos)) = s.otherBoRefs + occ (batchBos s) + Pi.single m k)
    (hctxs : bt.elim [] (·.ctxs) = batchCtxs s) :
    Linked { boRef m k s with otherBoRefs := others, batch := bt } := by
  refine ⟨h.back, h.dead, h.freed, ht, h.others, ?_, ?_⟩
  · simp only [batchCtxs, hctxs, DxQuery.boRef]
    exact h.ctxCount
  · change s.boRefs + Pi.single m k = others + occ (bt.elim [] (·.bos)) +
      share s.live s.dxQueryMob
    rw [hcount, h.boCount]
    abel

theorem Linked.batch (h : Linked s) {bt : Option SwContext} (ht : ∀ b, bt = some b → Tied b)
    (hctxs : bt.elim [] (·.ctxs) = batchCtxs s) (hbos : bt.elim [] (·.bos) = batchBos s) :
    Linked { s with batch := bt } := by
  refine ⟨h.back, h.dead, h.freed, ht, h.others, ?_, ?_⟩
  · simp only [batchCtxs, hctxs]
    exact h.ctxCount
  · simp only [batchBos, hbos]
    exact h.boCount

theorem Linked.addBo (h : Linked s) {b' : SwContext} (hb : s.batch = some b)
    (hctxs : b'.ctxs = b.ctxs) (hbos : b'.bos = b.bos) (ht : Tied b') :
    Linked (addBo m b' s) := by
  have hlists : batchCtxs s = b.ctxs ∧ batchBos s = b.bos := by
    simp [batchCtxs, batchBos, hb]
  unfold DxQuery.addBo
  split_ifs
  · apply h.batch
    · rintro _ ⟨⟩
      exact ht
    · exact hctxs.trans hlists.1.symm
    · exact hbos.trans hlists.2.symm
  · apply h.boRef
    · rintro _ ⟨⟩
      exact ht
    · simp only [DxQuery.boRef, Option.elim_some, occ_cons, hbos, hlists.2]
      abel
    · exact hctxs.trans hlists.1.symm

theorem Linked.addCtx (h : Linked s) {b' : SwContext} (hb : s.batch = some b)
    (hc : 0 < s.ctxRefs c) (hctxs : b'.ctxs = b.ctxs) (hbos : b'.bos = b.bos)
    (ht : ∀ l, c ∈ l → b.ctxs ⊆ l → Tied { b' with ctxs := l }) : Linked (addCtx c b' s) := by
  have hlists : batchCtxs s = b.ctxs ∧ batchBos s = b.bos := by
    simp [batchCtxs, batchBos, hb]
  unfold DxQuery.addCtx
  split_ifs with hmem
  · apply h.batch
    · rintro _ ⟨⟩
      exact ht b'.ctxs hmem (by rw [hctxs]; exact List.Subset.refl _)
    · exact hctxs.trans hlists.1.symm
    · exact hbos.trans hlists.2.symm
  · apply h.ctxRef hc h.others
    · rintro _ ⟨⟩
      exact ht _ List.mem_cons_self (by rw [hctxs]; exact List.subset_cons_self _ _)
    · simp only [Option.elim_some, occ_cons, hctxs, hlists.1]
      abel
    · exact hbos.trans hlists.2.symm

theorem single_nonneg (a b : ℕ) : (0 : ℤ) ≤ (Pi.single a 1 : ℕ → ℤ) b := by
  rw [Pi.single_apply]
  split_ifs <;> omega

theorem inBatch_eq_some {p : BatchPhase → Bool} {f : SwContext → Option QueryDev}
    (h : inBatch p s f = some t) : ∃ b, s.batch = some b ∧ p b.phase = true ∧ f b = some t := by
  unfold inBatch at h
  split at h
  · cases h
  · rename_i b hb
    split_ifs at h with hp
    exact ⟨b, hb, hp, h⟩

theorem tied_ended (b : SwContext) : Tied { b with phase := .ended } := fun h => absurd rfl h

theorem tied_of_ended (h : b.phase = .ended) : Tied b := fun hne => absurd h hne

theorem step_others {op : Op} (h : Linked s) (hs : step s op = some t)
    (hop : (∃ c, op = .holdCtx c ∨ op = .putCtx c) ∨ ∃ m, op = .holdBo m ∨ op = .putBo m ∨
      op = .newBo m) : Linked t := by
  rcases hop with ⟨c, rfl | rfl⟩ | ⟨m, rfl | rfl | rfl⟩
  · simp only [step] at hs
    split_ifs at hs with hc
    cases hs
    apply h.ctxRef hc ?_ h.tied ?_ rfl
    · exact fun a => add_nonneg (h.others a) (single_nonneg c a)
    · change _ + occ (batchCtxs s) = _
      abel
  · simp only [step] at hs
    split_ifs at hs with hc
    cases hs
    apply h.ctxRef (h.ctxRefs_pos_of_other hc) ?_ h.tied ?_ rfl
    · intro a
      have hnonneg := h.others a
      rw [Pi.sub_apply, Pi.single_apply]
      split_ifs with ha
      · subst ha
        omega
      · omega
    · change _ + occ (batchCtxs s) = _
      rw [Pi.single_neg]
      abel
  · simp only [step] at hs
    split_ifs at hs with hm
    cases hs
    apply h.boRef h.tied ?_ rfl
    change _ + occ (batchBos s) = _
    abel
  · simp only [step] at hs
    split_ifs at hs with hm
    cases hs
    apply h.boRef h.tied ?_ rfl
    change _ + occ (batchBos s) = _
    rw [Pi.single_neg]
    abel
  · simp only [step] at hs
    split_ifs at hs with hm
    cases hs
    apply (h.clear m).boRef h.tied ?_ rfl
    change _ + occ (batchBos s) = s.otherBoRefs + occ (batchBos s) + _
    abel

theorem Linked.useCtx (h : Linked s) (hb : s.batch = some b) (hphase : b.phase ≠ .ended)
    (hc : 0 < s.otherCtxRefs c) (tie : Bool) :
    Linked (DxQuery.addCtx c (if tie then { b with dxCtx := some c } else b) s) := by
  obtain ⟨hdx, hquery⟩ := h.tied b hb hphase
  apply h.addCtx hb (h.ctxRefs_pos_of_other hc)
  · split_ifs <;> rfl
  · split_ifs <;> rfl
  · intro l hl hsub hne
    refine ⟨?_, ?_⟩
    · intro c' hc'
      dsimp only at hc'
      split_ifs at hc'
      · obtain rfl := Option.some.inj hc'
        exact hl
      · exact hsub (hdx c' hc')
    · intro c' hc'
      dsimp only at hc'
      split_ifs at hc' <;> exact hsub (hquery c' hc')

theorem Linked.bindMob (h : Linked s) (hb : s.batch = some b) (hphase : b.phase ≠ .ended) :
    Linked (vmwBindDxQueryMob b s) ∧ (vmwBindDxQueryMob b s).batch = s.batch := by
  unfold vmwBindDxQueryMob
  split
  · rename_i m c hm hc
    refine ⟨h.bind (h.ctxRefs_pos hb ((h.tied b hb hphase).2 c hc)) m, ?_⟩
    unfold vmwContextBindDxQuery
    split
    · split_ifs <;> rfl
    · rfl
  · exact ⟨h, rfl⟩

theorem not_ended {phase : BatchPhase} (hphase : phase ≠ .ended)
    (hp : decide (b.phase = phase) = true) : b.phase ≠ .ended := by
  rwa [of_decide_eq_true hp]

theorem step_linked {op : Op} (h : Linked s) (hs : step s op = some t) : Linked t := by
  cases op with
  | newCtx c =>
    simp only [step] at hs
    split_ifs at hs with hc
    cases hs
    exact h.newCtx hc
  | newBo m => exact step_others h hs (.inr ⟨m, .inr (.inr rfl)⟩)
  | holdCtx c => exact step_others h hs (.inl ⟨c, .inl rfl⟩)
  | putCtx c => exact step_others h hs (.inl ⟨c, .inr rfl⟩)
  | holdBo m => exact step_others h hs (.inr ⟨m, .inl rfl⟩)
  | putBo m => exact step_others h hs (.inr ⟨m, .inr (.inl rfl)⟩)
  | freeClear c =>
    simp only [step] at hs
    split_ifs at hs with hc
    obtain ⟨m, hm, rfl⟩ := Option.map_eq_some_iff.1 hs
    exact h.freeClear hc.1 hc.2 hm
  | freeDrop c =>
    simp only [step] at hs
    split_ifs at hs with hc
    obtain ⟨m, hm, rfl⟩ := Option.map_eq_some_iff.1 hs
    exact h.freeDrop hc hm
  | freeEnd c =>
    simp only [step] at hs
    split_ifs at hs with hc
    cases hs
    exact h.freeEnd hc.2.1 hc.2.2 hc.1
  | begin =>
    simp only [step] at hs
    split_ifs at hs with hb
    cases hs
    apply h.batch
    · rintro _ ⟨⟩ -
      exact ⟨fun c hc => (by cases hc), fun c hc => (by cases hc)⟩
    · simp [batchCtxs, hb]
    · simp [batchBos, hb]
  | useCtx c tie =>
    simp only [step] at hs
    obtain ⟨b, hb, hp, hs⟩ := inBatch_eq_some hs
    by_cases hc : 0 < s.otherCtxRefs c
    swap
    · rw [if_neg hc] at hs
      cases hs
    rw [if_pos hc] at hs
    cases hs
    exact h.useCtx hb (not_ended (by simp) hp) hc tie
  | useBo m =>
    simp only [step] at hs
    obtain ⟨b, hb, hp, hs⟩ := inBatch_eq_some hs
    split_ifs at hs with hm
    cases hs
    exact h.addBo hb rfl rfl (h.tied b hb)
  | bindQuery m =>
    simp only [step] at hs
    obtain ⟨b, hb, hp, hs⟩ := inBatch_eq_some hs
    split_ifs at hs with hm
    cases hs
    refine h.addBo hb (by rfl) (by rfl) ?_
    intro hne
    obtain ⟨hdx, -⟩ := h.tied b hb hne
    exact ⟨hdx, hdx⟩
  | reserve =>
    simp only [step] at hs
    obtain ⟨b, hb, hp, hs⟩ := inBatch_eq_some hs
    cases hs
    apply h.batch
    · rintro _ ⟨⟩ -
      exact h.tied b hb (not_ended (by simp) hp)
    · simp [batchCtxs, hb]
    · simp [batchBos, hb]
  | fail =>
    simp only [step] at hs
    obtain ⟨b, hb, hp, hs⟩ := inBatch_eq_some hs
    cases hs
    apply h.batch
    · rintro _ ⟨⟩
      exact tied_ended b
    · simp [batchCtxs, hb]
    · simp [batchBos, hb]
  | rebind space c =>
    simp only [step] at hs
    obtain ⟨b, hb, hp, hs⟩ := inBatch_eq_some hs
    split_ifs at hs with hc
    cases hs
    exact h.rebind (h.ctxRefs_pos hb hc) space
  | commit =>
    simp only [step] at hs
    obtain ⟨b, hb, hp, hs⟩ := inBatch_eq_some hs
    cases hs
    obtain ⟨hbound, hbatch⟩ := h.bindMob hb (not_ended (by simp) hp)
    apply hbound.batch
    · rintro _ ⟨⟩
      exact tied_ended b
    · simp [batchCtxs, hbatch, hb]
    · simp [batchBos, hbatch, hb]
  | unrefCtx c =>
    simp only [step] at hs
    obtain ⟨b, hb, hp, hs⟩ := inBatch_eq_some hs
    split_ifs at hs with hc
    cases hs
    apply h.ctxRef (h.ctxRefs_pos hb hc) h.others
    · rintro _ ⟨⟩
      exact tied_of_ended (of_decide_eq_true hp)
    · simp only [Option.elim_some, occ_erase hc, batchCtxs, hb, Pi.single_neg]
      abel
    · simp [batchBos, hb]
  | unrefBo m =>
    simp only [step] at hs
    obtain ⟨b, hb, hp, hs⟩ := inBatch_eq_some hs
    split_ifs at hs with hm
    cases hs
    apply h.boRef
    · rintro _ ⟨⟩
      exact tied_of_ended (of_decide_eq_true hp)
    · simp only [DxQuery.boRef, Option.elim_some, occ_erase hm, batchBos, hb, Pi.single_neg]
      abel
    · simp [batchCtxs, hb]
  | finish =>
    simp only [step] at hs
    obtain ⟨b, hb, hp, hs⟩ := inBatch_eq_some hs
    split_ifs at hs with hl
    cases hs
    apply h.batch
    · rintro _ ⟨⟩
    · simp [batchCtxs, hb, hl.1]
    · simp [batchBos, hb, hl.2]
  | moveNotify toSystem space m =>
    cases hs
    unfold vmwQueryMoveNotify
    split_ifs
    · exact h.readback space m
    · exact h
  | unbind readback space c =>
    simp only [step] at hs
    split_ifs at hs with hc
    cases hs
    unfold vmwDxContextUnbind
    split
    · exact h
    · split_ifs
      · exact h.readback space _
      · exact h
  | finishReadback m =>
    simp only [step] at hs
    split_ifs at hs with hm
    cases hs
    have hclear := h.clear m
    exact ⟨hclear.back, h.dead, h.freed, h.tied, h.others, h.ctxCount, h.boCount⟩

theorem linked_start : Linked start := by
  refine ⟨?_, fun _ _ => rfl, ?_, ?_, fun _ => le_rfl, ?_, ?_⟩
  · intro m c hc
    cases hc
  · intro c hc
    cases hc
  · intro b hb
    cases hb
  · funext c
    simp [start, occ, batchCtxs]
  · funext m
    simp [start, occ, batchBos]

/-- A pointer from a buffer to a context is to one that is not freed and names the buffer; apart
    from the batch and the other holders, the references to a buffer are one for each context
    that names it. -/
theorem runs_linked {ops : List Op} (hr : Runs step anyLabel start ops s) :
    (∀ m c, s.dxQueryCtx m = some c → c ∈ s.live ∧ s.dxQueryMob c = some m) ∧
      ∀ m, s.boRefs m = s.otherBoRefs m + (batchBos s).count m +
        (s.live.filter fun c => s.dxQueryMob c = some m).card := by
  have h : Linked s := hr.invariant Linked linked_start fun _ _ _ h _ hs => step_linked h hs
  refine ⟨fun m c hc => ⟨(h.back m c hc).1, (h.back m c hc).2.1⟩, fun m => ?_⟩
  exact congrFun h.boCount m

/-- Two contexts use one buffer; the first goes after a readback and the second is linked
    again. -/
def sharedRun : List Op :=
  [.newCtx 1, .newCtx 2, .newBo 7, .begin, .useCtx 1 true, .bindQuery 7, .reserve, .commit,
    .unrefCtx 1, .unrefBo 7, .finish, .begin, .useCtx 2 true, .bindQuery 7, .reserve, .commit,
    .unrefCtx 2, .unrefBo 7, .finish, .moveNotify true true 7, .finishReadback 7, .putCtx 1,
    .freeClear 1, .begin, .useCtx 2 true, .reserve, .rebind true 2, .freeDrop 1, .freeEnd 1]

theorem sharedRun_linked : ((exec step start sharedRun).getD start).dxQueryCtx 7 = some 2 ∧
    (2 ∈ ((exec step start sharedRun).getD start).live ∧
      ((exec step start sharedRun).getD start).dxQueryMob 2 = some 7) := by
  have hr : Runs step anyLabel start sharedRun ((exec step start sharedRun).getD start) :=
    runs_getD (by decide)
  have hlink : ((exec step start sharedRun).getD start).dxQueryCtx 7 = some 2 := by decide
  exact ⟨hlink, (runs_linked hr).1 7 2 hlink⟩

end Vmwgfx.DxQuery
