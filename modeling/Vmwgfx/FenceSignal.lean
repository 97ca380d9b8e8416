import Vmwgfx.FenceMachine
import Vmwgfx.PrefixScan

set_option autoImplicit false

/-!
# Signalling passed fences

The scan of `__vmw_fences_update` stops at the first fence that has not
passed. It therefore signals every passed fence as long as fences are listed in
the order in which their seqnos were allotted.
-/
namespace Vmwgfx.FenceSignal
open Word32 LabelledRuns PrefixScan FenceMachine

def live (s : FenceMan) : List ℕ :=
  (s.fence :: s.markers) ++ s.inflight.map Prod.snd ++ s.fenceList.map FenceObj.seqno

/-- Fences are listed in allotment order, and everything live is less than
    `VMW_FENCE_WRAP` behind the newest seqno. -/
structure Ordered (s : FenceMan) : Prop where
  sorted : (s.fenceList.map FenceObj.seqno).Pairwise fun a b => subU32 b a < 2 ^ 31
  window : ∀ x ∈ live s, subU32 s.markerSeq x < 2 ^ 31

/-- `t` differs from `s` by lost fences and device progress. -/
structure Shrinks (s t : FenceMan) : Prop where
  fences : (t.fenceList.map FenceObj.seqno).Sublist (s.fenceList.map FenceObj.seqno)
  device : ∀ x ∈ t.fence :: t.markers, x ∈ s.fence :: s.markers
  inflight : t.inflight = s.inflight
  markerSeq : t.markerSeq = s.markerSeq

theorem Shrinks.trans {s t u : FenceMan} (h : Shrinks s t) (h' : Shrinks t u) : Shrinks s u :=
  ⟨h'.fences.trans h.fences, fun x hx => h.device x (h'.device x hx),
    h'.inflight.trans h.inflight, h'.markerSeq.trans h.markerSeq⟩

theorem Ordered.shrink {s t : FenceMan} (h : Ordered s) (ht : Shrinks s t) : Ordered t := by
  refine ⟨h.sorted.sublist ht.fences, ?_⟩
  intro x hx
  rw [ht.markerSeq]
  apply h.window x
  simp only [live, List.mem_append, ht.inflight] at hx ⊢
  rcases hx with (hx | hx) | hx
  · exact .inl (.inl (ht.device x hx))
  · exact .inl (.inr hx)
  · exact .inr (ht.fences.subset hx)

theorem deviceRun_shrinks (k : ℕ) (s : FenceMan) : Shrinks s (deviceRun k s) := by
  obtain ⟨seqno, markers, h, hsub⟩ := deviceRun_eq k s
  rw [h]
  exact ⟨List.Sublist.refl _, hsub, rfl, rfl⟩

theorem scanFences_shrinks (seqno : ℕ) (s : FenceMan) :
    Shrinks s (scanFences seqno s.fenceList s) := by
  obtain ⟨_, _, hfence, hmarkers, hseq, hinf⟩ := scanFences_frame seqno s.fenceList s
  refine ⟨?_, ?_, hinf, hseq⟩
  · rw [(scanFences_lists seqno s.fenceList s rfl).1]
    exact (List.dropWhile_sublist _).map _
  · intro x hx
    rwa [hfence, hmarkers] at hx

theorem goalNew_shrinks (s : FenceMan) (seqno : ℕ) :
    Shrinks s (vmwFenceGoalNewLocked s seqno).2 := by
  obtain ⟨hlist, _, hfence, hmarkers, hseq, hinf⟩ := vmwFenceGoalNewLocked_frame s seqno
  refine ⟨by rw [hlist], ?_, hinf, hseq⟩
  intro x hx
  rwa [hfence, hmarkers] at hx

theorem updatePass_shrinks (s : FenceMan) (seqno : ℕ) : Shrinks s (updatePass s seqno).2 :=
  (scanFences_shrinks seqno s).trans (goalNew_shrinks _ seqno)

theorem rerun_shrinks (ks : List ℕ) (s : FenceMan) (seqno : ℕ) : Shrinks s (rerun ks s seqno).2 := by
  induction ks generalizing s seqno with
  | nil => exact updatePass_shrinks s seqno
  | cons k ks ih =>
    have h := updatePass_shrinks s seqno
    have hd := h.trans (deviceRun_shrinks k _)
    simp only [rerun]
    split_ifs
    · exact h
    · exact hd
    · exact hd.trans (ih _ _)

theorem update_shrinks (k : ℕ) (ks : List ℕ) (s : FenceMan) :
    Shrinks s (vmwFencesUpdate k ks s).2 := by
  have h := (deviceRun_shrinks k s).trans (rerun_shrinks ks _ (deviceRun k s).fence)
  exact ⟨h.fences, h.device, h.inflight, h.markerSeq⟩

theorem Ordered.passedFirst {s : FenceMan} (h : Ordered s) :
    PassedFirst (passed s.fence) s.fenceList := by
  have hs := List.pairwise_map.1 h.sorted
  refine hs.imp_of_mem ?_
  intro f g hf hg hfg
  have hd : subU32 s.markerSeq s.fence < 2 ^ 31 := h.window _ (by simp [live])
  have hwf : subU32 s.markerSeq f.seqno < 2 ^ 31 :=
    h.window _ (List.mem_append_right _ (List.mem_map_of_mem hf))
  have hwg : subU32 s.markerSeq g.seqno < 2 ^ 31 :=
    h.window _ (List.mem_append_right _ (List.mem_map_of_mem hg))
  simp only [passed, decide_eq_true_eq, subU32_lt_half_iff hwg hd, subU32_lt_half_iff hwf hd]
  exact fun hp => hp.trans ((subU32_lt_half_iff hwf hwg).1 hfg)

/-- The list and the signalled objects after an update that read the seqnos `obs`. -/
structure Signals (obs : List ℕ) (s t : FenceMan) : Prop where
  listed : ∀ f, f ∈ t.fenceList ↔ f ∈ s.fenceList ∧ ∀ x ∈ obs, passed x f = false
  signaled : ∀ i, i ∈ t.signaled ↔
    i ∈ s.signaled ∨ ∃ f ∈ s.fenceList, f.id = i ∧ ∃ x ∈ obs, passed x f = true

theorem Signals.append {obs obs' : List ℕ} {s t u : FenceMan} (h : Signals obs s t)
    (h' : Signals obs' t u) : Signals (obs ++ obs') s u := by
  constructor
  · intro f
    rw [h'.listed, h.listed]
    simp only [List.mem_append, or_imp, forall_and]
    tauto
  · intro i
    rw [h'.signaled, h.signaled]
    constructor
    · rintro ((hi | ⟨f, hf, rfl, x, hx, hp⟩) | ⟨f, hf, rfl, x, hx, hp⟩)
      · exact .inl hi
      · exact .inr ⟨f, hf, rfl, x, List.mem_append_left _ hx, hp⟩
      · exact .inr ⟨f, ((h.listed f).1 hf).1, rfl, x, List.mem_append_right _ hx, hp⟩
    · rintro (hi | ⟨f, hf, rfl, x, hx, hp⟩)
      · exact .inl (.inl hi)
      · by_cases hl : f ∈ t.fenceList
        · rcases List.mem_append.1 hx with hx | hx
          · have := ((h.listed f).1 hl).2 x hx
            simp [hp] at this
          · exact .inr ⟨f, hl, rfl, x, hx, hp⟩
        · have hx' : ∃ x ∈ obs, passed x f = true := by
            by_contra hne
            push Not at hne
            exact hl ((h.listed f).2 ⟨hf, fun x hx => by simpa using hne x hx⟩)
          obtain ⟨y, hy, hpy⟩ := hx'
          exact .inl (.inr ⟨f, hf, rfl, y, hy, hpy⟩)

theorem Signals.congr {obs : List ℕ} {s t s' t' : FenceMan} (h : Signals obs s t)
    (hs : s'.fenceList = s.fenceList) (hss : s'.signaled = s.signaled)
    (ht : t'.fenceList = t.fenceList) (hts : t'.signaled = t.signaled) : Signals obs s' t' :=
  ⟨by rw [hs, ht]; exact h.listed, by rw [hs, hss, hts]; exact h.signaled⟩

theorem updatePass_signals {s : FenceMan} (h : Ordered s) :
    Signals [s.fence] s (updatePass s s.fence).2 := by
  obtain ⟨hlist, hsig⟩ := scanFences_lists s.fence s.fenceList s rfl
  obtain ⟨hl, hg, _⟩ := vmwFenceGoalNewLocked_frame (scanFences s.fence s.fenceList s) s.fence
  unfold updatePass
  rw [dropWhile_eq_filter h.passedFirst] at hlist
  rw [takeWhile_eq_filter h.passedFirst] at hsig
  constructor
  · intro f
    rw [hl, hlist]
    simp
  · intro i
    rw [hg, hsig]
    simp only [List.mem_append, List.mem_map, List.mem_filter, List.mem_singleton,
      exists_eq_left]
    constructor
    · rintro (hi | ⟨f, ⟨hf, hp⟩, rfl⟩)
      · exact .inl hi
      · exact .inr ⟨f, hf, rfl, hp⟩
    · rintro (hi | ⟨f, hf, rfl, hp⟩)
      · exact .inl hi
      · exact .inr ⟨f, ⟨hf, hp⟩, rfl⟩

theorem deviceRun_lists (k : ℕ) (s : FenceMan) :
    (deviceRun k s).fenceList = s.fenceList ∧ (deviceRun k s).signaled = s.signaled := by
  obtain ⟨_, _, h, _⟩ := deviceRun_eq k s
  rw [h]
  exact ⟨rfl, rfl⟩

theorem rerun_signals (ks : List ℕ) {s : FenceMan} (h : Ordered s) :
    Signals (rerun ks s s.fence).1 s (rerun ks s s.fence).2 := by
  induction ks generalizing s with
  | nil => exact updatePass_signals h
  | cons k ks ih =>
    have hs := updatePass_signals h
    have ho := h.shrink (updatePass_shrinks s s.fence)
    obtain ⟨hl, hg⟩ := deviceRun_lists k (updatePass s s.fence).2
    have hd := hs.congr rfl rfl hl hg
    simp only [rerun]
    split_ifs
    · exact hs
    · exact hd
    · exact hd.append (ih (ho.shrink (deviceRun_shrinks k _)))

/-- Every fence within the window behind a seqno that the update observed is
    signalled and off the list, and no other fence is signalled. -/
def SignalsPassed (s : FenceMan) (k : ℕ) (ks : List ℕ) : Prop :=
  Signals (vmwFencesUpdate k ks s).1 s (vmwFencesUpdate k ks s).2

theorem update_signals {s : FenceMan} (h : Ordered s) (k : ℕ) (ks : List ℕ) :
    SignalsPassed s k ks := by
  obtain ⟨hl, hg⟩ := deviceRun_lists k s
  exact (rerun_signals ks (h.shrink (deviceRun_shrinks k s))).congr hl.symm hg.symm rfl rfl

/-- A fence object is initialised in allotment order, and allotting one more
    seqno leaves everything live less than `VMW_FENCE_WRAP` behind it. -/
def InOrder (s : FenceMan) : Act → Prop
  | .sendFence _ => ∀ x ∈ live s, subU32 (nextSeqno s.markerSeq) x < 2 ^ 31
  | .objInit who _ => ∀ q ∈ s.inflight.lookup who, ∀ f ∈ s.fenceList, subU32 q f.seqno < 2 ^ 31
  | _ => True

theorem start_ordered (m g : ℕ) (cap : Bool) : Ordered (start m g cap) :=
  ⟨List.Pairwise.nil, by intro x hx; simp [live, start] at hx; subst hx; simp [start]⟩

theorem forget_ordered {s : FenceMan} (h : Ordered s) (who : ℕ) : Ordered (forget who s) := by
  refine ⟨h.sorted, ?_⟩
  intro x hx
  apply h.window x
  simp only [live, forget, List.mem_append, List.mem_map] at hx ⊢
  rcases hx with (hx | ⟨p, hp, rfl⟩) | hx
  · exact .inl (.inl hx)
  · exact .inl (.inr ⟨p, (List.mem_filter.1 hp).1, rfl⟩)
  · exact .inr hx

theorem sendFence_ordered {s : FenceMan} (h : Ordered s) (who : ℕ)
    (hw : ∀ x ∈ live s, subU32 (nextSeqno s.markerSeq) x < 2 ^ 31) :
    Ordered (vmwFifoSendFence s who) := by
  refine ⟨h.sorted, ?_⟩
  intro x hx
  by_cases hm : x = nextSeqno s.markerSeq
  · subst hm
    simp [vmwFifoSendFence]
  · apply hw x
    simp only [live, vmwFifoSendFence, List.map_cons, List.mem_append, List.mem_cons, hm,
      false_or] at hx ⊢
    split_ifs at hx <;> simpa [hm] using hx

theorem sendFenceFail_ordered {s : FenceMan} (h : Ordered s) (who : ℕ) (idle : Bool) :
    Ordered (vmwFifoSendFenceFail s who idle) := by
  refine ⟨h.sorted, ?_⟩
  intro x hx
  by_cases hm : x = s.markerSeq
  · subst hm
    simp [vmwFifoSendFenceFail]
  · apply h.window x
    simp only [live, vmwFifoSendFenceFail, List.map_cons, List.mem_append, List.mem_cons, hm,
      false_or] at hx ⊢
    rcases hx with (hx | hx) | hx
    · split_ifs at hx
      · simp at hx
      · exact .inl (.inl (.inr hx))
    · exact .inl (.inr hx)
    · exact .inr hx

theorem objInit_ordered {s : FenceMan} (h : Ordered s) {id q : ℕ}
    (hq : subU32 s.markerSeq q < 2 ^ 31) (ho : ∀ f ∈ s.fenceList, subU32 q f.seqno < 2 ^ 31) :
    Ordered (vmwFenceObjInit s id q) := by
  unfold vmwFenceObjInit
  split_ifs
  · exact h
  · refine ⟨?_, ?_⟩
    · simp only [List.map_append, List.map_cons, List.map_nil]
      refine List.pairwise_append.2 ⟨h.sorted, List.pairwise_singleton _ _, ?_⟩
      intro a ha b hb
      obtain ⟨f, hf, rfl⟩ := List.mem_map.1 ha
      rw [List.mem_singleton.1 hb]
      exact ho f hf
    · intro x hx
      simp only [live, List.map_append, List.mem_append, List.map_cons, List.map_nil,
        List.mem_singleton] at hx
      rcases hx with hx | hx | rfl
      · exact h.window x (by simp only [live, List.mem_append]; exact .inl hx)
      · exact h.window x (List.mem_append_right _ hx)
      · exact hq

theorem attach_seqnos (id : ℕ) (a : FenceAction) (l : List FenceObj) :
    (l.map (attach id a)).map FenceObj.seqno = l.map FenceObj.seqno := by
  rw [List.map_map]
  apply List.map_congr_left
  intro f _
  simp only [Function.comp, attach]
  split_ifs <;> rfl

theorem addAction_shrinks {s t : FenceMan} {id : ℕ} {a : FenceAction}
    (h : vmwFenceObjAddAction s id a = some t) : Shrinks s t := by
  obtain ⟨_, rfl⟩ | ⟨_, f, _, _, rfl⟩ := vmwFenceObjAddAction_cases h
  · exact ⟨by simp [countAction], by simp [countAction], by simp [countAction],
      by simp [countAction]⟩
  · obtain ⟨hlist, hfence, hmarkers, hseq, hinf⟩ :=
      vmwFenceGoalCheckLocked_frame (attachAction (countAction s a) f.id a) f
    refine ⟨?_, ?_, hinf, hseq⟩
    · simp only [attachAndCheck]
      rw [hlist]
      simp only [attachAction, countAction, attach_seqnos, List.Sublist.refl]
    · intro x hx
      simp only [attachAndCheck] at hx
      rwa [hfence, hmarkers] at hx

theorem fifoDownExpire_shrinks (s : FenceMan) (f : FenceObj) :
    Shrinks s (signalFence s f s.fenceList.dropLast) := by
  refine ⟨?_, by simp [signalFence], by simp [signalFence], by simp [signalFence]⟩
  simpa [signalFence] using (List.dropLast_sublist s.fenceList).map FenceObj.seqno

theorem step_ordered {s t : FenceMan} {a : Act} (h : Ordered s) (ho : InOrder s a)
    (hs : step s a = some t) : Ordered t := by
  cases step_took hs with
  | sendFence => exact sendFence_ordered h _ ho
  | sendFenceFail => exact sendFenceFail_ordered h _ _
  | createFail => exact forget_ordered h _
  | @objInit who id q hq =>
    refine forget_ordered (objInit_ordered h ?_ (ho q hq)) who
    apply h.window
    have hmem : (who, q) ∈ s.inflight := by
      obtain ⟨l, l', hl, _⟩ := List.lookup_eq_some_iff.1 hq
      simp [hl]
    simp only [live, List.mem_append]
    exact .inl (.inr (List.mem_map.2 ⟨_, hmem, rfl⟩))
  | addAction hadd => exact h.shrink (addAction_shrinks hadd)
  | update => exact h.shrink (update_shrinks _ _ s)
  | device => exact h.shrink (deviceRun_shrinks _ s)
  | destroy => exact h.shrink ⟨List.filter_sublist.map _, fun _ hx => hx, rfl, rfl⟩
  | fifoDown => exact h.shrink ⟨List.Sublist.refl _, fun _ hx => hx, rfl, rfl⟩
  | fifoDownExpire => exact h.shrink (fifoDownExpire_shrinks s _)
  | fifoUp => exact h.shrink ⟨List.Sublist.refl _, fun _ hx => hx, rfl, rfl⟩

/-- With fence objects initialised in allotment order, every update reached by
    any interleaving signals exactly the passed fences. -/
theorem inOrder_runs_signal {m g : ℕ} {cap : Bool} {as : List Act} {s : FenceMan}
    (h : Runs step InOrder (start m g cap) as s) (k : ℕ) (ks : List ℕ) : SignalsPassed s k ks :=
  update_signals
    (h.invariant Ordered (start_ordered m g cap) fun _ _ _ hi ho hs => step_ordered hi ho hs) k ks

/-- One submitter and its fence: the device passes seqno 1 and the update sees it. -/
theorem single_fence_signals :
    ∃ s, Runs step InOrder (start 0 0 true) [.sendFence 0, .objInit 0 7] s ∧
      SignalsPassed s 1 [] ∧ (vmwFencesUpdate 1 [] s).2.signaled = [7] := by
  have h : Runs step InOrder (start 0 0 true) [.sendFence 0, .objInit 0 7] _ :=
    .next (by change ∀ x ∈ live (start 0 0 true), _; decide) rfl
      (.next (by intro q _ f hf; cases hf) rfl (.refl _))
  exact ⟨_, h, inOrder_runs_signal h 1 [], by decide⟩

/-- Two submitters allot seqnos 1 and 2, but the second one lists its fence
    first. When the device has passed seqno 1 the scan stops at seqno 2 and the
    passed fence stays unsignalled. -/
theorem swapped_init_leaves_passed :
    ¬ ∀ (m g : ℕ) (cap : Bool) (as : List Act) (s : FenceMan),
      Runs step anyLabel (start m g cap) as s → ∀ k ks, SignalsPassed s k ks := by
  intro h
  have hr : Runs step anyLabel (start 0 0 true)
      [.sendFence 0, .sendFence 1, .objInit 1 11, .objInit 0 10] _ := runs_of_exec rfl
  have hs := ((h _ _ _ _ _ hr 1 []).listed ⟨10, 1, []⟩).1 (by decide)
  exact absurd (hs.2 1 (by decide)) (by decide)

end Vmwgfx.FenceSignal
