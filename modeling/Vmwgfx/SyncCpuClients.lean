import Vmwgfx.SyncCpuGrabs

set_option autoImplicit false

/-!
# Clients that pair their grabs with releases

Every client counts its grabs that have returned 0 and gives a buffer up only while it has
one left. As long as the ioctl reports what it has done, the counts are the references of the
files, so that no release finds nothing to give up.
-/
namespace Vmwgfx.RefObjects
open ExecbufState (Errno)
open LabelledRuns

/-- The device and, by file and handle, how many grabs without `drm_vmw_synccpu_allow_cs` have
    returned 0 and are not given up. -/
structure Clients where
  dev : TtmDev
  owed : ℕ → ℕ → ℕ

def noClients : Clients := ⟨start, fun _ _ => 0⟩

def setOwed (f key n : ℕ) (owed : ℕ → ℕ → ℕ) : ℕ → ℕ → ℕ :=
  Function.update owed f (Function.update (owed f) key n)

theorem setOwed_apply (f key n g k : ℕ) (owed : ℕ → ℕ → ℕ) :
    setOwed f key n owed g k = if g = f ∧ k = key then n else owed g k := by
  unfold setOwed
  by_cases hg : g = f
  · subst hg
    rw [Function.update_self, Function.update_apply]
    simp
  · rw [Function.update_of_ne hg, if_neg fun h => hg h.1]

/-- The handle under which a grab of an object was made. -/
def handleOf (b : ℕ) (s : TtmDev) : ℕ := (s.base b).elim 0 (·.handle)

def owedAfter (s : TtmDev) (op : Op) (owed : ℕ → ℕ → ℕ) : ℕ → ℕ → ℕ :=
  match op with
  | .openFile f => Function.update owed f fun _ => 0
  | .grab o f handle flags =>
    if grabPhase o f handle flags s = .returned none ∧ synccpuAllowCs flags = false then
      setOwed f handle (owed f handle + 1) owed
    else owed
  | .finishGrab mem f b =>
    if grabResult (finishGrab mem f b s).1 = none then
      setOwed f (handleOf b s) (owed f (handleOf b s) + 1) owed
    else owed
  | .release f handle flags =>
    if synccpuAllowCs flags then owed else setOwed f handle (owed f handle - 1) owed
  | _ => owed

def clientStep (x : Clients) (op : Op) : Option Clients :=
  (step x.dev op).map fun t => ⟨t, owedAfter x.dev op x.owed⟩

/-- A client gives up what it has counted. The allocations of a grab fail for want of memory. -/
def Pairs (x : Clients) : Op → Prop
  | .release f handle flags =>
    synccpuFlagsOk flags = true ∧ (synccpuAllowCs flags = false → 0 < x.owed f handle)
  | .finishGrab mem _ _ => ∃ noMem, mem = allocError noMem
  | _ => True

/-- The waits of a grab do not end with an error that the ioctl takes for expected. -/
def GrabReported (s : TtmDev) : Op → Prop
  | .grab o f handle flags =>
    ∀ b, vmwUserBoLookup f handle s = .ok b → expected (waitError o flags) = false
  | _ => True

variable {s t : TtmDev} {f g b key : ℕ} {ty ty' : RefType} {mem : Option Errno} {o : GrabEnds}
  {flags handle : ℕ} {x y : Clients}

theorem refsOf_add_other (hty : ty' ≠ ty) :
    refsOf g ty' key (ttmRefObjectAdd mem f b ty s).2 = refsOf g ty' key s := by
  rcases hadd : ttmRefObjectAdd mem f b ty s with ⟨e | existed, t⟩
  · rw [(ttmRefObjectAdd_error hadd).1]
  · cases hB : s.base b with
    | none =>
      rw [ttmRefObjectAdd, hB] at hadd
      cases hadd
    | some B => rw [refsOf_add hB hadd, if_neg fun h => hty h.2.1]

theorem refsOf_init {shareable isBuffer : Bool} :
    heldRefs g key (ttmBaseObjectInit f b handle shareable isBuffer s) = heldRefs g key s := by
  unfold ttmBaseObjectInit heldRefs
  rw [refsOf_unref_base, refsOf_add_other (by decide)]
  rfl

theorem vmwUserBoSynccpuGrab_refList (o : GrabEnds) (f b flags : ℕ) (s : TtmDev) :
    (vmwUserBoSynccpuGrab o f b flags s).2.refList = s.refList := by
  unfold vmwUserBoSynccpuGrab
  split_ifs
  · split <;> rfl
  · rfl
  · rfl
  · rw [addBaseRef_refList]

theorem heldRefs_grab (o : GrabEnds) (f handle flags : ℕ) :
    heldRefs g key (synccpuGrabIoctl o f handle flags s).2 = heldRefs g key s := by
  unfold synccpuGrabIoctl
  split_ifs
  · rfl
  · split
    · rfl
    · exact refsOf_congr (congrFun (vmwUserBoSynccpuGrab_refList o f _ flags s) g)

theorem heldRefs_finishRelease (r : RefObject) :
    heldRefs g key (finishRefRelease r s) = heldRefs g key s := by
  unfold finishRefRelease heldRefs
  rw [refsOf_unref_base]
  split_ifs <;> rfl

theorem usable_of_step {op : Op} (hs : step s op = some t) (hf : usable g t = true) :
    op = .openFile g ∨ usable g s = true := by
  have hkeeps : Keeps s t → usable g s = true := by
    intro h
    rwa [usable_iff, h.files, h.closing, ← usable_iff] at hf
  rw [usable_iff] at hf
  cases step_cases hs with
  | openFile f _ =>
    by_cases hg : g = f
    · exact .inl (by rw [hg])
    · exact .inr (usable_iff.2 ⟨Finset.mem_of_mem_insert_of_ne hf.1 hg, hf.2⟩)
  | init f c k shareable isBuffer _ =>
    obtain ⟨u, hkept, -, hfiles, hclosing⟩ := init_keeps s f c k shareable isBuffer
    rw [hkept.files, hkept.closing, hfiles, hclosing] at hf
    exact .inr (usable_iff.2 hf)
  | close f _ => exact .inr (usable_iff.2 ⟨hf.1, fun hc => hf.2 (Finset.mem_insert_of_mem hc)⟩)
  | closed f _ =>
    have hg := Finset.mem_erase.1 hf.1
    exact .inr (usable_iff.2 ⟨hg.2, fun hc => hf.2 (Finset.mem_erase.2 ⟨hg.1, hc⟩)⟩)
  | _ => exact .inr (hkeeps (step_keeps hs not_false))

/-- What a client counts are the references of its file. -/
structure ClientsInv (x : Clients) : Prop where
  dev : Inv x.dev
  counted : ∀ f, usable f x.dev = true → ∀ key, x.owed f key = heldRefs f key x.dev

theorem clientsInv_start : ClientsInv noClients := by
  refine ⟨inv_start, ?_⟩
  intro f hf
  rw [usable_iff] at hf
  exact absurd hf.1 (Finset.notMem_empty f)

/-- A grab that the ioctl does not misreport returns 0 in its first part only with
    `drm_vmw_synccpu_allow_cs`. -/
theorem grabPhase_returned (h : GrabReported s (.grab o f handle flags))
    (hphase : grabPhase o f handle flags s = .returned none) : synccpuAllowCs flags = true := by
  by_contra hcs
  simp only [grabPhase, hcs, if_false] at hphase
  split at hphase
  · cases hphase
  · split at hphase
    · cases hphase
    · rename_i b hb
      split at hphase
      · rename_i e he
        have hexpected := h b hb
        rw [he] at hexpected
        rw [grabResult_of_not hexpected] at hphase
        cases hphase
      · cases hphase

theorem counted_step {op : Op} (h : ClientsInv x) (hp : Pairs x op) (hr : GrabReported x.dev op)
    (hs : step x.dev op = some t) (hg : usable g t = true) (key : ℕ) :
    owedAfter x.dev op x.owed g key = heldRefs g key t := by
  have hold : op ≠ .openFile g → x.owed g key = heldRefs g key x.dev := fun hop =>
    h.counted g ((usable_of_step hs hg).resolve_left hop) key
  cases step_cases hs with
  | openFile f _ =>
    by_cases hgf : g = f
    · subst hgf
      simp only [owedAfter, Function.update_self, heldRefs, refsOf_eq, setRefs_self]
      rfl
    · rw [owedAfter, Function.update_of_ne hgf, hold fun heq => hgf (by cases heq; rfl)]
      exact (refsOf_congr (setRefs_of_ne hgf _ _)).symm
  | init f b k shareable isBuffer _ =>
    rw [refsOf_init]
    exact hold (by simp)
  | addUsage mem f b _ =>
    rw [heldRefs, refsOf_add_other (by decide)]
    exact hold (by simp)
  | hold b _ =>
    exact (hold (by simp)).trans (refsOf_congr (congrFun (addBaseRef_refList b _) g)).symm
  | drop b _ =>
    exact (hold (by simp)).trans (refsOf_congr (congrFun (ttmBaseObjectUnref_refList b _) g)).symm
  | grab o f handle flags _ =>
    rw [heldRefs_grab, owedAfter, if_neg]
    · exact hold (by simp)
    · rintro ⟨hphase, hcs⟩
      rw [grabPhase_returned hr hphase] at hcs
      cases hcs
  | finishGrab mem f b hmem =>
    obtain ⟨noMem, rfl⟩ := hp
    obtain ⟨B, hB⟩ := h.dev.alive_of_grab hmem
    have hkey : handleOf b x.dev = B.handle := by rw [handleOf, hB, Option.elim_some]
    rw [owedAfter, finishGrab_fst, grabResult_of_not (not_expected_addError noMem f b x.dev), hkey,
      heldRefs, refsOf_finishGrab hB]
    have hcount : x.owed f B.handle + 1 = refsOf f .synccpuWrite B.handle x.dev + 1 := by
      rw [h.counted f (usable_iff.2 (h.dev.grabbing _ hmem).1), heldRefs]
    split_ifs with hadd hkind hkind
    · rw [setOwed_apply, if_pos ⟨hkind.2.1, hkind.2.2.2⟩, hcount]
    · rw [setOwed_apply, if_neg fun hk => hkind ⟨hadd, hk.1, rfl, hk.2⟩]
      exact hold (by simp)
    · exact absurd hkind.1 hadd
    · exact hold (by simp)
  | release f handle flags hf =>
    rw [owedAfter, synccpuReleaseIoctl, hp.1]
    simp only [Bool.not_true, Bool.false_eq_true, if_false]
    split_ifs
    · exact hold (by simp)
    · rw [setOwed_apply, heldRefs, h.dev.refsOf_unref, h.counted f hf]
      simp only [true_and]
      split_ifs
      · rfl
      · exact hold (by simp)
  | unrefUsage f handle _ =>
    rw [heldRefs, h.dev.refsOf_unref, if_neg (by simp)]
    exact hold (by simp)
  | finishRelease r _ =>
    rw [heldRefs_finishRelease]
    exact hold (by simp)
  | close f _ => exact hold (by simp)
  | closeNext f r hc hhead =>
    have hgf : g ≠ f := by
      rintro rfl
      exact (usable_iff.1 hg).2 hc.1
    rw [heldRefs, h.dev.refsOf_detach (List.mem_of_head? hhead), if_neg fun h => hgf h.1]
    exact hold (by simp)
  | closed f _ => exact hold (by simp)

theorem clientsInv_step {op : Op} (h : ClientsInv x) (hp : Pairs x op) (hr : GrabReported x.dev op)
    (hs : clientStep x op = some y) : ClientsInv y := by
  obtain ⟨t, ht, rfl⟩ := Option.map_eq_some_iff.1 hs
  exact ⟨step_inv h.dev ht, fun f hf => counted_step h hp hr ht hf⟩

theorem ClientsInv.release (h : ClientsInv x) (hf : usable f x.dev = true)
    (hflags : synccpuFlagsOk flags = true) (howed : 0 < x.owed f key) :
    (∃ r, findRef f .synccpuWrite key x.dev = some r) ∧
      (synccpuReleaseIoctl f key flags x.dev).1 = none := by
  rw [h.counted f hf, heldRefs, refsOf] at howed
  cases hfind : findRef f .synccpuWrite key x.dev with
  | none =>
    rw [hfind] at howed
    exact absurd howed (lt_irrefl 0)
  | some r =>
    refine ⟨⟨r, rfl⟩, ?_⟩
    simp only [synccpuReleaseIoctl, hflags, Bool.not_true, Bool.false_eq_true, if_false]
    split_ifs
    · rfl
    · rw [ttmRefObjectBaseUnref, hfind]
      dsimp only
      split_ifs <;> rfl

/-- A grab reports what it has done if and only if its waits do not end with an error that the
    ioctl takes for expected. If none does, a client that pairs its grabs with releases has as
    many references as it counts, and none of its releases fails. -/
theorem synccpu_grabs (f flags : ℕ) (hflags : synccpuFlagsOk flags = true) :
    (∀ ops s, Runs step anyLabel start ops s → ∀ (c : GrabCalls) (noMem : Bool) handle v,
      usable f s = true → Resumes c f handle flags s v →
      (Reports c noMem f handle flags s v ↔ WaitsReported c f handle flags s)) ∧
    ∀ ops x, Runs clientStep (fun x op => Pairs x op ∧ GrabReported x.dev op) noClients ops x →
      ∀ key, usable f x.dev = true → x.owed f key = heldRefs f key x.dev ∧
        (0 < x.owed f key → (∃ r, findRef f .synccpuWrite key x.dev = some r) ∧
          ∀ c noMem v, (vmwUserBoSynccpuIoctl 1 c noMem f key flags x.dev v).1 = none) := by
  refine ⟨?_, ?_⟩
  · intro ops s hr c noMem handle v hf hv
    have h : Inv s := hr.invariant Inv inv_start fun _ _ _ h _ hs => step_inv h hs
    exact reports_iff h hf hflags hv
  · intro ops x hr key hf
    have h : ClientsInv x := hr.invariant ClientsInv clientsInv_start fun _ _ _ h hp hs =>
      clientsInv_step h hp.1 hp.2 hs
    refine ⟨h.counted f hf key, ?_⟩
    intro howed
    refine ⟨(h.release hf hflags howed).1, fun c noMem v => ?_⟩
    have hrelease := (h.release hf hflags howed).2
    simp only [vmwUserBoSynccpuIoctl, hflags, Bool.not_true, Bool.false_eq_true, if_false,
      Nat.one_ne_zero, if_true]
    exact hrelease

def ownBuffer : List Op := [.openFile 0, .init 0 5 1 true true]

def ownBufferEnd : TtmDev := (exec step start ownBuffer).getD start

def busyCalls : GrabCalls := ⟨true, none, false, .ok 0⟩

def idleCalls : GrabCalls := ⟨true, none, true, .ok 1⟩

def grabRun (c : GrabCalls) (flags : ℕ) (ops : List Op) : List Op :=
  ownBuffer ++ .grab (grabEnds c flags) 0 1 flags :: ops

def grabRunEnd (c : GrabCalls) (flags : ℕ) (ops : List Op) : Clients :=
  (exec clientStep noClients (grabRun c flags ops)).getD noClients

theorem grabRun_exec {c : GrabCalls} {ops : List Op}
    (h : (exec clientStep noClients (grabRun c flags ops)).isSome = true) :
    exec clientStep noClients (grabRun c flags ops) = some (grabRunEnd c flags ops) := by
  obtain ⟨x, hx⟩ := Option.isSome_iff_exists.1 h
  rw [grabRunEnd, hx]
  rfl

theorem synccpu_grabs_idle :
    (∀ v, v = (vmwUserBoSynccpuGrab (grabEnds idleCalls 2) 0 5 2 ownBufferEnd).2 →
      Reports idleCalls false 0 1 2 ownBufferEnd v) ∧
    (grabRunEnd idleCalls 2 [.finishGrab none 0 5]).owed 0 1 = 1 ∧
    1 = heldRefs 0 1 (grabRunEnd idleCalls 2 [.finishGrab none 0 5]).dev ∧
    (vmwUserBoSynccpuIoctl 1 idleCalls false 0 1 2
      (grabRunEnd idleCalls 2 [.finishGrab none 0 5]).dev start).1 = none := by
  refine ⟨?_, ?_⟩
  · rintro v rfl
    have hr : Runs step anyLabel start ownBuffer ownBufferEnd := runs_getD (by decide)
    have hreports := (synccpu_grabs 0 2 (by decide)).1 ownBuffer ownBufferEnd hr idleCalls false
    apply (hreports 1 _ (by decide) ?_).2 fun b _ => by decide
    intro b hb _ _
    have hlookup : vmwUserBoLookup 0 1 ownBufferEnd = .ok 5 := by rfl
    rw [hlookup] at hb
    cases hb
    exact ⟨by decide, [], .refl _⟩
  · have hadmits : ∀ op ∈ grabRun idleCalls 2 [.finishGrab none 0 5], ∀ x : Clients,
        Pairs x op ∧ GrabReported x.dev op := by
      intro op hop x
      simp only [grabRun, ownBuffer, List.cons_append, List.nil_append, List.mem_cons,
        List.not_mem_nil, or_false] at hop
      rcases hop with rfl | rfl | rfl | rfl
      · exact ⟨trivial, trivial⟩
      · exact ⟨trivial, trivial⟩
      · exact ⟨trivial, fun _ _ => by decide⟩
      · exact ⟨⟨false, rfl⟩, trivial⟩
    have hr := Runs.of_exec hadmits (grabRun_exec (by decide))
    have howed : (grabRunEnd idleCalls 2 [.finishGrab none 0 5]).owed 0 1 = 1 := by decide
    have hclient := (synccpu_grabs 0 2 (by decide)).2 _ _ hr 1 (by decide)
    refine ⟨howed, howed ▸ hclient.1, ?_⟩
    exact (hclient.2 (by rw [howed]; exact Nat.one_pos)).2 idleCalls false start

/-- A buffer that is busy: the grab returns 0, and its release fails. -/
theorem busy_grab_returns_zero :
    Runs step anyLabel start ownBuffer ownBufferEnd ∧ usable 0 ownBufferEnd = true ∧
    synccpuFlagsOk 6 = true ∧ Resumes busyCalls 0 1 6 ownBufferEnd ownBufferEnd ∧
    ¬ Reports busyCalls false 0 1 6 ownBufferEnd ownBufferEnd ∧
    Runs clientStep Pairs noClients (grabRun busyCalls 6 []) (grabRunEnd busyCalls 6 []) ∧
    (grabRunEnd busyCalls 6 []).owed 0 1 = 1 ∧
    (vmwUserBoSynccpuIoctl 1 busyCalls false 0 1 6 (grabRunEnd busyCalls 6 []).dev start).1 =
      some .einval := by
  refine ⟨runs_getD (by decide), by decide, by decide, ?_, ?_, ?_, by decide, by decide⟩
  · intro b _ hw
    exact absurd hw (by decide)
  · intro h
    have hret : (vmwUserBoSynccpuIoctl 0 busyCalls false 0 1 6 ownBufferEnd ownBufferEnd).1 = none := by
      decide
    have hidle := (h.1.1 hret).idle
    rw [← waitError_eq_none] at hidle
    exact absurd hidle (by decide)
  · apply Runs.of_exec _ (grabRun_exec (by decide))
    intro op hop x
    simp only [grabRun, ownBuffer, List.cons_append, List.nil_append,
      List.mem_cons, List.not_mem_nil, or_false] at hop
    rcases hop with rfl | rfl | rfl <;> exact trivial

end Vmwgfx.RefObjects
