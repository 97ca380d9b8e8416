import Vmwgfx.CotableSizes

set_option autoImplicit false

/-!
# A resize as a whole

Wherever `vmw_cotable_resize` fails, the table has its old buffer and the fields that it had, and
what was acquired on the way is released. Where it succeeds the new buffer begins with what the
old one holds.
-/
namespace Vmwgfx.Cotable
open ExecbufState (Errno)
open LabelledRuns

variable {s t u : CotDev} {old buf newSize cur : ℕ} {O : Buffer}

/-- What a resize that fails leaves as it was, with the references and the mappings. -/
def tracked (s : CotDev) :=
  ((s.backup, s.backupSize, s.sizeReadBack), (s.id, s.scrubbed, s.mobHead), s.refs, s.maps)

/-- The device writes to the pages of buffers, and to no field of the table. -/
structure Behind (s t : CotDev) : Prop where
  tracked : tracked t = tracked s
  pages : ∀ b, (t.buffers b).map Buffer.numPages = (s.buffers b).map Buffer.numPages

theorem Behind.refl (s : CotDev) : Behind s s := ⟨rfl, fun _ => rfl⟩

theorem Behind.trans (h : Behind s t) (h' : Behind t u) : Behind s u :=
  ⟨h'.tracked.trans h.tracked, fun b => (h'.pages b).trans (h.pages b)⟩

theorem Behind.buffer (h : Behind s t) {b : ℕ} {B : Buffer} (hb : s.buffers b = some B) :
    ∃ C, t.buffers b = some C ∧ C.numPages = B.numPages := by
  have hpages := h.pages b
  rw [hb, Option.map_some] at hpages
  exact Option.map_eq_some_iff.1 hpages

theorem deviceExec_behind (cmd : DevCmd) (s : CotDev) : Behind s (deviceExec cmd s) := by
  cases cmd with
  | readbackCotable =>
    cases hm : s.mob with
    | none =>
      simp only [deviceExec, hm]
      exact Behind.refl s
    | some b =>
      cases hb : s.buffers b with
      | none =>
        simp only [deviceExec, hm, hb]
        exact Behind.refl s
      | some B =>
        simp only [deviceExec, hm, hb]
        refine ⟨rfl, fun c => ?_⟩
        change (Function.update s.buffers b _ c).map _ = _
        by_cases hc : c = b
        · rw [hc, Function.update_self, hb]
          rfl
        · rw [Function.update_of_ne hc]
  | setCotable b valid => cases b <;> exact ⟨rfl, fun _ => rfl⟩

theorem drain_behind (s : CotDev) : Behind s (drain s) := by
  have hfold : ∀ (q : List DevCmd) (s : CotDev),
      Behind s (q.foldl (fun t cmd => deviceExec cmd t) s) := by
    intro q
    induction q with
    | nil => exact Behind.refl
    | cons cmd q ih => exact fun s => (deviceExec_behind cmd s).trans (ih _)
  exact (hfold s.queue s).trans ⟨rfl, fun _ => rfl⟩

theorem tracked_released (buf size : ℕ) (h : tracked t = tracked (vmwBoInit buf size s)) :
    tracked (vmwBoUnreference buf t) = tracked s := by
  simp only [tracked, vmwBoInit, setBuffer, Prod.mk.injEq] at h
  obtain ⟨⟨hbackup, hsize, hread⟩, ⟨hid, hscrubbed, hmob⟩, hrefs, hmaps⟩ := h
  simp only [tracked, vmwBoUnreference, hbackup, hsize, hread, hid, hscrubbed, hmob, hrefs, hmaps]
  rw [add_sub_cancel_right]

theorem readback_tracked (space : Bool) (s : CotDev) :
    tracked { (vmwCotableReadback space s).2 with sizeReadBack := s.sizeReadBack } = tracked s := by
  unfold vmwCotableReadback
  split_ifs <;> rfl

theorem readback_failed {space : Bool} {e : Errno} (h : vmwCotableReadback space s = (some e, t)) :
    t = s := by
  unfold vmwCotableReadback at h
  split_ifs at h
  · cases h
  · exact (Prod.mk.inj h).2.symm
  · cases h

theorem unscrub_eq {b : ℕ} (hb : s.backup = some b) (space : Bool) :
    vmwCotableUnscrub space s = some (if space then
      (none, { submit [.setCotable (some b) s.sizeReadBack] s with scrubbed := false })
      else (some .enomem, s)) := by
  unfold vmwCotableUnscrub
  rw [hb]
  rfl

/-- The table has the new buffer, which is bound once the FIFO is empty, and its contents. -/
structure Switched (old buf newSize : ℕ) (s t : CotDev) : Prop where
  backup : t.backup = some buf
  backupSize : t.backupSize = newSize
  mobHead : t.mobHead = some buf
  id : t.id = s.type.index
  scrubbed : t.scrubbed = false
  bound : (drain t).mob = some buf
  refs : t.refs = s.refs + Pi.single buf 1 - Pi.single old 1
  maps : t.maps = s.maps
  contents : ∃ B C, t.buffers old = some B ∧ t.buffers buf = some C ∧
    ∀ i < s.backupSize, C.data i = B.data i

structure Atomic (old buf newSize : ℕ) (s : CotDev) (r : Option Errno × CotDev) : Prop where
  failed : r.1 ≠ none → tracked r.2 = tracked s
  switched : r.1 = none → Switched old buf newSize s r.2

theorem Atomic.of_error {e : Errno} (h : tracked t = tracked s) :
    Atomic old buf newSize s (some e, t) := by
  refine ⟨fun _ => h, fun hnone => ?_⟩
  cases hnone

theorem Atomic.of_isSome {r : Option Errno} (hr : r.isSome = true) (h : tracked t = tracked s) :
    Atomic old buf newSize s (r, t) := by
  obtain ⟨e, rfl⟩ := Option.isSome_iff_exists.1 hr
  exact Atomic.of_error h

theorem switched_of_copied {O C : Buffer}
    (htracked : tracked t = tracked (vmwBoInit buf newSize s))
    (hqueue : t.queue = []) (hO : t.buffers old = some O) (hC : t.buffers buf = some C)
    (hdata : ∀ i < s.backupSize, C.data i = O.data i) :
    Switched old buf newSize s (vmwBoUnreference old
      { submit [.setCotable (some buf) cur]
          { t with backup := some buf, backupSize := newSize, sizeReadBack := cur } with
        scrubbed := false, mobHead := some buf, id := s.type.index }) := by
  simp only [tracked, vmwBoInit, setBuffer, Prod.mk.injEq] at htracked
  obtain ⟨-, -, hrefs, hmaps⟩ := htracked
  refine ⟨rfl, rfl, rfl, rfl, rfl, ?_, ?_, hmaps, O, C, hO, hC, hdata⟩
  · simp only [drain, vmwBoUnreference, submit, hqueue, List.nil_append, List.foldl_cons,
      List.foldl_nil, deviceExec]
  · change t.refs - Pi.single old 1 = _
    rw [hrefs]

theorem switchBackup_atomic (o : ResizeEnds) (newSize cur : ℕ) (hold : s.backup = some old)
    (hO : s.buffers old = some O) (hsize : s.backupSize ≤ O.numPages * pageSize)
    (hbuf : s.buffers buf = none) :
    ∃ r, switchBackup o newSize buf old cur s = some r ∧ Atomic old buf newSize s r := by
  have hne : old ≠ buf := by
    rintro rfl
    rw [hbuf] at hO
    cases hO
  have hnew : (vmwBoInit buf newSize s).buffers buf = some ⟨pagesOf newSize, 0⟩ :=
    setBuffer_self ..
  have hkeep : (vmwBoInit buf newSize s).buffers old = some O :=
    (setBuffer_of_ne hne _ _).trans hO
  unfold switchBackup
  by_cases hk : (!o.kzalloc) = true
  · rw [if_pos hk]
    exact ⟨_, rfl, Atomic.of_error rfl⟩
  rw [if_neg hk]
  by_cases hi : o.boInit.isSome = true
  · rw [if_pos hi]
    exact ⟨_, rfl, Atomic.of_isSome hi rfl⟩
  rw [if_neg hi]
  dsimp only
  by_cases hw : o.boWait.isSome = true
  · rw [if_pos hw]
    exact ⟨_, rfl, Atomic.of_isSome hw (tracked_released buf newSize rfl)⟩
  rw [if_neg hw]
  -- the commands so far are executed, and the buffers have the pages that they had
  have hbehind := drain_behind (vmwBoInit buf newSize s)
  have hqueue := drain_queue (vmwBoInit buf newSize s)
  generalize drain (vmwBoInit buf newSize s) = u at hbehind hqueue ⊢
  obtain ⟨P, hP, hpages⟩ := hbehind.buffer hkeep
  obtain ⟨N, hN, -⟩ := hbehind.buffer hnew
  rw [hP, Option.elim_some]
  obtain ⟨data, hstate, hcopy⟩ := copyPages_spec o hP hN hne P.numPages
  generalize copyPages o old buf P.numPages u = rc at hstate hcopy ⊢
  obtain ⟨e, v⟩ := rc
  dsimp only at hstate hcopy
  have htracked : tracked v = tracked (vmwBoInit buf newSize s) := by
    rw [hstate]
    exact hbehind.tracked
  cases e with
  | some e => exact ⟨_, rfl, Atomic.of_error (tracked_released buf newSize htracked)⟩
  | none =>
    dsimp only
    by_cases hval : o.boValidate.isSome = true
    · rw [if_pos hval]
      exact ⟨_, rfl, Atomic.of_isSome hval (tracked_released buf newSize htracked)⟩
    rw [if_neg hval]
    by_cases hspace : o.unscrubSpace = true
    · have hfirst : v.buffers old = some P := by
        rw [hstate, setBuffer_of_ne hne, hP]
      have hsecond : v.buffers buf = some ⟨N.numPages, data⟩ := by
        rw [hstate, setBuffer_self]
      have hequal : ∀ i < s.backupSize, data i = P.data i := by
        intro i hi'
        apply hcopy rfl
        rw [hpages]
        omega
      have hvqueue : v.queue = [] := by
        rw [hstate]
        exact hqueue
      rw [unscrub_eq rfl, if_pos hspace, Option.map_some]
      refine ⟨_, rfl, fun hsome => absurd rfl hsome, fun _ => ?_⟩
      exact switched_of_copied (t := v) htracked hvqueue hfirst hsecond hequal
    · rw [unscrub_eq rfl, if_neg hspace, Option.map_some]
      refine ⟨_, rfl, Atomic.of_error (tracked_released buf newSize ?_)⟩
      -- the fields that were changed get their old values
      simp only [tracked, Prod.mk.injEq] at htracked ⊢
      exact ⟨⟨hold.symm, rfl, rfl⟩, htracked.2⟩

/-- A resize that fails anywhere changes nothing and leaks nothing; one that succeeds has switched
    to the new buffer. -/
theorem resize_atomic (o : ResizeEnds) (newSize : ℕ) (hold : s.backup = some old)
    (hO : s.buffers old = some O) (hsize : s.backupSize ≤ O.numPages * pageSize)
    (hbuf : s.buffers buf = none) :
    ∃ r, vmwCotableResize o newSize buf s = some r ∧
      (r.1 ≠ none → tracked r.2 = tracked s) ∧ (r.1 = none → Switched old buf newSize s r.2) := by
  have htracked := readback_tracked o.readbackSpace s
  have hkept : (vmwCotableReadback o.readbackSpace s).2.buffers = s.buffers ∧
      (vmwCotableReadback o.readbackSpace s).2.type = s.type := by
    unfold vmwCotableReadback
    split_ifs <;> exact ⟨rfl, rfl⟩
  unfold vmwCotableResize
  rw [hold, Option.bind_some]
  rcases hread : vmwCotableReadback o.readbackSpace s with ⟨_ | e, t⟩
  · rw [hread] at htracked hkept
    dsimp only at htracked hkept ⊢
    obtain ⟨hbuffers, htype⟩ := hkept
    have hfields := htracked
    simp only [tracked, Prod.mk.injEq] at hfields
    obtain ⟨⟨hbackup, hsize', -⟩, -, hrefs, hmaps⟩ := hfields
    obtain ⟨r, hr, hatomic⟩ := switchBackup_atomic (s := { t with sizeReadBack := s.sizeReadBack })
      o newSize t.sizeReadBack (hbackup.trans hold) ((congrFun hbuffers old).trans hO)
      (hsize'.le.trans hsize) ((congrFun hbuffers buf).trans hbuf)
    refine ⟨r, hr, fun hne => (hatomic.failed hne).trans htracked, fun hnone => ?_⟩
    have hsw := hatomic.switched hnone
    exact ⟨hsw.backup, hsw.backupSize, hsw.mobHead, hsw.id.trans (congrArg _ htype), hsw.scrubbed,
      hsw.bound, hsw.refs.trans (by rw [hrefs]), hsw.maps.trans hmaps, by
        obtain ⟨B, C, hB, hC, hdata⟩ := hsw.contents
        exact ⟨B, C, hB, hC, fun i hi => hdata i (hi.trans_eq hsize'.symm)⟩⟩
  · obtain rfl := readback_failed hread
    exact ⟨_, rfl, fun _ => rfl, fun hnone => by cases hnone⟩

theorem runs_backed {type : CotableType} {ops : List Op}
    (h : Runs step anyLabel (vmwCotableAlloc type) ops s) (hold : s.backup = some old) :
    ∃ O, s.buffers old = some O ∧ s.backupSize ≤ O.numPages * pageSize := by
  have hinv : Inv s := h.invariant Inv (inv_alloc type) fun _ _ _ hi _ hs => step_inv hi hs
  exact hinv.readable.buffer old hold

def mapFails : ResizeEnds := { resizeOk with mapNew := fun _ => some .enomem }

theorem grown_atomic : ∃ r, vmwCotableResize mapFails 16384 3 grown = some r ∧
    r.1 = some .enomem ∧ tracked r.2 = tracked grown := by
  have hr : Runs step anyLabel (vmwCotableAlloc .streamOutput) grownRun grown :=
    runs_getD (by decide)
  have hold : grown.backup = some 1 := by rfl
  obtain ⟨O, hO, hsize⟩ := runs_backed hr hold
  obtain ⟨r, hresize, hfailed, -⟩ := resize_atomic mapFails 16384 hold hO hsize
    (show grown.buffers 3 = none by rfl)
  have herror : (vmwCotableResize mapFails 16384 3 grown).map Prod.fst = some (some .enomem) := by
    rfl
  rw [hresize, Option.map_some, Option.some.injEq] at herror
  have hne : r.1 ≠ none := by
    rw [herror]
    exact fun hnone => by cases hnone
  exact ⟨r, hresize, herror, hfailed hne⟩

end Vmwgfx.Cotable
