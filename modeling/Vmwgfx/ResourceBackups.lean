import Vmwgfx.LabelledRuns
import Vmwgfx.Resources

set_option autoImplicit false

/-!
# Backup buffers that are bound

A resource is on the `res_list` of its backup buffer only, as long as no eviction drops a dirty
buffer that it cannot place. An eviction that fails leaves the buffer as it was, up to one that
it has allocated, unless it is the destruction that fails.
-/
namespace Vmwgfx.Resources
open ExecbufState (Errno)
open LabelledRuns ListPlaces

/-- `vmw_resource_check_buffer` places the buffer, by `ttm_bo_validate`. -/
def Res.placed (R : Res) : Prop := ¬ (R.func.needsBackup = true ∧ R.mobHead = none)

/-- `vmw_resource_do_evict` unbinds the buffer. -/
def Res.unbinds (R : Res) : Prop :=
  R.func.hasBind = true ∧ (R.func.needsBackup = false ∨ R.mobHead ≠ none)

def allocFails (R : Res) (o : Except Errno ℕ) : Prop := R.backup = none ∧ ∃ e, o = .error e

/-- All steps of `vmw_resource_check_buffer` succeed. -/
def BufferReady (R : Res) (o : BufferOut) : Prop :=
  ¬ allocFails R o.alloc ∧ o.reserve = none ∧ (R.placed → o.validate = none)

/-- A dirty buffer can be placed, or is newly allocated. -/
def BufferStays (R : Res) (o : BufferOut) : Prop :=
  o.reserve = none → R.placed → R.backupDirty = true → R.backup ≠ none → o.validate = none

/-- As it was, but for a buffer that is newly allocated. -/
structure KeptOrAllocated (R : Res) (o : BufferOut) (S : Res) : Prop where
  backup : S.backup = R.backup ∨ R.backup = none ∧ ∃ b, o.alloc = .ok b ∧ S.backup = some b
  mobHead : S.mobHead = R.mobHead
  backupDirty : S.backupDirty = R.backupDirty

/-- The device has no use for the buffer any more, and its content is that of the resource. -/
structure Unbound (R : Res) (o : BufferOut) (S : Res) : Prop where
  backup : S.backup = R.backup ∨ R.backup = none ∧ ∃ b, o.alloc = .ok b ∧ S.backup = some b
  mobHead : S.mobHead = none
  backupDirty : S.backupDirty = true

/-- All steps of an eviction before the destruction succeed. -/
def Evictable (R : Res) (o : EvictOut) : Prop :=
  BufferReady R o.buffer ∧ (R.unbinds → unbindRet o.unbind R.func = none)

variable {r q b : ℕ} {R S W : Res} {s t : ResDev} {f : Focus}

theorem bufAlloc_cases (R : Res) (o : Except Errno ℕ) :
    (allocFails R o ∧ ∃ e, vmwResourceBufAlloc o R = (some e, R)) ∨
      (¬ allocFails R o ∧ ∃ b, vmwResourceBufAlloc o R = (none, { R with backup := some b }) ∧
        (R.backup = none ∧ o = .ok b ∨ R.backup = some b)) := by
  cases hbackup : R.backup with
  | some b =>
    refine .inr ⟨?_, b, ?_, .inr rfl⟩
    · rintro ⟨hnone, -⟩
      rw [hbackup] at hnone
      cases hnone
    · have hsame : { R with backup := some b } = R := by
        rw [← hbackup]
      rw [hsame]
      simp [vmwResourceBufAlloc, hbackup]
  | none =>
    cases o with
    | error e =>
      refine .inl ⟨⟨hbackup, e, rfl⟩, e, ?_⟩
      simp [vmwResourceBufAlloc, hbackup]
    | ok b =>
      refine .inr ⟨?_, b, ?_, .inl ⟨rfl, rfl⟩⟩
      · rintro ⟨-, e, he⟩
        cases he
      · simp [vmwResourceBufAlloc, hbackup]

theorem checkBuffer_cases (R : Res) (o : BufferOut) :
    (allocFails R o.alloc ∧ ∃ e, vmwResourceCheckBuffer o R = (some e, R)) ∨
    ∃ b, ¬ allocFails R o.alloc ∧ (R.backup = none ∧ o.alloc = .ok b ∨ R.backup = some b) ∧
      ((∃ e, o.reserve = some e ∧
          vmwResourceCheckBuffer o R = (some e, { R with backup := some b })) ∨
        (o.reserve = none ∧ R.placed ∧ ∃ e, o.validate = some e ∧ vmwResourceCheckBuffer o R =
          (some e, { R with backup := if R.backupDirty then none else some b })) ∨
        BufferReady R o ∧ vmwResourceCheckBuffer o R = (none, { R with backup := some b })) := by
  rcases bufAlloc_cases R o.alloc with ⟨hfails, e, halloc⟩ | ⟨hok, b, halloc, hb⟩
  · refine .inl ⟨hfails, e, ?_⟩
    rw [vmwResourceCheckBuffer, halloc]
  · refine .inr ⟨b, hok, hb, ?_⟩
    rw [vmwResourceCheckBuffer, halloc]
    dsimp only
    cases hreserve : o.reserve with
    | some e => exact .inl ⟨e, rfl, rfl⟩
    | none =>
      dsimp only
      by_cases hplaced : R.placed
      · have hif : ¬ (R.func.needsBackup && R.mobHead.isNone) = true := by
          simpa [Res.placed] using hplaced
        rw [if_neg hif]
        cases hvalidate : o.validate with
        | some e =>
          refine .inr (.inl ⟨rfl, hplaced, e, rfl, ?_⟩)
          dsimp only
          split_ifs <;> rfl
        | none => exact .inr (.inr ⟨⟨hok, hreserve, fun _ => hvalidate⟩, rfl⟩)
      · have hif : (R.func.needsBackup && R.mobHead.isNone) = true := by
          simpa [Res.placed] using hplaced
        rw [if_pos hif]
        exact .inr (.inr ⟨⟨hok, hreserve, fun h => absurd h hplaced⟩, rfl⟩)

theorem mobDel_of_none (s : ResDev) (h : R.mobHead = none) : mobDel r (R, s) = (R, s) := by
  simp only [mobDel, h]

theorem mobDel_of_some (s : ResDev) (h : R.mobHead = some b) :
    mobDel r (R, s) = ({ R with mobHead := none },
      { s with resList := Function.update s.resList b ((s.resList b).erase r) }) := by
  simp only [mobDel, h]

theorem mobDel_fst (r : ℕ) (f : Focus) : (mobDel r f).1 = { f.1 with mobHead := none } := by
  obtain ⟨R, s⟩ := f
  cases hmob : R.mobHead with
  | none =>
    rw [mobDel_of_none s hmob]
    exact congrArg (fun b => { R with mobHead := b }) hmob
  | some b => rw [mobDel_of_some s hmob]

theorem destroyEvicted_fst (o : EvictOut) (f : Focus) :
    (destroyEvicted o f).1 = destroyRet o.destroy f.1 ∧
      (destroyEvicted o f).2.1.backup = f.1.backup ∧
      (destroyEvicted o f).2.1.mobHead = f.1.mobHead ∧
      (destroyEvicted o f).2.1.backupDirty = true := by
  unfold destroyEvicted destroy
  cases destroyRet o.destroy f.1 <;> exact ⟨rfl, rfl, rfl, rfl⟩

theorem table_of_scrubs {func : ResFunc} (hevict : func.mayEvict = true)
    (hscrubs : func.scrubs = true) : func = .cotable := by
  revert hevict hscrubs
  cases func <;> decide

theorem destroyRet_congr {o : Option Errno} (hevict : R.func.mayEvict = true)
    (hfunc : S.func = R.func) (hid : S.id = R.id ∨ R.func.scrubs = true) :
    destroyRet o S = destroyRet o R := by
  unfold destroyRet
  rw [hfunc]
  rcases hid with hid | hscrubs
  · rw [hid]
  · have htable := table_of_scrubs hevict hscrubs
    rw [if_pos (Or.inl htable), if_pos (Or.inl htable)]

theorem unbind_none {o : Option Errno} {l : List ℕ} (h : unbindRet o f.1.func = none) :
    unbind o l r f =
      (none, (if r ∈ l ∧ f.1.func.scrubs then { f.1 with id := -1 } else f.1, scrubIds l f.2)) := by
  simp only [unbind, h]

theorem unbind_some {o : Option Errno} {l : List ℕ} {e : Errno}
    (h : unbindRet o f.1.func = some e) : unbind o l r f = (some e, f) := by
  simp only [unbind, h]

theorem hasBind_of_mayEvict {func : ResFunc} (h : func.mayEvict = true) : func.hasBind = true := by
  revert h
  cases func <;> decide

theorem doEvict_of_ready {o : EvictOut} (hevict : R.func.mayEvict = true)
    (hcheck : vmwResourceCheckBuffer o.buffer R = (none, { R with backup := some b })) :
    let f := vmwResourceDoEvict o r (R, s)
    (R.unbinds ∧ unbindRet o.unbind R.func ≠ none ∧ f.2.1 = { R with backup := some b }) ∨
    ((R.unbinds → unbindRet o.unbind R.func = none) ∧ f.1 = destroyRet o.destroy R ∧
      f.2.1.backup = some b ∧ f.2.1.mobHead = none ∧ f.2.1.backupDirty = true) := by
  have hbind := hasBind_of_mayEvict hevict
  rw [vmwResourceDoEvict, hcheck]
  dsimp only
  by_cases hunbinds : R.unbinds
  · have hif : (R.func.hasBind && (!R.func.needsBackup || R.mobHead.isSome)) = true := by
      simpa [Res.unbinds, Option.isSome_iff_ne_none] using hunbinds
    rw [if_pos hif]
    cases hret : unbindRet o.unbind R.func with
    | some e =>
      rw [unbind_some (by exact hret)]
      exact .inl ⟨hunbinds, Option.some_ne_none e, rfl⟩
    | none =>
      rw [unbind_none (by exact hret)]
      refine .inr ⟨fun _ => rfl, ?_⟩
      obtain ⟨hend, hbackup, hmob, hdirty⟩ := destroyEvicted_fst o (mobDel r
        (if r ∈ o.scrubbed ∧ R.func.scrubs then { R with backup := some b, id := -1 }
          else { R with backup := some b }, scrubIds o.scrubbed s))
      refine ⟨hend.trans ?_, hbackup.trans ?_, hmob.trans ?_, hdirty⟩
      · rw [mobDel_fst]
        apply destroyRet_congr hevict
        · dsimp only
          split_ifs <;> rfl
        · dsimp only
          split_ifs with hscrubbed
          · exact .inr hscrubbed.2
          · exact .inl rfl
      · rw [mobDel_fst]
        dsimp only
        split_ifs <;> rfl
      · rw [mobDel_fst]
  · have hif : ¬ (R.func.hasBind && (!R.func.needsBackup || R.mobHead.isSome)) = true := by
      simpa [Res.unbinds, Option.isSome_iff_ne_none] using hunbinds
    rw [if_neg hif]
    have hmob : R.mobHead = none := by
      by_contra hne
      exact hunbinds ⟨hbind, .inr hne⟩
    obtain ⟨hend, hbackup, hmob', hdirty⟩ := destroyEvicted_fst o ({ R with backup := some b }, s)
    exact .inr ⟨fun h => absurd h hunbinds, hend, hbackup, hmob'.trans hmob, hdirty⟩

theorem checkBuffer_ready {o : BufferOut} (h : (vmwResourceCheckBuffer o R).1 = none) :
    ∃ b, BufferReady R o ∧ vmwResourceCheckBuffer o R = (none, { R with backup := some b }) := by
  rcases checkBuffer_cases R o with ⟨-, e, he⟩ | ⟨b, -, -, hend⟩
  · rw [he] at h
    cases h
  · rcases hend with ⟨e, -, he⟩ | ⟨-, -, e, -, he⟩ | ⟨hready, he⟩
    · rw [he] at h
      cases h
    · rw [he] at h
      cases h
    · exact ⟨b, hready, he⟩

theorem checkBuffer_of_ready {o : BufferOut} (h : BufferReady R o) :
    (vmwResourceCheckBuffer o R).1 = none := by
  rcases checkBuffer_cases R o with ⟨hfails, -⟩ | ⟨b, -, -, hend⟩
  · exact absurd hfails h.1
  · rcases hend with ⟨e, hreserve, -⟩ | ⟨-, hplaced, e, hvalidate, -⟩ | ⟨-, he⟩
    · rw [h.2.1] at hreserve
      cases hreserve
    · rw [h.2.2 hplaced] at hvalidate
      cases hvalidate
    · rw [he]

theorem doEvict_of_failed {o : EvictOut} (h : (vmwResourceCheckBuffer o.buffer R).1 ≠ none) :
    (vmwResourceDoEvict o r (R, s)).2.1 = (vmwResourceCheckBuffer o.buffer R).2 := by
  unfold vmwResourceDoEvict
  split
  · next e S he => rw [he]
  · next S he =>
    rw [he] at h
    exact absurd rfl h

theorem mobDel_setBackup (v : Option ℕ) : mobDel r ({ R with backup := v }, s) =
    ({ (mobDel r (R, s)).1 with backup := v }, (mobDel r (R, s)).2) := by
  cases hmob : R.mobHead <;> simp only [mobDel, hmob]

theorem checkBuffer_kept {o : BufferOut} (hstays : BufferStays R o) :
    KeptOrAllocated R o (vmwResourceCheckBuffer o R).2 := by
  rcases checkBuffer_cases R o with ⟨-, e, he⟩ | ⟨b, -, hb, hend⟩
  · rw [he]
    exact ⟨.inl rfl, rfl, rfl⟩
  · have halloc : KeptOrAllocated R o { R with backup := some b } :=
      ⟨hb.symm.imp Eq.symm fun hnew => ⟨hnew.1, b, hnew.2, rfl⟩, rfl, rfl⟩
    rcases hend with ⟨e, -, he⟩ | ⟨hreserve, hplaced, e, hvalidate, he⟩ | ⟨-, he⟩
    · rw [he]
      exact halloc
    · rw [he]
      dsimp only
      split_ifs with hdirty
      · have hnone : R.backup = none := by
          by_contra hsome
          rw [hstays hreserve hplaced hdirty hsome] at hvalidate
          cases hvalidate
        exact ⟨.inl hnone.symm, rfl, rfl⟩
      · exact halloc
    · rw [he]
      exact halloc

theorem doEvict_left {o : EvictOut} (hevict : R.func.mayEvict = true)
    (hstays : BufferStays R o.buffer) :
    let f := vmwResourceDoEvict o r (R, s)
    (¬ Evictable R o → KeptOrAllocated R o.buffer f.2.1) ∧
      (Evictable R o → Unbound R o.buffer f.2.1) := by
  intro f
  have hkept := checkBuffer_kept hstays
  by_cases hcheck : (vmwResourceCheckBuffer o.buffer R).1 = none
  · obtain ⟨b, hready, he⟩ := checkBuffer_ready hcheck
    rw [he] at hkept
    rcases doEvict_of_ready (r := r) (s := s) hevict he with
      ⟨hunbinds, hunbind, hR⟩ | ⟨hunbind, -, hbackup, hmob, hdirty⟩
    · refine ⟨fun _ => ?_, fun hevictable => absurd (hevictable.2 hunbinds) hunbind⟩
      change KeptOrAllocated R o.buffer (vmwResourceDoEvict o r (R, s)).2.1
      rw [hR]
      exact hkept
    · refine ⟨fun hnot => absurd ⟨hready, hunbind⟩ hnot, fun _ => ⟨?_, hmob, hdirty⟩⟩
      rw [show f.2.1.backup = some b from hbackup]
      exact hkept.backup
  · refine ⟨fun _ => ?_, fun hevictable => absurd (checkBuffer_of_ready hevictable.1) hcheck⟩
    change KeptOrAllocated R o.buffer (vmwResourceDoEvict o r (R, s)).2.1
    rw [doEvict_of_failed hcheck]
    exact hkept

/-- The resource is on the list of its backup buffer, if it is on any. -/
def Bound (R : Res) : Prop := ∀ b, R.mobHead = some b → R.backup = some b

theorem Bound.off (h : Bound R) (hbackup : R.backup = none) : R.mobHead = none := by
  by_contra hmob
  obtain ⟨b, hb⟩ := Option.ne_none_iff_exists'.1 hmob
  rw [h b hb] at hbackup
  cases hbackup

def mobPlaces (s : ResDev) (r : ℕ) : Option ℕ := (s.res r).bind Res.mobHead

structure Inv (s : ResDev) : Prop where
  buffers : Listed (mobPlaces s) s.resList
  bound : ∀ r R, s.res r = some R → Bound R

/-- The same for a resource, and the device without its entry for it. -/
structure Tied (r : ℕ) (f : Focus) : Prop where
  buffers : Listed (Function.update (mobPlaces f.2) r f.1.mobHead) f.2.resList
  others : ∀ q Q, q ≠ r → f.2.res q = some Q → Bound Q
  bound : Bound f.1

theorem mobPlaces_setRes : mobPlaces (setRes r R s) =
    Function.update (mobPlaces s) r R.mobHead := by
  funext q
  unfold mobPlaces
  by_cases hq : q = r
  · subst hq
    rw [setRes_self, Function.update_self, Option.bind_some]
  · rw [setRes_of_ne hq, Function.update_of_ne hq]

theorem Tied.inv (h : Tied r f) : Inv (setRes r f.1 f.2) := by
  constructor
  · rw [mobPlaces_setRes]
    exact h.buffers
  · intro q Q hQ
    by_cases hq : q = r
    · subst hq
      rw [setRes_self] at hQ
      rw [← Option.some.inj hQ]
      exact h.bound
    · rw [setRes_of_ne hq] at hQ
      exact h.others q Q hq hQ

theorem Inv.tied (h : Inv s) (hR : s.res r = some R) : Tied r (R, s) := by
  refine ⟨?_, fun q Q _ hQ => h.bound q Q hQ, h.bound r R hR⟩
  have hplace : R.mobHead = mobPlaces s r := by
    rw [mobPlaces, hR, Option.bind_some]
  rw [hplace, Function.update_eq_self]
  exact h.buffers

theorem Inv.congr (h : Inv s) (hres : t.res = s.res) (hlist : t.resList = s.resList) : Inv t := by
  constructor
  · unfold mobPlaces
    rw [hres, hlist]
    exact h.buffers
  · rw [hres]
    exact h.bound

theorem Tied.change (h : Tied r (R, s)) (hmob : W.mobHead = R.mobHead)
    (hbackup : W.backup = R.backup) (hres : t.res = s.res) (hlist : t.resList = s.resList) :
    Tied r (W, t) := by
  constructor
  · unfold mobPlaces
    rw [hmob, hres, hlist]
    exact h.buffers
  · rw [hres]
    exact h.others
  · unfold Bound
    rw [hmob, hbackup]
    exact h.bound

theorem Tied.setBackup (h : Tied r (R, s)) (hoff : R.mobHead = none) (v : Option ℕ) :
    Tied r ({ R with backup := v }, s) := by
  refine ⟨h.buffers, h.others, ?_⟩
  intro b hb
  rw [hoff] at hb
  cases hb

theorem Tied.mobAdd (h : Tied r (R, s)) (hoff : R.mobHead = none) (hbackup : R.backup = some b) :
    Tied r (mobAdd b r (R, s)) := by
  refine ⟨?_, h.others, ?_⟩
  · have hadd := h.buffers.append (k := b) (i := r) (by rw [Function.update_self]; exact hoff)
    rw [Function.update_idem] at hadd
    exact hadd
  · intro c hc
    obtain rfl := Option.some.inj hc
    exact hbackup

theorem Tied.mobDel (h : Tied r f) : Tied r (mobDel r f) := by
  obtain ⟨R, s⟩ := f
  cases hmob : R.mobHead with
  | none =>
    rw [mobDel_of_none s hmob]
    exact h
  | some b =>
    rw [mobDel_of_some s hmob]
    refine ⟨?_, h.others, fun c hc => by cases hc⟩
    have hdel := h.buffers.erase (k := b) (i := r) ?_
    · rw [Function.update_idem] at hdel
      exact hdel
    · intro a ha
      rw [Function.update_self] at ha
      exact (Option.some.inj (hmob.symm.trans ha)).symm

theorem scrubIds_res (l : List ℕ) (s : ResDev) (q : ℕ) : (scrubIds l s).res q =
    (s.res q).map fun R => if q ∈ l ∧ R.func.scrubs then { R with id := -1 } else R := rfl

theorem mobPlaces_scrubIds (l : List ℕ) (s : ResDev) : mobPlaces (scrubIds l s) = mobPlaces s := by
  funext q
  unfold mobPlaces
  rw [scrubIds_res]
  cases s.res q with
  | none => rfl
  | some Q =>
    rw [Option.map_some, Option.bind_some, Option.bind_some]
    split_ifs <;> rfl

theorem Tied.scrubIds (h : Tied r f) (l : List ℕ) (hW : W.mobHead = f.1.mobHead)
    (hbackup : W.backup = f.1.backup) : Tied r (W, scrubIds l f.2) := by
  constructor
  · rw [mobPlaces_scrubIds, hW]
    exact h.buffers
  · intro q Q hq hQ
    obtain ⟨P, hP, rfl⟩ := Option.map_eq_some_iff.1 hQ
    split_ifs <;> exact h.others q P hq hP
  · unfold Bound
    rw [hW, hbackup]
    exact h.bound

theorem mobDel_mobHead (r : ℕ) (f : Focus) : (mobDel r f).1.mobHead = none := by
  rw [mobDel_fst]

theorem Tied.create (h : Tied r f) (o : CreateOut) : Tied r (create o r f).2 := by
  obtain ⟨R, s⟩ := f
  cases o with
  | failed e id =>
    simp only [Resources.create]
    split_ifs
    · exact h.change rfl rfl rfl rfl
    · exact h
  | done id => exact h.change rfl rfl rfl rfl
  | resized b id =>
    simp only [Resources.create]
    split_ifs
    · rw [mobDel_setBackup]
      have hoff := mobDel_mobHead r (R, s)
      have hdel := (h.mobDel.setBackup hoff (some b)).mobAdd (b := b) hoff rfl
      exact hdel.change rfl rfl rfl rfl
    · exact h.change rfl rfl rfl rfl

theorem Tied.destroy (h : Tied r f) (o : Option Errno) : Tied r (destroy o f).2 := by
  unfold Resources.destroy
  split
  · exact h
  · exact h.change rfl rfl rfl rfl

theorem Tied.unbind (h : Tied r f) (o : Option Errno) (l : List ℕ) :
    Tied r (unbind o l r f).2 := by
  unfold Resources.unbind
  split
  · exact h
  · apply h.scrubIds
    · split_ifs <;> rfl
    · split_ifs <;> rfl

theorem Tied.bindBackup (h : Tied r f) (o : ValidateOut) (hasBo : Bool) :
    Tied r (bindBackup o hasBo r f).2 := by
  unfold Resources.bindBackup
  split_ifs with hbind
  · cases hret : (if f.1.func = .dxShader then none else o.bind) with
    | some e =>
      simp only [bind, hret]
      exact h.destroy o.destroy
    | none =>
      simp only [bind, hret]
      have hclean : Tied r ({ f.1 with backupDirty := f.1.backupDirty && !f.1.func.bindCleans },
        f.2) := h.change rfl rfl rfl rfl
      split
      · next b hneeds hbackup =>
        apply hclean.mobAdd ?_ (by exact hbackup)
        simp only [hneeds, Bool.not_true, Bool.false_or, Bool.and_eq_true,
          Option.isNone_iff_eq_none] at hbind
        exact hbind.2
      · exact hclean
  · exact h

theorem Tied.doValidate (h : Tied r f) (o : ValidateOut) (hasBo : Bool) :
    Tied r (vmwResourceDoValidate o hasBo r f).2 := by
  have hcreate : Tied r (if f.1.id = -1 then Resources.create o.create r f else (none, f)).2 := by
    split_ifs
    · exact h.create o.create
    · exact h
  unfold vmwResourceDoValidate
  split
  · next hg =>
    rw [hg] at hcreate
    exact hcreate
  · next hg =>
    rw [hg] at hcreate
    have hbind := hcreate.bindBackup o hasBo
    split
    · next hh =>
      rw [hh] at hbind
      exact hbind
    · next hh =>
      rw [hh] at hbind
      exact hbind.change rfl rfl rfl rfl

theorem Tied.withBuffer (h : Tied r (R, s)) {o : Except Errno ℕ}
    (hb : R.backup = none ∧ o = .ok b ∨ R.backup = some b) :
    Tied r ({ R with backup := some b }, s) := by
  rcases hb with ⟨hb, -⟩ | hb
  · exact h.setBackup (h.bound.off hb) (some b)
  · exact h.change rfl hb.symm rfl rfl

theorem Tied.doEvict (h : Tied r (R, s)) {o : EvictOut} (hstays : BufferStays R o.buffer) :
    Tied r (vmwResourceDoEvict o r (R, s)).2 := by
  unfold vmwResourceDoEvict
  rcases checkBuffer_cases R o.buffer with ⟨-, e, he⟩ | ⟨b, hok, hb, hend⟩
  · rw [he]
    exact h
  · rcases hend with ⟨e, -, he⟩ | ⟨hreserve, hplaced, e, hvalidate, he⟩ | ⟨-, he⟩
    · rw [he]
      exact h.withBuffer hb
    · rw [he]
      dsimp only
      split_ifs with hdirty
      · have hnone : R.backup = none := by
          by_contra hsome
          rw [hstays hreserve hplaced hdirty hsome] at hvalidate
          cases hvalidate
        exact h.change rfl hnone.symm rfl rfl
      · exact h.withBuffer hb
    · rw [he]
      have hready := h.withBuffer hb
      have hdestroyed : ∀ g, Tied r g → Tied r (destroyEvicted o g).2 := by
        intro g hg
        have hdestroy := hg.destroy o.destroy
        exact hdestroy.change rfl rfl rfl rfl
      dsimp only
      split_ifs
      · have hunbind := hready.unbind o.unbind o.scrubbed
        split
        · next hg =>
          rw [hg] at hunbind
          exact hunbind
        · next hg =>
          rw [hg] at hunbind
          exact hdestroyed _ hunbind.mobDel
      · exact hdestroyed _ hready

theorem evictFirst_cases {o : EvictOut} {ty : ResType} {ret : Option Errno}
    (hs : evictFirst o ty s = some (ret, t)) :
    ∃ q l Q f, s.lru ty = q :: l ∧ s.res q = some Q ∧
      vmwResourceDoEvict o q (Q, { s with lru := Function.update s.lru ty l }) = (ret, f) ∧
      t = if ret.isSome then lruAdd ty q (setRes q f.1 f.2) else setRes q f.1 f.2 := by
  unfold evictFirst at hs
  split at hs
  · cases hs
  · next q l hlru =>
    split at hs
    · cases hs
    · next Q hQ =>
      obtain ⟨rfl, rfl⟩ := Prod.mk.inj (Option.some.inj hs)
      exact ⟨q, l, Q, _, hlru, hQ, rfl, rfl⟩

theorem Inv.evictFirst (h : Inv s) {o : EvictOut} {ty : ResType}
    (hstays : ∀ q l Q, s.lru ty = q :: l → s.res q = some Q → BufferStays Q o.buffer)
    {ret : Option Errno} (hs : evictFirst o ty s = some (ret, t)) : Inv t := by
  obtain ⟨q, l, Q, f, hlru, hQ, hf, rfl⟩ := evictFirst_cases hs
  have htied : Tied q (Q, { s with lru := Function.update s.lru ty l }) :=
    (h.tied hQ).change rfl rfl rfl rfl
  have hevicted := htied.doEvict (hstays q l Q hlru hQ)
  rw [hf] at hevicted
  split_ifs
  · exact hevicted.inv.congr rfl rfl
  · exact hevicted.inv

theorem Inv.releaseBackup (h : Inv s) (r : ℕ) : Inv (releaseBackup r s) := by
  unfold Resources.releaseBackup
  split
  · exact h
  · next R hR =>
    split_ifs
    · have hoff := mobDel_mobHead r (R, s)
      exact ((h.tied hR).mobDel.setBackup hoff none).inv
    · exact h

/-- The eviction of a round, where there is one, does not drop a buffer. -/
def RoundKeeps (hasBo : Bool) (r : ℕ) (o : Round) (s : ResDev) : Prop :=
  ∀ R, s.res r = some R → R.func.mayEvict = true →
    let f := vmwResourceDoValidate o.validate hasBo r (R, s)
    let t := setRes r f.2.1 f.2.2
    f.1 = some ebusy → ∀ q l Q, t.lru R.func.resType = q :: l → t.res q = some Q →
      BufferStays Q o.evict.buffer

def RoundsKeep (hasBo : Bool) (r : ℕ) : List Round → ℕ → ResDev → Prop
  | [], _, _ => True
  | o :: os, n, s => RoundKeeps hasBo r o s ∧
    ∀ m t, validateRound hasBo r o n s = some (.goesOn m t) → RoundsKeep hasBo r os m t

def ValidateKeeps (os : List Round) (r : ℕ) (s : ResDev) : Prop :=
  ∀ R, s.res r = some R → RoundsKeep R.backup.isSome r os 0 s

theorem validateRound_cases {hasBo : Bool} {o : Round} {n : ℕ} {g : RoundEnd}
    (hg : validateRound hasBo r o n s = some g) :
    ∃ R ret f, s.res r = some R ∧ vmwResourceDoValidate o.validate hasBo r (R, s) = (ret, f) ∧
      (ret ≠ some ebusy ∧ g = .ends ret (setRes r f.1 f.2) ∨
        g = .ends (some ebusy) (setRes r f.1 f.2) ∨
        (ret = some ebusy ∧ R.func.mayEvict = true ∧ ∃ evicted,
          evictFirst o.evict R.func.resType (setRes r f.1 f.2) = some (evicted, g.state) ∧
          ∀ u, g ≠ .ends none u)) := by
  unfold validateRound at hg
  split at hg
  · cases hg
  · next R hR =>
    refine ⟨R, _, _, hR, rfl, ?_⟩
    simp only at hg
    split_ifs at hg with hend hlast
    · exact .inl ⟨hend, (Option.some.inj hg).symm⟩
    · exact .inr (.inl (Option.some.inj hg).symm)
    · have hevict : R.func.mayEvict = true := by
        simp only [Bool.or_eq_true, not_or, Bool.not_eq_true, Bool.not_eq_false'] at hlast
        exact hlast.2
      refine .inr (.inr ⟨not_not.1 hend, hevict, ?_⟩)
      split at hg
      · cases hg
      · next u hu =>
        rw [← Option.some.inj hg]
        exact ⟨none, hu, fun u => by simp⟩
      · next e u hu =>
        refine ⟨some e, ?_⟩
        split_ifs at hg
        · rw [← Option.some.inj hg]
          exact ⟨hu, fun u => by simp⟩
        · rw [← Option.some.inj hg]
          exact ⟨hu, fun u => by simp⟩

theorem Inv.validateRound (h : Inv s) {hasBo : Bool} {o : Round} {n : ℕ}
    (hkeeps : RoundKeeps hasBo r o s) {g : RoundEnd}
    (hg : validateRound hasBo r o n s = some g) : Inv g.state := by
  obtain ⟨R, ret, f, hR, hf, hend⟩ := validateRound_cases hg
  have htied := (h.tied hR).doValidate o.validate hasBo
  have hfirst := hkeeps R hR
  rw [hf] at htied hfirst
  rcases hend with ⟨-, rfl⟩ | rfl | ⟨hbusy, hevict, evicted, hu, -⟩
  · exact htied.inv
  · exact htied.inv
  · exact htied.inv.evictFirst (hfirst hevict hbusy) hu

theorem Inv.validateLoop {hasBo : Bool} {os : List Round} {n : ℕ} (h : Inv s)
    (hkeeps : RoundsKeep hasBo r os n s) {ret : Option Errno}
    (hs : validateLoop hasBo r os n s = some (ret, t)) : Inv t := by
  induction os generalizing n s with
  | nil => cases hs
  | cons o os ih =>
    unfold Resources.validateLoop at hs
    split at hs
    · cases hs
    · next ret' u hu =>
      obtain ⟨-, rfl⟩ := Prod.mk.inj (Option.some.inj hs)
      exact h.validateRound hkeeps.1 hu
    · next m u hu => exact ih (h.validateRound hkeeps.1 hu) (hkeeps.2 m u hu) hs

theorem validate_cases {os : List Round} {ret : Option Errno}
    (hs : vmwResourceValidate os r s = some (ret, t)) : ∃ R, s.res r = some R ∧
      (R.func.hasCreate = false ∧ ret = none ∧ t = s ∨
        ∃ u, validateLoop R.backup.isSome r os 0 s = some (ret, u) ∧
          t = if ret.isSome then u else releaseBackup r u) := by
  unfold vmwResourceValidate at hs
  split at hs
  · cases hs
  · next R hR =>
    refine ⟨R, hR, ?_⟩
    split_ifs at hs with hcreate
    · obtain ⟨rfl, rfl⟩ := Prod.mk.inj (Option.some.inj hs)
      exact .inl ⟨by simpa using hcreate, rfl, rfl⟩
    · right
      split at hs
      · cases hs
      · next e u hu =>
        obtain ⟨rfl, rfl⟩ := Prod.mk.inj (Option.some.inj hs)
        exact ⟨u, hu, rfl⟩
      · next u hu =>
        obtain ⟨rfl, rfl⟩ := Prod.mk.inj (Option.some.inj hs)
        exact ⟨u, hu, rfl⟩

theorem Inv.validate (h : Inv s) {os : List Round} (hkeeps : ValidateKeeps os r s)
    {ret : Option Errno} (hs : vmwResourceValidate os r s = some (ret, t)) : Inv t := by
  obtain ⟨R, hR, ⟨-, -, rfl⟩ | ⟨u, hu, rfl⟩⟩ := validate_cases hs
  · exact h
  · have hinv := h.validateLoop (hkeeps R hR) hu
    split_ifs
    · exact hinv
    · exact hinv.releaseBackup r

theorem Tied.bufAlloc (h : Tied r (R, s)) (o : Except Errno ℕ) :
    Tied r ((vmwResourceBufAlloc o R).2, s) := by
  rcases bufAlloc_cases R o with ⟨-, e, he⟩ | ⟨-, b, hb, hor⟩
  · rw [he]
    exact h
  · rw [hb]
    exact h.withBuffer hor

theorem Tied.reserve (h : Tied r (R, s)) (o : Except Errno ℕ) (noBackup : Bool) :
    Tied r (vmwResourceReserve o noBackup r (R, s)).2 := by
  have hdel : Tied r (R, lruDel R.func.resType r s) := h.change rfl rfl rfl rfl
  unfold vmwResourceReserve
  dsimp only
  split_ifs
  · exact hdel.bufAlloc o
  · exact hdel

theorem Tied.switchBackup (h : Tied r f) (new : Option ℕ) : Tied r (switchBackup new r f) := by
  obtain ⟨R, s⟩ := f
  unfold Resources.switchBackup
  dsimp only
  split_ifs with hsame hbackup
  · exact h
  · have hoff := mobDel_mobHead r (R, s)
    cases new with
    | some b => exact (h.mobDel.setBackup hoff (some b)).mobAdd hoff rfl
    | none => exact h.mobDel.setBackup hoff none
  · -- a resource without buffer is on no list
    have hoff := h.bound.off (Option.not_isSome_iff_eq_none.1 hbackup)
    cases new with
    | some b => exact (h.setBackup hoff (some b)).mobAdd hoff rfl
    | none => exact h.setBackup hoff none

theorem Tied.unreserve (h : Tied r f) (switch : Option (Option ℕ)) :
    Tied r (vmwResourceUnreserve switch r f) := by
  have hswitch : Tied r (switch.elim f (Resources.switchBackup · r f)) := by
    cases switch with
    | none => exact h
    | some new => exact h.switchBackup new
  unfold vmwResourceUnreserve
  dsimp only
  split_ifs
  · exact h
  · exact hswitch
  · exact hswitch.change rfl rfl rfl rfl

theorem Inv.unreserveAt (h : Inv s) (switch : Option (Option ℕ)) (r : ℕ) :
    Inv (unreserveAt switch r s) := by
  unfold Resources.unreserveAt
  split
  · exact h
  · next R hR => exact ((h.tied hR).unreserve switch).inv

theorem Inv.addPinAt (h : Inv s) (r : ℕ) : Inv (addPinAt r s) := by
  unfold Resources.addPinAt
  split
  · exact h
  · next R hR => exact ((h.tied hR).change (W := R.addPin) rfl rfl rfl rfl).inv

theorem Inv.unbindList (h : Inv s) (o : ℕ → Option Errno × List ℕ) (l : List ℕ) :
    Inv (vmwResourceUnbindList o l s) := by
  induction l generalizing s with
  | nil => exact h
  | cons r l ih =>
    unfold vmwResourceUnbindList
    split
    · exact ih h
    · next R hR =>
      split_ifs
      · exact ih h
      · have hunbind := (h.tied hR).unbind (o r).1 (o r).2
        apply ih
        have hdirty : Tied r
          ({ (unbind (o r).1 (o r).2 r (R, s)).2.1 with backupDirty := true, resDirty := false },
            (unbind (o r).1 (o r).2 r (R, s)).2.2) := hunbind.change rfl rfl rfl rfl
        exact hdirty.mobDel.inv

theorem Inv.pinStart (h : Inv s) {o : PinOut} {g : PinStart} (hg : pinStart o r s = some g) :
    Inv g.state := by
  unfold Resources.pinStart at hg
  split at hg
  · cases hg
  · next R hR =>
    have hreserve := (h.tied hR).reserve o.alloc false
    split at hg
    · next e S t hf =>
      rw [hf] at hreserve
      rw [← Option.some.inj hg]
      exact hreserve.inv
    · next S t hf =>
      rw [hf] at hreserve
      have hinv := hreserve.inv
      dsimp only at hg
      split_ifs at hg
      · rw [← Option.some.inj hg]
        exact (hinv.addPinAt r).unreserveAt none r
      · split at hg
        · split_ifs at hg
          · rw [← Option.some.inj hg]
            exact hinv.unreserveAt none r
          · rw [← Option.some.inj hg]
            exact hinv.congr rfl rfl
        · rw [← Option.some.inj hg]
          exact hinv.congr rfl rfl
        · rw [← Option.some.inj hg]
          exact hinv

/-- No eviction that is tried drops a buffer because it cannot be placed. -/
def admits (s : ResDev) : Op → Prop
  | .validate os r => ValidateKeeps os r s
  | .evict o ty => ∀ q l Q, s.lru ty = q :: l → s.res q = some Q → BufferStays Q o.buffer
  | .pin o r => ∀ t, pinStart o r s = some (.validates t) → ValidateKeeps o.rounds r t
  | _ => True

theorem Inv.pin (h : Inv s) {o : PinOut}
    (hok : ∀ t, Resources.pinStart o r s = some (.validates t) → ValidateKeeps o.rounds r t)
    {ret : Option Errno} (hs : vmwResourcePin o r s = some (ret, t)) : Inv t := by
  unfold vmwResourcePin at hs
  split at hs
  · cases hs
  · next ret' u hu =>
    obtain ⟨-, rfl⟩ := Prod.mk.inj (Option.some.inj hs)
    exact h.pinStart hu
  · next u hu =>
    have hinv : Inv u := h.pinStart hu
    split at hs
    · cases hs
    · next e w hw =>
      obtain ⟨-, rfl⟩ := Prod.mk.inj (Option.some.inj hs)
      exact (hinv.validate (hok u hu) hw).unreserveAt none r
    · next w hw =>
      obtain ⟨-, rfl⟩ := Prod.mk.inj (Option.some.inj hs)
      exact ((hinv.validate (hok u hu) hw).addPinAt r).unreserveAt none r

theorem Inv.unpin (h : Inv s) (hs : vmwResourceUnpin r s = some t) : Inv t := by
  unfold vmwResourceUnpin at hs
  split at hs
  · cases hs
  · next R hR =>
    rw [← Option.some.inj hs]
    apply Inv.unreserveAt
    have htied : Tied r (R.dropPin, lruDel R.func.resType r s) :=
      (h.tied hR).change rfl rfl rfl rfl
    split_ifs
    · cases R.backup with
      | none => exact htied.inv
      | some b => exact htied.inv.congr rfl rfl
    · exact htied.inv

theorem step_inv (s : ResDev) (op : Op) (t : ResDev) (h : Inv s) (hok : admits s op)
    (hs : step s op = some t) : Inv t := by
  cases op with
  | init r func id backup =>
    simp only [step] at hs
    split_ifs at hs with hfree
    rw [← Option.some.inj hs]
    have htied : Tied r (⟨func, id, backup, none, false, false, 0⟩, s) := by
      refine ⟨?_, fun q Q _ hQ => h.bound q Q hQ, fun b hb => by cases hb⟩
      have hplace : mobPlaces s r = none := by rw [mobPlaces, hfree, Option.bind_none]
      have hsame := Function.update_eq_self r (mobPlaces s)
      rw [hplace] at hsame
      exact hsame.symm ▸ h.buffers
    exact htied.inv.congr rfl rfl
  | reserve o noBackup r =>
    simp only [step] at hs
    split at hs
    · cases hs
    · next R hR =>
      rw [← Option.some.inj hs]
      exact ((h.tied hR).reserve o noBackup).inv
  | unreserve switch r =>
    rw [← Option.some.inj hs]
    exact h.unreserveAt switch r
  | validate os r =>
    simp only [step] at hs
    split at hs
    · cases hs
    · split_ifs at hs
      obtain ⟨⟨ret, u⟩, hu, rfl⟩ := Option.map_eq_some_iff.1 hs
      exact h.validate hok hu
  | evict o ty =>
    obtain ⟨⟨ret, u⟩, hu, rfl⟩ := Option.map_eq_some_iff.1 hs
    exact h.evictFirst hok hu
  | moveOut o b =>
    rw [← Option.some.inj hs]
    exact h.unbindList o _
  | pin o r =>
    obtain ⟨⟨ret, u⟩, hu, rfl⟩ := Option.map_eq_some_iff.1 hs
    exact h.pin hok hu
  | unpin r => exact h.unpin hs
  | otherPin b pin =>
    rw [← Option.some.inj hs]
    exact h.congr rfl rfl

theorem start_inv : Inv start where
  buffers := listed_nil
  bound r R hR := by cases hR

/-- A resource is on the list of a buffer only where it is its backup buffer, and once. A check
    of the buffer or an eviction that fails leaves the buffer as it was, up to one that is newly
    allocated; only an eviction that comes to the destruction has unbound it. -/
theorem runs_bound {ops : List Op} (h : Runs step admits start ops s) :
    (∀ b r, r ∈ s.resList b → (s.resList b).count r = 1 ∧
      ∃ R, s.res r = some R ∧ R.mobHead = some b ∧ R.backup = some b) ∧
    ∀ r R, s.res r = some R →
      (∀ o, BufferStays R o → (vmwResourceCheckBuffer o R).1 ≠ none →
        KeptOrAllocated R o (vmwResourceCheckBuffer o R).2) ∧
      (R.func.mayEvict = true → ∀ o, BufferStays R o.buffer →
        let f := vmwResourceDoEvict o r (R, s)
        f.1 ≠ none → (¬ Evictable R o → KeptOrAllocated R o.buffer f.2.1) ∧
          (Evictable R o → Unbound R o.buffer f.2.1)) := by
  have hinv : Inv s := h.invariant Inv start_inv step_inv
  refine ⟨?_, fun r R _ => ⟨fun o hstays _ => checkBuffer_kept hstays, ?_⟩⟩
  · intro b r hr
    have hplace := hinv.buffers.mem_iff.1 hr
    refine ⟨?_, ?_⟩
    · rw [hinv.buffers r b, if_pos hplace]
    · unfold mobPlaces at hplace
      obtain ⟨R, hR, hmob⟩ := Option.bind_eq_some_iff.1 hplace
      exact ⟨R, hR, hmob, hinv.bound r R hR b hmob⟩
  · intro hevict o hstays f _
    exact doEvict_left hevict hstays

def boundRun : List Op := [.init 0 .gbSurface (-1) none, .reserve (.ok 5) false 0]

/-- It is put back on the list of those that may be evicted. -/
def listedRun : List Op := [.unreserve none 0, .otherPin 5 true]

def okRound : Round :=
  ⟨⟨.done 3, none, none⟩, ⟨⟨.error .enomem, none, none⟩, none, [], none⟩⟩

/-- An eviction that finds no space to destroy the resource. -/
def undestroyed : EvictOut := ⟨⟨.error .enomem, none, none⟩, none, [], some .enomem⟩

theorem boundRun_bound : ∃ s R, Runs step admits start
      (boundRun ++ .validate [okRound] 0 :: listedRun) s ∧
    s.res 0 = some R ∧ R.backup = some 5 ∧ (s.resList 5).count 0 = 1 ∧
    KeptOrAllocated R ⟨.ok 6, some ebusy, none⟩
      (vmwResourceCheckBuffer ⟨.ok 6, some ebusy, none⟩ R).2 ∧
    Unbound R undestroyed.buffer (vmwResourceDoEvict undestroyed 0 (R, s)).2.1 := by
  let r := (exec step start boundRun).getD start
  let u := (step r (.validate [okRound] 0)).getD start
  let s := (exec step u listedRun).getD start
  have hbound : Runs step admits start boundRun r := by
    apply Runs.of_exec
    · intro op hop s
      fin_cases hop <;> trivial
    · rfl
  have hvalidate : admits r (.validate [okRound] 0) := by
    intro R hR
    obtain rfl := Option.some.inj hR
    constructor
    · intro S hS _ f t hbusy
      obtain rfl := Option.some.inj hS
      cases hbusy
    · intro m t hgo
      cases hgo
  have hlisted : Runs step admits u listedRun s := by
    apply Runs.of_exec
    · intro op hop s
      fin_cases hop <;> trivial
    · rfl
  have hrun := hbound.trans (.next hvalidate (by rfl) hlisted)
  have hR : s.res 0 = some ⟨.gbSurface, 3, some 5, some 5, false, true, 0⟩ := by rfl
  obtain ⟨hlists, hfailed⟩ := runs_bound hrun
  obtain ⟨hcheck, hevict⟩ := hfailed 0 _ hR
  have hstays : ∀ o, BufferStays ⟨.gbSurface, 3, some 5, some 5, false, true, 0⟩ o :=
    fun o _ _ hdirty => by cases hdirty
  refine ⟨s, _, hrun, hR, rfl, (hlists 5 0 (by decide)).1, hcheck _ (hstays _) (by decide), ?_⟩
  apply (hevict (by rfl) undestroyed (hstays _) (by decide)).2
  refine ⟨⟨?_, rfl, fun _ => rfl⟩, fun _ => rfl⟩
  rintro ⟨hnone, -⟩
  cases hnone

/-- What the two kinds of failure leave: a surface that could not be destroyed is off the list of
    its buffer, which is dirty, and one that had no buffer keeps the one that could not be
    reserved. -/
theorem failedEvictions_left :
    (∃ s R, Runs step anyLabel start (boundRun ++ .validate [okRound] 0 :: listedRun) s ∧
      s.res 0 = some R ∧ (vmwResourceDoEvict undestroyed 0 (R, s)).1 = some .enomem ∧
      R.mobHead = some 5 ∧ (vmwResourceDoEvict undestroyed 0 (R, s)).2.1.mobHead = none ∧
      R.backupDirty = false ∧ (vmwResourceDoEvict undestroyed 0 (R, s)).2.1.backupDirty = true) ∧
    ∃ s R, Runs step anyLabel start
        [.init 0 .legacySurface (-1) none, .reserve (.ok 5) false 0, .validate [okRound] 0,
          .unreserve none 0] s ∧
      s.res 0 = some R ∧ R.backup = none ∧
      vmwResourceCheckBuffer ⟨.ok 6, some ebusy, none⟩ R =
        (some ebusy, { R with backup := some 6 }) := by
  constructor
  · exact ⟨(exec step start (boundRun ++ .validate [okRound] 0 :: listedRun)).getD start,
      ⟨.gbSurface, 3, some 5, some 5, false, true, 0⟩, runs_getD (by rfl), by rfl, by decide, rfl,
      by decide, rfl, by decide⟩
  · exact ⟨_, ⟨.legacySurface, 3, none, none, false, true, 0⟩,
      runs_getD (d := start) (by rfl), by rfl, rfl, rfl⟩

end Vmwgfx.Resources
