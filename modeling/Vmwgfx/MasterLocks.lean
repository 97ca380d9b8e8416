import Vmwgfx.MasterSwitch

set_option autoImplicit false

/-!
# Who holds the VT locks

A master that was dropped is locked by the file that dropped it, the fbdev master by the
file that is master. Both need that a file which asks for its master again has locked it.
-/
namespace Vmwgfx.MasterSwitch
open ExecbufState (Errno)
open LabelledRuns

/-- A file that was master asks for it again only after it dropped it itself, and
    `ttm_vt_lock` succeeded in that. A request that fails before is not restricted. -/
def asksAgain (s : MasterDev) : Op → Prop
  | .setMaster f o =>
    s.devMaster = none → (s.file f).isMaster = true → o.lock = none →
      (s.file f).lastDrop = some true
  | _ => True

instance : ∀ s a, Decidable (asksAgain s a)
  | _, .setMaster _ _ => inferInstanceAs (Decidable (_ → _ → _ → _))
  | _, .open _ _ _ => .isTrue trivial
  | _, .dropMaster _ _ => .isTrue trivial
  | _, .close _ _ => .isTrue trivial

structure FileSound (s : MasterDev) (f : ℕ) : Prop where
  closed : (s.file f).opened = false → s.file f = .closed
  locked : ∀ m, (s.file f).lockedMaster = some m ↔ (s.lock (.master m)).heldBy f
  dropped : (s.file f).lockedMaster.isSome = true ↔ (s.file f).lastDrop = some true
  own : ∀ m, (s.file f).lockedMaster = some m → (s.file f).master = some m ∧ s.devMaster ≠ some m
  idle : (s.file f).isMaster = false → (s.file f).lockedMaster = none ∧ (s.file f).lastDrop = none
  known : ∀ m, (s.file f).master = some m → m < s.nextMaster ∧ (s.file f).primary = true
  master : (s.file f).isMaster = true → (s.file f).master.isSome = true

structure Inv (s : MasterDev) : Prop where
  files : ∀ f, FileSound s f
  active : s.activeMaster = some (s.devMaster.elim .fbdev .master)
  fbdev : (s.lock .fbdev).held = s.devMaster.isSome
  holder : s.devMaster.isSome = true → ∃ f, (s.lock .fbdev).holder = some f ∧
    (s.file f).isMaster = true ∧ (s.file f).master = s.devMaster
  known : ∀ m, s.devMaster = some m → m < s.nextMaster
  fresh : ∀ m, s.nextMaster ≤ m → (s.lock (.master m)).held = false
  bug : s.bug = false
  badUnlock : s.badUnlock = false

variable {s t : MasterDev} {f g m : ℕ} {ret : Option Errno}

theorem inv_init : Inv init where
  files f := ⟨fun _ => rfl, fun m => by simp [init, DrmFile.closed, VtLock.heldBy],
    by simp [init, DrmFile.closed], (fun m h => by simp [init, DrmFile.closed] at h),
    (fun _ => ⟨rfl, rfl⟩), (fun m h => by simp [init, DrmFile.closed] at h),
    fun h => by simp [init, DrmFile.closed] at h⟩
  active := rfl
  fbdev := rfl
  holder h := by cases h
  known m h := by cases h
  fresh m _ := rfl
  bug := rfl
  badUnlock := rfl

@[simp] theorem modFile_self (f : ℕ) (h : DrmFile → DrmFile) (s : MasterDev) :
    (modFile f h s).file f = h (s.file f) := Function.update_self ..

theorem modFile_of_ne (h : DrmFile → DrmFile) (hne : g ≠ f) :
    (modFile f h s).file g = s.file g := Function.update_of_ne hne ..

theorem bugOn_false (s : MasterDev) : bugOn false s = s := by
  unfold bugOn
  rw [Bool.or_false]

theorem FileSound.other (h : FileSound s g) (hfile : t.file g = s.file g)
    (hlock : ∀ m, (t.lock (.master m)).heldBy g ↔ (s.lock (.master m)).heldBy g)
    (hnext : s.nextMaster ≤ t.nextMaster)
    (hdev : ∀ m, (s.file g).lockedMaster = some m → t.devMaster ≠ some m) : FileSound t g where
  closed := by rw [hfile]; exact h.closed
  locked m := by rw [hfile, hlock]; exact h.locked m
  dropped := by rw [hfile]; exact h.dropped
  own m hm := by
    rw [hfile] at hm ⊢
    exact ⟨(h.own m hm).1, hdev m hm⟩
  idle := by rw [hfile]; exact h.idle
  known m hm := by
    rw [hfile] at hm ⊢
    exact ⟨(h.known m hm).1.trans_le hnext, (h.known m hm).2⟩
  master := by rw [hfile]; exact h.master

theorem Inv.locked_unique (hs : Inv s) (hf : (s.file f).lockedMaster = some m)
    (hg : (s.file g).lockedMaster = some m) : g = f := by
  have hheld := ((hs.files f).locked m).1 hf
  have hheld' := ((hs.files g).locked m).1 hg
  exact Option.some.inj (hheld'.2.symm.trans hheld.2)

section Sets

/-- `f` becomes master of `m`. -/
def becomesMaster (f m : ℕ) (s : MasterDev) : MasterDev :=
  { modFile f (fun F => { F with lockedMaster := none, lastDrop := none }) s with
    devMaster := some m
    activeMaster := some (.master m)
    lock := Function.update (Function.update s.lock .fbdev ⟨true, some f⟩) (.master m)
      { s.lock (.master m) with held := false } }

theorem inv_becomesMaster (hs : Inv s) (hm : (s.file f).master = some m) (hmaster : (s.file f).isMaster = true)
    (hfree : ∀ g, (s.lock (.master m)).heldBy g → g = f) : Inv (becomesMaster f m s) where
  files g := by
    by_cases hg : g = f
    · subst hg
      have hfile : ((becomesMaster g m s).file g) =
          { s.file g with lockedMaster := none, lastDrop := none } := by
        simp [becomesMaster]
      have hf := hs.files g
      refine ⟨?_, ?_, ?_, ?_, ?_, ?_, ?_⟩
      · rw [hfile]
        intro hclosed
        have := hf.closed hclosed
        rw [this] at hmaster
        cases hmaster
      · intro k
        rw [hfile]
        simp only [reduceCtorEq, false_iff]
        by_cases hk : k = m
        · subst hk
          simp [becomesMaster, VtLock.heldBy]
        · have hlock : (becomesMaster g m s).lock (.master k) = s.lock (.master k) := by
            simp [becomesMaster, hk]
          rw [hlock, ← hf.locked]
          intro hlocked
          have := (hf.own k hlocked).1
          rw [hm] at this
          exact hk (Option.some.inj this).symm
      · rw [hfile]
        simp
      · rw [hfile]
        intro k hk
        cases hk
      · rw [hfile]
        exact fun _ => ⟨rfl, rfl⟩
      · rw [hfile]
        exact hf.known
      · rw [hfile]
        exact hf.master
    · refine (hs.files g).other ?_ (fun k => ?_) le_rfl (fun k hk => ?_)
      · simp [becomesMaster, modFile_of_ne _ hg]
      · by_cases hk : k = m
        · subst hk
          refine iff_of_false (by simp [becomesMaster, VtLock.heldBy]) fun hheld => hg ?_
          exact hfree g hheld
        · simp [becomesMaster, hk]
      · rintro heq
        obtain rfl : m = k := Option.some.inj heq
        exact hg (hfree g (((hs.files g).locked m).1 hk))
  active := rfl
  fbdev := by simp [becomesMaster]
  holder _ := ⟨f, by simp [becomesMaster], by
    simp only [becomesMaster, modFile_self]
    exact ⟨hmaster, hm⟩⟩
  known k hk := by
    obtain rfl : m = k := Option.some.inj hk
    exact ((hs.files f).known m hm).1
  fresh k hk := by
    by_cases hkm : k = m
    · subst hkm
      simp [becomesMaster]
    · simpa [becomesMaster, hkm] using hs.fresh k hk
  bug := hs.bug
  badUnlock := hs.badUnlock

theorem lock_eq_self {l : VtLock} (h : l.held = false) : { l with held := false } = l := by
  cases l
  cases h
  rfl

theorem lockActive_eq (hs : Inv s) (hno : s.devMaster = none) :
    lockActive f ret { s with devMaster := some m } =
      if ret.isSome then (ret, { s with devMaster := some m })
      else (none, { s with
        devMaster := some m
        activeMaster := none
        lock := Function.update s.lock .fbdev ⟨true, some f⟩ }) := by
  have hactive : s.activeMaster = some .fbdev := by rw [hs.active, hno]; rfl
  have hheld : (s.lock .fbdev).held = false := by rw [hs.fbdev, hno]; rfl
  unfold lockActive
  simp only [hactive, bne_self_eq_false, bugOn_false]
  cases ret with
  | none => rfl
  | some e =>
    simp only [ttmVtLock, setLock, Option.isNone_some, Bool.false_eq_true, if_false,
      lock_eq_self hheld, Function.update_eq_self, Option.isSome_some, if_true]

theorem drmSetMaster_fails (hs : Inv s) (hno : s.devMaster = none) (newMaster : Bool) (e : Errno) :
    drmSetMaster f m newMaster (some e) s = (some e, s) := by
  unfold drmSetMaster vmwMasterSet
  rw [lockActive_eq hs hno]
  simp only [Option.isSome_some, if_true]
  rw [← hno]

theorem drmSetMaster_new (hs : Inv s) (hno : s.devMaster = none)
    (hlocked : (s.file f).lockedMaster = none) (hdrop : (s.file f).lastDrop = none)
    (hheld : (s.lock (.master m)).held = false) :
    drmSetMaster f m true none s = (none, becomesMaster f m s) := by
  unfold drmSetMaster vmwMasterSet
  rw [lockActive_eq hs hno]
  have hfile : { s.file f with lockedMaster := none, lastDrop := none } = s.file f := by
    rw [← hlocked, ← hdrop]
  have hlock : Function.update (Function.update s.lock .fbdev ⟨true, some f⟩) (.master m)
      (s.lock (.master m)) = Function.update s.lock .fbdev ⟨true, some f⟩ := by
    rw [Function.update_comm (by simp), Function.update_eq_self]
  simp only [Option.isSome_none, Bool.false_eq_true, if_false, if_true, becomesMaster, modFile,
    hfile, Function.update_eq_self, lock_eq_self hheld, hlock]

/-- What `vmw_master_set` leaves when a file asks for its master again: the lock of that
    is given up, and it must have been the lock of the file. -/
theorem drmSetMaster_again (hs : Inv s) (hno : s.devMaster = none) :
    ((s.file f).lockedMaster = some m →
      drmSetMaster f m false none s = (none, becomesMaster f m s)) ∧
    ((s.file f).lockedMaster ≠ some m → (drmSetMaster f m false none s).2.bug = true) := by
  unfold drmSetMaster vmwMasterSet
  rw [lockActive_eq hs hno]
  simp only [Option.isSome_none, Bool.false_eq_true, if_false]
  refine ⟨fun hlocked => ?_, fun hlocked => ?_⟩
  · have hheld : (s.lock (.master m)).held = true := (((hs.files f).locked m).1 hlocked).1
    simp [ttmVtUnlock, hheld, setLock, hlocked, bugOn_false, becomesMaster, modFile]
  · unfold ttmVtUnlock
    split_ifs
    all_goals simp [setLock, bugOn, modFile, hlocked]

/-- A new master has been made for `f`, which has the master `x` and the flag `b` then. -/
def withNew (f : ℕ) (x : Option ℕ) (b : Bool) (s : MasterDev) : MasterDev :=
  modFile f (fun F => { F with master := x, isMaster := b })
    (setLock (.master s.nextMaster) ⟨false, none⟩ { s with nextMaster := s.nextMaster + 1 })

theorem inv_withNew {x : Option ℕ} {b : Bool} (hs : Inv s) (hopen : (s.file f).opened = true)
    (hidle : (s.file f).isMaster = false)
    (hx : ∀ m, x = some m → m < s.nextMaster + 1 ∧ (s.file f).primary = true)
    (hb : b = true → x.isSome = true) : Inv (withNew f x b s) where
  files g := by
    have hheld : (s.lock (.master s.nextMaster)).held = false := hs.fresh _ le_rfl
    have hlock : ∀ g k, ((withNew f x b s).lock (.master k)).heldBy g ↔
        (s.lock (.master k)).heldBy g := by
      intro g k
      by_cases hk : k = s.nextMaster
      · subst hk
        simp [withNew, modFile, setLock, VtLock.heldBy, hheld]
      · simp [withNew, modFile, setLock, hk]
    by_cases hg : g = f
    · subst hg
      obtain ⟨hnone, hdrop⟩ := (hs.files g).idle hidle
      have hfile : (withNew g x b s).file g =
          { s.file g with master := x, isMaster := b } := by
        simp [withNew, setLock]
      refine ⟨?_, ?_, ?_, ?_, ?_, ?_, ?_⟩
      · rw [hfile]
        exact fun hclosed => absurd hopen (by simp only at hclosed; simp [hclosed])
      · intro m
        rw [hfile, hlock]
        exact (hs.files g).locked m
      · rw [hfile]
        exact (hs.files g).dropped
      · rw [hfile]
        intro m hm
        simp [hnone] at hm
      · rw [hfile]
        exact fun _ => ⟨hnone, hdrop⟩
      · rw [hfile]
        exact hx
      · rw [hfile]
        exact hb
    · refine (hs.files g).other ?_ (hlock g) (Nat.le_succ _) fun m hm => ((hs.files g).own m hm).2
      simp [withNew, modFile_of_ne _ hg, setLock]
  active := hs.active
  fbdev := by simpa [withNew, modFile, setLock] using hs.fbdev
  holder hsome := by
    obtain ⟨g, hg, hmaster, hcurrent⟩ := hs.holder hsome
    have hne : g ≠ f := by
      rintro rfl
      rw [hidle] at hmaster
      cases hmaster
    refine ⟨g, by simpa [withNew, modFile, setLock] using hg, ?_⟩
    simpa [withNew, modFile_of_ne _ hne, setLock] using ⟨hmaster, hcurrent⟩
  known m hm := (hs.known m hm).trans (Nat.lt_succ_self _)
  fresh m hm := by
    have hne : m ≠ s.nextMaster := Nat.ne_of_gt hm
    simpa [withNew, modFile, setLock, hne] using hs.fresh m (Nat.le_of_succ_le hm)
  bug := hs.bug
  badUnlock := hs.badUnlock

/-- How `drm_new_set_master` ends: as it began, with a master that is given up again, or
    with `f` as the new master. -/
theorem drmNewSetMaster_cases {o : SetEnds} (hs : Inv s) (hno : s.devMaster = none)
    (hopen : (s.file f).opened = true) (hprimary : (s.file f).primary = true)
    (hidle : (s.file f).isMaster = false) :
    (∃ e, drmNewSetMaster f o s = (some e, s)) ∨
    (∃ e b, drmNewSetMaster f o s = (some e, withNew f (s.file f).master b s)) ∨
    ∃ t, drmNewSetMaster f o s = (none, t) ∧ Inv t := by
  have hnew : Inv (withNew f (some s.nextMaster) true s) :=
    inv_withNew hs hopen hidle (fun m hm => by cases hm; exact ⟨Nat.lt_succ_self _, hprimary⟩)
      fun _ => rfl
  have heq : modFile f (fun F => { F with isMaster := true }) (drmMasterCreate f s) =
      withNew f (some s.nextMaster) true s := by
    simp [drmMasterCreate, withNew, modFile, setLock]
  unfold drmNewSetMaster
  simp only
  by_cases hcreate : (!o.create) = true
  · rw [if_pos hcreate]
    exact .inl ⟨_, rfl⟩
  rw [if_neg hcreate]
  by_cases hmaster : (!o.masterCreate) = true
  · rw [if_pos hmaster]
    refine .inr (.inl ⟨.enomem, false, ?_⟩)
    simp [drmMasterCreate, withNew, modFile, setLock, hidle]
  rw [if_neg hmaster, heq]
  cases hlock : o.lock with
  | none =>
    obtain ⟨hnone, hdrop⟩ := (hs.files f).idle hidle
    have hset := drmSetMaster_new (f := f) (m := s.nextMaster) hnew hno
      (by simp [withNew, setLock, hnone]) (by simp [withNew, setLock, hdrop])
      (by simp [withNew, modFile, setLock])
    rw [hset]
    refine .inr (.inr ⟨_, rfl, inv_becomesMaster hnew ?_ ?_ fun g hg => ?_⟩)
    · simp [withNew]
    · simp [withNew]
    · simp [withNew, modFile, setLock, VtLock.heldBy] at hg
  | some e =>
    rw [drmSetMaster_fails hnew hno]
    refine .inr (.inl ⟨e, true, ?_⟩)
    simp [withNew, modFile, setLock]

end Sets

section Drops

/-- `f` has dropped its master `m`. -/
def dropped (f m : ℕ) (ok : Bool) (s : MasterDev) : MasterDev :=
  { modFile f (fun F => { F with
      lockedMaster := if ok then some m else none
      lastDrop := some ok }) s with
    devMaster := none
    activeMaster := some .fbdev
    lock := Function.update (Function.update s.lock (.master m)
      (if ok then ⟨true, some f⟩ else { s.lock (.master m) with held := false })) .fbdev
      { s.lock .fbdev with held := false } }

theorem drmDropMaster_eq (hs : Inv s) (hm : s.devMaster = some m) :
    drmDropMaster f m ret s = dropped f m ret.isNone s := by
  have hheld : (s.lock .fbdev).held = true := by rw [hs.fbdev, hm]; rfl
  unfold drmDropMaster vmwMasterDrop ttmVtUnlock
  cases ret <;> simp [ttmVtLock, setLock, modFile, hheld, dropped]

theorem inv_dropped {ok : Bool} (hs : Inv s) (hm : s.devMaster = some m)
    (hmaster : (s.file f).isMaster = true) (hown : (s.file f).master = some m) :
    Inv (dropped f m ok s) := by
  have hfree : ∀ g, ¬ (s.lock (.master m)).heldBy g := fun g hheld =>
    ((hs.files g).own m (((hs.files g).locked m).2 hheld)).2 hm
  have hnone : (s.file f).lockedMaster = none := by
    by_contra hsome
    obtain ⟨k, hk⟩ := Option.ne_none_iff_exists'.1 hsome
    obtain ⟨hk', hcurrent⟩ := (hs.files f).own k hk
    exact hcurrent (hm.trans (hown.symm.trans hk'))
  have hlock : ∀ k, k ≠ m → (dropped f m ok s).lock (.master k) = s.lock (.master k) := by
    intro k hk
    simp [dropped, hk]
  have hlockm : (dropped f m ok s).lock (.master m) =
      if ok then ⟨true, some f⟩ else { s.lock (.master m) with held := false } := by
    simp [dropped]
  refine ⟨fun g => ?_, rfl, by simp [dropped], (fun h => by cases h), (fun k h => by cases h),
    fun k hk => ?_, hs.bug, hs.badUnlock⟩
  · by_cases hg : g = f
    · subst hg
      have hfile : (dropped g m ok s).file g =
          { s.file g with lockedMaster := if ok then some m else none, lastDrop := some ok } := by
        simp [dropped]
      refine ⟨?_, fun k => ?_, ?_, ?_, ?_, ?_, ?_⟩
      · rw [hfile]
        intro hclosed
        have hf := (hs.files g).closed hclosed
        rw [hf] at hmaster
        cases hmaster
      · rw [hfile]
        by_cases hk : k = m
        · subst hk
          rw [hlockm]
          cases ok <;> simp [VtLock.heldBy]
        · rw [hlock k hk, ← (hs.files g).locked, hnone]
          cases ok <;> simp [Ne.symm hk]
      · rw [hfile]
        cases ok <;> simp
      · rw [hfile]
        intro k hk
        cases ok
        · cases hk
        · cases hk
          exact ⟨hown, fun h => by cases h⟩
      · rw [hfile]
        exact fun h => by simp [hmaster] at h
      · rw [hfile]
        exact (hs.files g).known
      · rw [hfile]
        exact (hs.files g).master
    · refine (hs.files g).other ?_ (fun k => ?_) le_rfl fun k _ => by simp [dropped]
      · simp [dropped, modFile_of_ne _ hg]
      · by_cases hk : k = m
        · subst hk
          rw [hlockm]
          refine iff_of_false ?_ (hfree g)
          cases ok <;> simp [VtLock.heldBy, Ne.symm hg]
        · rw [hlock k hk]
  · have hkm : k ≠ m := by
      rintro rfl
      exact absurd (hs.known k hm) (Nat.not_lt.2 hk)
    rw [hlock k hkm]
    exact hs.fresh k hk

end Drops

section Closes

/-- What `vmw_postclose` finds: the file is not master, and has the locks that it names. -/
structure Leaving (f : ℕ) (s : MasterDev) : Prop where
  others : ∀ g, g ≠ f → FileSound s g
  locked : ∀ m, (s.file f).lockedMaster = some m ↔ (s.lock (.master m)).heldBy f
  active : s.activeMaster = some (s.devMaster.elim .fbdev .master)
  fbdev : (s.lock .fbdev).held = s.devMaster.isSome
  holder : s.devMaster.isSome = true → ∃ g, g ≠ f ∧ (s.lock .fbdev).holder = some g ∧
    (s.file g).isMaster = true ∧ (s.file g).master = s.devMaster
  known : ∀ m, s.devMaster = some m → m < s.nextMaster
  fresh : ∀ m, s.nextMaster ≤ m → (s.lock (.master m)).held = false
  bug : s.bug = false
  badUnlock : s.badUnlock = false

theorem Inv.leaving (hs : Inv s) (hnot : drmIsCurrentMaster f s = false) : Leaving f s where
  others g _ := hs.files g
  locked := (hs.files f).locked
  active := hs.active
  fbdev := hs.fbdev
  holder hsome := by
    obtain ⟨g, hg, hmaster, hcurrent⟩ := hs.holder hsome
    refine ⟨g, ?_, hg, hmaster, hcurrent⟩
    rintro rfl
    simp [drmIsCurrentMaster, hmaster, hcurrent] at hnot
  known := hs.known
  fresh := hs.fresh
  bug := hs.bug
  badUnlock := hs.badUnlock

theorem Leaving.modFile {h : DrmFile → DrmFile} (hs : Leaving f s)
    (hh : (h (s.file f)).lockedMaster = (s.file f).lockedMaster) : Leaving f (modFile f h s) where
  others g hg := (hs.others g hg).other (modFile_of_ne _ hg) (fun _ => .rfl) le_rfl
    fun m hm => ((hs.others g hg).own m hm).2
  locked m := by
    rw [modFile_self, hh]
    exact hs.locked m
  active := hs.active
  fbdev := hs.fbdev
  holder hsome := by
    obtain ⟨g, hne, hg, hmaster, hcurrent⟩ := hs.holder hsome
    refine ⟨g, hne, hg, ?_⟩
    rw [modFile_of_ne _ hne]
    exact ⟨hmaster, hcurrent⟩
  known := hs.known
  fresh := hs.fresh
  bug := hs.bug
  badUnlock := hs.badUnlock

theorem vmwPostclose_eq (hs : Leaving f s) :
    vmwPostclose f s = MasterSwitch.modFile f (fun _ => .closed) (objectFileRelease f s) := by
  unfold vmwPostclose
  cases hlocked : (s.file f).lockedMaster with
  | none => rfl
  | some m =>
    have hheld := (hs.locked m).1 hlocked
    have hrelease : objectFileRelease f (ttmVtUnlock (.master m) s) = objectFileRelease f s := by
      unfold ttmVtUnlock
      rw [if_pos hheld.1]
      unfold objectFileRelease setLock
      congr 1
      funext n
      by_cases hn : n = .master m
      · subst hn
        simp [VtLock.heldBy, hheld.2, hheld.1]
      · simp [hn]
    simp only
    rw [hrelease]

theorem Leaving.postclose (hs : Leaving f s) : Inv (vmwPostclose f s) := by
  rw [vmwPostclose_eq hs]
  have hlock : ∀ n, ¬ (s.lock n).heldBy f → (objectFileRelease f s).lock n = s.lock n := fun n hn =>
    if_neg hn
  have hreleased : ∀ n, (s.lock n).heldBy f → ((objectFileRelease f s).lock n).held = false :=
    fun n hn => congrArg VtLock.held (if_pos hn)
  have hgone : ∀ n, ¬ ((objectFileRelease f s).lock n).heldBy f := by
    intro n hheld
    by_cases hn : (s.lock n).heldBy f
    · exact Bool.false_ne_true ((hreleased n hn).symm.trans hheld.1)
    · exact hn (by rwa [hlock n hn] at hheld)
  have hother : ∀ n g, g ≠ f → (((objectFileRelease f s).lock n).heldBy g ↔ (s.lock n).heldBy g) := by
    intro n g hg
    by_cases hn : (s.lock n).heldBy f
    · exact iff_of_false (fun hheld => Bool.false_ne_true ((hreleased n hn).symm.trans hheld.1))
        fun hheld => hg (Option.some.inj (hheld.2.symm.trans hn.2))
    · rw [hlock n hn]
  have hfbdev : ¬ (s.lock .fbdev).heldBy f := by
    intro hheld
    obtain ⟨g, hne, hg, -⟩ := hs.holder (hs.fbdev.symm.trans hheld.1)
    exact hne (Option.some.inj (hg.symm.trans hheld.2))
  refine ⟨fun g => ?_, hs.active, ?_, fun hsome => ?_, hs.known, fun m hm => ?_, hs.bug, hs.badUnlock⟩
  · by_cases hg : g = f
    · subst hg
      refine ⟨fun _ => modFile_self .., fun m => ?_, ?_, ?_, ?_, ?_, ?_⟩
      · rw [modFile_self]
        exact iff_of_false (by simp [DrmFile.closed]) (hgone (.master m))
      all_goals
        rw [modFile_self]
        simp [DrmFile.closed]
    · exact (hs.others g hg).other (modFile_of_ne _ hg) (fun m => hother (.master m) g hg) le_rfl
        fun m hm => ((hs.others g hg).own m hm).2
  · exact (congrArg VtLock.held (hlock _ hfbdev)).trans hs.fbdev
  · obtain ⟨g, hne, hg, hmaster, hcurrent⟩ := hs.holder hsome
    refine ⟨g, (congrArg VtLock.holder (hlock _ hfbdev)).trans hg, ?_⟩
    rw [modFile_of_ne _ hne]
    exact ⟨hmaster, hcurrent⟩
  · have hheld := hs.fresh m hm
    have hnot : ¬ (s.lock (.master m)).heldBy f := fun h =>
      Bool.false_ne_true (hheld.symm.trans h.1)
    exact (congrArg VtLock.held (hlock _ hnot)).trans hheld

end Closes

section Steps

theorem Inv.attach {x : Option ℕ} {primary : Bool} (hs : Inv s) (hopen : (s.file f).opened = false)
    (hx : ∀ m, x = some m → m < s.nextMaster ∧ primary = true) :
    Inv (modFile f (fun _ => ⟨true, primary, x, false, none, none⟩) s) where
  files g := by
    by_cases hg : g = f
    · subst hg
      have hf := (hs.files g).closed hopen
      refine ⟨?_, fun m => ?_, ?_, ?_, ?_, ?_, ?_⟩
      · rw [modFile_self]
        exact fun h => by cases h
      · rw [modFile_self]
        refine iff_of_false (fun h => by cases h) fun hheld => ?_
        have hlocked := ((hs.files g).locked m).2 hheld
        rw [hf] at hlocked
        cases hlocked
      · rw [modFile_self]
        simp
      · rw [modFile_self]
        exact fun m h => by cases h
      · rw [modFile_self]
        exact fun _ => ⟨rfl, rfl⟩
      · rw [modFile_self]
        exact hx
      · rw [modFile_self]
        exact fun h => by cases h
    · exact (hs.files g).other (modFile_of_ne _ hg) (fun _ => .rfl) le_rfl
        fun m hm => ((hs.files g).own m hm).2
  active := hs.active
  fbdev := hs.fbdev
  holder hsome := by
    obtain ⟨g, hg, hmaster, hcurrent⟩ := hs.holder hsome
    have hne : g ≠ f := by
      rintro rfl
      rw [(hs.files g).closed hopen] at hmaster
      cases hmaster
    refine ⟨g, hg, ?_⟩
    rw [modFile_of_ne _ hne]
    exact ⟨hmaster, hcurrent⟩
  known := hs.known
  fresh := hs.fresh
  bug := hs.bug
  badUnlock := hs.badUnlock

theorem Inv.open {primary : Bool} {o : SetEnds} (hs : Inv s) (hopen : (s.file f).opened = false) :
    Inv (drmOpenHelper f primary o s) := by
  have hopened : Inv (modFile f (fun _ => ⟨true, primary, none, false, none, none⟩) s) :=
    hs.attach hopen fun m hm => by cases hm
  unfold drmOpenHelper drmMasterOpen
  simp only
  split_ifs with hprimary hno hfail hfail
  · obtain ⟨e, he⟩ | ⟨e, b, he⟩ | ⟨t, he, ht⟩ := drmNewSetMaster_cases (f := f) (o := o) hopened
      (Option.isNone_iff_eq_none.1 hno) (by simp) (by simp [hprimary]) (by simp)
    · rw [he]
      exact (hopened.leaving (by simp [drmIsCurrentMaster])).postclose
    · rw [he]
      have hgiven : Inv (withNew f none false
          (modFile f (fun _ => ⟨true, primary, none, false, none, none⟩) s)) :=
        inv_withNew hopened (by simp) (by simp) (fun m hm => by cases hm) fun h => by cases h
      have hleaving := hgiven.leaving (f := f) (by simp [drmIsCurrentMaster, withNew])
      have hflag := hleaving.modFile (h := fun F => { F with isMaster := b }) rfl
      have heq : modFile f (fun F => { F with isMaster := b }) (withNew f none false
          (modFile f (fun _ => ⟨true, primary, none, false, none, none⟩) s)) =
          withNew f none b (modFile f (fun _ => ⟨true, primary, none, false, none, none⟩) s) := by
        simp [withNew, modFile, setLock]
      rw [heq] at hflag
      simpa using hflag.postclose
    · rw [he] at hfail
      cases hfail
  · obtain ⟨e, he⟩ | ⟨e, b, he⟩ | ⟨t, he, ht⟩ := drmNewSetMaster_cases (f := f) (o := o) hopened
      (Option.isNone_iff_eq_none.1 hno) (by simp) (by simp [hprimary]) (by simp)
    · rw [he] at hfail
      exact absurd rfl hfail
    · rw [he] at hfail
      exact absurd rfl hfail
    · rw [he]
      exact ht
  · cases hfail
  · have hattached := hs.attach (x := s.devMaster) hopen fun m hm => ⟨hs.known m hm, hprimary⟩
    simpa [modFile] using hattached
  · exact hopened

theorem Inv.close (hs : Inv s) : Inv (drmRelease f ret s) := by
  unfold drmRelease
  split_ifs with hprimary
  · unfold drmMasterRelease
    by_cases hcurrent : drmIsCurrentMaster f s = true
    · rw [if_pos hcurrent]
      simp only [drmIsCurrentMaster, Bool.and_eq_true, decide_eq_true_eq] at hcurrent
      obtain ⟨hmaster, hown⟩ := hcurrent
      obtain ⟨m, hm⟩ := Option.isSome_iff_exists.1 ((hs.files f).master hmaster)
      have hdev : s.devMaster = some m := hown.symm.trans hm
      simp only [hdev]
      rw [drmDropMaster_eq hs hdev]
      have hdropped : Inv (dropped f m ret.isNone s) := inv_dropped hs hdev hmaster hm
      refine ((hdropped.leaving ?_).modFile rfl).postclose
      simp [drmIsCurrentMaster, dropped, hm]
    · rw [if_neg hcurrent]
      exact ((hs.leaving (Bool.eq_false_iff.2 hcurrent)).modFile rfl).postclose
  · refine (hs.leaving ?_).postclose
    by_contra hcurrent
    simp only [drmIsCurrentMaster, Bool.not_eq_false, Bool.and_eq_true] at hcurrent
    obtain ⟨m, hm⟩ := Option.isSome_iff_exists.1 ((hs.files f).master hcurrent.1)
    exact hprimary ((hs.files f).known m hm).2

theorem Inv.drop (hs : Inv s) : Inv (drmDropmasterIoctl f ret s).2 := by
  unfold drmDropmasterIoctl
  split_ifs with hcurrent
  · exact hs
  · simp only [drmIsCurrentMaster, Bool.not_eq_true, Bool.not_eq_false', Bool.and_eq_true,
      decide_eq_true_eq] at hcurrent
    obtain ⟨hmaster, hown⟩ := hcurrent
    cases hdev : s.devMaster with
    | none => exact hs
    | some m =>
      simp only
      rw [drmDropMaster_eq hs hdev]
      exact inv_dropped hs hdev hmaster (hown.trans hdev)

/-- A request for the master that was the file's before: it is only granted if the file
    has locked it. -/
theorem Inv.setAgain {o : SetEnds} (hs : Inv s) (hopen : (s.file f).opened = true) :
    (asksAgain s (.setMaster f o) → Inv (drmSetmasterIoctl f o s).2) ∧
    (¬ asksAgain s (.setMaster f o) → (drmSetmasterIoctl f o s).2.bug = true) := by
  unfold drmSetmasterIoctl asksAgain
  by_cases hdev : s.devMaster = none
  swap
  · have hsome : s.devMaster.isSome = true := Option.isSome_iff_ne_none.2 hdev
    refine ⟨fun _ => ?_, fun h => absurd (fun h' => absurd h' hdev) h⟩
    split_ifs <;> exact hs
  cases hmaster : (s.file f).isMaster with
  | false =>
    refine ⟨fun _ => ?_, fun h => absurd (fun _ h' => by simp [hmaster] at h') h⟩
    have hnot : drmIsCurrentMaster f s = false := by simp [drmIsCurrentMaster, hmaster]
    simp only [hnot, hdev, Option.isSome_none, Bool.false_eq_true, if_false]
    cases hm : (s.file f).master with
    | none => exact hs
    | some m =>
      simp only [Bool.not_false, if_true]
      obtain ⟨hlt, hprimary⟩ := (hs.files f).known m hm
      obtain ⟨e, he⟩ | ⟨e, b, he⟩ | ⟨t, he, ht⟩ :=
        drmNewSetMaster_cases (f := f) (o := o) hs hdev hopen hprimary hmaster
      · rw [he]
        exact hs
      · rw [he, hm]
        exact inv_withNew hs hopen hmaster
          (fun k hk => by cases hk; exact ⟨hlt.trans (Nat.lt_succ_self _), hprimary⟩) fun _ => rfl
      · rw [he]
        exact ht
  | true =>
    obtain ⟨m, hm⟩ := Option.isSome_iff_exists.1 ((hs.files f).master hmaster)
    have hnot : drmIsCurrentMaster f s = false := by simp [drmIsCurrentMaster, hm, hdev]
    simp only [hnot, hdev, hm, Option.isSome_none, Bool.false_eq_true, if_false, Bool.not_true,
      true_implies]
    cases hlock : o.lock with
    | some e =>
      rw [drmSetMaster_fails hs hdev]
      exact ⟨fun _ => hs, fun h => absurd (fun _ h' => by cases h') h⟩
    | none =>
      obtain ⟨hgranted, hrefused⟩ := drmSetMaster_again (f := f) (m := m) hs hdev
      have hlocked : (s.file f).lastDrop = some true ↔ (s.file f).lockedMaster = some m := by
        rw [← (hs.files f).dropped, Option.isSome_iff_exists]
        refine ⟨fun ⟨k, hk⟩ => ?_, fun h => ⟨m, h⟩⟩
        rw [hk, ← ((hs.files f).own k hk).1, hm]
      simp only [hmaster, true_implies, hlocked]
      refine ⟨fun h => ?_, hrefused⟩
      rw [hgranted h]
      refine inv_becomesMaster hs hm hmaster fun g hg => ?_
      exact hs.locked_unique h (((hs.files g).locked m).2 hg)

theorem Inv.step {a : Op} (hs : Inv s) (hok : asksAgain s a) (h : step s a = some t) : Inv t := by
  cases a with
  | «open» f primary o =>
    simp only [MasterSwitch.step, Option.ite_none_right_eq_some, Option.some.injEq,
      Bool.and_eq_true, Bool.not_eq_true'] at h
    obtain ⟨⟨-, hopen⟩, rfl⟩ := h
    exact hs.open hopen
  | setMaster f o =>
    simp only [MasterSwitch.step, Option.ite_none_right_eq_some, Option.some.injEq,
      Bool.and_eq_true] at h
    obtain ⟨⟨-, hopen⟩, rfl⟩ := h
    exact (hs.setAgain hopen).1 hok
  | dropMaster f ret =>
    simp only [MasterSwitch.step, Option.ite_none_right_eq_some, Option.some.injEq] at h
    obtain ⟨-, rfl⟩ := h
    exact hs.drop
  | close f ret =>
    simp only [MasterSwitch.step, Option.ite_none_right_eq_some, Option.some.injEq] at h
    obtain ⟨-, rfl⟩ := h
    exact hs.close

theorem asking_anyhow_bugs {a : Op} (hs : Inv s) (hnot : ¬ asksAgain s a) (h : step s a = some t) :
    t.bug = true := by
  cases a with
  | setMaster f o =>
    simp only [MasterSwitch.step, Option.ite_none_right_eq_some, Option.some.injEq,
      Bool.and_eq_true] at h
    obtain ⟨⟨-, hopen⟩, rfl⟩ := h
    exact (hs.setAgain hopen).2 hnot
  | _ => exact absurd trivial hnot

end Steps

/-- In every run in which a file that was master is granted it again only after its own drop
    of it took the lock, no `BUG_ON` fires, the fbdev master is locked exactly while another
    is active, a file names a locked master exactly while it holds the lock of its master,
    and no lock is unlocked that is not held. -/
theorem asking_runs_locked {as : List Op} (h : Runs step asksAgain init as s) :
    s.bug = false ∧
    ((s.lock .fbdev).held = true ↔ s.activeMaster ≠ some .fbdev) ∧
    (∀ f, (s.file f).lockedMaster ≠ none ↔
      ∃ m, (s.file f).master = some m ∧ (s.lock (.master m)).heldBy f) ∧
    s.badUnlock = false := by
  have hs : Inv s := h.invariant Inv inv_init fun _ _ _ hu hok hstep => hu.step hok hstep
  refine ⟨hs.bug, ?_, fun f => ?_, hs.badUnlock⟩
  · rw [hs.fbdev, hs.active]
    cases s.devMaster <;> simp
  · refine ⟨fun hne => ?_, fun ⟨m, _, hheld⟩ => ?_⟩
    · obtain ⟨m, hm⟩ := Option.ne_none_iff_exists'.1 hne
      exact ⟨m, ((hs.files f).own m hm).1, ((hs.files f).locked m).1 hm⟩
    · rw [((hs.files f).locked m).2 hheld]
      exact Option.some_ne_none m

/-- All calls inside `drm_new_set_master` succeed. -/
def granted : SetEnds := ⟨true, true, none⟩

/-- The first file leaves the master to the second for a while. -/
def switchedRun : List Op :=
  [.open 1 true granted, .open 2 true granted, .dropMaster 1 none, .setMaster 2 granted,
    .dropMaster 2 none, .setMaster 1 granted]

theorem switchedRun_locked :
    let s := (execAdmitted step asksAgain init switchedRun).getD init
    s.activeMaster = some (.master 0) ∧ (s.lock (.master 1)).heldBy 2 ∧
      (s.lock .fbdev).held = true ∧ s.bug = false := by
  intro s
  have hrun : Runs step asksAgain init switchedRun s := runs_admitted_getD (by decide)
  have hlocked := asking_runs_locked hrun
  have hactive : s.activeMaster = some (.master 0) := by decide
  exact ⟨hactive, by decide, hlocked.2.1.2 (by rw [hactive]; decide), hlocked.1⟩

/-- The lock cannot be taken when the master is dropped. -/
def failedDropRun : List Op :=
  [.open 1 true granted, .dropMaster 1 (some .enomem), .setMaster 1 granted]

theorem failedDropRun_bugs :
    ∃ s, Runs step anyLabel init failedDropRun s ∧ s.bug = true ∧ s.badUnlock = true :=
  ⟨(exec step init failedDropRun).getD init, runs_getD (by decide), by decide, by decide⟩

end Vmwgfx.MasterSwitch
