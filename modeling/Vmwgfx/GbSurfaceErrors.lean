import Vmwgfx.GbSurfaces

set_option autoImplicit false

/-!
# Errors of guest-backed surfaces

A definition that fails leaves everything as it was, up to four of its steps: the second lock, a
buffer that is too small and the two handles. A reference is counted exactly, up to a surface
without a backup buffer.
-/
namespace Vmwgfx.GbSurfaces
open ExecbufState (Errno)
open SurfaceDefs
open SurfaceDefine (VmwPrivate CreateExtReq Surface DefineEnds requestOk svga3dFlags64
  svga3dInvalidId drmVmwSurfaceFlagScanout drmVmwSurfaceFlagCreateBuffer pageSize
  vmwGbSurfaceBackup)

variable {o : GbEnds} {dev : VmwPrivate} {primary : Bool} {req : CreateExtReq} {s : Held}
  {srf : Surface} {e : Errno} {u : UserSurface} {pages : UInt64}

/-- The two ways of `vmw_user_bo_alloc` to fail are one. -/
def GbEnds.plain (o : GbEnds) : DefineEnds :=
  { o.ends with boAlloc := o.ends.boAlloc.or o.boHandle }

/-- The request passes its checks and the surface is set up. -/
def SetUp (o : GbEnds) (dev : VmwPrivate) (req : CreateExtReq) (srf : Surface) : Prop :=
  requestOk dev (svga3dFlags64 req.svga3dFlagsUpper32Bits req.svga3dFlags) req = true ∧
  SurfaceDefine.vmwSurfaceGbPrivDefine o.plain dev
    (svga3dFlags64 req.svga3dFlagsUpper32Bits req.svga3dFlags)
    (req.drmSurfaceFlags &&& drmVmwSurfaceFlagScanout != 0) req = .ok srf

/-- The steps of a definition that fail without giving back what is held. -/
inductive Leaks (o : GbEnds) (dev : VmwPrivate) (req : CreateExtReq) : Prop
  /-- The second lock is interrupted. -/
  | lock (srf : Surface) (e : Errno) (h : SetUp o dev req srf)
      (hl : o.ends.readLockAgain = some e)
  /-- The buffer of the request is too small. -/
  | small (srf : Surface) (pages : UInt64) (h : SetUp o dev req srf)
      (hl : o.ends.readLockAgain = none) (hb : req.bufferHandle ≠ svga3dInvalidId)
      (hp : o.ends.backup = .ok pages) (hs : pages * pageSize < srf.backupSize)
  /-- A new buffer gets no handle. -/
  | bufferHandle (srf : Surface) (e : Errno) (h : SetUp o dev req srf)
      (hl : o.ends.readLockAgain = none) (hb : req.bufferHandle = svga3dInvalidId)
      (hc : req.drmSurfaceFlags &&& drmVmwSurfaceFlagCreateBuffer ≠ 0)
      (ha : o.ends.boAlloc = none) (hh : o.boHandle = some e)
  /-- The surface gets no handle. -/
  | handle (srf : Surface) (e : Errno) (h : SetUp o dev req srf)
      (hl : o.ends.readLockAgain = none) (hb : vmwGbSurfaceBackup o.plain req srf = none)
      (hp : o.ends.primeObjectInit = some e)

@[simp] theorem unlock_lock (s : Held) : ttmReadUnlock (ttmReadLock s) = s := by
  cases s
  simp [ttmReadUnlock, ttmReadLock]

@[simp] theorem free_alloc (n : ℤ) (s : Held) :
    ttmMemGlobalFree n (ttmMemGlobalAlloc n s) = s := by
  cases s
  simp [ttmMemGlobalFree, ttmMemGlobalAlloc]

/-- A surface with its reference to the master has been set up. -/
def begun (o : GbEnds) (primary : Bool) (s : Held) : Held :=
  { s with
    memGlob := s.memGlob + o.userSurfaceSize
    surfaces := s.surfaces + 1
    masterRefs := if primary then s.masterRefs + 1 else s.masterRefs }

def userSurface (o : GbEnds) (primary : Bool) : UserSurface :=
  ⟨o.userSurfaceSize, primary, none, none, 1⟩

theorem vmwUserSurfaceFree_begun (o : GbEnds) (primary : Bool) (s : Held) :
    vmwUserSurfaceFree (userSurface o primary) (begun o primary s) = s := by
  cases s
  cases primary <;> simp [vmwUserSurfaceFree, userSurface, begun, ttmMemGlobalFree]

theorem vmwUserSurfaceFree_lock (u : UserSurface) (s : Held) :
    vmwUserSurfaceFree u (ttmReadLock s) = ttmReadLock (vmwUserSurfaceFree u s) := rfl

theorem dropSurface_begun (o : GbEnds) (primary : Bool) (e : Errno) (s : Held) :
    dropSurface (userSurface o primary) e (ttmReadLock (begun o primary s)) = (.error e, s) := by
  have hrelease : (vmwResourceUnreference (userSurface o primary)
      (ttmReadLock (begun o primary s))).2 =
        vmwUserSurfaceFree (userSurface o primary) (ttmReadLock (begun o primary s)) := rfl
  rw [dropSurface, hrelease, vmwUserSurfaceFree_lock, vmwUserSurfaceFree_begun, unlock_lock]

theorem privDefine_eq (o : GbEnds) (dev : VmwPrivate) (flags : UInt64) (forScanout : Bool)
    (req : CreateExtReq) (s : Held) :
    vmwSurfaceGbPrivDefine o dev flags forScanout req s =
      match SurfaceDefine.vmwSurfaceGbPrivDefine o.plain dev flags forScanout req with
      | .error e => (.error e, s)
      | .ok srf => (.ok (srf, userSurface o false), begun o false s) := by
  unfold vmwSurfaceGbPrivDefine SurfaceDefine.vmwSurfaceGbPrivDefine GbEnds.plain
  dsimp only
  split
  · rfl
  split
  · rfl
  split
  · rfl
  split
  · rfl
  cases o.ends.readLock with
  | some e => rfl
  | none =>
    cases o.ends.memGlobalAlloc with
    | some e => simp
    | none =>
      cases o.ends.kzalloc with
      | some e => simp
      | none =>
        cases o.ends.surfaceInit with
        | some e =>
          change (Except.error e, ttmReadUnlock (vmwUserSurfaceFree (userSurface o false)
            (ttmReadLock (begun o false s)))) = (Except.error e, s)
          rw [vmwUserSurfaceFree_lock, vmwUserSurfaceFree_begun, unlock_lock]
        | none =>
          change (Except.ok (gbSurface dev flags forScanout req, userSurface o false),
            ttmReadUnlock (ttmReadLock (begun o false s))) = _
          rw [unlock_lock]
          rfl

theorem define_unset (primary : Bool) (s : Held) (h : ∀ srf, ¬ SetUp o dev req srf) :
    ∃ e, vmwGbSurfaceDefineInternal o dev primary req s = (.error e, s) := by
  unfold vmwGbSurfaceDefineInternal
  dsimp only
  split
  · exact ⟨_, rfl⟩
  · rename_i hok
    rw [privDefine_eq]
    cases hset : SurfaceDefine.vmwSurfaceGbPrivDefine o.plain dev
        (svga3dFlags64 req.svga3dFlagsUpper32Bits req.svga3dFlags)
        (req.drmSurfaceFlags &&& drmVmwSurfaceFlagScanout != 0) req with
    | error e => exact ⟨e, rfl⟩
    | ok srf => exact absurd ⟨by simpa using hok, hset⟩ (h srf)

theorem define_setUp (h : SetUp o dev req srf) :
    vmwGbSurfaceDefineInternal o dev primary req s =
      match o.ends.readLockAgain with
      | some e => (.error e, begun o primary s)
      | none => backSurface o req srf (userSurface o primary)
          (ttmReadLock (begun o primary s)) := by
  have hbegun : (if primary then { begun o false s with
      masterRefs := (begun o false s).masterRefs + 1 } else begun o false s) =
        begun o primary s := by cases primary <;> rfl
  unfold vmwGbSurfaceDefineInternal
  dsimp only
  rw [h.1, privDefine_eq, h.2]
  dsimp only [Bool.not_true, Bool.false_eq_true, if_false]
  rw [hbegun]
  rfl

theorem vmwResourceRelease_fileRefs (u : UserSurface) (s : Held) :
    (vmwResourceRelease u s).fileRefs = s.fileRefs := by
  unfold vmwResourceRelease
  cases u.backup <;> rfl

theorem vmwResourceUnreference_fileRefs (u : UserSurface) (s : Held) :
    (vmwResourceUnreference u s).2.fileRefs = s.fileRefs := by
  unfold vmwResourceUnreference
  dsimp only
  split
  · exact vmwResourceRelease_fileRefs _ s
  · rfl

theorem handleSurface_fails (hp : o.ends.primeObjectInit = some e) (srf : Surface)
    (u : UserSurface) (backup : Option (UInt32 × UInt32 × UInt64)) (s : Held) :
    (handleSurface o srf u backup s).1 = .error e ∧
      (handleSurface o srf u backup s).2.fileRefs = s.fileRefs + 1 := by
  unfold handleSurface ttmBaseObjectInit
  rw [hp]
  refine ⟨rfl, ?_⟩
  change (vmwResourceUnreference _ (vmwResourceUnreference _ _).2).2.fileRefs = _
  rw [vmwResourceUnreference_fileRefs, vmwResourceUnreference_fileRefs]

theorem handleSurface_succeeds (hp : o.ends.primeObjectInit = none) (srf : Surface)
    (u : UserSurface) (backup : Option (UInt32 × UInt32 × UInt64)) (s : Held) :
    ∃ rep, (handleSurface o srf u backup s).1 = .ok rep ∧
      rep.backupSize = srf.backupSize.toUInt32 := by
  unfold handleSurface ttmBaseObjectInit
  rw [hp]
  exact ⟨_, rfl, rfl⟩

theorem backSurface_backed (hb : vmwGbSurfaceBackup o.plain req srf = none) (u : UserSurface)
    (s : Held) : ∃ v backup t, backSurface o req srf u s = handleSurface o srf v backup t ∧
      s.fileRefs ≤ t.fileRefs := by
  unfold vmwGbSurfaceBackup GbEnds.plain at hb
  unfold backSurface vmwUserBoLookup vmwUserBoAlloc
  dsimp only at hb
  split at hb
  · rename_i hhandle
    rw [if_pos hhandle]
    cases hbackup : o.ends.backup with
    | error e =>
      rw [hbackup] at hb
      cases hb
    | ok pages =>
      rw [hbackup] at hb
      dsimp only at hb ⊢
      split at hb
      · cases hb
      · rename_i hsmall
        rw [if_neg hsmall]
        exact ⟨_, _, _, rfl, le_rfl⟩
  · rename_i hhandle
    rw [if_neg hhandle]
    split at hb
    · rename_i hcreate
      rw [Option.or_eq_none_iff] at hb
      rw [if_pos hcreate, hb.1, hb.2]
      exact ⟨_, _, _, rfl, Int.le_add_one le_rfl⟩
    · rename_i hcreate
      rw [if_neg hcreate]
      exact ⟨_, _, _, rfl, le_rfl⟩

/-- Without a backup buffer the surface is freed, but for one that is too small and a new one
    without a handle. -/
theorem backSurface_unbacked (hb : vmwGbSurfaceBackup o.plain req srf = some e)
    (primary : Bool) (s : Held) :
    (backSurface o req srf (userSurface o primary) (ttmReadLock (begun o primary s))).1 =
        .error e ∧
      ((backSurface o req srf (userSurface o primary) (ttmReadLock (begun o primary s))).2 = s ∨
        (∃ pages, req.bufferHandle ≠ svga3dInvalidId ∧ o.ends.backup = .ok pages ∧
          pages * pageSize < srf.backupSize) ∨
        (req.bufferHandle = svga3dInvalidId ∧
          req.drmSurfaceFlags &&& drmVmwSurfaceFlagCreateBuffer ≠ 0 ∧ o.ends.boAlloc = none ∧
          o.boHandle = some e)) := by
  unfold vmwGbSurfaceBackup GbEnds.plain at hb
  unfold backSurface vmwUserBoLookup vmwUserBoAlloc
  dsimp only at hb
  split at hb
  · rename_i hhandle
    rw [if_pos hhandle]
    cases hbackup : o.ends.backup with
    | error e' =>
      rw [hbackup] at hb
      obtain rfl := Option.some.inj hb
      dsimp only
      rw [dropSurface_begun]
      exact ⟨rfl, .inl rfl⟩
    | ok pages =>
      rw [hbackup] at hb
      dsimp only at hb ⊢
      split at hb
      · rename_i hsmall
        obtain rfl := Option.some.inj hb
        rw [if_pos hsmall]
        exact ⟨rfl, .inr (.inl ⟨pages, hhandle, rfl, hsmall⟩)⟩
      · cases hb
  · rename_i hhandle
    rw [if_neg hhandle]
    split at hb
    · rename_i hcreate
      rw [if_pos hcreate]
      cases halloc : o.ends.boAlloc with
      | some e' =>
        rw [halloc] at hb
        obtain rfl := Option.some.inj hb
        dsimp only
        rw [dropSurface_begun]
        exact ⟨rfl, .inl rfl⟩
      | none =>
        rw [halloc, Option.none_or] at hb
        refine ⟨?_, .inr (.inr ⟨not_not.1 hhandle, hcreate, rfl, hb⟩)⟩
        unfold ttmBaseObjectInit
        rw [hb]
        rfl
    · cases hb

theorem Leaks.left (h : Leaks o dev req) (primary : Bool) (s : Held) :
    ∃ e t, vmwGbSurfaceDefineInternal o dev primary req s = (.error e, t) ∧
      (t.surfaces = s.surfaces + 1 ∨ s.fileRefs < t.fileRefs) := by
  cases h with
  | lock srf e h hl =>
    rw [define_setUp h, hl]
    exact ⟨_, _, rfl, .inl rfl⟩
  | small srf pages h hl hb hp hs =>
    rw [define_setUp h, hl]
    dsimp only
    unfold backSurface vmwUserBoLookup
    rw [if_pos hb, hp]
    dsimp only
    rw [if_pos hs]
    exact ⟨_, _, rfl, .inl rfl⟩
  | bufferHandle srf e h hl hb hc ha hh =>
    rw [define_setUp h, hl]
    dsimp only
    unfold backSurface vmwUserBoAlloc ttmBaseObjectInit
    rw [if_neg (not_not.2 hb), if_pos hc, ha, hh]
    refine ⟨_, _, rfl, .inr ?_⟩
    change _ < (vmwResourceUnreference _ _).2.fileRefs
    rw [vmwResourceUnreference_fileRefs]
    exact Int.lt_succ s.fileRefs
  | handle srf e h hl hb hp =>
    rw [define_setUp h, hl]
    dsimp only
    obtain ⟨v, backup, t, ht, hle⟩ := backSurface_backed hb (userSurface o primary)
      (ttmReadLock (begun o primary s))
    rw [ht]
    have hfails := handleSurface_fails hp srf v backup t
    refine ⟨e, _, Prod.ext hfails.1 rfl, .inr ?_⟩
    change s.fileRefs < (handleSurface o srf v backup t).2.fileRefs
    rw [hfails.2]
    exact Int.lt_add_one_of_le hle

theorem define_clean_or_leaks (hfail : (vmwGbSurfaceDefineInternal o dev primary req s).1 = .error e) :
    (vmwGbSurfaceDefineInternal o dev primary req s).2 = s ∨ Leaks o dev req := by
  by_cases hset : ∃ srf, SetUp o dev req srf
  · obtain ⟨srf, hset⟩ := hset
    rw [define_setUp hset] at hfail ⊢
    cases hl : o.ends.readLockAgain with
    | some e' => exact .inr (.lock srf e' hset hl)
    | none =>
      rw [hl] at hfail
      dsimp only at hfail ⊢
      cases hb : vmwGbSurfaceBackup o.plain req srf with
      | none =>
        cases hp : o.ends.primeObjectInit with
        | some e' => exact .inr (.handle srf e' hset hl hb hp)
        | none =>
          obtain ⟨v, backup, t, ht, -⟩ := backSurface_backed hb (userSurface o primary)
            (ttmReadLock (begun o primary s))
          obtain ⟨rep, hrep, -⟩ := handleSurface_succeeds hp srf v backup t
          rw [ht, hrep] at hfail
          cases hfail
      | some e' =>
        obtain ⟨herr, hcase⟩ := backSurface_unbacked hb primary s
        rw [herr] at hfail
        obtain rfl := Except.error.inj hfail
        rcases hcase with hsame | ⟨pages, hh, hp, hs⟩ | ⟨hh, hc, ha, hbo⟩
        · exact .inl hsame
        · exact .inr (.small srf pages hset hl hh hp hs)
        · exact .inr (.bufferHandle srf _ hset hl hh hc ha hbo)
  · left
    obtain ⟨e', he⟩ := define_unset primary s fun srf hs => hset ⟨srf, hs⟩
    rw [he]

theorem define_clean_iff (o : GbEnds) (dev : VmwPrivate) (primary : Bool) (req : CreateExtReq)
    (s : Held) :
    (∀ e, (vmwGbSurfaceDefineInternal o dev primary req s).1 = .error e →
      (vmwGbSurfaceDefineInternal o dev primary req s).2 = s) ↔ ¬ Leaks o dev req := by
  constructor
  · intro hclean hleaks
    obtain ⟨e, t, ht, hleft⟩ := hleaks.left primary s
    have hsame := hclean e (by rw [ht])
    rw [ht] at hsame
    dsimp only at hsame
    rw [hsame] at hleft
    omega
  · intro hno e hfail
    exact (define_clean_or_leaks hfail).resolve_right hno

theorem define_backupSize (o : GbEnds) (dev : VmwPrivate) (primary : Bool) (req : CreateExtReq)
    (s : Held) :
    (vmwGbSurfaceDefineInternal o dev primary req s).1.map (·.backupSize) =
      (SurfaceDefine.vmwGbSurfaceDefineInternal o.plain dev req).map (·.backupSize.toUInt32) := by
  unfold SurfaceDefine.vmwGbSurfaceDefineInternal
  dsimp only
  cases hok : requestOk dev (svga3dFlags64 req.svga3dFlagsUpper32Bits req.svga3dFlags) req with
  | false =>
    unfold vmwGbSurfaceDefineInternal
    dsimp only
    rw [hok]
    rfl
  | true =>
    cases hset : SurfaceDefine.vmwSurfaceGbPrivDefine o.plain dev
        (svga3dFlags64 req.svga3dFlagsUpper32Bits req.svga3dFlags)
        (req.drmSurfaceFlags &&& drmVmwSurfaceFlagScanout != 0) req with
    | error e =>
      unfold vmwGbSurfaceDefineInternal
      dsimp only
      rw [hok, privDefine_eq, hset]
      rfl
    | ok srf =>
      rw [define_setUp ⟨hok, hset⟩]
      have hlock : o.plain.readLockAgain = o.ends.readLockAgain := rfl
      have hprime : o.plain.primeObjectInit = o.ends.primeObjectInit := rfl
      rw [hlock, hprime]
      cases o.ends.readLockAgain with
      | some e => rfl
      | none =>
        dsimp only
        cases hb : vmwGbSurfaceBackup o.plain req srf with
        | some e =>
          rw [(backSurface_unbacked hb primary s).1]
          rfl
        | none =>
          obtain ⟨v, backup, t, ht, -⟩ := backSurface_backed hb (userSurface o primary)
            (ttmReadLock (begun o primary s))
          rw [ht]
          cases hp : o.ends.primeObjectInit with
          | some e =>
            rw [(handleSurface_fails hp srf v backup t).1]
            rfl
          | none =>
            obtain ⟨rep, hrep, hsize⟩ := handleSurface_succeeds hp srf v backup t
            rw [hrep]
            exact congrArg Except.ok hsize

variable {w : RefEnds} {arg : SurfaceArg} {t : Held} {base : BaseObject} {g : GbSurface}
  {mem : Option Errno} {object : ℕ} {handle : UInt32} {mayRef requireExisted : Bool}

def addHandle (handle : UInt32) (handles : ℕ → ℕ) : ℕ → ℕ :=
  Function.update handles handle.toNat (handles handle.toNat + 1)

/-- A usage reference can be added: the file may have one, and has one or can get one. -/
def MayAdd (mem : Option Errno) (handle : UInt32) (mayRef requireExisted : Bool) (s : Held) : Prop :=
  mayRef = true ∧ (0 < s.handles handle.toNat ∨ (requireExisted = false ∧ mem = none))

/-- The request names a surface that the caller may refer to. -/
inductive Takes (w : RefEnds) (arg : SurfaceArg) (s : Held) : BaseObject → GbSurface → Prop
  | prime (p base : BaseObject) (g : GbSurface) (hp : arg.prime = true)
      (hf : w.primeFd arg.sid = .ok p) (ha : MayAdd w.surfaceRef p.handle p.mayRef false s)
      (hl : w.lookup p.handle = some base) (hg : base.surface = some g) : Takes w arg s base g
  | own (base : BaseObject) (g : GbSurface) (hp : arg.prime = false)
      (hm : w.lockedMaster = false) (hl : w.lookup arg.sid = some base)
      (hg : base.surface = some g)
      (ha : MayAdd w.surfaceRef base.handle base.mayRef
        (w.renderClient || (w.primaryClient && !base.sameMaster)) s) : Takes w arg s base g

/-- The surface that the request names has no backup buffer. -/
def Unbacked (w : RefEnds) (arg : SurfaceArg) (s : Held) : Prop :=
  ∃ base g, Takes w arg s base g ∧ g.backup = none

/-- Zero is returned with the whole reply and one more reference to each of the two handles, an
    error with the handles as they were. -/
def Counted (w : RefEnds) (arg : SurfaceArg) (s : Held) : Prop :=
  (∀ rep, (vmwGbSurfaceReferenceInternal w arg s).1 = .ok rep →
    ∃ base g b, Takes w arg s base g ∧ g.backup = some b ∧ rep = some (refReply base g b) ∧
      (vmwGbSurfaceReferenceInternal w arg s).2.handles =
        addHandle b.handle (addHandle base.handle s.handles)) ∧
  ∀ e, (vmwGbSurfaceReferenceInternal w arg s).1 = .error e →
    (vmwGbSurfaceReferenceInternal w arg s).2.handles = s.handles

theorem refObjectAdd_ok (w : RefEnds) (object : ℕ) (h : MayAdd mem handle mayRef requireExisted s) :
    ∃ t, ttmRefObjectAdd w mem object handle mayRef requireExisted s = (none, t) ∧
      t.handles = addHandle handle s.handles := by
  unfold ttmRefObjectAdd addHandle
  rw [h.1]
  simp only [Bool.not_true, Bool.false_eq_true, if_false]
  by_cases hpos : 0 < s.handles handle.toNat
  · rw [if_pos hpos]
    exact ⟨_, rfl, rfl⟩
  · obtain ⟨hreq, hmem⟩ := h.2.resolve_left hpos
    rw [if_neg hpos, hreq, hmem, Nat.eq_zero_of_not_pos hpos]
    exact ⟨_, rfl, rfl⟩

theorem refObjectAdd_fails (w : RefEnds) (object : ℕ)
    (h : ¬ MayAdd mem handle mayRef requireExisted s) :
    ∃ e, ttmRefObjectAdd w mem object handle mayRef requireExisted s = (some e, s) := by
  unfold ttmRefObjectAdd
  unfold MayAdd at h
  cases mayRef with
  | false => exact ⟨_, rfl⟩
  | true =>
    simp only [Bool.not_true, Bool.false_eq_true, if_false]
    by_cases hpos : 0 < s.handles handle.toNat
    · exact absurd ⟨rfl, .inl hpos⟩ h
    · rw [if_neg hpos]
      cases requireExisted with
      | true => exact ⟨_, rfl⟩
      | false =>
        cases mem with
        | some e => exact ⟨_, rfl⟩
        | none => exact absurd ⟨rfl, .inr ⟨rfl, rfl⟩⟩ h

theorem refObjectBaseUnref_handles (ht : t.handles = addHandle handle s.handles) :
    (ttmRefObjectBaseUnref w object handle t).handles = s.handles := by
  have hself : t.handles handle.toNat = s.handles handle.toNat + 1 := by
    rw [ht, addHandle, Function.update_self]
  have hback : Function.update t.handles handle.toNat (t.handles handle.toNat - 1) =
      s.handles := by
    rw [hself, ht, addHandle, Function.update_idem, Nat.add_sub_cancel, Function.update_eq_self]
  unfold ttmRefObjectBaseUnref
  dsimp only
  rw [if_neg (by omega)]
  split <;> exact hback

theorem handleReference_ok (h : Takes w arg s base g) :
    ∃ t, vmwSurfaceHandleReference w arg s = (.ok (base, g), t) ∧
      t.handles = addHandle base.handle s.handles := by
  unfold vmwSurfaceHandleReference
  cases h with
  | prime p base g hp hf ha hl hg =>
    obtain ⟨t, ht, hhandles⟩ := refObjectAdd_ok w p.object ha
    rw [if_pos hp, hf]
    dsimp only
    rw [ht]
    dsimp only
    rw [hl]
    dsimp only
    rw [hg]
    refine ⟨_, rfl, ?_⟩
    rw [w.lookup_handle _ _ hl]
    exact hhandles
  | own base g hp hm hl hg ha =>
    have ha' : MayAdd w.surfaceRef base.handle base.mayRef
        (w.renderClient || (w.primaryClient && !base.sameMaster))
        (ttmBaseObjectRef base.object s) := ha
    obtain ⟨t, ht, hhandles⟩ := refObjectAdd_ok w base.object ha'
    rw [if_neg (by simp [hp]), if_neg (by simp [hm]), hl]
    dsimp only
    rw [hg]
    dsimp only
    rw [ht]
    exact ⟨t, rfl, hhandles⟩

theorem handleReference_fails (h : ∀ base g, ¬ Takes w arg s base g) :
    ∃ e t, vmwSurfaceHandleReference w arg s = (.error e, t) ∧ t.handles = s.handles := by
  unfold vmwSurfaceHandleReference
  cases hp : arg.prime with
  | true =>
    rw [if_pos rfl]
    cases hf : w.primeFd arg.sid with
    | error e => exact ⟨e, s, rfl, rfl⟩
    | ok p =>
      dsimp only
      by_cases ha : MayAdd w.surfaceRef p.handle p.mayRef false s
      · obtain ⟨t, ht, hhandles⟩ := refObjectAdd_ok w p.object ha
        rw [ht]
        dsimp only
        cases hl : w.lookup p.handle with
        | none => exact ⟨_, _, rfl, refObjectBaseUnref_handles hhandles⟩
        | some base =>
          dsimp only
          cases hg : base.surface with
          | none => exact ⟨_, _, rfl, refObjectBaseUnref_handles (t := ttmBaseObjectUnref
              base.object (ttmBaseObjectRef base.object t)) hhandles⟩
          | some g => exact absurd (.prime p base g hp hf ha hl hg) (h base g)
      · obtain ⟨e, he⟩ := refObjectAdd_fails w p.object ha
        rw [he]
        exact ⟨e, s, rfl, rfl⟩
  | false =>
    rw [if_neg (by decide)]
    cases hm : w.lockedMaster with
    | true => exact ⟨_, s, rfl, rfl⟩
    | false =>
      rw [if_neg (by decide)]
      cases hl : w.lookup arg.sid with
      | none => exact ⟨_, s, rfl, rfl⟩
      | some base =>
        dsimp only
        cases hg : base.surface with
        | none => exact ⟨_, _, rfl, rfl⟩
        | some g =>
          dsimp only
          by_cases ha : MayAdd w.surfaceRef base.handle base.mayRef
              (w.renderClient || (w.primaryClient && !base.sameMaster))
              (ttmBaseObjectRef base.object s)
          · exact absurd (.own base g hp hm hl hg ha) (h base g)
          · obtain ⟨e, he⟩ := refObjectAdd_fails w base.object ha
            rw [he]
            exact ⟨e, _, rfl, rfl⟩

theorem reference_unbacked (h : Takes w arg s base g) (hb : g.backup = none) :
    (vmwGbSurfaceReferenceInternal w arg s).1 = .ok none := by
  obtain ⟨t, ht, -⟩ := handleReference_ok h
  unfold vmwGbSurfaceReferenceInternal
  rw [ht]
  dsimp only
  rw [hb]

theorem counted_of_backed {b : Backup} (h : Takes w arg s base g) (hb : g.backup = some b) :
    Counted w arg s := by
  obtain ⟨t, ht, hhandles⟩ := handleReference_ok h
  unfold Counted vmwGbSurfaceReferenceInternal
  rw [ht]
  dsimp only
  rw [hb]
  dsimp only
  have hadd : (∃ e, vmwUserBoReference w b t = (some e, t)) ∨
      ∃ t', vmwUserBoReference w b t = (none, t') ∧
        t'.handles = addHandle b.handle t.handles := by
    unfold vmwUserBoReference
    cases b.userBo with
    | false => exact .inl ⟨_, rfl⟩
    | true =>
      rw [if_neg (by decide)]
      by_cases ha : MayAdd w.bufferRef b.handle b.mayRef false t
      · exact .inr (refObjectAdd_ok w b.object ha)
      · exact .inl (refObjectAdd_fails w b.object ha)
  rcases hadd with ⟨e, he⟩ | ⟨t', ht', hhandles'⟩
  · rw [he]
    refine ⟨fun rep hrep => (by cases hrep), fun e' _ => ?_⟩
    exact refObjectBaseUnref_handles hhandles
  · rw [ht']
    refine ⟨fun rep hrep => ?_, fun e' he' => (by cases he')⟩
    obtain rfl := Except.ok.inj hrep
    refine ⟨base, g, b, h, hb, rfl, ?_⟩
    rw [← hhandles]
    exact hhandles'

theorem counted_of_untaken (h : ∀ base g, ¬ Takes w arg s base g) : Counted w arg s := by
  obtain ⟨e, t, ht, hhandles⟩ := handleReference_fails h
  unfold Counted vmwGbSurfaceReferenceInternal
  rw [ht]
  exact ⟨fun rep hrep => (by cases hrep), fun _ _ => hhandles⟩

theorem reference_counted_iff (w : RefEnds) (arg : SurfaceArg) (s : Held) :
    Counted w arg s ↔ ¬ Unbacked w arg s := by
  constructor
  · rintro ⟨hok, -⟩ ⟨base, g, htakes, hb⟩
    obtain ⟨base', g', b, -, -, hrep, -⟩ := hok none (reference_unbacked htakes hb)
    cases hrep
  · intro hbacked
    by_cases htakes : ∃ base g, Takes w arg s base g
    · obtain ⟨base, g, htakes⟩ := htakes
      cases hb : g.backup with
      | none => exact absurd ⟨base, g, htakes, hb⟩ hbacked
      | some b => exact counted_of_backed htakes hb
    · exact counted_of_untaken fun base g h => htakes ⟨base, g, h⟩

/-- A definition that fails leaves nothing behind unless one of four steps fails, and a reference
    is counted unless the surface has no backup buffer. -/
theorem surfaces_kept_iff (o : GbEnds) (dev : VmwPrivate) (primary : Bool) (req : CreateExtReq)
    (w : RefEnds) (arg : SurfaceArg) (s : Held) :
    ((∀ e, (vmwGbSurfaceDefineInternal o dev primary req s).1 = .error e →
        (vmwGbSurfaceDefineInternal o dev primary req s).2 = s) ↔ ¬ Leaks o dev req) ∧
      (Counted w arg s ↔ ¬ Unbacked w arg s) :=
  ⟨define_clean_iff o dev primary req s, reference_counted_iff w arg s⟩

def nothingHeld : Held := ⟨0, 0, 0, 0, 0, 0, 0, 0⟩

def anyHost : VmwPrivate := ⟨true, true, 16384, 16384, false, 0, 0⟩

/-- A surface of 64 x 64 pixels with the format `SVGA3D_A8R8G8B8` and no backup buffer. -/
def smallReq : CreateExtReq := ⟨0, 2, 1, 0, 0, svga3dInvalidId, 0, ⟨64, 64, 1⟩, 0, 0, 0⟩

/-- A signal arrives while the second lock is waited for. -/
def interrupted : GbEnds :=
  { ends := ⟨none, none, none, none, some .erestartsys, .ok 0, none, none⟩
    boHandle := none
    buffer := 0
    newBuffer := 1
    newBufferHandle := 1
    newSurface := 2
    newSurfaceHandle := 2
    userSurfaceSize := 1024
    refObjectSize := 64
    boAccSize := 512
    mapHandle := fun _ => 0 }

def smallSurface : GbSurface := ⟨⟨0, 2, false, 1, ⟨64, 64, 1⟩, 0, 0, 0, 0, 16384⟩, 0, none⟩

def sharedFile : RefEnds :=
  { primeFd := fun _ => .error .einval
    lookup := fun h => some ⟨h.toNat, h, true, true, some smallSurface⟩
    lookup_handle := fun _ _ h => by
      obtain rfl := Option.some.inj h
      rfl
    primaryClient := true
    renderClient := false
    lockedMaster := false
    surfaceRef := none
    bufferRef := none
    refObjectSize := 64 }

/-- The definition returns an error and leaves the surface; the reference returns zero without
    a reply. -/
theorem interrupted_leaks :
    (vmwGbSurfaceDefineInternal interrupted anyHost true smallReq nothingHeld).1 =
      .error .erestartsys ∧
    (vmwGbSurfaceDefineInternal interrupted anyHost true smallReq nothingHeld).2.surfaces = 1 ∧
    (vmwGbSurfaceDefineInternal interrupted anyHost true smallReq nothingHeld).2.masterRefs = 1 ∧
    (vmwGbSurfaceDefineInternal interrupted anyHost true smallReq nothingHeld).2.memGlob = 1024 ∧
    ¬ (∀ e, (vmwGbSurfaceDefineInternal interrupted anyHost true smallReq nothingHeld).1 =
        .error e →
      (vmwGbSurfaceDefineInternal interrupted anyHost true smallReq nothingHeld).2 =
        nothingHeld) ∧
    (vmwGbSurfaceReferenceInternal sharedFile ⟨2, false⟩ nothingHeld).1 = .ok none ∧
    ¬ Counted sharedFile ⟨2, false⟩ nothingHeld := by
  refine ⟨rfl, rfl, rfl, rfl, ?_, rfl, ?_⟩
  · intro h
    have hsame := congrArg Held.surfaces (h .erestartsys rfl)
    exact absurd hsame (by decide)
  · rintro ⟨hok, -⟩
    obtain ⟨base, g, b, -, -, hrep, -⟩ := hok none rfl
    cases hrep

end Vmwgfx.GbSurfaces
