import Vmwgfx.FbdevFlush
import Vmwgfx.PrefixRuns
import Vmwgfx.SurfaceSizes

set_option autoImplicit false

/-!
# Modes of the fbdev framebuffer

`vmw_fb_set_par` with the framebuffer that it makes and the detaching of the old one, over any
sequence of calls that ends with `vmw_fb_close`. Modes and buffers have numbers, and every call
to `drm_mode_destroy` is counted.
-/
namespace Vmwgfx.FbdevModes
open ExecbufState (Errno)
open FbdevFlush (VmwPrivate FbVar vmwFbCheckVar vmwKmsValidateModeVram checkVar_checked)
open PrefixRuns
open SurfaceSizes (product_toNat)

/-- What of `struct drm_display_mode` the configuration decides; the timing is guessed from it. -/
structure DisplayMode where
  hdisplay : UInt32
  vdisplay : UInt32
  deriving DecidableEq

structure KmsFb where
  width : UInt32
  height : UInt32
  format : UInt32
  pitch : UInt32
  bo : Option ℕ

/-- `struct vmw_fb_par`. Modes and buffers are numbered as they are allocated, up to `modes` and
    `bos`. -/
structure Par where
  setMode : Option ℕ
  setFb : Option KmsFb
  vmwBo : Option ℕ
  boSize : UInt32
  modes : ℕ
  dims : ℕ → DisplayMode
  destroyed : ℕ → ℕ
  bos : ℕ

/-- What the calls of `vmw_fb_set_par` return. -/
structure SetParEnds where
  modeDuplicate : Bool
  detachConfig : Option Errno
  createBo : Option Errno
  newFramebuffer : Option Errno
  setConfig : Option Errno

def drmFormatArgb8888 : UInt32 := 0x34325241
def drmFormatXrgb8888 : UInt32 := 0x34325258

def drmModeDuplicate (mode : DisplayMode) (s : Par) : Par :=
  { s with modes := s.modes + 1, dims := Function.update s.dims s.modes mode }

def drmModeDestroy (m : ℕ) (s : Par) : Par :=
  { s with destroyed := Function.update s.destroyed m (s.destroyed m + 1) }

def vmwFbComputeDepth (var : FbVar) : Except Errno ℕ :=
  if var.bitsPerPixel = 32 then .ok (if 0 < var.transp.length then 32 else 24) else .error .einval

/-- `drm_mode_legacy_fb_format` for 32 bits. -/
def legacyFormat (depth : ℕ) : UInt32 := if depth = 32 then drmFormatArgb8888 else drmFormatXrgb8888

/-- `DIV_ROUND_UP(var->bits_per_pixel, 8)`. -/
def bytesPp (var : FbVar) : UInt32 := (var.bitsPerPixel + 7) / 8

/-- `mode_cmd`, with the buffer. -/
def modeCmd (var : FbVar) (depth : ℕ) (bo : Option ℕ) : KmsFb :=
  ⟨var.xres, var.yres, legacyFormat depth, bytesPp var * var.xres, bo⟩

def keepsFb (cmd : KmsFb) (s : Par) : Bool :=
  s.setFb.any fun fb => fb.width == cmd.width && fb.height == cmd.height &&
    fb.format == cmd.format && fb.pitch == cmd.pitch

/-- `vmw_fb_kms_detach` after the mode. -/
def detachFb (detachBo unrefBo : Bool) (s : Par) : Par :=
  { s with
    setFb := none
    vmwBo := if detachBo && unrefBo then none else s.vmwBo }

def vmwFbKmsDetach (config : Option Errno) (detachBo unrefBo : Bool) (s : Par) :
    Option Errno × Par :=
  match s.setMode with
  | none => (none, detachFb detachBo unrefBo s)
  | some m =>
    match config with
    | some e => (some e, s)
    | none => (none, detachFb detachBo unrefBo { drmModeDestroy m s with setMode := none })

/-- A buffer is created when there is none; `bo_size` is an `unsigned`. -/
def needBo (ends : SetParEnds) (newBoSize : UInt64) (s : Par) : Option Errno × Par :=
  if s.vmwBo.isSome then (none, s)
  else
    match ends.createBo with
    | some e => (some e, s)
    | none =>
      (none, { s with vmwBo := some s.bos, bos := s.bos + 1, boSize := newBoSize.toUInt32 })

/-- What follows the detaching: a buffer, and a framebuffer over it. -/
def refit (ends : SetParEnds) (var : FbVar) (depth : ℕ) (newBoSize : UInt64) (s : Par) :
    Option Errno × Par :=
  match needBo ends newBoSize s with
  | (some e, s) => (some e, s)
  | (none, s) =>
    match ends.newFramebuffer with
    | some e => (some e, s)
    | none => (none, { s with setFb := some (modeCmd var depth s.vmwBo) })

def vmwFbKmsFramebuffer (ends : SetParEnds) (var : FbVar) (s : Par) : Option Errno × Par :=
  match vmwFbComputeDepth var with
  | .error e => (some e, s)
  | .ok depth =>
    let cmd := modeCmd var depth none
    if keepsFb cmd s then (none, s)
    else
      let newBoSize := cmd.pitch.toUInt64 * cmd.height.toUInt64
      let other := s.boSize.toUInt64 < newBoSize || 2 * newBoSize < s.boSize.toUInt64
      match vmwFbKmsDetach ends.detachConfig other true s with
      | (some e, s) => (some e, s)
      | (none, s) => refit ends var depth newBoSize s

/-- The label `out_unlock`. -/
def outUnlock (mode oldMode : Option ℕ) (s : Par) : Par :=
  { oldMode.elim s (drmModeDestroy · s) with setMode := mode }

/-- `vmw_fb_set_par` from the lock on. -/
def attach (ends : SetParEnds) (var : FbVar) (mode oldMode : Option ℕ) (s : Par) :
    Option Errno × Par :=
  match vmwFbKmsFramebuffer ends var s with
  | (some e, s) => (some e, outUnlock mode oldMode s)
  | (none, s) => (ends.setConfig, outUnlock mode oldMode s)

def vmwFbSetPar (dev : VmwPrivate) (ends : SetParEnds) (var : FbVar) (s : Par) :
    Option Errno × Par :=
  if ends.modeDuplicate then
    let oldMode := s.setMode
    let new : DisplayMode := ⟨var.xres, var.yres⟩
    let mode := s.modes
    let s := drmModeDuplicate new s
    if oldMode.any fun old => s.dims old == new then
      attach ends var oldMode none (drmModeDestroy mode s)
    else if vmwKmsValidateModeVram dev (new.hdisplay * bytesPp var) new.vdisplay then
      attach ends var (some mode) oldMode s
    else (some .einval, drmModeDestroy mode s)
  else (some .enomem, s)

def vmwFbClose (config : Option Errno) (s : Par) : Par := (vmwFbKmsDetach config true true s).2

/-- A configuration that is asked for, and what happens inside when it is applied. -/
structure Call where
  var : FbVar
  ends : SetParEnds

/-- The configuration is checked, and applied when it is accepted. -/
def step (dev : VmwPrivate) (s : Par) (c : Call) : Par :=
  match vmwFbCheckVar dev c.var with
  | .error _ => s
  | .ok var => (vmwFbSetPar dev c.ends var s).2

/-- `par` as `vmw_fb_init` leaves it. -/
def start : Par := ⟨none, none, none, 0, 0, fun _ => ⟨0, 0⟩, fun _ => 0, 0⟩

/-- A framebuffer has the buffer of `par`, which is large enough. -/
def Backed (s : Par) : Prop :=
  ∀ fb, s.setFb = some fb → s.vmwBo.isSome = true ∧ fb.bo = s.vmwBo ∧
    fb.pitch.toNat * fb.height.toNat ≤ s.boSize.toNat

/-- The mode that is set is live, none is destroyed twice, and a framebuffer has its buffer. -/
structure StateGood (s : Par) : Prop where
  live : ∀ m, s.setMode = some m → m < s.modes ∧ s.destroyed m = 0
  once : ∀ m, s.destroyed m ≤ 1
  backed : Backed s

def AllDestroyed (s : Par) : Prop := ∀ m < s.modes, s.destroyed m = 1

/-- Applying a configuration gets to detach a mode that is set: a mode is allocated, it is the
    old one or fits, the framebuffer is another one, and the mode can be unset. -/
structure Detaches (dev : VmwPrivate) (ends : SetParEnds) (var : FbVar) (s : Par) : Prop where
  set : s.setMode.isSome = true
  duplicated : ends.modeDuplicate = true
  fits : (s.setMode.any fun old => s.dims old == ⟨var.xres, var.yres⟩) = true ∨
    vmwKmsValidateModeVram dev (var.xres * bytesPp var) var.yres = true
  replaced : ∀ depth, vmwFbComputeDepth var = .ok depth →
    keepsFb (modeCmd var depth none) s = false
  unset : ends.detachConfig = none

def CallMeets (dev : VmwPrivate) (s : Par) (c : Call) : Prop :=
  ∀ var, vmwFbCheckVar dev c.var = .ok var → ¬Detaches dev c.ends var s

def CloseMeets (config : Option Errno) (s : Par) : Prop := s.setMode = none ∨ config = none

section Framebuffer
variable {dev : VmwPrivate} {ends : SetParEnds} {var : FbVar} {s t : Par} {depth : ℕ} {m : ℕ}

structure SameModes (s t : Par) : Prop where
  setMode : t.setMode = s.setMode
  modes : t.modes = s.modes
  dims : t.dims = s.dims
  destroyed : t.destroyed = s.destroyed

theorem SameModes.refl (s : Par) : SameModes s s := ⟨rfl, rfl, rfl, rfl⟩

theorem SameModes.trans {u : Par} (h : SameModes s t) (h' : SameModes t u) : SameModes s u :=
  ⟨h'.setMode.trans h.setMode, h'.modes.trans h.modes, h'.dims.trans h.dims,
    h'.destroyed.trans h.destroyed⟩

variable (ends s) in
theorem needBo_same (newBoSize : UInt64) : SameModes s (needBo ends newBoSize s).2 ∧
    (needBo ends newBoSize s).2.setFb = s.setFb := by
  unfold needBo
  split_ifs
  · exact ⟨.refl s, rfl⟩
  · cases ends.createBo with
    | some e => exact ⟨.refl s, rfl⟩
    | none => exact ⟨⟨rfl, rfl, rfl, rfl⟩, rfl⟩

variable (ends) in
theorem needBo_size {newBoSize : UInt64} (hnew : newBoSize.toNat < 2 ^ 32)
    (hold : s.vmwBo.isSome = true → newBoSize.toNat ≤ s.boSize.toNat)
    (h : (needBo ends newBoSize s).1 = none) :
    (needBo ends newBoSize s).2.vmwBo.isSome = true ∧
      newBoSize.toNat ≤ (needBo ends newBoSize s).2.boSize.toNat := by
  unfold needBo at h ⊢
  by_cases hbo : s.vmwBo.isSome = true
  · rw [if_pos hbo]
    exact ⟨hbo, hold hbo⟩
  · rw [if_neg hbo] at h ⊢
    cases hc : ends.createBo with
    | some e =>
      rw [hc] at h
      cases h
    | none =>
      refine ⟨rfl, ?_⟩
      change newBoSize.toNat ≤ newBoSize.toUInt32.toNat
      rw [UInt64.toNat_toUInt32, Nat.mod_eq_of_lt hnew]

theorem refit_same (newBoSize : UInt64) : SameModes s (refit ends var depth newBoSize s).2 := by
  have hneed := (needBo_same ends s newBoSize).1
  unfold refit
  rcases hn : needBo ends newBoSize s with ⟨_ | e, u⟩
  · rw [hn] at hneed
    cases ends.newFramebuffer with
    | some e => exact hneed
    | none => exact ⟨hneed.setMode, hneed.modes, hneed.dims, hneed.destroyed⟩
  · rw [hn] at hneed
    exact hneed

theorem refit_backed {newBoSize : UInt64} (hnew : newBoSize.toNat < 2 ^ 32)
    (hsize : newBoSize.toNat = (bytesPp var * var.xres).toNat * var.yres.toNat)
    (hfb : s.setFb = none) (hold : s.vmwBo.isSome = true → newBoSize.toNat ≤ s.boSize.toNat) :
    Backed (refit ends var depth newBoSize s).2 := by
  have hsame := (needBo_same ends s newBoSize).2
  have hbo := needBo_size ends hnew hold
  have hempty : ∀ u : Par, u.setFb = none → Backed u := by
    intro u hu fb hf
    rw [hu] at hf
    cases hf
  unfold refit
  rcases hn : needBo ends newBoSize s with ⟨_ | e, u⟩
  · rw [hn] at hsame hbo
    obtain ⟨hsome, hle⟩ := hbo rfl
    cases ends.newFramebuffer with
    | some e => exact hempty u (hsame.trans hfb)
    | none =>
      intro fb hf
      cases hf
      exact ⟨hsome, rfl, hsize ▸ hle⟩
  · rw [hn] at hsame
    exact hempty u (hsame.trans hfb)

theorem detach_cases {r : Option Errno} {config : Option Errno} {detachBo : Bool}
    (h : vmwFbKmsDetach config detachBo true s = (r, t)) :
    (r = none ∧ s.setMode = none ∧ t = detachFb detachBo true s) ∨
    (r ≠ none ∧ config ≠ none ∧ t = s) ∨
    (r = none ∧ config = none ∧ ∃ m, s.setMode = some m ∧
      t = detachFb detachBo true { drmModeDestroy m s with setMode := none }) := by
  unfold vmwFbKmsDetach at h
  cases hm : s.setMode with
  | none =>
    rw [hm] at h
    cases h
    exact .inl ⟨rfl, rfl, rfl⟩
  | some m =>
    rw [hm] at h
    cases hc : config with
    | some e =>
      rw [hc] at h
      cases h
      exact .inr (.inl ⟨by simp, by simp, rfl⟩)
    | none =>
      rw [hc] at h
      cases h
      exact .inr (.inr ⟨rfl, rfl, m, rfl, rfl⟩)

theorem detach_same (config : Option Errno) (detachBo : Bool)
    (h : s.setMode = none ∨ config ≠ none) :
    SameModes s (vmwFbKmsDetach config detachBo true s).2 := by
  obtain ⟨-, -, ht⟩ | ⟨-, -, ht⟩ | ⟨-, hc, m, hm, -⟩ :=
    detach_cases (Prod.mk.eta (p := vmwFbKmsDetach config detachBo true s)).symm
  · rw [ht]
    exact ⟨rfl, rfl, rfl, rfl⟩
  · rw [ht]
    exact .refl s
  · obtain h | h := h
    · rw [hm] at h
      cases h
    · exact absurd hc h

theorem detach_some {e : Errno} {config : Option Errno} {detachBo : Bool}
    (h : vmwFbKmsDetach config detachBo true s = (some e, t)) : t = s := by
  obtain ⟨hr, -⟩ | ⟨-, -, ht⟩ | ⟨hr, -⟩ := detach_cases h
  · cases hr
  · exact ht
  · cases hr

theorem detach_none {config : Option Errno} {detachBo : Bool}
    (h : vmwFbKmsDetach config detachBo true s = (none, t)) :
    t.setFb = none ∧ t.boSize = s.boSize ∧
      t.vmwBo = if detachBo then none else s.vmwBo := by
  obtain ⟨-, -, rfl⟩ | ⟨hr, -⟩ | ⟨-, -, m, -, rfl⟩ := detach_cases h
  · exact ⟨rfl, rfl, by simp [detachFb]⟩
  · exact absurd rfl hr
  · exact ⟨rfl, rfl, by simp [detachFb, drmModeDestroy]⟩

variable (ends) in
theorem kmsFramebuffer_backed (hb : Backed s)
    (hsize : (bytesPp var * var.xres).toNat * var.yres.toNat < 2 ^ 32) :
    Backed (vmwFbKmsFramebuffer ends var s).2 := by
  unfold vmwFbKmsFramebuffer
  cases hd : vmwFbComputeDepth var with
  | error e => exact hb
  | ok depth =>
    dsimp only
    by_cases hk : keepsFb (modeCmd var depth none) s = true
    · rw [if_pos hk]
      exact hb
    rw [if_neg hk]
    generalize hother : (_ || _ : Bool) = other
    have hnew := product_toNat (bytesPp var * var.xres) var.yres
    rcases hdet : vmwFbKmsDetach ends.detachConfig other true s with ⟨_ | e, t⟩
    · obtain ⟨hfb, hbs, hbo⟩ := detach_none hdet
      refine refit_backed (by rw [modeCmd, hnew]; exact hsize) hnew hfb fun hsome => ?_
      -- the buffer was kept because of its size
      have hkept : other = false := by
        by_contra hne
        rw [Bool.eq_true_of_not_eq_false hne] at hbo
        rw [hbo] at hsome
        cases hsome
      rw [hkept, Bool.or_eq_false_iff, decide_eq_false_iff_not, UInt64.not_lt,
        UInt64.le_iff_toNat_le] at hother
      rw [hbs]
      exact hother.1
    · obtain rfl := detach_some hdet
      exact hb

theorem kmsFramebuffer_same (h : s.setMode = none ∨ ends.detachConfig ≠ none ∨
    ∃ depth, vmwFbComputeDepth var = .ok depth ∧ keepsFb (modeCmd var depth none) s = true) :
    SameModes s (vmwFbKmsFramebuffer ends var s).2 := by
  unfold vmwFbKmsFramebuffer
  cases hd : vmwFbComputeDepth var with
  | error e => exact .refl s
  | ok depth =>
    dsimp only
    by_cases hk : keepsFb (modeCmd var depth none) s = true
    · rw [if_pos hk]
      exact .refl s
    rw [if_neg hk]
    have hnot : s.setMode = none ∨ ends.detachConfig ≠ none := by
      obtain h | h | ⟨depth', hd', hk'⟩ := h
      · exact .inl h
      · exact .inr h
      · rw [hd] at hd'
        cases hd'
        exact absurd hk' hk
    generalize (_ || _ : Bool) = other
    have hsame := detach_same ends.detachConfig other hnot
    rcases hdet : vmwFbKmsDetach ends.detachConfig other true s with ⟨_ | e, t⟩
    · rw [hdet] at hsame
      exact hsame.trans (refit_same _)
    · obtain rfl := detach_some hdet
      exact .refl t

theorem kmsFramebuffer_destroys (hm : s.setMode = some m) (hc : ends.detachConfig = none)
    (hd : vmwFbComputeDepth var = .ok depth) (hk : keepsFb (modeCmd var depth none) s = false) :
    (vmwFbKmsFramebuffer ends var s).2.destroyed =
      Function.update s.destroyed m (s.destroyed m + 1) := by
  simp only [vmwFbKmsFramebuffer, hd, hk, Bool.false_eq_true, if_false, vmwFbKmsDetach, hm, hc]
  rw [(refit_same _).destroyed]
  rfl

end Framebuffer

/-- The mode that is set is one that fits, and exactly the others are destroyed, once. -/
structure Inv (dev : VmwPrivate) (s : Par) : Prop where
  set : ∀ m, s.setMode = some m → m < s.modes ∧
    vmwKmsValidateModeVram dev ((s.dims m).hdisplay * 4) (s.dims m).vdisplay = true
  counts : ∀ m, s.destroyed m = if m < s.modes ∧ s.setMode ≠ some m then 1 else 0
  backed : Backed s

section Steps
variable {dev : VmwPrivate} {ends : SetParEnds} {var : FbVar} {s t : Par} {m : ℕ}
  {mode : DisplayMode}

theorem Inv.good (h : Inv dev s) : StateGood s where
  live m hm := by
    refine ⟨(h.set m hm).1, ?_⟩
    rw [h.counts m, if_neg (fun hn => hn.2 hm)]
  once m := by
    rw [h.counts m]
    split_ifs <;> omega
  backed := h.backed

theorem inv_start (dev : VmwPrivate) : Inv dev start where
  set m hm := by cases hm
  counts m := by simp [start]
  backed fb hf := by cases hf

theorem Inv.same (h : Inv dev s) (hs : SameModes s t) (hb : Backed t) : Inv dev t where
  set m hm := by
    rw [hs.setMode] at hm
    rw [hs.modes, hs.dims]
    exact h.set m hm
  counts m := by
    rw [hs.destroyed, hs.modes, hs.setMode]
    exact h.counts m
  backed := hb

theorem Inv.discard (h : Inv dev s) (mode : DisplayMode) :
    Inv dev (drmModeDestroy s.modes (drmModeDuplicate mode s)) where
  set m hm := by
    have hset := h.set m hm
    have hne : m ≠ s.modes := by omega
    change m < s.modes + 1 ∧ vmwKmsValidateModeVram dev
      ((Function.update s.dims s.modes mode m).hdisplay * 4)
      (Function.update s.dims s.modes mode m).vdisplay = true
    rw [Function.update_of_ne hne]
    exact ⟨by omega, hset.2⟩
  counts m := by
    have hfresh : s.setMode ≠ some s.modes := fun hm => absurd (h.set _ hm).1 (lt_irrefl _)
    have hcount := h.counts m
    change Function.update s.destroyed s.modes (s.destroyed s.modes + 1) m =
      if m < s.modes + 1 ∧ s.setMode ≠ some m then 1 else 0
    by_cases hm : m = s.modes
    · subst hm
      have hzero : s.destroyed s.modes = 0 := by rw [hcount, if_neg (fun hn => by omega)]
      rw [Function.update_self, hzero, if_pos ⟨by omega, hfresh⟩]
    · rw [Function.update_of_ne hm, hcount]
      exact if_congr (and_congr_left' (by omega)) rfl rfl
  backed := h.backed

theorem Inv.exchange (h : Inv dev s) (hs : SameModes (drmModeDuplicate mode s) t)
    (hb : Backed t) (hfit : vmwKmsValidateModeVram dev (mode.hdisplay * 4) mode.vdisplay = true) :
    Inv dev (outUnlock (some s.modes) s.setMode t) where
  set m hm := by
    cases hm
    have hmodes : (outUnlock (some s.modes) s.setMode t).modes = s.modes + 1 := by
      unfold outUnlock
      cases s.setMode <;> exact hs.modes
    have hdims : (outUnlock (some s.modes) s.setMode t).dims =
        Function.update s.dims s.modes mode := by
      unfold outUnlock
      cases s.setMode <;> exact hs.dims
    rw [hmodes, hdims, Function.update_self]
    exact ⟨Nat.lt_succ_self _, hfit⟩
  counts m := by
    have hcount := h.counts m
    have hset := h.set
    have hgone : (m < s.modes + 1 ∧ some s.modes ≠ some m) ↔ m < s.modes := by
      rw [ne_eq, Option.some.injEq]
      omega
    unfold outUnlock
    cases hold : s.setMode with
    | none =>
      rw [hold] at hcount
      change t.destroyed m = if m < t.modes ∧ some s.modes ≠ some m then 1 else 0
      rw [hs.destroyed, hs.modes]
      change s.destroyed m = if m < s.modes + 1 ∧ some s.modes ≠ some m then 1 else 0
      rw [hcount]
      exact if_congr (by rw [hgone]; simp) rfl rfl
    | some o =>
      rw [hold] at hcount
      change Function.update t.destroyed o (t.destroyed o + 1) m =
        if m < t.modes ∧ some s.modes ≠ some m then 1 else 0
      rw [hs.destroyed, hs.modes]
      change Function.update s.destroyed o (s.destroyed o + 1) m =
        if m < s.modes + 1 ∧ some s.modes ≠ some m then 1 else 0
      by_cases hm : m = o
      · subst hm
        have hlt := (hset m hold).1
        rw [Function.update_self, hcount, if_neg (fun hn => hn.2 rfl), if_pos (hgone.2 hlt)]
      · rw [Function.update_of_ne hm, hcount]
        refine if_congr ?_ rfl rfl
        rw [hgone, ne_eq, Option.some.injEq]
        exact and_iff_left (Ne.symm hm)
  backed := by
    unfold outUnlock
    cases s.setMode <;> exact hb

theorem bytesPp_eq (h : var.bitsPerPixel = 32) : bytesPp var = 4 := by
  rw [bytesPp, h]
  decide

theorem depth_eq (h : var.bitsPerPixel = 32) :
    vmwFbComputeDepth var = .ok (if 0 < var.transp.length then 32 else 24) := by
  rw [vmwFbComputeDepth, if_pos h]

theorem validate_size {pitch height : UInt32}
    (h : vmwKmsValidateModeVram dev pitch height = true) :
    pitch.toNat * height.toNat < 2 ^ 32 := by
  rw [vmwKmsValidateModeVram, decide_eq_true_eq, UInt64.lt_iff_toNat_lt, product_toNat] at h
  have hm := dev.memory.toNat_lt
  rw [UInt32.toNat_toUInt64] at h
  omega

theorem attach_eq (mode oldMode : Option ℕ) : (attach ends var mode oldMode s).2 =
    outUnlock mode oldMode (vmwFbKmsFramebuffer ends var s).2 := by
  unfold attach
  rcases vmwFbKmsFramebuffer ends var s with ⟨_ | e, t⟩ <;> rfl

def equalsOld (var : FbVar) (s : Par) : Bool :=
  s.setMode.any fun old => s.dims old == ⟨var.xres, var.yres⟩

theorem Inv.equals_duplicate (h : Inv dev s) :
    (s.setMode.any fun old =>
      (drmModeDuplicate ⟨var.xres, var.yres⟩ s).dims old == ⟨var.xres, var.yres⟩) =
        equalsOld var s := by
  unfold equalsOld
  cases hm : s.setMode with
  | none => rfl
  | some m =>
    have hne : m ≠ s.modes := ((h.set m hm).1).ne
    change (Function.update s.dims s.modes _ m == _) = (s.dims m == _)
    rw [Function.update_of_ne hne]

theorem setPar_equal (h : Inv dev s) (hd : ends.modeDuplicate = true)
    (he : equalsOld var s = true) : (vmwFbSetPar dev ends var s).2 =
      outUnlock s.setMode none (vmwFbKmsFramebuffer ends var
        (drmModeDestroy s.modes (drmModeDuplicate ⟨var.xres, var.yres⟩ s))).2 := by
  unfold vmwFbSetPar
  dsimp only
  rw [if_pos hd, h.equals_duplicate, if_pos he]
  exact attach_eq _ _

theorem setPar_other (h : Inv dev s) (hd : ends.modeDuplicate = true)
    (he : equalsOld var s = false)
    (hv : vmwKmsValidateModeVram dev (var.xres * bytesPp var) var.yres = true) :
    (vmwFbSetPar dev ends var s).2 = outUnlock (some s.modes) s.setMode
      (vmwFbKmsFramebuffer ends var (drmModeDuplicate ⟨var.xres, var.yres⟩ s)).2 := by
  unfold vmwFbSetPar
  dsimp only
  rw [if_pos hd, h.equals_duplicate, he, if_neg Bool.false_ne_true, if_pos hv]
  exact attach_eq _ _

theorem setPar_refused (h : Inv dev s) (hd : ends.modeDuplicate = true)
    (he : equalsOld var s = false)
    (hv : vmwKmsValidateModeVram dev (var.xres * bytesPp var) var.yres = false) :
    (vmwFbSetPar dev ends var s).2 =
      drmModeDestroy s.modes (drmModeDuplicate ⟨var.xres, var.yres⟩ s) := by
  unfold vmwFbSetPar
  dsimp only
  rw [if_pos hd, h.equals_duplicate, he, if_neg Bool.false_ne_true, hv,
    if_neg Bool.false_ne_true]

theorem Inv.equal_size (h : Inv dev s) (hbpp : var.bitsPerPixel = 32)
    (he : equalsOld var s = true) :
    (bytesPp var * var.xres).toNat * var.yres.toNat < 2 ^ 32 := by
  unfold equalsOld at he
  cases hm : s.setMode with
  | none =>
    rw [hm] at he
    cases he
  | some m =>
    rw [hm] at he
    have heq : s.dims m = ⟨var.xres, var.yres⟩ := eq_of_beq he
    have hfit := (h.set m hm).2
    rw [heq] at hfit
    rw [bytesPp_eq hbpp, UInt32.mul_comm]
    exact validate_size hfit

theorem Inv.setPar (h : Inv dev s) (hbpp : var.bitsPerPixel = 32)
    (hmeets : ¬Detaches dev ends var s) : Inv dev (vmwFbSetPar dev ends var s).2 := by
  have hdepth := depth_eq hbpp
  by_cases hd : ends.modeDuplicate = true
  swap
  · rw [vmwFbSetPar, if_neg hd]
    exact h
  -- the framebuffer is left alone, or there is no mode that goes with it
  have hleft : (equalsOld var s = true ∨
      vmwKmsValidateModeVram dev (var.xres * bytesPp var) var.yres = true) →
      s.setMode = none ∨ ends.detachConfig ≠ none ∨
        ∃ depth, vmwFbComputeDepth var = .ok depth ∧
          keepsFb (modeCmd var depth none) s = true := by
    intro hfits
    by_contra hnot
    simp only [not_or, not_exists, not_and, not_not] at hnot
    exact hmeets ⟨Option.isSome_iff_ne_none.2 hnot.1, hd, hfits,
      fun depth hdep => Bool.eq_false_of_not_eq_true (hnot.2.2 depth hdep), hnot.2.1⟩
  cases he : equalsOld var s with
  | true =>
    have hdiscard := h.discard ⟨var.xres, var.yres⟩
    have hsame := kmsFramebuffer_same (s := drmModeDestroy s.modes
      (drmModeDuplicate ⟨var.xres, var.yres⟩ s)) (hleft (.inl he))
    have hb := kmsFramebuffer_backed ends hdiscard.backed (h.equal_size hbpp he)
    rw [setPar_equal h hd he]
    exact hdiscard.same ⟨rfl, hsame.modes, hsame.dims, hsame.destroyed⟩ hb
  | false =>
    cases hv : vmwKmsValidateModeVram dev (var.xres * bytesPp var) var.yres with
    | false =>
      rw [setPar_refused h hd he hv]
      exact h.discard _
    | true =>
      have hsame := kmsFramebuffer_same (s := drmModeDuplicate ⟨var.xres, var.yres⟩ s)
        (hleft (.inr hv))
      have hsize : (bytesPp var * var.xres).toNat * var.yres.toNat < 2 ^ 32 := by
        rw [UInt32.mul_comm]
        exact validate_size hv
      have hb := kmsFramebuffer_backed ends (s := drmModeDuplicate ⟨var.xres, var.yres⟩ s)
        h.backed hsize
      rw [setPar_other h hd he hv]
      refine h.exchange hsame hb ?_
      rw [bytesPp_eq hbpp] at hv
      exact hv

theorem Inv.shows (h : Inv dev s) (hbpp : var.bitsPerPixel = 32)
    (hgood : StateGood (vmwFbSetPar dev ends var s).2) : ¬Detaches dev ends var s := by
  intro hdet
  obtain ⟨m, hm⟩ := Option.isSome_iff_exists.1 hdet.set
  have hdepth := depth_eq hbpp
  have hkeep := hdet.replaced _ hdepth
  cases he : equalsOld var s with
  | true =>
    have hdestroyed := kmsFramebuffer_destroys (s := drmModeDestroy s.modes
      (drmModeDuplicate ⟨var.xres, var.yres⟩ s)) hm hdet.unset hdepth hkeep
    rw [setPar_equal h hdet.duplicated he, hm] at hgood
    have hlive := (hgood.live m rfl).2
    change (vmwFbKmsFramebuffer ends var _).2.destroyed m = 0 at hlive
    rw [hdestroyed, Function.update_self] at hlive
    omega
  | false =>
    have hv : vmwKmsValidateModeVram dev (var.xres * bytesPp var) var.yres = true := by
      obtain hfits | hfits := hdet.fits
      · rw [equalsOld, hfits] at he
        cases he
      · exact hfits
    have hdestroyed := kmsFramebuffer_destroys (s := drmModeDuplicate ⟨var.xres, var.yres⟩ s) hm
      hdet.unset hdepth hkeep
    rw [setPar_other h hdet.duplicated he hv, hm] at hgood
    have honce := hgood.once m
    change Function.update (vmwFbKmsFramebuffer ends var _).2.destroyed m _ m ≤ 1 at honce
    rw [Function.update_self, hdestroyed, Function.update_self] at honce
    omega

theorem Inv.step {c : Call} (h : Inv dev s) (hmeets : CallMeets dev s c) :
    Inv dev (step dev s c) := by
  unfold FbdevModes.step
  cases hc : vmwFbCheckVar dev c.var with
  | error e => exact h
  | ok var => exact h.setPar (checkVar_checked hc).bpp (hmeets var hc)

theorem Inv.step_shows {c : Call} (h : Inv dev s) (hgood : StateGood (FbdevModes.step dev s c)) :
    CallMeets dev s c := by
  intro var hc
  unfold FbdevModes.step at hgood
  rw [hc] at hgood
  exact h.shows (checkVar_checked hc).bpp hgood

theorem Inv.close_iff (h : Inv dev s) (config : Option Errno) :
    (StateGood (vmwFbClose config s) ∧ AllDestroyed (vmwFbClose config s)) ↔
      CloseMeets config s := by
  have hcounts := h.counts
  unfold vmwFbClose vmwFbKmsDetach CloseMeets
  cases hm : s.setMode with
  | none =>
    rw [hm] at hcounts
    refine ⟨fun _ => .inl rfl, fun _ => ⟨⟨?_, h.good.once, ?_⟩, ?_⟩⟩
    · intro m hset
      rw [show (detachFb true true s).setMode = s.setMode from rfl, hm] at hset
      cases hset
    · intro fb hf
      cases hf
    · intro m hlt
      exact (hcounts m).trans (if_pos ⟨hlt, fun hn => by cases hn⟩)
  | some m =>
    rw [hm] at hcounts
    have hset := h.set m hm
    cases config with
    | some e =>
      constructor
      · rintro ⟨-, hall⟩
        have hone := hall m hset.1
        rw [show s.destroyed m = 0 by rw [hcounts, if_neg (fun hn => hn.2 rfl)]] at hone
        cases hone
      · rintro (hn | hn) <;> cases hn
    | none =>
      have hone : ∀ k, Function.update s.destroyed m (s.destroyed m + 1) k =
          if k < s.modes then 1 else 0 := by
        intro k
        by_cases hk : k = m
        · subst hk
          rw [Function.update_self, hcounts, if_neg (fun hn => hn.2 rfl), if_pos hset.1]
        · rw [Function.update_of_ne hk, hcounts]
          refine if_congr (and_iff_left ?_) rfl rfl
          rw [ne_eq, Option.some.injEq]
          exact Ne.symm hk
      refine ⟨fun _ => .inr rfl, fun _ => ⟨⟨?_, ?_, ?_⟩, ?_⟩⟩
      · intro k hset
        cases hset
      · intro k
        refine (hone k).le.trans ?_
        split_ifs <;> omega
      · intro fb hf
        cases hf
      · intro k hlt
        exact (hone k).trans (if_pos hlt)

end Steps

/-- Over any calls and any failures, ended by a close, every state is good and every mode is
    destroyed once, exactly if no call detaches a mode that is set and the close can unset the
    last one. -/
theorem run_good_iff (dev : VmwPrivate) (calls : List Call) (config : Option Errno) :
    (Always (step dev) StateGood start calls ∧
      StateGood (vmwFbClose config (run (step dev) start calls)) ∧
      AllDestroyed (vmwFbClose config (run (step dev) start calls))) ↔
    EachStep (step dev) (CallMeets dev) start calls ∧
      CloseMeets config (run (step dev) start calls) := by
  rw [always_iff_eachStep (I := Inv dev) (inv_start dev) (fun _ => Inv.good)
    (fun _ _ => Inv.step) (fun _ _ => Inv.step_shows)]
  refine and_congr_right fun h => ?_
  have hend := h.invariant (I := Inv dev) (inv_start dev) (fun _ _ => Inv.step)
  exact hend.close_iff config

def sampleCall (xres yres : UInt32) : Call :=
  ⟨{ FbdevFlush.sampleVar with xres := xres, yres := yres }, ⟨true, none, none, none, none⟩⟩

def sampleCalls : List Call := [sampleCall 1024 768, sampleCall 800 600]

theorem sample_destroyed : (run (step FbdevFlush.sampleDevice) start sampleCalls).destroyed 0 = 2 := by
  decide +kernel

/-- A resolution that is changed destroys the old mode twice. -/
theorem resize_destroys_twice :
    ¬Always (step FbdevFlush.sampleDevice) StateGood start sampleCalls := by
  intro h
  have honce := (h sampleCalls [] (List.append_nil _).symm).once 0
  rw [sample_destroyed] at honce
  omega

end Vmwgfx.FbdevModes
