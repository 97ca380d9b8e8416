import Vmwgfx.LabelledRuns
import Vmwgfx.Word32

set_option autoImplicit false

/-!
# Updates of the fbdev framebuffer

The shadow framebuffer of `vmwgfx_fb.c`: drawing and writes through the mapping, panning, the
coalesced rectangle `par->dirty` and the work that copies it to the KMS framebuffer. Each step
is one that the locks or the workqueue make atomic, and the calls overlap in any order. Modes
are not set, and what the KMS framebuffer does with the copied rectangle is left out.
-/
namespace Vmwgfx.FbdevUpdates
open LabelledRuns Word32

structure Pixel where
  x : ℕ
  y : ℕ
  deriving DecidableEq, Repr

/-- From `x1` and `y1` to before `x2` and `y2`. -/
structure Rect where
  x1 : ℕ
  y1 : ℕ
  x2 : ℕ
  y2 : ℕ
  deriving DecidableEq, Repr

def Rect.covers (r : Rect) (p : Pixel) : Bool :=
  decide (r.x1 ≤ p.x ∧ p.x < r.x2 ∧ r.y1 ≤ p.y ∧ p.y < r.y2)

/-- `info->var`, and whether there is a `par->set_fb`, which is of the size `xres` and `yres`.
    `vmw_fb_init` makes the virtual screen no larger than that. -/
structure Info where
  xres : ℕ
  yres : ℕ
  xresVirtual : ℕ
  yresVirtual : ℕ
  setFb : Bool
  fits : xres ≤ xresVirtual ∧ yres ≤ yresVirtual ∧ xresVirtual ≤ 2048 ∧ yresVirtual ≤ 2048
  deriving DecidableEq, Repr

/-- `info->fix.line_length`, with 32 bits for a pixel. -/
def Info.lineLength (i : Info) : ℕ := i.xresVirtual * 4

/-- The area of a `struct fb_fillrect`, `fb_copyarea` or `fb_image`. -/
structure Area where
  dx : ℕ
  dy : ℕ
  width : ℕ
  height : ℕ
  deriving DecidableEq, Repr

def Area.rect (r : Area) : Rect := ⟨r.dx, r.dy, r.dx + r.width, r.dy + r.height⟩

def Area.onScreen (r : Area) (i : Info) : Bool :=
  decide (r.dx + r.width ≤ i.xresVirtual ∧ r.dy + r.height ≤ i.yresVirtual)

def Pixel.onScreen (p : Pixel) (i : Info) : Bool :=
  decide (p.x < i.xresVirtual ∧ p.y < i.yresVirtual)

/-- Where `vmw_fb_dirty_flush` is: at its start, with `bo_mutex` and the reservations, and in the
    loop that copies `height` more rows of `width` pixels, the next one at `x` and `y`. -/
inductive Flush where
  | idle
  | started
  | locked
  | copying (x y width height : ℕ)
  deriving DecidableEq, Repr

/-- Where `vmw_deferred_io` is: its rectangle is set, and the work is cancelled. -/
inductive DeferredIo where
  | idle
  | marked
  | cancelled
  deriving DecidableEq, Repr

/-- `drawing` are the areas that are drawn on and not marked yet, `mapped` the pixels that were
    written through the mapping since the last report, `modified` those modified since they
    were last copied. `pending` is that of `local_work`; `panning` and `turningOn` tell that
    `vmw_fb_pan_display` has yet to mark, and `vmw_fb_on` to schedule. -/
structure Par where
  fbX : ℕ
  fbY : ℕ
  active : Bool
  dirty : Rect
  pending : Bool
  flush : Flush
  drawing : List Area
  mapped : List Pixel
  deferredIo : DeferredIo
  panning : Bool
  turningOn : Bool
  modified : Pixel → Bool

def s32 (z : ℤ) : ℤ := z.bmod (2 ^ 32)

section Functions
variable (i : Info)

def vmwFbDirtyMark (r : Area) (s : Par) : Par :=
  let x2 := addU32 r.dx r.width
  let y2 := addU32 r.dy r.height
  if s.dirty.x1 = s.dirty.x2 then
    { s with
      dirty := ⟨r.dx, r.dy, x2, y2⟩
      pending := s.pending || s.active }
  else
    { s with
      dirty := ⟨min r.dx s.dirty.x1, min r.dy s.dirty.y1, max x2 s.dirty.x2, max y2 s.dirty.y2⟩ }

/-- `bo_mutex`. -/
def boMutexFree (s : Par) : Bool :=
  !s.panning && match s.flush with
    | .idle | .started => true
    | .locked | .copying _ _ _ _ => false

/-- `vmw_fb_pan_display` for `info->var` with other offsets, until it marks the window. -/
def vmwFbPanDisplay (xoffset yoffset : ℕ) (s : Par) : Option Par :=
  if i.xresVirtual < addU32 xoffset i.xres ∨ i.yresVirtual < addU32 yoffset i.yres then some s
  else if boMutexFree s then some { s with fbX := xoffset, fbY := yoffset, panning := i.setFb }
  else none

def pageSize : ℕ := 4096

def pageIndex (p : Pixel) : ℕ := (p.y * i.lineLength + p.x * 4) / pageSize

/-- `min` and `max` of the bytes of the pages. -/
def pageSpan (pages : List ℕ) : ℕ × ℕ :=
  pages.foldr
    (fun page m => (min m.1 (page * pageSize), max m.2 (page * pageSize + pageSize - 1)))
    (2 ^ 64 - 1, 0)

/-- The rectangle that `vmw_deferred_io` sets for the pages with these pixels. -/
def reportRect (pixels : List Pixel) : Option Rect :=
  let m := pageSpan (pixels.map (pageIndex i))
  if m.1 < m.2 then some ⟨0, m.1 / i.lineLength, i.xres, m.2 / i.lineLength + 1⟩ else none

def vmwDeferredIo (s : Par) : Par :=
  match reportRect i s.mapped with
  | none => s
  | some r => { s with dirty := r, mapped := [], deferredIo := .marked }

/-- The rectangle to copy, in the shadow framebuffer, and `par->dirty` is empty. -/
def takeDirty (s : Par) : Par :=
  let maxX := addU32 s.fbX i.xres
  let maxY := addU32 s.fbY i.yres
  let dstX1 := max (s32 (s.dirty.x1 - s.fbX)) 0
  let dstY1 := max (s32 (s.dirty.y1 - s.fbY)) 0
  let dstX2 := min (s32 (s.dirty.x2 - s.fbX)) (s32 maxX)
  let dstY2 := min (s32 (s.dirty.y2 - s.fbY)) (s32 maxY)
  let w := max 0 (dstX2 - dstX1)
  let h := max 0 (dstY2 - dstY1)
  { s with
    dirty := ⟨0, 0, 0, 0⟩
    flush :=
      if w ≠ 0 ∧ h ≠ 0 then
        .copying (addU32 dstX1.toNat s.fbX) (addU32 dstY1.toNat s.fbY) w.toNat h.toNat
      else .idle }

def copyRow (x y width height : ℕ) (s : Par) : Par :=
  { s with
    flush := if height ≤ 1 then .idle else .copying x (y + 1) width (height - 1)
    modified := fun p => s.modified p && !(Rect.mk x y (x + width) (y + 1)).covers p }

inductive Op where
  | draw (r : Area)
  | drawPixel (n : ℕ) (p : Pixel)
  | drawMark (n : ℕ)
  | write (p : Pixel)
  | deferredIo
  | cancelWork
  | scheduleWork
  | pan (xoffset yoffset : ℕ)
  | panMark
  | flushStart
  | flushLock
  | flushMapFails
  | flushTake
  | flushCopy
  | off
  | on
  | onSchedule
  deriving DecidableEq, Repr

def step (s : Par) : Op → Option Par
  -- `vmw_fb_fillrect`, `vmw_fb_copyarea` and `vmw_fb_imageblit`
  | .draw r => if r.onScreen i then some { s with drawing := r :: s.drawing } else none
  | .drawPixel n p =>
    match s.drawing[n]? with
    | some r =>
      if r.rect.covers p then some { s with modified := Function.update s.modified p true } else none
    | none => none
  | .drawMark n =>
    match s.drawing[n]? with
    | some r => some (vmwFbDirtyMark r { s with drawing := s.drawing.eraseIdx n })
    | none => none
  | .write p =>
    if p.onScreen i then
      some { s with mapped := p :: s.mapped, modified := Function.update s.modified p true }
    else none
  | .deferredIo => if s.deferredIo = .idle then some (vmwDeferredIo i s) else none
  | .cancelWork =>
    if s.deferredIo = .marked then some { s with pending := false, deferredIo := .cancelled } else none
  | .scheduleWork =>
    if s.deferredIo = .cancelled then some { s with pending := true, deferredIo := .idle } else none
  | .pan x y => vmwFbPanDisplay i x y s
  | .panMark =>
    if s.panning then some (vmwFbDirtyMark ⟨s.fbX, s.fbY, i.xres, i.yres⟩ { s with panning := false })
    else none
  | .flushStart =>
    if s.pending ∧ s.flush = .idle then some { s with pending := false, flush := .started } else none
  | .flushLock =>
    if s.flush = .started then
      if s.active = false then some { s with flush := .idle }
      else if boMutexFree s then some { s with flush := if i.setFb then .locked else .idle }
      else none
    else none
  | .flushMapFails => if s.flush = .locked then some { s with flush := .idle } else none
  | .flushTake =>
    if s.flush = .locked then
      some (if s.active then takeDirty i s else { s with flush := .idle })
    else none
  | .flushCopy =>
    match s.flush with
    | .copying x y width height => some (copyRow x y width height s)
    | _ => none
  -- `vmw_fb_off` goes on to wait for the two works
  | .off => some { s with active := false }
  | .on => if s.turningOn then none else some { s with active := true, turningOn := true }
  | .onSchedule => if s.turningOn then some { s with pending := true, turningOn := false } else none

/-- Nothing is drawn yet, and `vmw_fb_set_par` has marked the window and scheduled the work, if
    it could make a framebuffer. -/
def init : Par where
  fbX := 0
  fbY := 0
  active := true
  dirty := if i.setFb then ⟨0, 0, i.xres, i.yres⟩ else ⟨0, 0, 0, 0⟩
  pending := i.setFb
  flush := .idle
  drawing := []
  mapped := []
  deferredIo := .idle
  panning := false
  turningOn := false
  modified _ := false

end Functions

def inWindow (i : Info) (s : Par) (p : Pixel) : Bool :=
  i.setFb && (Rect.mk s.fbX s.fbY (s.fbX + i.xres) (s.fbY + i.yres)).covers p

def Flush.covers : Flush → Pixel → Bool
  | .copying x y width height, p => (Rect.mk x y (x + width) (y + height)).covers p
  | _, _ => false

/-- A call that is under way will mark the pixel, or copy it. -/
def awaited (s : Par) (p : Pixel) : Bool :=
  s.drawing.any (fun r => r.rect.covers p) || s.panning || s.flush.covers p

def inFlight (s : Par) (p : Pixel) : Bool := s.mapped.contains p || awaited s p

/-- A flush that gives up leaves nothing to do, or it runs again. -/
def retried (s : Par) : Bool :=
  !s.active || s.dirty.x1 == s.dirty.x2 || s.pending || s.deferredIo != .idle || s.turningOn

/-- The rectangle of a report has the pixel, if that is in need of it. -/
def KeepsPixel (i : Info) (s : Par) (r : Rect) (p : Pixel) : Prop :=
  inWindow i s p = true → s.modified p = true → awaited s p = false →
    (p ∈ s.mapped → p.x < i.xres) ∧ (s.dirty.covers p = true → r.covers p = true)

instance (i : Info) (s : Par) (r : Rect) (p : Pixel) : Decidable (KeepsPixel i s r p) :=
  inferInstanceAs (Decidable (_ → _))

def reportKeeps (i : Info) (s : Par) : Bool :=
  (reportRect i s.mapped).all fun r =>
    decide (∀ x < i.xresVirtual, ∀ y < i.yresVirtual, KeepsPixel i s r ⟨x, y⟩)

def meets (i : Info) (s : Par) : Op → Bool
  | .deferredIo => reportKeeps i s
  | .flushMapFails => retried s
  | .flushLock => i.setFb || retried s
  | .pan x y => decide (x + i.xres < 2 ^ 32 ∧ y + i.yres < 2 ^ 32)
  | _ => true

structure Bounded (i : Info) (s : Par) : Prop where
  fbX : s.fbX ≤ 2048
  fbY : s.fbY ≤ 2048
  x1 : s.dirty.x1 ≤ 65536
  y1 : s.dirty.y1 ≤ 65536
  x2 : s.dirty.x2 ≤ 65536
  y2 : s.dirty.y2 ≤ 65536
  drawing : ∀ r ∈ s.drawing, r.onScreen i = true
  mapped : ∀ p ∈ s.mapped, p.onScreen i = true

theorem Bounded.same {i : Info} {s s' : Par} (h : Bounded i s) (hx : s'.fbX = s.fbX)
    (hy : s'.fbY = s.fbY) (hdirty : s'.dirty = s.dirty)
    (hdrawing : ∀ r ∈ s'.drawing, r.onScreen i = true)
    (hmapped : ∀ p ∈ s'.mapped, p.onScreen i = true) : Bounded i s' := by
  obtain ⟨hfbX, hfbY, hx1, hy1, hx2, hy2, -, -⟩ := h
  rw [← hx] at hfbX
  rw [← hy] at hfbY
  rw [← hdirty] at hx1 hy1 hx2 hy2
  exact ⟨hfbX, hfbY, hx1, hy1, hx2, hy2, hdrawing, hmapped⟩

def Covered (i : Info) (s : Par) : Prop :=
  ∀ p, p.onScreen i = true → inWindow i s p = true → s.modified p = true →
    s.dirty.covers p = true ∨ inFlight s p = true

def Scheduled (s : Par) : Prop :=
  s.active = true → s.dirty.x1 ≠ s.dirty.x2 → s.pending = true ∨ s.flush = .started ∨
    s.flush = .locked ∨ s.deferredIo ≠ .idle ∨ s.turningOn = true

structure Kept (i : Info) (s : Par) : Prop where
  bounded : Bounded i s
  covered : Covered i s
  scheduled : Scheduled s

variable {i : Info} {s s' : Par} {p : Pixel} {r : Area}

theorem covers_iff {r : Rect} :
    r.covers p = true ↔ r.x1 ≤ p.x ∧ p.x < r.x2 ∧ r.y1 ≤ p.y ∧ p.y < r.y2 := decide_eq_true_iff

theorem inFlight_iff : inFlight s p = true ↔ p ∈ s.mapped ∨ (∃ r ∈ s.drawing, r.rect.covers p = true) ∨
    s.panning = true ∨ s.flush.covers p = true := by
  simp only [inFlight, awaited, Bool.or_eq_true, List.contains_iff_mem, List.any_eq_true, or_assoc]

theorem Covered.mono (h : Covered i s) (hx : s'.fbX = s.fbX) (hy : s'.fbY = s.fbY)
    (hmodified : ∀ p, s'.modified p = true → s.modified p = true)
    (hcovers : ∀ p, s'.modified p = true → inWindow i s p = true →
      s.dirty.covers p = true ∨ inFlight s p = true →
        s'.dirty.covers p = true ∨ inFlight s' p = true) : Covered i s' := by
  intro p hp hwindow hm
  rw [inWindow, hx, hy] at hwindow
  exact hcovers p hm hwindow (h p hp hwindow (hmodified p hm))

theorem mark_rest (r : Area) (s : Par) : vmwFbDirtyMark r s =
    { s with
      dirty := (vmwFbDirtyMark r s).dirty
      pending := (vmwFbDirtyMark r s).pending } := by
  unfold vmwFbDirtyMark
  split_ifs <;> rfl

theorem mark_covers (hx : r.dx + r.width < 2 ^ 32) (hy : r.dy + r.height < 2 ^ 32)
    (h : r.rect.covers p = true ∨ s.dirty.covers p = true) :
    (vmwFbDirtyMark r s).dirty.covers p = true := by
  rw [covers_iff, covers_iff] at h
  rw [covers_iff]
  unfold vmwFbDirtyMark
  rw [addU32_of_lt hx, addU32_of_lt hy]
  dsimp only [Area.rect] at h
  split_ifs <;> dsimp only <;> omega

theorem mark_scheduled (h : Scheduled s) : Scheduled (vmwFbDirtyMark r s) := by
  intro hactive hdirty
  unfold vmwFbDirtyMark at hactive hdirty ⊢
  split_ifs at hactive hdirty ⊢ with hempty
  · exact .inl (by simpa using .inr hactive)
  · exact h hactive hempty

theorem mark_bounded (hx : r.dx + r.width ≤ 65536) (hy : r.dy + r.height ≤ 65536)
    (h : Bounded i s) : Bounded i (vmwFbDirtyMark r s) := by
  obtain ⟨hfbX, hfbY, hx1, hy1, hx2, hy2, hdrawing, hmapped⟩ := h
  have hwidth := addU32_of_lt (a := r.dx) (b := r.width) (by omega)
  have hheight := addU32_of_lt (a := r.dy) (b := r.height) (by omega)
  unfold vmwFbDirtyMark
  rw [hwidth, hheight]
  split_ifs
  · exact ⟨hfbX, hfbY, by dsimp only; omega, by dsimp only; omega, hx, hy, hdrawing, hmapped⟩
  · exact ⟨hfbX, hfbY, by dsimp only; omega, by dsimp only; omega, by dsimp only; omega,
      by dsimp only; omega, hdrawing, hmapped⟩

theorem pageSpan_mem {pages : List ℕ} {page : ℕ} (h : page ∈ pages) :
    (pageSpan pages).1 ≤ page * pageSize ∧ page * pageSize + pageSize - 1 ≤ (pageSpan pages).2 := by
  induction pages with
  | nil => cases h
  | cons q pages ih =>
    change min _ _ ≤ _ ∧ _ ≤ max _ _
    obtain rfl | h := List.mem_cons.1 h
    · exact ⟨min_le_right _ _, le_max_right _ _⟩
    · obtain ⟨hmin, hmax⟩ := ih h
      exact ⟨(min_le_left _ _).trans hmin, hmax.trans (le_max_left _ _)⟩

theorem pageSpan_le {pages : List ℕ} {b : ℕ} (h : ∀ page ∈ pages, page * pageSize + pageSize - 1 ≤ b) :
    (pageSpan pages).2 ≤ b := by
  induction pages with
  | nil => exact Nat.zero_le b
  | cons q pages ih =>
    exact max_le (ih fun page hp => h page (List.mem_cons_of_mem _ hp)) (h q List.mem_cons_self)

theorem pageIndex_span (i : Info) (p : Pixel) :
    pageIndex i p * pageSize ≤ p.y * i.lineLength + p.x * 4 ∧
      p.y * i.lineLength + p.x * 4 ≤ pageIndex i p * pageSize + pageSize - 1 := by
  have hdiv := Nat.div_add_mod (p.y * i.lineLength + p.x * 4) pageSize
  have hmod := Nat.mod_lt (p.y * i.lineLength + p.x * 4) (show 0 < pageSize by decide)
  unfold pageIndex
  rw [mul_comm]
  omega

theorem row_of_offset (hp : p.onScreen i = true) :
    (p.y * i.lineLength + p.x * 4) / i.lineLength = p.y := by
  obtain ⟨hx, -⟩ := of_decide_eq_true hp
  have hlt : p.x * 4 < i.lineLength := by unfold Info.lineLength; omega
  rw [add_comm, Nat.add_mul_div_right _ _ (by omega), Nat.div_eq_of_lt hlt, zero_add]

theorem reportRect_rows {pixels : List Pixel} {r : Rect} (h : reportRect i pixels = some r)
    (hp : p ∈ pixels) (hscreen : p.onScreen i = true) (hx : p.x < i.xres) : r.covers p = true := by
  obtain ⟨hmin, hmax⟩ := pageSpan_mem (List.mem_map_of_mem (f := pageIndex i) hp)
  obtain ⟨hfirst, hlast⟩ := pageIndex_span i p
  unfold reportRect at h
  obtain ⟨-, h⟩ := Option.ite_none_right_eq_some.1 h
  cases h
  rw [covers_iff]
  have hlow := Nat.div_le_div_right (c := i.lineLength) (hmin.trans hfirst)
  have hhigh := Nat.div_le_div_right (c := i.lineLength) (hlast.trans hmax)
  rw [row_of_offset hscreen] at hlow hhigh
  exact ⟨Nat.zero_le _, hx, hlow, Nat.lt_succ_of_le hhigh⟩

theorem reportRect_bounded {pixels : List Pixel} {r : Rect} (h : reportRect i pixels = some r)
    (hscreen : ∀ p ∈ pixels, p.onScreen i = true) :
    r.x1 ≤ 65536 ∧ r.y1 ≤ 65536 ∧ r.x2 ≤ 65536 ∧ r.y2 ≤ 65536 := by
  obtain ⟨hxres, -, hxv, hyv⟩ := i.fits
  have hlast : (pageSpan (pixels.map (pageIndex i))).2 ≤ 2048 * i.lineLength + 4095 := by
    refine pageSpan_le fun page hpage => ?_
    obtain ⟨p, hp, rfl⟩ := List.mem_map.1 hpage
    obtain ⟨hx, hy⟩ := of_decide_eq_true (hscreen p hp)
    obtain ⟨hfirst, -⟩ := pageIndex_span i p
    have hrow : (p.y + 1) * i.lineLength ≤ 2048 * i.lineLength := Nat.mul_le_mul_right _ (by omega)
    have hcolumn : p.x * 4 < i.lineLength := by unfold Info.lineLength; omega
    rw [add_mul] at hrow
    unfold pageSize at hfirst ⊢
    omega
  have hrows : (2048 * i.lineLength + 4095) / i.lineLength ≤ 2048 + 4095 := by
    obtain hzero | hpos := Nat.eq_zero_or_pos i.lineLength
    · rw [hzero, Nat.div_zero]
      omega
    · rw [add_comm, Nat.add_mul_div_right _ _ hpos]
      have := Nat.div_le_self 4095 i.lineLength
      omega
  unfold reportRect at h
  obtain ⟨hlt, h⟩ := Option.ite_none_right_eq_some.1 h
  cases h
  have hhigh := Nat.div_le_div_right (c := i.lineLength) hlast
  have hlow := Nat.div_le_div_right (c := i.lineLength) hlt.le
  dsimp only
  omega

theorem s32_of_abs {z : ℤ} (hl : -2 ^ 31 ≤ z) (hu : z < 2 ^ 31) : s32 z = z := by
  unfold s32
  exact Int.bmod_eq_of_le (by omega) (by omega)

theorem takeDirty_covers (h : Bounded i s) (hwindow : inWindow i s p = true)
    (hdirty : s.dirty.covers p = true) : (takeDirty i s).flush.covers p = true := by
  obtain ⟨hxres, hyres, hxv, hyv⟩ := i.fits
  obtain ⟨hfbX, hfbY, hx1, hy1, hx2, hy2, -, -⟩ := h
  rw [covers_iff] at hdirty
  unfold inWindow at hwindow
  obtain ⟨-, hwindow⟩ := Bool.and_eq_true_iff.1 hwindow
  rw [covers_iff] at hwindow
  dsimp only at hwindow
  unfold takeDirty
  dsimp only
  rw [addU32_of_lt (a := s.fbX) (by omega), addU32_of_lt (a := s.fbY) (by omega)]
  rw [s32_of_abs (z := s.dirty.x1 - s.fbX) (by omega) (by omega),
    s32_of_abs (z := s.dirty.y1 - s.fbY) (by omega) (by omega),
    s32_of_abs (z := s.dirty.x2 - s.fbX) (by omega) (by omega),
    s32_of_abs (z := s.dirty.y2 - s.fbY) (by omega) (by omega),
    s32_of_abs (z := (s.fbX + i.xres : ℕ)) (by omega) (by omega),
    s32_of_abs (z := (s.fbY + i.yres : ℕ)) (by omega) (by omega)]
  rw [if_pos (by omega), addU32_of_lt (by omega), addU32_of_lt (by omega)]
  simp only [Flush.covers, covers_iff]
  omega

theorem copyRow_covers {x y width height : ℕ} (hflush : s.flush = .copying x y width height)
    (hcovers : s.flush.covers p = true) (hm : (copyRow x y width height s).modified p = true) :
    (copyRow x y width height s).flush.covers p = true := by
  simp only [copyRow, Bool.and_eq_true, Bool.not_eq_true', ← Bool.not_eq_true, covers_iff] at hm
  rw [hflush, Flush.covers, covers_iff] at hcovers
  dsimp only at hcovers hm
  unfold copyRow
  dsimp only
  rw [if_neg (by omega), Flush.covers, covers_iff]
  dsimp only
  omega

theorem Kept.draw (h : Kept i s) (hr : r.onScreen i = true) :
    Kept i { s with drawing := r :: s.drawing } := by
  refine ⟨h.bounded.same rfl rfl rfl (fun q hq => ?_) h.bounded.mapped, ?_, h.scheduled⟩
  · obtain rfl | hq := List.mem_cons.1 hq
    · exact hr
    · exact h.bounded.drawing q hq
  · refine h.covered.mono rfl rfl (fun _ hm => hm) fun p _ _ hc => hc.imp_right fun hin => ?_
    rw [inFlight_iff] at hin ⊢
    exact hin.imp_right (Or.imp_left fun ⟨q, hq, hcovers⟩ => ⟨q, List.mem_cons_of_mem _ hq, hcovers⟩)

theorem Kept.modify (h : Kept i s) (hp : inFlight s p = true) :
    Kept i { s with modified := Function.update s.modified p true } := by
  refine ⟨h.bounded.same rfl rfl rfl h.bounded.drawing h.bounded.mapped,
    fun q hq hwindow hm => ?_, h.scheduled⟩
  by_cases heq : q = p
  · rw [heq]
    exact .inr hp
  · have hm : Function.update s.modified p true q = true := hm
    rw [Function.update_of_ne heq] at hm
    exact h.covered q hq hwindow hm

theorem Kept.mapped (h : Kept i s) (hp : p.onScreen i = true) :
    Kept i { s with mapped := p :: s.mapped } := by
  refine ⟨h.bounded.same rfl rfl rfl h.bounded.drawing (fun q hq => ?_), ?_, h.scheduled⟩
  · obtain rfl | hq := List.mem_cons.1 hq
    · exact hp
    · exact h.bounded.mapped q hq
  · refine h.covered.mono rfl rfl (fun _ hm => hm) fun q _ _ hc => hc.imp_right fun hin => ?_
    rw [inFlight_iff] at hin ⊢
    exact hin.imp_left (List.mem_cons_of_mem _)

theorem Kept.mark (hbounded : Bounded i s) (hscheduled : Scheduled s)
    (hx : r.dx + r.width ≤ 65536) (hy : r.dy + r.height ≤ 65536)
    (hcovered : ∀ p, p.onScreen i = true → inWindow i s p = true → s.modified p = true →
      r.rect.covers p = true ∨ s.dirty.covers p = true ∨ inFlight s p = true) :
    Kept i (vmwFbDirtyMark r s) := by
  refine ⟨mark_bounded hx hy hbounded, fun p hp hwindow hm => ?_, mark_scheduled hscheduled⟩
  rw [mark_rest] at hwindow hm
  have hin : inFlight (vmwFbDirtyMark r s) p = inFlight s p := by rw [mark_rest]; rfl
  rw [hin]
  obtain hc | hc | hc := hcovered p hp hwindow hm
  · exact .inl (mark_covers (by omega) (by omega) (.inl hc))
  · exact .inl (mark_covers (by omega) (by omega) (.inr hc))
  · exact .inr hc

theorem Kept.drawMark {n : ℕ} (h : Kept i s) (hn : s.drawing[n]? = some r) :
    Kept i (vmwFbDirtyMark r { s with drawing := s.drawing.eraseIdx n }) := by
  obtain ⟨hlt, hget⟩ := List.getElem?_eq_some_iff.1 hn
  have hmem : ∀ q, q ∈ s.drawing ↔ q = r ∨ q ∈ s.drawing.eraseIdx n := fun q => by
    rw [← (List.getElem_cons_eraseIdx_perm hlt).mem_iff, List.mem_cons, hget]
  obtain ⟨hx, hy⟩ := of_decide_eq_true (h.bounded.drawing r ((hmem r).2 (.inl rfl)))
  obtain ⟨-, -, hxv, hyv⟩ := i.fits
  have hbounded : Bounded i { s with drawing := s.drawing.eraseIdx n } := h.bounded.same rfl rfl rfl
    (fun q hq => h.bounded.drawing q ((hmem q).2 (.inr hq))) h.bounded.mapped
  refine .mark hbounded h.scheduled (by omega) (by omega) fun p hp hwindow hm => ?_
  obtain hc | hc := h.covered p hp hwindow hm
  · exact .inr (.inl hc)
  · rw [inFlight_iff] at hc ⊢
    obtain hc | ⟨q, hq, hc⟩ | hc := hc
    · exact .inr (.inr (.inl hc))
    · obtain rfl | hq := (hmem q).1 hq
      · exact .inl hc
      · exact .inr (.inr (.inr (.inl ⟨q, hq, hc⟩)))
    · exact .inr (.inr (.inr (.inr hc)))

theorem Kept.panMark (h : Kept i s) :
    Kept i (vmwFbDirtyMark ⟨s.fbX, s.fbY, i.xres, i.yres⟩ { s with panning := false }) := by
  obtain ⟨hfits, hfits', hxv, hyv⟩ := i.fits
  have hfbX := h.bounded.fbX
  have hfbY := h.bounded.fbY
  exact .mark (h.bounded.same rfl rfl rfl h.bounded.drawing h.bounded.mapped) h.scheduled
    (by dsimp only; omega) (by dsimp only; omega)
    fun p _ hwindow _ => .inl (Bool.and_eq_true_iff.1 hwindow).2

theorem Kept.pan (h : Kept i s) {x y : ℕ} {u : Par} (hok : meets i s (.pan x y) = true)
    (hu : vmwFbPanDisplay i x y s = some u) : Kept i u := by
  obtain ⟨hx, hy⟩ := of_decide_eq_true hok
  obtain ⟨-, -, hxv, hyv⟩ := i.fits
  unfold vmwFbPanDisplay at hu
  rw [addU32_of_lt hx, addU32_of_lt hy] at hu
  split_ifs at hu with hfits hfree
  · cases hu
    exact h
  · cases hu
    refine ⟨⟨by dsimp only; omega, by dsimp only; omega, h.bounded.x1, h.bounded.y1, h.bounded.x2,
      h.bounded.y2, h.bounded.drawing, h.bounded.mapped⟩, fun p _ hwindow _ => .inr ?_, h.scheduled⟩
    rw [inFlight_iff]
    exact .inr (.inr (.inl (Bool.and_eq_true_iff.1 hwindow).1))

theorem Kept.report (h : Kept i s) (hok : reportKeeps i s = true) : Kept i (vmwDeferredIo i s) := by
  unfold vmwDeferredIo
  unfold reportKeeps at hok
  cases hr : reportRect i s.mapped with
  | none => exact h
  | some r =>
    rw [hr] at hok
    have hkeeps := of_decide_eq_true hok
    obtain ⟨hx1, hy1, hx2, hy2⟩ := reportRect_bounded hr h.bounded.mapped
    refine ⟨⟨h.bounded.fbX, h.bounded.fbY, hx1, hy1, hx2, hy2, h.bounded.drawing, by simp⟩,
      fun p hp hwindow hm => ?_, fun _ _ => .inr (.inr (.inr (.inl (by simp))))⟩
    cases hawaited : awaited s p with
    | true => exact .inr (Bool.or_eq_true_iff.2 (.inr hawaited))
    | false =>
      obtain ⟨hx, hy⟩ := of_decide_eq_true hp
      obtain ⟨hcolumn, hdirty⟩ := hkeeps p.x hx p.y hy hwindow hm hawaited
      obtain hc | hc := h.covered p hp hwindow hm
      · exact .inl (hdirty hc)
      · rw [inFlight, hawaited, Bool.or_false, List.contains_iff_mem] at hc
        exact .inl (reportRect_rows hr hc hp (hcolumn hc))

theorem Kept.control (h : Kept i s) {active pending turningOn : Bool} {f : Flush} {io : DeferredIo}
    (hf : ∀ p, s.flush.covers p = true → f.covers p = true)
    (hs : Scheduled { s with
      active := active
      pending := pending
      flush := f
      deferredIo := io
      turningOn := turningOn }) :
    Kept i { s with
      active := active
      pending := pending
      flush := f
      deferredIo := io
      turningOn := turningOn } := by
  refine ⟨h.bounded.same rfl rfl rfl h.bounded.drawing h.bounded.mapped, ?_, hs⟩
  refine h.covered.mono rfl rfl (fun _ hm => hm) fun p _ _ hc => hc.imp_right fun hin => ?_
  rw [inFlight_iff] at hin ⊢
  exact hin.imp_right (Or.imp_right (Or.imp_right (hf p)))

theorem covers_of_not_copying {f g : Flush} (hf : f = .idle ∨ f = .started ∨ f = .locked) (p : Pixel)
    (h : f.covers p = true) : g.covers p = true := by
  obtain rfl | rfl | rfl := hf <;> cases h

theorem scheduled_of_retried (h : retried s = true) : Scheduled { s with flush := .idle } := by
  intro hactive hdirty
  simp only [retried, Bool.or_eq_true, Bool.not_eq_true', beq_iff_eq, bne_iff_ne] at h
  obtain (((h | h) | h) | h) | h := h
  · cases hactive.symm.trans h
  · exact absurd h hdirty
  · exact .inl h
  · exact .inr (.inr (.inr (.inl h)))
  · exact .inr (.inr (.inr (.inr h)))

theorem Kept.take (h : Kept i s) (hflush : s.flush = .locked) : Kept i (takeDirty i s) := by
  refine ⟨⟨h.bounded.fbX, h.bounded.fbY, Nat.zero_le _, Nat.zero_le _, Nat.zero_le _, Nat.zero_le _,
    h.bounded.drawing, h.bounded.mapped⟩, ?_, fun _ hdirty => absurd rfl hdirty⟩
  refine h.covered.mono rfl rfl (fun _ hm => hm) fun p _ hwindow hc => .inr ?_
  rw [inFlight_iff] at hc ⊢
  obtain hc | hc | hc | hc | hc := hc
  · exact .inr (.inr (.inr (takeDirty_covers h.bounded hwindow hc)))
  · exact .inl hc
  · exact .inr (.inl hc)
  · exact .inr (.inr (.inl hc))
  · rw [hflush] at hc
    cases hc

theorem Kept.copy (h : Kept i s) {x y width height : ℕ}
    (hflush : s.flush = .copying x y width height) : Kept i (copyRow x y width height s) := by
  refine ⟨h.bounded.same rfl rfl rfl h.bounded.drawing h.bounded.mapped, ?_,
    fun hactive hdirty => ?_⟩
  · refine h.covered.mono rfl rfl (fun _ hm => (Bool.and_eq_true_iff.1 hm).1) fun p hm _ hc =>
      hc.imp_right fun hin => ?_
    rw [inFlight_iff] at hin ⊢
    exact hin.imp_right (Or.imp_right (Or.imp_right fun hc => copyRow_covers hflush hc hm))
  · obtain hs | hs | hs | hs := h.scheduled hactive hdirty
    · exact .inl hs
    · cases hflush.symm.trans hs
    · cases hflush.symm.trans hs
    · exact .inr (.inr (.inr hs))

theorem Kept.step {u : Par} {a : Op} (h : Kept i s) (hok : meets i s a = true)
    (hu : step i s a = some u) : Kept i u := by
  cases a with
  | draw r =>
    obtain ⟨hr, hu⟩ := Option.ite_none_right_eq_some.1 hu
    cases hu
    exact h.draw hr
  | drawPixel n p =>
    simp only [FbdevUpdates.step] at hu
    split at hu
    · rename_i r hn
      obtain ⟨hr, hu⟩ := Option.ite_none_right_eq_some.1 hu
      cases hu
      exact h.modify (inFlight_iff.2 (.inr (.inl ⟨r, List.mem_of_getElem? hn, hr⟩)))
    · cases hu
  | drawMark n =>
    simp only [FbdevUpdates.step] at hu
    split at hu
    · cases hu
      exact h.drawMark ‹_›
    · cases hu
  | write p =>
    obtain ⟨hp, hu⟩ := Option.ite_none_right_eq_some.1 hu
    cases hu
    exact (h.mapped hp).modify (inFlight_iff.2 (.inl List.mem_cons_self))
  | deferredIo =>
    obtain ⟨-, hu⟩ := Option.ite_none_right_eq_some.1 hu
    cases hu
    exact h.report hok
  | cancelWork =>
    obtain ⟨-, hu⟩ := Option.ite_none_right_eq_some.1 hu
    cases hu
    exact h.control (fun _ hp => hp) fun _ _ => .inr (.inr (.inr (.inl (by simp))))
  | scheduleWork =>
    obtain ⟨-, hu⟩ := Option.ite_none_right_eq_some.1 hu
    cases hu
    exact h.control (fun _ hp => hp) fun _ _ => .inl rfl
  | pan x y => exact h.pan hok hu
  | panMark =>
    obtain ⟨-, hu⟩ := Option.ite_none_right_eq_some.1 hu
    cases hu
    exact h.panMark
  | flushStart =>
    obtain ⟨⟨-, hidle⟩, hu⟩ := Option.ite_none_right_eq_some.1 hu
    cases hu
    exact h.control (covers_of_not_copying (.inl hidle)) fun _ _ => .inr (.inl rfl)
  | flushLock =>
    obtain ⟨hstarted, hu⟩ := Option.ite_none_right_eq_some.1 hu
    have hcovers := fun f : Flush => covers_of_not_copying (g := f) (.inr (.inl hstarted))
    split_ifs at hu with hinactive hfree hset
    · cases hu
      exact h.control (hcovers _) fun hactive _ => by cases hinactive.symm.trans hactive
    · cases hu
      exact h.control (hcovers _) fun _ _ => .inr (.inr (.inl rfl))
    · cases hu
      exact h.control (hcovers _) (scheduled_of_retried (by simpa [meets, hset] using hok))
  | flushMapFails =>
    obtain ⟨hlocked, hu⟩ := Option.ite_none_right_eq_some.1 hu
    cases hu
    exact h.control (covers_of_not_copying (.inr (.inr hlocked))) (scheduled_of_retried hok)
  | flushTake =>
    obtain ⟨hlocked, hu⟩ := Option.ite_none_right_eq_some.1 hu
    cases hu
    split_ifs with hactive
    · exact h.take hlocked
    · exact h.control (covers_of_not_copying (.inr (.inr hlocked))) fun ha _ => absurd ha hactive
  | flushCopy =>
    simp only [FbdevUpdates.step] at hu
    split at hu
    · cases hu
      exact h.copy ‹_›
    · cases hu
  | off =>
    cases hu
    exact h.control (fun _ hp => hp) fun ha _ => by cases ha
  | on =>
    simp only [FbdevUpdates.step] at hu
    split_ifs at hu
    cases hu
    exact h.control (fun _ hp => hp) fun _ _ => .inr (.inr (.inr (.inr rfl)))
  | onSchedule =>
    obtain ⟨-, hu⟩ := Option.ite_none_right_eq_some.1 hu
    cases hu
    exact h.control (fun _ hp => hp) fun _ _ => .inl rfl

theorem init_kept (i : Info) : Kept i (init i) := by
  obtain ⟨hx, hy, hxv, hyv⟩ := i.fits
  refine ⟨?_, fun p _ _ hm => (by cases hm), fun _ hdirty => .inl ?_⟩
  · unfold init
    cases i.setFb
    · exact ⟨by simp, by simp, by simp, by simp, by simp, by simp, by simp, by simp⟩
    · refine ⟨by simp, by simp, by simp, by simp, ?_, ?_, by simp, by simp⟩
      · exact (hx.trans hxv).trans (by decide)
      · exact (hy.trans hyv).trans (by decide)
  · unfold init at hdirty ⊢
    cases hset : i.setFb with
    | true => rfl
    | false =>
      rw [hset] at hdirty
      exact absurd rfl hdirty

/-- No update is lost while reports keep what they overwrite and no flush gives up for good: a
    modified pixel of the window is dirty, or a call that is under way will see to it, and the
    work for what is dirty is about to run. -/
theorem updates_kept {as : List Op} (h : Runs (step i) (fun s a => meets i s a = true) (init i) as s) :
    (∀ p, p.onScreen i = true → inWindow i s p = true → s.modified p = true →
      s.dirty.covers p = true ∨ inFlight s p = true) ∧
      (s.active = true → s.dirty.x1 ≠ s.dirty.x2 → s.pending = true ∨ s.flush ≠ .idle ∨
        s.deferredIo ≠ .idle ∨ s.turningOn = true) := by
  have hkept := h.invariant (Kept i) (init_kept i) fun _ _ _ hk hok hu => hk.step hok hu
  refine ⟨hkept.covered, fun hactive hdirty => ?_⟩
  obtain hs | hs | hs | hs := hkept.scheduled hactive hdirty
  · exact .inl hs
  · exact .inr (.inl (by simp [hs]))
  · exact .inr (.inl (by simp [hs]))
  · exact .inr (.inr hs)

section Runs

def smallScreen : Info := ⟨2, 2, 4, 4, true, by decide⟩

/-- Drawing, a write that is reported, a flush that copies both, and panning. -/
def reportRun : List Op :=
  [.draw ⟨0, 0, 2, 1⟩, .drawPixel 0 ⟨0, 0⟩, .drawMark 0, .write ⟨1, 1⟩, .deferredIo, .cancelWork,
    .scheduleWork, .flushStart, .flushLock, .flushTake, .flushCopy, .draw ⟨3, 3, 1, 1⟩,
    .drawPixel 0 ⟨3, 3⟩, .drawMark 0, .flushCopy, .pan 2 2, .panMark, .off, .on, .onSchedule]

theorem reportRun_kept :
    let s := (execAdmitted (step smallScreen) (fun s a => meets smallScreen s a = true)
      (init smallScreen) reportRun).getD (init smallScreen)
    s.modified ⟨3, 3⟩ = true ∧ inFlight s ⟨3, 3⟩ = false ∧ s.dirty.covers ⟨3, 3⟩ = true := by
  have hrun : Runs (step smallScreen) (fun s a => meets smallScreen s a = true) (init smallScreen)
      reportRun _ := runs_admitted_getD (d := init smallScreen) (by decide)
  have hkept := (updates_kept hrun).1 ⟨3, 3⟩ (by decide) (by decide) (by decide)
  exact ⟨by decide, by decide, hkept.resolve_right (by decide)⟩

def wideScreen : Info := ⟨1024, 8, 1024, 8, true, by decide⟩

/-- The report of a write in the sixth row follows the mark of a draw in the first. -/
def overwriteRun : List Op :=
  [.flushStart, .flushLock, .flushTake] ++ List.replicate 8 .flushCopy ++
    [.draw ⟨0, 0, 8, 1⟩, .drawPixel 0 ⟨0, 0⟩, .drawMark 0, .write ⟨0, 5⟩, .deferredIo, .cancelWork,
      .scheduleWork, .flushStart, .flushLock, .flushTake, .flushCopy]

/-- The mark is overwritten: the pixel that was drawn is never copied. -/
theorem overwriteRun_loses :
    let s := (exec (step wideScreen) (init wideScreen) overwriteRun).getD (init wideScreen)
    Runs (step wideScreen) anyLabel (init wideScreen) overwriteRun s ∧
      inWindow wideScreen s ⟨0, 0⟩ = true ∧ s.modified ⟨0, 0⟩ = true ∧
        s.dirty.covers ⟨0, 0⟩ = false ∧ inFlight s ⟨0, 0⟩ = false ∧ s.pending = false ∧
          s.flush = .idle :=
  ⟨runs_getD (by decide), by decide, by decide, by decide, by decide, by decide, by decide⟩

end Runs

end Vmwgfx.FbdevUpdates
