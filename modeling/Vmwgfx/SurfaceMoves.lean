import Vmwgfx.StduDma

set_option autoImplicit false

/-!
# Copies from a surface to the screens

`vmw_kms_sou_do_surface_dirty` and `vmw_kms_stdu_surface_dirty`. One encodes a bounding box with
rectangles relative to it, the other one copy boxes. Both are read as the pixels of the unit with
the source pixel that each of them receives.
-/
namespace Vmwgfx.SurfaceMoves
open ExecbufState (Errno)
open Extremes KmsClips Signed32
open StduDma (Box CopyBox SvgaRect copyBox emptyBox growDma grow growDest boxOf Bounding
  populateUpdate)

structure SignedRect where
  left : ℤ
  top : ℤ
  right : ℤ
  bottom : ℤ
  deriving DecidableEq, Repr

def unitRect (d : Dirty) : SignedRect := ⟨d.unitX1, d.unitY1, d.unitX2, d.unitY2⟩

def stduReserveSize (a : DirtyArgs) : ℕ := 32 + 36 * a.numClips.toNat + 28

def SignedRect.Has (r : SignedRect) (x y : ℤ) : Prop :=
  (r.left ≤ x ∧ x < r.right) ∧ (r.top ≤ y ∧ y < r.bottom)

/-- A pixel of the mode that is in a clip moved to the unit, over the integers. -/
def Covers (dest : Dest) (u : DisplayUnit) (c : Clip) (x y : ℤ) : Prop :=
  (((spanX dest u c).lo ≤ x ∧ x < (spanX dest u c).hi) ∧ 0 ≤ x ∧ x < u.hdisplay.toInt) ∧
    (((spanY dest u c).lo ≤ y ∧ y < (spanY dest u c).hi) ∧ 0 ≤ y ∧ y < u.vdisplay.toInt)

/-- A clip along one axis that is ordered and whose sums stay in the range of `s32`. -/
structure SmallSpan (s : Span) : Prop where
  near : s32Min ≤ s.lo
  ordered : s.lo < s.hi
  far : s.hi ≤ s32Max
  source : s.fb - min s.lo 0 ≤ s32Max
  sourceEnd : s.fb + (s.hi - s.lo) ≤ s32Max

/-- Ordered clips without overflow on units that have a mode; the size of a reservation survives
    its conversion to 32 bits. -/
structure NoOverflow (a : DirtyArgs) (us : List DisplayUnit) : Prop where
  modes : ∀ u ∈ us, 0 < u.hdisplay.toInt ∧ 0 < u.vdisplay.toInt
  clips : ∀ u ∈ us, ∀ i < a.numClips.toNat,
    SmallSpan (spanX a.dest u (a.clipAt i)) ∧ SmallSpan (spanY a.dest u (a.clipAt i))
  size : stduReserveSize a < 2 ^ 32

theorem SmallSpan.exact {s : Span} (hs : SmallSpan s) : s.Exact := by
  have hlt := hs.ordered
  have hmin := hs.near
  refine ⟨hs.near, hs.source, fun hfar => ?_⟩
  rw [s32_of_mem (by omega) hs.far]
  exact hfar

theorem SmallSpan.meets {s : Span} (hs : SmallSpan s) (hsize : 0 < s.size) (hpass : s.Passes) :
    s.Meets := by
  have hlt := hs.ordered
  have hnear := hs.near
  have hfar := hs.far
  obtain ⟨hlo, hhi⟩ := hpass
  rw [s32_of_mem hnear (by omega)] at hlo
  rw [s32_of_mem (by omega) hfar] at hhi
  unfold Span.Meets
  omega

theorem NoOverflow.calls {a : DirtyArgs} {us : List DisplayUnit} (h : NoOverflow a us)
    {u : DisplayUnit} (hu : u ∈ us) : unitCalls a u = exactCalls a u := by
  rw [unitCalls_eq_exactCalls_iff]
  intro i hi
  obtain ⟨hx, hy⟩ := h.clips u hu i hi
  obtain ⟨hw, hh⟩ := h.modes u hu
  rw [← spanX_size a.dest u (a.clipAt i)] at hw
  rw [← spanY_size a.dest u (a.clipAt i)] at hh
  exact ⟨fun _ _ => ⟨hx.exact, hy.exact⟩, fun hpx hpy => ⟨hx.meets hw hpx, hy.meets hh hpy⟩⟩

/-- What a call tells: the rectangle is inside the mode, and its source is at the CRTC's origin
    minus the offset, within the range. -/
structure Placed (a : DirtyArgs) (u : DisplayUnit) (d : Dirty) : Prop where
  inside : Inside u d
  srcX : d.fbX = d.unitX1 + u.crtcX.toInt - a.dest.x.toInt
  srcY : d.fbY = d.unitY1 + u.crtcY.toInt - a.dest.y.toInt
  fbX : s32Min ≤ d.fbX ∧ d.fbX + (d.unitX2 - d.unitX1) ≤ s32Max
  fbY : s32Min ≤ d.fbY ∧ d.fbY + (d.unitY2 - d.unitY1) ≤ s32Max

theorem spanX_lo (dest : Dest) (u : DisplayUnit) (c : Clip) :
    (spanX dest u c).lo - (spanX dest u c).fb = dest.x.toInt - u.crtcX.toInt := by
  cases c <;> simp only [spanX] <;> omega

theorem spanY_lo (dest : Dest) (u : DisplayUnit) (c : Clip) :
    (spanY dest u c).lo - (spanY dest u c).fb = dest.y.toInt - u.crtcY.toInt := by
  cases c <;> simp only [spanY] <;> omega

theorem exactCall_some {dest : Dest} {u : DisplayUnit} {c : Clip} {d : Dirty}
    (h : exactCall dest u c = some d) :
    d = ⟨(spanX dest u c).fbStart, (spanY dest u c).fbStart, max (spanX dest u c).lo 0,
      max (spanY dest u c).lo 0, min (spanX dest u c).hi (spanX dest u c).size,
      min (spanY dest u c).hi (spanY dest u c).size⟩ := by
  simp only [exactCall] at h
  split_ifs at h
  exact (Option.some.inj h).symm

theorem placed_of_exactCall {a : DirtyArgs} {u : DisplayUnit} {i : ℕ} {d : Dirty}
    (hx : SmallSpan (spanX a.dest u (a.clipAt i))) (hy : SmallSpan (spanY a.dest u (a.clipAt i)))
    (h : exactCall a.dest u (a.clipAt i) = some d) : Placed a u d := by
  have hinside := exactCall_inside h
  have hfbx := (spanX_inRange a.dest u (a.clipAt i)).fb_le
  have hfby := (spanY_inRange a.dest u (a.clipAt i)).fb_le
  have hlox := spanX_lo a.dest u (a.clipAt i)
  have hloy := spanY_lo a.dest u (a.clipAt i)
  have hendx := hx.sourceEnd
  have hendy := hy.sourceEnd
  rw [exactCall_some h] at hinside ⊢
  refine ⟨hinside, ?_, ?_, ?_, ?_⟩ <;> simp only [Span.fbStart] <;> omega

theorem Inside.covers_iff {dest : Dest} {u : DisplayUnit} {c : Clip} {d : Dirty}
    (h : exactCall dest u c = some d) (x y : ℤ) :
    (unitRect d).Has x y ↔ Covers dest u c x y := by
  rw [exactCall_some h]
  simp only [unitRect, SignedRect.Has, Covers, spanX_size, spanY_size]
  omega

theorem exactCall_none {dest : Dest} {u : DisplayUnit} {c : Clip}
    (h : exactCall dest u c = none) (x y : ℤ) : ¬ Covers dest u c x y := by
  simp only [exactCall] at h
  split_ifs at h with hmeets
  simp only [Span.Meets, spanX_size, spanY_size] at hmeets
  unfold Covers
  omega

theorem NoOverflow.covers_iff {a : DirtyArgs} {us : List DisplayUnit} (h : NoOverflow a us)
    {u : DisplayUnit} (hu : u ∈ us) (x y : ℤ) :
    (∃ d ∈ unitCalls a u, (unitRect d.2).Has x y) ↔
      ∃ i < a.numClips.toNat, Covers a.dest u (a.clipAt i) x y := by
  rw [h.calls hu]
  constructor
  · rintro ⟨d, hd, hhas⟩
    obtain ⟨i, hi, hcall⟩ := List.mem_filterMap.mp hd
    obtain ⟨e, he, rfl⟩ := Option.map_eq_some_iff.mp hcall
    exact ⟨i, List.mem_range.mp hi, (Inside.covers_iff he x y).mp hhas⟩
  · rintro ⟨i, hi, hcov⟩
    cases he : exactCall a.dest u (a.clipAt i) with
    | none => exact absurd hcov (exactCall_none he x y)
    | some e =>
      refine ⟨(i, e), ?_, (Inside.covers_iff he x y).mpr hcov⟩
      exact List.mem_filterMap.mpr ⟨i, List.mem_range.mpr hi, by rw [he]; rfl⟩

theorem NoOverflow.placed {a : DirtyArgs} {us : List DisplayUnit} (h : NoOverflow a us)
    {u : DisplayUnit} (hu : u ∈ us) : ∀ d ∈ unitCalls a u, Placed a u d.2 := by
  rw [h.calls hu]
  intro d hd
  obtain ⟨i, hi, hcall⟩ := List.mem_filterMap.mp hd
  obtain ⟨e, he, rfl⟩ := Option.map_eq_some_iff.mp hcall
  obtain ⟨hx, hy⟩ := h.clips u hu i (List.mem_range.mp hi)
  exact placed_of_exactCall hx hy he

/-- The bounding rectangle: its edges are those of rectangles in it, and all are inside. -/
structure BoundingRect (ds : List (ℕ × Dirty)) (b : SignedRect) : Prop where
  left : IsLeast (values (fun d => d.2.unitX1) ds) b.left
  top : IsLeast (values (fun d => d.2.unitY1) ds) b.top
  right : IsGreatest (values (fun d => d.2.unitX2) ds) b.right
  bottom : IsGreatest (values (fun d => d.2.unitY2) ds) b.bottom

theorem BoundingRect.within {a : DirtyArgs} {u : DisplayUnit} {ds : List (ℕ × Dirty)}
    {b : SignedRect} (hb : BoundingRect ds b) (hp : ∀ d ∈ ds, Placed a u d.2) {d : ℕ × Dirty}
    (hd : d ∈ ds) :
    ((0 ≤ b.left ∧ b.left ≤ d.2.unitX1) ∧ d.2.unitX2 ≤ b.right) ∧
      ((0 ≤ b.top ∧ b.top ≤ d.2.unitY1) ∧ d.2.unitY2 ≤ b.bottom) := by
  obtain ⟨l, hl, hleft⟩ := hb.left.1
  obtain ⟨t, ht, htop⟩ := hb.top.1
  have hl0 : 0 ≤ b.left := by
    rw [← hleft]
    exact (hp l hl).inside.1.1
  have ht0 : 0 ≤ b.top := by
    rw [← htop]
    exact (hp t ht).inside.2.1
  exact ⟨⟨⟨hl0, hb.left.2 ⟨d, hd, rfl⟩⟩, hb.right.2 ⟨d, hd, rfl⟩⟩,
    ⟨⟨ht0, hb.top.2 ⟨d, hd, rfl⟩⟩, hb.bottom.2 ⟨d, hd, rfl⟩⟩⟩

theorem Placed.range {a : DirtyArgs} {u : DisplayUnit} {d : Dirty} (hd : Placed a u d) :
    d.unitX2 ≤ s32Max ∧ d.unitY2 ≤ s32Max :=
  ⟨hd.inside.1.2.2.trans (toInt_mem u.hdisplay).2, hd.inside.2.2.2.trans (toInt_mem u.vdisplay).2⟩

end Vmwgfx.SurfaceMoves
