import Vmwgfx.SurfaceSizes

set_option autoImplicit false

/-!
# Sizes of images

`svga3dsurface_get_image_buffer_size` beside the exact number of bytes. The products are
clamped; the sum that rounds up to blocks and the pitch of packed rows are plain 32-bit
arithmetic, and when one of them wraps the size is too small.
-/
namespace Vmwgfx.ImageSizes
open SurfaceDefs SurfaceSizes

/-- The bytes of a row of blocks: the pitch that is asked for, or else packed blocks. -/
def rowBytes (desc : SurfaceDesc) (size : DrmVmwSize) (pitch : UInt32) : ℕ :=
  if pitch = 0 then blocks size.width desc.blockSize.width * desc.pitchBytesPerBlock.toNat
  else pitch.toNat

/-- The exact size of an image with a pitch. A planar image has no pitch. -/
def bufferBytes (desc : SurfaceDesc) (size : DrmVmwSize) (pitch : UInt32) : ℕ :=
  if isPlanarSurface desc then
    blocks size.width desc.blockSize.width * blocks size.height desc.blockSize.height *
      blocks size.depth desc.blockSize.depth * desc.bytesPerBlock.toNat
  else
    blocks size.height desc.blockSize.height * rowBytes desc size pitch *
      blocks size.depth desc.blockSize.depth

/-- Every value on the way is exact, and the result is the exact size, clamped. -/
structure Exact (desc : SurfaceDesc) (size : DrmVmwSize) (pitch : UInt32) : Prop where
  width : (getSizeInBlocks desc size).width.toNat = blocks size.width desc.blockSize.width
  height : (getSizeInBlocks desc size).height.toNat = blocks size.height desc.blockSize.height
  depth : (getSizeInBlocks desc size).depth.toNat = blocks size.depth desc.blockSize.depth
  packed : isPlanarSurface desc = false → pitch = 0 →
    (calculatePitch desc size).toNat = rowBytes desc size 0
  products : ∀ a b : UInt32, (a.toUInt64 * b.toUInt64).toNat = a.toNat * b.toNat
  result : (getImageBufferSize desc size pitch).toNat = min (bufferBytes desc size pitch) u32Max

/-- The sums that round up have 32 bits, and so has the pitch where it is computed. -/
structure Fits (desc : SurfaceDesc) (size : DrmVmwSize) (pitch : UInt32) : Prop where
  width : RoundFits size.width desc.blockSize.width
  height : RoundFits size.height desc.blockSize.height
  depth : RoundFits size.depth desc.blockSize.depth
  packed : isPlanarSurface desc = false → pitch = 0 →
    blocks size.width desc.blockSize.width * desc.pitchBytesPerBlock.toNat < 2 ^ 32

structure HasBlocks (desc : SurfaceDesc) : Prop where
  width : 0 < desc.blockSize.width.toNat
  height : 0 < desc.blockSize.height.toNat
  depth : 0 < desc.blockSize.depth.toNat

variable {desc : SurfaceDesc} {size : DrmVmwSize} {pitch n d : UInt32}

instance decidableHasBlocks (desc : SurfaceDesc) : Decidable (HasBlocks desc) :=
  decidable_of_iff (0 < desc.blockSize.width.toNat ∧ 0 < desc.blockSize.height.toNat ∧
    0 < desc.blockSize.depth.toNat) ⟨fun h => ⟨h.1, h.2.1, h.2.2⟩, fun h => ⟨h.1, h.2, h.3⟩⟩

theorem hasBlocks_of_desc : ∀ desc ∈ svga3dSurfaceDescs, HasBlocks desc := by
  decide +kernel

theorem getDesc_mem (format : UInt32) : getDesc format ∈ svga3dSurfaceDescs := by
  unfold getDesc
  rw [List.getD_eq_getElem?_getD]
  cases hget : svga3dSurfaceDescs[format.toNat]? with
  | none => exact List.mem_cons_self
  | some desc => exact List.mem_of_getElem? hget

theorem divRoundUp_wrapped (hd : 0 < d.toNat) (h : ¬ RoundFits n d) :
    (divRoundUp n d).toNat = 0 ∧ 0 < blocks n d := by
  have hn := n.toNat_lt
  have hd' := d.toNat_lt
  unfold RoundFits at h
  have hsum : (n + d - 1).toNat = n.toNat + d.toNat - 1 - 2 ^ 32 := by
    rw [UInt32.toNat_sub, UInt32.toNat_add]
    simp only [UInt32.reduceToNat]
    omega
  constructor
  · rw [divRoundUp, UInt32.toNat_div, hsum]
    apply Nat.div_eq_of_lt
    omega
  · apply blocks_pos _ hd
    omega

theorem divRoundUp_exact_iff (hd : 0 < d.toNat) :
    (divRoundUp n d).toNat = blocks n d ↔ RoundFits n d := by
  constructor
  · intro h
    by_contra hwrap
    have hzero := divRoundUp_wrapped hd hwrap
    omega
  · intro h
    exact divRoundUp_toNat h hd

theorem calculatePitch_toNat
    (hw : (getSizeInBlocks desc size).width.toNat = blocks size.width desc.blockSize.width) :
    (calculatePitch desc size).toNat =
      blocks size.width desc.blockSize.width * desc.pitchBytesPerBlock.toNat % 2 ^ 32 := by
  rw [calculatePitch, UInt32.toNat_mul, hw]

theorem usedPitch_toNat (hb : HasBlocks desc) (hf : Fits desc size pitch)
    (hp : isPlanarSurface desc = false) :
    (if pitch = 0 then calculatePitch desc size else pitch).toNat = rowBytes desc size pitch := by
  unfold rowBytes
  split_ifs with hz
  · rw [calculatePitch_toNat (divRoundUp_toNat hf.width hb.width)]
    exact Nat.mod_eq_of_lt (hf.packed hp hz)
  · rfl

theorem bufferSize_toNat (hb : HasBlocks desc) (hf : Fits desc size pitch) :
    (getImageBufferSize desc size pitch).toNat = min (bufferBytes desc size pitch) u32Max := by
  have hw := divRoundUp_toNat hf.width hb.width
  have hh := divRoundUp_toNat hf.height hb.height
  have hd := divRoundUp_toNat hf.depth hb.depth
  unfold getImageBufferSize bufferBytes
  dsimp only
  cases hp : isPlanarSurface desc with
  | true =>
    simp only [if_true, clampedUmul32_toNat, getSizeInBlocks, hw, hh, hd, min_mul_min]
  | false =>
    simp only [Bool.false_eq_true, if_false, clampedUmul32_toNat, min_mul_min,
      usedPitch_toNat hb hf hp]
    rw [getSizeInBlocks, hh, hd]

theorem bufferBytes_packed (desc : SurfaceDesc) (size : DrmVmwSize) :
    bufferBytes desc size 0 = imageBytes desc size := by
  unfold bufferBytes imageBytes unitBytes rowBytes
  cases isPlanarSurface desc with
  | true => rfl
  | false =>
    simp only [Bool.false_eq_true, if_false, if_true]
    ring

theorem bufferSize_packed (desc : SurfaceDesc) (size : DrmVmwSize) :
    getImageBufferSize desc size (calculatePitch desc size) = getImageBufferSize desc size 0 := by
  have hpitch : (if calculatePitch desc size = 0 then calculatePitch desc size
      else calculatePitch desc size) = calculatePitch desc size := ite_self _
  simp only [getImageBufferSize, if_true, hpitch]

theorem divRoundUp_le (n : UInt32) (hd : 0 < d.toNat) : (divRoundUp n d).toNat ≤ blocks n d := by
  by_cases h : RoundFits n d
  · exact (divRoundUp_toNat h hd).le
  · have hzero := divRoundUp_wrapped hd h
    omega

theorem bufferSize_le (hb : HasBlocks desc) (size : DrmVmwSize) :
    (getImageBufferSize desc size 0).toNat ≤ imageBytes desc size := by
  have hw := divRoundUp_le size.width hb.width
  have hh := divRoundUp_le size.height hb.height
  have hd := divRoundUp_le size.depth hb.depth
  rw [← bufferBytes_packed]
  unfold getImageBufferSize bufferBytes rowBytes
  dsimp only
  cases isPlanarSurface desc with
  | true =>
    simp only [if_true, clampedUmul32_toNat, getSizeInBlocks, min_mul_min]
    apply (min_le_left _ _).trans
    gcongr
  | false =>
    have hpitch : (calculatePitch desc size).toNat ≤
        blocks size.width desc.blockSize.width * desc.pitchBytesPerBlock.toNat := by
      rw [calculatePitch, UInt32.toNat_mul]
      exact (Nat.mod_le _ _).trans (Nat.mul_le_mul_right _ hw)
    simp only [Bool.false_eq_true, if_false, if_true, clampedUmul32_toNat, getSizeInBlocks,
      min_mul_min]
    apply (min_le_left _ _).trans
    gcongr

theorem blocks_zero (hd : 0 < d.toNat) (hn : n.toNat = 0) : blocks n d = 0 := by
  unfold blocks
  apply Nat.div_eq_of_lt
  omega

theorem sound_or_invalid : ∀ desc ∈ svga3dSurfaceDescs, Sound desc ∨ desc = formatInvalidDesc := by
  decide +kernel

theorem bufferSize_exact (hdesc : desc ∈ svga3dSurfaceDescs)
    (hbytes : imageBytes desc size < 2 ^ 32) :
    (getImageBufferSize desc size 0).toNat = imageBytes desc size := by
  have hle := bufferSize_le (hasBlocks_of_desc desc hdesc) size
  rcases sound_or_invalid desc hdesc with hs | rfl
  · by_cases hpos : 0 < size.width.toNat ∧ 0 < size.height.toNat ∧ 0 < size.depth.toNat
    · rw [imageSize_toNat hs (imageFits_of_pos hs hpos.1 hpos.2.1 hpos.2.2 hbytes)]
      apply min_eq_left
      unfold u32Max
      omega
    · -- an empty image
      have hzero : imageBytes desc size = 0 := by
        unfold imageBytes
        have hcase : size.width.toNat = 0 ∨ size.height.toNat = 0 ∨ size.depth.toNat = 0 := by
          omega
        rcases hcase with hw | hh | hd
        · rw [blocks_zero hs.width.1 hw, zero_mul, zero_mul, zero_mul]
        · rw [blocks_zero hs.height.1 hh, mul_zero, zero_mul, zero_mul]
        · rw [blocks_zero hs.depth.1 hd, mul_zero, zero_mul]
      omega
  · -- blocks without a byte
    have hzero : imageBytes formatInvalidDesc size = 0 := Nat.mul_zero _
    omega

/-- The size of an image is computed exactly, or clamped, as long as neither the rounding nor
    the pitch wraps. -/
theorem imageSize_exact_iff (hdesc : desc ∈ svga3dSurfaceDescs) (size : DrmVmwSize)
    (pitch : UInt32) : Exact desc size pitch ↔ Fits desc size pitch := by
  have hb := hasBlocks_of_desc desc hdesc
  constructor
  · intro h
    have hw := (divRoundUp_exact_iff hb.width).1 h.width
    refine ⟨hw, (divRoundUp_exact_iff hb.height).1 h.height,
      (divRoundUp_exact_iff hb.depth).1 h.depth, ?_⟩
    intro hp hz
    have hpitch := h.packed hp hz
    rw [calculatePitch_toNat h.width] at hpitch
    unfold rowBytes at hpitch
    rw [if_pos rfl] at hpitch
    rw [← hpitch]
    exact Nat.mod_lt _ (by norm_num)
  · intro h
    have hw := divRoundUp_toNat h.width hb.width
    refine ⟨hw, divRoundUp_toNat h.height hb.height, divRoundUp_toNat h.depth hb.depth, ?_,
      product_toNat, bufferSize_toNat hb h⟩
    intro hp hz
    rw [calculatePitch_toNat hw, Nat.mod_eq_of_lt (h.packed hp hz)]
    rfl

/-- The format `SVGA3D_A8R8G8B8`. -/
def argbDesc : SurfaceDesc := ⟨.a8r8g8b8, .rgbaUnorm, ⟨1, 1, 1⟩, 4, 4⟩

theorem argbDesc_mem : argbDesc ∈ svga3dSurfaceDescs := by
  decide +kernel

theorem screenImage_exact_iff : argbDesc ∈ svga3dSurfaceDescs ∧
    (Exact argbDesc ⟨1024, 768, 1⟩ 0 ↔ Fits argbDesc ⟨1024, 768, 1⟩ 0) :=
  ⟨argbDesc_mem, imageSize_exact_iff argbDesc_mem _ _⟩

/-- The pitch of a row of four gigabytes is no byte, and so is the image. -/
theorem longRow_wrapped : argbDesc ∈ svga3dSurfaceDescs ∧
    getImageBufferSize argbDesc ⟨0x40000000, 1, 1⟩ 0 = 0 ∧
    bufferBytes argbDesc ⟨0x40000000, 1, 1⟩ 0 = 2 ^ 32 ∧
    ¬ Exact argbDesc ⟨0x40000000, 1, 1⟩ 0 := by
  have hsize : getImageBufferSize argbDesc ⟨0x40000000, 1, 1⟩ 0 = 0 := by decide +kernel
  have hexact : bufferBytes argbDesc ⟨0x40000000, 1, 1⟩ 0 = 2 ^ 32 := by decide +kernel
  refine ⟨argbDesc_mem, hsize, hexact, ?_⟩
  intro h
  have hresult := h.result
  rw [hsize, hexact] at hresult
  exact absurd hresult (by decide)

end Vmwgfx.ImageSizes
