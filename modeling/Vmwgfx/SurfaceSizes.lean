import Vmwgfx.SurfaceDefine

set_option autoImplicit false

/-!
# Sizes of surfaces

The sizes that are computed, beside the exact numbers of bytes. Products within an image are
clamped; the rounding to blocks, the pitch, the sum over the levels and the product with the
layers are not. When none of these wraps, the computed size is the exact one or the largest
32-bit value.
-/
namespace Vmwgfx.SurfaceSizes
open ExecbufState (Errno)
open SurfaceDefs SurfaceDefine

def u32Max : ℕ := 2 ^ 32 - 1

/-- How many blocks of `d` pixels cover `n` pixels. -/
def blocks (n d : UInt32) : ℕ := (n.toNat + d.toNat - 1) / d.toNat

def unitBytes (desc : SurfaceDesc) : UInt32 :=
  if isPlanarSurface desc then desc.bytesPerBlock else desc.pitchBytesPerBlock

def imageBytes (desc : SurfaceDesc) (size : DrmVmwSize) : ℕ :=
  blocks size.width desc.blockSize.width * blocks size.height desc.blockSize.height *
    blocks size.depth desc.blockSize.depth * (unitBytes desc).toNat

def mipSize (base : DrmVmwSize) (mip : ℕ) : DrmVmwSize := getMipSize base (UInt32.ofNat mip)

def chainBytes (desc : SurfaceDesc) (base : DrmVmwSize) (mips : ℕ) : ℕ :=
  ∑ mip ∈ Finset.range mips, imageBytes desc (mipSize base mip)

def RoundFits (n d : UInt32) : Prop := n.toNat + d.toNat - 1 < 2 ^ 32

/-- Neither the block counts nor the pitch of an image wrap. -/
structure ImageFits (desc : SurfaceDesc) (size : DrmVmwSize) : Prop where
  width : RoundFits size.width desc.blockSize.width
  height : RoundFits size.height desc.blockSize.height
  depth : RoundFits size.depth desc.blockSize.depth
  pitch : isPlanarSurface desc = false →
    blocks size.width desc.blockSize.width * desc.pitchBytesPerBlock.toNat < 2 ^ 32

/-- No 32-bit operation of `svga3dsurface_get_serialized_size` wraps. -/
structure NoWrap (desc : SurfaceDesc) (base : DrmVmwSize) (mips : ℕ) (layers : UInt32) : Prop where
  images : ∀ mip < mips, ImageFits desc (mipSize base mip)
  sums : ∀ mip < mips,
    (mipChainSize desc base mip).toNat + (mipBufferSize desc base mip).toNat < 2 ^ 32
  product : (mipChainSize desc base mips).toNat * layers.toNat < 2 ^ 32

/-- What the table says of a format that surfaces can have. -/
structure Sound (desc : SurfaceDesc) : Prop where
  width : 0 < desc.blockSize.width.toNat ∧ desc.blockSize.width.toNat ≤ 4 ∧
    (desc.blockSize.width.toNat = 1 ∨ 2 * desc.blockSize.width.toNat ≤ (unitBytes desc).toNat)
  height : 0 < desc.blockSize.height.toNat ∧ desc.blockSize.height.toNat ≤ 4 ∧
    (desc.blockSize.height.toNat = 1 ∨ 2 * desc.blockSize.height.toNat ≤ (unitBytes desc).toNat)
  depth : 0 < desc.blockSize.depth.toNat ∧ desc.blockSize.depth.toNat ≤ 4 ∧
    (desc.blockSize.depth.toNat = 1 ∨ 2 * desc.blockSize.depth.toNat ≤ (unitBytes desc).toNat)
  unit : 0 < (unitBytes desc).toNat

variable {desc : SurfaceDesc} {size base : DrmVmwSize} {n d : UInt32} {mip mips : ℕ}

theorem min_mul_min (x c : ℕ) : min (min x u32Max * c) u32Max = min (x * c) u32Max := by
  rcases Nat.eq_zero_or_pos c with rfl | hc
  · simp
  · rcases le_total x u32Max with hx | hx
    · rw [min_eq_left hx]
    · rw [min_eq_right hx, min_eq_right (Nat.le_mul_of_pos_right _ hc),
        min_eq_right (hx.trans (Nat.le_mul_of_pos_right _ hc))]

theorem product_toNat (a b : UInt32) : (a.toUInt64 * b.toUInt64).toNat = a.toNat * b.toNat := by
  have hlt : a.toNat * b.toNat < 2 ^ 64 :=
    calc a.toNat * b.toNat < 2 ^ 32 * 2 ^ 32 := Nat.mul_lt_mul'' a.toNat_lt b.toNat_lt
      _ = 2 ^ 64 := by norm_num
  rw [UInt64.toNat_mul, UInt32.toNat_toUInt64, UInt32.toNat_toUInt64, Nat.mod_eq_of_lt hlt]

theorem clampedUmul32_toNat (a b : UInt32) :
    (clampedUmul32 a b).toNat = min (a.toNat * b.toNat) u32Max := by
  have htmp := product_toNat a b
  unfold clampedUmul32
  dsimp only
  split_ifs with h
  · have hgt : u32Max < a.toNat * b.toNat := by
      rw [← htmp]
      exact UInt64.lt_iff_toNat_lt.1 h
    rw [min_eq_right hgt.le]
    rfl
  · have hle : a.toNat * b.toNat ≤ u32Max := by
      rw [← htmp]
      exact not_lt.1 fun hc => h (UInt64.lt_iff_toNat_lt.2 hc)
    rw [UInt64.toNat_toUInt32, htmp, min_eq_left hle]
    apply Nat.mod_eq_of_lt
    unfold u32Max at hle
    omega

theorem divRoundUp_toNat (h : RoundFits n d) (hd : 0 < d.toNat) :
    (divRoundUp n d).toNat = blocks n d := by
  have hn := n.toNat_lt
  have hd' := d.toNat_lt
  unfold RoundFits at h
  have hsum : (n + d - 1).toNat = n.toNat + d.toNat - 1 := by
    rw [UInt32.toNat_sub, UInt32.toNat_add]
    simp only [UInt32.reduceToNat]
    omega
  rw [divRoundUp, UInt32.toNat_div, hsum, blocks]

theorem imageSize_toNat (hs : Sound desc) (hf : ImageFits desc size) :
    (getImageBufferSize desc size 0).toNat = min (imageBytes desc size) u32Max := by
  have hw := divRoundUp_toNat hf.width hs.width.1
  have hh := divRoundUp_toNat hf.height hs.height.1
  have hd := divRoundUp_toNat hf.depth hs.depth.1
  unfold getImageBufferSize imageBytes unitBytes
  dsimp only
  cases hp : isPlanarSurface desc with
  | true =>
    simp only [if_true, clampedUmul32_toNat, getSizeInBlocks, hw, hh, hd, min_mul_min]
  | false =>
    have hpitch : (calculatePitch desc size).toNat =
        blocks size.width desc.blockSize.width * desc.pitchBytesPerBlock.toNat := by
      rw [calculatePitch, getSizeInBlocks, UInt32.toNat_mul, hw]
      exact Nat.mod_eq_of_lt (hf.pitch hp)
    simp only [if_true, Bool.false_eq_true, if_false, clampedUmul32_toNat, getSizeInBlocks, hh, hd,
      hpitch, min_mul_min]
    congr 1
    ring

theorem blocks_pos (hn : 0 < n.toNat) (hd : 0 < d.toNat) : 0 < blocks n d :=
  Nat.div_pos (by omega) hd

theorem le_blocks_mul (hd : 0 < d.toNat) : n.toNat ≤ blocks n d * d.toNat := by
  have hlt : n.toNat + d.toNat - 1 < blocks n d * d.toNat + d.toNat :=
    Nat.lt_div_mul_add hd
  omega

theorem one_le_max (a : UInt32) : 0 < (max a 1).toNat := by
  change 0 < (if a ≤ 1 then 1 else a).toNat
  split_ifs with h
  · exact Nat.one_pos
  · have hlt : ¬ a.toNat ≤ 1 := fun hle => h (UInt32.le_iff_toNat_le.2 hle)
    omega

theorem mipSize_pos (base : DrmVmwSize) (mip : ℕ) : 0 < (mipSize base mip).width.toNat ∧
    0 < (mipSize base mip).height.toNat ∧ 0 < (mipSize base mip).depth.toNat :=
  ⟨one_le_max _, one_le_max _, one_le_max _⟩

theorem roundFits_of_bytes {unit : ℕ} (hd : 0 < d.toNat ∧ d.toNat ≤ 4 ∧
    (d.toNat = 1 ∨ 2 * d.toNat ≤ unit)) (hb : blocks n d * unit < 2 ^ 32) : RoundFits n d := by
  have hn := n.toNat_lt
  have hle := le_blocks_mul (n := n) hd.1
  unfold RoundFits
  rcases hd.2.2 with hone | htwo
  · omega
  · have hunit : blocks n d * (2 * d.toNat) ≤ blocks n d * unit := Nat.mul_le_mul_left _ htwo
    have htwice : blocks n d * (2 * d.toNat) = 2 * (blocks n d * d.toNat) := by ring
    have hd4 := hd.2.1
    omega

theorem imageBytes_pos (hs : Sound desc) (base : DrmVmwSize) (mip : ℕ) :
    0 < imageBytes desc (mipSize base mip) := by
  obtain ⟨hw, hh, hd⟩ := mipSize_pos base mip
  exact Nat.mul_pos (Nat.mul_pos (Nat.mul_pos (blocks_pos hw hs.width.1)
    (blocks_pos hh hs.height.1)) (blocks_pos hd hs.depth.1)) hs.unit

theorem factors_le {w h d : ℕ} (u : ℕ) (hw : 0 < w) (hh : 0 < h) (hd : 0 < d) :
    w * u ≤ w * h * d * u ∧ h * u ≤ w * h * d * u ∧ d * u ≤ w * h * d * u := by
  refine ⟨?_, ?_, ?_⟩
  · calc w * u ≤ w * u * (h * d) := Nat.le_mul_of_pos_right _ (Nat.mul_pos hh hd)
      _ = w * h * d * u := by ring
  · calc h * u ≤ h * u * (w * d) := Nat.le_mul_of_pos_right _ (Nat.mul_pos hw hd)
      _ = w * h * d * u := by ring
  · calc d * u ≤ d * u * (w * h) := Nat.le_mul_of_pos_right _ (Nat.mul_pos hw hh)
      _ = w * h * d * u := by ring

theorem imageFits_of_pos (hs : Sound desc) (hw : 0 < size.width.toNat)
    (hh : 0 < size.height.toNat) (hd : 0 < size.depth.toNat)
    (hb : imageBytes desc size < 2 ^ 32) : ImageFits desc size := by
  obtain ⟨hwu, hhu, hdu⟩ := factors_le (unitBytes desc).toNat (blocks_pos hw hs.width.1)
    (blocks_pos hh hs.height.1) (blocks_pos hd hs.depth.1)
  refine ⟨roundFits_of_bytes hs.width (hwu.trans_lt hb),
    roundFits_of_bytes hs.height (hhu.trans_lt hb), roundFits_of_bytes hs.depth (hdu.trans_lt hb),
    fun hp => ?_⟩
  have hunit : unitBytes desc = desc.pitchBytesPerBlock := by
    rw [unitBytes, hp]
    rfl
  rw [← hunit]
  exact hwu.trans_lt hb

theorem imageFits_of_bytes (hs : Sound desc) (hb : imageBytes desc (mipSize base mip) < 2 ^ 32) :
    ImageFits desc (mipSize base mip) := by
  obtain ⟨hw, hh, hd⟩ := mipSize_pos base mip
  exact imageFits_of_pos hs hw hh hd hb

theorem chainBytes_succ (desc : SurfaceDesc) (base : DrmVmwSize) (mips : ℕ) :
    chainBytes desc base (mips + 1) =
      chainBytes desc base mips + imageBytes desc (mipSize base mips) := Finset.sum_range_succ _ _

theorem chainBytes_mono (desc : SurfaceDesc) (base : DrmVmwSize) (h : mip ≤ mips) :
    chainBytes desc base mip ≤ chainBytes desc base mips :=
  Finset.sum_le_sum_of_subset (Finset.range_subset_range.2 h)

theorem imageBytes_le_chain (h : mip < mips) :
    imageBytes desc (mipSize base mip) ≤ chainBytes desc base mips := by
  have hle := chainBytes_mono desc base (Nat.succ_le_of_lt h)
  have hsucc := chainBytes_succ desc base mip
  rw [Nat.succ_eq_add_one] at hle
  omega

theorem mipSize_toNat (hs : Sound desc) (hf : ImageFits desc (mipSize base mip)) :
    (mipBufferSize desc base mip).toNat = min (imageBytes desc (mipSize base mip)) u32Max :=
  imageSize_toNat hs hf

theorem chain_exact (hs : Sound desc) (hb : chainBytes desc base mips < 2 ^ 32) :
    (mipChainSize desc base mips).toNat = chainBytes desc base mips := by
  induction mips with
  | zero => rfl
  | succ mips ih =>
    have hsucc := chainBytes_succ desc base mips
    have hmips := ih (by omega)
    have hfits : ImageFits desc (mipSize base mips) := imageFits_of_bytes hs (by omega)
    have himage := mipSize_toNat hs hfits
    rw [min_eq_left (by unfold u32Max; omega)] at himage
    rw [mipChainSize, UInt32.toNat_add, hmips, himage, ← hsucc]
    exact Nat.mod_eq_of_lt hb

theorem noWrap_of_bytes (hs : Sound desc) {layers : UInt32} (hl : 0 < layers.toNat)
    (hb : layers.toNat * chainBytes desc base mips < 2 ^ 32) : NoWrap desc base mips layers := by
  have hchain : chainBytes desc base mips < 2 ^ 32 :=
    (Nat.le_mul_of_pos_left _ hl).trans_lt hb
  have himage : ∀ mip < mips, imageBytes desc (mipSize base mip) < 2 ^ 32 :=
    fun mip hmip => (imageBytes_le_chain hmip).trans_lt hchain
  refine ⟨fun mip hmip => imageFits_of_bytes hs (himage mip hmip), fun mip hmip => ?_, ?_⟩
  · have hle := chainBytes_mono desc base (Nat.succ_le_of_lt hmip)
    have hsucc := chainBytes_succ desc base mip
    rw [Nat.succ_eq_add_one] at hle
    have hfits := imageFits_of_bytes hs (himage mip hmip)
    rw [chain_exact hs (by omega), mipSize_toNat hs hfits]
    have hmin := min_le_left (imageBytes desc (mipSize base mip)) u32Max
    omega
  · rw [chain_exact hs hchain, mul_comm]
    exact hb

theorem noWrap_single (hs : Sound desc) {layers : UInt32} (hl : layers.toNat = 1)
    (hf : ImageFits desc (mipSize base 0)) : NoWrap desc base 1 layers := by
  have hsize := mipSize_toNat hs hf
  have hmax := min_le_right (imageBytes desc (mipSize base 0)) u32Max
  have hlast : u32Max < 2 ^ 32 := by norm_num [u32Max]
  refine ⟨?_, ?_, ?_⟩
  · intro mip hmip
    obtain rfl : mip = 0 := by omega
    exact hf
  · intro mip hmip
    obtain rfl : mip = 0 := by omega
    rw [hsize]
    simp only [mipChainSize, UInt32.toNat_zero, zero_add]
    omega
  · rw [hl, mul_one]
    exact UInt32.toNat_lt _

theorem chainBytes_pos (hs : Sound desc) (base : DrmVmwSize) (h : 0 < mips) :
    0 < chainBytes desc base mips :=
  (imageBytes_pos hs base 0).trans_le (imageBytes_le_chain h)

theorem chain_of_sums (hs : Sound desc) (hi : ∀ mip < mips, ImageFits desc (mipSize base mip))
    (hsum : ∀ mip < mips,
      (mipChainSize desc base mip).toNat + (mipBufferSize desc base mip).toNat < 2 ^ 32) :
    (mipChainSize desc base mips).toNat = chainBytes desc base mips ∨
      (mips = 1 ∧ (mipChainSize desc base mips).toNat = u32Max ∧
        u32Max < chainBytes desc base mips) := by
  induction mips with
  | zero => exact .inl rfl
  | succ mips ih =>
    have hlast := hsum mips (Nat.lt_succ_self _)
    have hsize := mipSize_toNat hs (hi mips (Nat.lt_succ_self _))
    have hpos := imageBytes_pos hs base mips
    have hsucc := chainBytes_succ desc base mips
    have hadd : (mipChainSize desc base (mips + 1)).toNat =
        (mipChainSize desc base mips).toNat + (mipBufferSize desc base mips).toNat := by
      rw [mipChainSize, UInt32.toNat_add, Nat.mod_eq_of_lt hlast]
    rcases ih (fun m hm => hi m (by omega)) (fun m hm => hsum m (by omega)) with hexact | hone
    · rcases le_or_gt (imageBytes desc (mipSize base mips)) u32Max with hle | hgt
      · left
        rw [hadd, hexact, hsize, min_eq_left hle, hsucc]
      · -- a clamped level leaves no room for another one
        rw [min_eq_right hgt.le] at hsize
        have hzero : chainBytes desc base mips = 0 := by
          unfold u32Max at hsize
          omega
        have hmips : mips = 0 := by
          by_contra hne
          have := chainBytes_pos hs base (Nat.pos_of_ne_zero hne)
          omega
        right
        refine ⟨by omega, by omega, by omega⟩
    · -- nor does one level that has been clamped before
      have hmin : 0 < min (imageBytes desc (mipSize base mips)) u32Max :=
        lt_min hpos (by norm_num [u32Max])
      have hfull := hone.2.1
      unfold u32Max at hfull
      omega

theorem noWrap_iff (hs : Sound desc) (base : DrmVmwSize) (mips : ℕ) {layers : UInt32}
    (hl : 0 < layers.toNat) :
    NoWrap desc base mips layers ↔ layers.toNat * chainBytes desc base mips ≤ u32Max ∨
      (mips = 1 ∧ layers.toNat = 1 ∧ ImageFits desc (mipSize base 0)) := by
  constructor
  · intro h
    rcases chain_of_sums hs h.images h.sums with hexact | ⟨rfl, hfull, -⟩
    · left
      have hprod := h.product
      rw [hexact, mul_comm] at hprod
      unfold u32Max
      omega
    · right
      refine ⟨rfl, ?_, h.images 0 Nat.one_pos⟩
      have hprod := h.product
      rw [hfull] at hprod
      unfold u32Max at hprod
      omega
  · rintro (hle | ⟨rfl, hone, hf⟩)
    · exact noWrap_of_bytes hs hl (by unfold u32Max at hle; omega)
    · exact noWrap_single hs hone hf

theorem NoWrap.serialized {layers : UInt32} (hs : Sound desc) (h : NoWrap desc base mips layers) :
    (mipChainSize desc base mips * layers).toNat =
      min (layers.toNat * chainBytes desc base mips) u32Max := by
  have hprod : (mipChainSize desc base mips * layers).toNat =
      (mipChainSize desc base mips).toNat * layers.toNat := by
    rw [UInt32.toNat_mul, Nat.mod_eq_of_lt h.product]
  rw [hprod]
  have hlt := h.product
  rcases chain_of_sums hs h.images h.sums with hexact | ⟨rfl, hfull, hgt⟩
  · rw [hexact, mul_comm] at hlt ⊢
    rw [min_eq_left]
    unfold u32Max
    omega
  · rw [hfull] at hlt ⊢
    rcases Nat.eq_zero_or_pos layers.toNat with hz | hp
    · rw [hz]
      simp
    · rw [min_eq_right (hgt.le.trans (Nat.le_mul_of_pos_left _ hp))]
      unfold u32Max at hlt ⊢
      omega

theorem sizeExtended_toNat (format : UInt32) (base : DrmVmwSize) (mips layers samples : UInt32)
    (hp : 0 < samples.toNat) : (getSerializedSizeExtended format base mips layers samples).toNat =
      min ((getSerializedSize format base mips layers).toNat * samples.toNat) u32Max := by
  have hmax : max 1 samples = samples := by
    change (if 1 ≤ samples then samples else 1) = samples
    rw [if_pos]
    exact UInt32.le_iff_toNat_le.2 hp
  generalize hq : getSerializedSize format base mips layers = q
  have hprod := product_toNat q samples
  unfold getSerializedSizeExtended
  dsimp only
  rw [hq, hmax]
  change (if q.toUInt64 * samples.toUInt64 ≤ 0xffffffff then q.toUInt64 * samples.toUInt64
    else 0xffffffff).toUInt32.toNat = _
  split_ifs with hle
  · have hle' : q.toNat * samples.toNat ≤ u32Max := by
      rw [← hprod]
      exact UInt64.le_iff_toNat_le.1 hle
    rw [UInt64.toNat_toUInt32, hprod, min_eq_left hle']
    apply Nat.mod_eq_of_lt
    unfold u32Max at hle'
    omega
  · have hgt : u32Max < q.toNat * samples.toNat := by
      rw [← hprod]
      exact not_le.1 fun hc => hle (UInt64.le_iff_toNat_le.2 hc)
    rw [min_eq_right hgt.le]
    rfl

variable {o : DefineEnds} {dev : VmwPrivate} {req : CreateExtReq} {srf : Surface}

def reqFlags (req : CreateExtReq) : UInt64 :=
  svga3dFlags64 req.svga3dFlagsUpper32Bits req.svga3dFlags

def reqLayers (req : CreateExtReq) : UInt32 := numLayers (reqFlags req) req.arraySize

def reqSamples (req : CreateExtReq) : UInt32 := sampleCount (reqFlags req) req.multisampleCount

/-- The exact size of all samples of all levels of all layers in bytes. -/
def exactBytes (req : CreateExtReq) : ℕ :=
  (reqLayers req).toNat * chainBytes (getDesc req.format) req.baseSize req.mipLevels.toNat *
    (reqSamples req).toNat

/-- The backup size covers the surface, and no 32-bit operation has wrapped. -/
def Covered (req : CreateExtReq) (srf : Surface) : Prop :=
  exactBytes req ≤ srf.backupSize.toNat ∧
    NoWrap (getDesc req.format) req.baseSize req.mipLevels.toNat (reqLayers req)

/-- The exact size has 32 bits; or it exceeds that by the stream output state at most, which
    the surface has room for, and then its layers fit or it is one image whose block counts
    and pitch fit. -/
def Fits (req : CreateExtReq) : Prop :=
  exactBytes req ≤ u32Max ∨
    (hasFlag (reqFlags req) svga3dSurfaceBindStreamOutput = true ∧
      exactBytes req ≤ u32Max + soStateSize.toNat ∧
      ((reqLayers req).toNat *
          chainBytes (getDesc req.format) req.baseSize req.mipLevels.toNat ≤ u32Max ∨
        (req.mipLevels.toNat = 1 ∧ (reqLayers req).toNat = 1 ∧
          ImageFits (getDesc req.format) (mipSize req.baseSize 0))))

instance decidableSound (desc : SurfaceDesc) : Decidable (Sound desc) :=
  decidable_of_iff ((0 < desc.blockSize.width.toNat ∧ desc.blockSize.width.toNat ≤ 4 ∧
      (desc.blockSize.width.toNat = 1 ∨
        2 * desc.blockSize.width.toNat ≤ (unitBytes desc).toNat)) ∧
    (0 < desc.blockSize.height.toNat ∧ desc.blockSize.height.toNat ≤ 4 ∧
      (desc.blockSize.height.toNat = 1 ∨
        2 * desc.blockSize.height.toNat ≤ (unitBytes desc).toNat)) ∧
    (0 < desc.blockSize.depth.toNat ∧ desc.blockSize.depth.toNat ≤ 4 ∧
      (desc.blockSize.depth.toNat = 1 ∨
        2 * desc.blockSize.depth.toNat ≤ (unitBytes desc).toNat)) ∧ 0 < (unitBytes desc).toNat)
    ⟨fun h => ⟨h.1, h.2.1, h.2.2.1, h.2.2.2⟩, fun h => ⟨h.width, h.height, h.depth, h.unit⟩⟩

theorem sound_of_desc : ∀ desc ∈ svga3dSurfaceDescs, desc.blockDesc ≠ .none → Sound desc := by
  decide +kernel

theorem sound_of_screenTarget {format : UInt32} (h : isScreenTargetFormat format = true) :
    Sound (getDesc format) := by
  have hgb : ∀ f ∈ [SurfaceFormat.x8r8g8b8, .a8r8g8b8, .r5g6b5, .x1r5g5b5, .a1r5g5b5, .p8],
      Sound (getDesc f.value) := by decide +kernel
  have hdx : ∀ f ∈ [SurfaceFormat.r8g8b8a8Unorm, .b8g8r8a8Unorm, .b8g8r8x8Unorm],
      Sound (getDesc f.value) := by decide +kernel
  simp only [isScreenTargetFormat, isGbScreenTargetFormat, isDxScreenTargetFormat,
    Bool.or_eq_true, List.any_eq_true, beq_iff_eq] at h
  rcases h with ⟨f, hf, rfl⟩ | ⟨f, hf, rfl⟩
  · exact hgb f hf
  · exact hdx f hf

theorem sound_of_valid {format : UInt32} (h : (getDesc format).blockDesc ≠ .none) :
    Sound (getDesc format) := by
  apply sound_of_desc _ ?_ h
  unfold getDesc at h ⊢
  rw [List.getD_eq_getElem?_getD] at h ⊢
  cases hget : svga3dSurfaceDescs[format.toNat]? with
  | none =>
    rw [hget] at h
    exact absurd rfl h
  | some desc => exact List.mem_of_getElem? hget

theorem reqLayers_pos (req : CreateExtReq) : 0 < (reqLayers req).toNat := by
  unfold reqLayers numLayers
  split_ifs with h
  · exact Nat.pos_of_ne_zero fun hz => h (UInt32.toNat_inj.1 hz)
  · exact Nat.succ_pos 5
  · exact Nat.one_pos

structure Defined (req : CreateExtReq) (srf : Surface) : Prop where
  sound : Sound (getDesc req.format)
  samples : 0 < (reqSamples req).toNat
  backupSize : srf.backupSize = (getSerializedSizeExtended req.format req.baseSize req.mipLevels
    (reqLayers req) (reqSamples req)).toUInt64 +
      if hasFlag (reqFlags req) svga3dSurfaceBindStreamOutput then soStateSize else 0

theorem privDefine_defined {forScanout : Bool}
    (h : vmwSurfaceGbPrivDefine o dev (reqFlags req) forScanout req = .ok srf)
    (hok : requestOk dev (reqFlags req) req = true) : Defined req srf := by
  have hsamples : 0 < (reqSamples req).toNat := by
    unfold reqSamples sampleCount
    split_ifs with hm
    · unfold requestOk at hok
      rw [hm] at hok
      have hne : req.multisampleCount ≠ 0 := by
        rintro hz
        simp [hz] at hok
      exact Nat.pos_of_ne_zero fun hz => hne (UInt32.toNat_inj.1 hz)
    · exact Nat.one_pos
  unfold vmwSurfaceGbPrivDefine at h
  dsimp only at h
  by_cases hformat : (forScanout && !isScreenTargetFormat req.format) = true
  · rw [if_pos hformat] at h
    cases h
  rw [if_neg hformat, ite_eq_iff] at h
  obtain ⟨-, h⟩ | ⟨-, h⟩ := h
  · cases h
  by_cases hdesc : (!forScanout && (getDesc req.format).blockDesc == .none) = true
  · rw [if_pos hdesc] at h
    cases h
  rw [if_neg hdesc, ite_eq_iff] at h
  obtain ⟨-, h⟩ | ⟨-, h⟩ := h
  · cases h
  split at h
  · cases h
  · cases h
  · cases h
  · have hbackup : srf.backupSize = (getSerializedSizeExtended req.format req.baseSize
        req.mipLevels (reqLayers req) (reqSamples req)).toUInt64 +
          if hasFlag (reqFlags req) svga3dSurfaceBindStreamOutput then soStateSize else 0 := by
      split at h
      · cases h
      · obtain rfl := Except.ok.inj h
        rfl
    refine ⟨?_, hsamples, hbackup⟩
    cases forScanout with
    | true => exact sound_of_screenTarget (by simpa using hformat)
    | false => exact sound_of_valid (by simpa using hdesc)

theorem defineInternal_defined (h : vmwGbSurfaceDefineInternal o dev req = .ok srf) :
    Defined req srf := by
  unfold vmwGbSurfaceDefineInternal at h
  dsimp only at h
  split_ifs at h with hok
  have hok' : requestOk dev (reqFlags req) req = true := by simpa [reqFlags] using hok
  split at h
  · cases h
  · rename_i t ht
    split at h
    · cases h
    · cases h
    · cases h
    · obtain rfl := Except.ok.inj h
      exact privDefine_defined ht hok'

theorem Defined.backup_toNat (hd : Defined req srf)
    (hn : NoWrap (getDesc req.format) req.baseSize req.mipLevels.toNat (reqLayers req)) :
    srf.backupSize.toNat = min (exactBytes req) u32Max +
      if hasFlag (reqFlags req) svga3dSurfaceBindStreamOutput then soStateSize.toNat else 0 := by
  have hsize : (getSerializedSizeExtended req.format req.baseSize req.mipLevels (reqLayers req)
      (reqSamples req)).toNat = min (exactBytes req) u32Max := by
    rw [sizeExtended_toNat _ _ _ _ _ hd.samples, getSerializedSize, hn.serialized hd.sound,
      min_mul_min]
    rfl
  have hle := min_le_right (exactBytes req) u32Max
  rw [hd.backupSize, UInt64.toNat_add, UInt32.toNat_toUInt64, hsize]
  have hstate : soStateSize.toNat = 16 := rfl
  unfold u32Max at hle ⊢
  split_ifs
  · apply Nat.mod_eq_of_lt
    omega
  · rw [UInt64.toNat_zero, add_zero]
    apply Nat.mod_eq_of_lt
    omega

/-- A surface is covered without a wrap exactly if its size fits. -/
theorem define_covered_iff (h : vmwGbSurfaceDefineInternal o dev req = .ok srf) :
    Covered req srf ↔ Fits req := by
  have hd := defineInternal_defined h
  have hiff := noWrap_iff hd.sound req.baseSize req.mipLevels.toNat (reqLayers_pos req)
  have hlayers : (reqLayers req).toNat *
      chainBytes (getDesc req.format) req.baseSize req.mipLevels.toNat ≤ exactBytes req :=
    Nat.le_mul_of_pos_right _ hd.samples
  unfold Covered Fits
  constructor
  · rintro ⟨hle, hn⟩
    rw [hd.backup_toNat hn] at hle
    rcases le_or_gt (exactBytes req) u32Max with hfit | hbig
    · exact .inl hfit
    · right
      rw [min_eq_right hbig.le] at hle
      split_ifs at hle with hflag
      · exact ⟨hflag, hle, hiff.1 hn⟩
      · omega
  · rintro (hfit | ⟨hflag, hle, hcase⟩)
    · have hn := hiff.2 (.inl (hlayers.trans hfit))
      refine ⟨?_, hn⟩
      rw [hd.backup_toNat hn, min_eq_left hfit]
      exact Nat.le_add_right _ _
    · have hn := hiff.2 hcase
      refine ⟨?_, hn⟩
      rw [hd.backup_toNat hn, if_pos hflag]
      rcases le_total (exactBytes req) u32Max with hfit | hbig
      · rw [min_eq_left hfit]
        exact Nat.le_add_right _ _
      · rw [min_eq_right hbig]
        exact hle

def anyHost : VmwPrivate := ⟨true, true, 16384, 16384, false, 0, 0⟩

def noFailure : DefineEnds := ⟨none, none, none, none, none, .ok 0, none, none⟩

/-- An array of surfaces with the format `SVGA3D_A8R8G8B8`. -/
def arrayReq (side layers : UInt32) : CreateExtReq :=
  ⟨0, 2, 1, 0, 0, svga3dInvalidId, layers, ⟨side, side, 1⟩, 0, 0, 0⟩

def arraySurface (side layers : UInt32) (backupSize : UInt64) : Surface :=
  ⟨0, 2, false, 1, ⟨side, side, 1⟩, layers, 0, 0, 0, backupSize⟩

theorem smallArray_covered :
    vmwGbSurfaceDefineInternal noFailure anyHost (arrayReq 256 4) =
      .ok (arraySurface 256 4 0x100000) ∧
    (Covered (arrayReq 256 4) (arraySurface 256 4 0x100000) ↔ Fits (arrayReq 256 4)) := by
  have hdef : vmwGbSurfaceDefineInternal noFailure anyHost (arrayReq 256 4) =
      .ok (arraySurface 256 4 0x100000) := by rfl
  exact ⟨hdef, define_covered_iff hdef⟩

/-- Four layers of a gigabyte are accepted with a backup of no size. -/
theorem wrappedArray_uncovered :
    vmwGbSurfaceDefineInternal noFailure anyHost (arrayReq 16384 4) =
      .ok (arraySurface 16384 4 0) ∧
    ¬ Covered (arrayReq 16384 4) (arraySurface 16384 4 0) := by
  refine ⟨by rfl, ?_⟩
  rintro ⟨hle, -⟩
  have hexact : exactBytes (arrayReq 16384 4) = 2 ^ 32 := by decide +kernel
  rw [hexact] at hle
  exact absurd hle (by decide)

end Vmwgfx.SurfaceSizes
