import Vmwgfx.ImageSizes
import Vmwgfx.Tilings

set_option autoImplicit false

/-!
# Offsets of images

`svga3dsurface_get_image_offset` walks the levels of a face as
`svga3dsurface_get_serialized_size` does, and keeps the sum of those before the one asked for.
When the exact size of the surface has 32 bits the images lie face by face, and within a face
level by level, without a gap.
-/
namespace Vmwgfx.ImageOffsets
open SurfaceDefs SurfaceSizes ImageSizes Tilings

/-- The loop of `svga3dsurface_get_image_offset`: `mipChainBytes` and `mipChainBytesToLevel`. -/
def imageOffsetLoop (desc : SurfaceDesc) (baseLevelSize : DrmVmwSize) (mip : UInt32) :
    ℕ → UInt32 × UInt32
  | 0 => (0, 0)
  | i + 1 =>
    let sums := imageOffsetLoop desc baseLevelSize mip i
    let mipSize := getMipSize baseLevelSize (UInt32.ofNat i)
    let bytes := getImageBufferSize desc mipSize 0
    (sums.1 + bytes, if UInt32.ofNat i < mip then sums.2 + bytes else sums.2)

/-- `svga3dsurface_get_image_offset`. -/
def getImageOffset (format : UInt32) (baseLevelSize : DrmVmwSize)
    (numMipLevels face mip : UInt32) : UInt32 :=
  let sums := imageOffsetLoop (getDesc format) baseLevelSize mip numMipLevels.toNat
  sums.1 * face + sums.2

/-- Where the image lies that is the `k`-th, face by face and level by level. -/
def offsetAt (format : UInt32) (base : DrmVmwSize) (numMipLevels : UInt32) (k : ℕ) : ℕ :=
  (getImageOffset format base numMipLevels (UInt32.ofNat (k / numMipLevels.toNat))
    (UInt32.ofNat (k % numMipLevels.toNat))).toNat

def levelSize (desc : SurfaceDesc) (base : DrmVmwSize) (mip : ℕ) : ℕ :=
  (mipBufferSize desc base mip).toNat

def sizeAt (format : UInt32) (base : DrmVmwSize) (numMipLevels : UInt32) (k : ℕ) : ℕ :=
  levelSize (getDesc format) base (k % numMipLevels.toNat)

variable {desc : SurfaceDesc} {base : DrmVmwSize} {mip mips : ℕ} {format : UInt32}

theorem level_toNat (hdesc : desc ∈ svga3dSurfaceDescs)
    (hb : imageBytes desc (mipSize base mip) < 2 ^ 32) :
    levelSize desc base mip = imageBytes desc (mipSize base mip) :=
  bufferSize_exact hdesc hb

theorem chainSize_toNat (hdesc : desc ∈ svga3dSurfaceDescs)
    (hb : chainBytes desc base mips < 2 ^ 32) :
    (mipChainSize desc base mips).toNat = chainBytes desc base mips := by
  induction mips with
  | zero => rfl
  | succ mips ih =>
    have hsucc := chainBytes_succ desc base mips
    have hmips := ih (by omega)
    have hlevel : (mipBufferSize desc base mips).toNat = imageBytes desc (mipSize base mips) :=
      level_toNat hdesc (by omega)
    rw [mipChainSize, UInt32.toNat_add, hmips, hlevel, ← hsucc]
    exact Nat.mod_eq_of_lt hb

theorem start_levels (hdesc : desc ∈ svga3dSurfaceDescs)
    (hb : chainBytes desc base mips < 2 ^ 32) :
    start (levelSize desc base) mips = chainBytes desc base mips := by
  apply start_congr
  intro mip hmip
  exact level_toNat hdesc ((imageBytes_le_chain hmip).trans_lt hb)

theorem imageOffsetLoop_eq (desc : SurfaceDesc) (base : DrmVmwSize) (mip : UInt32) {n : ℕ}
    (hn : n ≤ 2 ^ 32) : imageOffsetLoop desc base mip n =
      (mipChainSize desc base n, mipChainSize desc base (min n mip.toNat)) := by
  induction n with
  | zero => simp [imageOffsetLoop, mipChainSize]
  | succ n ih =>
    have hlt : UInt32.ofNat n < mip ↔ n < mip.toNat := by
      rw [UInt32.lt_iff_toNat_lt, UInt32.toNat_ofNat_of_lt' (by unfold UInt32.size; omega)]
    rw [imageOffsetLoop, ih (by omega)]
    dsimp only
    by_cases h : n < mip.toNat
    · rw [if_pos (hlt.2 h), min_eq_left (by omega), min_eq_left (by omega)]
      rfl
    · rw [if_neg (fun hc => h (hlt.1 hc)), min_eq_right (by omega), min_eq_right (by omega)]
      rfl

theorem getImageOffset_toNat {numMipLevels face mip layers : UInt32}
    (hb : layers.toNat * chainBytes (getDesc format) base numMipLevels.toNat < 2 ^ 32)
    (hface : face.toNat < layers.toNat) (hmip : mip.toNat < numMipLevels.toNat) :
    (getImageOffset format base numMipLevels face mip).toNat =
      face.toNat * chainBytes (getDesc format) base numMipLevels.toNat +
        chainBytes (getDesc format) base mip.toNat := by
  have hdesc := getDesc_mem format
  have hlevels : chainBytes (getDesc format) base mip.toNat ≤
      chainBytes (getDesc format) base numMipLevels.toNat := chainBytes_mono _ _ hmip.le
  have hnext : (face.toNat + 1) * chainBytes (getDesc format) base numMipLevels.toNat ≤
      layers.toNat * chainBytes (getDesc format) base numMipLevels.toNat :=
    Nat.mul_le_mul_right _ hface
  rw [Nat.succ_mul] at hnext
  have hchain : (mipChainSize (getDesc format) base numMipLevels.toNat).toNat =
      chainBytes (getDesc format) base numMipLevels.toNat := chainSize_toNat hdesc (by omega)
  have hlevel : (mipChainSize (getDesc format) base mip.toNat).toNat =
      chainBytes (getDesc format) base mip.toNat := chainSize_toNat hdesc (by omega)
  have hprod : (mipChainSize (getDesc format) base numMipLevels.toNat * face).toNat =
      face.toNat * chainBytes (getDesc format) base numMipLevels.toNat := by
    rw [UInt32.toNat_mul, hchain, mul_comm, Nat.mod_eq_of_lt (by omega)]
  rw [getImageOffset, imageOffsetLoop_eq _ _ _ numMipLevels.toNat_lt.le, min_eq_right hmip.le]
  dsimp only
  rw [UInt32.toNat_add, hprod, hlevel, Nat.mod_eq_of_lt (by omega)]

/-- The images of a surface whose exact size has 32 bits tile the size that is computed. -/
theorem images_tile (format : UInt32) (base : DrmVmwSize) (numMipLevels numLayers : UInt32)
    (hb : numLayers.toNat * chainBytes (getDesc format) base numMipLevels.toNat < 2 ^ 32) :
    Tiles (offsetAt format base numMipLevels) (sizeAt format base numMipLevels)
      (numLayers.toNat * numMipLevels.toNat)
      (getSerializedSize format base numMipLevels numLayers).toNat := by
  have hdesc := getDesc_mem format
  have hchain : 0 < numLayers.toNat →
      chainBytes (getDesc format) base numMipLevels.toNat < 2 ^ 32 :=
    fun hp => (Nat.le_mul_of_pos_left _ hp).trans_lt hb
  apply tiles_of_order
  · intro k hk
    have hmips : 0 < numMipLevels.toNat := Nat.pos_of_mul_pos_left (Nat.zero_lt_of_lt hk)
    have hface : k / numMipLevels.toNat < numLayers.toNat := Nat.div_lt_of_lt_mul (by
      rw [mul_comm]
      exact hk)
    have hmip : k % numMipLevels.toNat < numMipLevels.toNat := Nat.mod_lt _ hmips
    have hlt := hchain (Nat.zero_lt_of_lt hface)
    have hface32 : (UInt32.ofNat (k / numMipLevels.toNat)).toNat = k / numMipLevels.toNat :=
      UInt32.toNat_ofNat_of_lt' (hface.trans numLayers.toNat_lt)
    have hmip32 : (UInt32.ofNat (k % numMipLevels.toNat)).toNat = k % numMipLevels.toNat :=
      UInt32.toNat_ofNat_of_lt' (hmip.trans numMipLevels.toNat_lt)
    have hbelow := chainBytes_mono (getDesc format) base hmip.le
    calc offsetAt format base numMipLevels k
        = k / numMipLevels.toNat * chainBytes (getDesc format) base numMipLevels.toNat +
            chainBytes (getDesc format) base (k % numMipLevels.toNat) := by
          rw [offsetAt, getImageOffset_toNat hb (by omega) (by omega), hface32, hmip32]
      _ = k / numMipLevels.toNat * start (levelSize (getDesc format) base) numMipLevels.toNat +
            start (levelSize (getDesc format) base) (k % numMipLevels.toNat) := by
          rw [start_levels hdesc hlt, start_levels hdesc (by omega)]
      _ = start (sizeAt format base numMipLevels)
            (k / numMipLevels.toNat * numMipLevels.toNat + k % numMipLevels.toNat) :=
          (start_rows _ _ _ hmip.le).symm
      _ = start (sizeAt format base numMipLevels) k := by rw [Nat.div_add_mod']
  · rcases Nat.eq_zero_or_pos numLayers.toNat with hz | hp
    · rw [getSerializedSize, UInt32.toNat_mul, hz, Nat.zero_mul, Nat.mul_zero]
      rfl
    · have hrows := start_rows (levelSize (getDesc format) base) numMipLevels.toNat
        numLayers.toNat (Nat.zero_le _)
      rw [Nat.add_zero] at hrows
      rw [getSerializedSize, UInt32.toNat_mul, chainSize_toNat hdesc (hchain hp), mul_comm,
        Nat.mod_eq_of_lt hb]
      calc numLayers.toNat * chainBytes (getDesc format) base numMipLevels.toNat
          = numLayers.toNat * start (levelSize (getDesc format) base) numMipLevels.toNat +
              start (levelSize (getDesc format) base) 0 := by
            rw [start_levels hdesc (hchain hp)]
            rfl
        _ = start (sizeAt format base numMipLevels) (numLayers.toNat * numMipLevels.toNat) :=
            hrows.symm

/-- A cube map with the format `SVGA3D_DXT1` and all levels down to one pixel. -/
theorem cubeMap_tiles :
    (6 : UInt32).toNat * chainBytes (getDesc 15) ⟨16, 16, 1⟩ (5 : UInt32).toNat < 2 ^ 32 ∧
    Tiles (offsetAt 15 ⟨16, 16, 1⟩ 5) (sizeAt 15 ⟨16, 16, 1⟩ 5) (6 * 5)
      (getSerializedSize 15 ⟨16, 16, 1⟩ 5 6).toNat := by
  have hb : (6 : UInt32).toNat * chainBytes (getDesc 15) ⟨16, 16, 1⟩ (5 : UInt32).toNat <
      2 ^ 32 := by decide +kernel
  exact ⟨hb, images_tile 15 ⟨16, 16, 1⟩ 5 6 hb⟩

end Vmwgfx.ImageOffsets
