import Mathlib.Data.List.GetD
import Vmwgfx.ExecbufState
import Vmwgfx.ImageSizes
import Vmwgfx.Tilings

set_option autoImplicit false

/-!
# Images of legacy surfaces

`vmw_surface_define_ioctl` places the images of a surface one behind the other in its backup
buffer, in a 32-bit offset, and `vmw_surface_dma_encode` copies each from where it lies. The
sizes are the user's; while they add up to less than 2^32 the images lie apart.
-/
namespace Vmwgfx.SurfaceImages
open ExecbufState (Errno)
open SurfaceDefs SurfaceSizes ImageSizes Tilings

def drmVmwMaxSurfaceFaces : ℕ := 6
def drmVmwMaxMipLevels : UInt32 := 24

/-- `struct drm_vmw_surface_create_req`; `sizes` is the user's array at `size_addr`. -/
structure SurfaceCreateReq where
  flags : UInt32
  format : UInt32
  mipLevels : ℕ → UInt32
  sizes : ℕ → DrmVmwSize
  shareable : Bool
  scanout : Bool

structure SurfaceOffset where
  face : UInt32
  mip : UInt32
  boOffset : UInt32
  deriving DecidableEq, Repr, Inhabited

/-- `struct vmw_surface`; `backupSize` is that of its resource, and of the cursor image there is
    only whether it exists. -/
structure Surface where
  flags : UInt64
  format : UInt32
  scanout : Bool
  mipLevels : ℕ → UInt32
  numSizes : UInt32
  sizes : ℕ → DrmVmwSize
  offsets : List SurfaceOffset
  baseSize : DrmVmwSize
  autogenFilter : UInt32
  multisampleCount : UInt32
  multisamplePattern : UInt32
  qualityLevel : UInt32
  snooperImage : Bool
  backupSize : UInt64

/-- The calls that can fail; the fields that are not errors say whether memory was there. -/
structure DefineEnds where
  readLock : Option Errno
  memGlobalAlloc : Option Errno
  userSrf : Bool
  memdupUser : Option Errno
  offsets : Bool
  snooperImage : Bool
  surfaceInit : Option Errno
  boAlloc : Option Errno
  primeObjectInit : Option Errno

/-- `cur_bo_offset` and the offsets that have been written. -/
structure Cursor where
  curBoOffset : UInt32
  offsets : List SurfaceOffset

def placeImage (desc : SurfaceDesc) (sizes : ℕ → DrmVmwSize) (face mip : ℕ) (c : Cursor) : Cursor :=
  let curSize := sizes c.offsets.length
  let stride := calculatePitch desc curSize
  ⟨c.curBoOffset + getImageBufferSize desc curSize stride,
    c.offsets ++ [⟨UInt32.ofNat face, UInt32.ofNat mip, c.curBoOffset⟩]⟩

def placeLevels (desc : SurfaceDesc) (sizes : ℕ → DrmVmwSize) (face : ℕ) (c : Cursor) : ℕ → Cursor
  | 0 => c
  | j + 1 => placeImage desc sizes face j (placeLevels desc sizes face c j)

def placeFaces (desc : SurfaceDesc) (sizes : ℕ → DrmVmwSize) (mipLevels : ℕ → UInt32) : ℕ → Cursor
  | 0 => ⟨0, []⟩
  | i + 1 => placeLevels desc sizes i (placeFaces desc sizes mipLevels i) (mipLevels i).toNat

def countSizes (mipLevels : ℕ → UInt32) : ℕ → Option UInt32
  | 0 => some 0
  | i + 1 =>
    match countSizes mipLevels i with
    | none => none
    | some n => if mipLevels i > drmVmwMaxMipLevels then none else some (n + mipLevels i)

def vmwSurfaceDefineIoctl (o : DefineEnds) (hasMob : Bool) (req : SurfaceCreateReq) :
    Except Errno Surface :=
  match countSizes req.mipLevels drmVmwMaxSurfaceFaces with
  | none => .error .einval
  | some numSizes =>
    if numSizes > UInt32.ofNat drmVmwMaxSurfaceFaces * drmVmwMaxMipLevels || numSizes == 0 then
      .error .einval
    else
      let desc := getDesc req.format
      if desc.blockDesc == .none then .error .einval
      else
        match o.readLock, o.memGlobalAlloc, o.userSrf, o.memdupUser, o.offsets with
        | some e, _, _, _, _ => .error e
        | none, some e, _, _, _ => .error e
        | none, none, false, _, _ => .error .enomem
        | none, none, true, some e, _ => .error e
        | none, none, true, none, false => .error .enomem
        | none, none, true, none, true =>
          let placed := placeFaces desc req.sizes req.mipLevels drmVmwMaxSurfaceFaces
          let cursor := req.scanout && numSizes == 1 && (req.sizes 0).width == 64 &&
            (req.sizes 0).height == 64 && req.format == SurfaceFormat.a8r8g8b8.value
          if cursor && !o.snooperImage then .error .enomem
          else
            match o.surfaceInit, hasMob && req.shareable, o.boAlloc, o.primeObjectInit with
            | some e, _, _, _ => .error e
            | none, true, some e, _ => .error e
            | none, true, none, some e => .error e
            | none, false, _, some e => .error e
            | none, _, _, none => .ok
              { flags := req.flags.toUInt64
                format := req.format
                scanout := req.scanout
                mipLevels := req.mipLevels
                numSizes := numSizes
                sizes := req.sizes
                offsets := placed.offsets
                baseSize := req.sizes 0
                autogenFilter := 0
                multisampleCount := 0
                multisamplePattern := 0
                qualityLevel := 0
                snooperImage := cursor
                backupSize := placed.curBoOffset.toUInt64 }

structure GuestPtr where
  gmrId : UInt32
  offset : UInt32
  deriving DecidableEq, Repr

structure SurfaceDma where
  id : UInt32
  headerSize : UInt32
  guestPtr : GuestPtr
  guestPitch : UInt32
  sid : UInt32
  face : UInt32
  mipmap : UInt32
  /-- `SVGA3D_WRITE_HOST_VRAM` or else `SVGA3D_READ_HOST_VRAM`. -/
  writeHost : Bool
  box : DrmVmwSize
  suffixSize : UInt32
  maximumOffset : UInt32
  deriving DecidableEq, Repr

/-- `vmw_surface_dma_encode`, where the surface has the id `sid`. All corners of the box and all
    flags of the suffix are zero. -/
def vmwSurfaceDmaEncode (srf : Surface) (sid : UInt32) (ptr : GuestPtr) (toSurface : Bool) :
    List SurfaceDma :=
  let desc := getDesc srf.format
  (List.range srf.numSizes.toNat).map fun i =>
    let curOffset := srf.offsets.getD i default
    let curSize := srf.sizes i
    let pitch := calculatePitch desc curSize
    { id := 1044
      headerSize := 28 + 36 + 12
      guestPtr := { ptr with offset := ptr.offset + curOffset.boOffset }
      guestPitch := pitch
      sid := sid
      face := curOffset.face
      mipmap := curOffset.mip
      writeHost := toSurface
      box := curSize
      suffixSize := 12
      maximumOffset := getImageBufferSize desc curSize pitch }

/-- The size of an image as `svga3dsurface_get_image_buffer_size` computes it. -/
def bufferSize (format : UInt32) (sizes : ℕ → DrmVmwSize) (k : ℕ) : ℕ :=
  (getImageBufferSize (getDesc format) (sizes k) 0).toNat

def exactSize (format : UInt32) (sizes : ℕ → DrmVmwSize) (k : ℕ) : ℕ :=
  imageBytes (getDesc format) (sizes k)

def numImages (req : SurfaceCreateReq) : ℕ :=
  ∑ face ∈ Finset.range drmVmwMaxSurfaceFaces, (req.mipLevels face).toNat

def boOffset (srf : Surface) (k : ℕ) : ℕ := (srf.offsets.getD k default).boOffset.toNat

/-- The first `n` images are placed, where the sums of the sizes before them wrap. -/
structure Laid (size : ℕ → ℕ) (n : ℕ) (c : Cursor) : Prop where
  count : c.offsets.length = n
  next : c.curBoOffset.toNat = start size n % 2 ^ 32
  offsets : ∀ k < n, (c.offsets.getD k default).boOffset.toNat = start size k % 2 ^ 32

/-- The images lie apart in the backup buffer, and each copy of one stays inside the buffer,
    wherever that ends below 2^32. -/
structure Placed (srf : Surface) (size : ℕ → ℕ) : Prop where
  apart : Apart (boOffset srf) size srf.numSizes.toNat
  inside : Inside (boOffset srf) size srf.numSizes.toNat srf.backupSize.toNat
  copies : ∀ (sid : UInt32) (ptr : GuestPtr) (toSurface : Bool),
    ptr.offset.toNat + srf.backupSize.toNat < 2 ^ 32 →
    ∀ cmd ∈ vmwSurfaceDmaEncode srf sid ptr toSurface,
      ptr.offset.toNat ≤ cmd.guestPtr.offset.toNat ∧
      cmd.guestPtr.offset.toNat + cmd.maximumOffset.toNat ≤
        ptr.offset.toNat + srf.backupSize.toNat

variable {o : DefineEnds} {hasMob : Bool} {req : SurfaceCreateReq} {srf : Surface} {n : ℕ}
  {c : Cursor} {format : UInt32} {sizes : ℕ → DrmVmwSize}

theorem Laid.image (h : Laid (bufferSize format sizes) n c) (face mip : ℕ) :
    Laid (bufferSize format sizes) (n + 1) (placeImage (getDesc format) sizes face mip c) := by
  refine ⟨?_, ?_, ?_⟩
  · rw [placeImage, List.length_append, h.count]
    rfl
  · rw [placeImage, UInt32.toNat_add, h.next, h.count, bufferSize_packed, start_succ,
      Nat.mod_add_mod]
    rfl
  · intro k hk
    rcases Nat.lt_succ_iff_lt_or_eq.1 hk with hlt | rfl
    · rw [placeImage, List.getD_append _ _ _ _ (by rw [h.count]; exact hlt)]
      exact h.offsets k hlt
    · rw [placeImage, List.getD_append_right _ _ _ _ h.count.le, h.count, Nat.sub_self]
      exact h.next

theorem Laid.levels (h : Laid (bufferSize format sizes) n c) (face j : ℕ) :
    Laid (bufferSize format sizes) (n + j) (placeLevels (getDesc format) sizes face c j) := by
  induction j with
  | zero => exact h
  | succ j ih => exact ih.image face j

theorem laid_faces (format : UInt32) (sizes : ℕ → DrmVmwSize) (mipLevels : ℕ → UInt32) (i : ℕ) :
    Laid (bufferSize format sizes) (∑ face ∈ Finset.range i, (mipLevels face).toNat)
      (placeFaces (getDesc format) sizes mipLevels i) := by
  induction i with
  | zero => exact ⟨rfl, rfl, fun k hk => absurd hk (Nat.not_lt_zero k)⟩
  | succ i ih =>
    rw [Finset.sum_range_succ]
    exact ih.levels i _

theorem countSizes_toNat {mipLevels : ℕ → UInt32} {i : ℕ} (hi : i ≤ drmVmwMaxSurfaceFaces)
    {count : UInt32} (h : countSizes mipLevels i = some count) :
    count.toNat = ∑ face ∈ Finset.range i, (mipLevels face).toNat ∧ count.toNat ≤ 24 * i := by
  induction i generalizing count with
  | zero =>
    obtain rfl := Option.some.inj h
    exact ⟨rfl, le_rfl⟩
  | succ i ih =>
    unfold drmVmwMaxSurfaceFaces at hi
    rw [countSizes] at h
    cases hprev : countSizes mipLevels i with
    | none =>
      rw [hprev] at h
      cases h
    | some prev =>
      rw [hprev] at h
      dsimp only at h
      split_ifs at h with hlevels
      obtain rfl := Option.some.inj h
      obtain ⟨hsum, hle⟩ := ih (by unfold drmVmwMaxSurfaceFaces; omega) hprev
      have hmax : (mipLevels i).toNat ≤ drmVmwMaxMipLevels.toNat := by
        rw [← UInt32.le_iff_toNat_le]
        exact UInt32.not_lt.1 hlevels
      have hlimit : drmVmwMaxMipLevels.toNat = 24 := rfl
      have hadd : (prev + mipLevels i).toNat = prev.toNat + (mipLevels i).toNat := by
        rw [UInt32.toNat_add]
        apply Nat.mod_eq_of_lt
        omega
      rw [hadd, Finset.sum_range_succ, hsum]
      omega

structure Defined (req : SurfaceCreateReq) (srf : Surface) : Prop where
  format : srf.format = req.format
  sizes : srf.sizes = req.sizes
  count : srf.numSizes.toNat = numImages req
  offsets : ∀ k < numImages req,
    boOffset srf k = start (bufferSize req.format req.sizes) k % 2 ^ 32
  backup : srf.backupSize.toNat = start (bufferSize req.format req.sizes) (numImages req) % 2 ^ 32

theorem define_defined (h : vmwSurfaceDefineIoctl o hasMob req = .ok srf) : Defined req srf := by
  have hlaid := laid_faces req.format req.sizes req.mipLevels drmVmwMaxSurfaceFaces
  unfold vmwSurfaceDefineIoctl at h
  split at h
  · cases h
  · rename_i count hcount
    dsimp only at h
    split_ifs at h with hnum hdesc hcursor
    · split at h <;> cases h
    · split at h
      · cases h
      · cases h
      · cases h
      · cases h
      · cases h
      · split at h
        · cases h
        · cases h
        · cases h
        · cases h
        · obtain rfl := Except.ok.inj h
          exact ⟨rfl, rfl, (countSizes_toNat le_rfl hcount).1, hlaid.offsets,
            (UInt32.toNat_toUInt64 _).trans hlaid.next⟩

theorem Defined.offset (hd : Defined req srf)
    (hsum : start (bufferSize req.format req.sizes) (numImages req) < 2 ^ 32) :
    ∀ k < srf.numSizes.toNat,
      boOffset srf k = start (bufferSize req.format req.sizes) k := by
  intro k hk
  rw [hd.count] at hk
  rw [hd.offsets k hk]
  apply Nat.mod_eq_of_lt
  exact (start_mono _ hk.le).trans_lt hsum

theorem Defined.placed (hd : Defined req srf)
    (hsum : start (bufferSize req.format req.sizes) (numImages req) < 2 ^ 32) :
    Placed srf (bufferSize req.format req.sizes) := by
  have hoff := hd.offset hsum
  have hbackup := hd.backup
  rw [Nat.mod_eq_of_lt hsum, ← hd.count] at hbackup
  have hinside : Inside (boOffset srf) (bufferSize req.format req.sizes) srf.numSizes.toNat
      srf.backupSize.toNat := by
    rw [hbackup]
    exact inside_congr hoff (fun _ _ => rfl) (inside_start _ _)
  refine ⟨apart_congr hoff (fun _ _ => rfl) (apart_start _ _), hinside, ?_⟩
  intro sid ptr toSurface hptr cmd hcmd
  obtain ⟨i, hi, rfl⟩ := List.mem_map.1 hcmd
  have hend := hinside i (List.mem_range.1 hi)
  dsimp only
  rw [hd.format, hd.sizes, bufferSize_packed, UInt32.toNat_add]
  unfold boOffset bufferSize at hend
  rw [Nat.mod_eq_of_lt (by omega)]
  omega

theorem Defined.sum_lt (hd : Defined req srf) {size : ℕ → ℕ} (h : Placed srf size) :
    start size (numImages req) < 2 ^ 32 := by
  have hle := start_le_of_apart h.apart h.inside
  have hbackup := hd.backup
  rw [hd.count] at hle
  have hmod := Nat.mod_lt (start (bufferSize req.format req.sizes) (numImages req))
    (Nat.two_pow_pos 32)
  omega

/-- The images of a surface lie apart exactly if their sizes add up to less than 2^32; so with
    the sizes that are computed, and so with the exact ones. -/
theorem define_placed_iff (h : vmwSurfaceDefineIoctl o hasMob req = .ok srf) :
    (Placed srf (bufferSize req.format req.sizes) ↔
      start (bufferSize req.format req.sizes) (numImages req) < 2 ^ 32) ∧
    (Placed srf (exactSize req.format req.sizes) ↔
      start (exactSize req.format req.sizes) (numImages req) < 2 ^ 32) := by
  have hd := define_defined h
  refine ⟨⟨hd.sum_lt, hd.placed⟩, hd.sum_lt, ?_⟩
  intro hsum
  have hsize : ∀ k < numImages req,
      bufferSize req.format req.sizes k = exactSize req.format req.sizes k := by
    intro k hk
    apply bufferSize_exact (getDesc_mem _)
    exact (Nat.le_add_left _ _).trans_lt ((start_add_le _ hk).trans_lt hsum)
  rw [← start_congr hsize] at hsum
  have hplaced := hd.placed hsum
  have hsize' : ∀ k < srf.numSizes.toNat,
      exactSize req.format req.sizes k = bufferSize req.format req.sizes k := by
    intro k hk
    rw [hd.count] at hk
    exact (hsize k hk).symm
  exact ⟨apart_congr (fun _ _ => rfl) hsize' hplaced.apart,
    inside_congr (fun _ _ => rfl) hsize' hplaced.inside, hplaced.copies⟩

def noFailure : DefineEnds := ⟨none, none, true, none, true, true, none, none, none⟩

/-- Two levels of one face with the format `SVGA3D_A8R8G8B8`. -/
def twoLevels (width : UInt32) : SurfaceCreateReq :=
  { flags := 0
    format := 2
    mipLevels := fun face => if face = 0 then 2 else 0
    sizes := fun _ => ⟨width, 16384, 1⟩
    shareable := false
    scanout := false }

theorem twoLevels_accepted (width : UInt32) :
    ∃ srf, vmwSurfaceDefineIoctl noFailure false (twoLevels width) = .ok srf := ⟨_, rfl⟩

theorem smallLevels_placed : ∃ srf,
    vmwSurfaceDefineIoctl noFailure false (twoLevels 64) = .ok srf ∧
    (Placed srf (bufferSize 2 (twoLevels 64).sizes) ↔
      start (bufferSize 2 (twoLevels 64).sizes) (numImages (twoLevels 64)) < 2 ^ 32) := by
  obtain ⟨srf, h⟩ := twoLevels_accepted 64
  exact ⟨srf, h, (define_placed_iff h).1⟩

/-- Two images of two gigabytes are accepted with a backup buffer of no size. -/
theorem largeLevels_unplaced : ∃ srf,
    vmwSurfaceDefineIoctl noFailure false (twoLevels 32768) = .ok srf ∧
    srf.backupSize.toNat = 0 ∧ ¬ Placed srf (bufferSize 2 (twoLevels 32768).sizes) := by
  obtain ⟨srf, h⟩ := twoLevels_accepted 32768
  have hd := define_defined h
  have hsum : start (bufferSize 2 (twoLevels 32768).sizes) (numImages (twoLevels 32768)) =
      2 ^ 32 := by decide +kernel
  refine ⟨srf, h, ?_, ?_⟩
  · have hbackup := hd.backup
    change _ = start (bufferSize 2 (twoLevels 32768).sizes) _ % 2 ^ 32 at hbackup
    rw [hbackup, hsum, Nat.mod_self]
  · intro hp
    exact absurd (hd.sum_lt hp) (by rw [hsum]; exact lt_irrefl _)

end Vmwgfx.SurfaceImages
