import Mathlib.Tactic

set_option autoImplicit false

/-!
# Surface formats and sizes

`svga3d_surfacedefs.h`: the table of formats and the functions that compute how many bytes
images and surfaces have, in the unsigned 32-bit arithmetic of the source. The functions are
named without their prefix `svga3dsurface_`.
-/
namespace Vmwgfx.SurfaceDefs

/-- `SVGA3dSurfaceFormat`, in the order of its values. -/
inductive SurfaceFormat where
  | formatInvalid | x8r8g8b8 | a8r8g8b8 | r5g6b5 | x1r5g5b5 | a1r5g5b5 | a4r4g4b4 | zD32 | zD16
  | zD24s8 | zD15s1 | luminance8 | luminance4Alpha4 | luminance16 | luminance8Alpha8 | dxt1 | dxt2
  | dxt3 | dxt4 | dxt5 | bumpu8v8 | bumpl6v5u5 | bumpx8l8v8u8 | formatDead1 | argbS10e5
  | argbS23e8 | a2r10g10b10 | v8u8 | q8w8v8u8 | cxv8u8 | x8l8v8u8 | a2w10v10u10 | alpha8 | rS10e5
  | rS23e8 | rgS10e5 | rgS23e8 | buffer | zD24x8 | v16u16 | g16r16 | a16b16g16r16 | uyvy | yuy2
  | nv12 | ayuv | r32g32b32a32Typeless | r32g32b32a32Uint | r32g32b32a32Sint | r32g32b32Typeless
  | r32g32b32Float | r32g32b32Uint | r32g32b32Sint | r16g16b16a16Typeless | r16g16b16a16Uint
  | r16g16b16a16Snorm | r16g16b16a16Sint | r32g32Typeless | r32g32Uint | r32g32Sint
  | r32g8x24Typeless | d32FloatS8x24Uint | r32FloatX8x24 | x32G8x24Uint | r10g10b10a2Typeless
  | r10g10b10a2Uint | r11g11b10Float | r8g8b8a8Typeless | r8g8b8a8Unorm | r8g8b8a8UnormSrgb
  | r8g8b8a8Uint | r8g8b8a8Sint | r16g16Typeless | r16g16Uint | r16g16Sint | r32Typeless
  | d32Float | r32Uint | r32Sint | r24g8Typeless | d24UnormS8Uint | r24UnormX8 | x24G8Uint
  | r8g8Typeless | r8g8Unorm | r8g8Uint | r8g8Sint | r16Typeless | r16Unorm | r16Uint | r16Snorm
  | r16Sint | r8Typeless | r8Unorm | r8Uint | r8Snorm | r8Sint | p8 | r9g9b9e5Sharedexp
  | r8g8B8g8Unorm | g8r8G8b8Unorm | bc1Typeless | bc1UnormSrgb | bc2Typeless | bc2UnormSrgb
  | bc3Typeless | bc3UnormSrgb | bc4Typeless | ati1 | bc4Snorm | bc5Typeless | ati2 | bc5Snorm
  | r10g10b10XrBiasA2Unorm | b8g8r8a8Typeless | b8g8r8a8UnormSrgb | b8g8r8x8Typeless
  | b8g8r8x8UnormSrgb | zDf16 | zDf24 | zD24s8Int | yv12 | r32g32b32a32Float | r16g16b16a16Float
  | r16g16b16a16Unorm | r32g32Float | r10g10b10a2Unorm | r8g8b8a8Snorm | r16g16Float | r16g16Unorm
  | r16g16Snorm | r32Float | r8g8Snorm | r16Float | d16Unorm | a8Unorm | bc1Unorm | bc2Unorm
  | bc3Unorm | b5g6r5Unorm | b5g5r5a1Unorm | b8g8r8a8Unorm | b8g8r8x8Unorm | bc4Unorm | bc5Unorm
  deriving DecidableEq, Repr

/-- The values of `enum svga3d_block_desc` that formats have. -/
inductive BlockDesc where
  | none | rgbUnorm | rgbaUnorm | depthUnorm | dsUnorm | lUnorm | laUnorm | bc1CompUnorm
  | bc2CompUnorm | bc3CompUnorm | uvSnorm | uvl | rgbaFp | uvwqSnorm | uvcxSnorm | uvwa | aUnorm
  | rFp | rgFp | buffer | rgUnorm | yuv | nv12 | ayuv | typeless | rgbaUint | rgbaSint | rgbFp
  | rgbUint | rgbSint | rgbaSnorm | rgUint | rgSint | ds | gUint | rgbaUnormSrgb | depthFp | rUint
  | rSint | rUnorm | rSnorm | rgbExp | bc1CompTypeless | bc1CompUnormSrgb | bc2CompTypeless
  | bc2CompUnormSrgb | bc3CompTypeless | bc3CompUnormSrgb | bc4CompTypeless | bc4CompUnorm
  | bc4CompSnorm | bc5CompTypeless | bc5CompUnorm | bc5CompSnorm | rgbUnormSrgb | yv12 | rgSnorm
  deriving DecidableEq, Repr

/-- `struct drm_vmw_size`, which is `surf_size_struct`. -/
structure DrmVmwSize where
  width : UInt32
  height : UInt32
  depth : UInt32
  deriving DecidableEq, Repr

/-- `struct svga3d_surface_desc`, without the channels. -/
structure SurfaceDesc where
  format : SurfaceFormat
  blockDesc : BlockDesc
  blockSize : DrmVmwSize
  bytesPerBlock : UInt32
  pitchBytesPerBlock : UInt32
  deriving DecidableEq, Repr

def SurfaceFormat.value (f : SurfaceFormat) : UInt32 := UInt32.ofNat f.ctorIdx

def svga3dSurfaceDescs : List SurfaceDesc :=
  [⟨.formatInvalid, .none, ⟨1, 1, 1⟩, 0, 0⟩,
   ⟨.x8r8g8b8, .rgbUnorm, ⟨1, 1, 1⟩, 4, 4⟩,
   ⟨.a8r8g8b8, .rgbaUnorm, ⟨1, 1, 1⟩, 4, 4⟩,
   ⟨.r5g6b5, .rgbUnorm, ⟨1, 1, 1⟩, 2, 2⟩,
   ⟨.x1r5g5b5, .rgbUnorm, ⟨1, 1, 1⟩, 2, 2⟩,
   ⟨.a1r5g5b5, .rgbaUnorm, ⟨1, 1, 1⟩, 2, 2⟩,
   ⟨.a4r4g4b4, .rgbaUnorm, ⟨1, 1, 1⟩, 2, 2⟩,
   ⟨.zD32, .depthUnorm, ⟨1, 1, 1⟩, 4, 4⟩,
   ⟨.zD16, .depthUnorm, ⟨1, 1, 1⟩, 2, 2⟩,
   ⟨.zD24s8, .dsUnorm, ⟨1, 1, 1⟩, 4, 4⟩,
   ⟨.zD15s1, .dsUnorm, ⟨1, 1, 1⟩, 2, 2⟩,
   ⟨.luminance8, .lUnorm, ⟨1, 1, 1⟩, 1, 1⟩,
   ⟨.luminance4Alpha4, .laUnorm, ⟨1, 1, 1⟩, 1, 1⟩,
   ⟨.luminance16, .lUnorm, ⟨1, 1, 1⟩, 2, 2⟩,
   ⟨.luminance8Alpha8, .laUnorm, ⟨1, 1, 1⟩, 2, 2⟩,
   ⟨.dxt1, .bc1CompUnorm, ⟨4, 4, 1⟩, 8, 8⟩,
   ⟨.dxt2, .bc2CompUnorm, ⟨4, 4, 1⟩, 16, 16⟩,
   ⟨.dxt3, .bc2CompUnorm, ⟨4, 4, 1⟩, 16, 16⟩,
   ⟨.dxt4, .bc3CompUnorm, ⟨4, 4, 1⟩, 16, 16⟩,
   ⟨.dxt5, .bc3CompUnorm, ⟨4, 4, 1⟩, 16, 16⟩,
   ⟨.bumpu8v8, .uvSnorm, ⟨1, 1, 1⟩, 2, 2⟩,
   ⟨.bumpl6v5u5, .uvl, ⟨1, 1, 1⟩, 2, 2⟩,
   ⟨.bumpx8l8v8u8, .uvl, ⟨1, 1, 1⟩, 4, 4⟩,
   ⟨.formatDead1, .uvl, ⟨1, 1, 1⟩, 3, 3⟩,
   ⟨.argbS10e5, .rgbaFp, ⟨1, 1, 1⟩, 8, 8⟩,
   ⟨.argbS23e8, .rgbaFp, ⟨1, 1, 1⟩, 16, 16⟩,
   ⟨.a2r10g10b10, .rgbaUnorm, ⟨1, 1, 1⟩, 4, 4⟩,
   ⟨.v8u8, .uvSnorm, ⟨1, 1, 1⟩, 2, 2⟩,
   ⟨.q8w8v8u8, .uvwqSnorm, ⟨1, 1, 1⟩, 4, 4⟩,
   ⟨.cxv8u8, .uvcxSnorm, ⟨1, 1, 1⟩, 2, 2⟩,
   ⟨.x8l8v8u8, .uvl, ⟨1, 1, 1⟩, 4, 4⟩,
   ⟨.a2w10v10u10, .uvwa, ⟨1, 1, 1⟩, 4, 4⟩,
   ⟨.alpha8, .aUnorm, ⟨1, 1, 1⟩, 1, 1⟩,
   ⟨.rS10e5, .rFp, ⟨1, 1, 1⟩, 2, 2⟩,
   ⟨.rS23e8, .rFp, ⟨1, 1, 1⟩, 4, 4⟩,
   ⟨.rgS10e5, .rgFp, ⟨1, 1, 1⟩, 4, 4⟩,
   ⟨.rgS23e8, .rgFp, ⟨1, 1, 1⟩, 8, 8⟩,
   ⟨.buffer, .buffer, ⟨1, 1, 1⟩, 1, 1⟩,
   ⟨.zD24x8, .depthUnorm, ⟨1, 1, 1⟩, 4, 4⟩,
   ⟨.v16u16, .uvSnorm, ⟨1, 1, 1⟩, 4, 4⟩,
   ⟨.g16r16, .rgUnorm, ⟨1, 1, 1⟩, 4, 4⟩,
   ⟨.a16b16g16r16, .rgbaUnorm, ⟨1, 1, 1⟩, 8, 8⟩,
   ⟨.uyvy, .yuv, ⟨2, 1, 1⟩, 4, 4⟩,
   ⟨.yuy2, .yuv, ⟨2, 1, 1⟩, 4, 4⟩,
   ⟨.nv12, .nv12, ⟨2, 2, 1⟩, 6, 2⟩,
   ⟨.ayuv, .ayuv, ⟨1, 1, 1⟩, 4, 4⟩,
   ⟨.r32g32b32a32Typeless, .typeless, ⟨1, 1, 1⟩, 16, 16⟩,
   ⟨.r32g32b32a32Uint, .rgbaUint, ⟨1, 1, 1⟩, 16, 16⟩,
   ⟨.r32g32b32a32Sint, .rgbaSint, ⟨1, 1, 1⟩, 16, 16⟩,
   ⟨.r32g32b32Typeless, .typeless, ⟨1, 1, 1⟩, 12, 12⟩,
   ⟨.r32g32b32Float, .rgbFp, ⟨1, 1, 1⟩, 12, 12⟩,
   ⟨.r32g32b32Uint, .rgbUint, ⟨1, 1, 1⟩, 12, 12⟩,
   ⟨.r32g32b32Sint, .rgbSint, ⟨1, 1, 1⟩, 12, 12⟩,
   ⟨.r16g16b16a16Typeless, .typeless, ⟨1, 1, 1⟩, 8, 8⟩,
   ⟨.r16g16b16a16Uint, .rgbaUint, ⟨1, 1, 1⟩, 8, 8⟩,
   ⟨.r16g16b16a16Snorm, .rgbaSnorm, ⟨1, 1, 1⟩, 8, 8⟩,
   ⟨.r16g16b16a16Sint, .rgbaSint, ⟨1, 1, 1⟩, 8, 8⟩,
   ⟨.r32g32Typeless, .typeless, ⟨1, 1, 1⟩, 8, 8⟩,
   ⟨.r32g32Uint, .rgUint, ⟨1, 1, 1⟩, 8, 8⟩,
   ⟨.r32g32Sint, .rgSint, ⟨1, 1, 1⟩, 8, 8⟩,
   ⟨.r32g8x24Typeless, .typeless, ⟨1, 1, 1⟩, 8, 8⟩,
   ⟨.d32FloatS8x24Uint, .ds, ⟨1, 1, 1⟩, 8, 8⟩,
   ⟨.r32FloatX8x24, .rFp, ⟨1, 1, 1⟩, 8, 8⟩,
   ⟨.x32G8x24Uint, .gUint, ⟨1, 1, 1⟩, 8, 8⟩,
   ⟨.r10g10b10a2Typeless, .typeless, ⟨1, 1, 1⟩, 4, 4⟩,
   ⟨.r10g10b10a2Uint, .rgbaUint, ⟨1, 1, 1⟩, 4, 4⟩,
   ⟨.r11g11b10Float, .rgbFp, ⟨1, 1, 1⟩, 4, 4⟩,
   ⟨.r8g8b8a8Typeless, .typeless, ⟨1, 1, 1⟩, 4, 4⟩,
   ⟨.r8g8b8a8Unorm, .rgbaUnorm, ⟨1, 1, 1⟩, 4, 4⟩,
   ⟨.r8g8b8a8UnormSrgb, .rgbaUnormSrgb, ⟨1, 1, 1⟩, 4, 4⟩,
   ⟨.r8g8b8a8Uint, .rgbaUint, ⟨1, 1, 1⟩, 4, 4⟩,
   ⟨.r8g8b8a8Sint, .rgbaSint, ⟨1, 1, 1⟩, 4, 4⟩,
   ⟨.r16g16Typeless, .typeless, ⟨1, 1, 1⟩, 4, 4⟩,
   ⟨.r16g16Uint, .rgUint, ⟨1, 1, 1⟩, 4, 4⟩,
   ⟨.r16g16Sint, .rgSint, ⟨1, 1, 1⟩, 4, 4⟩,
   ⟨.r32Typeless, .typeless, ⟨1, 1, 1⟩, 4, 4⟩,
   ⟨.d32Float, .depthFp, ⟨1, 1, 1⟩, 4, 4⟩,
   ⟨.r32Uint, .rUint, ⟨1, 1, 1⟩, 4, 4⟩,
   ⟨.r32Sint, .rSint, ⟨1, 1, 1⟩, 4, 4⟩,
   ⟨.r24g8Typeless, .typeless, ⟨1, 1, 1⟩, 4, 4⟩,
   ⟨.d24UnormS8Uint, .dsUnorm, ⟨1, 1, 1⟩, 4, 4⟩,
   ⟨.r24UnormX8, .rUnorm, ⟨1, 1, 1⟩, 4, 4⟩,
   ⟨.x24G8Uint, .gUint, ⟨1, 1, 1⟩, 4, 4⟩,
   ⟨.r8g8Typeless, .typeless, ⟨1, 1, 1⟩, 2, 2⟩,
   ⟨.r8g8Unorm, .rgUnorm, ⟨1, 1, 1⟩, 2, 2⟩,
   ⟨.r8g8Uint, .rgUint, ⟨1, 1, 1⟩, 2, 2⟩,
   ⟨.r8g8Sint, .rgSint, ⟨1, 1, 1⟩, 2, 2⟩,
   ⟨.r16Typeless, .typeless, ⟨1, 1, 1⟩, 2, 2⟩,
   ⟨.r16Unorm, .rUnorm, ⟨1, 1, 1⟩, 2, 2⟩,
   ⟨.r16Uint, .rUint, ⟨1, 1, 1⟩, 2, 2⟩,
   ⟨.r16Snorm, .rSnorm, ⟨1, 1, 1⟩, 2, 2⟩,
   ⟨.r16Sint, .rSint, ⟨1, 1, 1⟩, 2, 2⟩,
   ⟨.r8Typeless, .typeless, ⟨1, 1, 1⟩, 1, 1⟩,
   ⟨.r8Unorm, .rUnorm, ⟨1, 1, 1⟩, 1, 1⟩,
   ⟨.r8Uint, .rUint, ⟨1, 1, 1⟩, 1, 1⟩,
   ⟨.r8Snorm, .rSnorm, ⟨1, 1, 1⟩, 1, 1⟩,
   ⟨.r8Sint, .rSint, ⟨1, 1, 1⟩, 1, 1⟩,
   ⟨.p8, .none, ⟨1, 1, 1⟩, 1, 1⟩,
   ⟨.r9g9b9e5Sharedexp, .rgbExp, ⟨1, 1, 1⟩, 4, 4⟩,
   ⟨.r8g8B8g8Unorm, .none, ⟨2, 1, 1⟩, 4, 4⟩,
   ⟨.g8r8G8b8Unorm, .none, ⟨2, 1, 1⟩, 4, 4⟩,
   ⟨.bc1Typeless, .bc1CompTypeless, ⟨4, 4, 1⟩, 8, 8⟩,
   ⟨.bc1UnormSrgb, .bc1CompUnormSrgb, ⟨4, 4, 1⟩, 8, 8⟩,
   ⟨.bc2Typeless, .bc2CompTypeless, ⟨4, 4, 1⟩, 16, 16⟩,
   ⟨.bc2UnormSrgb, .bc2CompUnormSrgb, ⟨4, 4, 1⟩, 16, 16⟩,
   ⟨.bc3Typeless, .bc3CompTypeless, ⟨4, 4, 1⟩, 16, 16⟩,
   ⟨.bc3UnormSrgb, .bc3CompUnormSrgb, ⟨4, 4, 1⟩, 16, 16⟩,
   ⟨.bc4Typeless, .bc4CompTypeless, ⟨4, 4, 1⟩, 8, 8⟩,
   ⟨.ati1, .bc4CompUnorm, ⟨4, 4, 1⟩, 8, 8⟩,
   ⟨.bc4Snorm, .bc4CompSnorm, ⟨4, 4, 1⟩, 8, 8⟩,
   ⟨.bc5Typeless, .bc5CompTypeless, ⟨4, 4, 1⟩, 16, 16⟩,
   ⟨.ati2, .bc5CompUnorm, ⟨4, 4, 1⟩, 16, 16⟩,
   ⟨.bc5Snorm, .bc5CompSnorm, ⟨4, 4, 1⟩, 16, 16⟩,
   ⟨.r10g10b10XrBiasA2Unorm, .rgbaUnorm, ⟨1, 1, 1⟩, 4, 4⟩,
   ⟨.b8g8r8a8Typeless, .typeless, ⟨1, 1, 1⟩, 4, 4⟩,
   ⟨.b8g8r8a8UnormSrgb, .rgbaUnormSrgb, ⟨1, 1, 1⟩, 4, 4⟩,
   ⟨.b8g8r8x8Typeless, .typeless, ⟨1, 1, 1⟩, 4, 4⟩,
   ⟨.b8g8r8x8UnormSrgb, .rgbUnormSrgb, ⟨1, 1, 1⟩, 4, 4⟩,
   ⟨.zDf16, .depthUnorm, ⟨1, 1, 1⟩, 2, 2⟩,
   ⟨.zDf24, .depthUnorm, ⟨1, 1, 1⟩, 4, 4⟩,
   ⟨.zD24s8Int, .dsUnorm, ⟨1, 1, 1⟩, 4, 4⟩,
   ⟨.yv12, .yv12, ⟨2, 2, 1⟩, 6, 2⟩,
   ⟨.r32g32b32a32Float, .rgbaFp, ⟨1, 1, 1⟩, 16, 16⟩,
   ⟨.r16g16b16a16Float, .rgbaFp, ⟨1, 1, 1⟩, 8, 8⟩,
   ⟨.r16g16b16a16Unorm, .rgbaUnorm, ⟨1, 1, 1⟩, 8, 8⟩,
   ⟨.r32g32Float, .rgFp, ⟨1, 1, 1⟩, 8, 8⟩,
   ⟨.r10g10b10a2Unorm, .rgbaUnorm, ⟨1, 1, 1⟩, 4, 4⟩,
   ⟨.r8g8b8a8Snorm, .rgbaSnorm, ⟨1, 1, 1⟩, 4, 4⟩,
   ⟨.r16g16Float, .rgFp, ⟨1, 1, 1⟩, 4, 4⟩,
   ⟨.r16g16Unorm, .rgUnorm, ⟨1, 1, 1⟩, 4, 4⟩,
   ⟨.r16g16Snorm, .rgSnorm, ⟨1, 1, 1⟩, 4, 4⟩,
   ⟨.r32Float, .rFp, ⟨1, 1, 1⟩, 4, 4⟩,
   ⟨.r8g8Snorm, .rgSnorm, ⟨1, 1, 1⟩, 2, 2⟩,
   ⟨.r16Float, .rFp, ⟨1, 1, 1⟩, 2, 2⟩,
   ⟨.d16Unorm, .depthUnorm, ⟨1, 1, 1⟩, 2, 2⟩,
   ⟨.a8Unorm, .aUnorm, ⟨1, 1, 1⟩, 1, 1⟩,
   ⟨.bc1Unorm, .bc1CompUnorm, ⟨4, 4, 1⟩, 8, 8⟩,
   ⟨.bc2Unorm, .bc2CompUnorm, ⟨4, 4, 1⟩, 16, 16⟩,
   ⟨.bc3Unorm, .bc3CompUnorm, ⟨4, 4, 1⟩, 16, 16⟩,
   ⟨.b5g6r5Unorm, .rgbUnorm, ⟨1, 1, 1⟩, 2, 2⟩,
   ⟨.b5g5r5a1Unorm, .rgbaUnorm, ⟨1, 1, 1⟩, 2, 2⟩,
   ⟨.b8g8r8a8Unorm, .rgbaUnorm, ⟨1, 1, 1⟩, 4, 4⟩,
   ⟨.b8g8r8x8Unorm, .rgbUnorm, ⟨1, 1, 1⟩, 4, 4⟩,
   ⟨.bc4Unorm, .bc4CompUnorm, ⟨4, 4, 1⟩, 8, 8⟩,
   ⟨.bc5Unorm, .bc5CompUnorm, ⟨4, 4, 1⟩, 16, 16⟩]

def formatInvalidDesc : SurfaceDesc := ⟨.formatInvalid, .none, ⟨1, 1, 1⟩, 0, 0⟩

def clampedUmul32 (a b : UInt32) : UInt32 :=
  let tmp : UInt64 := a.toUInt64 * b.toUInt64
  if tmp > 0xffffffff then 0xffffffff else tmp.toUInt32

def getDesc (format : UInt32) : SurfaceDesc :=
  svga3dSurfaceDescs.getD format.toNat formatInvalidDesc

def getMipSize (baseLevel : DrmVmwSize) (mipLevel : UInt32) : DrmVmwSize :=
  ⟨max (baseLevel.width >>> mipLevel) 1, max (baseLevel.height >>> mipLevel) 1,
    max (baseLevel.depth >>> mipLevel) 1⟩

def divRoundUp (n d : UInt32) : UInt32 := (n + d - 1) / d

def getSizeInBlocks (desc : SurfaceDesc) (pixelSize : DrmVmwSize) : DrmVmwSize :=
  ⟨divRoundUp pixelSize.width desc.blockSize.width,
    divRoundUp pixelSize.height desc.blockSize.height,
    divRoundUp pixelSize.depth desc.blockSize.depth⟩

/-- `svga3dsurface_is_planar_surface`: of the values only these two have the bit
    `SVGA3DBLOCKDESC_PLANAR_YUV`. -/
def isPlanarSurface (desc : SurfaceDesc) : Bool :=
  match desc.blockDesc with
  | .nv12 | .yv12 => true
  | _ => false

def calculatePitch (desc : SurfaceDesc) (size : DrmVmwSize) : UInt32 :=
  (getSizeInBlocks desc size).width * desc.pitchBytesPerBlock

def getImageBufferSize (desc : SurfaceDesc) (size : DrmVmwSize) (pitch : UInt32) : UInt32 :=
  let imageBlocks := getSizeInBlocks desc size
  if isPlanarSurface desc then
    clampedUmul32 (clampedUmul32 (clampedUmul32 imageBlocks.width imageBlocks.height)
      imageBlocks.depth) desc.bytesPerBlock
  else
    let pitch := if pitch = 0 then calculatePitch desc size else pitch
    clampedUmul32 (clampedUmul32 imageBlocks.height pitch) imageBlocks.depth

/-- The size of an image of a surface whose rows are packed. -/
def mipBufferSize (desc : SurfaceDesc) (baseLevel : DrmVmwSize) (mip : ℕ) : UInt32 :=
  getImageBufferSize desc (getMipSize baseLevel (UInt32.ofNat mip)) 0

/-- The loop of `svga3dsurface_get_serialized_size` over the first levels. -/
def mipChainSize (desc : SurfaceDesc) (baseLevel : DrmVmwSize) : ℕ → UInt32
  | 0 => 0
  | mip + 1 => mipChainSize desc baseLevel mip + mipBufferSize desc baseLevel mip

def getSerializedSize (format : UInt32) (baseLevelSize : DrmVmwSize)
    (numMipLevels numLayers : UInt32) : UInt32 :=
  mipChainSize (getDesc format) baseLevelSize numMipLevels.toNat * numLayers

def getSerializedSizeExtended (format : UInt32) (baseLevelSize : DrmVmwSize)
    (numMipLevels numLayers numSamples : UInt32) : UInt32 :=
  let totalSize : UInt64 :=
    (getSerializedSize format baseLevelSize numMipLevels numLayers).toUInt64 *
      (max 1 numSamples).toUInt64
  (min totalSize 0xffffffff).toUInt32

def isGbScreenTargetFormat (format : UInt32) : Bool :=
  [SurfaceFormat.x8r8g8b8, .a8r8g8b8, .r5g6b5, .x1r5g5b5, .a1r5g5b5, .p8].any (·.value == format)

def isDxScreenTargetFormat (format : UInt32) : Bool :=
  [SurfaceFormat.r8g8b8a8Unorm, .b8g8r8a8Unorm, .b8g8r8x8Unorm].any (·.value == format)

def isScreenTargetFormat (format : UInt32) : Bool :=
  isGbScreenTargetFormat format || isDxScreenTargetFormat format

end Vmwgfx.SurfaceDefs
