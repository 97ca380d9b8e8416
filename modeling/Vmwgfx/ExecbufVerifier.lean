import Vmwgfx.ExecbufHandlers
import Vmwgfx.LabelledRuns

set_option autoImplicit false

/-!
# The command verifier

The command table, `vmw_cmd_check` on one command and the loop of `vmw_cmd_check_all`. The
loop is a step function on the cursor and the submission context, and the whole function
is given a number of passes, since nothing in the source bounds them.
-/
namespace Vmwgfx.ExecbufVerifier
open Word32 ByteStore FailingState LabelledRuns ExecbufState ExecbufHandlers

inductive Handler where
  | invalid
  | ok
  | cidCheck
  | setRenderTargetCheck
  | surfaceCopyCheck
  | bufferCopyCheck
  | predCopyCheck
  | stretchBltCheck
  | bltSurfScreenCheck
  | presentCheck
  | dxDefineQuery
  | dxBindQuery
  | beginGbQuery
  | beginQuery
  | endGbQuery
  | endQuery
  | waitGbQuery
  | waitQuery
  | dma
  | draw
  | texState
  | bindGbSurface
  | updateGbImage
  | updateGbSurface
  | readbackGbImage
  | readbackGbSurface
  | invalidateGbImage
  | invalidateGbSurface
  | shaderDefine
  | shaderDestroy
  | setShader
  | setShaderConst
  | bindGbShader
  | dxSetSingleConstantBuffer
  | dxSetShaderRes
  | dxSetShader
  | dxSetVertexBuffers
  | dxSetIndexBuffer
  | dxSetRendertargets
  | dxClearRendertargetView
  | dxClearDepthstencilView
  | dxViewDefine
  | dxSetSoTargets
  | dxSoDefine
  | dxCheckSubresource
  | dxCidCheck
  | dxViewRemove
  | dxDefineShader
  | dxDestroyShader
  | dxBindShader
  | dxGenmips
  | dxTransferFromBuffer
  | intraSurfaceCopy
  deriving DecidableEq, Repr

/-- `struct vmw_cmd_entry` with its index. -/
structure CmdEntry where
  id : ℕ
  func : Handler
  userAllow : Bool
  gbDisable : Bool
  gbEnable : Bool
  cmdName : String

def vmwCmdEntries : List CmdEntry := [
  ⟨1040, .invalid, false, false, false, "SVGA_3D_CMD_SURFACE_DEFINE"⟩,
  ⟨1041, .invalid, false, false, false, "SVGA_3D_CMD_SURFACE_DESTROY"⟩,
  ⟨1042, .surfaceCopyCheck, true, false, false, "SVGA_3D_CMD_SURFACE_COPY"⟩,
  ⟨1043, .stretchBltCheck, true, false, false, "SVGA_3D_CMD_SURFACE_STRETCHBLT"⟩,
  ⟨1044, .dma, true, false, false, "SVGA_3D_CMD_SURFACE_DMA"⟩,
  ⟨1045, .invalid, false, false, false, "SVGA_3D_CMD_CONTEXT_DEFINE"⟩,
  ⟨1046, .invalid, false, false, false, "SVGA_3D_CMD_CONTEXT_DESTROY"⟩,
  ⟨1047, .cidCheck, true, false, false, "SVGA_3D_CMD_SETTRANSFORM"⟩,
  ⟨1048, .cidCheck, true, false, false, "SVGA_3D_CMD_SETZRANGE"⟩,
  ⟨1049, .cidCheck, true, false, false, "SVGA_3D_CMD_SETRENDERSTATE"⟩,
  ⟨1050, .setRenderTargetCheck, true, false, false, "SVGA_3D_CMD_SETRENDERTARGET"⟩,
  ⟨1051, .texState, true, false, false, "SVGA_3D_CMD_SETTEXTURESTATE"⟩,
  ⟨1052, .cidCheck, true, false, false, "SVGA_3D_CMD_SETMATERIAL"⟩,
  ⟨1053, .cidCheck, true, false, false, "SVGA_3D_CMD_SETLIGHTDATA"⟩,
  ⟨1054, .cidCheck, true, false, false, "SVGA_3D_CMD_SETLIGHTENABLED"⟩,
  ⟨1055, .cidCheck, true, false, false, "SVGA_3D_CMD_SETVIEWPORT"⟩,
  ⟨1056, .cidCheck, true, false, false, "SVGA_3D_CMD_SETCLIPPLANE"⟩,
  ⟨1057, .cidCheck, true, false, false, "SVGA_3D_CMD_CLEAR"⟩,
  ⟨1058, .presentCheck, false, false, false, "SVGA_3D_CMD_PRESENT"⟩,
  ⟨1059, .shaderDefine, true, false, false, "SVGA_3D_CMD_SHADER_DEFINE"⟩,
  ⟨1060, .shaderDestroy, true, false, false, "SVGA_3D_CMD_SHADER_DESTROY"⟩,
  ⟨1061, .setShader, true, false, false, "SVGA_3D_CMD_SET_SHADER"⟩,
  ⟨1062, .setShaderConst, true, false, false, "SVGA_3D_CMD_SET_SHADER_CONST"⟩,
  ⟨1063, .draw, true, false, false, "SVGA_3D_CMD_DRAW_PRIMITIVES"⟩,
  ⟨1064, .cidCheck, true, false, false, "SVGA_3D_CMD_SETSCISSORRECT"⟩,
  ⟨1065, .beginQuery, true, false, false, "SVGA_3D_CMD_BEGIN_QUERY"⟩,
  ⟨1066, .endQuery, true, false, false, "SVGA_3D_CMD_END_QUERY"⟩,
  ⟨1067, .waitQuery, true, false, false, "SVGA_3D_CMD_WAIT_FOR_QUERY"⟩,
  ⟨1068, .ok, true, false, false, "SVGA_3D_CMD_PRESENT_READBACK"⟩,
  ⟨1069, .bltSurfScreenCheck, false, false, false, "SVGA_3D_CMD_BLIT_SURFACE_TO_SCREEN"⟩,
  ⟨1070, .invalid, false, false, false, "SVGA_3D_CMD_SURFACE_DEFINE_V2"⟩,
  ⟨1071, .invalid, false, false, false, "SVGA_3D_CMD_GENERATE_MIPMAPS"⟩,
  ⟨1080, .invalid, false, false, false, "SVGA_3D_CMD_ACTIVATE_SURFACE"⟩,
  ⟨1081, .invalid, false, false, false, "SVGA_3D_CMD_DEACTIVATE_SURFACE"⟩,
  ⟨1082, .invalid, false, false, false, "SVGA_3D_CMD_SCREEN_DMA"⟩,
  ⟨1083, .invalid, false, false, false, "SVGA_3D_CMD_DEAD1"⟩,
  ⟨1084, .invalid, false, false, false, "SVGA_3D_CMD_DEAD2"⟩,
  ⟨1085, .invalid, false, false, false, "SVGA_3D_CMD_LOGICOPS_BITBLT"⟩,
  ⟨1086, .invalid, false, false, false, "SVGA_3D_CMD_LOGICOPS_TRANSBLT"⟩,
  ⟨1087, .invalid, false, false, false, "SVGA_3D_CMD_LOGICOPS_STRETCHBLT"⟩,
  ⟨1088, .invalid, false, false, false, "SVGA_3D_CMD_LOGICOPS_COLORFILL"⟩,
  ⟨1089, .invalid, false, false, false, "SVGA_3D_CMD_LOGICOPS_ALPHABLEND"⟩,
  ⟨1090, .invalid, false, false, false, "SVGA_3D_CMD_LOGICOPS_CLEARTYPEBLEND"⟩,
  ⟨1091, .invalid, false, false, true, "SVGA_3D_CMD_SET_OTABLE_BASE"⟩,
  ⟨1092, .invalid, false, false, true, "SVGA_3D_CMD_READBACK_OTABLE"⟩,
  ⟨1093, .invalid, false, false, true, "SVGA_3D_CMD_DEFINE_GB_MOB"⟩,
  ⟨1094, .invalid, false, false, true, "SVGA_3D_CMD_DESTROY_GB_MOB"⟩,
  ⟨1136, .invalid, false, false, true, "SVGA_3D_CMD_REDEFINE_GB_MOB64"⟩,
  ⟨1096, .invalid, false, false, true, "SVGA_3D_CMD_UPDATE_GB_MOB_MAPPING"⟩,
  ⟨1097, .invalid, false, false, true, "SVGA_3D_CMD_DEFINE_GB_SURFACE"⟩,
  ⟨1098, .invalid, false, false, true, "SVGA_3D_CMD_DESTROY_GB_SURFACE"⟩,
  ⟨1099, .bindGbSurface, true, false, true, "SVGA_3D_CMD_BIND_GB_SURFACE"⟩,
  ⟨1100, .invalid, false, false, true, "SVGA_3D_CMD_COND_BIND_GB_SURFACE"⟩,
  ⟨1101, .updateGbImage, true, false, true, "SVGA_3D_CMD_UPDATE_GB_IMAGE"⟩,
  ⟨1102, .updateGbSurface, true, false, true, "SVGA_3D_CMD_UPDATE_GB_SURFACE"⟩,
  ⟨1103, .readbackGbImage, true, false, true, "SVGA_3D_CMD_READBACK_GB_IMAGE"⟩,
  ⟨1104, .readbackGbSurface, true, false, true, "SVGA_3D_CMD_READBACK_GB_SURFACE"⟩,
  ⟨1105, .invalidateGbImage, true, false, true, "SVGA_3D_CMD_INVALIDATE_GB_IMAGE"⟩,
  ⟨1106, .invalidateGbSurface, true, false, true, "SVGA_3D_CMD_INVALIDATE_GB_SURFACE"⟩,
  ⟨1107, .invalid, false, false, true, "SVGA_3D_CMD_DEFINE_GB_CONTEXT"⟩,
  ⟨1108, .invalid, false, false, true, "SVGA_3D_CMD_DESTROY_GB_CONTEXT"⟩,
  ⟨1109, .invalid, false, false, true, "SVGA_3D_CMD_BIND_GB_CONTEXT"⟩,
  ⟨1110, .invalid, false, false, true, "SVGA_3D_CMD_READBACK_GB_CONTEXT"⟩,
  ⟨1111, .invalid, false, false, true, "SVGA_3D_CMD_INVALIDATE_GB_CONTEXT"⟩,
  ⟨1112, .invalid, false, false, true, "SVGA_3D_CMD_DEFINE_GB_SHADER"⟩,
  ⟨1114, .bindGbShader, true, false, true, "SVGA_3D_CMD_BIND_GB_SHADER"⟩,
  ⟨1113, .invalid, false, false, true, "SVGA_3D_CMD_DESTROY_GB_SHADER"⟩,
  ⟨1115, .invalid, false, false, false, "SVGA_3D_CMD_SET_OTABLE_BASE64"⟩,
  ⟨1116, .beginGbQuery, true, false, true, "SVGA_3D_CMD_BEGIN_GB_QUERY"⟩,
  ⟨1117, .endGbQuery, true, false, true, "SVGA_3D_CMD_END_GB_QUERY"⟩,
  ⟨1118, .waitGbQuery, true, false, true, "SVGA_3D_CMD_WAIT_FOR_GB_QUERY"⟩,
  ⟨1119, .ok, true, false, true, "SVGA_3D_CMD_NOP"⟩,
  ⟨1137, .ok, true, false, true, "SVGA_3D_CMD_NOP_ERROR"⟩,
  ⟨1120, .invalid, false, false, true, "SVGA_3D_CMD_ENABLE_GART"⟩,
  ⟨1121, .invalid, false, false, true, "SVGA_3D_CMD_DISABLE_GART"⟩,
  ⟨1122, .invalid, false, false, true, "SVGA_3D_CMD_MAP_MOB_INTO_GART"⟩,
  ⟨1123, .invalid, false, false, true, "SVGA_3D_CMD_UNMAP_GART_RANGE"⟩,
  ⟨1124, .invalid, false, false, true, "SVGA_3D_CMD_DEFINE_GB_SCREENTARGET"⟩,
  ⟨1125, .invalid, false, false, true, "SVGA_3D_CMD_DESTROY_GB_SCREENTARGET"⟩,
  ⟨1126, .invalid, false, false, true, "SVGA_3D_CMD_BIND_GB_SCREENTARGET"⟩,
  ⟨1127, .invalid, false, false, true, "SVGA_3D_CMD_UPDATE_GB_SCREENTARGET"⟩,
  ⟨1128, .invalid, false, false, true, "SVGA_3D_CMD_READBACK_GB_IMAGE_PARTIAL"⟩,
  ⟨1129, .invalid, false, false, true, "SVGA_3D_CMD_INVALIDATE_GB_IMAGE_PARTIAL"⟩,
  ⟨1130, .cidCheck, true, false, true, "SVGA_3D_CMD_SET_GB_SHADERCONSTS_INLINE"⟩,
  ⟨1131, .invalid, false, false, true, "SVGA_3D_CMD_GB_SCREEN_DMA"⟩,
  ⟨1132, .invalid, false, false, true, "SVGA_3D_CMD_BIND_GB_SURFACE_WITH_PITCH"⟩,
  ⟨1133, .invalid, false, false, true, "SVGA_3D_CMD_GB_MOB_FENCE"⟩,
  ⟨1134, .invalid, false, false, true, "SVGA_3D_CMD_DEFINE_GB_SURFACE_V2"⟩,
  ⟨1143, .invalid, false, false, true, "SVGA_3D_CMD_DX_DEFINE_CONTEXT"⟩,
  ⟨1144, .invalid, false, false, true, "SVGA_3D_CMD_DX_DESTROY_CONTEXT"⟩,
  ⟨1145, .invalid, false, false, true, "SVGA_3D_CMD_DX_BIND_CONTEXT"⟩,
  ⟨1146, .invalid, false, false, true, "SVGA_3D_CMD_DX_READBACK_CONTEXT"⟩,
  ⟨1147, .invalid, false, false, true, "SVGA_3D_CMD_DX_INVALIDATE_CONTEXT"⟩,
  ⟨1148, .dxSetSingleConstantBuffer, true, false, true, "SVGA_3D_CMD_DX_SET_SINGLE_CONSTANT_BUFFER"⟩,
  ⟨1149, .dxSetShaderRes, true, false, true, "SVGA_3D_CMD_DX_SET_SHADER_RESOURCES"⟩,
  ⟨1150, .dxSetShader, true, false, true, "SVGA_3D_CMD_DX_SET_SHADER"⟩,
  ⟨1151, .dxCidCheck, true, false, true, "SVGA_3D_CMD_DX_SET_SAMPLERS"⟩,
  ⟨1152, .dxCidCheck, true, false, true, "SVGA_3D_CMD_DX_DRAW"⟩,
  ⟨1153, .dxCidCheck, true, false, true, "SVGA_3D_CMD_DX_DRAW_INDEXED"⟩,
  ⟨1154, .dxCidCheck, true, false, true, "SVGA_3D_CMD_DX_DRAW_INSTANCED"⟩,
  ⟨1155, .dxCidCheck, true, false, true, "SVGA_3D_CMD_DX_DRAW_INDEXED_INSTANCED"⟩,
  ⟨1156, .dxCidCheck, true, false, true, "SVGA_3D_CMD_DX_DRAW_AUTO"⟩,
  ⟨1158, .dxSetVertexBuffers, true, false, true, "SVGA_3D_CMD_DX_SET_VERTEX_BUFFERS"⟩,
  ⟨1159, .dxSetIndexBuffer, true, false, true, "SVGA_3D_CMD_DX_SET_INDEX_BUFFER"⟩,
  ⟨1161, .dxSetRendertargets, true, false, true, "SVGA_3D_CMD_DX_SET_RENDERTARGETS"⟩,
  ⟨1162, .dxCidCheck, true, false, true, "SVGA_3D_CMD_DX_SET_BLEND_STATE"⟩,
  ⟨1163, .dxCidCheck, true, false, true, "SVGA_3D_CMD_DX_SET_DEPTHSTENCIL_STATE"⟩,
  ⟨1164, .dxCidCheck, true, false, true, "SVGA_3D_CMD_DX_SET_RASTERIZER_STATE"⟩,
  ⟨1165, .dxDefineQuery, true, false, true, "SVGA_3D_CMD_DX_DEFINE_QUERY"⟩,
  ⟨1166, .dxCidCheck, true, false, true, "SVGA_3D_CMD_DX_DESTROY_QUERY"⟩,
  ⟨1167, .dxBindQuery, true, false, true, "SVGA_3D_CMD_DX_BIND_QUERY"⟩,
  ⟨1168, .dxCidCheck, true, false, true, "SVGA_3D_CMD_DX_SET_QUERY_OFFSET"⟩,
  ⟨1169, .dxCidCheck, true, false, true, "SVGA_3D_CMD_DX_BEGIN_QUERY"⟩,
  ⟨1170, .dxCidCheck, true, false, true, "SVGA_3D_CMD_DX_END_QUERY"⟩,
  ⟨1171, .invalid, true, false, true, "SVGA_3D_CMD_DX_READBACK_QUERY"⟩,
  ⟨1172, .dxCidCheck, true, false, true, "SVGA_3D_CMD_DX_SET_PREDICATION"⟩,
  ⟨1174, .dxCidCheck, true, false, true, "SVGA_3D_CMD_DX_SET_VIEWPORTS"⟩,
  ⟨1175, .dxCidCheck, true, false, true, "SVGA_3D_CMD_DX_SET_SCISSORRECTS"⟩,
  ⟨1176, .dxClearRendertargetView, true, false, true, "SVGA_3D_CMD_DX_CLEAR_RENDERTARGET_VIEW"⟩,
  ⟨1177, .dxClearDepthstencilView, true, false, true, "SVGA_3D_CMD_DX_CLEAR_DEPTHSTENCIL_VIEW"⟩,
  ⟨1179, .invalid, true, false, true, "SVGA_3D_CMD_DX_PRED_COPY"⟩,
  ⟨1181, .dxGenmips, true, false, true, "SVGA_3D_CMD_DX_GENMIPS"⟩,
  ⟨1182, .dxCheckSubresource, true, false, true, "SVGA_3D_CMD_DX_UPDATE_SUBRESOURCE"⟩,
  ⟨1183, .dxCheckSubresource, true, false, true, "SVGA_3D_CMD_DX_READBACK_SUBRESOURCE"⟩,
  ⟨1184, .dxCheckSubresource, true, false, true, "SVGA_3D_CMD_DX_INVALIDATE_SUBRESOURCE"⟩,
  ⟨1185, .dxViewDefine, true, false, true, "SVGA_3D_CMD_DX_DEFINE_SHADERRESOURCE_VIEW"⟩,
  ⟨1186, .dxViewRemove, true, false, true, "SVGA_3D_CMD_DX_DESTROY_SHADERRESOURCE_VIEW"⟩,
  ⟨1187, .dxViewDefine, true, false, true, "SVGA_3D_CMD_DX_DEFINE_RENDERTARGET_VIEW"⟩,
  ⟨1188, .dxViewRemove, true, false, true, "SVGA_3D_CMD_DX_DESTROY_RENDERTARGET_VIEW"⟩,
  ⟨1189, .dxViewDefine, true, false, true, "SVGA_3D_CMD_DX_DEFINE_DEPTHSTENCIL_VIEW"⟩,
  ⟨1190, .dxViewRemove, true, false, true, "SVGA_3D_CMD_DX_DESTROY_DEPTHSTENCIL_VIEW"⟩,
  ⟨1191, .dxSoDefine, true, false, true, "SVGA_3D_CMD_DX_DEFINE_ELEMENTLAYOUT"⟩,
  ⟨1192, .dxCidCheck, true, false, true, "SVGA_3D_CMD_DX_DESTROY_ELEMENTLAYOUT"⟩,
  ⟨1193, .dxSoDefine, true, false, true, "SVGA_3D_CMD_DX_DEFINE_BLEND_STATE"⟩,
  ⟨1194, .dxCidCheck, true, false, true, "SVGA_3D_CMD_DX_DESTROY_BLEND_STATE"⟩,
  ⟨1195, .dxSoDefine, true, false, true, "SVGA_3D_CMD_DX_DEFINE_DEPTHSTENCIL_STATE"⟩,
  ⟨1196, .dxCidCheck, true, false, true, "SVGA_3D_CMD_DX_DESTROY_DEPTHSTENCIL_STATE"⟩,
  ⟨1197, .dxSoDefine, true, false, true, "SVGA_3D_CMD_DX_DEFINE_RASTERIZER_STATE"⟩,
  ⟨1198, .dxCidCheck, true, false, true, "SVGA_3D_CMD_DX_DESTROY_RASTERIZER_STATE"⟩,
  ⟨1199, .dxSoDefine, true, false, true, "SVGA_3D_CMD_DX_DEFINE_SAMPLER_STATE"⟩,
  ⟨1200, .dxCidCheck, true, false, true, "SVGA_3D_CMD_DX_DESTROY_SAMPLER_STATE"⟩,
  ⟨1201, .dxDefineShader, true, false, true, "SVGA_3D_CMD_DX_DEFINE_SHADER"⟩,
  ⟨1202, .dxDestroyShader, true, false, true, "SVGA_3D_CMD_DX_DESTROY_SHADER"⟩,
  ⟨1203, .dxBindShader, true, false, true, "SVGA_3D_CMD_DX_BIND_SHADER"⟩,
  ⟨1204, .dxSoDefine, true, false, true, "SVGA_3D_CMD_DX_DEFINE_STREAMOUTPUT"⟩,
  ⟨1205, .dxCidCheck, true, false, true, "SVGA_3D_CMD_DX_DESTROY_STREAMOUTPUT"⟩,
  ⟨1206, .dxCidCheck, true, false, true, "SVGA_3D_CMD_DX_SET_STREAMOUTPUT"⟩,
  ⟨1173, .dxSetSoTargets, true, false, true, "SVGA_3D_CMD_DX_SET_SOTARGETS"⟩,
  ⟨1157, .dxCidCheck, true, false, true, "SVGA_3D_CMD_DX_SET_INPUT_LAYOUT"⟩,
  ⟨1160, .dxCidCheck, true, false, true, "SVGA_3D_CMD_DX_SET_TOPOLOGY"⟩,
  ⟨1209, .bufferCopyCheck, true, false, true, "SVGA_3D_CMD_DX_BUFFER_COPY"⟩,
  ⟨1178, .predCopyCheck, true, false, true, "SVGA_3D_CMD_DX_PRED_COPY_REGION"⟩,
  ⟨1210, .dxTransferFromBuffer, true, false, true, "SVGA_3D_CMD_DX_TRANSFER_FROM_BUFFER"⟩,
  ⟨1238, .intraSurfaceCopy, true, false, true, "SVGA_3D_CMD_INTRA_SURFACE_COPY"⟩]

/-- The entry at an index; entries that the table does not fill have no function. -/
def cmdEntry (id : ℕ) : Option CmdEntry := vmwCmdEntries.find? fun e => e.id = id

def svgaCmdMax : ℕ := 47

def svga3dCmdBase : ℕ := 1040

def svga3dCmdMax : ℕ := 1245

def svgaCmdDefineGmrfb : ℕ := 36

/-- The sizes of the commands outside the 3D protocol, header word included. -/
def not3dSize (id : ℕ) : Option ℕ :=
  match id with
  | 1 => some 20
  | 36 => some 20
  | 37 => some 32
  | 38 => some 32
  | _ => none

variable {σ : Type} (K : Kernel σ)

def Handler.run (p : ℤ) : Handler → Check σ Unit
  | .invalid => vmwCmdInvalid
  | .ok => vmwCmdOk
  | .cidCheck => vmwCmdCidCheck K p
  | .setRenderTargetCheck => vmwCmdSetRenderTargetCheck K p
  | .surfaceCopyCheck => vmwCmdSurfaceCopyCheck K p
  | .bufferCopyCheck => vmwCmdBufferCopyCheck K p
  | .predCopyCheck => vmwCmdPredCopyCheck K p
  | .stretchBltCheck => vmwCmdStretchBltCheck K p
  | .bltSurfScreenCheck => vmwCmdBltSurfScreenCheck K p
  | .presentCheck => vmwCmdPresentCheck K p
  | .dxDefineQuery => vmwCmdDxDefineQuery K p
  | .dxBindQuery => vmwCmdDxBindQuery K p
  | .beginGbQuery => vmwCmdBeginGbQuery K p
  | .beginQuery => vmwCmdBeginQuery K p
  | .endGbQuery => vmwCmdEndGbQuery K p
  | .endQuery => vmwCmdEndQuery K p
  | .waitGbQuery => vmwCmdWaitGbQuery K p
  | .waitQuery => vmwCmdWaitQuery K p
  | .dma => vmwCmdDma K p
  | .draw => vmwCmdDraw K p
  | .texState => vmwCmdTexState K p
  | .bindGbSurface => vmwCmdBindGbSurface K p
  | .updateGbImage => vmwCmdUpdateGbImage K p
  | .updateGbSurface => vmwCmdUpdateGbSurface K p
  | .readbackGbImage => vmwCmdReadbackGbImage K p
  | .readbackGbSurface => vmwCmdReadbackGbSurface K p
  | .invalidateGbImage => vmwCmdInvalidateGbImage K p
  | .invalidateGbSurface => vmwCmdInvalidateGbSurface K p
  | .shaderDefine => vmwCmdShaderDefine K p
  | .shaderDestroy => vmwCmdShaderDestroy K p
  | .setShader => vmwCmdSetShader K p
  | .setShaderConst => vmwCmdSetShaderConst K p
  | .bindGbShader => vmwCmdBindGbShader K p
  | .dxSetSingleConstantBuffer => vmwCmdDxSetSingleConstantBuffer K p
  | .dxSetShaderRes => vmwCmdDxSetShaderRes K p
  | .dxSetShader => vmwCmdDxSetShader K p
  | .dxSetVertexBuffers => vmwCmdDxSetVertexBuffers K p
  | .dxSetIndexBuffer => vmwCmdDxSetIndexBuffer K p
  | .dxSetRendertargets => vmwCmdDxSetRendertargets K p
  | .dxClearRendertargetView => vmwCmdDxClearRendertargetView K p
  | .dxClearDepthstencilView => vmwCmdDxClearDepthstencilView K p
  | .dxViewDefine => vmwCmdDxViewDefine K p
  | .dxSetSoTargets => vmwCmdDxSetSoTargets K p
  | .dxSoDefine => vmwCmdDxSoDefine K p
  | .dxCheckSubresource => vmwCmdDxCheckSubresource K p
  | .dxCidCheck => vmwCmdDxCidCheck
  | .dxViewRemove => vmwCmdDxViewRemove K p
  | .dxDefineShader => vmwCmdDxDefineShader K p
  | .dxDestroyShader => vmwCmdDxDestroyShader K p
  | .dxBindShader => vmwCmdDxBindShader K p
  | .dxGenmips => vmwCmdDxGenmips K p
  | .dxTransferFromBuffer => vmwCmdDxTransferFromBuffer K p
  | .intraSurfaceCopy => vmwCmdIntraSurfaceCopy K p

def vmwCmdCheckNot3d (buf : ℤ) (sizeRemaining : ℕ) : Check σ ℕ := do
  let id ← rd buf
  let size ← orElse .einval (not3dSize id)
  require (size ≤ sizeRemaining) (.errno .einval)
  let kernel ← inspect fun s => s.kernel
  require kernel (.errno .eperm)
  runIf (id = svgaCmdDefineGmrfb) (vmwCmdCheckDefineGmrfb K buf)
  pure size

/-- Every failure of a handler is reported as `-EINVAL`. -/
def runEntry (func : Handler) (buf : ℤ) : Check σ Unit := do
  match ← retOf (func.run K buf) with
  | .ok _ => pure ()
  | .error _ => fail .einval

/-- The size that is written back through `size`. -/
def vmwCmdCheck (buf : ℤ) (sizeRemaining : ℕ) : Check σ ℕ := do
  let id ← rd buf
  if id < svgaCmdMax then
    vmwCmdCheckNot3d K buf sizeRemaining
  else do
    let headerSize ← rd (buf + 4)
    let size := addU32 headerSize 8
    require (size ≤ sizeRemaining) (.errno .einval)
    require (subU32 id svga3dCmdBase < svga3dCmdMax - svga3dCmdBase) (.errno .einval)
    let entry ← orElse .einval (cmdEntry id)
    let kernel ← inspect fun s => s.kernel
    require (entry.userAllow || kernel) (.errno .eperm)
    require (!(entry.gbDisable && K.gb)) (.errno .einval)
    require (!(entry.gbEnable && !K.gb)) (.errno .einval)
    runEntry K entry.func buf
    pure size

/-- The variables of the loop in `vmw_cmd_check_all`, with `cur_size` as an `int32_t`. -/
structure Loop (σ : Type) where
  buf : ℤ
  curSize : ℤ
  sw : SwContext σ

/-- One pass of the loop that writes back `size` and does not return. -/
def pass (l : Loop σ) (size : ℕ) : Option (Loop σ) :=
  if 0 < l.curSize then
    match vmwCmdCheck K l.buf l.curSize.toNat l.sw with
    | (.ok written, t) =>
      if written = size then some ⟨l.buf + size, Int.bmod (l.curSize - size) (2 ^ 32), t⟩ else none
    | (.error _, _) => none
  else none

/-- The loop for at most `fuel` passes: the sizes written back, or `none` when it has not
    come to its end. -/
def checkLoop : ℕ → ℤ → ℤ → Check σ (Option (List ℕ))
  | 0, _, curSize =>
    if 0 < curSize then pure none
    else if curSize = 0 then pure (some [])
    else fail .einval
  | fuel + 1, buf, curSize =>
    if 0 < curSize then do
      let size ← vmwCmdCheck K buf curSize.toNat
      let sizes ← checkLoop fuel (buf + size) (Int.bmod (curSize - size) (2 ^ 32))
      pure (sizes.map fun l => size :: l)
    else if curSize = 0 then pure (some [])
    else fail .einval

def start (size : ℕ) (s : SwContext σ) : Loop σ := ⟨0, Int.bmod size (2 ^ 32), s⟩

def vmwCmdCheckAll (fuel size : ℕ) : Check σ (Option (List ℕ)) :=
  checkLoop K fuel 0 (Int.bmod size (2 ^ 32))

/-- The command's name and size; `none` is an index outside the table. -/
def vmwCmdDescribe (mem : Memory) (buf : ℤ) : Option (Bool × ℕ × String) :=
  let id := word mem buf
  if svgaCmdMax ≤ id then
    let size := addU32 (word mem (buf + 4)) 8
    if svga3dCmdMax ≤ id then some (false, size, "")
    else if subU32 id svga3dCmdBase < svga3dCmdMax then
      some (true, size, ((cmdEntry id).map CmdEntry.cmdName).getD "")
    else none
  else
    match id with
    | 1 => some (true, 20, "SVGA_CMD_UPDATE")
    | 36 => some (true, 20, "SVGA_CMD_DEFINE_GMRFB")
    | 37 => some (true, 32, "SVGA_CMD_BLIT_GMRFB_TO_SCREEN")
    | 38 => some (true, 32, "SVGA_CMD_BLIT_SCREEN_TO_GMRFB")
    | _ => some (false, 0, "UNKNOWN")

section Sample

/-- A small driver for concrete batches: handle 1 is a context of the older kind, 2 a DX
    context, 3 a surface and 4 a shader, and a lookup finds no other. The state tells
    whether there is memory left. -/
def sampleType : ℕ → ResType
  | 1 => .context
  | 2 => .dxContext
  | 3 => .surface
  | 4 => .shader
  | 5 => .view
  | _ => .cotable

def sampleLookup (c : Converter) (handle : ℕ) : Except Errno ℕ :=
  match c, sampleType handle with
  | .context, .context | .context, .dxContext | .surface, .surface | .shader, .shader => .ok handle
  | _, _ => .error .einval

def sampleKernel (mob : Bool) : Kernel Bool where
  hasMob := mob
  hasDx := mob
  gb := mob
  intraSurfaceCopy := mob
  dummyQueryBo := 60
  resType := sampleType
  viewSrf _ := 3
  numPages _ := 1
  contextResMan ctx := ctx
  contextBindingState ctx := 10 + ctx
  contextBindingList _ _ := []
  cotables ctx i _ := if ctx = 2 then some (20 + i) else none
  contextGetDxQueryMob _ _ := none
  bindingStateAlloc m := (.ok 40, m)
  validationPreloadRes _ m := (.ok (), m)
  validationPreloadBo m := (.ok (), m)
  validationAddResource res _ m := (.ok (100 + res, true), m)
  validationNewBo _ m := (.ok (), m)
  validationMemAlloc m := (m, m)
  validationResSwitchBackup _ _ _ m := m
  userResourceLookup c handle m := (sampleLookup c handle, m)
  userBoLookup handle m := (.ok handle, m)
  viewLookup _ _ _ m := (.ok 5, m)
  viewAlloc _ m := (.ok (), m)
  viewCreate _ _ _ _ _ m := (.ok (), m)
  cmdbufResRemove _ _ _ m := (.ok none, m)
  shaderLookup _ _ _ m := (.ok 4, m)
  shaderRemove _ _ _ m := (.ok (), m)
  compatShaderAdd _ _ _ _ _ m := (.ok (), m)
  dxShaderAdd _ _ _ _ m := (.ok (), m)
  cotableSeen _ _ m := m
  kmsCursorSnoop _ _ _ m := m

/-- A submission context before a batch of the given words. -/
def sampleContext (ws : List ℕ) (memory : Bool) : SwContext Bool where
  mem := ofWords ws
  kernel := false
  resCache _ := ⟨0, none, none, false, false⟩
  resRelocations := []
  boRelocations := []
  boList := []
  info _ := ⟨0, 0, 0⟩
  ctxList := []
  stagedBindings := none
  stagedBindingsInuse := false
  dxCtxNode := none
  man := 0
  curQueryBo := none
  lastQueryCtx := none
  needsPostQueryBarrier := false
  dxQueryMob := none
  dxQueryCtx := none
  bindings := []
  idReads := []
  unrecorded := []
  uses := []
  rest := memory

end Sample

end Vmwgfx.ExecbufVerifier
