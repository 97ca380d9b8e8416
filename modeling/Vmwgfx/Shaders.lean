import Vmwgfx.ListPlaces
import Vmwgfx.Views

set_option autoImplicit false

/-!
# DX shaders

`vmwgfx_shader.c`: how a DX shader gets its MOB attached on the device, by the command stream of
the user, by the validation that creates it and by the one that binds its buffer; and how the
MOB is detached, before the table of the context is paged out and when the buffer moves.
-/
namespace Vmwgfx.Shaders
open ExecbufState (Errno)
open Views (EntryPhase)

/-- `SVGA3dCmdDXBindShader`, and the shader that it is for. `SVGA3D_INVALID_ID` is `none`. -/
structure BindCmd where
  shader : ℕ
  shid : ℤ
  mobid : Option ℕ
  offset : ℕ
  deriving DecidableEq, Repr

/-- `struct vmw_dx_shader`. `cotableHead` and `mobHead` say whether the list nodes are linked;
    the second one may be linked in the `res_list` of any buffer. -/
structure DxShader where
  cotable : ℕ
  shaderId : ℕ
  committed : Bool
  cotableHead : Bool
  id : ℤ
  mobHead : Option ℕ
  backup : Option ℕ
  backupOffset : ℕ
  phase : EntryPhase
  deriving DecidableEq, Repr

/-- `mobStart` is the MOB of a buffer while it is placed in one. -/
structure ShaderDev where
  shaders : ℕ → Option DxShader
  resourceList : ℕ → List ℕ
  resList : ℕ → List ℕ
  mobStart : ℕ → Option ℕ
  fifo : List BindCmd

def start : ShaderDev := ⟨fun _ => none, fun _ => [], fun _ => [], fun _ => none, []⟩

def lastBind (v : ℕ) (fifo : List BindCmd) : Option BindCmd :=
  fifo.reverse.find? fun cmd => cmd.shader == v

def setShader (v : ℕ) (V : DxShader) (s : ShaderDev) : ShaderDev :=
  { s with shaders := Function.update s.shaders v (some V) }

@[simp] theorem setShader_self (v : ℕ) (V : DxShader) (s : ShaderDev) :
    (setShader v V s).shaders v = some V := Function.update_self ..

theorem setShader_of_ne {v w : ℕ} (h : w ≠ v) (V : DxShader) (s : ShaderDev) :
    (setShader v V s).shaders w = s.shaders w := Function.update_of_ne h ..

def emit (cmd : BindCmd) (s : ShaderDev) : ShaderDev := { s with fifo := s.fifo ++ [cmd] }

/-- A shader and the device, of which the shader at `v` is the one given. -/
abbrev Focus := DxShader × ShaderDev

def vmwCotableAddResource (v : ℕ) : Focus → Focus
  | (V, s) =>
    ({ V with cotableHead := true },
      { s with
        resourceList :=
          Function.update s.resourceList V.cotable (s.resourceList V.cotable ++ [v]) })

/-- `list_del_init` of `cotable_head`. -/
def cotableDel (v : ℕ) : Focus → Focus
  | (V, s) =>
    ({ V with cotableHead := false },
      { s with
        resourceList :=
          Function.update s.resourceList V.cotable ((s.resourceList V.cotable).erase v) })

/-- `list_add_tail` of `mob_head`. -/
def mobAdd (b v : ℕ) : Focus → Focus
  | (V, s) =>
    ({ V with mobHead := some b },
      { s with resList := Function.update s.resList b (s.resList b ++ [v]) })

/-- `list_del_init` of `mob_head`. -/
def mobDel (v : ℕ) : Focus → Focus
  | (V, s) =>
    match V.mobHead with
    | none => (V, s)
    | some b =>
      ({ V with mobHead := none },
        { s with resList := Function.update s.resList b ((s.resList b).erase v) })

theorem mobDel_of_none {v : ℕ} {V : DxShader} (s : ShaderDev) (h : V.mobHead = none) :
    mobDel v (V, s) = (V, s) := by
  simp only [mobDel, h]

theorem mobDel_of_some {v b : ℕ} {V : DxShader} (s : ShaderDev) (h : V.mobHead = some b) :
    mobDel v (V, s) = ({ V with mobHead := none },
      { s with resList := Function.update s.resList b ((s.resList b).erase v) }) := by
  simp only [mobDel, h]

/-- The command that attaches the MOB, and `cotable_head`. -/
def attach (v : ℕ) : Focus → Focus
  | (V, s) =>
    vmwCotableAddResource v
      (V, emit ⟨v, V.shaderId, V.backup.bind s.mobStart, V.backupOffset⟩ s)

def vmwDxShaderUnscrub (space : Bool) (v : ℕ) : Focus → Option Errno × Focus
  | (V, s) =>
    if V.cotableHead || !V.committed then (none, (V, s))
    else if !space then (some .enomem, (V, s))
    else (none, attach v (V, s))

def vmwDxShaderCreate (space : Bool) (v : ℕ) : Focus → Option Errno × Focus
  | (V, s) =>
    let r := if V.mobHead.isSome then vmwDxShaderUnscrub space v (V, s) else (none, (V, s))
    (r.1, ({ r.2.1 with id := r.2.1.shaderId }, r.2.2))

/-- `vmw_dx_shader_bind`, which has no use for the result of unscrubbing. -/
def vmwDxShaderBind (space : Bool) (v : ℕ) (f : Focus) : Option Errno × Focus :=
  (none, (vmwDxShaderUnscrub space v f).2)

def vmwDxShaderScrub (space : Bool) (v : ℕ) : Focus → Option Errno × Focus
  | (V, s) =>
    if !V.cotableHead then (none, (V, s))
    else if !space then (some .enomem, (V, s))
    else (none, cotableDel v ({ V with id := -1 }, emit ⟨v, V.id, none, 0⟩ s))

/-- `vmw_dx_shader_unbind`; the fence is left out. -/
def vmwDxShaderUnbind (space : Bool) (v : ℕ) (f : Focus) : Option Errno × Focus :=
  vmwDxShaderScrub space v f

/-- The binding of a buffer by `vmw_resource_do_validate`. There is no result where the buffer is
    not placed as a MOB, and no `destroy` to call where a bind fails. -/
def bindBackup (space : Bool) (v : ℕ) (bo : Option ℕ) (f : Focus) :
    Option (Option Errno × Focus) :=
  match bo with
  | none => some (none, f)
  | some b =>
    if f.1.mobHead.isSome then some (none, f)
    else if (f.2.mobStart b).isNone then none
    else
      match vmwDxShaderBind space v f with
      | (some _, _) => none
      | (none, g) => some (none, mobAdd b v g)

/-- `vmw_resource_do_validate` for a DX shader; the buffer given is its backup buffer. -/
def vmwResourceDoValidate (space : Bool) (v : ℕ) (f : Focus) : Option (Option Errno × Focus) :=
  match if f.1.id = -1 then vmwDxShaderCreate space v f else (none, f) with
  | (some e, g) => some (some e, g)
  | (none, g) => bindBackup space v f.1.backup g

/-- `vmw_resource_unreserve` with the switch to another buffer. A DX shader is never on the
    list of the resources that may be evicted. -/
def vmwResourceUnreserve (b offset v : ℕ) : Focus → Focus
  | (V, s) =>
    let r := if V.backup = some b then (V, s)
      else
        let q := if V.backup.isSome then mobDel v (V, s) else (V, s)
        mobAdd b v ({ q.1 with backup := some b }, q.2)
    ({ r.1 with backupOffset := offset }, r.2)

def onShader (v : ℕ) (s : ShaderDev) (f : DxShader → Option Focus) : Option ShaderDev :=
  match s.shaders v with
  | none => none
  | some V => (f V).map fun r => setShader v r.1 r.2

def vmwResourceUnbindList (space : ℕ → Bool) : List ℕ → ShaderDev → ShaderDev
  | [], s => s
  | v :: l, s =>
    match s.shaders v with
    | none => vmwResourceUnbindList space l s
    | some V =>
      let r := mobDel v (vmwDxShaderUnbind (space v) v (V, s)).2
      vmwResourceUnbindList space l (setShader v r.1 r.2)

def vmwDxShaderCotableListScrub (space : ℕ → Bool) (readback : Bool) :
    List ℕ → ShaderDev → ShaderDev
  | [], s => s
  | v :: l, s =>
    match s.shaders v with
    | none => vmwDxShaderCotableListScrub space readback l s
    | some V =>
      let r := (vmwDxShaderScrub (space v) v (V, s)).2
      let W := if readback then r.1 else { r.1 with committed := false }
      vmwDxShaderCotableListScrub space readback l (setShader v W r.2)

def vmwShaderIdOk (userKey shaderType : ℕ) : Bool := userKey ≤ 2 ^ 20 - 1 && shaderType < 16

/-- The command `SVGA_3D_CMD_DX_BIND_SHADER` of a batch: the shader is validated, its commands go
    to the device and the buffer is switched. -/
def bindShader (space : Bool) (v b offset : ℕ) (f : Focus) : Option Focus :=
  match vmwResourceDoValidate space v f, f.2.mobStart b with
  | none, _ => none
  | _, none => none
  | some (some _, r), _ => some r
  | some (none, r), some m =>
    some (vmwResourceUnreserve b offset v
      (r.1, emit ⟨v, r.1.shaderId, some m, offset⟩ r.2))

inductive Op where
  /-- `vmw_dx_shader_add` at a free address. -/
  | add (v cotable userKey shaderType : ℕ)
  /-- `vmw_cmdbuf_res_commit` and `vmw_cmdbuf_res_revert`; a staged addition can also be
      removed. -/
  | commitAdd (v : ℕ)
  | revertAdd (v : ℕ)
  | remove (v : ℕ)
  | commitRemove (v : ℕ)
  | revertRemove (v : ℕ)
  /-- `vmw_resource_reserve` allocates a buffer for a shader that has none. -/
  | reserve (v b : ℕ)
  /-- A buffer is placed as a MOB, or is moved out of it. -/
  | moveIn (b m : ℕ)
  | moveOut (space : ℕ → Bool) (b : ℕ)
  | validate (space : Bool) (v : ℕ)
  | bindShader (space : Bool) (v b offset : ℕ)
  | cotableListScrub (space : ℕ → Bool) (cotable : ℕ) (readback : Bool)

def vmwDxShaderCommitNotify (added : Bool) (v : ℕ) : Focus → Focus
  | (V, s) =>
    if added then
      let r := vmwCotableAddResource v (V, s)
      ({ r.1 with committed := true, id := r.1.shaderId }, r.2)
    else
      let r := cotableDel v (V, s)
      ({ r.1 with committed := false, id := -1 }, r.2)

def step (s : ShaderDev) : Op → Option ShaderDev
  | .add v cotable userKey shaderType =>
    if s.shaders v = none then
      if vmwShaderIdOk userKey shaderType then
        some (setShader v ⟨cotable, userKey, false, false, userKey, none, none, 0, .staged⟩ s)
      else some s
    else none
  | .commitAdd v => onShader v s fun V =>
      if V.phase = .staged then
        some (vmwDxShaderCommitNotify true v ({ V with phase := .committed }, s))
      else none
  | .revertAdd v => onShader v s fun V =>
      if V.phase = .staged then some ({ V with phase := .gone }, s) else none
  | .remove v => onShader v s fun V =>
      if V.phase = .committed then some ({ V with phase := .removing }, s) else none
  | .commitRemove v => onShader v s fun V =>
      if V.phase = .removing then
        some (vmwDxShaderCommitNotify false v ({ V with phase := .gone }, s))
      else none
  | .revertRemove v => onShader v s fun V =>
      if V.phase = .removing then some ({ V with phase := .committed }, s) else none
  | .reserve v b => onShader v s fun V =>
      if V.backup = none then some ({ V with backup := some b }, s) else none
  | .moveIn b m =>
    if s.mobStart b = none then
      some { s with mobStart := Function.update s.mobStart b (some m) }
    else none
  | .moveOut space b =>
    if s.mobStart b = none then none
    else
      let t := vmwResourceUnbindList space (s.resList b) s
      some { t with mobStart := Function.update t.mobStart b none }
  | .validate space v => onShader v s fun V =>
      (vmwResourceDoValidate space v (V, s)).map (·.2)
  | .bindShader space v b offset => onShader v s fun V => bindShader space v b offset (V, s)
  | .cotableListScrub space cotable readback =>
    some (vmwDxShaderCotableListScrub space readback (s.resourceList cotable) s)

end Vmwgfx.Shaders
