import Mathlib.Tactic

set_option autoImplicit false

/-!
# The slots of a context binding state

`struct vmw_ctx_binding_state` holds an array of slots for each binding type. The types of
the older contexts share the arrays of the DX types: shaders with DX shaders, and render
targets with DX render targets.
-/
namespace Vmwgfx.BindingSlots

inductive BindingType where
  | shader
  | rt
  | tex
  | cb
  | dxShader
  | dxRt
  | sr
  | ds
  | so
  | vb
  | ib
  deriving DecidableEq, Repr

instance shaderStages : NeZero 3 := ⟨three_ne_zero⟩

instance soSlots : NeZero 4 := ⟨four_ne_zero⟩

instance rtSlots : NeZero 10 := ⟨by decide⟩

instance vbSlots : NeZero 32 := ⟨by decide⟩

instance srSlots : NeZero 128 := ⟨by decide⟩

inductive Loc where
  | shader (shaderSlot : Fin 3)
  | rt (slot : Fin 10)
  | tex (slot : Fin 32)
  | cb (shaderSlot : Fin 3) (slot : Fin 16)
  | ds
  | sr (shaderSlot : Fin 3) (slot : Fin 128)
  | so (slot : Fin 4)
  | vb (slot : Fin 32)
  | ib
  deriving DecidableEq, Repr

/-- An index into an array of `n`. -/
def index (n i : ℕ) : Option (Fin n) := if h : i < n then some ⟨i, h⟩ else none

/-- The entry of the offsets table of a type that has only one. -/
def single (shaderSlot : ℕ) (l : Option Loc) : Option Loc := if shaderSlot = 0 then l else none

/-- The slot at the computed address, `none` when that is outside the arrays. -/
def vmwBindingLoc (bt : BindingType) (shaderSlot slot : ℕ) : Option Loc :=
  match bt with
  | .shader | .dxShader => if slot = 0 then (index 3 shaderSlot).map .shader else none
  | .rt | .dxRt => single shaderSlot ((index 10 slot).map .rt)
  | .tex => single shaderSlot ((index 32 slot).map .tex)
  | .cb => (index 3 shaderSlot).bind fun i => (index 16 slot).map (.cb i)
  | .sr => (index 3 shaderSlot).bind fun i => (index 128 slot).map (.sr i)
  | .ds => single shaderSlot (if slot = 0 then some .ds else none)
  | .so => single shaderSlot ((index 4 slot).map .so)
  | .vb => single shaderSlot ((index 32 slot).map .vb)
  | .ib => single shaderSlot (if slot = 0 then some .ib else none)

end Vmwgfx.BindingSlots
