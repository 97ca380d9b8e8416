import Vmwgfx.BindingMachine
import Vmwgfx.KernelLists

set_option autoImplicit false

/-!
# The binding state in memory

`struct vmw_ctx_binding_state` as it is laid out on a 64-bit machine, and the table by which
`vmw_binding_loc` computes the address of a slot.
-/
namespace Vmwgfx.BindingLayout
open BindingSlots BindingMachine KernelLists

def offResList : ℕ := 16

def offCtx : ℕ := 32

def offRes : ℕ := 40

def offBt : ℕ := 48

def offScrubbed : ℕ := 52

def sizeofBindinfo : ℕ := 56

/-- A struct that goes on with `words` attributes of 32 bits, padded for its pointers. -/
def sizeofDerived (words : ℕ) : ℕ := (sizeofBindinfo + 4 * words + 7) / 8 * 8

/-- The attributes of each type, in the order of `enum vmw_ctx_binding_type`. -/
def attrWords : List ℕ := [1, 2, 1, 4, 1, 2, 2, 2, 3, 3, 2]

def sizeofShader : ℕ := sizeofDerived 1

def sizeofView : ℕ := sizeofDerived 2

def sizeofTex : ℕ := sizeofDerived 1

def sizeofCb : ℕ := sizeofDerived 4

def sizeofSo : ℕ := sizeofDerived 3

def sizeofVb : ℕ := sizeofDerived 3

def sizeofIb : ℕ := sizeofDerived 2

def offConstBuffers : ℕ := sizeofShader

def offShaderRes : ℕ := offConstBuffers + sizeofCb * 16

def sizeofShaderBindings : ℕ := offShaderRes + sizeofView * 128 + 16 + 8

def offList : ℕ := 8

def offRenderTargets : ℕ := offList + 16

def offTextureUnits : ℕ := offRenderTargets + sizeofView * 10

def offDsView : ℕ := offTextureUnits + sizeofTex * 32

def offSoTargets : ℕ := offDsView + sizeofView

def offVertexBuffers : ℕ := offSoTargets + sizeofSo * 4

def offIndexBuffer : ℕ := offVertexBuffers + sizeofVb * 32

def offPerShader (shaderSlot : ℕ) : ℕ :=
  offIndexBuffer + sizeofIb + sizeofShaderBindings * shaderSlot

/-- The dirty bits, the command buffer and its two counts end the state. -/
def sizeofCbs : ℕ := offPerShader 3 + 8 + 8 + 4 * 128 + 8

/-- `binding_head` of a resource, and the end of `struct vmw_resource`. -/
def offBindingHead : ℕ := 104

def sizeofResource : ℕ := 136

/-- `struct vmw_binding_info` without the scrub function. -/
structure BindingInfo where
  size : ℕ
  offsets : List ℕ
  deriving DecidableEq, Repr

def perShader (off : ℕ) : List ℕ := [offPerShader 0 + off, offPerShader 1 + off, offPerShader 2 + off]

def vmwBindingInfos : List BindingInfo :=
  [⟨sizeofShader, perShader 0⟩, ⟨sizeofView, [offRenderTargets]⟩, ⟨sizeofTex, [offTextureUnits]⟩,
    ⟨sizeofCb, perShader offConstBuffers⟩, ⟨sizeofShader, perShader 0⟩,
    ⟨sizeofView, [offRenderTargets]⟩, ⟨sizeofView, perShader offShaderRes⟩, ⟨sizeofView, [offDsView]⟩,
    ⟨sizeofSo, [offSoTargets]⟩, ⟨sizeofVb, [offVertexBuffers]⟩, ⟨sizeofIb, [offIndexBuffer]⟩]

def bindingInfo (bt : ℕ) : BindingInfo := vmwBindingInfos.getD bt ⟨0, []⟩

def enumValue : BindingType → ℕ
  | .shader => 0
  | .rt => 1
  | .tex => 2
  | .cb => 3
  | .dxShader => 4
  | .dxRt => 5
  | .sr => 6
  | .ds => 7
  | .so => 8
  | .vb => 9
  | .ib => 10

def vmwBindingLoc (cbs bt shaderSlot slot : ℕ) : ℕ :=
  let b := bindingInfo bt
  cbs + (b.offsets.getD shaderSlot 0 + b.size * slot)

def slotSize : Loc → ℕ
  | .shader _ => sizeofShader
  | .rt _ | .ds | .sr _ _ => sizeofView
  | .tex _ => sizeofTex
  | .cb _ _ => sizeofCb
  | .so _ => sizeofSo
  | .vb _ => sizeofVb
  | .ib => sizeofIb

def slotOffset : Loc → ℕ
  | .shader sh => offPerShader sh
  | .rt i => offRenderTargets + sizeofView * i
  | .tex i => offTextureUnits + sizeofTex * i
  | .cb sh i => offPerShader sh + offConstBuffers + sizeofCb * i
  | .ds => offDsView
  | .sr sh i => offPerShader sh + offShaderRes + sizeofView * i
  | .so i => offSoTargets + sizeofSo * i
  | .vb i => offVertexBuffers + sizeofVb * i
  | .ib => offIndexBuffer

theorem perShader_getD (off : ℕ) (sh : Fin 3) :
    (perShader off).getD sh 0 = offPerShader sh + off := by
  fin_cases sh <;> rfl

theorem index_eq_some {n i : ℕ} {j : Fin n} : index n i = some j ↔ i = j := by
  unfold index
  split_ifs with h
  · rw [Option.some.injEq, Fin.ext_iff]
  · simp only [false_iff]
    rintro rfl
    exact h j.isLt

theorem single_eq_some {shaderSlot : ℕ} {o : Option Loc} {l : Loc} :
    single shaderSlot o = some l ↔ shaderSlot = 0 ∧ o = some l := by
  unfold single
  split_ifs with h <;> simp [h]

/-- The computed address is that of the slot, whichever of its types was asked for, and the
    size that is copied is that of the slot. -/
theorem vmwBindingLoc_eq {bt : BindingType} {shaderSlot slot : ℕ} {l : Loc} (cbs : ℕ)
    (h : BindingSlots.vmwBindingLoc bt shaderSlot slot = some l) :
    vmwBindingLoc cbs (enumValue bt) shaderSlot slot = cbs + slotOffset l ∧
      (bindingInfo (enumValue bt)).size = slotSize l := by
  cases bt with
  | shader | dxShader =>
    simp only [BindingSlots.vmwBindingLoc, Option.ite_none_right_eq_some, Option.map_eq_some_iff,
      index_eq_some] at h
    obtain ⟨rfl, sh, rfl, rfl⟩ := h
    exact ⟨congrArg (cbs + ·) (perShader_getD 0 sh), rfl⟩
  | rt | dxRt | tex | so | vb =>
    simp only [BindingSlots.vmwBindingLoc, single_eq_some, Option.map_eq_some_iff,
      index_eq_some] at h
    obtain ⟨rfl, i, rfl, rfl⟩ := h
    exact ⟨rfl, rfl⟩
  | ds | ib =>
    simp only [BindingSlots.vmwBindingLoc, single_eq_some, Option.ite_none_right_eq_some,
      Option.some.injEq] at h
    obtain ⟨rfl, rfl, rfl⟩ := h
    exact ⟨rfl, rfl⟩
  | cb =>
    simp only [BindingSlots.vmwBindingLoc, Option.bind_eq_some_iff, Option.map_eq_some_iff,
      index_eq_some] at h
    obtain ⟨sh, rfl, i, rfl, rfl⟩ := h
    exact ⟨congrArg (fun a => cbs + (a + sizeofCb * i)) (perShader_getD offConstBuffers sh), rfl⟩
  | sr =>
    simp only [BindingSlots.vmwBindingLoc, Option.bind_eq_some_iff, Option.map_eq_some_iff,
      index_eq_some] at h
    obtain ⟨sh, rfl, i, rfl, rfl⟩ := h
    exact ⟨congrArg (fun a => cbs + (a + sizeofView * i)) (perShader_getD offShaderRes sh), rfl⟩

def shaderOf : Loc → Option ℕ
  | .shader sh | .cb sh _ | .sr sh _ => some sh.val
  | _ => none

theorem perShader_apart {sh sh' : ℕ} (h : sh < sh') :
    offPerShader sh + sizeofShaderBindings ≤ offPerShader sh' := by
  unfold offPerShader
  calc
    offIndexBuffer + sizeofIb + sizeofShaderBindings * sh + sizeofShaderBindings =
        offIndexBuffer + sizeofIb + sizeofShaderBindings * (sh + 1) := by ring
    _ ≤ offIndexBuffer + sizeofIb + sizeofShaderBindings * sh' :=
      Nat.add_le_add_left (Nat.mul_le_mul_left _ h) _

theorem slot_inside_shader {l : Loc} {sh : ℕ} (h : shaderOf l = some sh) :
    offPerShader sh ≤ slotOffset l ∧
      slotOffset l + slotSize l ≤ offPerShader sh + sizeofShaderBindings := by
  cases l <;> simp only [shaderOf, Option.some.injEq, reduceCtorEq] at h
  all_goals
    subst h
    simp only [slotOffset, slotSize, offShaderRes, offConstBuffers, sizeofShaderBindings,
      sizeofShader, sizeofView, sizeofCb, sizeofDerived, sizeofBindinfo]
    omega

theorem slot_numbers (l : Loc) :
    (slotOffset l, slotSize l) = match l with
      | .rt i => (24 + 64 * i.val, 64)
      | .tex i => (664 + 64 * i.val, 64)
      | .ds => (2712, 64)
      | .so i => (2776 + 72 * i.val, 72)
      | .vb i => (3064 + 72 * i.val, 72)
      | .ib => (5368, 64)
      | .shader sh => (5432 + 9432 * sh.val, 64)
      | .cb sh i => (5432 + 9432 * sh.val + 64 + 72 * i.val, 72)
      | .sr sh i => (5432 + 9432 * sh.val + 1216 + 64 * i.val, 64) := by
  cases l <;> rfl

theorem slots_apart {l k : Loc} (h : l ≠ k) :
    slotOffset l + slotSize l ≤ slotOffset k ∨ slotOffset k + slotSize k ≤ slotOffset l := by
  by_cases hsh : ∃ a b, shaderOf l = some a ∧ shaderOf k = some b ∧ a ≠ b
  · obtain ⟨a, b, ha, hb, hne⟩ := hsh
    obtain ⟨hl, hl'⟩ := slot_inside_shader ha
    obtain ⟨hk, hk'⟩ := slot_inside_shader hb
    rcases lt_or_gt_of_ne hne with hlt | hlt
    · exact .inl (hl'.trans ((perShader_apart hlt).trans hk))
    · exact .inr (hk'.trans ((perShader_apart hlt).trans hl))
  · have hsame : ∀ a, shaderOf l = some a → ∀ b, shaderOf k = some b → a = b := by
      intro a ha b hb
      by_contra hne
      exact hsh ⟨a, b, ha, hb, hne⟩
    have hl := slot_numbers l
    have hk := slot_numbers k
    cases l <;> cases k <;>
      simp only [Prod.mk.injEq, shaderOf, Option.some.injEq, forall_eq', reduceCtorEq, ne_eq,
        Loc.shader.injEq, Loc.rt.injEq, Loc.tex.injEq, Loc.cb.injEq, Loc.sr.injEq, Loc.so.injEq,
        Loc.vb.injEq, Fin.ext_iff, false_implies, implies_true, not_true] at hl hk hsame h ⊢ <;>
      omega

theorem slot_inside (l : Loc) :
    offList + 16 ≤ slotOffset l ∧ slotOffset l + slotSize l ≤ sizeofCbs ∧
      sizeofBindinfo ≤ slotSize l := by
  have hl := slot_numbers l
  have hsize : sizeofCbs = 34264 := rfl
  rw [hsize]
  unfold offList sizeofBindinfo
  cases l <;> simp only [Prod.mk.injEq] at hl <;> omega

end Vmwgfx.BindingLayout
