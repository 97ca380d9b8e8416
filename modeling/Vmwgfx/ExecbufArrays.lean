import Vmwgfx.ExecbufFields
import Vmwgfx.PairedRuns

set_option autoImplicit false

/-!
# The arrays behind a command

Which bytes of the command stream the handlers of commands with trailing arrays read, write
and record, and where their elements lie.
-/
namespace Vmwgfx.ExecbufArrays
open ByteStore FailingState PairedRuns ExecbufState ExecbufHandlers ExecbufVerifier
open ExecbufTrail (Steady anyStop vmwCmdResCheck_steady)

variable {σ α β : Type} {K : Kernel σ} {F G : Set ℤ} {s t u : SwContext σ}

/-- The states differ in bytes outside `F` only. -/
def Agree (F : Set ℤ) (s t : SwContext σ) : Prop :=
  ∃ mem, t = { s with mem := mem } ∧ Set.EqOn mem s.mem F

def wordAt (a : ℤ) : Set ℤ := Set.Ico a (a + 4)

/-- Bytes are written and locations recorded in `F` only. -/
structure Trail (F : Set ℤ) (s t : SwContext σ) : Prop where
  mem : ∀ a, a ∉ F → t.mem a = s.mem a
  idReads : ∃ new, t.idReads = s.idReads ++ new ∧ ∀ x ∈ new, wordAt x.loc ⊆ F
  boRelocations : ∃ new, t.boRelocations = s.boRelocations ++ new ∧
    ∀ x ∈ new, wordAt x.location ⊆ F

theorem Trail.refl (s : SwContext σ) : Trail F s s :=
  ⟨fun _ _ => rfl, ⟨[], by simp⟩, ⟨[], by simp⟩⟩

theorem Trail.trans (h : Trail F s t) (h' : Trail F t u) : Trail F s u := by
  obtain ⟨x, hx, hxF⟩ := h.idReads
  obtain ⟨y, hy, hyF⟩ := h'.idReads
  obtain ⟨v, hv, hvF⟩ := h.boRelocations
  obtain ⟨w, hw, hwF⟩ := h'.boRelocations
  refine ⟨fun a ha => (h'.mem a ha).trans (h.mem a ha), ⟨x ++ y, ?_, fun z hz => ?_⟩,
    ⟨v ++ w, ?_, fun z hz => ?_⟩⟩
  · rw [hy, hx, List.append_assoc]
  · exact (List.mem_append.1 hz).elim (hxF z) (hyF z)
  · rw [hw, hv, List.append_assoc]
  · exact (List.mem_append.1 hz).elim (hvF z) (hwF z)

theorem Trail.mono (h : Trail F s t) (hFG : F ⊆ G) : Trail G s t := by
  obtain ⟨x, hx, hxF⟩ := h.idReads
  obtain ⟨v, hv, hvF⟩ := h.boRelocations
  exact ⟨fun a ha => h.mem a fun haF => ha (hFG haF),
    ⟨x, hx, fun z hz => (hxF z hz).trans hFG⟩, ⟨v, hv, fun z hz => (hvF z hz).trans hFG⟩⟩

/-- The computation depends on the bytes in `F` only, writes no others, and records no
    locations outside. -/
structure LocalTo (F : Set ℤ) (m : Check σ α) : Prop where
  reads : Paired (Agree F) m m
  trail : ∀ s, Trail F s (m s).2

section Rules
variable {m : Check σ α} {f : α → Check σ β}

theorem LocalTo.bind (hm : LocalTo F m) (hf : ∀ a, LocalTo F (f a)) : LocalTo F (m >>= f) where
  reads := hm.reads.bind fun a => (hf a).reads
  trail s := by
    have htrail := hm.trail s
    rcases hs : m s with ⟨e | a, t⟩
    · rw [hs] at htrail
      rw [bind_of_error hs]
      exact htrail
    · rw [hs] at htrail
      rw [bind_of_ok hs]
      exact htrail.trans ((hf a).trail t)

theorem local_pure (a : α) : LocalTo F (pure a : Check σ α) := ⟨paired_pure a, fun s => .refl s⟩

theorem local_stop (e : Stop) : LocalTo F (stop e : Check σ α) := ⟨paired_stop e, fun s => .refl s⟩

theorem local_inspect {g : SwContext σ → α} (h : ∀ s t, Agree F s t → g s = g t) :
    LocalTo F (inspect g) := ⟨paired_inspect h, fun s => .refl s⟩

theorem local_require (b : Bool) (e : Stop) : LocalTo F (require b e : Check σ Unit) := by
  cases b
  · exact local_stop e
  · exact local_pure ()

theorem LocalTo.runIf {m : Check σ Unit} (h : LocalTo F m) (b : Bool) : LocalTo F (runIf b m) := by
  cases b
  · exact local_pure ()
  · exact h

theorem LocalTo.repeatFrom {f : ℕ → Check σ Unit} (h : ∀ k, LocalTo F (f k)) (n i : ℕ) :
    LocalTo F (repeatFrom f i n) := by
  induction n generalizing i with
  | zero => exact local_pure ()
  | succ n ih => exact (h i).bind fun _ => ih (i + 1)

theorem LocalTo.forEach {f : β → Check σ Unit} (h : ∀ x, LocalTo F (f x)) (l : List β) :
    LocalTo F (forEach f l) := by
  induction l with
  | nil => exact local_pure ()
  | cons x l ih => exact (h x).bind fun _ => ih

theorem LocalTo.retOf (h : LocalTo F m) : LocalTo F (retOf m) where
  reads s t hst := by
    have hp := h.reads s t hst
    constructor
    · rw [retOf_eq, retOf_eq, hp.result]
    · rw [retOf_eq, retOf_eq]
      exact hp.state
  trail s := by
    rw [retOf_eq]
    exact h.trail s

end Rules

section Steps

theorem local_update {g : SwContext σ → SwContext σ}
    (h : ∀ s mem, g { s with mem := mem } = { g s with mem := mem })
    (hsame : ∀ s, (g s).mem = s.mem ∧ (g s).idReads = s.idReads ∧
      (g s).boRelocations = s.boRelocations) : LocalTo F (update g) where
  reads := by
    refine paired_update ?_
    rintro s - ⟨mem, rfl, hmem⟩
    refine ⟨mem, h s mem, ?_⟩
    rw [(hsame s).1]
    exact hmem
  trail s := ⟨fun a _ => by rw [update, (hsame s).1], ⟨[], by rw [update, (hsame s).2.1]; simp⟩,
    ⟨[], by rw [update, (hsame s).2.2]; simp⟩⟩

theorem local_rest {m : Check σ α} {r : σ → Except Stop α × σ}
    (h : ∀ s, m s = ((r s.rest).1, { s with rest := (r s.rest).2 })) : LocalTo F m where
  reads := by
    rintro s - ⟨mem, rfl, hmem⟩
    constructor
    · rw [h, h]
    · rw [h, h]
      exact ⟨mem, rfl, hmem⟩
  trail s := by
    rw [h]
    exact ⟨fun _ _ => rfl, ⟨[], by simp⟩, ⟨[], by simp⟩⟩

theorem local_call (op : Op σ α) : LocalTo F (call op) := by
  refine local_rest (r := fun w => ((op w).1.mapError .errno, (op w).2)) fun s => ?_
  unfold call
  rcases op s.rest with ⟨e | a, w⟩ <;> rfl

theorem local_memAlloc : LocalTo F (memAlloc K) := by
  refine local_rest (r := fun w => (if (K.validationMemAlloc w).1 then .ok ()
    else .error (.errno .enomem), (K.validationMemAlloc w).2)) fun s => ?_
  unfold memAlloc
  rcases K.validationMemAlloc s.rest with ⟨_ | _, w⟩ <;> rfl

theorem local_act (f : σ → σ) : LocalTo F (act f : Check σ Unit) :=
  local_update (fun _ _ => rfl) fun _ => ⟨rfl, rfl, rfl⟩

theorem local_fail (e : Errno) : LocalTo F (fail e : Check σ α) := local_stop _

theorem local_deref (o : Option α) : LocalTo F (deref o : Check σ α) := by
  cases o
  · exact local_stop _
  · exact local_pure _

theorem local_orElse (e : Errno) (o : Option α) : LocalTo F (orElse e o : Check σ α) := by
  cases o
  · exact local_stop _
  · exact local_pure _

theorem local_ofRet (r : Except Errno α) : LocalTo F (ofRet r : Check σ α) := by
  cases r
  · exact local_stop _
  · exact local_pure _

theorem local_rd {a : ℤ} (h : wordAt a ⊆ F) : LocalTo F (rd a : Check σ ℕ) := by
  refine local_inspect ?_
  rintro s - ⟨mem, rfl, hmem⟩
  exact (word_congr fun b hb hb' => hmem (h ⟨hb, hb'⟩)).symm

theorem local_wr {a : ℤ} (v : ℕ) (h : wordAt a ⊆ F) : LocalTo F (wr a v : Check σ Unit) where
  reads := by
    refine paired_update ?_
    rintro s - ⟨mem, rfl, hmem⟩
    exact ⟨store mem a v, rfl, store_eqOn hmem a v⟩
  trail s := by
    refine ⟨fun b hb => store_outside ?_, ⟨[], by simp [wr, update]⟩, ⟨[], by simp [wr, update]⟩⟩
    by_contra hin
    exact hb (h ⟨by omega, by omega⟩)

end Steps

section Helpers

theorem local_field {g : SwContext σ → α} (h : ∀ s mem, g { s with mem := mem } = g s) :
    LocalTo F (inspect g) := by
  refine local_inspect ?_
  rintro s - ⟨mem, rfl, -⟩
  exact (h s mem).symm

theorem local_current {f : SwContext σ → Check σ β} (hf : ∀ s, LocalTo F (f s))
    (hsame : ∀ s mem, f { s with mem := mem } = f s) : LocalTo F (current >>= f) where
  reads := by
    rintro s - ⟨mem, rfl, hmem⟩
    have hp := (hf s).reads s { s with mem := mem } ⟨mem, rfl, hmem⟩
    constructor
    · change (f s s).1 = (f { s with mem := mem } { s with mem := mem }).1
      rw [hsame s mem]
      exact hp.result
    · change Agree F (f s s).2 (f { s with mem := mem } { s with mem := mem }).2
      rw [hsame s mem]
      exact hp.state
  trail s := (hf s).trail s

theorem vmwExecbufRcacheUpdate_local (t : ResType) (res priv : ℕ) :
    LocalTo F (vmwExecbufRcacheUpdate t res priv : Check σ Unit) :=
  local_update (fun _ _ => rfl) fun _ => ⟨rfl, rfl, rfl⟩

theorem vmwExecbufResNoctxValAdd_local (res : ℕ) : LocalTo F (vmwExecbufResNoctxValAdd K res) := by
  refine (local_field fun _ _ => rfl).bind fun b => ?_
  split
  · exact local_pure _
  · exact (local_call _).bind fun node => vmwExecbufRcacheUpdate_local _ _ _

theorem vmwViewResValAdd_local (view : ℕ) : LocalTo F (vmwViewResValAdd K view) :=
  (vmwExecbufResNoctxValAdd_local _).bind fun _ => vmwExecbufResNoctxValAdd_local _

theorem dxCtxNode_local : LocalTo F (dxCtxNode : Check σ _) := local_field fun _ _ => rfl

theorem viewOf_local (viewType : ViewType) (id : ℕ) : LocalTo F (viewOf K viewType id) := by
  unfold viewOf
  split
  · exact local_pure _
  · refine LocalTo.bind ?_ fun _ => local_pure _
    refine dxCtxNode_local.bind fun node => (local_orElse _ _).bind fun _ => ?_
    refine (local_field fun _ _ => rfl).bind fun man => (local_call _).bind fun view => ?_
    exact (vmwViewResValAdd_local view).bind fun _ => local_pure _

theorem cotableValAdd_local (ctx i : ℕ) : LocalTo F (cotableValAdd K ctx i) := by
  refine (local_field fun _ _ => rfl).bind fun r => ?_
  cases r
  · exact local_pure _
  · exact (local_deref _).bind fun res => vmwExecbufResNoctxValAdd_local res

theorem boundValAdd_local (res : ℕ) : LocalTo F (boundValAdd K res) := by
  unfold boundValAdd
  split
  · exact vmwViewResValAdd_local res
  · exact vmwExecbufResNoctxValAdd_local res

theorem vmwValidationAddBo_local (bo : ℕ) (asMob cpuBlit : Bool) :
    LocalTo F (vmwValidationAddBo K bo asMob cpuBlit) := by
  refine (local_field fun _ _ => rfl).bind fun dup => ?_
  cases dup
  · exact (local_call _).bind fun _ => local_update (fun _ _ => rfl) fun _ => ⟨rfl, rfl, rfl⟩
  · exact local_require _ _

theorem vmwResourceContextResAdd_local (ctx : ℕ) : LocalTo F (vmwResourceContextResAdd K ctx) := by
  refine (LocalTo.runIf (LocalTo.repeatFrom (cotableValAdd_local ctx) _ _) _).bind fun _ => ?_
  refine (local_field fun _ _ => rfl).bind fun l => ?_
  refine (LocalTo.forEach boundValAdd_local l).retOf.bind fun ret => ?_
  refine (local_field fun _ _ => rfl).bind fun mob => ?_
  cases mob
  · exact local_ofRet ret
  · exact vmwValidationAddBo_local _ _ _

theorem sharedStaged_local (o : Option ℕ) : LocalTo F (sharedStaged K o) := by
  cases o
  · refine (local_call _).bind fun staged => LocalTo.bind ?_ fun _ => local_pure _
    exact local_update (fun _ _ => rfl) fun _ => ⟨rfl, rfl, rfl⟩
  · exact local_pure _

theorem nodeStaged_local (inuse : Bool) (shared : ℕ) : LocalTo F (nodeStaged K inuse shared) := by
  unfold nodeStaged
  split
  · exact local_call _
  · refine LocalTo.bind ?_ fun _ => local_pure _
    exact local_update (fun _ _ => rfl) fun _ => ⟨rfl, rfl, rfl⟩

theorem vmwCmdCtxFirstSetup_local (res node : ℕ) : LocalTo F (vmwCmdCtxFirstSetup K res node) := by
  refine (vmwResourceContextResAdd_local res).bind fun _ => ?_
  refine local_current (fun s => ?_) fun _ _ => rfl
  refine (sharedStaged_local _).bind fun shared => (nodeStaged_local _ _).bind fun staged => ?_
  exact local_update (fun _ _ => rfl) fun _ => ⟨rfl, rfl, rfl⟩

theorem vmwExecbufResNorefValAdd_local (res : ℕ) : LocalTo F (vmwExecbufResNorefValAdd K res) := by
  refine (local_field fun _ _ => rfl).bind fun b => ?_
  split
  · exact local_pure _
  · refine (local_call _).bind fun node => ?_
    refine ((vmwCmdCtxFirstSetup_local res node.1).runIf _).bind fun _ => ?_
    exact vmwExecbufRcacheUpdate_local _ _ _

theorem vmwCmdResLookup_local (t : ResType) (c : Converter) (id : ℕ) :
    LocalTo F (vmwCmdResLookup K t c id) := by
  refine (local_call _).bind fun _ => (local_call _).bind fun res => ?_
  refine (vmwExecbufResNorefValAdd_local res).bind fun _ => ?_
  refine (local_update (fun s mem => ?_) fun s => ?_).bind fun _ => local_pure _
  · dsimp only
    split <;> rfl
  · split <;> exact ⟨rfl, rfl, rfl⟩

theorem vmwResourceRelocationAdd_local (res : Option ℕ) (a : ℤ) (relType : RelType) :
    LocalTo F (vmwResourceRelocationAdd K res a relType) :=
  local_memAlloc.bind fun _ => local_update (fun _ _ => rfl) fun _ => ⟨rfl, rfl, rfl⟩

theorem vmwCmdResCheck_local (t : ResType) (c : Converter) {a : ℤ} (h : wordAt a ⊆ F) :
    LocalTo F (vmwCmdResCheck K t c a) := by
  refine (local_rd h).bind fun id => LocalTo.bind ?_ fun _ => ?_
  · refine ⟨paired_update ?_, fun s => ?_⟩
    · rintro s - ⟨mem, rfl, hmem⟩
      exact ⟨mem, rfl, hmem⟩
    · refine ⟨fun _ _ => rfl, ⟨[⟨a, id⟩], rfl, fun x hx => ?_⟩, ⟨[], by simp [update]⟩⟩
      obtain rfl := List.mem_singleton.1 hx
      exact h
  · split
    · split
      · exact local_fail _
      · exact local_pure _
    · refine (local_field fun _ _ => rfl).bind fun entry => LocalTo.bind ?_ fun res => ?_
      · split
        · exact local_pure _
        · exact vmwCmdResLookup_local t c id
      · refine (vmwResourceRelocationAdd_local res a .normal).retOf.bind fun ret => ?_
        refine LocalTo.bind ?_ fun _ => local_pure _
        exact local_update (fun _ _ => rfl) fun _ => ⟨rfl, rfl, rfl⟩

theorem sidCheck_local {a : ℤ} (h : wordAt a ⊆ F) : LocalTo F (sidCheck K a) :=
  (vmwCmdResCheck_local _ _ h).bind fun _ => local_pure _

theorem vmwTranslatePtr_local (asMob : Bool) {a : ℤ} (h : wordAt a ⊆ F) :
    LocalTo F (vmwTranslatePtr K asMob a) := by
  refine (local_rd h).bind fun handle => (local_call _).retOf.bind fun _ => ?_
  refine (local_call _).bind fun bo => (vmwValidationAddBo_local bo asMob false).bind fun _ => ?_
  refine local_memAlloc.bind fun _ => LocalTo.bind ⟨paired_update ?_, fun s => ?_⟩ fun _ =>
    local_pure _
  · rintro s - ⟨mem, rfl, hmem⟩
    exact ⟨mem, rfl, hmem⟩
  · refine ⟨fun _ _ => rfl, ⟨[], by simp [update]⟩, ⟨[⟨bo, a, asMob⟩], rfl, fun x hx => ?_⟩⟩
    obtain rfl := List.mem_singleton.1 hx
    exact h

theorem noteUse_local (named used : Option ℕ) (query : Bool) :
    LocalTo F (noteUse named used query : Check σ Unit) :=
  local_update (fun _ _ => rfl) fun _ => ⟨rfl, rfl, rfl⟩

theorem vmwExecbufInfoFromRes_local (res : Option ℕ) : LocalTo F (vmwExecbufInfoFromRes K res) := by
  refine (noteUse_local _ _ _).bind fun _ => (local_deref _).bind fun r => ?_
  exact local_field fun _ _ => rfl

theorem bindingAdd_local {c : Check σ ℕ} (node : ℕ) (b : ℕ → ℕ → Binding) (hc : LocalTo F c) :
    LocalTo F (do
      let staged ← stagedOf node
      let c ← c
      vmwBindingAdd (b staged c) : Check σ Unit) := by
  refine (local_field fun _ _ => rfl).bind fun staged => hc.bind fun x => ?_
  exact local_update (fun _ _ => rfl) fun _ => ⟨rfl, rfl, rfl⟩

theorem ctxOf_local (node : ℕ) : LocalTo F (ctxOf node : Check σ ℕ) := local_field fun _ _ => rfl

end Helpers

section Elements

theorem word_subset {a n k : ℤ} (h : Set.Ico a (a + n) ⊆ F) (hk : 0 ≤ k) (hn : k + 4 ≤ n) :
    wordAt (a + k) ⊆ F := by
  rintro b ⟨hb, hb'⟩
  exact h ⟨by omega, by omega⟩

theorem first_subset {a n : ℤ} (h : Set.Ico a (a + n) ⊆ F) (hn : 4 ≤ n) : wordAt a ⊆ F := by
  rintro b ⟨hb, hb'⟩
  exact h ⟨hb, by omega⟩

theorem viewBinding_local (viewType : ViewType) (bt : BindingSlots.BindingType)
    (node shaderSlot firstSlot i : ℕ) {a : ℤ} (h : wordAt a ⊆ F) : LocalTo F (do
      let id ← rd a
      let view ← viewOf K viewType id
      vmwBindingAdd ⟨← stagedOf node, ← ctxOf node, view, bt, shaderSlot,
        Word32.addU32 firstSlot i, []⟩) := by
  refine (local_rd h).bind fun id => (viewOf_local _ _).bind fun view => ?_
  exact bindingAdd_local node (fun staged c => ⟨staged, c, view, bt, shaderSlot, _, []⟩)
    (ctxOf_local node)

theorem texStateCheck_local (ctx : Option ℕ) {cur : ℤ} (h : Set.Ico cur (cur + 12) ⊆ F) :
    LocalTo F (texStateCheck K ctx cur) := by
  refine (local_rd (word_subset h (by norm_num) (by norm_num : (4 : ℤ) + 4 ≤ 12))).bind fun name => ?_
  split
  · refine (local_rd (first_subset h (by norm_num))).bind fun stage => (local_require _ _).bind fun _ => ?_
    refine (vmwCmdResCheck_local _ _ (word_subset h (by norm_num) (by norm_num : (8 : ℤ) + 4 ≤ 12))).bind fun res => ?_
    split
    · refine (vmwExecbufInfoFromRes_local ctx).bind fun info => (local_orElse _ _).bind fun node => ?_
      exact bindingAdd_local node (fun staged c => ⟨staged, c, res, .tex, 0, stage, []⟩)
        (local_deref ctx)
    · exact local_pure _
  · exact local_pure _

theorem vertexBufferCheck_local {p : ℤ} (node startBuffer i : ℕ)
    (h : Set.Ico (p + 12 + 12 * i) (p + 12 + 12 * i + 12) ⊆ F) :
    LocalTo F (vertexBufferCheck K p node startBuffer i) := by
  refine (vmwCmdResCheck_local _ _ (first_subset h (by norm_num))).bind fun res => ?_
  refine (local_rd (word_subset h (by norm_num) (by norm_num : (4 : ℤ) + 4 ≤ 12))).bind fun stride => ?_
  refine (local_rd (word_subset h (by norm_num) (by norm_num : (8 : ℤ) + 4 ≤ 12))).bind fun offset => ?_
  exact bindingAdd_local node (fun staged c => ⟨staged, c, res, .vb, 0, _, [offset, stride]⟩)
    (ctxOf_local node)

theorem soTargetCheck_local {p : ℤ} (node i : ℕ)
    (h : Set.Ico (p + 12 + 12 * i) (p + 12 + 12 * i + 12) ⊆ F) :
    LocalTo F (soTargetCheck K p node i) := by
  refine (vmwCmdResCheck_local _ _ (first_subset h (by norm_num))).bind fun res => ?_
  refine (local_rd (word_subset h (by norm_num) (by norm_num : (4 : ℤ) + 4 ≤ 12))).bind fun offset => ?_
  refine (local_rd (word_subset h (by norm_num) (by norm_num : (8 : ℤ) + 4 ≤ 12))).bind fun size => ?_
  exact bindingAdd_local node (fun staged c => ⟨staged, c, res, .so, 0, i, [offset, size]⟩)
    (ctxOf_local node)

end Elements

/-- The handlers of commands with a trailing array, and the one that looks at a suffix. -/
inductive ArrayHandler where
  | dma
  | draw
  | texState
  | dxSetShaderRes
  | dxSetVertexBuffers
  | dxSetRendertargets
  | dxSetSoTargets
  deriving DecidableEq, Repr

namespace ArrayHandler

def run (K : Kernel σ) (p : ℤ) : ArrayHandler → Check σ Unit
  | dma => vmwCmdDma K p
  | draw => vmwCmdDraw K p
  | texState => vmwCmdTexState K p
  | dxSetShaderRes => vmwCmdDxSetShaderRes K p
  | dxSetVertexBuffers => vmwCmdDxSetVertexBuffers K p
  | dxSetRendertargets => vmwCmdDxSetRendertargets K p
  | dxSetSoTargets => vmwCmdDxSetSoTargets K p

def body : ArrayHandler → ℕ
  | dma => 28
  | draw => 12
  | texState => 4
  | dxSetShaderRes => 8
  | dxSetVertexBuffers => 4
  | dxSetRendertargets => 4
  | dxSetSoTargets => 4

def fixed (h : ArrayHandler) (p : ℤ) : Set ℤ := Set.Ico p (p + 8 + h.body)

end ArrayHandler

structure Elem where
  start : ℤ
  size : ℕ
  deriving DecidableEq, Repr

def Elem.bytes (e : Elem) : Set ℤ := Set.Ico e.start (e.start + e.size)

def array (base : ℤ) (size n : ℕ) : List Elem :=
  (List.range' 0 n).map fun i : ℕ => ⟨base + size * i, size⟩

/-- The elements that a handler looks at in a command that it accepts. -/
def ArrayHandler.visited (p : ℤ) (mem : Memory) : ArrayHandler → List Elem
  | dma => [⟨p + 8 + word mem (p + 4) - 12, 12⟩]
  | draw => array (p + 20) 36 (word mem (p + 12)) ++
      array (p + 20 + 36 * word mem (p + 12)) 28 (word mem (p + 16))
  | texState => array (p + 12) 12 (texStates (word mem (p + 4)))
  | dxSetShaderRes => array (p + 16) 4 (elements (word mem (p + 4)) 8 4)
  | dxSetVertexBuffers => array (p + 12) 12 (numElements (word mem (p + 4))).toNat
  | dxSetRendertargets => array (p + 12) 4 (elements (word mem (p + 4)) 4 4)
  | dxSetSoTargets => array (p + 12) 12 (numElements (word mem (p + 4))).toNat

/-- A run that consists of steps each of which keeps to `F`, or to `F` and the next element. -/
inductive Walked (F : Set ℤ) : List Elem → SwContext σ → SwContext σ → Prop where
  | done (s : SwContext σ) : Walked F [] s s
  | fixed {α : Type} {m : Check σ α} {a : α} {es : List Elem} {s t u : SwContext σ}
      (hlocal : LocalTo F m) (hrun : m s = (.ok a, t)) (rest : Walked F es t u) : Walked F es s u
  | visit {α : Type} {m : Check σ α} {a : α} {e : Elem} {es : List Elem} {s t u : SwContext σ}
      (hlocal : LocalTo (F ∪ e.bytes) m) (hrun : m s = (.ok a, t)) (rest : Walked F es t u) :
      Walked F (e :: es) s u

section Walks
variable {es es' : List Elem} {e : Elem}

theorem Walked.append (h : Walked F es s t) (h' : Walked F es' t u) : Walked F (es ++ es') s u := by
  induction h with
  | done => exact h'
  | fixed hlocal hrun _ ih => exact .fixed hlocal hrun (ih h')
  | visit hlocal hrun _ ih => exact .visit hlocal hrun (ih h')

theorem Walked.trail (h : Walked F es s t) : Trail (F ∪ ⋃ e ∈ es, e.bytes) s t := by
  induction h with
  | done s => exact .refl s
  | @fixed α m a es s t u hlocal hrun _ ih =>
    have htrail := hlocal.trail s
    rw [hrun] at htrail
    exact (htrail.mono Set.subset_union_left).trans ih
  | @visit α m a e es s t u hlocal hrun _ ih =>
    have htrail := hlocal.trail s
    rw [hrun] at htrail
    refine (htrail.mono ?_).trans (ih.mono ?_)
    · exact Set.union_subset_union_right F (Set.subset_biUnion_of_mem (u := Elem.bytes)
        List.mem_cons_self)
    · exact Set.union_subset_union_right F
        (Set.biUnion_subset_biUnion_left fun x hx => List.mem_cons_of_mem _ hx)

theorem walked_repeatFrom {f : ℕ → Check σ Unit} {base : ℤ} {size : ℕ} (n : ℕ) {i : ℕ}
    (hlocal : ∀ k : ℕ, LocalTo (F ∪ (⟨base + size * k, size⟩ : Elem).bytes) (f k))
    (hrun : repeatFrom f i n s = (.ok (), t)) :
    Walked F ((List.range' i n).map fun k : ℕ => ⟨base + size * k, size⟩) s t := by
  induction n generalizing i s with
  | zero =>
    obtain ⟨-, rfl⟩ := pure_ok.1 hrun
    exact .done s
  | succ n ih =>
    obtain ⟨_, u, hu, hrest⟩ := bind_ok.1 hrun
    rw [List.range'_succ, List.map_cons]
    exact .visit (hlocal i) hu (ih hrest)

theorem Walked.absorb (h : Walked F es s t) (hes : ∀ e ∈ es, e.bytes ⊆ F) : Walked F [] s t := by
  induction h with
  | done s => exact .done s
  | fixed hlocal hrun _ ih => exact .fixed hlocal hrun (ih hes)
  | visit hlocal hrun _ ih =>
    rw [Set.union_eq_left.2 (hes _ List.mem_cons_self)] at hlocal
    exact .fixed hlocal hrun (ih fun e he => hes e (List.mem_cons_of_mem _ he))

end Walks

section Handlers
variable {p : ℤ}

theorem fixed_word (h : ArrayHandler) {k : ℤ} (hk : 0 ≤ k) (hn : k + 4 ≤ 8 + h.body) :
    wordAt (p + k) ⊆ h.fixed p := by
  rintro a ⟨ha, ha'⟩
  exact ⟨by omega, by omega⟩

theorem viewBindings_walked {viewType : ViewType} {bt : BindingSlots.BindingType}
    {shaderSlot n firstSlot : ℕ} {viewIds : ℤ}
    (hrun : vmwViewBindingsAdd K viewType bt shaderSlot viewIds n firstSlot s = (.ok (), t)) :
    Walked F (array viewIds 4 n) s t := by
  obtain ⟨node, u, hu, hrun⟩ := bind_ok.1 hrun
  obtain ⟨rfl, rfl⟩ := inspect_ok.1 hu
  obtain ⟨node, u, hu, hrun⟩ := bind_ok.1 hrun
  refine .fixed (local_orElse _ _) hu (walked_repeatFrom n (fun k => ?_) hrun)
  exact viewBinding_local viewType bt node shaderSlot firstSlot k Set.subset_union_right

theorem texState_walked (hrun : vmwCmdTexState K p s = (.ok (), t)) :
    Walked (ArrayHandler.texState.fixed p) (ArrayHandler.texState.visited p s.mem) s t := by
  obtain ⟨size, u, hu, hrun⟩ := bind_ok.1 hrun
  obtain ⟨rfl, rfl⟩ := inspect_ok.1 hu
  obtain ⟨ctx, u, hu, hrun⟩ := bind_ok.1 hrun
  refine .fixed (vmwCmdResCheck_local _ _ ?_) hu (walked_repeatFrom _ (fun k => ?_) hrun)
  · exact fixed_word _ (by norm_num) (by norm_num [ArrayHandler.body])
  · exact texStateCheck_local ctx Set.subset_union_right

theorem shaderRes_walked (hrun : vmwCmdDxSetShaderRes K p s = (.ok (), t)) :
    Walked (ArrayHandler.dxSetShaderRes.fixed p) (ArrayHandler.dxSetShaderRes.visited p s.mem)
      s t := by
  obtain ⟨size, u, hu, hrun⟩ := bind_ok.1 hrun
  obtain ⟨rfl, rfl⟩ := inspect_ok.1 hu
  obtain ⟨startView, u, hu, hrun⟩ := bind_ok.1 hrun
  obtain ⟨rfl, rfl⟩ := inspect_ok.1 hu
  obtain ⟨type, u, hu, hrun⟩ := bind_ok.1 hrun
  obtain ⟨rfl, rfl⟩ := inspect_ok.1 hu
  obtain ⟨-, hrun⟩ := require_bind_ok.1 hrun
  exact viewBindings_walked hrun

theorem rendertargets_walked (hrun : vmwCmdDxSetRendertargets K p s = (.ok (), t)) :
    Walked (ArrayHandler.dxSetRendertargets.fixed p)
      (ArrayHandler.dxSetRendertargets.visited p s.mem) s t := by
  obtain ⟨size, u, hu, hrun⟩ := bind_ok.1 hrun
  obtain ⟨rfl, rfl⟩ := inspect_ok.1 hu
  obtain ⟨-, hrun⟩ := require_bind_ok.1 hrun
  obtain ⟨_, u, hu, hrun⟩ := bind_ok.1 hrun
  -- the id of the depth stencil view is in the body
  have hds : Walked (ArrayHandler.dxSetRendertargets.fixed p) [] s u := by
    refine (viewBindings_walked hu).absorb fun e he => ?_
    obtain rfl : e = ⟨p + 8 + (4 : ℕ) * (0 : ℕ), 4⟩ := List.mem_singleton.1 he
    rintro a ⟨ha, ha'⟩
    simp only [ArrayHandler.fixed, ArrayHandler.body, Set.mem_Ico] at ha ha' ⊢
    omega
  have hall := hds.append (viewBindings_walked hrun)
  rw [List.nil_append] at hall
  exact hall

theorem node_run {f : ℕ → Check σ Unit}
    (hrun : (do let node ← orElse .einval (← dxCtxNode); f node : Check σ Unit) s = (.ok (), t)) :
    ∃ node, f node s = (.ok (), t) := by
  obtain ⟨o, u, hu, hrun⟩ := bind_ok.1 hrun
  obtain ⟨-, rfl⟩ := inspect_ok.1 hu
  obtain ⟨node, u, hu, hrun⟩ := bind_ok.1 hrun
  obtain ⟨-, rfl⟩ := ExecbufFields.orElse_ok.1 hu
  exact ⟨node, hrun⟩

theorem vertexBuffers_walked (hrun : vmwCmdDxSetVertexBuffers K p s = (.ok (), t)) :
    Walked (ArrayHandler.dxSetVertexBuffers.fixed p)
      (ArrayHandler.dxSetVertexBuffers.visited p s.mem) s t := by
  obtain ⟨node, hrun⟩ := node_run hrun
  obtain ⟨size, u, hu, hrun⟩ := bind_ok.1 hrun
  obtain ⟨rfl, rfl⟩ := inspect_ok.1 hu
  obtain ⟨startBuffer, u, hu, hrun⟩ := bind_ok.1 hrun
  obtain ⟨rfl, rfl⟩ := inspect_ok.1 hu
  obtain ⟨-, hrun⟩ := require_bind_ok.1 hrun
  exact walked_repeatFrom _ (fun k => vertexBufferCheck_local node _ k Set.subset_union_right) hrun

theorem soTargets_walked (hrun : vmwCmdDxSetSoTargets K p s = (.ok (), t)) :
    Walked (ArrayHandler.dxSetSoTargets.fixed p) (ArrayHandler.dxSetSoTargets.visited p s.mem)
      s t := by
  obtain ⟨node, hrun⟩ := node_run hrun
  obtain ⟨size, u, hu, hrun⟩ := bind_ok.1 hrun
  obtain ⟨rfl, rfl⟩ := inspect_ok.1 hu
  obtain ⟨-, hrun⟩ := require_bind_ok.1 hrun
  exact walked_repeatFrom _ (fun k => soTargetCheck_local node k Set.subset_union_right) hrun

theorem sidCheck_mem {a : ℤ} : Keeps (Steady K) anyStop (sidCheck K a) :=
  (vmwCmdResCheck_steady _ _ _).bind fun _ => keeps_pure _

/-- Both counts are checked against the size of the command. -/
structure Counted (size numVertexDecls numRanges : ℕ) : Prop where
  decls : numVertexDecls ≤ elements size 12 36
  ranges : numRanges ≤ subU64 (subU64 size 12) (numVertexDecls * 36) / 28 % 2 ^ 32

theorem draw_walked (hrun : vmwCmdDraw K p s = (.ok (), t)) :
    Walked (ArrayHandler.draw.fixed p) (ArrayHandler.draw.visited p s.mem) s t ∧
      Counted (word s.mem (p + 4)) (word s.mem (p + 12)) (word s.mem (p + 16)) := by
  obtain ⟨_, u, hcid, hrun⟩ := bind_ok.1 hrun
  have hmem : u.mem = s.mem := by
    have hkeeps : Keeps (Steady K) anyStop (vmwCmdCidCheck K p) :=
      (vmwCmdResCheck_steady _ _ _).bind fun _ => keeps_pure _
    exact (hkeeps.ok hcid).mem
  obtain ⟨size, v, hv, hrun⟩ := bind_ok.1 hrun
  obtain ⟨rfl, rfl⟩ := inspect_ok.1 hv
  obtain ⟨decls, v, hv, hrun⟩ := bind_ok.1 hrun
  obtain ⟨rfl, rfl⟩ := inspect_ok.1 hv
  obtain ⟨hdecls, hrun⟩ := require_bind_ok.1 hrun
  obtain ⟨_, v, hloop, hrun⟩ := bind_ok.1 hrun
  have hmem' : v.mem = u.mem := ((Keeps.repeatFrom (fun k => sidCheck_mem) _ _).ok hloop).mem
  obtain ⟨ranges, w, hw, hrun⟩ := bind_ok.1 hrun
  obtain ⟨rfl, rfl⟩ := inspect_ok.1 hw
  obtain ⟨hranges, hrun⟩ := require_bind_ok.1 hrun
  rw [hmem'] at hranges hrun
  rw [hmem] at hdecls hloop hranges hrun
  have hsid : ∀ {a : ℤ} {n : ℕ} {k : ℤ} {G : Set ℤ}, 0 ≤ k → k + 4 ≤ n →
      LocalTo (G ∪ (⟨a, n⟩ : Elem).bytes) (sidCheck K (a + k)) := fun hk hn =>
    sidCheck_local (word_subset Set.subset_union_right hk hn)
  refine ⟨.fixed (m := vmwCmdCidCheck K p) ?_ hcid ?_, of_decide_eq_true hdecls,
    of_decide_eq_true hranges⟩
  · refine (vmwCmdResCheck_local _ _ ?_).bind fun _ => local_pure _
    exact fixed_word _ (by norm_num) (by norm_num [ArrayHandler.body])
  · refine Walked.append (t := v) ?_ ?_
    · exact walked_repeatFrom _ (fun k => hsid (k := 16) (by norm_num) (by norm_num)) hloop
    · exact walked_repeatFrom _ (fun k => hsid (k := 8) (by norm_num) (by norm_num)) hrun

theorem dma_walked (hrun : vmwCmdDma K p s = (.ok (), t)) :
    Walked (ArrayHandler.dma.fixed p) (ArrayHandler.dma.visited p s.mem) s t := by
  have hfixed : ∀ {k : ℤ}, 0 ≤ k → k + 4 ≤ 36 → wordAt (p + k) ⊆ ArrayHandler.dma.fixed p :=
    fun hk hn => fixed_word _ hk hn
  obtain ⟨bo, u, hguest, hrun⟩ := bind_ok.1 hrun
  obtain ⟨size, v, hv, hguest⟩ := bind_ok.1 hguest
  obtain ⟨rfl, rfl⟩ := inspect_ok.1 hv
  refine .visit ?_ hguest (.fixed ?_ hrun (.done t))
  · have hsuffix : Set.Ico (p + 8 + word s.mem (p + 4) - 12) (p + 8 + word s.mem (p + 4) - 12 + 12) ⊆
        ArrayHandler.dma.fixed p ∪
          (⟨p + 8 + word s.mem (p + 4) - 12, 12⟩ : Elem).bytes := Set.subset_union_right
    have hbody : ∀ {k : ℤ}, 0 ≤ k → k + 4 ≤ 36 → wordAt (p + k) ⊆ ArrayHandler.dma.fixed p ∪
        (⟨p + 8 + word s.mem (p + 4) - 12, 12⟩ : Elem).bytes := fun hk hn =>
      (hfixed hk hn).trans Set.subset_union_left
    have hmax := word_subset hsuffix (by norm_num) (by norm_num : (4 : ℤ) + 4 ≤ 12)
    refine (local_rd (first_subset hsuffix (by norm_num))).bind fun suffixSize => ?_
    refine (local_require _ _).bind fun _ => ?_
    refine (vmwTranslatePtr_local false (hbody (by norm_num) (by norm_num))).bind fun bo => ?_
    refine (local_rd (hbody (by norm_num) (by norm_num))).bind fun offset => ?_
    refine (local_require _ _).bind fun _ => (local_rd hmax).bind fun maximumOffset => ?_
    exact ((local_wr _ hmax).runIf _).bind fun _ => local_pure _
  · refine (vmwCmdResCheck_local _ _ (hfixed (by norm_num) (by norm_num))).bind fun named => ?_
    refine (local_field fun _ _ => rfl).bind fun srf => (noteUse_local _ _ _).bind fun _ => ?_
    exact (local_deref _).bind fun srf => local_act _

theorem walked (h : ArrayHandler) (hrun : h.run K p s = (.ok (), t)) :
    Walked (h.fixed p) (h.visited p s.mem) s t := by
  cases h with
  | dma => exact dma_walked hrun
  | draw => exact (draw_walked hrun).1
  | texState => exact texState_walked hrun
  | dxSetShaderRes => exact shaderRes_walked hrun
  | dxSetVertexBuffers => exact vertexBuffers_walked hrun
  | dxSetRendertargets => exact rendertargets_walked hrun
  | dxSetSoTargets => exact soTargets_walked hrun

end Handlers

section Inside
variable {p : ℤ} {size : ℕ}

/-- The element lies between the end of the body and the end of the command. -/
def Inside (h : ArrayHandler) (p : ℤ) (size : ℕ) (e : Elem) : Prop :=
  p + 8 + h.body ≤ e.start ∧ e.start + e.size ≤ p + 8 + size

instance (h : ArrayHandler) (p : ℤ) (size : ℕ) (e : Elem) : Decidable (Inside h p size e) :=
  inferInstanceAs (Decidable (_ ∧ _))

/-- The states of a texture state command have no remainder, and the suffix of a DMA does not
    reach into the body. -/
def Fits (size : ℕ) : ArrayHandler → Prop
  | .texState => 12 ∣ size - 4
  | .dma => 40 ≤ size
  | _ => True

theorem array_inside (h : ArrayHandler) {base : ℤ} {n w : ℕ} (hbase : p + 8 + h.body ≤ base)
    (hend : base + w * n ≤ p + 8 + size) : ∀ e ∈ array base w n, Inside h p size e := by
  intro e he
  obtain ⟨i, hi, rfl⟩ := List.mem_map.1 he
  have hlt := (List.mem_range'_1.1 hi).2
  have hmul : w * i + w ≤ w * n := by
    have hle := Nat.mul_le_mul_left w (by omega : i + 1 ≤ n)
    rwa [Nat.mul_succ] at hle
  have hmul' : (w : ℤ) * i + w ≤ w * n := by exact_mod_cast hmul
  have hpos : (0 : ℤ) ≤ w * i := by positivity
  constructor
  · change _ ≤ base + (w : ℤ) * i
    omega
  · change base + (w : ℤ) * i + w ≤ _
    omega

theorem subU64_of_le {a b : ℕ} (h : b ≤ a) (ha : a < 2 ^ 64) : subU64 a b = a - b := by
  unfold subU64
  rw [Nat.mod_eq_of_lt (by omega : b < 2 ^ 64)]
  omega

theorem elements_of_le {body elem : ℕ} (h : body ≤ size) (hsize : size < 2 ^ 32) :
    elements size body elem = (size - body) / elem := by
  unfold elements
  rw [subU64_of_le h (by omega)]
  exact Nat.mod_eq_of_lt ((Nat.div_le_self _ _).trans_lt (by omega))

theorem numElements_of_le (h : 4 ≤ size) (hsize : size < 2 ^ 32) :
    (numElements size).toNat = (size - 4) / 12 := by
  have hlt : (size - 4) / 12 < 2 ^ 31 := by omega
  unfold numElements
  rw [elements_of_le h hsize, Int.bmod_eq_of_le (by omega) (by omega)]
  rfl

theorem elements_inside (h : ArrayHandler) {base : ℤ} {w n : ℕ} (hbody : h.body ≤ size)
    (hbase : base = p + 8 + h.body) (hn : n ≤ (size - h.body) / w) :
    ∀ e ∈ array base w n, Inside h p size e := by
  refine array_inside h (le_of_eq hbase.symm) ?_
  have hmul : w * n ≤ size - h.body :=
    (Nat.mul_le_mul_left w hn).trans (Nat.mul_div_le (size - h.body) w)
  have hmul' : (w : ℤ) * n ≤ size - h.body := by
    rw [← Nat.cast_sub hbody]
    exact_mod_cast hmul
  omega

theorem draw_inside {decls ranges : ℕ} (hsize : size < 2 ^ 32) (hbody : 12 ≤ size)
    (h : Counted size decls ranges) : ∀ e ∈ array (p + 20) 36 decls ++
      array (p + 20 + 36 * decls) 28 ranges, Inside .draw p size e := by
  have hdecls := h.decls
  have hranges := h.ranges
  rw [elements_of_le hbody hsize] at hdecls
  rw [subU64_of_le hbody (by omega), subU64_of_le (by omega) (by omega)] at hranges
  have hmod := hranges.trans (Nat.mod_le _ _)
  intro e he
  rcases List.mem_append.1 he with he | he
  · refine array_inside .draw ?_ ?_ e he
    · change p + 8 + ((12 : ℕ) : ℤ) ≤ p + 20
      omega
    · omega
  · refine array_inside .draw ?_ ?_ e he
    · change p + 8 + ((12 : ℕ) : ℤ) ≤ _
      omega
    · omega

/-- The arrays of a command of which the body is complete lie behind it, and end with it or
    before. -/
theorem visited_inside {h : ArrayHandler} (hrun : h.run K p s = (.ok (), t))
    (hbody : h.body ≤ word s.mem (p + 4)) (hfits : Fits (word s.mem (p + 4)) h) :
    ∀ e ∈ h.visited p s.mem, Inside h p (word s.mem (p + 4)) e := by
  have hsize := word_lt s.mem (p + 4)
  cases h with
  | dma =>
    intro e he
    obtain rfl := List.mem_singleton.1 he
    have hfits : 40 ≤ word s.mem (p + 4) := hfits
    constructor
    · change p + 8 + (28 : ℕ) ≤ p + 8 + word s.mem (p + 4) - 12
      omega
    · change p + 8 + word s.mem (p + 4) - 12 + (12 : ℕ) ≤ _
      omega
  | draw => exact draw_inside hsize hbody (draw_walked hrun).2
  | texState =>
    have hbody : 4 ≤ word s.mem (p + 4) := hbody
    have hfits : 12 ∣ word s.mem (p + 4) - 4 := hfits
    refine elements_inside .texState hbody (add_assoc p 8 4).symm ?_
    unfold texStates
    change _ ≤ (word s.mem (p + 4) - 4) / 12
    omega
  | dxSetShaderRes =>
    refine elements_inside .dxSetShaderRes hbody (add_assoc p 8 8).symm ?_
    exact le_of_eq (elements_of_le hbody hsize)
  | dxSetVertexBuffers =>
    refine elements_inside .dxSetVertexBuffers hbody (add_assoc p 8 4).symm ?_
    exact le_of_eq (numElements_of_le hbody hsize)
  | dxSetRendertargets =>
    refine elements_inside .dxSetRendertargets hbody (add_assoc p 8 4).symm ?_
    exact le_of_eq (elements_of_le hbody hsize)
  | dxSetSoTargets =>
    refine elements_inside .dxSetSoTargets hbody (add_assoc p 8 4).symm ?_
    exact le_of_eq (numElements_of_le hbody hsize)

theorem visited_outside {h : ArrayHandler} (hbody : h.body ≤ word s.mem (p + 4))
    (hfits : ¬ Fits (word s.mem (p + 4)) h) :
    ∃ e ∈ h.visited p s.mem, ¬ Inside h p (word s.mem (p + 4)) e := by
  cases h with
  | dma =>
    have hfits : ¬ 40 ≤ word s.mem (p + 4) := hfits
    refine ⟨_, List.mem_singleton_self _, fun hin => ?_⟩
    have hstart : p + 8 + ((28 : ℕ) : ℤ) ≤ p + 8 + word s.mem (p + 4) - 12 := hin.1
    omega
  | texState =>
    have hbody : 4 ≤ word s.mem (p + 4) := hbody
    have hfits : ¬ 12 ∣ word s.mem (p + 4) - 4 := hfits
    have hpos : 0 < texStates (word s.mem (p + 4)) := by
      unfold texStates
      omega
    refine ⟨⟨p + 12 + (12 : ℕ) * (texStates (word s.mem (p + 4)) - 1 : ℕ), 12⟩,
      List.mem_map.2 ⟨_, List.mem_range'_1.2 ⟨Nat.zero_le _, by omega⟩, rfl⟩, fun hin => ?_⟩
    have hend : p + 12 + ((12 : ℕ) : ℤ) * (texStates (word s.mem (p + 4)) - 1 : ℕ) + (12 : ℕ) ≤
      p + 8 + word s.mem (p + 4) := hin.2
    unfold texStates at hend hpos
    omega
  | draw | dxSetShaderRes | dxSetVertexBuffers | dxSetRendertargets | dxSetSoTargets =>
    exact absurd trivial hfits

/-- A command that a handler accepts, its body complete: the handler looks at its body and at
    its elements only, and these lie behind the body and in the command unless a texture state
    is cut off or the suffix of a DMA reaches into the body. -/
theorem visited_inside_iff (h : ArrayHandler) (hrun : h.run K p s = (.ok (), t))
    (hbody : h.body ≤ word s.mem (p + 4)) :
    Walked (h.fixed p) (h.visited p s.mem) s t ∧
      ((∀ e ∈ h.visited p s.mem, Inside h p (word s.mem (p + 4)) e) ↔
        Fits (word s.mem (p + 4)) h) := by
  refine ⟨walked h hrun, fun hall => ?_, visited_inside hrun hbody⟩
  by_contra hno
  obtain ⟨e, he, hout⟩ := visited_outside hbody hno
  exact hout (hall e he)

def oneState : SwContext Bool := sampleContext [0, 16, 1, 0, svga3dTsBindTexture, 3] true

theorem oneState_inside : ArrayHandler.texState.visited 0 oneState.mem = [⟨12, 12⟩] ∧
    Inside .texState 0 16 ⟨12, 12⟩ := by
  have hvisited : ArrayHandler.texState.visited 0 oneState.mem = [⟨12, 12⟩] := by decide +kernel
  have hrun := ok_of_toOption (m := ArrayHandler.texState.run (sampleKernel false) 0)
    (s := oneState) (a := ()) (by decide +kernel)
  have hinside := (visited_inside_iff .texState hrun (by decide +kernel)).2.2 (by
    change 12 ∣ word oneState.mem (0 + 4) - 4
    decide +kernel)
  exact ⟨hvisited, hinside ⟨12, 12⟩ (by rw [hvisited]; exact List.mem_singleton_self _)⟩

/-- A batch of the same command, four bytes shorter: the texture id is the word behind it. -/
def cutOffState : SwContext Bool := sampleContext [1051, 12, 1, 0, svga3dTsBindTexture, 3] true

/-- A batch of a DMA command of nothing but a body, the last three words of which are a suffix. -/
def bareDma : SwContext Bool := sampleContext [1044, 28, 60, 0, 0, 3, 12, 5000, 0] true

/-- Both batches are accepted. The first has an id relocated that is behind its end; the second
    has a word of its body overwritten. -/
theorem visited_not_inside :
    ((vmwCmdCheckAll (sampleKernel false) 2 20 cutOffState).1.toOption = some (some [20]) ∧
      ArrayHandler.texState.body ≤ word cutOffState.mem 4 ∧
      (⟨20, 3⟩ : IdRead) ∈ (vmwCmdCheckAll (sampleKernel false) 2 20 cutOffState).2.idReads ∧
      ¬ ∀ e ∈ ArrayHandler.texState.visited 0 cutOffState.mem,
        Inside .texState 0 (word cutOffState.mem 4) e) ∧
    (vmwCmdCheckAll (sampleKernel false) 2 36 bareDma).1.toOption = some (some [36]) ∧
      ArrayHandler.dma.body ≤ word bareDma.mem 4 ∧
      word (vmwCmdCheckAll (sampleKernel false) 2 36 bareDma).2.mem 28 = 4096 ∧
      ¬ ∀ e ∈ ArrayHandler.dma.visited 0 bareDma.mem, Inside .dma 0 (word bareDma.mem 4) e := by
  decide +kernel

end Inside

end Vmwgfx.ExecbufArrays
