import Vmwgfx.ExecbufState

set_option autoImplicit false

/-!
# Memory of a validation context

`vmw_validation_mem_alloc`, the preloads and the allocations of `vmw_validation_add_bo` and
`vmw_validation_add_resource`. A pointer is a page of the context with an offset; what callers
store into their chunks is part of the runs.
-/
namespace Vmwgfx.ValidationMem
open ExecbufState (Errno)

def pageSize : ℕ := 4096

/-- `sizeof(struct vmw_validation_bo_node)`. -/
def boNodeSize : ℕ := 64

/-- `sizeof(struct vmw_validation_res_node)`. -/
def resNodeSize : ℕ := 72

/-- `vmw_validation_align`, in `unsigned int`. -/
def vmwValidationAlign (val : ℕ) : ℕ := (val + 7) % 2 ^ 32 / 8 * 8

structure Chunk where
  page : Option ℕ
  offset : ℕ
  size : ℕ
  deriving DecidableEq, Repr

/-- The allocator of a `struct vmw_validation_context`: the length of `page_list`, the page of
    `page_address`, and the memory of the pages. -/
structure MemCtx where
  pages : ℕ
  pageAddress : Option ℕ
  memSizeLeft : ℕ
  mem : ℕ → ℕ → UInt8

/-- `alloc_page` with `__GFP_ZERO`. -/
def addPage (ctx : MemCtx) : MemCtx :=
  { pages := ctx.pages + 1
    pageAddress := some ctx.pages
    memSizeLeft := pageSize
    mem := Function.update ctx.mem ctx.pages fun _ => 0 }

def takeChunk (ctx : MemCtx) (asked size : ℕ) : Option Chunk × MemCtx :=
  (some ⟨ctx.pageAddress, pageSize - ctx.memSizeLeft, asked⟩,
    { ctx with memSizeLeft := ctx.memSizeLeft - size })

/-- `page` tells whether `alloc_page` succeeds. -/
def vmwValidationMemAlloc (ctx : MemCtx) (asked : ℕ) (page : Bool) : Option Chunk × MemCtx :=
  let size := vmwValidationAlign asked
  if pageSize < size then (none, ctx)
  else if ctx.memSizeLeft < size then
    if page then takeChunk (addPage ctx) asked size else (none, ctx)
  else takeChunk ctx asked size

/-- What both preloads do with their size: allocate and hand back. -/
def preload (ctx : MemCtx) (size : ℕ) (page : Bool) : Except Errno Unit × MemCtx :=
  match vmwValidationMemAlloc ctx size page with
  | (none, ctx) => (.error .enomem, ctx)
  | (some _, ctx) => (.ok (), { ctx with memSizeLeft := (ctx.memSizeLeft + size) % 2 ^ 32 })

def vmwValidationPreloadBo (ctx : MemCtx) (page : Bool) : Except Errno Unit × MemCtx :=
  preload ctx boNodeSize page

def preloadResSize (size : ℕ) : ℕ :=
  (vmwValidationAlign ((resNodeSize + size) % 2 ^ 32) + vmwValidationAlign boNodeSize) % 2 ^ 32

def vmwValidationPreloadRes (ctx : MemCtx) (size : ℕ) (page : Bool) : Except Errno Unit × MemCtx :=
  preload ctx (preloadResSize size) page

/-- The node of `vmw_validation_add_bo`, which is only allocated for a buffer that is new. -/
def addBoNode (ctx : MemCtx) (dup page : Bool) : Option Chunk × MemCtx :=
  if dup then (none, ctx) else vmwValidationMemAlloc ctx boNodeSize page

def addResourceNode (ctx : MemCtx) (privSize : ℕ) (dup page : Bool) : Option Chunk × MemCtx :=
  if dup then (none, ctx)
  else vmwValidationMemAlloc ctx ((resNodeSize + privSize) % 2 ^ 32) page

/-- `store k i v` is a store of a caller to byte `i` of the `k`-th chunk it was given. -/
inductive Op where
  | memAlloc (size : ℕ) (page : Bool)
  | preloadBo (page : Bool)
  | preloadRes (size : ℕ) (page : Bool)
  | addBo (dup page : Bool)
  | addResource (privSize : ℕ) (dup page : Bool)
  | store (k i : ℕ) (v : UInt8)

structure World where
  ctx : MemCtx
  live : List Chunk

def World.keep (w : World) (r : Option Chunk × MemCtx) : World := ⟨r.2, w.live ++ r.1.toList⟩

def store (ctx : MemCtx) (c : Chunk) (i : ℕ) (v : UInt8) : MemCtx :=
  match c.page with
  | none => ctx
  | some p =>
    { ctx with mem := Function.update ctx.mem p (Function.update (ctx.mem p) (c.offset + i) v) }

def step (w : World) : Op → World
  | .memAlloc size page => w.keep (vmwValidationMemAlloc w.ctx size page)
  | .preloadBo page => { w with ctx := (vmwValidationPreloadBo w.ctx page).2 }
  | .preloadRes size page => { w with ctx := (vmwValidationPreloadRes w.ctx size page).2 }
  | .addBo dup page => w.keep (addBoNode w.ctx dup page)
  | .addResource privSize dup page => w.keep (addResourceNode w.ctx privSize dup page)
  | .store k i v =>
    match w.live[k]? with
    | none => w
    | some c => if i < c.size then { w with ctx := store w.ctx c i v } else w

def run (w : World) (ops : List Op) : World := ops.foldl step w

/-- `DECLARE_VAL_CONTEXT`. -/
def fresh (mem : ℕ → ℕ → UInt8) : World := ⟨⟨0, none, 0, mem⟩, []⟩

def Op.Small : Op → Prop
  | .memAlloc size _ => size ≤ pageSize
  | .preloadRes size _ => size ≤ pageSize
  | .addResource privSize _ _ => privSize ≤ pageSize
  | _ => True

theorem align_mod (val : ℕ) : vmwValidationAlign val % 8 = 0 := by
  unfold vmwValidationAlign
  omega

theorem le_align {val : ℕ} (h : val ≤ 2 * pageSize) : val ≤ vmwValidationAlign val := by
  unfold pageSize at h
  unfold vmwValidationAlign
  omega

theorem align_mono {a b : ℕ} (h : a ≤ b) (hb : b ≤ 2 * pageSize) :
    vmwValidationAlign a ≤ vmwValidationAlign b := by
  unfold pageSize at hb
  unfold vmwValidationAlign
  omega

theorem align_of_mod {val : ℕ} (h : val % 8 = 0) (hlt : val + 7 < 2 ^ 32) :
    vmwValidationAlign val = val := by
  unfold vmwValidationAlign
  omega

theorem memAlloc_left {ctx : MemCtx} {asked : ℕ} (page : Bool)
    (hleft : vmwValidationAlign asked ≤ ctx.memSizeLeft)
    (hsize : vmwValidationAlign asked ≤ pageSize) :
    vmwValidationMemAlloc ctx asked page =
      (some ⟨ctx.pageAddress, pageSize - ctx.memSizeLeft, asked⟩,
        { ctx with memSizeLeft := ctx.memSizeLeft - vmwValidationAlign asked }) := by
  unfold vmwValidationMemAlloc
  simp only
  rw [if_neg (by omega), if_neg (by omega)]
  rfl

theorem memAlloc_page {ctx : MemCtx} {asked : ℕ} (hleft : ctx.memSizeLeft < vmwValidationAlign asked)
    (hsize : vmwValidationAlign asked ≤ pageSize) :
    vmwValidationMemAlloc ctx asked true =
      (some ⟨some ctx.pages, 0, asked⟩,
        { addPage ctx with memSizeLeft := pageSize - vmwValidationAlign asked }) := by
  unfold vmwValidationMemAlloc
  simp only
  rw [if_neg (by omega), if_pos hleft, if_true]
  simp only [takeChunk, addPage, Nat.sub_self]

theorem memAlloc_none {ctx : MemCtx} {asked : ℕ} {page : Bool}
    (h : pageSize < vmwValidationAlign asked ∨
      ctx.memSizeLeft < vmwValidationAlign asked ∧ page = false) :
    vmwValidationMemAlloc ctx asked page = (none, ctx) := by
  unfold vmwValidationMemAlloc
  simp only
  rcases h with hsize | ⟨hleft, hpage⟩
  · rw [if_pos hsize]
  · rw [if_pos hleft, hpage]
    simp only [Bool.false_eq_true, if_false, ite_self]

/-- What a preload of `size` bytes leaves: the context as it is, or one with a new page. Only an
    error leaves less than `size`. -/
theorem preload_cases {ctx : MemCtx} {size : ℕ} (page : Bool) (hmod : size % 8 = 0)
    (hlt : size + 7 < 2 ^ 32) (hleft : ctx.memSizeLeft ≤ pageSize) :
    (preload ctx size page = (.error .enomem, ctx)) ∨
      (preload ctx size page = (.ok (), ctx) ∧ size ≤ ctx.memSizeLeft) ∨
      (preload ctx size page = (.ok (), addPage ctx) ∧ size ≤ pageSize) := by
  have halign := align_of_mod hmod hlt
  by_cases hsize : size ≤ pageSize
  · by_cases hroom : size ≤ ctx.memSizeLeft
    · refine .inr (.inl ⟨?_, hroom⟩)
      have hsame : (ctx.memSizeLeft - size + size) % 2 ^ 32 = ctx.memSizeLeft := by
        unfold pageSize at hleft
        omega
      rw [preload, memAlloc_left page (by omega) (by omega)]
      simp only [halign, hsame]
    · cases page with
      | false =>
        refine .inl ?_
        rw [preload, memAlloc_none (.inr ⟨by omega, rfl⟩)]
      | true =>
        refine .inr (.inr ⟨?_, hsize⟩)
        have hsame : (pageSize - size + size) % 2 ^ 32 = pageSize := by
          unfold pageSize at *
          omega
        rw [preload, memAlloc_page (by omega) (by omega)]
        simp only [halign, hsame]
        rfl
  · refine .inl ?_
    rw [preload, memAlloc_none (.inl (by omega))]

def Apart (c d : Chunk) : Prop :=
  ∀ i < c.size, ∀ j < d.size, (c.page, c.offset + i) ≠ (d.page, d.offset + j)

/-- A chunk in the part of a page that has been handed out. -/
structure Placed (ctx : MemCtx) (c : Chunk) : Prop where
  aligned : c.offset % 8 = 0
  inPage : c.offset + c.size ≤ pageSize
  page : (c.size = 0 ∧ c.page = none) ∨ ∃ p < ctx.pages, c.page = some p
  taken : c.page = some (ctx.pages - 1) → c.offset + c.size ≤ pageSize - ctx.memSizeLeft

def FreeZero (ctx : MemCtx) : Prop :=
  ∀ o < pageSize, pageSize - ctx.memSizeLeft ≤ o → ctx.mem (ctx.pages - 1) o = 0

structure Inv (w : World) : Prop where
  left : w.ctx.memSizeLeft ≤ pageSize
  leftAligned : w.ctx.memSizeLeft % 8 = 0
  noPage : w.ctx.pages = 0 → w.ctx.memSizeLeft = 0 ∧ w.ctx.pageAddress = none
  address : 0 < w.ctx.pages → w.ctx.pageAddress = some (w.ctx.pages - 1)
  chunks : ∀ c ∈ w.live, Placed w.ctx c
  apart : w.live.Pairwise Apart
  free : FreeZero w.ctx

theorem inv_fresh (mem : ℕ → ℕ → UInt8) : Inv (fresh mem) := by
  refine ⟨Nat.zero_le _, rfl, fun _ => ⟨rfl, rfl⟩, fun h => absurd h (Nat.lt_irrefl 0), ?_,
    List.Pairwise.nil, ?_⟩
  · intro c hc
    cases hc
  · intro o ho hle
    simp only [fresh] at hle
    omega

variable {w : World}

theorem Placed.addPage {ctx : MemCtx} {c : Chunk} (h : Placed ctx c) (left : ℕ) :
    Placed { ValidationMem.addPage ctx with memSizeLeft := left } c := by
  refine ⟨h.aligned, h.inPage, ?_, ?_⟩
  · rcases h.page with hnone | ⟨p, hp, heq⟩
    · exact .inl hnone
    · exact .inr ⟨p, Nat.lt_succ_of_lt hp, heq⟩
  · intro heq
    change c.page = some ctx.pages at heq
    rcases h.page with ⟨_, hnone⟩ | ⟨p, hp, hpage⟩
    · rw [hnone] at heq
      cases heq
    · rw [hpage, Option.some.injEq] at heq
      omega

theorem Placed.shrink {ctx : MemCtx} {c : Chunk} {left : ℕ} (h : Placed ctx c)
    (hleft : left ≤ ctx.memSizeLeft) : Placed { ctx with memSizeLeft := left } c := by
  refine ⟨h.aligned, h.inPage, h.page, fun heq => ?_⟩
  have htaken := h.taken heq
  simp only
  omega

theorem addPage_zero (ctx : MemCtx) (left : ℕ) :
    FreeZero { addPage ctx with memSizeLeft := left } := by
  intro o _ _
  simp only [addPage, Nat.add_sub_cancel, Function.update_self]

theorem Inv.addPage (h : Inv w) {left : ℕ} (hle : left ≤ pageSize) (hmod : left % 8 = 0) :
    Inv { w with ctx := { ValidationMem.addPage w.ctx with memSizeLeft := left } } where
  left := hle
  leftAligned := hmod
  noPage h0 := absurd h0 (Nat.succ_ne_zero _)
  address _ := rfl
  chunks c hc := (h.chunks c hc).addPage left
  apart := h.apart
  free := addPage_zero w.ctx left

theorem Inv.take (h : Inv w) {asked : ℕ} (hasked : asked ≤ 2 * pageSize)
    (hroom : vmwValidationAlign asked ≤ w.ctx.memSizeLeft) :
    Inv ⟨{ w.ctx with memSizeLeft := w.ctx.memSizeLeft - vmwValidationAlign asked },
      w.live ++ [⟨w.ctx.pageAddress, pageSize - w.ctx.memSizeLeft, asked⟩]⟩ := by
  have hle := le_align hasked
  have hmod := align_mod asked
  have hleft := h.left
  have haligned := h.leftAligned
  have hpage : pageSize % 8 = 0 := rfl
  refine ⟨?_, ?_, ?_, h.address, ?_, ?_, ?_⟩
  · simp only
    omega
  · simp only
    omega
  · intro h0
    obtain ⟨hzero, hnone⟩ := h.noPage h0
    exact ⟨by simp only; omega, hnone⟩
  · intro c hc
    rcases List.mem_append.mp hc with hc | hc
    · exact (h.chunks c hc).shrink (Nat.sub_le _ _)
    · rw [List.mem_singleton] at hc
      subst hc
      refine ⟨?_, ?_, ?_, fun _ => ?_⟩
      · simp only
        omega
      · simp only
        omega
      · rcases Nat.eq_zero_or_pos w.ctx.pages with h0 | hpos
        · obtain ⟨hzero, hnone⟩ := h.noPage h0
          exact .inl ⟨by simp only; omega, hnone⟩
        · exact .inr ⟨_, Nat.sub_lt hpos Nat.one_pos, h.address hpos⟩
      · simp only
        omega
  · rw [List.pairwise_append]
    refine ⟨h.apart, List.pairwise_singleton _ _, ?_⟩
    intro c hc d hd i hi j hj heq
    rw [List.mem_singleton] at hd
    subst hd
    simp only [Prod.mk.injEq] at heq hj
    have hc := h.chunks c hc
    rcases Nat.eq_zero_or_pos w.ctx.pages with h0 | hpos
    · have hzero := (h.noPage h0).1
      omega
    · have htaken := hc.taken (heq.1.trans (h.address hpos))
      omega
  · intro o ho hle
    simp only at hle
    exact h.free o ho (by omega)

theorem memAlloc_cases (ctx : MemCtx) (asked : ℕ) (page : Bool) :
    vmwValidationMemAlloc ctx asked page = (none, ctx) ∨
      ∃ c, (c = ctx ∨ c = addPage ctx) ∧ vmwValidationAlign asked ≤ c.memSizeLeft ∧
        vmwValidationMemAlloc ctx asked page = takeChunk c asked (vmwValidationAlign asked) := by
  by_cases hsize : vmwValidationAlign asked ≤ pageSize
  · by_cases hroom : vmwValidationAlign asked ≤ ctx.memSizeLeft
    · exact .inr ⟨ctx, .inl rfl, hroom, memAlloc_left page hroom hsize⟩
    · cases page with
      | false => exact .inl (memAlloc_none (.inr ⟨by omega, rfl⟩))
      | true =>
        refine .inr ⟨addPage ctx, .inr rfl, hsize, ?_⟩
        rw [memAlloc_page (by omega) hsize]
        simp only [takeChunk, addPage, Nat.sub_self]
  · exact .inl (memAlloc_none (.inl (by omega)))

theorem Inv.newPage (h : Inv w) : Inv { w with ctx := ValidationMem.addPage w.ctx } :=
  h.addPage (Nat.le_refl pageSize) rfl

theorem Inv.keep (h : Inv w) {asked : ℕ} (hasked : asked ≤ 2 * pageSize) (page : Bool) :
    Inv (w.keep (vmwValidationMemAlloc w.ctx asked page)) := by
  rcases memAlloc_cases w.ctx asked page with heq | ⟨c, rfl | rfl, hroom, heq⟩
  · rw [heq, World.keep, Option.toList_none, List.append_nil]
    exact h
  · rw [heq]
    exact h.take hasked hroom
  · rw [heq]
    exact h.newPage.take hasked hroom

/-- Byte `i` of a chunk. -/
def byteAt (ctx : MemCtx) (c : Chunk) (i : ℕ) : UInt8 :=
  match c.page with
  | none => 0
  | some p => ctx.mem p (c.offset + i)

theorem Inv.take_zero (h : Inv w) {asked : ℕ} (hasked : asked ≤ 2 * pageSize)
    (hroom : vmwValidationAlign asked ≤ w.ctx.memSizeLeft) {i : ℕ} (hi : i < asked) :
    byteAt w.ctx ⟨w.ctx.pageAddress, pageSize - w.ctx.memSizeLeft, asked⟩ i = 0 := by
  have hle := le_align hasked
  have hleft := h.left
  rcases Nat.eq_zero_or_pos w.ctx.pages with h0 | hpos
  · have hzero := (h.noPage h0).1
    omega
  · simp only [byteAt, h.address hpos]
    exact h.free _ (by omega) (by omega)

theorem Inv.zeroed (h : Inv w) {asked : ℕ} (hasked : asked ≤ 2 * pageSize) {page : Bool} {c : Chunk}
    {ctx : MemCtx} (halloc : vmwValidationMemAlloc w.ctx asked page = (some c, ctx)) {i : ℕ}
    (hi : i < c.size) : byteAt ctx c i = 0 := by
  rcases memAlloc_cases w.ctx asked page with heq | ⟨d, rfl | rfl, hroom, heq⟩
  · rw [heq] at halloc
    cases halloc
  · rw [heq] at halloc
    cases halloc
    exact h.take_zero hasked hroom hi
  · rw [heq] at halloc
    cases halloc
    exact h.newPage.take_zero hasked hroom hi

theorem preloadResSize_eq {size : ℕ} (hsize : size ≤ pageSize) :
    preloadResSize size = vmwValidationAlign (resNodeSize + size) + boNodeSize ∧
      preloadResSize size % 8 = 0 ∧ preloadResSize size + 7 < 2 ^ 32 := by
  unfold pageSize at hsize
  unfold preloadResSize vmwValidationAlign resNodeSize boNodeSize
  omega

theorem Inv.preload (h : Inv w) {size : ℕ} (hmod : size % 8 = 0) (hlt : size + 7 < 2 ^ 32)
    (page : Bool) : Inv { w with ctx := (ValidationMem.preload w.ctx size page).2 } := by
  rcases preload_cases page hmod hlt h.left with heq | ⟨heq, _⟩ | ⟨heq, _⟩
  · rw [heq]
    exact h
  · rw [heq]
    exact h
  · rw [heq]
    exact h.newPage

theorem Placed.store {ctx : MemCtx} {c : Chunk} (h : Placed ctx c) (d : Chunk) (i : ℕ) (v : UInt8) :
    Placed (ValidationMem.store ctx d i v) c := by
  unfold ValidationMem.store
  cases d.page with
  | none => exact h
  | some p => exact ⟨h.aligned, h.inPage, h.page, h.taken⟩

theorem FreeZero.store {ctx : MemCtx} {c : Chunk} {i : ℕ} (h : FreeZero ctx) (hc : Placed ctx c)
    (hi : i < c.size) (v : UInt8) : FreeZero (ValidationMem.store ctx c i v) := by
  unfold ValidationMem.store
  cases hp : c.page with
  | none => exact h
  | some p =>
    intro o ho hle
    simp only at hle ⊢
    by_cases hlast : p = ctx.pages - 1
    · have htaken := hc.taken (by rw [hp, hlast])
      rw [hlast, Function.update_self, Function.update_of_ne (by omega)]
      exact h o ho hle
    · rw [Function.update_of_ne (Ne.symm hlast)]
      exact h o ho hle

theorem Inv.store (h : Inv w) {c : Chunk} (hc : c ∈ w.live) {i : ℕ} (hi : i < c.size) (v : UInt8) :
    Inv { w with ctx := ValidationMem.store w.ctx c i v } := by
  have hchunks := h.chunks
  have hfree := h.free.store (h.chunks c hc) hi v
  have hsame : (ValidationMem.store w.ctx c i v).pages = w.ctx.pages ∧
      (ValidationMem.store w.ctx c i v).memSizeLeft = w.ctx.memSizeLeft ∧
      (ValidationMem.store w.ctx c i v).pageAddress = w.ctx.pageAddress := by
    unfold ValidationMem.store
    cases c.page <;> exact ⟨rfl, rfl, rfl⟩
  obtain ⟨hpages, hleft, haddr⟩ := hsame
  refine ⟨?_, ?_, ?_, ?_, fun d hd => (hchunks d hd).store c i v, h.apart, hfree⟩
  · rw [hleft]
    exact h.left
  · rw [hleft]
    exact h.leftAligned
  · rw [hpages, hleft, haddr]
    exact h.noPage
  · rw [hpages, haddr]
    exact h.address

theorem Inv.step (h : Inv w) {op : Op} (hop : op.Small) : Inv (ValidationMem.step w op) := by
  cases op with
  | memAlloc size page => exact h.keep (Nat.le_trans hop (by decide)) page
  | preloadBo page => exact h.preload rfl (by decide) page
  | preloadRes size page =>
    obtain ⟨_, hmod, hlt⟩ := preloadResSize_eq hop
    exact h.preload hmod hlt page
  | addBo dup page =>
    cases dup with
    | true =>
      simp only [ValidationMem.step, addBoNode, if_true, World.keep, Option.toList_none,
        List.append_nil]
      exact h
    | false => exact h.keep (show boNodeSize ≤ 2 * pageSize by decide) page
  | addResource privSize dup page =>
    cases dup with
    | true =>
      simp only [ValidationMem.step, addResourceNode, if_true, World.keep, Option.toList_none,
        List.append_nil]
      exact h
    | false =>
      unfold Op.Small at hop
      refine h.keep ?_ page
      unfold resNodeSize pageSize at *
      omega
  | store k i v =>
    simp only [ValidationMem.step]
    split
    · exact h
    · rename_i c hk
      split
      · rename_i hi
        exact h.store (List.mem_of_getElem? hk) hi v
      · exact h

theorem Inv.run {ops : List Op} (h : Inv w) (hops : ∀ op ∈ ops, op.Small) :
    Inv (ValidationMem.run w ops) := by
  induction ops generalizing w with
  | nil => exact h
  | cons op ops ih =>
    exact ih (h.step (hops op List.mem_cons_self)) fun o ho => hops o (List.mem_cons_of_mem op ho)

/-- An allocation that finds its space in the last page, whatever `alloc_page` would do. -/
def NoPage (ctx : MemCtx) (asked : ℕ) : Prop :=
  ∀ page, (vmwValidationMemAlloc ctx asked page).1.isSome ∧
    (vmwValidationMemAlloc ctx asked page).2.pages = ctx.pages

theorem noPage_of_left {ctx : MemCtx} {asked : ℕ} (hsize : vmwValidationAlign asked ≤ pageSize)
    (hleft : vmwValidationAlign asked ≤ ctx.memSizeLeft) : NoPage ctx asked := by
  intro page
  rw [memAlloc_left page hleft hsize]
  exact ⟨rfl, rfl⟩

/-- What may happen between a preload and the call it is for: preloads and stores. -/
def Op.Quiet : Op → Prop
  | .preloadBo _ => True
  | .preloadRes _ _ => True
  | .store _ _ _ => True
  | _ => False

theorem preload_left {ctx : MemCtx} {size n : ℕ} (page : Bool) (hmod : size % 8 = 0)
    (hlt : size + 7 < 2 ^ 32) (hleft : ctx.memSizeLeft ≤ pageSize) (hn : n ≤ ctx.memSizeLeft) :
    n ≤ (preload ctx size page).2.memSizeLeft := by
  rcases preload_cases page hmod hlt hleft with heq | ⟨heq, _⟩ | ⟨heq, _⟩
  · rw [heq]
    exact hn
  · rw [heq]
    exact hn
  · rw [heq]
    exact hn.trans hleft

theorem store_left (ctx : MemCtx) (c : Chunk) (i : ℕ) (v : UInt8) :
    (store ctx c i v).memSizeLeft = ctx.memSizeLeft := by
  unfold store
  cases c.page <;> rfl

theorem Inv.quiet_left (h : Inv w) {op : Op} (hop : op.Small) (hq : op.Quiet) {n : ℕ}
    (hn : n ≤ w.ctx.memSizeLeft) : n ≤ (ValidationMem.step w op).ctx.memSizeLeft := by
  cases op with
  | preloadBo page => exact preload_left page rfl (by decide) h.left hn
  | preloadRes size page =>
    obtain ⟨_, hmod, hlt⟩ := preloadResSize_eq hop
    exact preload_left page hmod hlt h.left hn
  | store k i v =>
    simp only [ValidationMem.step]
    split
    · exact hn
    · split
      · rw [store_left]
        exact hn
      · exact hn
  | memAlloc size page => cases hq
  | addBo dup page => cases hq
  | addResource privSize dup page => cases hq

theorem Inv.quiet_run {ops : List Op} (h : Inv w) (hops : ∀ op ∈ ops, op.Small)
    (hq : ∀ op ∈ ops, op.Quiet) {n : ℕ} (hn : n ≤ w.ctx.memSizeLeft) :
    n ≤ (ValidationMem.run w ops).ctx.memSizeLeft := by
  induction ops generalizing w with
  | nil => exact hn
  | cons op ops ih =>
    have hsmall := hops op List.mem_cons_self
    exact ih (h.step hsmall) (fun o ho => hops o (List.mem_cons_of_mem op ho))
      (fun o ho => hq o (List.mem_cons_of_mem op ho))
      (h.quiet_left hsmall (hq op List.mem_cons_self) hn)

theorem Inv.preloaded (h : Inv w) {size : ℕ} {page : Bool} {ctx : MemCtx} (hmod : size % 8 = 0)
    (hlt : size + 7 < 2 ^ 32) (hok : ValidationMem.preload w.ctx size page = (.ok (), ctx)) :
    size ≤ ctx.memSizeLeft ∧ size ≤ pageSize := by
  rcases preload_cases page hmod hlt h.left with heq | ⟨heq, hroom⟩ | ⟨heq, hroom⟩
  · rw [heq] at hok
    cases hok
  · rw [heq] at hok
    cases hok
    exact ⟨hroom, hroom.trans h.left⟩
  · rw [heq] at hok
    cases hok
    exact ⟨hroom, hroom⟩

/-- What holds after any run: of the chunks that were returned, of the next one, and of what
    follows a preload that has succeeded. -/
structure Promises (w : World) : Prop where
  disjoint : w.live.Pairwise Apart
  aligned : ∀ c ∈ w.live, c.offset % 8 = 0
  onePage : ∀ c ∈ w.live, c.size = 0 ∨
    ∃ p < w.ctx.pages, c.page = some p ∧ c.offset + c.size ≤ pageSize
  zeroed : ∀ asked page c ctx, asked ≤ pageSize →
    vmwValidationMemAlloc w.ctx asked page = (some c, ctx) → ∀ i < c.size, byteAt ctx c i = 0
  preloadBo : ∀ page ctx quiet, vmwValidationPreloadBo w.ctx page = (.ok (), ctx) →
    (∀ op ∈ quiet, op.Small ∧ op.Quiet) → NoPage (run { w with ctx := ctx } quiet).ctx boNodeSize
  preloadRes : ∀ size page ctx quiet privSize, size ≤ pageSize →
    vmwValidationPreloadRes w.ctx size page = (.ok (), ctx) →
    (∀ op ∈ quiet, op.Small ∧ op.Quiet) → privSize ≤ size →
    NoPage (run { w with ctx := ctx } quiet).ctx (resNodeSize + privSize)

theorem Inv.after (h : Inv w) {size : ℕ} {page : Bool} {ctx : MemCtx} (hmod : size % 8 = 0)
    (hlt : size + 7 < 2 ^ 32) (hok : ValidationMem.preload w.ctx size page = (.ok (), ctx)) :
    Inv { w with ctx := ctx } := by
  have hnext := h.preload hmod hlt page
  rw [hok] at hnext
  exact hnext

/-- The promises hold in every run of a new context whose sizes are at most a page. -/
theorem promises_run (mem : ℕ → ℕ → UInt8) (ops : List Op) (hops : ∀ op ∈ ops, op.Small) :
    Promises (run (fresh mem) ops) := by
  have hinv := (inv_fresh mem).run hops
  refine ⟨hinv.apart, fun c hc => (hinv.chunks c hc).aligned, ?_, ?_, ?_, ?_⟩
  · intro c hc
    have hplaced := hinv.chunks c hc
    rcases hplaced.page with hnone | ⟨p, hp, hpage⟩
    · exact .inl hnone.1
    · exact .inr ⟨p, hp, hpage, hplaced.inPage⟩
  · intro asked page c ctx hasked halloc i hi
    exact hinv.zeroed (by omega) halloc hi
  · intro page ctx quiet hok hquiet
    obtain ⟨hroom, hsize⟩ := hinv.preloaded rfl (by decide) hok
    have halign : vmwValidationAlign boNodeSize = boNodeSize := rfl
    apply noPage_of_left
    · rw [halign]
      exact hsize
    · rw [halign]
      exact (hinv.after rfl (by decide) hok).quiet_run (fun op hop => (hquiet op hop).1)
        (fun op hop => (hquiet op hop).2) hroom
  · intro size page ctx quiet privSize hsize hok hquiet hpriv
    obtain ⟨heq, hmod, hlt⟩ := preloadResSize_eq hsize
    obtain ⟨hroom, hpage⟩ := hinv.preloaded hmod hlt hok
    have hle : vmwValidationAlign (resNodeSize + privSize) ≤
        vmwValidationAlign (resNodeSize + size) := by
      apply align_mono
      · omega
      · unfold resNodeSize pageSize at *
        omega
    have hleft := (hinv.after hmod hlt hok).quiet_run (fun op hop => (hquiet op hop).1)
      (fun op hop => (hquiet op hop).2) hroom
    exact noPage_of_left (by omega) (by omega)

/-- A preload at the end of a page, with chunks of three sizes around it. -/
def sampleOps : List Op :=
  [.memAlloc 4040 true, .store 0 7 1, .preloadBo true, .addBo false false, .memAlloc 3 false,
    .addResource 24 false false]

theorem sample_promises : Promises (run (fresh fun _ _ => 255) sampleOps) :=
  promises_run (fun _ _ => 255) sampleOps (by
    simp [sampleOps, Op.Small, pageSize])

end Vmwgfx.ValidationMem
