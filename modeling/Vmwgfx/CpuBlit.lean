import Vmwgfx.DiffMemcpy

set_option autoImplicit false

/-!
# `vmw_bo_cpu_blit`

Rows are copied between two buffers that are only lists of pages. A row is taken apart at every
page boundary of either buffer, and the two mappings are kept from one piece to the next.
-/
namespace Vmwgfx.CpuBlit
open DiffMemcpy (VmwDiffCpy)

abbrev Mem := ℕ → ℕ → UInt8

def pageSize : ℕ := 4096

structure Ptr where
  page : ℕ
  offset : ℕ
deriving DecidableEq, Repr

structure Ttm where
  unpopulated : Bool
  pages : ℕ → ℕ

structure Bo where
  ttm : Ttm
  numPages : ℕ

/-- What is called: the driver's `ttm_tt_populate`, and whether `ttm_kmap_atomic_prot` can map a
page. -/
structure Kernel where
  ttmTtPopulate : Ttm → ℤ × Ttm
  kmaps : ℕ → Bool

/-- The member `memcpy` of `struct vmw_diff_cpy`. -/
abbrev Memcpy := VmwDiffCpy → Mem → Ptr → Ptr → ℕ → VmwDiffCpy × Mem

def vmwMemcpy : Memcpy := fun diff mem dest src n =>
  (diff, fun page o =>
    if page = dest.page ∧ dest.offset ≤ o ∧ o < dest.offset + n then
      mem src.page (src.offset + (o - dest.offset))
    else mem page o)

/-- One buffer's members of `struct vmw_bo_blit_line_data`: `mapped_*`, `*_addr`, `*_pages` and
`*_num_pages`. -/
structure Side where
  mapped : ℕ
  addr : Option ℕ
  pages : ℕ → ℕ
  numPages : ℕ

structure VmwBoBlitLineData where
  dst : Side
  src : Side

/-- What a call of `memcpy` is given, with the offsets and the mapped indices at the call. -/
structure Call where
  dstOffset : ℕ
  srcOffset : ℕ
  mappedDst : ℕ
  mappedSrc : ℕ
  dest : Ptr
  src : Ptr
  size : ℕ

/-- The state of a blit; `calls` is a history of the calls of `memcpy`. -/
structure Blit where
  d : VmwBoBlitLineData
  diff : VmwDiffCpy
  mem : Mem
  calls : List Call

def einval : ℤ := -22

def enomem : ℤ := -12

/-- `ttm_kunmap_atomic_prot` of what is mapped, when the piece is on other pages. The source is
unmapped with the destination. -/
def unmap (d : VmwBoBlitLineData) (dstPage srcPage : ℕ) : VmwBoBlitLineData :=
  let unmapDst : Bool := d.dst.addr.isSome && dstPage != d.dst.mapped
  let unmapSrc : Bool := d.src.addr.isSome && (srcPage != d.src.mapped || unmapDst)
  { src := if unmapSrc then { d.src with addr := none } else d.src
    dst := if unmapDst then { d.dst with addr := none } else d.dst }

def mapPage (K : Kernel) (s : Side) (page : ℕ) : Except ℤ Side :=
  if s.addr.isSome then .ok s
  else if s.numPages ≤ page then .error einval
  else if K.kmaps (s.pages page) then .ok { s with addr := some (s.pages page), mapped := page }
  else .error enomem

def mapBoth (K : Kernel) (d : VmwBoBlitLineData) (dstPage srcPage : ℕ) :
    Except ℤ VmwBoBlitLineData := do
  let d := unmap d dstPage srcPage
  let dst ← mapPage K d.dst dstPage
  let src ← mapPage K d.src srcPage
  return ⟨dst, src⟩

/-- The bytes of a piece: up to the next page boundary of either buffer. -/
def copySizeOf (dstOffset srcOffset bytesToCopy : ℕ) : ℕ :=
  min (min bytesToCopy (pageSize - dstOffset % pageSize)) (pageSize - srcOffset % pageSize)

/-- The call of `memcpy` for one piece. -/
def callOf (d : VmwBoBlitLineData) (dstOffset srcOffset copySize : ℕ) : Call where
  dstOffset := dstOffset
  srcOffset := srcOffset
  mappedDst := d.dst.mapped
  mappedSrc := d.src.mapped
  dest := ⟨d.dst.addr.getD 0, dstOffset % pageSize⟩
  src := ⟨d.src.addr.getD 0, srcOffset % pageSize⟩
  size := copySize

def copyPiece (memcpy : Memcpy) (s : Blit) (d : VmwBoBlitLineData) (c : Call) : Blit :=
  let (diff, mem) := memcpy s.diff s.mem c.dest c.src c.size
  ⟨d, diff, mem, s.calls ++ [c]⟩

/-- `vmw_bo_cpu_blit_line`, with `fuel` rounds of the loop at most; `none` when they do not
suffice. -/
def vmwBoCpuBlitLine (K : Kernel) (memcpy : Memcpy) :
    ℕ → ℕ → ℕ → ℕ → Blit → Option (ℤ × Blit)
  | _, _, _, 0, s => some (0, s)
  | 0, _, _, _ + 1, _ => none
  | fuel + 1, dstOffset, srcOffset, bytes + 1, s =>
    let bytesToCopy := bytes + 1
    match mapBoth K s.d (dstOffset / pageSize) (srcOffset / pageSize) with
    | .error ret => some (ret, s)
    | .ok d =>
      let copySize := copySizeOf dstOffset srcOffset bytesToCopy
      vmwBoCpuBlitLine K memcpy fuel ((dstOffset + copySize) % 2 ^ 32)
        ((srcOffset + copySize) % 2 ^ 32) (bytesToCopy - copySize)
        (copyPiece memcpy s d (callOf d dstOffset srcOffset copySize))

structure Shape where
  dstStride : ℕ
  srcStride : ℕ
  w : ℕ

/-- The loop of `vmw_bo_cpu_blit` with `k` rows to go. -/
def blitRows (K : Kernel) (memcpy : Memcpy) (fuel initialLine : ℕ) (g : Shape) :
    ℕ → ℕ → ℕ → ℕ → Blit → Option (ℤ × Blit)
  | 0, _, _, _, s => some (0, s)
  | k + 1, j, dstOffset, srcOffset, s =>
    let diff : VmwDiffCpy :=
      { s.diff with line := (j + initialLine) % 2 ^ 32, lineOffset := dstOffset % g.dstStride }
    match vmwBoCpuBlitLine K memcpy fuel dstOffset srcOffset g.w { s with diff := diff } with
    | none => none
    | some (ret, s) =>
      if ret ≠ 0 then some (ret, s)
      else blitRows K memcpy fuel initialLine g k (j + 1) ((dstOffset + g.dstStride) % 2 ^ 32)
        ((srcOffset + g.srcStride) % 2 ^ 32) s

/-- The translation table as it is after the populate step. -/
def populate (K : Kernel) (t : Ttm) : ℤ × Ttm :=
  if t.unpopulated then K.ttmTtPopulate t else (0, t)

/-- The members of `struct vmw_bo_blit_line_data` at the start; `*_num_pages` are 32 bits wide. -/
def lineData (dst src : Bo) (dstTtm srcTtm : Ttm) : VmwBoBlitLineData where
  dst := ⟨0, none, dstTtm.pages, dst.numPages % 2 ^ 32⟩
  src := ⟨0, none, srcTtm.pages, src.numPages % 2 ^ 32⟩

/-- `vmw_bo_cpu_blit`; `none` when it does not return: the division by a stride of zero traps, or
a line has run out of fuel. -/
def vmwBoCpuBlit (K : Kernel) (memcpy : Memcpy) (fuel : ℕ) (dst src : Bo)
    (dstOffset srcOffset h : ℕ) (g : Shape) (diff : VmwDiffCpy) (mem : Mem) :
    Option (ℤ × Blit) :=
  if g.dstStride = 0 then none
  else
    let initialLine := dstOffset / g.dstStride
    let dstTtm := populate K dst.ttm
    let srcTtm := populate K src.ttm
    let s : Blit := ⟨lineData dst src dstTtm.2 srcTtm.2, diff, mem, []⟩
    if dstTtm.1 ≠ 0 then some (dstTtm.1, s)
    else if srcTtm.1 ≠ 0 then some (srcTtm.1, s)
    else blitRows K memcpy fuel initialLine g h 0 dstOffset srcOffset s

end Vmwgfx.CpuBlit
