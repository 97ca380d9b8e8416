import Vmwgfx.CpuBlit
import Mathlib.Tactic

set_option autoImplicit false

/-!
# Rows copied page by page

Between two pieces a cached mapping is the page of its index. That, with the offset, is the
address of a buffer's byte; and up to the piece the destination holds the rows of the source.
-/
namespace Vmwgfx.CpuBlit
open DiffMemcpy (VmwDiffCpy)

def copyRow (dst src : ℕ → UInt8) (dstOffset srcOffset w : ℕ) : ℕ → UInt8 := fun o =>
  if dstOffset ≤ o ∧ o < dstOffset + w then src (srcOffset + (o - dstOffset)) else dst o

theorem copyRow_zero (dst src : ℕ → UInt8) (dstOffset srcOffset : ℕ) :
    copyRow dst src dstOffset srcOffset 0 = dst := by
  funext o
  rw [copyRow, if_neg (by omega)]

/-- `h` rows, one after the other. -/
def copyRows (dst src : ℕ → UInt8) (dstOffset srcOffset : ℕ) (g : Shape) : ℕ → ℕ → UInt8
  | 0 => dst
  | h + 1 => copyRow (copyRows dst src dstOffset srcOffset g h) src (dstOffset + h * g.dstStride)
    (srcOffset + h * g.srcStride) g.w

def addressOf (pages : ℕ → ℕ) (o : ℕ) : Ptr := ⟨pages (o / pageSize), o % pageSize⟩

def contents (pages : ℕ → ℕ) (mem : Mem) : ℕ → UInt8 := fun o =>
  mem (addressOf pages o).page (addressOf pages o).offset

/-- A mapping of a buffer: what is mapped is the page of the index, and one of the buffer. -/
structure Side.Of (s : Side) (pages : ℕ → ℕ) (numPages : ℕ) : Prop where
  pagesEq : s.pages = pages
  numEq : s.numPages = numPages
  held : ∀ a, s.addr = some a → a = pages s.mapped ∧ s.mapped < numPages

def sideAt (pages : ℕ → ℕ) (numPages page : ℕ) : Side := ⟨page, some (pages page), pages, numPages⟩

variable {K : Kernel} {s : Side} {pages dstPages srcPages : ℕ → ℕ}
  {numPages dstNum srcNum page dstPage srcPage : ℕ} {d : VmwBoBlitLineData}

theorem sideAt_of (h : page < numPages) : (sideAt pages numPages page).Of pages numPages := by
  refine ⟨rfl, rfl, ?_⟩
  intro a ha
  cases ha
  exact ⟨rfl, h⟩

theorem mapPage_eq (hK : ∀ p, K.kmaps p = true) (h : s.Of pages numPages)
    (hpage : ∀ a, s.addr = some a → s.mapped = page) :
    mapPage K s page =
      if page < numPages then .ok (sideAt pages numPages page) else .error einval := by
  obtain ⟨mapped, addr, pages', numPages'⟩ := s
  obtain ⟨rfl, rfl, hheld⟩ := h
  unfold mapPage
  cases addr with
  | none =>
    simp only [Option.isSome_none, Bool.false_eq_true, if_false, hK, if_true]
    by_cases hin : page < numPages'
    · rw [if_neg (by omega), if_pos hin]
      rfl
    · rw [if_pos (by omega), if_neg hin]
  | some a =>
    have hmapped := hpage a rfl
    have ha := hheld a rfl
    subst hmapped
    have hin : mapped < numPages' := ha.2
    rw [if_pos hin, ha.1]
    rfl

theorem unmapIf_of (b : Bool) (h : s.Of pages numPages) :
    (if b then { s with addr := none } else s).Of pages numPages := by
  cases b with
  | false => exact h
  | true => exact ⟨h.pagesEq, h.numEq, fun _ ha => by cases ha⟩

theorem unmapIf_mapped {b : Bool} (hb : b = false → ∀ a, s.addr = some a → s.mapped = page) :
    ∀ a, (if b then { s with addr := none } else s).addr = some a →
      (if b then { s with addr := none } else s).mapped = page := by
  cases b with
  | false => exact hb rfl
  | true => exact fun _ ha => by cases ha

theorem unmap_dst_mapped :
    ∀ a, (unmap d dstPage srcPage).dst.addr = some a →
      (unmap d dstPage srcPage).dst.mapped = dstPage := by
  apply unmapIf_mapped
  intro hb a ha
  simp only [ha, Option.isSome_some, Bool.true_and, bne_eq_false_iff_eq] at hb
  exact hb.symm

theorem unmap_src_mapped :
    ∀ a, (unmap d dstPage srcPage).src.addr = some a →
      (unmap d dstPage srcPage).src.mapped = srcPage := by
  apply unmapIf_mapped
  intro hb a ha
  simp only [ha, Option.isSome_some, Bool.true_and, Bool.or_eq_false_iff,
    bne_eq_false_iff_eq] at hb
  exact hb.1.symm

theorem mapBoth_eq (hK : ∀ p, K.kmaps p = true) (hdst : d.dst.Of dstPages dstNum)
    (hsrc : d.src.Of srcPages srcNum) :
    mapBoth K d dstPage srcPage =
      if dstPage < dstNum ∧ srcPage < srcNum then
        .ok ⟨sideAt dstPages dstNum dstPage, sideAt srcPages srcNum srcPage⟩
      else .error einval := by
  have hmapDst : mapPage K (unmap d dstPage srcPage).dst dstPage = _ :=
    mapPage_eq hK (unmapIf_of _ hdst) unmap_dst_mapped
  have hmapSrc : mapPage K (unmap d dstPage srcPage).src srcPage = _ :=
    mapPage_eq hK (unmapIf_of _ hsrc) unmap_src_mapped
  unfold mapBoth
  simp only [hmapDst, hmapSrc]
  by_cases hd : dstPage < dstNum
  · by_cases hs : srcPage < srcNum
    · rw [if_pos hd, if_pos hs, if_pos ⟨hd, hs⟩]
      rfl
    · have hboth : ¬ (dstPage < dstNum ∧ srcPage < srcNum) := fun hc => hs hc.2
      rw [if_pos hd, if_neg hs, if_neg hboth]
      rfl
  · have hboth : ¬ (dstPage < dstNum ∧ srcPage < srcNum) := fun hc => hd hc.1
    rw [if_neg hd, if_neg hboth]
    rfl

structure Job where
  dstPages : ℕ → ℕ
  dstNum : ℕ
  srcPages : ℕ → ℕ
  srcNum : ℕ
  dstOffset : ℕ
  srcOffset : ℕ
  h : ℕ
  g : Shape
  mem : Mem

namespace Job

variable (J : Job)

/-- Byte `i` of row `j`, as an offset of the destination. -/
def dstAt (j i : ℕ) : ℕ := J.dstOffset + j * J.g.dstStride + i

def srcAt (j i : ℕ) : ℕ := J.srcOffset + j * J.g.srcStride + i

/-- The pages of byte `i` of row `j` are pages of the buffers. -/
def InsideAt (j i : ℕ) : Prop :=
  J.dstAt j i / pageSize < J.dstNum ∧ J.srcAt j i / pageSize < J.srcNum

/-- Every page that a row touches lies inside its buffer. -/
def Inside : Prop := ∀ j < J.h, ∀ i < J.g.w, J.InsideAt j i

/-- The first `k` rows of the source copied to the destination. -/
def rows (k : ℕ) : ℕ → UInt8 :=
  copyRows (contents J.dstPages J.mem) (contents J.srcPages J.mem) J.dstOffset J.srcOffset J.g k

/-- The last row ends below `2^32`, the destination has no page twice, and no byte written is
one read. -/
structure Sound : Prop where
  last : 0 < J.h → J.dstAt (J.h - 1) J.g.w < 2 ^ 32 ∧ J.srcAt (J.h - 1) J.g.w < 2 ^ 32
  own : ∀ m < J.dstNum, ∀ n < J.dstNum, J.dstPages m = J.dstPages n → m = n
  apart : ∀ j < J.h, ∀ i < J.g.w, ∀ j' < J.h, ∀ i' < J.g.w,
    J.dstAt j i / pageSize < J.dstNum → J.srcAt j' i' / pageSize < J.srcNum →
      addressOf J.dstPages (J.dstAt j i) ≠ addressOf J.srcPages (J.srcAt j' i')

/-- A call of `memcpy` inside the pages that its offsets lie in. -/
structure Through (c : Call) : Prop where
  mappedDst : c.mappedDst = c.dstOffset / pageSize ∧ c.mappedDst < J.dstNum
  mappedSrc : c.mappedSrc = c.srcOffset / pageSize ∧ c.mappedSrc < J.srcNum
  dest : c.dest = addressOf J.dstPages c.dstOffset
  src : c.src = addressOf J.srcPages c.srcOffset
  fits : c.dest.offset + c.size ≤ pageSize ∧ c.src.offset + c.size ≤ pageSize

/-- Nothing but the rows of the destination has changed. -/
def Framed (mem : Mem) : Prop := ∀ page o,
  (∀ j < J.h, ∀ i < J.g.w, J.dstAt j i / pageSize < J.dstNum →
    addressOf J.dstPages (J.dstAt j i) ≠ ⟨page, o⟩) → mem page o = J.mem page o

/-- `j` rows are copied, and `t` bytes of the next one. -/
structure Reached (j t : ℕ) (s : Blit) : Prop where
  image : ∀ o, o / pageSize < J.dstNum → contents J.dstPages s.mem o =
    copyRow (J.rows j) (contents J.srcPages J.mem) (J.dstAt j 0) (J.srcAt j 0) t o
  framed : J.Framed s.mem
  dst : s.d.dst.Of J.dstPages J.dstNum
  src : s.d.src.Of J.srcPages J.srcNum
  calls : ∀ c ∈ s.calls, J.Through c

variable {J} {j t n : ℕ} {s : Blit}

theorem Sound.ends (hJ : J.Sound) (hj : j < J.h) :
    J.dstAt j J.g.w < 2 ^ 32 ∧ J.srcAt j J.g.w < 2 ^ 32 := by
  have hlast := hJ.last (by omega)
  have hdst := Nat.mul_le_mul_right J.g.dstStride (by omega : j ≤ J.h - 1)
  have hsrc := Nat.mul_le_mul_right J.g.srcStride (by omega : j ≤ J.h - 1)
  unfold dstAt srcAt at *
  omega

theorem Sound.source (hJ : J.Sound) (hs : J.Framed s.mem) {i : ℕ} (hj : j < J.h)
    (hi : i < J.g.w) (hin : J.srcAt j i / pageSize < J.srcNum) :
    contents J.srcPages s.mem (J.srcAt j i) = contents J.srcPages J.mem (J.srcAt j i) := by
  apply hs
  intro j' hj' i' hi' hin' he
  exact hJ.apart j' hj' i' hi' j hj i hi hin' hin he

theorem page_add {o k : ℕ} (h : o % pageSize + k < pageSize) :
    (o + k) / pageSize = o / pageSize ∧ (o + k) % pageSize = o % pageSize + k := by
  unfold pageSize at *
  omega

theorem addressOf_add {o k : ℕ} (pages : ℕ → ℕ) (h : o % pageSize + k < pageSize) :
    addressOf pages (o + k) = ⟨pages (o / pageSize), o % pageSize + k⟩ := by
  rw [addressOf, (page_add h).1, (page_add h).2]

theorem dstAt_add (j t k : ℕ) : J.dstAt j (t + k) = J.dstAt j t + k :=
  (add_assoc _ t k).symm

theorem srcAt_add (j t k : ℕ) : J.srcAt j (t + k) = J.srcAt j t + k :=
  (add_assoc _ t k).symm

theorem dstAt_succ (j i : ℕ) : J.dstAt (j + 1) i = J.dstAt j i + J.g.dstStride := by
  unfold dstAt
  ring

theorem srcAt_succ (j i : ℕ) : J.srcAt (j + 1) i = J.srcAt j i + J.g.srcStride := by
  unfold srcAt
  ring

theorem Sound.offset_mod (hJ : J.Sound) (hj : j < J.h) (ht : t ≤ J.g.w) :
    J.dstAt j t % 2 ^ 32 = J.dstAt j t ∧ J.srcAt j t % 2 ^ 32 = J.srcAt j t := by
  have hends := hJ.ends hj
  unfold dstAt srcAt at *
  exact ⟨Nat.mod_eq_of_lt (by omega), Nat.mod_eq_of_lt (by omega)⟩

theorem copySizeOf_spec (dstOffset srcOffset : ℕ) {bytes : ℕ} (h : 0 < bytes) :
    0 < copySizeOf dstOffset srcOffset bytes ∧ copySizeOf dstOffset srcOffset bytes ≤ bytes ∧
      dstOffset % pageSize + copySizeOf dstOffset srcOffset bytes ≤ pageSize ∧
      srcOffset % pageSize + copySizeOf dstOffset srcOffset bytes ≤ pageSize := by
  unfold copySizeOf pageSize
  omega

/-- The mappings for a piece at byte `t` of row `j`. -/
def mappings (J : Job) (j t : ℕ) : VmwBoBlitLineData where
  dst := sideAt J.dstPages J.dstNum (J.dstAt j t / pageSize)
  src := sideAt J.srcPages J.srcNum (J.srcAt j t / pageSize)

def piece (J : Job) (j t n : ℕ) (s : Blit) : Blit :=
  copyPiece vmwMemcpy s (J.mappings j t)
    (callOf (J.mappings j t) (J.dstAt j t) (J.srcAt j t) n)

section
variable (hJ : J.Sound) (hj : j < J.h) (ht : t + n ≤ J.g.w) (hin : J.InsideAt j t)
  (hdst : J.dstAt j t % pageSize + n ≤ pageSize) (hsrc : J.srcAt j t % pageSize + n ≤ pageSize)

theorem piece_mem (page o : ℕ) :
    (J.piece j t n s).mem page o =
      if page = J.dstPages (J.dstAt j t / pageSize) ∧ J.dstAt j t % pageSize ≤ o ∧
          o < J.dstAt j t % pageSize + n then
        s.mem (J.srcPages (J.srcAt j t / pageSize))
          (J.srcAt j t % pageSize + (o - J.dstAt j t % pageSize))
      else s.mem page o :=
  rfl

include hin hdst hsrc in
theorem piece_inside {k : ℕ} (hk : k < n) : J.InsideAt j (t + k) := by
  unfold InsideAt
  rw [dstAt_add, srcAt_add, (page_add (by omega)).1, (page_add (by omega)).1]
  exact hin

include hj ht hin hdst hsrc in
theorem piece_framed (h : J.Framed s.mem) : J.Framed (J.piece j t n s).mem := by
  intro page o houtside
  rw [piece_mem, if_neg]
  · exact h page o houtside
  · intro ⟨hpage, hlo, hhi⟩
    have hk : o - J.dstAt j t % pageSize < n := by omega
    apply houtside j hj (t + (o - J.dstAt j t % pageSize)) (by omega)
      (piece_inside hin hdst hsrc hk).1
    rw [dstAt_add, addressOf_add _ (by omega), hpage]
    congr 1
    omega

include hJ hj ht hin hdst hsrc in
theorem piece_image (h : J.Reached j t s) {o : ℕ} (ho : o / pageSize < J.dstNum) :
    contents J.dstPages (J.piece j t n s).mem o =
      copyRow (J.rows j) (contents J.srcPages J.mem) (J.dstAt j 0) (J.srcAt j 0) (t + n) o := by
  have hstart : J.dstAt j t = J.dstAt j 0 + t := by rw [← dstAt_add, zero_add]
  have hstart' : J.srcAt j t = J.srcAt j 0 + t := by rw [← srcAt_add, zero_add]
  by_cases hcopy : J.dstAt j t ≤ o ∧ o < J.dstAt j t + n
  · obtain ⟨k, rfl⟩ := Nat.exists_eq_add_of_le hcopy.1
    have hk : k < n := by omega
    have hnew : contents J.dstPages (J.piece j t n s).mem (J.dstAt j t + k) =
        contents J.srcPages s.mem (J.srcAt j (t + k)) := by
      rw [contents, addressOf_add _ (by omega), piece_mem,
        if_pos ⟨rfl, Nat.le_add_right _ _, Nat.add_lt_add_left hk _⟩, srcAt_add, contents,
        addressOf_add _ (by omega)]
      dsimp only
      rw [Nat.add_sub_cancel_left]
    have hinside := piece_inside hin hdst hsrc hk
    rw [hnew, hJ.source h.framed hj (by omega) hinside.2, copyRow, if_pos (by omega)]
    congr 1
    rw [srcAt_add]
    omega
  · have hold : contents J.dstPages (J.piece j t n s).mem o = contents J.dstPages s.mem o := by
      rw [contents, piece_mem, if_neg]
      · rfl
      · intro ⟨hpage, hlo, hhi⟩
        have hsame := hJ.own _ ho _ hin.1 hpage
        apply hcopy
        change J.dstAt j t % pageSize ≤ o % pageSize at hlo
        change o % pageSize < J.dstAt j t % pageSize + n at hhi
        unfold pageSize at *
        omega
    rw [hold, h.image o ho, copyRow, copyRow]
    by_cases hbefore : J.dstAt j 0 ≤ o ∧ o < J.dstAt j 0 + t
    · rw [if_pos hbefore, if_pos (by omega)]
    · rw [if_neg hbefore, if_neg (by omega)]

include hJ hj ht hin hdst hsrc in
theorem Reached.piece (h : J.Reached j t s) : J.Reached j (t + n) (J.piece j t n s) where
  image := fun o ho => piece_image hJ hj ht hin hdst hsrc h ho
  framed := piece_framed hj ht hin hdst hsrc h.framed
  dst := sideAt_of hin.1
  src := sideAt_of hin.2
  calls := by
    intro c hc
    rcases List.mem_append.1 hc with hc | hc
    · exact h.calls c hc
    · rw [List.mem_singleton.1 hc]
      exact ⟨⟨rfl, hin.1⟩, ⟨rfl, hin.2⟩, rfl, rfl, hdst, hsrc⟩

end

theorem line_unfold {K : Kernel} {fuel dstOffset srcOffset bytes : ℕ} (h : 0 < bytes) :
    vmwBoCpuBlitLine K vmwMemcpy (fuel + 1) dstOffset srcOffset bytes s =
      match mapBoth K s.d (dstOffset / pageSize) (srcOffset / pageSize) with
      | .error ret => some (ret, s)
      | .ok d =>
        vmwBoCpuBlitLine K vmwMemcpy fuel
          ((dstOffset + copySizeOf dstOffset srcOffset bytes) % 2 ^ 32)
          ((srcOffset + copySizeOf dstOffset srcOffset bytes) % 2 ^ 32)
          (bytes - copySizeOf dstOffset srcOffset bytes)
          (copyPiece vmwMemcpy s d
            (callOf d dstOffset srcOffset (copySizeOf dstOffset srcOffset bytes))) := by
  cases bytes with
  | zero => omega
  | succ b => rfl

/-- How a row may end: copied, or stopped where a page is outside. -/
structure LineEnds (J : Job) (j t : ℕ) (ret : ℤ) (s : Blit) : Prop where
  calls : ∀ c ∈ s.calls, J.Through c
  copied : ret = 0 → J.Reached j J.g.w s ∧ ∀ i, t ≤ i → i < J.g.w → J.InsideAt j i
  stopped : ret ≠ 0 → ∃ i, t ≤ i ∧ i < J.g.w ∧ ¬ J.InsideAt j i

theorem line_spec {K : Kernel} (hK : ∀ p, K.kmaps p = true) (hJ : J.Sound) (hj : j < J.h)
    (fuel : ℕ) (ht : t ≤ J.g.w) (hfuel : J.g.w - t ≤ fuel) (h : J.Reached j t s) :
    ∃ ret s', vmwBoCpuBlitLine K vmwMemcpy fuel (J.dstAt j t) (J.srcAt j t) (J.g.w - t) s =
      some (ret, s') ∧ LineEnds J j t ret s' := by
  have hdone {t : ℕ} {s : Blit} (fuel : ℕ) (ht : t = J.g.w) (h : J.Reached j t s) :
      ∃ ret s', vmwBoCpuBlitLine K vmwMemcpy fuel (J.dstAt j t) (J.srcAt j t) (J.g.w - t) s =
        some (ret, s') ∧ LineEnds J j t ret s' := by
    subst ht
    refine ⟨0, s, ?_, h.calls, fun _ => ⟨h, fun i hlo hhi => by omega⟩, fun hne => (hne rfl).elim⟩
    rw [Nat.sub_self, vmwBoCpuBlitLine]
  induction fuel generalizing t s with
  | zero => exact hdone 0 (by omega) h
  | succ fuel ih =>
    by_cases hend : t = J.g.w
    · exact hdone (fuel + 1) hend h
    rw [line_unfold (by omega), mapBoth_eq hK h.dst h.src]
    obtain ⟨hpos, hle, hdst, hsrc⟩ := copySizeOf_spec (J.dstAt j t) (J.srcAt j t)
      (by omega : 0 < J.g.w - t)
    generalize copySizeOf (J.dstAt j t) (J.srcAt j t) (J.g.w - t) = n at *
    by_cases hin : J.InsideAt j t
    · have hdstNext : (J.dstAt j t + n) % 2 ^ 32 = J.dstAt j (t + n) := by
        rw [← dstAt_add]
        exact (hJ.offset_mod hj (by omega)).1
      have hsrcNext : (J.srcAt j t + n) % 2 ^ 32 = J.srcAt j (t + n) := by
        rw [← srcAt_add]
        exact (hJ.offset_mod hj (by omega)).2
      have hleft : J.g.w - t - n = J.g.w - (t + n) := by omega
      have hpages : J.dstAt j t / pageSize < J.dstNum ∧ J.srcAt j t / pageSize < J.srcNum := hin
      rw [if_pos hpages, hdstNext, hsrcNext, hleft]
      have hreached := h.piece hJ hj (by omega) hin hdst hsrc
      obtain ⟨ret, s', hrun, hends⟩ := ih (t := t + n) (by omega) (by omega) hreached
      refine ⟨ret, s', hrun, hends.calls, ?_, ?_⟩
      · intro hret
        refine ⟨(hends.copied hret).1, ?_⟩
        intro i hlo hhi
        by_cases hi : i < t + n
        · have hpiece := piece_inside hin hdst hsrc (k := i - t) (by omega)
          rwa [show t + (i - t) = i by omega] at hpiece
        · exact (hends.copied hret).2 i (by omega) hhi
      · intro hret
        obtain ⟨i, hlo, hhi, hout⟩ := hends.stopped hret
        exact ⟨i, by omega, hhi, hout⟩
    · have hpages : ¬ (J.dstAt j t / pageSize < J.dstNum ∧ J.srcAt j t / pageSize < J.srcNum) := hin
      rw [if_neg hpages]
      refine ⟨einval, s, rfl, h.calls, ?_, fun _ => ⟨t, le_rfl, by omega, hin⟩⟩
      intro hret
      exact absurd hret (by decide)

theorem Reached.setDiff (diff : VmwDiffCpy) (h : J.Reached j t s) :
    J.Reached j t { s with diff := diff } :=
  ⟨h.image, h.framed, h.dst, h.src, h.calls⟩

theorem Reached.nextRow (h : J.Reached j J.g.w s) : J.Reached (j + 1) 0 s where
  image := by
    intro o ho
    rw [copyRow_zero, h.image o ho]
    rfl
  framed := h.framed
  dst := h.dst
  src := h.src
  calls := h.calls

structure RowsEnd (J : Job) (j : ℕ) (ret : ℤ) (s : Blit) : Prop where
  calls : ∀ c ∈ s.calls, J.Through c
  copied : ret = 0 → J.Reached J.h 0 s ∧ ∀ j' < J.h, j ≤ j' → ∀ i < J.g.w, J.InsideAt j' i
  stopped : ret ≠ 0 → ∃ j' < J.h, ∃ i < J.g.w, ¬ J.InsideAt j' i

theorem rows_spec {K : Kernel} (hK : ∀ p, K.kmaps p = true) (hJ : J.Sound) {fuel : ℕ}
    (hfuel : J.g.w ≤ fuel) (initialLine k dstOffset srcOffset : ℕ) (hk : j + k = J.h)
    (hdst : k ≠ 0 → dstOffset = J.dstAt j 0) (hsrc : k ≠ 0 → srcOffset = J.srcAt j 0)
    (h : J.Reached j 0 s) :
    ∃ ret s', blitRows K vmwMemcpy fuel initialLine J.g k j dstOffset srcOffset s =
      some (ret, s') ∧ RowsEnd J j ret s' := by
  induction k generalizing j dstOffset srcOffset s with
  | zero =>
    obtain rfl : j = J.h := hk
    refine ⟨0, s, rfl, h.calls, fun _ => ⟨h, ?_⟩, fun hne => (hne rfl).elim⟩
    intro j' hlt hle
    omega
  | succ k ih =>
    have hj : j < J.h := by omega
    rw [hdst (Nat.succ_ne_zero k), hsrc (Nat.succ_ne_zero k), blitRows]
    obtain ⟨ret, s', hrun, hline⟩ := line_spec hK hJ hj fuel (Nat.zero_le _) (by omega)
      (h.setDiff { s.diff with
        line := (j + initialLine) % 2 ^ 32, lineOffset := J.dstAt j 0 % J.g.dstStride })
    rw [Nat.sub_zero] at hrun
    rw [hrun]
    by_cases hret : ret = 0
    · have hcopied := hline.copied hret
      have hdstNext : k ≠ 0 → (J.dstAt j 0 + J.g.dstStride) % 2 ^ 32 = J.dstAt (j + 1) 0 := by
        intro hk0
        rw [← dstAt_succ]
        exact (hJ.offset_mod (by omega) (Nat.zero_le _)).1
      have hsrcNext : k ≠ 0 → (J.srcAt j 0 + J.g.srcStride) % 2 ^ 32 = J.srcAt (j + 1) 0 := by
        intro hk0
        rw [← srcAt_succ]
        exact (hJ.offset_mod (by omega) (Nat.zero_le _)).2
      obtain ⟨ret', s'', hrest, hrows⟩ := ih _ _ (by omega) hdstNext hsrcNext hcopied.1.nextRow
      refine ⟨ret', s'', ?_, hrows.calls, ?_, hrows.stopped⟩
      · simp only [hret, ne_eq, not_true_eq_false, if_false]
        exact hrest
      · intro hret'
        refine ⟨(hrows.copied hret').1, ?_⟩
        intro j' hj' hle i hi
        by_cases he : j' = j
        · rw [he]
          exact hcopied.2 i (Nat.zero_le i) hi
        · exact (hrows.copied hret').2 j' hj' (by omega) i hi
    · obtain ⟨i, -, hi, hout⟩ := hline.stopped hret
      refine ⟨ret, s', ?_, hline.calls, fun he => absurd he hret, fun _ => ⟨j, hj, i, hi, hout⟩⟩
      simp only [ne_eq, hret, not_false_eq_true, if_true]

end Job

/-- The copy that a call of `vmw_bo_cpu_blit` is for. -/
def blitJob (K : Kernel) (dst src : Bo) (dstOffset srcOffset h : ℕ) (g : Shape) (mem : Mem) :
    Job where
  dstPages := (populate K dst.ttm).2.pages
  dstNum := dst.numPages
  srcPages := (populate K src.ttm).2.pages
  srcNum := src.numPages
  dstOffset := dstOffset
  srcOffset := srcOffset
  h := h
  g := g
  mem := mem

theorem populate_ret {K : Kernel} (hpop : ∀ t, (K.ttmTtPopulate t).1 = 0) (t : Ttm) :
    (populate K t).1 = 0 := by
  unfold populate
  by_cases ht : t.unpopulated = true
  · rw [if_pos ht]
    exact hpop t
  · rw [if_neg ht]

/-- With fuel for a row the blit returns; it returns zero exactly when every page that a row
touches lies inside its buffer, and then the destination holds the rows of the source and nothing
else has changed. Every piece is copied between the pages that the offsets lie in. -/
theorem vmwBoCpuBlit_exact (K : Kernel) (dst src : Bo) (dstOffset srcOffset h : ℕ) (g : Shape)
    (diff : VmwDiffCpy) (mem : Mem) (hpop : ∀ t, (K.ttmTtPopulate t).1 = 0)
    (hK : ∀ p, K.kmaps p = true) (hstride : g.dstStride ≠ 0) (hdst : dst.numPages < 2 ^ 32)
    (hsrc : src.numPages < 2 ^ 32)
    (hJ : (blitJob K dst src dstOffset srcOffset h g mem).Sound) :
    ∀ fuel, g.w ≤ fuel → ∃ ret s,
      vmwBoCpuBlit K vmwMemcpy fuel dst src dstOffset srcOffset h g diff mem = some (ret, s) ∧
      (ret = 0 ↔ (blitJob K dst src dstOffset srcOffset h g mem).Inside) ∧
      (ret = 0 → (∀ o, o / pageSize < dst.numPages →
          contents (populate K dst.ttm).2.pages s.mem o =
            (blitJob K dst src dstOffset srcOffset h g mem).rows h o) ∧
        (blitJob K dst src dstOffset srcOffset h g mem).Framed s.mem) ∧
      ∀ c ∈ s.calls, (blitJob K dst src dstOffset srcOffset h g mem).Through c := by
  intro fuel hfuel
  have hstart : (blitJob K dst src dstOffset srcOffset h g mem).Reached 0 0
      ⟨lineData dst src (populate K dst.ttm).2 (populate K src.ttm).2, diff, mem, []⟩ := by
    refine ⟨?_, fun _ _ _ => rfl, ?_, ?_, fun c hc => by cases hc⟩
    · intro o _
      rw [copyRow_zero]
      rfl
    · exact ⟨rfl, Nat.mod_eq_of_lt hdst, fun a ha => by cases ha⟩
    · exact ⟨rfl, Nat.mod_eq_of_lt hsrc, fun a ha => by cases ha⟩
  obtain ⟨ret, s, hrun, hends⟩ := Job.rows_spec hK hJ hfuel (dstOffset / g.dstStride)
    h dstOffset srcOffset (Nat.zero_add h)
    (fun _ => by simp [Job.dstAt, blitJob]) (fun _ => by simp [Job.srcAt, blitJob]) hstart
  refine ⟨ret, s, ?_, ?_, ?_, hends.calls⟩
  · unfold vmwBoCpuBlit
    simp only [hstride, populate_ret hpop, ne_eq, not_true_eq_false, if_false]
    exact hrun
  · constructor
    · intro hret j hj i hi
      exact (hends.copied hret).2 j hj (Nat.zero_le j) i hi
    · intro hinside
      by_contra hret
      obtain ⟨j, hj, i, hi, hout⟩ := hends.stopped hret
      exact hout (hinside j hj i hi)
  · intro hret
    have hdone := (hends.copied hret).1
    refine ⟨?_, hdone.framed⟩
    intro o ho
    have himage := hdone.image o ho
    rwa [copyRow_zero] at himage

def willing : Kernel := ⟨fun t => (0, { t with unpopulated := false }), fun _ => true⟩

def boAt (frame numPages : ℕ) : Bo := ⟨⟨true, fun i => frame + i⟩, numPages⟩

/-- Two rows of twenty bytes that cross page boundaries at different places. -/
def twoRows : Job :=
  blitJob willing (boAt 0 2) (boAt 2 2) 4090 4050 2 ⟨40, 30, 20⟩
    fun page o => UInt8.ofNat (page + o)

theorem twoRows_sound : twoRows.Sound where
  last := fun _ => by decide
  own := by
    intro m _ n _ he
    change 0 + m = 0 + n at he
    omega
  apart := by
    intro j _ i _ j' _ i' _ hin _ he
    have hpage : 0 + twoRows.dstAt j i / pageSize = 2 + twoRows.srcAt j' i' / pageSize :=
      congrArg Ptr.page he
    change twoRows.dstAt j i / pageSize < 2 at hin
    generalize twoRows.dstAt j i / pageSize = m at hpage hin
    generalize twoRows.srcAt j' i' / pageSize = n at hpage
    omega

theorem twoRows_copied :
    ∃ s, vmwBoCpuBlit willing vmwMemcpy 20 (boAt 0 2) (boAt 2 2) 4090 4050 2 ⟨40, 30, 20⟩
        (.initializer 4) (fun page o => UInt8.ofNat (page + o)) = some (0, s) ∧
      (∀ o, o / pageSize < 2 → contents (fun i => 0 + i) s.mem o = twoRows.rows 2 o) ∧
      twoRows.Framed s.mem ∧ ∀ c ∈ s.calls, twoRows.Through c := by
  obtain ⟨ret, s, hrun, hret, hdone, hcalls⟩ := vmwBoCpuBlit_exact willing (boAt 0 2) (boAt 2 2)
    4090 4050 2 ⟨40, 30, 20⟩ (.initializer 4) (fun page o => UInt8.ofNat (page + o)) (fun _ => rfl)
    (fun _ => rfl) (by decide) (by decide) (by decide) twoRows_sound 20 le_rfl
  have hinside : twoRows.Inside := by
    intro j hj i hi
    change j < 2 at hj
    change i < 20 at hi
    change (4090 + j * 40 + i) / 4096 < 2 ∧ (4050 + j * 30 + i) / 4096 < 2
    omega
  obtain rfl : ret = 0 := hret.2 hinside
  exact ⟨s, hrun, (hdone rfl).1, (hdone rfl).2, hcalls⟩

/-- Two rows of four bytes, copied four bytes up in one page. -/
def sharedRows : Job :=
  blitJob willing (boAt 0 1) (boAt 0 1) 4 0 2 ⟨4, 4, 4⟩ fun _ o => UInt8.ofNat o

/-- A stride of zero traps, and a buffer of `2 ^ 32` pages counts as one without pages. Where
    the buffers share memory, the second row copies what the first one has written. -/
theorem zeroStride_traps :
    (∀ fuel, vmwBoCpuBlit willing vmwMemcpy fuel (boAt 0 2) (boAt 2 2) 0 0 1 ⟨0, 4, 4⟩
      (.initializer 4) (fun _ _ => 0) = none) ∧
    ((blitJob willing (boAt 0 (2 ^ 32)) (boAt (2 ^ 32) 2) 0 0 1 ⟨4, 4, 4⟩ fun _ _ => 0).Inside ∧
      ∃ s, vmwBoCpuBlit willing vmwMemcpy 4 (boAt 0 (2 ^ 32)) (boAt (2 ^ 32) 2) 0 0 1 ⟨4, 4, 4⟩
        (.initializer 4) (fun _ _ => 0) = some (einval, s)) ∧
    sharedRows.Inside ∧
    ∃ s, vmwBoCpuBlit willing vmwMemcpy 4 (boAt 0 1) (boAt 0 1) 4 0 2 ⟨4, 4, 4⟩
      (.initializer 4) (fun _ o => UInt8.ofNat o) = some (0, s) ∧
      contents (fun i => 0 + i) s.mem 8 ≠ sharedRows.rows 2 8 := by
  refine ⟨fun _ => rfl, ⟨?_, ⟨_, rfl⟩⟩, ?_, _, rfl, by decide⟩
  · intro j hj i hi
    change j < 1 at hj
    change i < 4 at hi
    change (0 + j * 4 + i) / 4096 < 2 ^ 32 ∧ (0 + j * 4 + i) / 4096 < 2
    omega
  · intro j hj i hi
    change j < 2 at hj
    change i < 4 at hi
    change (4 + j * 4 + i) / 4096 < 1 ∧ (0 + j * 4 + i) / 4096 < 1
    omega

end Vmwgfx.CpuBlit
