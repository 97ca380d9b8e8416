import Vmwgfx.ExecbufVerifier

set_option autoImplicit false

/-!
# Snooping the cursor image

`vmw_kms_cursor_snoop` copies a DMA from the guest to a cursor surface into the image of the
surface, by rows whose number, length and distance the command gives. The image and what is
mapped of the guest buffer have 64 · 64 · 4 bytes each.
-/
namespace Vmwgfx.CursorSnoop
open ByteStore FailingState ExecbufState ExecbufHandlers ExecbufVerifier

/-- `64 * 64 * 4`. -/
def imageSize : ℕ := 64 * 64 * 4

structure CopyBox where
  x : ℕ
  y : ℕ
  z : ℕ
  w : ℕ
  h : ℕ
  d : ℕ
  srcx : ℕ
  srcy : ℕ
  srcz : ℕ
  deriving DecidableEq, Repr

def copyBoxAt (m : Memory) (a : ℤ) : CopyBox :=
  ⟨word m a, word m (a + 4), word m (a + 8), word m (a + 12), word m (a + 16), word m (a + 20),
    word m (a + 24), word m (a + 28), word m (a + 32)⟩

/-- What a snoop meets: whether the surface has an image, what `ttm_bo_reserve` and, past its
    checks, `ttm_bo_kmap` return, and the bytes from the address on that it maps. -/
structure SnoopCall where
  image : Bool
  reserved : Bool
  mapped : Bool
  virtual : ℤ → UInt8

/-- A `memcpy` of the snoop: offsets in the image and in what is mapped. -/
structure Row where
  dst : ℤ
  src : ℕ
  len : ℕ
  deriving DecidableEq, Repr

/-- The value of an `int`. -/
def toInt (x : ℕ) : ℤ := (BitVec.ofNat 32 x).toInt

/-- The length of a row, `box->w * 4`. -/
def rowLen (box : CopyBox) : ℕ := box.w * 4 % 2 ^ 32

/-- Row `i`. The image is an array of `uint32_t`, the product with the pitch one of 32 bits. -/
def rowAt (box : CopyBox) (pitch i : ℕ) : Row := ⟨4 * toInt (i * 64), i * pitch % 2 ^ 32, rowLen box⟩

def isFull (box : CopyBox) (pitch : ℕ) : Bool := box.w = 64 && pitch = 64 * 4

def snoopRows (box : CopyBox) (pitch : ℕ) : List Row :=
  if isFull box pitch then [⟨0, 0, imageSize⟩] else (List.range box.h).map (rowAt box pitch)

/-- The checks of `ttm_bo_kmap`. -/
def ttmBoKmapOk (startPage numPages boPages : ℕ) : Bool := numPages ≤ boPages && startPage ≤ boPages

def boxAddress (c : SnoopCall) (m : Memory) (p : ℤ) : Option ℤ :=
  if !c.image then none
  else if word m (p + 24) ≠ 0 ∨ word m (p + 28) ≠ 0 then none
  else if word m (p + 4) < 64 then none
  else some (p + 36)

def boxTaken (m : Memory) (p : ℤ) (box : CopyBox) : Bool :=
  word m (p + 12) % pageSize = 0 && box.x = 0 && box.y = 0 && box.z = 0 && box.srcx = 0 &&
    box.srcy = 0 && box.srcz = 0 && box.d = 1 && (word m (p + 4) - 28) / 36 = 1

/-- The copies that `vmw_kms_cursor_snoop` makes for the command at `p`, if it gets to them. -/
def snoopCopies (c : SnoopCall) (boPages : ℕ) (m : Memory) (p : ℤ) : Option (List Row) :=
  match boxAddress c m p with
  | none => none
  | some a =>
    let box := copyBoxAt m a
    if !boxTaken m p box then none
    else if !c.reserved then none
    else if !ttmBoKmapOk (word m (p + 12) / pageSize) (imageSize / pageSize) boPages then none
    else if !c.mapped then none
    else some (snoopRows box (word m (p + 16)))

structure Snooper where
  age : ℕ
  image : ℤ → UInt8

/-- `memcpy(image + dst, virtual + src, len)`. -/
def copyRow (virtual : ℤ → UInt8) (image : ℤ → UInt8) (r : Row) : ℤ → UInt8 := fun a =>
  if r.dst ≤ a ∧ a < r.dst + r.len then virtual (r.src + (a - r.dst)) else image a

def vmwKmsCursorSnoop (c : SnoopCall) (boPages : ℕ) (m : Memory) (p : ℤ) (s : Snooper) : Snooper :=
  match snoopCopies c boPages m p with
  | none => s
  | some rows => ⟨(s.age + 1) % 2 ^ 64, rows.foldl (copyRow c.virtual) s.image⟩

/-- The rows write inside the image and read inside the part of the buffer, from `offset` on,
    that has the size of the image. -/
structure RowsInside (rows : List Row) (offset boSize : ℕ) : Prop where
  writes : ∀ r ∈ rows, 0 < r.len → 0 ≤ r.dst ∧ r.dst + r.len ≤ imageSize
  reads : ∀ r ∈ rows, 0 < r.len → r.src + r.len ≤ imageSize ∧ offset + (r.src + r.len) ≤ boSize

def RowsFit (box : CopyBox) (pitch offset boSize : ℕ) : Prop :=
  if isFull box pitch then offset + imageSize ≤ boSize
  else box.h = 0 ∨ rowLen box = 0 ∨
    ((box.h - 1) * 256 + rowLen box ≤ imageSize ∧ (box.h - 1) * pitch + rowLen box ≤ imageSize ∧
      offset + ((box.h - 1) * pitch + rowLen box) ≤ boSize)

variable {box : CopyBox} {pitch offset boSize i : ℕ}

theorem toInt_of_lt {x : ℕ} (h : x < 2 ^ 31) : toInt x = x := by
  have hmod : x % 2 ^ 32 = x := Nat.mod_eq_of_lt (by omega)
  rw [toInt, BitVec.toInt_eq_toNat_of_lt, BitVec.toNat_ofNat, hmod]
  rw [BitVec.toNat_ofNat, hmod]
  omega

theorem rowAt_dst (hi : i ≤ 64) : (rowAt box pitch i).dst = 256 * i := by
  rw [rowAt, toInt_of_lt (by omega)]
  push_cast
  ring

theorem rowAt_src (hi : i * pitch < 2 ^ 32) : (rowAt box pitch i).src = i * pitch :=
  Nat.mod_eq_of_lt hi

theorem rowAt_mem (hfull : isFull box pitch = false) (hi : i < box.h) :
    rowAt box pitch i ∈ snoopRows box pitch := by
  rw [snoopRows, hfull]
  exact List.mem_map.2 ⟨i, List.mem_range.2 hi, rfl⟩

theorem height_le (h : RowsInside (snoopRows box pitch) offset boSize)
    (hfull : isFull box pitch = false) (hlen : 0 < rowLen box) : box.h ≤ 64 := by
  by_contra hh
  have hrow := (h.writes _ (rowAt_mem hfull (by omega : 64 < box.h)) hlen).2
  rw [rowAt_dst le_rfl] at hrow
  have hlen' : (rowAt box pitch 64).len = rowLen box := rfl
  rw [hlen', imageSize] at hrow
  push_cast at hrow
  omega

theorem pitch_le (h : RowsInside (snoopRows box pitch) offset boSize)
    (hfull : isFull box pitch = false) (hlen : 0 < rowLen box) (hpitch : pitch < 2 ^ 32)
    (hh : 1 < box.h) : pitch ≤ imageSize := by
  have hrow := (h.reads _ (rowAt_mem hfull hh) hlen).1
  rw [rowAt_src (by omega), Nat.one_mul] at hrow
  omega

theorem rowsFit_of_inside (h : RowsInside (snoopRows box pitch) offset boSize)
    (hpitch : pitch < 2 ^ 32) : RowsFit box pitch offset boSize := by
  unfold RowsFit
  split_ifs with hfull
  · have hrows : snoopRows box pitch = [⟨0, 0, imageSize⟩] := by rw [snoopRows, if_pos hfull]
    rw [hrows] at h
    have hread := (h.reads _ (List.mem_singleton_self _) (by decide)).2
    rwa [Nat.zero_add] at hread
  · rw [Bool.not_eq_true] at hfull
    rcases Nat.eq_zero_or_pos box.h with hh | hh
    · exact .inl hh
    rcases Nat.eq_zero_or_pos (rowLen box) with hlen | hlen
    · exact .inr (.inl hlen)
    right
    right
    have hheight := height_le h hfull hlen
    -- the last row bounds all others
    have hlast : (box.h - 1) * pitch < 2 ^ 32 := by
      rcases Nat.lt_or_ge 1 box.h with hmany | hone
      · have hle := pitch_le h hfull hlen hpitch hmany
        calc (box.h - 1) * pitch ≤ 63 * imageSize := Nat.mul_le_mul (by omega) hle
          _ < 2 ^ 32 := by decide
      · have hzero : box.h - 1 = 0 := by omega
        rw [hzero, Nat.zero_mul]
        omega
    have hmem := rowAt_mem hfull (by omega : box.h - 1 < box.h)
    have hwrite := (h.writes _ hmem hlen).2
    have hread := h.reads _ hmem hlen
    rw [rowAt_dst (by omega)] at hwrite
    rw [rowAt_src hlast] at hread
    have hlen' : (rowAt box pitch (box.h - 1)).len = rowLen box := rfl
    rw [hlen'] at hwrite hread
    exact ⟨by omega, hread.1, hread.2⟩

theorem inside_of_rowsFit (h : RowsFit box pitch offset boSize) :
    RowsInside (snoopRows box pitch) offset boSize := by
  unfold RowsFit at h
  unfold snoopRows
  split_ifs at h ⊢ with hfull
  · refine ⟨?_, ?_⟩
    · intro r hr _
      obtain rfl := List.mem_singleton.1 hr
      exact ⟨le_rfl, by simp⟩
    · intro r hr _
      obtain rfl := List.mem_singleton.1 hr
      exact ⟨by simp, by simpa using h⟩
  · have hrow : ∀ r ∈ (List.range box.h).map (rowAt box pitch), 0 < r.len →
        (0 ≤ r.dst ∧ r.dst + r.len ≤ imageSize) ∧ r.src + r.len ≤ imageSize ∧
          offset + (r.src + r.len) ≤ boSize := by
      intro r hr hlen
      obtain ⟨i, hi, rfl⟩ := List.mem_map.1 hr
      rw [List.mem_range] at hi
      have hlen' : (rowAt box pitch i).len = rowLen box := rfl
      rw [hlen'] at hlen ⊢
      obtain ⟨hwrite, hread, hbuffer⟩ := (h.resolve_left (by omega)).resolve_left (by omega)
      rw [imageSize] at hwrite hread
      have hle : i * pitch ≤ (box.h - 1) * pitch := Nat.mul_le_mul_right pitch (by omega)
      rw [rowAt_dst (by omega), rowAt_src (by omega), imageSize]
      exact ⟨⟨by omega, by push_cast; omega⟩, by omega, by omega⟩
    exact ⟨fun r hr hlen => (hrow r hr hlen).1, fun r hr hlen => (hrow r hr hlen).2⟩

structure Snoops (c : SnoopCall) (boPages : ℕ) (m : Memory) (p : ℤ) : Prop where
  image : c.image = true
  face : word m (p + 24) = 0
  mipmap : word m (p + 28) = 0
  size : 64 ≤ word m (p + 4)
  taken : boxTaken m p (copyBoxAt m (p + 36)) = true
  reserved : c.reserved = true
  pages : ttmBoKmapOk (word m (p + 12) / pageSize) (imageSize / pageSize) boPages = true
  mapped : c.mapped = true

/-- The copy box is read inside the command, the image written and the buffer read inside the
    bytes that are meant. -/
structure SnoopSafe (c : SnoopCall) (boPages : ℕ) (m : Memory) (p : ℤ) : Prop where
  box : ∀ a, boxAddress c m p = some a → p ≤ a ∧ a + 36 ≤ p + 8 + word m (p + 4)
  rows : ∀ rows, snoopCopies c boPages m p = some rows →
    RowsInside rows (pageSize * (word m (p + 12) / pageSize)) (pageSize * boPages)

def SnoopBounded (c : SnoopCall) (boPages : ℕ) (m : Memory) (p : ℤ) : Prop :=
  Snoops c boPages m p →
    RowsFit (copyBoxAt m (p + 36)) (word m (p + 16)) (word m (p + 12)) (pageSize * boPages)

variable {c : SnoopCall} {boPages : ℕ} {m : Memory} {p : ℤ} {rows : List Row}

theorem boxAddress_eq {a : ℤ} (h : boxAddress c m p = some a) :
    c.image = true ∧ word m (p + 24) = 0 ∧ word m (p + 28) = 0 ∧ 64 ≤ word m (p + 4) ∧
      a = p + 36 := by
  unfold boxAddress at h
  split_ifs at h with himage hface hsize
  push Not at hface
  cases h
  exact ⟨by simpa using himage, hface.1, hface.2, Nat.le_of_not_lt hsize, rfl⟩

theorem Snoops.copies (h : Snoops c boPages m p) : snoopCopies c boPages m p =
    some (snoopRows (copyBoxAt m (p + 36)) (word m (p + 16))) := by
  have haddr : boxAddress c m p = some (p + 36) := by
    rw [boxAddress, h.image, h.face, h.mipmap, if_neg (Nat.not_lt.2 h.size)]
    simp
  simp only [snoopCopies, haddr, h.taken, h.reserved, h.pages, h.mapped, Bool.not_true,
    Bool.false_eq_true, if_false]

theorem snoops_of_copies (h : snoopCopies c boPages m p = some rows) : Snoops c boPages m p := by
  unfold snoopCopies at h
  split at h
  · cases h
  · rename_i a ha
    obtain ⟨himage, hface, hmipmap, hsize, rfl⟩ := boxAddress_eq ha
    dsimp only at h
    split_ifs at h with htaken hreserved hpages hmapped
    simp only [Bool.not_eq_true', Bool.not_eq_false] at htaken hreserved hpages hmapped
    exact ⟨himage, hface, hmipmap, hsize, htaken, hreserved, hpages, hmapped⟩

theorem Snoops.start (h : Snoops c boPages m p) :
    pageSize * (word m (p + 12) / pageSize) = word m (p + 12) := by
  have haligned := h.taken
  simp only [boxTaken, Bool.and_eq_true, decide_eq_true_eq] at haligned
  exact Nat.mul_div_cancel' (Nat.dvd_of_mod_eq_zero haligned.1.1.1.1.1.1.1.1)

theorem snoopSafe_iff : SnoopSafe c boPages m p ↔ SnoopBounded c boPages m p := by
  constructor
  · intro h hsnoops
    have hrows := h.rows _ hsnoops.copies
    rw [hsnoops.start] at hrows
    exact rowsFit_of_inside hrows (word_lt m _)
  · intro h
    refine ⟨?_, ?_⟩
    · intro a ha
      obtain ⟨-, -, -, hsize, rfl⟩ := boxAddress_eq ha
      omega
    · intro rows hrows
      have hsnoops := snoops_of_copies hrows
      rw [hsnoops.copies] at hrows
      cases hrows
      rw [hsnoops.start]
      exact inside_of_rowsFit (h hsnoops)

theorem copyRow_outside {virtual image : ℤ → UInt8} {r : Row} {a : ℤ}
    (h : 0 < r.len → 0 ≤ r.dst ∧ r.dst + r.len ≤ imageSize) (ha : ¬ (0 ≤ a ∧ a < imageSize)) :
    copyRow virtual image r a = image a := by
  rw [copyRow, if_neg]
  rintro ⟨hlo, hhi⟩
  have hinside := h (by omega)
  omega

theorem copyRow_congr {virtual virtual' image : ℤ → UInt8} {r : Row}
    (h : 0 < r.len → r.src + r.len ≤ imageSize)
    (hv : ∀ a : ℤ, 0 ≤ a → a < imageSize → virtual a = virtual' a) :
    copyRow virtual image r = copyRow virtual' image r := by
  funext a
  unfold copyRow
  split_ifs with ha
  · have hinside := h (by omega)
    exact hv (r.src + (a - r.dst)) (by omega) (by omega)
  · rfl

theorem RowsInside.outside {offset boSize : ℕ} (h : RowsInside rows offset boSize)
    {virtual image : ℤ → UInt8} {a : ℤ} (ha : ¬ (0 ≤ a ∧ a < imageSize)) :
    rows.foldl (copyRow virtual) image a = image a := by
  have hwrites := h.writes
  clear h
  induction rows generalizing image with
  | nil => rfl
  | cons r rows ih =>
    rw [List.foldl_cons, ih fun q hq => hwrites q (List.mem_cons_of_mem r hq)]
    exact copyRow_outside (hwrites r List.mem_cons_self) ha

theorem RowsInside.congr {offset boSize : ℕ} (h : RowsInside rows offset boSize)
    {virtual virtual' image : ℤ → UInt8}
    (hv : ∀ a : ℤ, 0 ≤ a → a < imageSize → virtual a = virtual' a) :
    rows.foldl (copyRow virtual) image = rows.foldl (copyRow virtual') image := by
  have hreads := h.reads
  clear h
  induction rows generalizing image with
  | nil => rfl
  | cons r rows ih =>
    rw [List.foldl_cons, List.foldl_cons, copyRow_congr (fun hlen =>
      (hreads r List.mem_cons_self hlen).1) hv]
    exact ih fun q hq => hreads q (List.mem_cons_of_mem r hq)

theorem SnoopSafe.outside (h : SnoopSafe c boPages m p) (s : Snooper) {a : ℤ}
    (ha : ¬ (0 ≤ a ∧ a < imageSize)) :
    (vmwKmsCursorSnoop c boPages m p s).image a = s.image a := by
  unfold vmwKmsCursorSnoop
  cases hrows : snoopCopies c boPages m p with
  | none => rfl
  | some rows => exact (h.rows rows hrows).outside ha

theorem SnoopSafe.congr (h : SnoopSafe c boPages m p) (s : Snooper) {virtual : ℤ → UInt8}
    (hv : ∀ a : ℤ, 0 ≤ a → a < imageSize → virtual a = c.virtual a) :
    vmwKmsCursorSnoop ⟨c.image, c.reserved, c.mapped, virtual⟩ boPages m p s =
      vmwKmsCursorSnoop c boPages m p s := by
  have hsame : snoopCopies ⟨c.image, c.reserved, c.mapped, virtual⟩ boPages m p =
      snoopCopies c boPages m p := rfl
  unfold vmwKmsCursorSnoop
  rw [hsame]
  cases hrows : snoopCopies c boPages m p with
  | none => rfl
  | some rows =>
    dsimp only
    rw [(h.rows rows hrows).congr hv]

variable {σ : Type} {K : Kernel σ} {s t : SwContext σ}

theorem vmwCmdDma_snoops (hrun : vmwCmdDma K p s = (.ok (), t)) :
    ∃ (bo srf : ℕ) (v u : SwContext σ), dmaGuest K p s = (.ok bo, v) ∧ (u.resCache .surface).res = some srf ∧
      t = { u with rest := K.kmsCursorSnoop srf bo p u.rest } := by
  obtain ⟨bo, v, hguest, hrun⟩ := bind_ok.1 hrun
  obtain ⟨named, u, -, hrun⟩ := bind_ok.1 hrun
  obtain ⟨srf, u', hu', hrun⟩ := bind_ok.1 hrun
  obtain ⟨hsrf, rfl⟩ := inspect_ok.1 hu'
  obtain ⟨_, w, hw, hrun⟩ := bind_ok.1 hrun
  obtain rfl := update_ok.1 hw
  obtain ⟨r, x, hx, hrun⟩ := bind_ok.1 hrun
  cases srf with
  | none => exact absurd hx stop_ok
  | some r' =>
    obtain ⟨rfl, rfl⟩ := pure_ok.1 hx
    refine ⟨bo, r', v, _, hguest, ?_, (update_ok.1 hrun).symm⟩
    exact hsrf

/-- The snoop of a command that is accepted is safe if and only if its rows, when it comes to
    copying them, fit into the image and the buffer. -/
theorem cursor_snoop_safe_iff (hrun : vmwCmdDma K p s = (.ok (), t)) :
    ∃ (bo srf : ℕ) (v u : SwContext σ), dmaGuest K p s = (.ok bo, v) ∧ (u.resCache .surface).res = some srf ∧
      t = { u with rest := K.kmsCursorSnoop srf bo p u.rest } ∧
      ∀ c : SnoopCall, SnoopSafe c (K.numPages bo) t.mem p ↔
        SnoopBounded c (K.numPages bo) t.mem p := by
  obtain ⟨bo, srf, v, u, hguest, hsrf, ht⟩ := vmwCmdDma_snoops hrun
  exact ⟨bo, srf, v, u, hguest, hsrf, ht, fun _ => snoopSafe_iff⟩

def fourPages : Kernel Bool := { sampleKernel false with numPages := fun _ => 4 }

def dmaWords (offset pitch w h : ℕ) : List ℕ :=
  [1044, 76, 7, offset, pitch, 3, 0, 0, 1, 0, 0, 0, w, h, 1, 0, 0, 0, 12, 16384, 0]

def dmaState (offset pitch w h : ℕ) : SwContext Bool := sampleContext (dmaWords offset pitch w h) true

def withImage : SnoopCall := ⟨true, true, true, fun _ => 0⟩

theorem cursor_snoop_fits :
    vmwCmdDma fourPages 0 (dmaState 0 256 64 64) =
      (.ok (), (vmwCmdDma fourPages 0 (dmaState 0 256 64 64)).2) ∧
    SnoopSafe withImage 4 (vmwCmdDma fourPages 0 (dmaState 0 256 64 64)).2.mem 0 := by
  have hrun : vmwCmdDma fourPages 0 (dmaState 0 256 64 64) =
      (.ok (), (vmwCmdDma fourPages 0 (dmaState 0 256 64 64)).2) := ok_of_toOption (by decide +kernel)
  obtain ⟨bo, srf, v, u, -, -, -, h⟩ := cursor_snoop_safe_iff hrun
  refine ⟨hrun, (h withImage).2 fun _ => ?_⟩
  rw [RowsFit, if_pos (by decide +kernel)]
  change _ ≤ pageSize * 4
  decide +kernel

/-- A box with one row too many, and a cursor in the last page of its buffer. -/
theorem cursor_snoop_leaves :
    (vmwCmdDma fourPages 0 (dmaState 0 0 64 65)).1.toOption = some () ∧
    ¬ SnoopSafe withImage 4 (vmwCmdDma fourPages 0 (dmaState 0 0 64 65)).2.mem 0 ∧
    (⟨16384, 0, 256⟩ : Row) ∈
      (snoopCopies withImage 4 (vmwCmdDma fourPages 0 (dmaState 0 0 64 65)).2.mem 0).getD [] ∧
    (vmwCmdDma fourPages 0 (dmaState 12288 256 64 64)).1.toOption = some () ∧
    ¬ SnoopSafe withImage 4 (vmwCmdDma fourPages 0 (dmaState 12288 256 64 64)).2.mem 0 ∧
    snoopCopies withImage 4 (vmwCmdDma fourPages 0 (dmaState 12288 256 64 64)).2.mem 0 =
      some [⟨0, 0, 16384⟩] := by
  have htall : (⟨16384, 0, 256⟩ : Row) ∈
      (snoopCopies withImage 4 (vmwCmdDma fourPages 0 (dmaState 0 0 64 65)).2.mem 0).getD [] := by
    decide +kernel
  have hlast : snoopCopies withImage 4 (vmwCmdDma fourPages 0 (dmaState 12288 256 64 64)).2.mem 0 =
      some [⟨0, 0, 16384⟩] := by
    decide +kernel
  refine ⟨by decide +kernel, ?_, htall, by decide +kernel, ?_, hlast⟩
  · intro h
    cases hrows : snoopCopies withImage 4
        (vmwCmdDma fourPages 0 (dmaState 0 0 64 65)).2.mem 0 with
    | none =>
      rw [hrows] at htall
      cases htall
    | some rows =>
      rw [hrows] at htall
      exact absurd ((h.rows rows hrows).writes _ htall (by decide)).2 (by decide)
  · intro h
    have hread := ((h.rows _ hlast).reads _ (List.mem_singleton_self _) (by decide)).2
    revert hread
    decide +kernel

end Vmwgfx.CursorSnoop
