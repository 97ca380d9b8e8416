import Vmwgfx.DiffSearch

set_option autoImplicit false

/-!
# What `vmw_diff_memcpy` copies

The copy starts at the first differing pixel and ends with the last one the search finds. When
all differences lie before the words that the search uses, it finds none, and no more than the
first pixel is copied.
-/
namespace Vmwgfx.DiffMemcpy
open Differences

variable {mem : Mem} {diff : VmwDiffCpy} {dest src n g f q : ℕ}

def DrmRect.Contains (r : DrmRect) (x y : ℕ) : Prop :=
  (r.x1 : ℤ) ≤ x ∧ (x : ℤ) < r.x2 ∧ (r.y1 : ℤ) ≤ y ∧ (y : ℤ) < r.y2

/-- `r` lies inside `s`. -/
structure DrmRect.Within (r s : DrmRect) : Prop where
  x1 : s.x1 ≤ r.x1
  y1 : s.y1 ≤ r.y1
  x2 : r.x2 ≤ s.x2
  y2 : r.y2 ≤ s.y2

theorem DrmRect.Within.trans {r s t : DrmRect} (h : r.Within s) (h' : s.Within t) : r.Within t :=
  ⟨h'.x1.trans h.x1, h'.y1.trans h.y1, h.x2.trans h'.x2, h.y2.trans h'.y2⟩

theorem DrmRect.Contains.within {r s : DrmRect} {x y : ℕ} (h : r.Contains x y) (hrs : r.Within s) :
    s.Contains x y := by
  have hx₁ : (s.x1 : ℤ) ≤ r.x1 := hrs.x1
  have hy₁ : (s.y1 : ℤ) ≤ r.y1 := hrs.y1
  have hx₂ : (r.x2 : ℤ) ≤ s.x2 := hrs.x2
  have hy₂ : (r.y2 : ℤ) ≤ s.y2 := hrs.y2
  unfold DrmRect.Contains at *
  omega

theorem DrmRect.Contains.between {r : DrmRect} {x x' y c : ℕ} (h : r.Contains x y)
    (h' : r.Contains x' y) (hlo : x ≤ c) (hhi : c ≤ x') : r.Contains c y := by
  unfold DrmRect.Contains at *
  omega

theorem DrmRect.Contains.fits {r : DrmRect} {x y : ℕ} (h : r.Contains x y) :
    x + 1 < 2 ^ 31 ∧ y + 1 < 2 ^ 31 := by
  have hx := r.x2.2.2
  have hy := r.y2.2.2
  unfold DrmRect.Contains at h
  omega

theorem sizeT_of_lt {v : ℕ} (h : v < 2 ^ 64) : sizeT v = v := Nat.mod_eq_of_lt h

theorem sizeT_add (v w : ℕ) : sizeT (sizeT v + w) = sizeT (v + w) := Nat.mod_add_mod v _ w

/-- The column of a byte of the line, as `vmw_adjust_rect` computes it. -/
def columnOf (diff : VmwDiffCpy) (diffOffs : ℕ) : ℕ :=
  sizeT (diffOffs + diff.lineOffset) / diff.cpp

theorem vmwAdjustRect_within (diff : VmwDiffCpy) (k : ℕ) : diff.rect.Within (vmwAdjustRect diff k).rect :=
  ⟨min_le_left _ _, min_le_left _ _, le_max_left _ _, le_max_left _ _⟩

theorem vmwAdjustRect_contains {k : ℕ} (hx : columnOf diff k + 1 < 2 ^ 31)
    (hy : diff.line + 1 < 2 ^ 31) :
    (vmwAdjustRect diff k).rect.Contains (columnOf diff k) diff.line := by
  have hx₁ : (vmwAdjustRect diff k).rect.x1 ≤ toInt (columnOf diff k) := min_le_right _ _
  have hx₂ : toInt (sizeT (columnOf diff k + 1)) ≤ (vmwAdjustRect diff k).rect.x2 :=
    le_max_right _ _
  have hy₁ : (vmwAdjustRect diff k).rect.y1 ≤ toInt diff.line := min_le_right _ _
  have hy₂ : toInt (sizeT (diff.line + 1)) ≤ (vmwAdjustRect diff k).rect.y2 :=
    le_max_right _ _
  rw [sizeT_of_lt (by omega)] at hx₂ hy₂
  rw [← Subtype.coe_le_coe, toInt_of_lt (by omega)] at hx₁ hx₂ hy₁ hy₂
  unfold DrmRect.Contains
  omega

theorem memcpy_outside {a : ℕ} (h : a < dest ∨ dest + n ≤ a) : memcpy mem dest src n a = mem a :=
  if_neg (by omega)

theorem memcpy_inside {i : ℕ} (h : i < n) : memcpy mem dest src n (dest + i) = mem (src + i) := by
  rw [memcpy, if_pos (by omega), Nat.add_sub_cancel_left]

/-- The pixel at byte `k * cpp` of the range differs. -/
def PixelDiffers (mem : Mem) (dest src cpp k : ℕ) : Prop :=
  ¬ Alike (bytesAt mem dest) (bytesAt mem src) (k * cpp) (k * cpp + cpp)

/-- What the copy is for: the destination has the bytes of the source, nothing else changes, the
line offset moves on and the box holds every pixel that differed. -/
structure Copied (diff : VmwDiffCpy) (mem : Mem) (dest src n : ℕ) (r : VmwDiffCpy × Mem) :
    Prop where
  equal : ∀ i < n, r.2 (dest + i) = r.2 (src + i)
  frame : ∀ a, a < dest ∨ dest + n ≤ a → r.2 a = mem a
  advanced : r.1.lineOffset = sizeT (diff.lineOffset + n)
  kept : diff.rect.Within r.1.rect
  boxed : ∀ k, k * diff.cpp < n → PixelDiffers mem dest src diff.cpp k →
    r.1.rect.Contains ((diff.lineOffset + k * diff.cpp) / diff.cpp) diff.line

/-- The columns and the line of the differing pixels are coordinates of a rectangle. -/
def Fits (diff : VmwDiffCpy) (mem : Mem) (dest src n : ℕ) : Prop :=
  ∀ k, k * diff.cpp < n → PixelDiffers mem dest src diff.cpp k →
    (diff.lineOffset + k * diff.cpp) / diff.cpp + 1 < 2 ^ 31 ∧ diff.line + 1 < 2 ^ 31

/-- From the first differing pixel on: when the words from the aligned end down show no
difference, none but this pixel differs. -/
def SeenFrom (mem : Mem) (dest src n cpp : ℕ) : Prop :=
  Alike (bytesAt mem dest) (bytesAt mem src) (head dest src n) n →
    Alike (bytesAt mem dest) (bytesAt mem src) cpp n

def Seen (mem : Mem) (dest src n cpp : ℕ) : Prop :=
  ∀ f < n, FirstGrain (bytesAt mem dest) (bytesAt mem src) n cpp f →
    SeenFrom mem (dest + f) (src + f) (n - f) cpp

/-- A copy that begins at the differing pixel `f` and ends after the pixel `f + q`. -/
structure Outcome (diff : VmwDiffCpy) (mem : Mem) (dest src n f q : ℕ) (r : VmwDiffCpy × Mem) :
    Prop where
  bytes : r.2 = memcpy mem (dest + f) (src + f) (diff.cpp + q)
  line : r.1.lineOffset = sizeT (diff.lineOffset + n)
  first : (vmwAdjustRect diff f).rect.Within r.1.rect
  last : columnOf diff (f + q) + 1 < 2 ^ 31 → diff.line + 1 < 2 ^ 31 →
    r.1.rect.Contains (columnOf diff (f + q)) diff.line
  inside : f + q + diff.cpp ≤ n
  grain : diff.cpp ∣ q
  differs : ¬ Alike (bytesAt mem (dest + f)) (bytesAt mem (src + f)) q (q + diff.cpp)
  seen : SeenFrom mem (dest + f) (src + f) (n - f) diff.cpp →
    Alike (bytesAt mem (dest + f)) (bytesAt mem (src + f)) (diff.cpp + q) (n - f)
  unseen : ¬ SeenFrom mem (dest + f) (src + f) (n - f) diff.cpp → q = 0

@[simp] theorem advance_cpp (k : ℕ) : (diff.advance k).cpp = diff.cpp := rfl

@[simp] theorem advance_rect (k : ℕ) : (diff.advance k).rect = diff.rect := rfl

@[simp] theorem advance_line (k : ℕ) : (diff.advance k).line = diff.line := rfl

@[simp] theorem vmwAdjustRect_line (k : ℕ) : (vmwAdjustRect diff k).line = diff.line := rfl

@[simp] theorem advance_lineOffset (k : ℕ) :
    (diff.advance k).lineOffset = sizeT (diff.lineOffset + k) := rfl

@[simp] theorem vmwAdjustRect_lineOffset (k : ℕ) :
    (vmwAdjustRect diff k).lineOffset = diff.lineOffset := rfl

@[simp] theorem vmwAdjustRect_cpp (k : ℕ) : (vmwAdjustRect diff k).cpp = diff.cpp := rfl

theorem columnOf_advance (k f : ℕ) :
    columnOf ((vmwAdjustRect diff f).advance f) k = columnOf diff (f + k) := by
  have hsum : sizeT (k + sizeT (diff.lineOffset + f)) = sizeT (f + k + diff.lineOffset) := by
    rw [add_comm, sizeT_add]
    congr 1
    omega
  simp only [columnOf, advance_lineOffset, vmwAdjustRect_lineOffset, advance_cpp,
    vmwAdjustRect_cpp, hsum]

section
variable (hround : roundDown n diff.cpp = n) (hfd : vmwFindFirstDiff mem dest src n diff.cpp = f)
include hround hfd

theorem vmwDiffMemcpy_same (hf : n ≤ f) :
    vmwDiffMemcpy diff mem dest src n = (diff.advance n, mem) := by
  unfold vmwDiffMemcpy
  simp only [hfd, if_neg (not_not.2 hround), if_neg (not_lt.2 hf)]

theorem vmwDiffMemcpy_found (hf : f < n)
    (hq : vmwFindLastDiff mem (dest + f) (src + f) (n - f) diff.cpp = (q : ℤ)) :
    vmwDiffMemcpy diff mem dest src n =
      ((vmwAdjustRect ((vmwAdjustRect diff f).advance f) q).advance (n - f),
        memcpy mem (dest + f) (src + f) (diff.cpp + q)) := by
  have hlen : ((diff.cpp : ℤ) + q).toNat = diff.cpp + q := by omega
  unfold vmwDiffMemcpy
  simp only [hfd, if_neg (not_not.2 hround), if_pos hf, advance_cpp, vmwAdjustRect_cpp, hq,
    if_pos (Int.natCast_nonneg q), Int.toNat_natCast, hlen]

theorem vmwDiffMemcpy_lost (hf : f < n)
    (hneg : vmwFindLastDiff mem (dest + f) (src + f) (n - f) diff.cpp < 0) :
    vmwDiffMemcpy diff mem dest src n =
      (((vmwAdjustRect diff f).advance f).advance (n - f),
        memcpy mem (dest + f) (src + f) diff.cpp) := by
  unfold vmwDiffMemcpy
  simp only [hfd, if_neg (not_not.2 hround), if_pos hf, advance_cpp, vmwAdjustRect_cpp,
    if_neg (not_le.2 hneg)]

end

theorem vmwDiffMemcpy_outcome (hcpp : Cpp diff.cpp) (ha : Aligned diff.cpp dest src n)
    (hf : vmwFindFirstDiff mem dest src n diff.cpp < n) :
    ∃ q, Outcome diff mem dest src n (vmwFindFirstDiff mem dest src n diff.cpp) q
      (vmwDiffMemcpy diff mem dest src n) := by
  have hfirst := vmwFindFirstDiff_spec mem hcpp ha
  have hround : roundDown n diff.cpp = n := Nat.div_mul_cancel ha.size
  generalize hfd : vmwFindFirstDiff mem dest src n diff.cpp = f at hf hfirst ⊢
  have ha' : Aligned diff.cpp (dest + f) (src + f) (n - f) :=
    ⟨ha.pos, dvd_add ha.dst hfirst.grain, dvd_add ha.src hfirst.grain,
      Nat.dvd_sub ha.size hfirst.grain⟩
  have hone : diff.cpp ≤ n - f := Nat.le_of_dvd (by omega) ha'.size
  have hpixel : ¬ Alike (bytesAt mem (dest + f)) (bytesAt mem (src + f)) 0 diff.cpp := by
    rw [bytesAt_shift, bytesAt_shift, alike_shift]
    exact hfirst.here hf
  have hne : ¬ Alike (bytesAt mem (dest + f)) (bytesAt mem (src + f)) 0 (n - f) :=
    fun hall => hpixel (hall.mono le_rfl hone)
  have hans := vmwFindLastDiff_spec hcpp ha' hne
  have hline : sizeT (sizeT (diff.lineOffset + f) + (n - f)) = sizeT (diff.lineOffset + n) := by
    rw [sizeT_add, add_assoc, Nat.add_sub_cancel' hf.le]
  by_cases hhead : Alike (bytesAt mem (dest + f)) (bytesAt mem (src + f))
      (head (dest + f) (src + f) (n - f)) (n - f)
  · rw [vmwDiffMemcpy_lost hround hfd hf (hans.1 hhead)]
    refine ⟨0, rfl, ?_, ?_, ?_, by omega, dvd_zero _, by rwa [zero_add], ?_, fun _ => rfl⟩
    · simpa only [advance_lineOffset, vmwAdjustRect_lineOffset] using hline
    · rw [advance_rect, advance_rect]
      exact ⟨le_rfl, le_rfl, le_rfl, le_rfl⟩
    · intro hx hy
      rw [advance_rect, advance_rect]
      exact vmwAdjustRect_contains hx hy
    · intro hseen
      exact hseen hhead
  · obtain ⟨q, hq, hlast⟩ := hans.2 hhead
    have hin := hlast.inside
    rw [vmwDiffMemcpy_found hround hfd hf hq]
    refine ⟨q, rfl, ?_, ?_, ?_, by omega, hlast.grain, hlast.here, ?_, ?_⟩
    · simpa only [advance_lineOffset, vmwAdjustRect_lineOffset] using hline
    · have hwithin := vmwAdjustRect_within ((vmwAdjustRect diff f).advance f) q
      rwa [advance_rect] at hwithin ⊢
    · intro hx hy
      have hline : ((vmwAdjustRect diff f).advance f).line = diff.line := by
        rw [advance_line, vmwAdjustRect_line]
      rw [← columnOf_advance q f] at hx ⊢
      rw [advance_rect, ← hline]
      exact vmwAdjustRect_contains hx (by rwa [hline])
    · intro _
      rw [add_comm diff.cpp q]
      exact hlast.after
    · intro hunseen
      exact absurd (fun hall => absurd hall hhead) hunseen

def Apart (dest src n : ℕ) : Prop := dest + n ≤ src ∨ src + n ≤ dest

theorem columnOf_of_fits (hcpp : Cpp diff.cpp) {j : ℕ}
    (h : (diff.lineOffset + j) / diff.cpp + 1 < 2 ^ 31) :
    columnOf diff j = (diff.lineOffset + j) / diff.cpp := by
  have hlt : diff.lineOffset + j < 2 ^ 64 := by
    obtain hc | hc | hc | hc := hcpp <;> rw [hc] at h <;> omega
  rw [columnOf, add_comm, sizeT_of_lt hlt]

theorem Copied.fits {r : VmwDiffCpy × Mem} (h : Copied diff mem dest src n r) :
    Fits diff mem dest src n :=
  fun k hk hne => (h.boxed k hk hne).fits

section
variable {r : VmwDiffCpy × Mem} (hapart : Apart dest src n)
  (hfirst : FirstGrain (bytesAt mem dest) (bytesAt mem src) n diff.cpp f)
  (h : Outcome diff mem dest src n f q r)
include h

theorem Outcome.outside {a : ℕ} (ha : a < dest + f ∨ dest + (f + (diff.cpp + q)) ≤ a) :
    r.2 a = mem a := by
  rw [h.bytes, memcpy_outside (by omega)]

include hapart in
theorem Outcome.source {i : ℕ} (hi : i < n) : r.2 (src + i) = mem (src + i) := by
  have hin := h.inside
  unfold Apart at hapart
  exact h.outside (by omega)

include hapart in
theorem Outcome.seenFrom (hcopied : Copied diff mem dest src n r) :
    SeenFrom mem (dest + f) (src + f) (n - f) diff.cpp := by
  by_contra hunseen
  have hq := h.unseen hunseen
  apply hunseen
  intro _ i hlo hhi
  have hequal := hcopied.equal (f + i) (by omega)
  rw [h.source hapart (by omega), h.outside (Or.inr (by omega))] at hequal
  simpa only [bytesAt, add_assoc] using hequal

include hapart hfirst in
theorem Outcome.equal (hseen : SeenFrom mem (dest + f) (src + f) (n - f) diff.cpp) {i : ℕ}
    (hi : i < n) : r.2 (dest + i) = r.2 (src + i) := by
  rw [h.source hapart hi]
  by_cases hbefore : i < f
  · rw [h.outside (Or.inl (by omega))]
    exact hfirst.before i (Nat.zero_le i) hbefore
  · have hsplit : i = f + (i - f) := by omega
    by_cases hinside : i - f < diff.cpp + q
    · have hcopy : r.2 (dest + f + (i - f)) = mem (src + f + (i - f)) := by
        rw [h.bytes, memcpy_inside hinside]
      rwa [add_assoc, add_assoc, ← hsplit] at hcopy
    · rw [h.outside (Or.inr (by omega))]
      have hsame := h.seen hseen (i - f) (by omega) (by omega)
      simp only [bytesAt] at hsame
      rwa [add_assoc, add_assoc, ← hsplit] at hsame

include hfirst in
theorem Outcome.between (hn : diff.cpp ∣ n)
    (hseen : SeenFrom mem (dest + f) (src + f) (n - f) diff.cpp)
    {k : ℕ} (hk : k * diff.cpp < n) (hne : PixelDiffers mem dest src diff.cpp k) :
    f ≤ k * diff.cpp ∧ k * diff.cpp ≤ f + q := by
  have hpixel : diff.cpp ∣ k * diff.cpp := dvd_mul_left _ k
  constructor
  · by_contra hlt
    have hend := add_le_of_dvd hpixel hfirst.grain (not_le.1 hlt)
    exact hne (hfirst.before.mono (Nat.zero_le _) hend)
  · by_contra hlt
    have hstart := add_le_of_dvd (dvd_add hfirst.grain h.grain) hpixel (not_le.1 hlt)
    have hend := add_le_of_dvd hpixel hn hk
    have hsame := h.seen hseen
    rw [bytesAt_shift, bytesAt_shift, alike_shift] at hsame
    exact hne (hsame.mono (by omega) (by omega))

include hfirst in
theorem Outcome.boxed (hcpp : Cpp diff.cpp) (hn : diff.cpp ∣ n) (hfits : Fits diff mem dest src n)
    (hseen : SeenFrom mem (dest + f) (src + f) (n - f) diff.cpp) {k : ℕ}
    (hk : k * diff.cpp < n) (hne : PixelDiffers mem dest src diff.cpp k) :
    r.1.rect.Contains ((diff.lineOffset + k * diff.cpp) / diff.cpp) diff.line := by
  have hin := h.inside
  have hpos := hcpp.pos
  have hpixel {i : ℕ} (hi : diff.cpp ∣ i) (hin : i + diff.cpp ≤ n)
      (hdiff : ¬ Alike (bytesAt mem dest) (bytesAt mem src) i (i + diff.cpp)) :
      columnOf diff i + 1 < 2 ^ 31 ∧ diff.line + 1 < 2 ^ 31 ∧
        columnOf diff i = (diff.lineOffset + i) / diff.cpp := by
    obtain ⟨m, rfl⟩ := hi
    rw [mul_comm] at hin hdiff ⊢
    have hfit := hfits m (by omega) hdiff
    rw [columnOf_of_fits hcpp hfit.1]
    exact ⟨hfit.1, hfit.2, rfl⟩
  have hf := hpixel hfirst.grain (by omega) (hfirst.here (by omega))
  have hq := hpixel (dvd_add hfirst.grain h.grain) (by omega) (by
    have hdiffers := h.differs
    rwa [bytesAt_shift, bytesAt_shift, alike_shift, ← add_assoc] at hdiffers)
  have hleft := (vmwAdjustRect_contains hf.1 hf.2.1).within h.first
  have hright := h.last hq.1 hq.2.1
  have hbetween := h.between hfirst hn hseen hk hne
  rw [hf.2.2] at hleft
  rw [hq.2.2] at hright
  exact hleft.between hright (Nat.div_le_div_right (by omega)) (Nat.div_le_div_right (by omega))

include hapart hfirst in
theorem Outcome.copied_iff (hcpp : Cpp diff.cpp) (hn : diff.cpp ∣ n) :
    Copied diff mem dest src n r ↔
      Fits diff mem dest src n ∧ SeenFrom mem (dest + f) (src + f) (n - f) diff.cpp := by
  constructor
  · intro hcopied
    exact ⟨hcopied.fits, h.seenFrom hapart hcopied⟩
  · intro ⟨hfits, hseen⟩
    have hin := h.inside
    exact
      { equal := fun i hi => h.equal hapart hfirst hseen hi
        frame := fun a ha => h.outside (by omega)
        advanced := h.line
        kept := (vmwAdjustRect_within diff f).trans h.first
        boxed := fun k hk hne => h.boxed hfirst hcpp hn hfits hseen hk hne }

end

/-- `vmw_diff_memcpy` does what it is for exactly when the differing pixels have coordinates that
an `int` holds and the differences are not all before the words the last search uses, past the
first differing pixel. -/
theorem vmwDiffMemcpy_copied_iff (diff : VmwDiffCpy) (mem : Mem) (dest src n : ℕ)
    (hcpp : Cpp diff.cpp) (hdest : diff.cpp ∣ dest) (hsrc : diff.cpp ∣ src) (hn : diff.cpp ∣ n)
    (hapart : Apart dest src n) :
    Copied diff mem dest src n (vmwDiffMemcpy diff mem dest src n) ↔
      Fits diff mem dest src n ∧ Seen mem dest src n diff.cpp := by
  have ha : Aligned diff.cpp dest src n := ⟨hcpp.pos, hdest, hsrc, hn⟩
  have hfirst := vmwFindFirstDiff_spec mem hcpp ha
  by_cases hf : vmwFindFirstDiff mem dest src n diff.cpp < n
  · obtain ⟨q, houtcome⟩ := vmwDiffMemcpy_outcome hcpp ha hf
    rw [houtcome.copied_iff hapart hfirst hcpp hn]
    apply and_congr_right
    intro _
    constructor
    · intro hseen f' hf' hfirst'
      rwa [← hfirst.unique hfirst']
    · intro hseen
      exact hseen _ hf hfirst
  · have hsame := hfirst.alike (not_lt.1 hf)
    have hround : roundDown n diff.cpp = n := Nat.div_mul_cancel hn
    have hnone : ∀ k, k * diff.cpp < n → ¬ PixelDiffers mem dest src diff.cpp k := by
      intro k hk hne
      exact hne (hsame.mono (Nat.zero_le _) (add_le_of_dvd (dvd_mul_left _ k) hn hk))
    rw [vmwDiffMemcpy_same hround rfl (not_lt.1 hf)]
    constructor
    · intro _
      refine ⟨fun k hk hne => absurd hne (hnone k hk), fun f hf' hfirst' => ?_⟩
      have hend := add_le_of_dvd hfirst'.grain hn hf'
      exact absurd (hsame.mono (Nat.zero_le f) hend) (hfirst'.here hf')
    · intro _
      exact
        { equal := fun i hi => hsame i (Nat.zero_le i) hi
          frame := fun _ _ => rfl
          advanced := rfl
          kept := ⟨le_rfl, le_rfl, le_rfl, le_rfl⟩
          boxed := fun k hk hne => absurd hne (hnone k hk) }

def onesAt (ones : List ℕ) : Mem := fun a => if a ∈ ones then 1 else 0

/-- Two pixels of two bytes differ, the second one among the words. -/
theorem twoPixels_copied :
    Copied (.initializer 2) (onesAt [94, 97]) 92 1092 12
      (vmwDiffMemcpy (.initializer 2) (onesAt [94, 97]) 92 1092 12) := by
  have hfirst : FirstGrain (bytesAt (onesAt [94, 97]) 92) (bytesAt (onesAt [94, 97]) 1092) 12 2 2 :=
    ⟨by decide, by decide, by decide, fun _ => by decide⟩
  refine (vmwDiffMemcpy_copied_iff (.initializer 2) (onesAt [94, 97]) 92 1092 12 (by decide)
    (by decide) (by decide) (by decide) (by unfold Apart; decide)).2 ⟨?_, ?_⟩
  · intro k hk _
    change k * 2 < 12 at hk
    change (0 + k * 2) / 2 + 1 < 2 ^ 31 ∧ 0 + 1 < 2 ^ 31
    omega
  · intro f hf hf'
    rw [← hfirst.unique hf']
    unfold SeenFrom
    decide

/-- The two differing bytes lie before the last eight: one is copied. -/
theorem headBytes_not_copied :
    Cpp 1 ∧ 1 ∣ 94 ∧ 1 ∣ 1094 ∧ 1 ∣ 10 ∧ Apart 94 1094 10 ∧
      ¬ Copied (.initializer 1) (onesAt [94, 95]) 94 1094 10
        (vmwDiffMemcpy (.initializer 1) (onesAt [94, 95]) 94 1094 10) := by
  refine ⟨by decide, by decide, by decide, by decide, by unfold Apart; decide, ?_⟩
  intro h
  have hbyte : (vmwDiffMemcpy (.initializer 1) (onesAt [94, 95]) 94 1094 10).2 95 ≠
      (vmwDiffMemcpy (.initializer 1) (onesAt [94, 95]) 94 1094 10).2 1095 := by decide
  exact hbyte (h.equal 1 (by decide))

end Vmwgfx.DiffMemcpy
