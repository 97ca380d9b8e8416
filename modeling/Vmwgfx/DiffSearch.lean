import Vmwgfx.DiffMemcpy
import Vmwgfx.Differences

set_option autoImplicit false

/-!
# The searches for the first and the last difference

What each width contributes is told for any width that is a multiple of the granularity: the
first search stops at the first differing grain, the last one at the last differing grain, or
below zero where the part it has compared in wide words shows no difference.
-/
namespace Vmwgfx.DiffMemcpy
open Differences

variable {mem : Mem} {w g n d e dst src size : ℕ}

def bytesAt (mem : Mem) (addr : ℕ) : ℕ → UInt8 := fun i => mem (addr + i)

theorem bytesAt_shift (k : ℕ) : bytesAt mem (d + k) = fun i => bytesAt mem d (k + i) := by
  funext i
  unfold bytesAt
  rw [add_assoc]

theorem word_eq_iff : word mem w dst = word mem w src ↔
    Alike (bytesAt mem dst) (bytesAt mem src) 0 w := by
  induction w generalizing dst src with
  | zero => simp [word, Alike]
  | succ w ih =>
    have hdst := (mem dst).toNat_lt
    have hsrc := (mem src).toNat_lt
    have hsplit : word mem (w + 1) dst = word mem (w + 1) src ↔
        mem dst = mem src ∧ word mem w (dst + 1) = word mem w (src + 1) := by
      rw [← UInt8.toNat_inj, word, word]
      omega
    rw [hsplit, ih, bytesAt_shift, bytesAt_shift, alike_shift]
    constructor
    · intro ⟨hhead, hrest⟩ i _ hi
      by_cases h0 : i = 0
      · rw [h0]
        exact hhead
      · exact hrest i (by omega) (by omega)
    · intro h
      exact ⟨h 0 le_rfl (by omega), h.mono (by omega) (by omega)⟩

theorem firstDiffLoop_spec (mem : Mem) (w k dst src i : ℕ) :
    ∃ r, firstDiffLoop mem w k dst src i = i + r ∧
      FirstGrain (bytesAt mem dst) (bytesAt mem src) (k * w) w r := by
  induction k generalizing dst src i with
  | zero =>
    refine ⟨0, rfl, dvd_zero w, by omega, alike_of_le le_rfl, ?_⟩
    intro h
    omega
  | succ k ih =>
    rw [firstDiffLoop]
    by_cases hword : word mem w dst = word mem w src
    · obtain ⟨r, hr, hfirst⟩ := ih (dst + w) (src + w) (i + w)
      rw [if_neg (not_not.2 hword), hr]
      refine ⟨w + r, add_assoc i w r, ?_⟩
      rw [show (k + 1) * w = w + k * w by ring]
      rw [bytesAt_shift, bytesAt_shift] at hfirst
      exact hfirst.shift (word_eq_iff.1 hword) dvd_rfl
    · rw [if_pos hword]
      refine ⟨0, rfl, dvd_zero w, by omega, alike_of_le le_rfl, ?_⟩
      intro _ hsame
      exact hword (word_eq_iff.2 (by rwa [zero_add] at hsame))

theorem findFirstDiff_spec (hw : 0 < w) (hsize : w ∣ size) :
    FirstGrain (bytesAt mem dst) (bytesAt mem src) size w (findFirstDiff w mem dst src size) := by
  obtain ⟨k, rfl⟩ := hsize
  obtain ⟨r, hr, hfirst⟩ := firstDiffLoop_spec mem w k dst src 0
  have hcount : (w * k + w - 1) / w = k := by
    rw [Nat.add_sub_assoc hw, Nat.mul_add_div hw, Nat.div_eq_of_lt (by omega), add_zero]
  rw [findFirstDiff, hcount, hr, zero_add, mul_comm]
  exact hfirst

/-- What a step of a search leaves: an answer, or a state to go on from. -/
def Leaves {ε σ : Type} (answer : ε → Prop) (state : σ → Prop) : Except ε σ → Prop
  | .error e => answer e
  | .ok s => state s

theorem Leaves.bind {ε σ τ : Type} {answer : ε → Prop} {state : σ → Prop} {state' : τ → Prop}
    {x : Except ε σ} {f : σ → Except ε τ} (hx : Leaves answer state x)
    (hf : ∀ s, state s → Leaves answer state' (f s)) : Leaves answer state' (x >>= f) := by
  cases x with
  | error e => exact hx
  | ok s => exact hf s hx

theorem Leaves.imp {ε σ : Type} {answer answer' : ε → Prop} {state state' : σ → Prop}
    {x : Except ε σ} (hx : Leaves answer state x) (ha : ∀ e, answer e → answer' e)
    (hs : ∀ s, state s → state' s) : Leaves answer' state' x := by
  cases x with
  | error e => exact ha e hx
  | ok s => exact hs s hx

/-- The first `offset` bytes of the buffers at `d` and `e` are searched. -/
structure FirstSearch.At (mem : Mem) (d e n g : ℕ) (s : FirstSearch) : Prop where
  dst : s.dst = d + s.offset
  src : s.src = e + s.offset
  size : s.offset + s.size = n
  grain : g ∣ s.offset
  same : Alike (bytesAt mem d) (bytesAt mem e) 0 s.offset

theorem FirstSearch.At.found {s : FirstSearch} {m r : ℕ} (h : s.At mem d e n g)
    (hr : FirstGrain (bytesAt mem s.dst) (bytesAt mem s.src) m w r) (hw : w ∣ s.offset) :
    FirstGrain (bytesAt mem d) (bytesAt mem e) (s.offset + m) w (s.offset + r) := by
  rw [h.dst, h.src, bytesAt_shift, bytesAt_shift] at hr
  exact hr.shift h.same hw

theorem FirstSearch.At.advance {s : FirstSearch} {k : ℕ} (h : s.At mem d e n g)
    (hk : k ≤ s.size) (hg : g ∣ k)
    (hsame : Alike (bytesAt mem s.dst) (bytesAt mem s.src) 0 k) : (s.advance k).At mem d e n g where
  dst := by
    show s.dst + k = d + (s.offset + k)
    rw [h.dst, add_assoc]
  src := by
    show s.src + k = e + (s.offset + k)
    rw [h.src, add_assoc]
  size := by
    have := h.size
    show s.offset + k + (s.size - k) = n
    omega
  grain := dvd_add h.grain hg
  same := by
    rw [h.dst, h.src, bytesAt_shift, bytesAt_shift, alike_shift, add_zero] at hsame
    exact h.same.join hsame

structure Aligned (g d e n : ℕ) : Prop where
  pos : 0 < g
  dst : g ∣ d
  src : g ∣ e
  size : g ∣ n

section Tries
variable {u : ℕ} {s : FirstSearch} (hg : 0 < g) (hn : g ∣ n) (ha : Aligned u d e n) (huw : u ∣ w)
  (hwg : w = g → u = g)
include hg hn ha huw hwg

/-- The search keeps to multiples of `u`, which is the granularity where the words are no
    narrower than that. -/
theorem tryFirstHead_spec (h : s.At mem d e n u) :
    Leaves (FirstGrain (bytesAt mem d) (bytesAt mem e) n g)
      (fun t => t.1.At mem d e n u ∧ (w = g → t.2 = 0)) (tryFirstHead mem w g s) := by
  have hdst : u ∣ s.dst := by
    rw [h.dst]
    exact dvd_add ha.dst h.grain
  have hspill : u ∣ spill s.dst w := (Nat.dvd_mod_iff huw).2 hdst
  unfold tryFirstHead
  by_cases hcond : spill s.dst w ≠ 0 ∧ spill s.dst w = spill s.src w ∧
      w - spill s.dst w ≤ s.size
  · have hdiff : FirstGrain (bytesAt mem s.dst) (bytesAt mem s.src) (w - spill s.dst w) 1
        (vmwFindFirstDiffU8 mem s.dst s.src (w - spill s.dst w)) :=
      findFirstDiff_spec one_pos (one_dvd _)
    have hfits : s.offset + (w - spill s.dst w) ≤ n := by
      have := h.size
      omega
    simp only [if_pos hcond]
    by_cases hfound : vmwFindFirstDiffU8 mem s.dst s.src (w - spill s.dst w) < w - spill s.dst w
    · rw [if_pos hfound]
      have hall := (h.found hdiff (one_dvd _)).extend (by omega) hfits
      exact hall.coarsen hg hn
    · rw [if_neg hfound]
      refine ⟨h.advance hcond.2.2 (Nat.dvd_sub huw hspill) ?_, fun _ => rfl⟩
      exact hdiff.alike (by omega)
  · simp only [if_neg hcond]
    refine ⟨h, ?_⟩
    intro hw
    rw [hw, ← hwg hw]
    exact Nat.mod_eq_zero_of_dvd hdst

theorem tryFirstWide_spec {sp : ℕ} (hw : 0 < w) (h : s.At mem d e n u) (hsp : w = g → sp = 0) :
    Leaves (FirstGrain (bytesAt mem d) (bytesAt mem e) n g)
      (fun t => t.At mem d e n u ∧ w ≠ g) (tryFirstWide mem w g s sp) := by
  have hsrc : u ∣ s.src := by
    rw [h.src]
    exact dvd_add ha.src h.grain
  have hsize : u ∣ s.size := by
    have := h.size
    rw [← Nat.dvd_add_right h.grain, this]
    exact ha.size
  unfold tryFirstWide
  by_cases hcond : sp = 0 ∧ spill s.src w = 0
  · have hcopy : roundDown s.size w ≤ s.size := Nat.div_mul_le_self _ _
    have hdiff : FirstGrain (bytesAt mem s.dst) (bytesAt mem s.src) (roundDown s.size w) w
        (findFirstDiff w mem s.dst s.src (roundDown s.size w)) :=
      findFirstDiff_spec hw (dvd_mul_left w _)
    have hin := hdiff.inside
    simp only [if_pos hcond]
    by_cases hend : s.size ≤ findFirstDiff w mem s.dst s.src (roundDown s.size w)
    · have hwhole : s.offset + findFirstDiff w mem s.dst s.src (roundDown s.size w) = n := by
        have := h.size
        omega
      have hsame : Alike (bytesAt mem s.dst) (bytesAt mem s.src) 0 s.size :=
        hdiff.before.mono le_rfl hend
      have hall := (h.advance le_rfl hsize hsame).same
      rw [if_pos (Or.inl hend), hwhole]
      exact firstGrain_of_alike (by rwa [← h.size]) hn
    · by_cases hwide : w = g
      · rw [if_pos (Or.inr hwide.symm)]
        obtain rfl := hwg hwide
        subst hwide
        have hround : roundDown s.size w = s.size := Nat.div_mul_cancel hsize
        have hfound := h.found hdiff h.grain
        rw [hround, h.size] at hfound
        rw [hround]
        exact hfound
      · rw [if_neg (by omega)]
        exact ⟨h.advance (hin.trans hcopy) (huw.trans hdiff.grain) hdiff.before, hwide⟩
  · rw [if_neg hcond]
    refine ⟨h, ?_⟩
    intro hwide
    apply hcond
    refine ⟨hsp hwide, ?_⟩
    rw [hwide, ← hwg hwide]
    exact Nat.mod_eq_zero_of_dvd hsrc

theorem tryFindFirstDiff_spec (hw : 0 < w) (h : s.At mem d e n u) :
    Leaves (FirstGrain (bytesAt mem d) (bytesAt mem e) n g) (fun t => t.At mem d e n u ∧ w ≠ g)
      (tryFindFirstDiff mem w g s) :=
  (tryFirstHead_spec hg hn ha huw hwg h).bind fun _ ht =>
    tryFirstWide_spec hg hn ha huw hwg hw ht.1 ht.2

end Tries

def Cpp (g : ℕ) : Prop := g = 1 ∨ g = 2 ∨ g = 4 ∨ g = 8

instance : DecidablePred Cpp := fun g =>
  inferInstanceAs (Decidable (g = 1 ∨ g = 2 ∨ g = 4 ∨ g = 8))

theorem Cpp.pos (h : Cpp g) : 0 < g := by
  unfold Cpp at h
  omega

theorem Cpp.dvd_eight (h : Cpp g) : g ∣ 8 := by
  obtain rfl | rfl | rfl | rfl := h <;> decide

theorem Cpp.dvd_four (h : Cpp g) (h8 : 8 ≠ g) : g ∣ 4 := by
  obtain rfl | rfl | rfl | rfl := h <;> first | decide | contradiction

theorem Cpp.dvd_two (h : Cpp g) (h8 : 8 ≠ g) (h4 : 4 ≠ g) : g ∣ 2 := by
  obtain rfl | rfl | rfl | rfl := h <;> first | decide | contradiction

theorem start_first (mem : Mem) (d e n u : ℕ) : FirstSearch.At mem d e n u ⟨d, e, n, 0⟩ :=
  ⟨rfl, rfl, zero_add n, dvd_zero u, alike_of_le le_rfl⟩

/-- What the narrower words find. They are narrower than the granularity only where there are
    no words of eight bytes, and then `u` is two. -/
theorem findFirstNarrow_spec {u : ℕ} {s : FirstSearch} (hg : Cpp g) (hn : g ∣ n)
    (ha : Aligned u d e n) (h4 : u ∣ 4) (h2 : 4 ≠ g → u ∣ 2) (hu : 8 ≠ g → u = g)
    (hs : s.At mem d e n u) :
    FirstGrain (bytesAt mem d) (bytesAt mem e) n g (findFirstNarrow mem g s) := by
  have hsearch : Leaves (FirstGrain (bytesAt mem d) (bytesAt mem e) n g)
      (FirstSearch.At mem d e n u) (do
        let s ← tryFindFirstDiff mem 4 g s
        tryFindFirstDiff mem 2 g s) := by
    have htry4 := tryFindFirstDiff_spec hg.pos hn ha h4 (fun h => hu (by omega)) (by omega) hs
    refine htry4.bind fun s hs => ?_
    have htry2 := tryFindFirstDiff_spec hg.pos hn ha (h2 hs.2) (fun h => hu (by omega)) (by omega)
      hs.1
    exact htry2.imp (fun _ h => h) fun _ h => h.1
  unfold findFirstNarrow
  cases hres : (do
      let s ← tryFindFirstDiff mem 4 g s
      tryFindFirstDiff mem 2 g s) with
  | error found =>
    rw [hres] at hsearch
    exact hsearch
  | ok s =>
    rw [hres] at hsearch
    have hs : s.At mem d e n u := hsearch
    have hdiff : FirstGrain (bytesAt mem s.dst) (bytesAt mem s.src) s.size 1
        (vmwFindFirstDiffU8 mem s.dst s.src s.size) := findFirstDiff_spec one_pos (one_dvd _)
    have hall := hs.found hdiff (one_dvd _)
    rw [hs.size] at hall
    exact hall.coarsen hg.pos hn

theorem vmwFindFirstDiff_spec (mem : Mem) (hg : Cpp g) (ha : Aligned g d e n) :
    FirstGrain (bytesAt mem d) (bytesAt mem e) n g (vmwFindFirstDiff mem d e n g) := by
  have htry := tryFindFirstDiff_spec hg.pos ha.size ha hg.dvd_eight (fun _ => rfl) (by omega)
    (start_first mem d e n g)
  cases hres : tryFindFirstDiff mem 8 g ⟨d, e, n, 0⟩ with
  | error found =>
    have hfound : vmwFindFirstDiff mem d e n g = found := by
      rw [vmwFindFirstDiff, hres]
      rfl
    rw [hres] at htry
    rw [hfound]
    exact htry
  | ok s =>
    have hgo : vmwFindFirstDiff mem d e n g = findFirstNarrow mem g s := by
      rw [vmwFindFirstDiff, hres]
      rfl
    rw [hres] at htry
    obtain ⟨hs, h8⟩ := htry
    rw [hgo]
    exact findFirstNarrow_spec hg ha.size ha (hg.dvd_four h8) (hg.dvd_two h8) (fun _ => rfl) hs

/-- Without words of eight bytes the search can stand inside a pixel of eight, and is rounded
    down at its end. -/
theorem vmwFindFirstDiffFor_spec (config64Bit : Bool) (mem : Mem) (hg : Cpp g)
    (ha : Aligned g d e n) :
    FirstGrain (bytesAt mem d) (bytesAt mem e) n g
      (vmwFindFirstDiffFor config64Bit mem d e n g) := by
  cases config64Bit with
  | true => exact vmwFindFirstDiff_spec mem hg ha
  | false =>
    by_cases h8 : 8 = g
    · subst h8
      have h2 : 2 ∣ 8 := by decide
      have hpairs : Aligned 2 d e n :=
        ⟨two_pos, h2.trans ha.dst, h2.trans ha.src, h2.trans ha.size⟩
      exact findFirstNarrow_spec hg ha.size hpairs (by decide) (fun _ => dvd_rfl)
        (fun h => absurd rfl h) (start_first mem d e n 2)
    · exact findFirstNarrow_spec hg ha.size ha (hg.dvd_four h8) (hg.dvd_two h8) (fun _ => rfl)
        (start_first mem d e n g)

/-- The search ends at the first differing byte, rounded down, and at the end of the areas or
    behind it exactly if they are equal. -/
theorem vmwFindFirstDiff_rounded (config64Bit : Bool) (mem : Mem) {d e n g : ℕ} (hg : Cpp g)
    (ha : Aligned g d e n) :
    (∀ i < n, mem (d + i) ≠ mem (e + i) → (∀ j < i, mem (d + j) = mem (e + j)) →
      vmwFindFirstDiffFor config64Bit mem d e n g = roundDown i g) ∧
    (n ≤ vmwFindFirstDiffFor config64Bit mem d e n g ↔ ∀ i < n, mem (d + i) = mem (e + i)) := by
  have hfirst := vmwFindFirstDiffFor_spec config64Bit mem hg ha
  constructor
  · intro i hi hne hbefore
    exact hfirst.eq_of_first hg.pos ha.size hi hne hbefore
  · exact hfirst.end_iff ha.size

/-- Two areas that are two bytes behind a word of eight and differ in their last pixel. -/
theorem lastPixel_found :
    vmwFindFirstDiffFor true (fun a => if a = 19 then 1 else 0) 2 42 18 2 = 16 ∧
      vmwFindFirstDiffFor false (fun a => if a = 19 then 1 else 0) 2 42 18 2 < 18 := by
  have hg : Cpp 2 := by decide
  have ha : Aligned 2 2 42 18 := ⟨by decide, by decide, by decide, by decide⟩
  constructor
  · exact (vmwFindFirstDiff_rounded true (fun a => if a = 19 then 1 else 0) hg ha).1 17
      (by decide) (by decide) (by decide)
  · have hend := (vmwFindFirstDiff_rounded false (fun a => if a = 19 then 1 else 0) hg ha).2
    rw [← not_le, hend]
    exact fun hall => absurd (hall 17 (by decide)) (by decide)

theorem lastDiffLoop_spec (mem : Mem) (w k d e : ℕ) :
    (lastDiffLoop mem w k (d + k * w) (e + k * w) (k * w) = 0 ∧
        Alike (bytesAt mem d) (bytesAt mem e) 0 (k * w)) ∨
      ∃ q, lastDiffLoop mem w k (d + k * w) (e + k * w) (k * w) = q + w ∧
        LastGrain (bytesAt mem d) (bytesAt mem e) (k * w) w q := by
  induction k with
  | zero =>
    left
    rw [zero_mul]
    exact ⟨rfl, alike_of_le le_rfl⟩
  | succ k ih =>
    have hback (x : ℕ) : x + (k + 1) * w - w = x + k * w := by
      rw [add_mul, one_mul]
      omega
    have hsize : (k + 1) * w - w = k * w := by
      rw [add_mul, one_mul, Nat.add_sub_cancel]
    have hlast : Alike (bytesAt mem (d + k * w)) (bytesAt mem (e + k * w)) 0 w ↔
        Alike (bytesAt mem d) (bytesAt mem e) (k * w) ((k + 1) * w) := by
      rw [bytesAt_shift, bytesAt_shift, alike_shift, add_zero, add_mul, one_mul]
    rw [lastDiffLoop, hback, hback, hsize]
    by_cases hword : word mem w (d + k * w) = word mem w (e + k * w)
    · rw [if_neg (not_not.2 hword)]
      have hsame := hlast.1 (word_eq_iff.1 hword)
      obtain ⟨hzero, hall⟩ | ⟨q, hq, hgrain⟩ := ih
      · exact Or.inl ⟨hzero, hall.join hsame⟩
      · refine Or.inr ⟨q, hq, hgrain.extend ?_ hsame⟩
        exact Nat.mul_le_mul_right w (Nat.le_succ k)
    · rw [if_pos hword]
      have hend : k * w + w = (k + 1) * w := by rw [add_mul, one_mul]
      refine Or.inr ⟨k * w, hend.symm, dvd_mul_left w k, hend.le, ?_, alike_of_le hend.ge⟩
      rw [hend]
      exact fun hsame => hword (word_eq_iff.2 (hlast.2 hsame))

theorem findLastDiff_spec (mem : Mem) (d e : ℕ) (hw : 0 < w) (hsize : w ∣ size) :
    (findLastDiff w mem (d + size) (e + size) size = 0 ∧
        Alike (bytesAt mem d) (bytesAt mem e) 0 size) ∨
      ∃ q, findLastDiff w mem (d + size) (e + size) size = q + w ∧
        LastGrain (bytesAt mem d) (bytesAt mem e) size w q := by
  obtain ⟨k, rfl⟩ := hsize
  rw [mul_comm w k, findLastDiff, Nat.mul_div_cancel k hw]
  exact lastDiffLoop_spec mem w k d e

def LastFound (mem : Mem) (d e n g : ℕ) (r : ℤ) : Prop :=
  ∃ q : ℕ, r = q ∧ LastGrain (bytesAt mem d) (bytesAt mem e) n g q

/-- What is past the first `size` bytes of the buffers at `d` and `e` is searched. -/
structure LastSearch.At (mem : Mem) (d e n g : ℕ) (s : LastSearch) : Prop where
  dst : s.dst = d + s.size
  src : s.src = e + s.size
  inside : s.size ≤ n
  grain : g ∣ s.size
  same : Alike (bytesAt mem d) (bytesAt mem e) s.size n

theorem roundDownSigned_natCast (q g : ℕ) : roundDownSigned (q : ℤ) g = (q / g * g : ℕ) := by
  rw [roundDownSigned, Nat.cast_mul, Int.natCast_div]

theorem LastSearch.At.found {s : LastSearch} {q : ℕ} (hg : 0 < g) (h : s.At mem d e n g)
    (hq : LastGrain (bytesAt mem d) (bytesAt mem e) s.size 1 q) :
    LastFound mem d e n g (roundDownSigned q g) :=
  ⟨q / g * g, roundDownSigned_natCast q g, (hq.coarsen hg h.grain).extend h.inside h.same⟩

theorem LastSearch.At.retreat {s : LastSearch} {k : ℕ} (h : s.At mem d e n g) (hk : k ≤ s.size)
    (hg : g ∣ k) (hsame : Alike (bytesAt mem d) (bytesAt mem e) (s.size - k) s.size) :
    (s.retreat k).At mem d e n g where
  dst := by
    show s.dst - k = d + (s.size - k)
    rw [h.dst]
    omega
  src := by
    show s.src - k = e + (s.size - k)
    rw [h.src]
    omega
  inside := (Nat.sub_le _ _).trans h.inside
  grain := Nat.dvd_sub h.grain hg
  same := hsame.join h.same

/-- The search goes on from an end that is aligned to `w`, and something differs in the words
of `w` bytes below it. -/
structure LastSearch.Tight (mem : Mem) (d e n g w : ℕ) (s : LastSearch) : Prop where
  at' : s.At mem d e n g
  dst : w ∣ s.dst
  src : w ∣ s.src
  differs : ¬ Alike (bytesAt mem d) (bytesAt mem e) (s.size % w) s.size

theorem LastSearch.Tight.narrow {s : LastSearch} {v : ℕ} (h : s.Tight mem d e n g w) (hv : v ∣ w) :
    s.Tight mem d e n g v where
  at' := h.at'
  dst := hv.trans h.dst
  src := hv.trans h.src
  differs := by
    intro hsame
    apply h.differs
    refine hsame.mono ?_ le_rfl
    rw [← Nat.mod_mod_of_dvd s.size hv]
    exact Nat.mod_le _ _

theorem mod_add_roundDown (x w : ℕ) : x % w + roundDown x w = x := by
  rw [roundDown, mul_comm]
  exact Nat.mod_add_div x w

theorem wide_spec {s : LastSearch} (hw : 0 < w) (h : s.At mem d e n g) :
    (findLastDiff w mem s.dst s.src (roundDown s.size w) = 0 ∧
        Alike (bytesAt mem d) (bytesAt mem e) (s.size % w) s.size) ∨
      ∃ q, findLastDiff w mem s.dst s.src (roundDown s.size w) = q + w ∧ w ∣ q ∧
        s.size % w + q + w ≤ s.size ∧
        ¬ Alike (bytesAt mem d) (bytesAt mem e) (s.size % w + q) (s.size % w + q + w) ∧
        Alike (bytesAt mem d) (bytesAt mem e) (s.size % w + q + w) s.size := by
  have hround := mod_add_roundDown s.size w
  have hdst : s.dst = d + s.size % w + roundDown s.size w := by
    rw [h.dst, add_assoc, hround]
  have hsrc : s.src = e + s.size % w + roundDown s.size w := by
    rw [h.src, add_assoc, hround]
  have hdvd : w ∣ roundDown s.size w := dvd_mul_left w _
  rw [hdst, hsrc]
  obtain ⟨hzero, hsame⟩ | ⟨q, hq, hlast⟩ := findLastDiff_spec mem
    (d + s.size % w) (e + s.size % w) hw hdvd
  · left
    rw [bytesAt_shift, bytesAt_shift, alike_shift, hround, add_zero] at hsame
    exact ⟨hzero, hsame⟩
  · right
    rw [bytesAt_shift, bytesAt_shift] at hlast
    have hin := hlast.inside
    have hhere := fun hsame => hlast.here (alike_shift.2 hsame)
    have hafter := alike_shift.1 hlast.after
    rw [hround] at hafter
    rw [← add_assoc] at hhere hafter
    exact ⟨q, hq, hlast.grain, by omega, hhere, hafter⟩

theorem tryLastWide_negative {s : LastSearch} (hw : 0 < w) (h : s.At mem d e n g)
    (hsrc : w ∣ s.src)
    (hsame : Alike (bytesAt mem d) (bytesAt mem e) (s.size % w) s.size) :
    Leaves (· < 0) (fun _ => False) (tryLastWide mem w g s 0) := by
  have hmod : s.size % w < w := Nat.mod_lt _ hw
  have hround := mod_add_roundDown s.size w
  unfold tryLastWide
  rw [if_pos ⟨rfl, Nat.mod_eq_zero_of_dvd hsrc⟩]
  obtain ⟨hzero, -⟩ | ⟨q, -, -, hin, hhere, -⟩ := wide_spec hw h
  · have hneg : (s.size : ℤ) - roundDown s.size w +
        findLastDiff w mem s.dst s.src (roundDown s.size w) - w < 0 := by
      rw [hzero]
      omega
    simp only [if_pos (Or.inl hneg)]
    exact hneg
  · exact absurd (hsame.mono (Nat.le_add_right _ _) hin) hhere

theorem tryLastWide_spec {s : LastSearch} (hgw : g ∣ w) (hw : 0 < w) (h : s.At mem d e n g)
    (hdst : w ∣ s.dst) (hsrc : w ∣ s.src)
    (hne : ¬ Alike (bytesAt mem d) (bytesAt mem e) (s.size % w) s.size) :
    Leaves (LastFound mem d e n g) (fun t => t.Tight mem d e n g w ∧ w ≠ g)
      (tryLastWide mem w g s 0) := by
  have hround := mod_add_roundDown s.size w
  unfold tryLastWide
  rw [if_pos ⟨rfl, Nat.mod_eq_zero_of_dvd hsrc⟩]
  obtain ⟨-, hsame⟩ | ⟨q, hq, hwq, hin, hhere, hafter⟩ := wide_spec hw h
  · exact absurd hsame hne
  · have hlocation : (s.size : ℤ) - roundDown s.size w +
        findLastDiff w mem s.dst s.src (roundDown s.size w) - w = (s.size % w + q : ℕ) := by
      rw [hq]
      omega
    simp only [hlocation]
    have hmod : g ∣ s.size % w := (Nat.dvd_mod_iff hgw).2 h.grain
    by_cases hwg : g = w
    · rw [if_pos (Or.inr hwg)]
      subst hwg
      refine ⟨s.size % g + q, rfl, dvd_add hmod hwq, hin.trans h.inside, hhere, ?_⟩
      exact hafter.join h.same
    · rw [if_neg (by omega), hq]
      have hdvd : w ∣ roundDown s.size w - (q + w) :=
        Nat.dvd_sub (dvd_mul_left w _) (dvd_add hwq dvd_rfl)
      have hleft : s.size - (roundDown s.size w - (q + w)) = s.size % w + q + w := by omega
      have hat : (s.retreat (roundDown s.size w - (q + w))).At mem d e n g := by
        apply h.retreat (by omega) (hgw.trans hdvd)
        rw [hleft]
        exact hafter
      refine ⟨⟨hat, Nat.dvd_sub hdst hdvd, Nat.dvd_sub hsrc hdvd, ?_⟩, fun he => hwg he.symm⟩
      show ¬ Alike _ _ ((s.size - (roundDown s.size w - (q + w))) % w)
        (s.size - (roundDown s.size w - (q + w)))
      obtain ⟨c, hc⟩ := hwq
      have hhead : (s.size % w + q + w) % w = s.size % w := by
        rw [Nat.add_mod_right, hc, Nat.add_mul_mod_self_left, Nat.mod_mod]
      rw [hleft, hhead]
      exact fun hsame => hhere (hsame.mono (Nat.le_add_right _ _) le_rfl)

theorem tight_spec {s : LastSearch} (hgw : g ∣ w) (hw : 0 < w) (h : s.Tight mem d e n g w) :
    Leaves (LastFound mem d e n g) (fun t => t.Tight mem d e n g w ∧ w ≠ g)
      (tryFindLastDiff mem w g s) := by
  have hspill : spill s.dst w = 0 := Nat.mod_eq_zero_of_dvd h.dst
  have htail : tryLastTail mem w g s = .ok (s, 0) := by
    simp only [tryLastTail, hspill, ne_eq, not_true_eq_false, false_and, if_false]
  rw [tryFindLastDiff, htail]
  exact tryLastWide_spec hgw hw h.at' h.dst h.src h.differs

/-- Words of `w` bytes are aligned at the ends of both buffers, or at the same distance before
both ends. -/
def Meets (d e n w : ℕ) : Prop := spill (d + n) w = spill (e + n) w ∧ spill (d + n) w ≤ n

instance (d e n w : ℕ) : Decidable (Meets d e n w) :=
  inferInstanceAs (Decidable (_ ∧ _))

/-- The bytes before the first word of `w` bytes, counted from the end. -/
def headOf (d n w : ℕ) : ℕ := (n - spill (d + n) w) % w

def LastSearch.start (d e n : ℕ) : LastSearch := ⟨d + n, e + n, n⟩

theorem start_at (hn : g ∣ n) : (LastSearch.start d e n).At mem d e n g :=
  ⟨rfl, rfl, le_rfl, hn, alike_of_le le_rfl⟩

theorem try_skips (h : ¬ Meets d e n w) :
    tryFindLastDiff mem w g (LastSearch.start d e n) = .ok (LastSearch.start d e n) := by
  have htail : ¬ (spill (d + n) w ≠ 0 ∧ spill (d + n) w ≤ n ∧ spill (d + n) w = spill (e + n) w) :=
    fun hc => h ⟨hc.2.2, hc.2.1⟩
  have hwide : ¬ (spill (d + n) w = 0 ∧ spill (e + n) w = 0) := by
    intro hc
    apply h
    rw [Meets, hc.1, hc.2]
    exact ⟨rfl, Nat.zero_le n⟩
  have hok : tryLastTail mem w g (LastSearch.start d e n) =
      .ok (LastSearch.start d e n, spill (d + n) w) := if_neg htail
  rw [tryFindLastDiff, hok]
  exact if_neg hwide

/-- What the search returns when the words begin after `head` bytes: nothing found when the
differences are all before them. -/
def Answers (mem : Mem) (d e n g head : ℕ) (r : ℤ) : Prop :=
  (Alike (bytesAt mem d) (bytesAt mem e) head n → r < 0) ∧
    (¬ Alike (bytesAt mem d) (bytesAt mem e) head n → LastFound mem d e n g r)

theorem tryLastTail_spec (ha : Aligned g d e n) (hgw : g ∣ w) (h : Meets d e n w) :
    Leaves (Answers mem d e n g (headOf d n w))
      (fun t => t.2 = 0 ∧ t.1.At mem d e n g ∧ w ∣ t.1.dst ∧ w ∣ t.1.src ∧
        t.1.size = n - spill (d + n) w)
      (tryLastTail mem w g (LastSearch.start d e n)) := by
  have hdst : w ∣ d + n - spill (d + n) w := Nat.dvd_sub_mod _
  have hsrc : w ∣ e + n - spill (d + n) w := by
    rw [h.1]
    exact Nat.dvd_sub_mod _
  have hspill : g ∣ spill (d + n) w := (Nat.dvd_mod_iff hgw).2 (dvd_add ha.dst ha.size)
  by_cases hzero : spill (d + n) w = 0
  · have hok : tryLastTail mem w g (LastSearch.start d e n) =
        .ok (LastSearch.start d e n, spill (d + n) w) := if_neg fun hc => hc.1 hzero
    rw [hok, hzero]
    rw [hzero] at hdst hsrc
    exact ⟨rfl, start_at ha.size, hdst, hsrc, rfl⟩
  · have hin := h.2
    have hk : n - spill (d + n) w + spill (d + n) w = n := Nat.sub_add_cancel hin
    have hbase (x : ℕ) : x + n = x + (n - spill (d + n) w) + spill (d + n) w := by
      rw [add_assoc, hk]
    have hcond : spill (d + n) w ≠ 0 ∧ spill (d + n) w ≤ n ∧
        spill (d + n) w = spill (e + n) w := ⟨hzero, hin, h.1⟩
    have hsearch := findLastDiff_spec mem (d + (n - spill (d + n) w))
      (e + (n - spill (d + n) w)) one_pos (one_dvd (spill (d + n) w))
    rw [← hbase d, ← hbase e] at hsearch
    have htail : tryLastTail mem w g (LastSearch.start d e n) =
        if findLastDiff 1 mem (d + n) (e + n) (spill (d + n) w) ≠ 0 then
          .error (roundDownSigned ((n : ℤ) - spill (d + n) w +
            findLastDiff 1 mem (d + n) (e + n) (spill (d + n) w) - 1) g)
        else .ok ((LastSearch.start d e n).retreat (spill (d + n) w), 0) := if_pos hcond
    rw [htail]
    obtain ⟨hnone, hsame⟩ | ⟨q, hq, hlast⟩ := hsearch
    · rw [if_neg (not_not.2 hnone)]
      rw [bytesAt_shift, bytesAt_shift, alike_shift, add_zero, hk] at hsame
      exact ⟨rfl, (start_at ha.size).retreat hin hspill hsame, hdst, hsrc, rfl⟩
    · rw [bytesAt_shift, bytesAt_shift] at hlast
      have hgrain := hlast.shift (one_dvd _)
      rw [hk] at hgrain
      have hlocation : (n : ℤ) - spill (d + n) w + (q + 1 : ℕ) - 1 =
          (n - spill (d + n) w + q : ℕ) := by omega
      rw [hq, if_pos (by omega : q + 1 ≠ 0), hlocation]
      refine ⟨fun hsame => ?_, fun _ => (start_at ha.size).found ha.pos hgrain⟩
      have hhead : headOf d n w ≤ n - spill (d + n) w := Nat.mod_le _ _
      exact absurd (hsame.mono (by omega) hgrain.inside) hgrain.here

theorem try_meets (ha : Aligned g d e n) (hgw : g ∣ w) (hw : 0 < w) (h : Meets d e n w) :
    Leaves (Answers mem d e n g (headOf d n w))
      (fun t => t.Tight mem d e n g w ∧ w ≠ g ∧
        ¬ Alike (bytesAt mem d) (bytesAt mem e) (headOf d n w) n)
      (tryFindLastDiff mem w g (LastSearch.start d e n)) := by
  refine (tryLastTail_spec ha hgw h).bind ?_
  rintro ⟨s, sp⟩ ⟨hsp, hat, hdst, hsrc, hsize⟩
  have hhead : headOf d n w = s.size % w := by
    rw [hsize]
    rfl
  subst hsp
  rw [hhead]
  by_cases hsame : Alike (bytesAt mem d) (bytesAt mem e) (s.size % w) s.size
  · have hall := hsame.join hat.same
    have hneg := tryLastWide_negative hw hat hsrc hsame
    exact hneg.imp (fun r hr => ⟨fun _ => hr, fun hne => absurd hall hne⟩) (fun _ hf => hf.elim)
  · have hne : ¬ Alike (bytesAt mem d) (bytesAt mem e) (s.size % w) n :=
      fun hall => hsame (hall.mono le_rfl hat.inside)
    have hfound := tryLastWide_spec hgw hw hat hdst hsrc hsame
    exact hfound.imp (fun r hr => ⟨fun hall => absurd hall hne, fun _ => hr⟩)
      (fun t ht => ⟨ht.1, ht.2, hne⟩)

def widest (d e n : ℕ) : ℕ :=
  if Meets d e n 8 then 8 else if Meets d e n 4 then 4 else if Meets d e n 2 then 2 else 1

def head (d e n : ℕ) : ℕ := headOf d n (widest d e n)

theorem meets_of_aligned (ha : Aligned g d e n) : Meets d e n g := by
  have hdst : spill (d + n) g = 0 := Nat.mod_eq_zero_of_dvd (dvd_add ha.dst ha.size)
  have hsrc : spill (e + n) g = 0 := Nat.mod_eq_zero_of_dvd (dvd_add ha.src ha.size)
  rw [Meets, hdst, hsrc]
  exact ⟨rfl, Nat.zero_le n⟩

/-- Where the search in bytes takes over, with the differences not all in the first `h` bytes. -/
def Rest (mem : Mem) (d e n g h : ℕ) (s : LastSearch) : Prop :=
  s.At mem d e n g ∧ ¬ Alike (bytesAt mem d) (bytesAt mem e) 0 s.size ∧
    ¬ Alike (bytesAt mem d) (bytesAt mem e) h n

section
variable {s : LastSearch} {h : ℕ} (hne : ¬ Alike (bytesAt mem d) (bytesAt mem e) h n)
include hne

theorem tight_answers (hgw : g ∣ w) (hw : 0 < w) (hs : s.Tight mem d e n g w) :
    Leaves (Answers mem d e n g h) (fun t => t.Tight mem d e n g w ∧ w ≠ g)
      (tryFindLastDiff mem w g s) :=
  (tight_spec hgw hw hs).imp (fun _ hr => ⟨fun hall => absurd hall hne, fun _ => hr⟩)
    fun _ ht => ht

theorem Tight.rest (hs : s.Tight mem d e n g w) : Rest mem d e n g h s :=
  ⟨hs.at', fun hsame => hs.differs (hsame.mono (Nat.zero_le _) le_rfl), hne⟩

theorem two_answers (h2 : g ∣ 2) (hs : s.Tight mem d e n g 2) :
    Leaves (Answers mem d e n g h) (Rest mem d e n g h) (tryFindLastDiff mem 2 g s) :=
  (tight_answers hne h2 (by omega) hs).imp (fun _ hr => hr) fun _ ht => Tight.rest hne ht.1

theorem four_answers (hg : Cpp g) (h8 : 8 ≠ g) (hs : s.Tight mem d e n g 4) :
    Leaves (Answers mem d e n g h) (Rest mem d e n g h) (do
      let s ← tryFindLastDiff mem 4 g s
      tryFindLastDiff mem 2 g s) := by
  refine (tight_answers hne (hg.dvd_four h8) (by omega) hs).bind fun t ht => ?_
  exact two_answers hne (hg.dvd_two h8 ht.2) (ht.1.narrow (by decide))

end

/-- Narrower words sharpen the answer of the widest ones, and what those do not see stays
unseen. -/
theorem tried_spec (hg : Cpp g) (ha : Aligned g d e n)
    (hne : ¬ Alike (bytesAt mem d) (bytesAt mem e) 0 n) :
    Leaves (Answers mem d e n g (head d e n)) (Rest mem d e n g (head d e n)) (do
      let s ← tryFindLastDiff mem 8 g (LastSearch.start d e n)
      let s ← tryFindLastDiff mem 4 g s
      tryFindLastDiff mem 2 g s) := by
  have hmeets := meets_of_aligned ha
  by_cases h8 : Meets d e n 8
  · have hhead : head d e n = headOf d n 8 := by rw [head, widest, if_pos h8]
    rw [hhead]
    refine (try_meets ha hg.dvd_eight (by omega) h8).bind fun s hs => ?_
    exact four_answers hs.2.2 hg hs.2.1 (hs.1.narrow (by decide))
  have hg8 : 8 ≠ g := fun he => h8 (he ▸ hmeets)
  rw [try_skips h8]
  change Leaves _ _ (do
    let s ← tryFindLastDiff mem 4 g (LastSearch.start d e n)
    tryFindLastDiff mem 2 g s)
  by_cases h4 : Meets d e n 4
  · have hhead : head d e n = headOf d n 4 := by rw [head, widest, if_neg h8, if_pos h4]
    rw [hhead]
    refine (try_meets ha (hg.dvd_four hg8) (by omega) h4).bind fun s hs => ?_
    exact two_answers hs.2.2 (hg.dvd_two hg8 hs.2.1) (hs.1.narrow (by decide))
  have hg4 : 4 ≠ g := fun he => h4 (he ▸ hmeets)
  rw [try_skips h4]
  change Leaves _ _ (tryFindLastDiff mem 2 g (LastSearch.start d e n))
  by_cases h2 : Meets d e n 2
  · have hhead : head d e n = headOf d n 2 := by
      rw [head, widest, if_neg h8, if_neg h4, if_pos h2]
    rw [hhead]
    exact (try_meets ha (hg.dvd_two hg8 hg4) (by omega) h2).imp (fun _ hr => hr)
      fun s hs => Tight.rest hs.2.2 hs.1
  · have hhead : head d e n = 0 := by
      rw [head, widest, if_neg h8, if_neg h4, if_neg h2, headOf, Nat.mod_one]
    rw [try_skips h2, hhead]
    exact ⟨start_at ha.size, hne, hne⟩

/-- The last search finds the last differing pixel, unless the differences are all before the
words it uses. -/
theorem vmwFindLastDiff_spec (hg : Cpp g) (ha : Aligned g d e n)
    (hne : ¬ Alike (bytesAt mem d) (bytesAt mem e) 0 n) :
    Answers mem d e n g (head d e n) (vmwFindLastDiff mem d e n g) := by
  have hsearch := tried_spec hg ha hne
  unfold vmwFindLastDiff
  simp only [LastSearch.start] at hsearch
  generalize (do
      let s ← tryFindLastDiff mem 8 g ⟨d + n, e + n, n⟩
      let s ← tryFindLastDiff mem 4 g s
      tryFindLastDiff mem 2 g s : Except ℤ LastSearch) = tried at hsearch ⊢
  cases tried with
  | error found => exact hsearch
  | ok s =>
    obtain ⟨hat, hbytes, hhead⟩ := hsearch
    refine ⟨fun hall => absurd hall hhead, fun _ => ?_⟩
    obtain ⟨-, hsame⟩ | ⟨q, hq, hlast⟩ := findLastDiff_spec mem d e
      one_pos (one_dvd s.size)
    · exact absurd hsame hbytes
    · have hvalue : (vmwFindLastDiffU8 mem s.dst s.src s.size : ℤ) - 1 = q := by
        rw [hat.dst, hat.src, vmwFindLastDiffU8, hq]
        omega
      show LastFound mem d e n g
        (roundDownSigned ((vmwFindLastDiffU8 mem s.dst s.src s.size : ℤ) - 1) g)
      rw [hvalue]
      exact hat.found ha.pos hlast

end Vmwgfx.DiffMemcpy
