import Vmwgfx.MobTranslation

set_option autoImplicit false

/-!
# The levels of a page table

`vmw_mob_calculate_pt_pages` counts the pages of a page table before it is built, and
`vmw_mob_pt_setup` stops at a `BUG_ON` where two levels do not suffice. The count is that of
the pages that are written, and the size of a buffer decides whether the `BUG_ON` is reached.
-/
namespace Vmwgfx.TtmBuffer
open ExecbufState (Errno)
open RadixWalk

variable {c : Config} {s t : TtmTt} {m m' : Mob} {bo : PtBo} {data : ℕ → ℕ} {n : ℕ}

section Counting

theorem create_numPages (c : Config) (n : ℕ) :
    (vmwMobCreate c n).numPages = vmwMobCalculatePtPages c n := rfl

theorem numPtPages_le_one : numPtPages c n ≤ 1 ↔ n ≤ c.slots := by
  unfold numPtPages divRoundUp pageSize
  rcases slots_cases c with ⟨h, h', -⟩ | ⟨h, h', -⟩ <;> rw [h, h'] <;> omega

theorem numPtPages_two : numPtPages c (numPtPages c n) ≤ 1 ↔ n ≤ c.slots ^ 2 := by
  rw [numPtPages_le_one]
  unfold numPtPages divRoundUp pageSize
  rcases slots_cases c with ⟨h, h', -⟩ | ⟨h, h', -⟩ <;> rw [h, h'] <;> omega

/-- The pages that `left` levels of a table for `n` pages take. -/
def levelPages (c : Config) : ℕ → ℕ → ℕ
  | 0, _ => 0
  | left + 1, n => if n ≤ 1 then 0 else numPtPages c n + levelPages c left (numPtPages c n)

theorem calculatePtPages_eq (left dataSize tot : ℕ) (hn : divRoundUp dataSize pageSize = n)
    (htot : pageSize ∣ tot) :
    calculatePtPages c left dataSize tot = tot / pageSize + levelPages c left n := by
  induction left generalizing dataSize tot n with
  | zero => rfl
  | succ left ih =>
    have hlast : dataSize ≤ pageSize ↔ n ≤ 1 := by
      rw [← hn]
      unfold divRoundUp pageSize
      omega
    unfold calculatePtPages levelPages
    by_cases hone : n ≤ 1
    · rw [if_pos (hlast.2 hone), if_pos hone]
      rfl
    · rw [if_neg (mt hlast.1 hone), if_neg hone]
      simp only [hn]
      rw [ih (n * c.ppnSize) _ rfl (Dvd.dvd.add htot (Nat.dvd_mul_left pageSize _))]
      have hdiv : (tot + numPtPages c n * pageSize) / pageSize = tot / pageSize + numPtPages c n :=
        Nat.add_mul_div_right _ _ (by decide)
      unfold numPtPages at hdiv ⊢
      omega

theorem calculatePtPages_levels (c : Config) (n : ℕ) :
    vmwMobCalculatePtPages c n = levelPages c n n := by
  have hn : divRoundUp (n * pageSize) pageSize = n := by
    unfold divRoundUp pageSize
    omega
  have hcount := calculatePtPages_eq (c := c) n (n * pageSize) 0 hn (Nat.dvd_zero pageSize)
  simpa [vmwMobCalculatePtPages] using hcount

theorem calculatePtPages_two (hn : 1 < n) (h : n ≤ c.slots ^ 2) :
    vmwMobCalculatePtPages c n = numPtPages c n + if numPtPages c n ≤ 1 then 0 else 1 := by
  obtain ⟨-, -, hpos⟩ := numPtPages_bounds c (Nat.zero_lt_of_lt hn)
  obtain ⟨-, -, hpos'⟩ := numPtPages_bounds c hpos
  have htwo := numPtPages_two.2 h
  obtain ⟨k, rfl⟩ : ∃ k, n = k + 2 := ⟨n - 2, by omega⟩
  rw [calculatePtPages_levels, levelPages, if_neg (by omega), levelPages]
  split_ifs
  · rfl
  · have hroot : levelPages c k (numPtPages c (numPtPages c (k + 2))) = 0 := by
      cases k with
      | zero => rfl
      | succ k => rw [levelPages, if_pos htwo]
    omega

theorem numPtPages_le_count (hn : 1 < n) : numPtPages c n ≤ vmwMobCalculatePtPages c n := by
  obtain ⟨k, rfl⟩ : ∃ k, n = k + 1 := ⟨n - 1, by omega⟩
  rw [calculatePtPages_levels, levelPages, if_neg (by omega)]
  omega

/-- The `BUG_ON` is reached exactly from more pages than two levels reach, and the pages of
    the table always suffice. -/
theorem ptSetup_isSome (data : ℕ → ℕ) (bo : PtBo) (hn : 1 < n)
    (hm : m.numPages = vmwMobCalculatePtPages c n) :
    (vmwMobPtSetup c data n bo m).isSome = true ↔ n ≤ c.slots ^ 2 := by
  have hfirst := numPtPages_le_count (c := c) hn
  simp only [vmwMobPtSetup, Option.isSome_map, hm]
  rw [ptSetupFrom, if_neg (by omega)]
  simp only [Nat.zero_add]
  rw [if_neg (by omega), ptSetupFrom]
  rw [← numPtPages_two (c := c)]
  by_cases hone : numPtPages c n ≤ 1
  · have htwo : numPtPages c (numPtPages c n) ≤ 1 := by
      rw [numPtPages_le_one]
      have := slots_pos c
      omega
    simp [hone, htwo]
  · rw [if_neg hone]
    by_cases htwo : numPtPages c (numPtPages c n) ≤ 1
    · have hcount := calculatePtPages_two hn (numPtPages_two.1 htwo)
      rw [if_neg hone] at hcount
      rw [if_neg (by omega), ptSetupFrom, if_pos htwo]
      simp [htwo]
    · split_ifs
      · simp [htwo]
      · unfold ptSetupFrom
        rw [if_neg htwo]
        simp [htwo]

end Counting

section Walking

def dmaPages (n : ℕ) (addr : ℕ → ℕ) : Prop := ∀ i < n, addr i % pageSize = 0 ∧ addr i < 2 ^ 64

theorem held_of_dmaPages {addr : ℕ → ℕ} (h64 : c.is64 = true) (h : dmaPages n addr) :
    Held c n addr := by
  intro i hi
  obtain ⟨hpage, hlt⟩ := h i hi
  refine ⟨hpage, ?_⟩
  unfold ppn Config.ppnSize
  rw [h64]
  apply Nat.mod_eq_of_lt
  exact (Nat.div_le_self _ _).trans_lt hlt

theorem ptSetup_entry (hn : 1 < n) (h : vmwMobPtSetup c data n bo m = some m') (p e : ℕ) :
    m'.ptBo.map (fun b => b.entry p e) = some (
      if e < c.slots ∧ p * c.slots + e < n then ppn c (data (p * c.slots + e))
      else if 1 < numPtPages c n ∧ p = numPtPages c n ∧ e < numPtPages c n then ppn c (bo.addr e)
      else bo.entry p e) := by
  have hpos := Nat.zero_lt_of_lt hn
  obtain ⟨-, hall, hkpos⟩ := numPtPages_bounds c hpos
  obtain ⟨entry, -, -, hbo, hcase⟩ := ptSetup_cases hn h
  rw [hbo, Option.map_some]
  congr 1
  rcases hcase with ⟨hone, -, -, -, rfl⟩ | ⟨hone, htwo, -, -, -, rfl⟩
  · simp only [buildPt_spec data 0 bo.entry hpos, Nat.sub_zero]
    rw [if_neg (by omega : ¬(1 < numPtPages c n ∧ _))]
    exact if_congr (by omega) rfl rfl
  · obtain ⟨-, hall', -⟩ := numPtPages_bounds c hkpos
    rw [htwo, Nat.one_mul] at hall'
    simp only [buildPt_spec bo.addr _ _ hkpos, buildPt_spec data 0 bo.entry hpos, Nat.sub_zero]
    by_cases hroot : numPtPages c n ≤ p
    · -- behind the pages of entries only the root is written
      have hbehind : n ≤ p * c.slots := hall.trans (Nat.mul_le_mul_right _ hroot)
      have hfirst : (p - numPtPages c n) * c.slots + e < numPtPages c n →
          p = numPtPages c n := by
        intro hlt
        by_contra hne
        have : 1 * c.slots ≤ (p - numPtPages c n) * c.slots :=
          Nat.mul_le_mul_right _ (by omega)
        omega
      rw [if_neg (by omega : ¬(_ ∧ p * c.slots + e < n)), if_neg (by omega : ¬(0 ≤ p ∧ _))]
      by_cases hp : p = numPtPages c n
      · subst hp
        simp only [Nat.sub_self, Nat.zero_mul, Nat.zero_add, le_refl, true_and]
        exact if_congr (by omega) rfl rfl
      · rw [if_neg (fun hin => hp (hfirst hin.2.2)), if_neg (fun hin => hp hin.2.1)]
    · rw [if_neg (by omega), if_neg (by omega : ¬(1 < numPtPages c n ∧ _))]
      exact if_congr (by omega) rfl rfl

theorem ptSetup_written (hn : 1 < n) (hmax : n ≤ c.slots ^ 2) :
    (∀ p < vmwMobCalculatePtPages c n, ∃ e v, ∀ entry m',
      vmwMobPtSetup c data n { bo with entry := entry } m = some m' →
        m'.ptBo.map (fun b => b.entry p e) = some v) ∧
    ∀ p, vmwMobCalculatePtPages c n ≤ p → ∀ e entry m',
      vmwMobPtSetup c data n { bo with entry := entry } m = some m' →
        m'.ptBo.map (fun b => b.entry p e) = some (entry p e) := by
  obtain ⟨hlast, hall, hkpos⟩ := numPtPages_bounds c (Nat.zero_lt_of_lt hn)
  have hslots := slots_pos c
  have hcount := calculatePtPages_two hn hmax
  refine ⟨fun p hp => ?_, fun p hp e entry m' h => ?_⟩
  · by_cases hdata : p < numPtPages c n
    · have hin : p * c.slots < n :=
        (Nat.mul_le_mul_right _ (by omega : p ≤ numPtPages c n - 1)).trans_lt hlast
      refine ⟨0, ppn c (data (p * c.slots)), fun entry m' h => ?_⟩
      rw [ptSetup_entry hn h, Nat.add_zero, if_pos ⟨hslots, hin⟩]
    · have htwo : ¬numPtPages c n ≤ 1 := by
        intro hone
        rw [if_pos hone] at hcount
        omega
      rw [if_neg htwo] at hcount
      obtain rfl : p = numPtPages c n := by omega
      refine ⟨0, ppn c (bo.addr 0), fun entry m' h => ?_⟩
      rw [ptSetup_entry hn h, if_neg (by omega), if_pos ⟨by omega, rfl, hkpos⟩]
  · have hbehind : n ≤ p * c.slots := hall.trans (Nat.mul_le_mul_right _ (by omega))
    have hroot : ¬(1 < numPtPages c n ∧ p = numPtPages c n ∧ e < numPtPages c n) := by
      rintro ⟨htwo, rfl, -⟩
      rw [if_neg (by omega)] at hcount
      omega
    rw [ptSetup_entry hn h, if_neg (by omega), if_neg hroot]

/-- With entries of 64 bits, a table for up to `2 ^ 18` pages leads from each page to its
    address, and takes the pages that were counted for it and no others. -/
theorem ptSetup_resolves (h64 : c.is64 = true) (hn : 2 ≤ n) (hmax : n ≤ 2 ^ 18)
    (hm : m.numPages = vmwMobCalculatePtPages c n) (hdata : dmaPages n data)
    (haddr : dmaPages (vmwMobCalculatePtPages c n) bo.addr)
    (hdistinct : distinctAddrs (vmwMobCalculatePtPages c n) bo.addr = true) :
    (∃ m' depth, vmwMobPtSetup c data n bo m = some m' ∧ m'.ptLevel = .ptDepth64 depth ∧
      ∀ i < n, (walk (tablePage c m') 512 depth (m'.ptRootPage / pageSize) i).map
        (· * pageSize) = some (data i)) ∧
    (∀ p < vmwMobCalculatePtPages c n, ∃ e v, ∀ entry m',
      vmwMobPtSetup c data n { bo with entry := entry } m = some m' →
        m'.ptBo.map (fun b => b.entry p e) = some v) ∧
    ∀ p, vmwMobCalculatePtPages c n ≤ p → ∀ e entry m',
      vmwMobPtSetup c data n { bo with entry := entry } m = some m' →
        m'.ptBo.map (fun b => b.entry p e) = some (entry p e) := by
  have hslots : c.slots = 512 := by
    unfold Config.slots Config.ppnSize
    rw [h64]
    rfl
  have hlevels : n ≤ c.slots ^ 2 := by
    rw [hslots]
    omega
  refine ⟨?_, ptSetup_written hn hlevels⟩
  obtain ⟨m', hsetup⟩ := Option.isSome_iff_exists.1
    ((ptSetup_isSome data bo hn hm).2 hlevels)
  have hfmt : ∀ depth, c.mobFmt depth = .ptDepth64 depth := by
    intro depth
    unfold Config.mobFmt
    rw [h64]
    rfl
  have hlevel : ∃ depth, m'.ptLevel = .ptDepth64 depth := by
    obtain ⟨_, -, -, -, ⟨-, -, hlevel, -⟩ | ⟨-, -, -, hlevel, -⟩⟩ := ptSetup_cases hn hsetup
    · exact ⟨1, by rw [hlevel, hfmt]⟩
    · exact ⟨2, by rw [hlevel, hfmt]⟩
  obtain ⟨depth, hlevel⟩ := hlevel
  rw [← hm] at haddr hdistinct
  have htranslates := Translates.ptSetup hn (held_of_dmaPages h64 hdata)
    (held_of_dmaPages h64 haddr) hdistinct hsetup
  refine ⟨m', depth, hsetup, hlevel, fun i hi => ?_⟩
  have hwalk := htranslates 0 0 i hi
  rw [hlevel, ← hfmt, translate_mobFmt, hslots] at hwalk
  rw [hwalk, Option.map_some, Nat.div_mul_cancel (Nat.dvd_of_mod_eq_zero (hdata i hi).1)]

/-- Pages at every second place, and those of a table in a row. -/
def secondPages (i : ℕ) : ℕ := 8192 * i

def rowBo : PtBo := ⟨fun k => 4096 * k, 0⟩

theorem dmaPages_second (hn : n ≤ 2 ^ 18) : dmaPages n secondPages := by
  intro i hi
  unfold secondPages pageSize
  omega

theorem dmaPages_row (hn : n ≤ 2 ^ 18) : dmaPages n rowBo.addr := by
  intro i hi
  unfold rowBo pageSize
  simp only
  omega

theorem distinctAddrs_row (n : ℕ) : distinctAddrs n rowBo.addr = true := by
  rw [distinctAddrs_iff]
  intro i _ j hj
  unfold rowBo
  simp only
  omega

/-- One page more than a level reaches. -/
theorem ptSetup_resolves_513 :
    ∃ m' depth, vmwMobPtSetup bindConfig secondPages 513 rowBo (vmwMobCreate bindConfig 513) =
        some m' ∧ m'.ptLevel = .ptDepth64 depth ∧
      ∀ i < 513, (walk (tablePage bindConfig m') 512 depth (m'.ptRootPage / pageSize) i).map
        (· * pageSize) = some (secondPages i) := by
  have hcount := calculatePtPages_two (c := bindConfig) (n := 513) (by decide) (by decide)
  have hlevel : numPtPages bindConfig 513 = 2 := by decide
  rw [hlevel] at hcount
  have hrow : vmwMobCalculatePtPages bindConfig 513 ≤ 2 ^ 18 := by
    rw [hcount]
    norm_num
  exact (ptSetup_resolves rfl (by norm_num) (by norm_num) (create_numPages bindConfig 513)
    (dmaPages_second (by norm_num)) (dmaPages_row hrow) (distinctAddrs_row _)).1

end Walking

section Sizes

/-- `ttm_bo_init` rounds a size up to whole pages. -/
def sizePages (size : ℕ) : ℕ := divRoundUp size pageSize

/-- However the calls inside end, the bind of any MOB created for the buffer ends, and the
    command that it emits tells the device `bytes` bytes. -/
def BindTells (c : Config) (s : TtmTt) (bytes : ℕ) : Prop :=
  ∀ o id m, m.numPages = vmwMobCalculatePtPages c s.numPages →
    ∃ r t, vmwMobBind c o id m s = some (r, t) ∧
      ∀ cmd, t.fifo = s.fifo ++ [.defineGbMob64 cmd] → cmd.sizeInBytes = bytes

/-- Two levels reach all pages, or the pages are in one region and need no table. -/
def levelsSuffice (c : Config) (s : TtmTt) : Prop :=
  s.numPages ≤ c.slots ^ 2 ∨ countRegions (dmaAddr c s) s.numPages 0 (2 ^ 64 - 1) = 1

theorem setTranslation_isSome (o : MobEnds) (addr : ℕ → ℕ) {numRegions : ℕ} (hn : n ≠ 0)
    (hm : m.numPages = vmwMobCalculatePtPages c n) (h : n ≤ c.slots ^ 2 ∨ numRegions = 1) :
    (∃ e, o.ptBo = .error e ∧ setTranslation c o addr numRegions n m = some (.error e)) ∨
      ∃ m' ptSetUp, setTranslation c o addr numRegions n m = some (.ok (m', ptSetUp)) := by
  unfold setTranslation
  split_ifs with hone hrange hnone
  · exact .inr ⟨_, _, rfl⟩
  · exact .inr ⟨_, _, rfl⟩
  · cases ho : o.ptBo with
    | error e => exact .inl ⟨e, rfl, rfl⟩
    | ok bo =>
      have hlevels : n ≤ c.slots ^ 2 := h.resolve_right hrange
      obtain ⟨m', hsetup⟩ := Option.isSome_iff_exists.1
        ((ptSetup_isSome addr bo (by omega) hm).2 hlevels)
      simp only [hsetup]
      exact .inr ⟨m', true, rfl⟩
  · exact .inr ⟨_, _, rfl⟩

theorem setTranslation_none (addr : ℕ → ℕ) (numRegions : ℕ) (space : Bool)
    (hm : m.numPages = vmwMobCalculatePtPages c n) (hbo : m.ptBo = none)
    (h : ¬(n ≤ c.slots ^ 2 ∨ numRegions = 1)) :
    setTranslation c ⟨.ok bo, space⟩ addr numRegions n m = none := by
  have hsquare := Nat.pow_pos (n := 2) (slots_pos c)
  have hstop := mt (ptSetup_isSome addr bo (by omega) hm).1
    fun hle => h (.inl hle)
  unfold setTranslation
  rw [if_neg (by omega), if_neg fun hr => h (.inr hr)]
  simpa [hbo] using hstop

theorem mobBind_size {o : MobEnds} {id : ℤ} {r : Option Errno} {cmd : DefineGbMob}
    (h : vmwMobBind c o id m s = some (r, t)) (hcmd : t.fifo = s.fifo ++ [.defineGbMob64 cmd]) :
    s.numPages ≠ 0 ∧ cmd.sizeInBytes = s.numPages * pageSize % 2 ^ 32 := by
  obtain rfl | ⟨hn, m', ptSetUp, -, rfl | rfl⟩ := mobBind_cases h
  · simp at hcmd
  · simp only [List.append_cancel_left_eq, List.cons.injEq, and_true,
      FifoCmd.defineGbMob64.injEq] at hcmd
    exact ⟨hn, by rw [← hcmd]⟩
  · simp at hcmd

theorem mobBind_stops {id : ℤ} (space : Bool)
    (hregions : s.numRegions = countRegions (dmaAddr c s) s.numPages 0 (2 ^ 64 - 1))
    (hm : m.numPages = vmwMobCalculatePtPages c s.numPages) (hbo : m.ptBo = none)
    (h : ¬levelsSuffice c s) : vmwMobBind c ⟨.ok bo, space⟩ id m s = none := by
  have hn : s.numPages ≠ 0 := fun hn => h (.inl (by rw [hn]; exact Nat.zero_le _))
  unfold levelsSuffice at h
  rw [← hregions] at h
  have hstop : setTranslation c ⟨.ok bo, space⟩ (dmaAddr c s) s.numRegions s.numPages
      { m with id := id } = none := setTranslation_none _ _ space hm hbo h
  unfold vmwMobBind
  simp only
  rw [if_neg hn, hstop]

/-- A buffer is told to the device, with a size of `bytes`, exactly if its levels suffice and
    the size is that of its pages, as 32 bits give it. -/
theorem bindTells_iff {bytes : ℕ}
    (hregions : s.numRegions = countRegions (dmaAddr c s) s.numPages 0 (2 ^ 64 - 1)) :
    BindTells c s bytes ↔ levelsSuffice c s ∧
      (s.numPages = 0 ∨ s.numPages * pageSize % 2 ^ 32 = bytes) := by
  have hreach : levelsSuffice c s → s.numPages ≤ c.slots ^ 2 ∨ s.numRegions = 1 := by
    rw [hregions]
    exact id
  constructor
  · intro h
    obtain ⟨r, t, hbind, hcmd⟩ := h ⟨.ok rowBo, true⟩ 0 (vmwMobCreate c s.numPages) rfl
    have hlevels : levelsSuffice c s := by
      by_contra hlevels
      rw [mobBind_stops true hregions rfl rfl hlevels] at hbind
      cases hbind
    unfold vmwMobBind at hbind
    simp only at hbind
    refine ⟨hlevels, ?_⟩
    by_cases hn : s.numPages = 0
    · exact .inl hn
    · rw [if_neg hn] at hbind
      right
      rcases setTranslation_isSome ⟨.ok rowBo, true⟩ (dmaAddr c s)
        (m := { vmwMobCreate c s.numPages with id := 0 }) hn rfl (hreach hlevels) with
        ⟨e, he, -⟩ | ⟨m', ptSetUp, hset⟩
      · cases he
      · rw [hset] at hbind
        cases hbind
        exact hcmd _ rfl
  · rintro ⟨hlevels, hbytes⟩ o id m hm
    suffices hends : ∃ r t, vmwMobBind c o id m s = some (r, t) by
      obtain ⟨r, t, hends⟩ := hends
      refine ⟨r, t, hends, fun cmd hcmd => ?_⟩
      obtain ⟨hn, hsize⟩ := mobBind_size hends hcmd
      exact hsize.trans (hbytes.resolve_left hn)
    unfold vmwMobBind
    simp only
    by_cases hn : s.numPages = 0
    · rw [if_pos hn]
      exact ⟨_, _, rfl⟩
    · rw [if_neg hn]
      rcases setTranslation_isSome o (dmaAddr c s) (m := { m with id := id }) hn hm
        (hreach hlevels) with ⟨e, -, hset⟩ | ⟨m', ptSetUp, hset⟩
      · rw [hset]
        exact ⟨_, _, rfl⟩
      · rw [hset]
        simp only
        by_cases hspace : o.space = true
        · rw [if_pos hspace]
          exact ⟨_, _, rfl⟩
        · rw [if_neg hspace]
          exact ⟨_, _, rfl⟩

def physConfig : Config := ⟨true, .phys, true, 32, 16⟩

/-- The mapping and the page table of a new buffer succeed. -/
def allEnds : BindEnds := ⟨⟨none, .ok 0, none⟩, true, ⟨.ok rowBo, true⟩⟩

/-- A buffer of `n` pages at every second place. -/
def scattered (n : ℕ) : TtmTt := (vmwTtmPopulate physConfig none none secondPages (create n)).2

def mappedScattered (n : ℕ) : TtmTt := (vmwTtmMapDma physConfig allEnds.map (scattered n)).2

theorem mappedScattered_pages (n : ℕ) : (mappedScattered n).numPages = n := rfl

theorem mappedScattered_regions (n : ℕ) :
    (mappedScattered n).numRegions = countRegions (dmaAddr physConfig (mappedScattered n))
      (mappedScattered n).numPages 0 (2 ^ 64 - 1) := rfl

theorem countRegions_second (n : ℕ) : 1 < countRegions secondPages (n + 2) 0 (2 ^ 64 - 1) := by
  have hfirst : secondPages 0 ≠ (2 ^ 64 - 1 + pageSize) % 2 ^ 64 := by decide
  have hsecond : secondPages 1 ≠ (secondPages 0 + pageSize) % 2 ^ 64 := by decide
  rw [countRegions, if_pos hfirst, countRegions, if_pos hsecond]
  omega

theorem scattered_regions {n : ℕ} (hn : 1 < n) :
    countRegions (dmaAddr physConfig (scattered n)) (scattered n).numPages 0 (2 ^ 64 - 1) ≠ 1 := by
  obtain ⟨k, rfl⟩ : ∃ k, n = k + 2 := ⟨n - 2, by omega⟩
  exact (countRegions_second k).ne'

theorem scattered_stops {n : ℕ} (hn : 512 ^ 2 < n) :
    vmwTtmBind physConfig allEnds .mob 7 (scattered n) = none := by
  have hlevels : ¬levelsSuffice physConfig (scattered n) := by
    have hslots : physConfig.slots = 512 := by decide
    unfold levelsSuffice
    rw [hslots]
    exact not_or.2 ⟨not_le.2 hn, scattered_regions (by omega)⟩
  exact mobBind_stops (m := vmwMobCreate physConfig n) true rfl rfl rfl hlevels

/-- For every size of a user buffer and every place of its pages: the bind tells the device
    the size exactly if the levels suffice and the size is one of whole pages, and it tells the
    size of the pages exactly if the levels suffice and that size fits 32 bits. -/
theorem userBo_told_iff {size : ℕ} (hsize : size < 2 ^ 32) (hpages : s.numPages = sizePages size)
    (hregions : s.numRegions = countRegions (dmaAddr c s) s.numPages 0 (2 ^ 64 - 1)) :
    (BindTells c s size ↔ levelsSuffice c s ∧ pageSize ∣ size) ∧
      (BindTells c s (s.numPages * pageSize) ↔
        levelsSuffice c s ∧ size ≤ 2 ^ 32 - pageSize) := by
  rw [bindTells_iff hregions, bindTells_iff hregions, hpages]
  unfold sizePages divRoundUp pageSize
  constructor
  · refine and_congr_right fun _ => ?_
    omega
  · refine and_congr_right fun _ => ?_
    omega

/-- A buffer of one GiB, however its pages are scattered. -/
theorem gib_told :
    BindTells physConfig (mappedScattered (sizePages (2 ^ 30))) (2 ^ 30) := by
  have hlevels : sizePages (2 ^ 30) ≤ physConfig.slots ^ 2 := by
    have hslots : physConfig.slots = 512 := by decide
    rw [hslots]
    norm_num [sizePages, divRoundUp, pageSize]
  have hpage : pageSize ∣ 2 ^ 30 := by norm_num [pageSize]
  exact (userBo_told_iff (by norm_num) (mappedScattered_pages _)
    (mappedScattered_regions _)).1.2 ⟨.inl hlevels, hpage⟩

/-- A buffer of 32-bit size whose bind reaches the `BUG_ON`. -/
theorem scattered_gib_stops :
    2 ^ 30 + 4096 < 2 ^ 32 ∧ (scattered (sizePages (2 ^ 30 + 4096))).state = .unbound ∧
      vmwTtmBind physConfig allEnds .mob 7 (scattered (sizePages (2 ^ 30 + 4096))) = none :=
  ⟨by norm_num, rfl, scattered_stops (by norm_num [sizePages, divRoundUp, pageSize])⟩

end Sizes

end Vmwgfx.TtmBuffer
