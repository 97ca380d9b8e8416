import Vmwgfx.TtmBuffer

set_option autoImplicit false

/-!
# What the device reads through a MOB

The page table that `vmw_mob_pt_setup` builds leads from every page of the buffer to the
address that the page had then. It is kept over unbinding and binding again, while the
pages may get other addresses.
-/
namespace Vmwgfx.TtmBuffer
open ExecbufState (Errno)
open LabelledRuns RadixWalk

variable {c : Config} {s t : TtmTt} {m m' : Mob} {bo : PtBo} {data : ℕ → ℕ} {n : ℕ}

section Filling

theorem slots_cases (c : Config) :
    c.ppnSize = 8 ∧ c.slots = 512 ∧ c.addrLimit = 2 ^ 64 - 4096 ∨
    c.ppnSize = 4 ∧ c.slots = 1024 ∧ c.addrLimit = 2 ^ 44 := by
  unfold Config.slots Config.ppnSize Config.addrLimit
  cases c.is64 <;> simp [pageSize]

theorem slots_pos (c : Config) : 0 < c.slots := by
  rcases slots_cases c with ⟨-, h, -⟩ | ⟨-, h, -⟩ <;> omega

theorem fillPage_spec (data : ℕ → ℕ) (page left slot i : ℕ) (entry : ℕ → ℕ → ℕ) (hn : 0 < n) :
    (∀ p e, (fillPage c data page left slot i n entry).1 p e =
      if p = page ∧ slot ≤ e ∧ e < slot + min left n then ppn c (data (i + (e - slot)))
      else entry p e) ∧
    (left < n → (fillPage c data page left slot i n entry).2 = (i + left, n - left)) := by
  induction left generalizing slot i n entry with
  | zero =>
    refine ⟨fun p e => ?_, fun _ => rfl⟩
    rw [if_neg (by omega)]
    rfl
  | succ left ih =>
    have hset : ∀ p e, setEntry page slot (ppn c (data i)) entry p e =
        if p = page ∧ e = slot then ppn c (data i) else entry p e := by
      intro p e
      unfold setEntry
      by_cases hp : p = page
      · subst hp
        by_cases he : e = slot <;> simp [he]
      · simp [hp]
    unfold fillPage
    by_cases hlast : n - 1 = 0
    · simp only [hlast, if_true]
      refine ⟨fun p e => ?_, fun hlt => by omega⟩
      rw [hset]
      have hone : min (left + 1) n = 1 := by omega
      rw [hone]
      by_cases he : p = page ∧ e = slot
      · rw [if_pos he, if_pos (by omega), he.2, Nat.sub_self, Nat.add_zero]
      · rw [if_neg he, if_neg (by omega)]
    · simp only [hlast, if_false]
      obtain ⟨hentry, hrest⟩ := ih (slot + 1) (i + 1)
        (setEntry page slot (ppn c (data i)) entry) (n := n - 1) (by omega)
      refine ⟨fun p e => ?_, fun hlt => ?_⟩
      · rw [hentry, hset]
        by_cases he : p = page ∧ slot + 1 ≤ e ∧ e < slot + 1 + min left (n - 1)
        · rw [if_pos he, if_pos (by omega)]
          congr 2
          omega
        · rw [if_neg he]
          by_cases hfirst : p = page ∧ e = slot
          · rw [if_pos hfirst, if_pos (by omega), hfirst.2, Nat.sub_self, Nat.add_zero]
          · rw [if_neg hfirst, if_neg (by omega)]
      · rw [hrest (by omega)]
        congr 1 <;> omega

theorem fillPages_spec (data : ℕ → ℕ) (left page i : ℕ) (entry : ℕ → ℕ → ℕ)
    (hn : left ≠ 0 → (left - 1) * c.slots < n) (p e : ℕ) :
    fillPages c data left page i n entry p e =
      if page ≤ p ∧ p < page + left ∧ e < c.slots ∧ (p - page) * c.slots + e < n then
        ppn c (data (i + ((p - page) * c.slots + e)))
      else entry p e := by
  induction left generalizing page i n entry with
  | zero =>
    rw [if_neg (by omega)]
    rfl
  | succ left ih =>
    have hn : left * c.slots < n := by simpa using hn
    obtain ⟨hentry, hrest⟩ := fillPage_spec (c := c) data page c.slots 0 i entry
      (Nat.zero_lt_of_lt hn)
    unfold fillPages
    rcases Nat.eq_zero_or_pos left with rfl | hleft
    · simp only [fillPages]
      rw [hentry]
      by_cases hp : p = page
      · subst hp
        simp only [Nat.sub_self, Nat.zero_mul, Nat.zero_add, Nat.sub_zero, zero_le, true_and]
        exact if_congr (by omega) rfl rfl
      · rw [if_neg (by omega), if_neg (by omega)]
    · obtain ⟨k, rfl⟩ : ∃ k, left = k + 1 := ⟨left - 1, by omega⟩
      rw [Nat.succ_mul] at hn
      simp only
      rw [hrest (by omega), ih (page + 1) (i + c.slots) _ (fun _ => by simp only [Nat.add_sub_cancel]; omega),
        hentry]
      by_cases hp : page + 1 ≤ p
      · obtain ⟨d, rfl⟩ : ∃ d, p = page + 1 + d := ⟨p - (page + 1), by omega⟩
        have hd : page + 1 + d - page = d + 1 := by omega
        have hd' : page + 1 + d - (page + 1) = d := by omega
        rw [hd, hd', Nat.succ_mul]
        by_cases hin : d < k + 1 ∧ e < c.slots ∧ d * c.slots + e < n - c.slots
        · rw [if_pos (by omega), if_pos (by omega)]
          congr 2
          omega
        · rw [if_neg (by omega), if_neg (by omega), if_neg (by omega)]
      · rw [if_neg (by omega)]
        by_cases hpage : p = page
        · subst hpage
          simp only [Nat.sub_self, Nat.zero_mul, Nat.zero_add, Nat.sub_zero, zero_le, true_and]
          exact if_congr (by omega) rfl rfl
        · rw [if_neg (by omega), if_neg (by omega)]

theorem numPtPages_bounds (c : Config) (hn : 0 < n) :
    (numPtPages c n - 1) * c.slots < n ∧ n ≤ numPtPages c n * c.slots ∧ 0 < numPtPages c n := by
  unfold numPtPages divRoundUp pageSize
  rcases slots_cases c with ⟨h, h', -⟩ | ⟨h, h', -⟩ <;> rw [h, h'] <;> omega

theorem buildPt_spec (data : ℕ → ℕ) (page : ℕ) (entry : ℕ → ℕ → ℕ) (hn : 0 < n) (p e : ℕ) :
    vmwMobBuildPt c data n page entry p e =
      if page ≤ p ∧ e < c.slots ∧ (p - page) * c.slots + e < n then
        ppn c (data ((p - page) * c.slots + e))
      else entry p e := by
  obtain ⟨hlast, hall, -⟩ := numPtPages_bounds c hn
  unfold vmwMobBuildPt
  rw [fillPages_spec data _ page 0 entry (fun _ => hlast)]
  simp only [Nat.zero_add]
  refine if_congr ⟨fun h => ⟨h.1, h.2.2⟩, fun h => ⟨h.1, ?_, h.2⟩⟩ rfl rfl
  by_contra hout
  have hle : numPtPages c n * c.slots ≤ (p - page) * c.slots := Nat.mul_le_mul_right _ (by omega)
  omega

end Filling

section Device

/-- The translation that is set leads from every page to its address in `data`. -/
def Translates (c : Config) (n : ℕ) (m : Mob) (data : ℕ → ℕ) : Prop :=
  ∀ mobid size i, i < n →
    translate c (tablePage c m) ⟨mobid, m.ptLevel, m.ptRootPage / pageSize, size⟩ i =
      some (data i / pageSize)

theorem ppn_eq {a : ℕ} (h : a < c.addrLimit) : ppn c a = a / pageSize := by
  unfold ppn pageSize
  apply Nat.mod_eq_of_lt
  rcases slots_cases c with ⟨hs, -, hl⟩ | ⟨hs, -, hl⟩ <;> rw [hl] at h <;> rw [hs] <;> omega

theorem pageAddrs_iff {addr : ℕ → ℕ} :
    pageAddrs c n addr = true ↔ ∀ i < n, addr i % pageSize = 0 ∧ addr i < c.addrLimit := by
  simp [pageAddrs]

theorem distinctAddrs_iff {addr : ℕ → ℕ} :
    distinctAddrs n addr = true ↔ ∀ i < n, ∀ j < i, addr i ≠ addr j := by
  simp [distinctAddrs]

/-- Addresses of whole pages, each of which an entry can hold. -/
def Held (c : Config) (n : ℕ) (addr : ℕ → ℕ) : Prop :=
  ∀ i < n, addr i % pageSize = 0 ∧ ppn c (addr i) = addr i / pageSize

theorem held_of_pageAddrs {addr : ℕ → ℕ} (h : pageAddrs c n addr = true) : Held c n addr := by
  rw [pageAddrs_iff] at h
  exact fun i hi => ⟨(h i hi).1, ppn_eq (h i hi).2⟩

theorem tablePage_spec (haddr : Held c m.numPages bo.addr)
    (hdistinct : distinctAddrs m.numPages bo.addr = true) (hbo : m.ptBo = some bo) {k : ℕ}
    (hk : k < m.numPages) : tablePage c m (bo.addr k / pageSize) = some (bo.entry k) := by
  rw [distinctAddrs_iff] at hdistinct
  have hfind : ((List.range m.numPages).find? fun j => ppn c (bo.addr j) = bo.addr k / pageSize) =
      some k := by
    rw [List.find?_range_eq_some]
    refine ⟨by simp [(haddr k hk).2], List.mem_range.2 hk, fun j hj => ?_⟩
    have hne := hdistinct k hk j hj
    have hak := (haddr k hk).1
    have haj := (haddr j (hj.trans hk)).1
    simp only [(haddr j (hj.trans hk)).2, Bool.not_eq_true', decide_eq_false_iff_not]
    unfold pageSize at *
    omega
  unfold tablePage
  rw [hbo]
  simp only [Option.bind_some, hfind, Option.map_some]

/-- How `vmw_mob_pt_setup` ends: one page of entries, or a page that lists the pages of
    entries, which stands behind them. -/
theorem ptSetup_cases (hn : 1 < n) (h : vmwMobPtSetup c data n bo m = some m') :
    ∃ entry, m'.numPages = m.numPages ∧ m'.setFor = data ∧
      m'.ptBo = some { bo with entry := entry } ∧
      (numPtPages c n = 1 ∧ 1 ≤ m.numPages ∧ m'.ptLevel = c.mobFmt 1 ∧
        m'.ptRootPage = bo.addr 0 ∧ entry = vmwMobBuildPt c data n 0 bo.entry ∨
      1 < numPtPages c n ∧ numPtPages c (numPtPages c n) = 1 ∧
        numPtPages c n + 1 ≤ m.numPages ∧ m'.ptLevel = c.mobFmt 2 ∧
        m'.ptRootPage = bo.addr (numPtPages c n) ∧
        entry = vmwMobBuildPt c bo.addr (numPtPages c n) (numPtPages c n)
          (vmwMobBuildPt c data n 0 bo.entry)) := by
  obtain ⟨-, -, hpos⟩ := numPtPages_bounds c (Nat.zero_lt_of_lt hn)
  obtain ⟨-, -, hpos'⟩ := numPtPages_bounds c hpos
  simp only [vmwMobPtSetup, Option.map_eq_some_iff] at h
  obtain ⟨⟨level, saved, entry⟩, h, rfl⟩ := h
  refine ⟨entry, rfl, rfl, rfl, ?_⟩
  rw [ptSetupFrom, if_neg (by omega)] at h
  simp only [Option.ite_none_left_eq_some, Nat.zero_add] at h
  obtain ⟨hroom, h⟩ := h
  unfold ptSetupFrom at h
  by_cases hone : numPtPages c n ≤ 1
  · rw [if_pos hone] at h
    cases h
    exact .inl ⟨by omega, by omega, rfl, rfl, rfl⟩
  · rw [if_neg hone] at h
    simp only [Option.ite_none_left_eq_some] at h
    obtain ⟨hroom', h⟩ := h
    unfold ptSetupFrom at h
    by_cases htwo : numPtPages c (numPtPages c n) ≤ 1
    · rw [if_pos htwo] at h
      cases h
      exact .inr ⟨by omega, by omega, by omega, rfl, rfl, rfl⟩
    · rw [if_neg htwo] at h
      cases h

theorem translate_mobFmt (c : Config) (mem : ℕ → Option (ℕ → ℕ)) (mobid : ℤ) (depth root size i : ℕ) :
    translate c mem ⟨mobid, c.mobFmt depth, root, size⟩ i = walk mem c.slots depth root i := by
  unfold translate Config.mobFmt
  cases c.is64 <;> rfl

theorem Translates.ptSetup (hn : 1 < n) (hdata : Held c n data)
    (haddr : Held c m.numPages bo.addr)
    (hdistinct : distinctAddrs m.numPages bo.addr = true)
    (h : vmwMobPtSetup c data n bo m = some m') : Translates c n m' data := by
  intro mobid size i hi
  obtain ⟨entry, hpages, -, hbo, hcase⟩ := ptSetup_cases hn h
  have hpos := Nat.zero_lt_of_lt hn
  obtain ⟨-, hall, hkpos⟩ := numPtPages_bounds c hpos
  have hfound : ∀ k < m.numPages, tablePage c m' (bo.addr k / pageSize) = some (entry k) := fun k hk =>
    tablePage_spec (by rw [hpages]; exact haddr)
      (by rw [hpages]; exact hdistinct) hbo (by rw [hpages]; exact hk)
  rcases hcase with ⟨hk, hroom, hlevel, hroot, rfl⟩ | ⟨-, hk, hroom, hlevel, hroot, rfl⟩
  · rw [hlevel, hroot, translate_mobFmt]
    have hroot : Lists (tablePage c m') (bo.addr 0 / pageSize) (fun i => data i / pageSize) n := by
      refine ⟨_, hfound 0 hroom, fun j hj => ?_⟩
      rw [buildPt_spec data 0 bo.entry hpos, if_pos (by rw [hk] at hall; omega)]
      simpa using (hdata j hj).2
    exact walk_one hroot hi
  · obtain ⟨-, hall', -⟩ := numPtPages_bounds c hkpos
    rw [hk] at hall'
    rw [hlevel, hroot, translate_mobFmt]
    have hroot : Lists (tablePage c m') (bo.addr (numPtPages c n) / pageSize)
        (fun p => bo.addr p / pageSize) (numPtPages c n) := by
      refine ⟨_, hfound _ (by omega), fun p hp => ?_⟩
      rw [buildPt_spec bo.addr _ _ hkpos, if_pos (by rw [Nat.sub_self]; omega)]
      simpa using (haddr p (by omega)).2
    have hshare : ∀ p < numPtPages c n, Lists (tablePage c m') (bo.addr p / pageSize)
        (fun j => data (p * c.slots + j) / pageSize) (min c.slots (n - p * c.slots)) := by
      refine fun p hp => ⟨_, hfound p (by omega), fun j hj => ?_⟩
      rw [buildPt_spec bo.addr _ _ hkpos, if_neg (by omega), buildPt_spec data 0 bo.entry hpos,
        if_pos (by rw [Nat.sub_zero]; omega)]
      simpa using (hdata (p * c.slots + j) (by omega)).2
    exact walk_two (fun i => data i / pageSize) hroot hshare (slots_pos c) hi
      (Nat.div_lt_of_lt_mul (by rw [Nat.mul_comm]; omega))

theorem countRegions_eq_zero {addr : ℕ → ℕ} {i old : ℕ} (hold : old + pageSize < 2 ^ 64)
    (haddr : ∀ j < n, addr (i + j) + pageSize < 2 ^ 64) (h : countRegions addr n i old = 0) :
    ∀ j < n, addr (i + j) = old + (j + 1) * pageSize := by
  induction n generalizing i old with
  | zero => exact fun j hj => absurd hj (Nat.not_lt_zero j)
  | succ n ih =>
    simp only [countRegions, Nat.add_eq_zero_iff, ite_eq_right_iff, one_ne_zero, imp_false,
      not_not] at h
    obtain ⟨hfirst, hrest⟩ := h
    rw [Nat.mod_eq_of_lt hold] at hfirst
    have hlater := ih (i := i + 1) (haddr 0 n.succ_pos)
      (fun j hj => by rw [Nat.add_right_comm, Nat.add_assoc]; exact haddr (j + 1) (by omega)) hrest
    intro j hj
    cases j with
    | zero => simpa using hfirst
    | succ j =>
      have hj' := hlater j (by omega)
      rw [Nat.add_right_comm, Nat.add_assoc] at hj'
      rw [hj', Nat.add_zero, hfirst]
      ring

theorem countRegions_eq_one {addr : ℕ → ℕ} (haddr : pageAddrs c n addr = true)
    (h : countRegions addr n 0 (2 ^ 64 - 1) = 1) :
    ∀ i < n, addr i / pageSize = addr 0 / pageSize + i := by
  rw [pageAddrs_iff] at haddr
  have hlimit : c.addrLimit + pageSize ≤ 2 ^ 64 := by
    unfold pageSize
    rcases slots_cases c with ⟨-, -, hl⟩ | ⟨-, -, hl⟩ <;> omega
  cases n with
  | zero => exact fun i hi => absurd hi (Nat.not_lt_zero i)
  | succ n =>
    have hfirst : addr 0 ≠ (2 ^ 64 - 1 + pageSize) % 2 ^ 64 := by
      have := (haddr 0 n.succ_pos).1
      unfold pageSize at *
      omega
    rw [countRegions, if_pos hfirst, Nat.add_eq_left] at h
    have hnext := countRegions_eq_zero (by have := (haddr 0 n.succ_pos).2; omega)
      (fun j hj => by have := (haddr (0 + 1 + j) (by omega)).2; omega) h
    intro i hi
    cases i with
    | zero => rfl
    | succ i =>
      have hi' := hnext i (by omega)
      rw [Nat.zero_add, Nat.add_comm] at hi'
      rw [hi', Nat.add_mul_div_right _ _ (by decide)]

end Device

section Binding
variable {o : MobEnds} {addr : ℕ → ℕ} {numRegions : ℕ}

/-- What a MOB keeps: a table of its size that leads to the pages for which it was set. -/
structure TableSound (c : Config) (n : ℕ) (m : Mob) : Prop where
  size : m.numPages = vmwMobCalculatePtPages c n
  translates : m.ptBo.isSome = true → Translates c n m m.setFor
  addrs : m.ptBo.isSome = true → pageAddrs c n m.setFor = true

theorem tableSound_create (c : Config) (n : ℕ) : TableSound c n (vmwMobCreate c n) where
  size := rfl
  translates h := by cases h
  addrs h := by cases h

/-- Binding takes the level and the root from the last time they were set. -/
def keepsTable (m : Mob) (numRegions n : ℕ) : Bool := m.ptBo.isSome && n != 1 && numRegions != 1

theorem Translates.one (hlevel : m.ptLevel = c.mobFmt 0) (hroot : m.ptRootPage = data 0) :
    Translates c 1 m data := by
  intro mobid size i hi
  obtain rfl : i = 0 := by omega
  rw [hlevel, hroot, translate_mobFmt]
  rfl

theorem Translates.range (hlevel : m.ptLevel = .range) (hroot : m.ptRootPage = data 0)
    (hdata : pageAddrs c n data = true) (hone : countRegions data n 0 (2 ^ 64 - 1) = 1) :
    Translates c n m data := by
  intro mobid size i hi
  rw [hlevel, hroot, countRegions_eq_one hdata hone i hi]
  rfl

theorem setTranslation_spec {ptSetUp : Bool} (hn : n ≠ 0) (haddr : pageAddrs c n addr = true)
    (hregions : numRegions = countRegions addr n 0 (2 ^ 64 - 1)) (hm : TableSound c n m)
    (hbo : ∀ bo, o.ptBo = .ok bo → pageAddrs c m.numPages bo.addr = true ∧
      distinctAddrs m.numPages bo.addr = true)
    (h : setTranslation c o addr numRegions n m = some (.ok (m', ptSetUp))) :
    m'.numPages = m.numPages ∧ Translates c n m' m'.setFor ∧ pageAddrs c n m'.setFor = true ∧
      m'.setFor = if keepsTable m numRegions n then m.setFor else addr := by
  unfold setTranslation at h
  split_ifs at h with hone hrange hnone
  · cases h
    subst hone
    exact ⟨rfl, .one rfl rfl, haddr, by simp [keepsTable]⟩
  · cases h
    exact ⟨rfl, .range rfl rfl haddr (hregions.symm.trans hrange), haddr, by simp [keepsTable, hrange]⟩
  · cases hptBo : o.ptBo with
    | error e => simp [hptBo] at h
    | ok bo =>
      simp only [hptBo, Option.map_eq_some_iff, Except.ok.injEq, Prod.mk.injEq] at h
      obtain ⟨m'', hsetup, rfl, -⟩ := h
      obtain ⟨hbo, hdistinct⟩ := hbo bo hptBo
      have htranslates := Translates.ptSetup (by omega) (held_of_pageAddrs haddr)
        (held_of_pageAddrs hbo) hdistinct hsetup
      obtain ⟨entry, hpages, hdata, -⟩ := ptSetup_cases (by omega) hsetup
      have hkeep : keepsTable m numRegions n = false := by
        simp only [keepsTable, Bool.and_eq_false_iff]
        exact .inl (.inl (by simpa using hnone))
      rw [hdata, hkeep]
      exact ⟨hpages, htranslates, haddr, rfl⟩
  · cases h
    have hsome : m.ptBo.isSome = true := by simpa [Option.isSome_iff_ne_none] using hnone
    exact ⟨rfl, hm.translates hsome, hm.addrs hsome, by simp [keepsTable, hsome, hone, hrange]⟩

/-- Nothing about the pages and their addresses is changed. -/
structure SamePages (s t : TtmTt) : Prop where
  pages : t.numPages = s.numPages
  state : t.state = s.state
  pageAddr : t.pageAddr = s.pageAddr
  sgAddr : t.sgAddr = s.sgAddr
  sgt : t.sgt = s.sgt
  mapped : t.mapped = s.mapped
  regions : t.numRegions = s.numRegions

theorem SamePages.dmaAddr (h : SamePages s t) : dmaAddr c t = dmaAddr c s := by
  unfold TtmBuffer.dmaAddr
  rw [h.pageAddr, h.sgAddr]

/-- What a bind to a MOB leaves: no command, or the one of the MOB that the buffer has. -/
structure MobBound (c : Config) (n : ℕ) (m : Mob) (s t : TtmTt) : Prop where
  same : SamePages s t
  table : ∀ m', t.mob = some m' → TableSound c n m'
  defines : ∀ cmd, t.fifo = s.fifo ++ [.defineGbMob64 cmd] →
    ∃ m' id size, t.mob = some m' ∧ cmd = ⟨id, m'.ptLevel, m'.ptRootPage / pageSize, size⟩ ∧
      Translates c n m' m'.setFor ∧ pageAddrs c n m'.setFor = true ∧
      m'.setFor = if keepsTable m s.numRegions n then m.setFor else dmaAddr c s

theorem mobBind_spec {id : ℤ} {r : Option Errno} (hpages : s.numPages = n)
    (haddr : pageAddrs c n (dmaAddr c s) = true)
    (hregions : s.numRegions = countRegions (dmaAddr c s) n 0 (2 ^ 64 - 1)) (hm : TableSound c n m)
    (hgranted : grantedTable c s o = true) (h : vmwMobBind c o id m s = some (r, t)) :
    MobBound c n m s t := by
  subst hpages
  have hid : TableSound c s.numPages { m with id := id } := ⟨hm.size, hm.translates, hm.addrs⟩
  have hbo : ∀ bo, o.ptBo = .ok bo → pageAddrs c m.numPages bo.addr = true ∧
      distinctAddrs m.numPages bo.addr = true := by
    intro bo hbo
    simpa [grantedTable, hbo, hm.size] using hgranted
  obtain rfl | ⟨hn, m', ptSetUp, hset, ht⟩ := mobBind_cases h
  · exact ⟨⟨rfl, rfl, rfl, rfl, rfl, rfl, rfl⟩, fun m' hm' => by cases hm'; exact hid,
      fun cmd hcmd => by simp at hcmd⟩
  obtain ⟨hsize, htranslates, haddrs, hfor⟩ := setTranslation_spec hn haddr hregions hid hbo hset
  obtain rfl | rfl := ht
  · refine ⟨⟨rfl, rfl, rfl, rfl, rfl, rfl, rfl⟩, fun m'' hm'' => ?_, fun cmd hcmd => ?_⟩
    · cases hm''
      exact ⟨hsize.trans hm.size, fun _ => htranslates, fun _ => haddrs⟩
    · simp only [List.append_cancel_left_eq, List.cons.injEq, FifoCmd.defineGbMob64.injEq,
        and_true] at hcmd
      exact ⟨m', _, _, rfl, hcmd.symm, htranslates, haddrs, hfor⟩
  · refine ⟨⟨rfl, rfl, rfl, rfl, rfl, rfl, rfl⟩, fun m'' hm'' => ?_,
      fun cmd hcmd => by simp at hcmd⟩
    cases ptSetUp with
    | true =>
      cases hm''
      exact ⟨hsize.trans hm.size, (fun hsome => by cases hsome), fun hsome => by cases hsome⟩
    | false =>
      cases hm''
      exact ⟨hsize.trans hm.size, fun _ => htranslates, fun _ => haddrs⟩

end Binding

section Runs

/-- The address of each page after `vmw_ttm_map_dma`, if that succeeds. -/
def addrAtBind (c : Config) (o : MapEnds) (s : TtmTt) : ℕ → ℕ :=
  if c.mode.usesSg && !s.mapped then o.dmaMap.getD s.sgAddr else dmaAddr c s

structure Sound (c : Config) (n : ℕ) (s : TtmTt) : Prop where
  pages : s.numPages = n
  unmapped : s.state = .unpopulated → s.mapped = false
  populated : s.state ≠ .unpopulated → pageAddrs c n s.pageAddr = true
  sgt : s.mapped = true → s.sgt = true
  addrs : s.mapped = true → pageAddrs c n (dmaAddr c s) = true
  regions : s.mapped = true → s.numRegions = countRegions (dmaAddr c s) n 0 (2 ^ 64 - 1)
  table : ∀ m, s.mob = some m → TableSound c n m

theorem Sound.same (hs : Sound c n s) (h : SamePages s t)
    (htable : ∀ m, t.mob = some m → TableSound c n m) : Sound c n t where
  pages := h.pages.trans hs.pages
  unmapped := by rw [h.state, h.mapped]; exact hs.unmapped
  populated := by rw [h.state, h.pageAddr]; exact hs.populated
  sgt := by rw [h.mapped, h.sgt]; exact hs.sgt
  addrs := by rw [h.mapped, h.dmaAddr]; exact hs.addrs
  regions := by rw [h.mapped, h.regions, h.dmaAddr]; exact hs.regions
  table := htable

/-- How `vmw_ttm_map_dma` ends: with the pages as they were, or at addresses that are theirs
    from then on. -/
structure MapEnded (c : Config) (o : MapEnds) (s : TtmTt) (r : Option Errno × TtmTt) : Prop where
  pages : r.2.numPages = s.numPages
  state : r.2.state = s.state
  pageAddr : r.2.pageAddr = s.pageAddr
  mob : r.2.mob = s.mob
  fifo : r.2.fifo = s.fifo
  freed : r.2.freed = s.freed
  failed : r.1.isSome = true → r.2.mapped = false
  mapped : r.1 = none → r.2.mapped = true ∧ dmaAddr c r.2 = addrAtBind c o s
  granted : r.1 = none → s.mapped = true ∨ c.mode.usesSg = false ∨ o.dmaMap.isSome = true
  kept : s.mapped = true → r.2 = s
  sgt : s.mapped = false → r.2.mapped = true → r.2.sgt = true ∧
    r.2.numRegions = countRegions (dmaAddr c r.2) s.numPages 0 (2 ^ 64 - 1)

theorem mapEnded_mapSg {o : MapEnds} (hsg : c.mode.usesSg = true) (hnot : s.mapped = false) :
    MapEnded c o s (mapSg c o { s with sgt := true }) := by
  have hnew : s.mapped = true → False := fun h => by simp [hnot] at h
  unfold mapSg
  simp only
  split_ifs with haccount
  · have hfail : o.account = none → False := fun h => by simp [h] at haccount
    exact ⟨rfl, rfl, rfl, rfl, rfl, rfl, fun _ => hnot, fun h => (hfail h).elim,
      fun h => (hfail h).elim, fun h => (hnew h).elim, fun _ h => (hnew h).elim⟩
  · cases o.table with
    | error e =>
      exact ⟨rfl, rfl, rfl, rfl, rfl, rfl, fun _ => hnot, (fun h => by cases h),
        (fun h => by cases h), fun h => (hnew h).elim, fun _ h => (hnew h).elim⟩
    | ok nents =>
      cases hmap : o.dmaMap with
      | none =>
        exact ⟨rfl, rfl, rfl, rfl, rfl, rfl, fun _ => hnot, (fun h => by cases h),
          (fun h => by cases h), fun h => (hnew h).elim, fun _ h => (hnew h).elim⟩
      | some addr =>
        refine ⟨rfl, rfl, rfl, rfl, rfl, rfl, (fun h => by cases h), fun _ => ⟨rfl, ?_⟩,
          fun _ => .inr (.inr (by rw [hmap]; rfl)), fun h => (hnew h).elim, fun _ _ => ⟨rfl, ?_⟩⟩
        · simp [dmaAddr, addrAtBind, markMapped, hsg, hnot, hmap]
        · simp [dmaAddr, markMapped, hsg]

theorem mapEnded (c : Config) (o : MapEnds) (s : TtmTt) : MapEnded c o s (vmwTtmMapDma c o s) := by
  unfold vmwTtmMapDma
  by_cases hmapped : s.mapped = true
  · rw [if_pos hmapped]
    exact ⟨rfl, rfl, rfl, rfl, rfl, rfl, (fun h => by cases h),
      (fun _ => ⟨hmapped, by simp [addrAtBind, hmapped]⟩), (fun _ => .inl hmapped), fun _ => rfl,
      fun h => by simp [hmapped] at h⟩
  · rw [if_neg hmapped]
    have hnot : s.mapped = false := Bool.eq_false_iff.2 hmapped
    by_cases hsg : c.mode.usesSg = true
    · simp only [hsg, if_true]
      exact mapEnded_mapSg hsg hnot
    · simp only [hsg, Bool.false_eq_true, if_false]
      have hpages : c.mode.usesSg = false := Bool.eq_false_iff.2 hsg
      refine ⟨rfl, rfl, rfl, rfl, rfl, rfl, (fun h => by cases h), fun _ => ⟨rfl, ?_⟩,
        fun _ => .inr (.inl hpages), (fun h => by simp [hnot] at h), fun _ _ => ⟨rfl, ?_⟩⟩
      · simp [dmaAddr, addrAtBind, markMapped, hsg]
      · simp [dmaAddr, markMapped, hsg]

theorem pageAddrs_addrAtBind {o : MapEnds} (hs : Sound c n s) (hstate : s.state ≠ .unpopulated)
    (hgranted : granted c s.numPages o = true) (hend : s.mapped = true ∨ c.mode.usesSg = false ∨
      o.dmaMap.isSome = true) : pageAddrs c n (addrAtBind c o s) = true := by
  unfold addrAtBind
  split_ifs with hnew
  · simp only [Bool.and_eq_true, Bool.not_eq_true'] at hnew
    obtain ⟨addr, haddr⟩ : ∃ addr, o.dmaMap = some addr := by
      rw [hnew.1, hnew.2] at hend
      simpa [Option.isSome_iff_exists] using hend
    simpa [granted, haddr, hs.pages] using hgranted
  · by_cases hmapped : s.mapped = true
    · exact hs.addrs hmapped
    · have hsg : c.mode.usesSg = false := by simpa [hmapped] using hnew
      simpa [dmaAddr, hsg] using hs.populated hstate

theorem Sound.mapDma {o : MapEnds} (hs : Sound c n s) (hstate : s.state ≠ .unpopulated)
    (hgranted : granted c s.numPages o = true) : Sound c n (vmwTtmMapDma c o s).2 := by
  have hend := mapEnded c o s
  generalize vmwTtmMapDma c o s = r at hend ⊢
  by_cases hmapped : s.mapped = true
  · rw [hend.kept hmapped]
    exact hs
  · have hnot : s.mapped = false := Bool.eq_false_iff.2 hmapped
    refine ⟨hend.pages.trans hs.pages, fun h => absurd (hend.state.symm.trans h) hstate,
      fun _ => by rw [hend.pageAddr]; exact hs.populated hstate,
      fun h => (hend.sgt hnot h).1, fun h => ?_, fun h => ?_, ?_⟩
    · have hok : r.1 = none := by
        by_contra hfail
        rw [hend.failed (Option.isSome_iff_ne_none.2 hfail)] at h
        cases h
      rw [(hend.mapped hok).2]
      exact pageAddrs_addrAtBind hs hstate hgranted (hend.granted hok)
    · rw [(hend.sgt hnot h).2, hs.pages]
    · rw [hend.mob]
      exact hs.table

theorem Sound.unmapDma (hs : Sound c n s) : Sound c n (vmwTtmUnmapDma c s) ∧
    (vmwTtmUnmapDma c s).mapped = false ∧ (vmwTtmUnmapDma c s).fifo = s.fifo := by
  unfold vmwTtmUnmapDma
  cases hsgt : s.sgt with
  | false =>
    have hnot : s.mapped = false := by
      by_contra hm
      rw [hs.sgt (Bool.eq_true_of_not_eq_false hm)] at hsgt
      cases hsgt
    exact ⟨hs, hnot, rfl⟩
  | true =>
    rw [if_neg (by decide)]
    split_ifs
    all_goals
      exact ⟨⟨hs.pages, fun _ => rfl, hs.populated, (fun h => by cases h), (fun h => by cases h),
        (fun h => by cases h), hs.table⟩, rfl, rfl⟩

theorem unmapDma_state (c : Config) (s : TtmTt) : (vmwTtmUnmapDma c s).state = s.state := by
  unfold vmwTtmUnmapDma
  split_ifs <;> rfl

/-- The translation that a bind gives to the device: it is that of the addresses for which
    the MOB was last set, which are those of the bind unless a table is kept. -/
structure Defined (c : Config) (n : ℕ) (m : Mob) (addr : ℕ → ℕ) (cmd : DefineGbMob) (t : TtmTt) :
    Prop where
  dmaAddr : dmaAddr c t = addr
  addrs : pageAddrs c n addr = true
  set : ∃ data, pageAddrs c n data = true ∧
    data = (if keepsTable m (countRegions addr n 0 (2 ^ 64 - 1)) n then m.setFor else addr) ∧
    ∀ i < n, translate c (deviceMemory c t) cmd i = some (data i / pageSize)

theorem MobBound.defined {cmd : DefineGbMob} (h : MobBound c n m s t)
    (haddr : pageAddrs c n (TtmBuffer.dmaAddr c s) = true)
    (hregions : s.numRegions = countRegions (TtmBuffer.dmaAddr c s) n 0 (2 ^ 64 - 1))
    (hcmd : t.fifo = s.fifo ++ [.defineGbMob64 cmd]) :
    Defined c n m (TtmBuffer.dmaAddr c s) cmd t := by
  obtain ⟨m', id, size, hmob, rfl, htranslates, haddrs, hfor⟩ := h.defines cmd hcmd
  refine ⟨h.same.dmaAddr, haddr, m'.setFor, haddrs, by rw [hfor, hregions], fun i hi => ?_⟩
  have hmem : deviceMemory c t = tablePage c m' := by
    funext k
    simp [deviceMemory, hmob]
  rw [hmem]
  exact htranslates id size i hi

theorem fifo_same {l l' : List FifoCmd} {x : FifoCmd} (h : l = l') : l ≠ l' ++ [x] := by
  rw [h]
  simp

theorem gmrBind_spec (space : Bool) (id : ℤ) (s : TtmTt) :
    SamePages s (vmwGmrBind c space id s).2 ∧ (vmwGmrBind c space id s).2.mob = s.mob ∧
    ∀ cmd, (vmwGmrBind c space id s).2.fifo ≠ s.fifo ++ [.defineGbMob64 cmd] := by
  unfold vmwGmrBind
  split_ifs
  · exact ⟨⟨rfl, rfl, rfl, rfl, rfl, rfl, rfl⟩, rfl, fun _ => fifo_same rfl⟩
  · exact ⟨⟨rfl, rfl, rfl, rfl, rfl, rfl, rfl⟩, rfl, fun _ => fifo_same rfl⟩
  · exact ⟨⟨rfl, rfl, rfl, rfl, rfl, rfl, rfl⟩, rfl, fun _ => fifo_same rfl⟩
  · exact ⟨⟨rfl, rfl, rfl, rfl, rfl, rfl, rfl⟩, rfl, fun _ => by simp⟩

theorem Sound.bind {o : BindEnds} {p : Placement} {start : ℤ} {r : Option Errno}
    (hs : Sound c n s) (hstate : s.state = .unbound) (hgranted : granted c s.numPages o.map = true)
    (htable : grantedTable c s o.mob = true) (h : vmwTtmBind c o p start s = some (r, t)) :
    Sound c n t ∧ t.state = .unbound ∧
    ∀ cmd, t.fifo = s.fifo ++ [.defineGbMob64 cmd] →
      p = .mob ∧ ∃ m, (s.mob = some m ∨ s.mob = none ∧ m = vmwMobCreate c n) ∧
        Defined c n m (addrAtBind c o.map s) cmd t := by
  have hne : s.state ≠ .unpopulated := by rw [hstate]; decide
  have hmap := hs.mapDma hne hgranted
  have hend := mapEnded c o.map s
  obtain ⟨e, hu⟩ | ⟨u, hu, hrest⟩ := ttmBind_cases h
  · rw [hu] at hmap hend
    exact ⟨hmap, hend.state.trans hstate, fun cmd hcmd => absurd hcmd (fifo_same hend.fifo)⟩
  rw [hu] at hmap hend
  obtain ⟨hmapped, haddr⟩ := hend.mapped rfl
  set v : TtmTt := { u with gmrId := start, memType := some p }
  have hsame : SamePages u v := ⟨rfl, rfl, rfl, rfl, rfl, rfl, rfl⟩
  have hvs : Sound c n v := hmap.same hsame hmap.table
  have hvstate : v.state = .unbound := hend.state.trans hstate
  obtain ⟨-, rfl⟩ | ⟨-, rfl⟩ | ⟨hp, m, hm, hbind⟩ := hrest
  · obtain ⟨hpages, hmob, hfifo⟩ := gmrBind_spec (c := c) o.mob.space start v
    refine ⟨hvs.same hpages (by rw [hmob]; exact hvs.table), hpages.state.trans hvstate,
      fun cmd hcmd => absurd (hcmd.trans ?_) (hfifo cmd)⟩
    rw [← hend.fifo]
  · exact ⟨hvs, hvstate, fun cmd hcmd => absurd hcmd (fifo_same hend.fifo)⟩
  · have hmob : s.mob = some m ∨ s.mob = none ∧ m = vmwMobCreate c n := by
      rw [← hend.mob, ← hvs.pages]
      exact hm
    have hsound : TableSound c n m := by
      obtain hm | ⟨-, rfl⟩ := hmob
      · exact hs.table m hm
      · exact tableSound_create c n
    have hgrant : grantedTable c v o.mob = true := by
      simpa [grantedTable, hvs.pages, hs.pages] using htable
    have hspec := mobBind_spec hvs.pages (hvs.addrs hmapped) (hvs.regions hmapped) hsound hgrant
      hbind
    refine ⟨hvs.same hspec.same hspec.table, hspec.same.state.trans hvstate, fun cmd hcmd =>
      ⟨hp, m, hmob, ?_⟩⟩
    have hdefined := hspec.defined (hvs.addrs hmapped) (hvs.regions hmapped)
      (hcmd.trans (by rw [← hend.fifo]))
    rwa [hsame.dmaAddr, haddr] at hdefined

theorem Sound.unbind {space : Bool} (hs : Sound c n s) (h : vmwTtmUnbind c space s = some t) :
    Sound c n t ∧ t.state = s.state ∧ ∀ cmd, t.fifo ≠ s.fifo ++ [.defineGbMob64 cmd] := by
  unfold vmwTtmUnbind at h
  simp only [Option.map_eq_some_iff] at h
  obtain ⟨u, hu, rfl⟩ := h
  have hunbound : Sound c n u ∧ u.state = s.state ∧
      ∀ cmd, u.fifo ≠ s.fifo ++ [.defineGbMob64 cmd] := by
    split at hu
    · cases hu
      unfold vmwGmrUnbind
      split_ifs
      · exact ⟨hs.same ⟨rfl, rfl, rfl, rfl, rfl, rfl, rfl⟩ hs.table, rfl, fun _ => by simp⟩
      · exact ⟨hs, rfl, fun _ => fifo_same rfl⟩
    · cases hu
      refine ⟨hs.same ⟨rfl, rfl, rfl, rfl, rfl, rfl, rfl⟩ hs.table, rfl, fun _ => ?_⟩
      unfold vmwMobUnbind
      cases space <;> simp
    · cases hu
  split_ifs
  · obtain ⟨hsound, -, hfifo⟩ := hunbound.1.unmapDma
    exact ⟨hsound, (unmapDma_state c u).trans hunbound.2.1, fun cmd => by
      rw [hfifo]
      exact hunbound.2.2 cmd⟩
  · exact hunbound

theorem sound_create (c : Config) (n : ℕ) : Sound c n (create n) :=
  ⟨rfl, fun _ => rfl, fun h => absurd rfl h, (fun h => by cases h), (fun h => by cases h),
    (fun h => by cases h), fun m hm => by cases hm⟩

theorem Sound.step {a : Op} (hs : Sound c n s) (h : step c s a = some t) :
    Sound c n t ∧ ∀ cmd, t.fifo = s.fifo ++ [.defineGbMob64 cmd] →
      ∃ o start m, a = .bind o .mob start ∧ (s.mob = some m ∨ s.mob = none ∧ m = vmwMobCreate c n) ∧
        Defined c n m (addrAtBind c o.map s) cmd t := by
  cases a with
  | populate account pages addr =>
    simp only [TtmBuffer.step, Option.ite_none_right_eq_some, Option.some.injEq,
      Bool.and_eq_true] at h
    obtain ⟨⟨-, haddr⟩, rfl⟩ := h
    unfold vmwTtmPopulate
    split_ifs with hstate haccount hpages
    · exact ⟨hs, fun cmd hcmd => absurd hcmd (fifo_same rfl)⟩
    · exact ⟨hs, fun cmd hcmd => absurd hcmd (fifo_same rfl)⟩
    · exact ⟨hs, fun cmd hcmd => absurd hcmd (fifo_same rfl)⟩
    all_goals
      have hnot : s.mapped = false := hs.unmapped (not_not.1 hstate)
      refine ⟨⟨hs.pages, fun _ => hnot, fun _ => by rwa [hs.pages] at haddr, hs.sgt,
        (fun hm => ?_), (fun hm => ?_), hs.table⟩, fun cmd hcmd => absurd hcmd (fifo_same rfl)⟩
      all_goals
        rw [hnot] at hm
        cases hm
  | mapDma o =>
    simp only [TtmBuffer.step, Option.ite_none_right_eq_some, Option.some.injEq, Bool.and_eq_true,
      bne_iff_ne, ne_eq] at h
    obtain ⟨⟨⟨-, hstate⟩, hgranted⟩, rfl⟩ := h
    exact ⟨hs.mapDma hstate hgranted, fun cmd hcmd =>
      absurd hcmd (fifo_same (mapEnded c o s).fifo)⟩
  | unmapDma =>
    simp only [TtmBuffer.step, Option.ite_none_left_eq_some, Option.some.injEq] at h
    obtain ⟨-, rfl⟩ := h
    obtain ⟨hsound, -, hfifo⟩ := hs.unmapDma
    exact ⟨hsound, fun cmd hcmd => absurd hcmd (fifo_same hfifo)⟩
  | bind o p start =>
    simp only [TtmBuffer.step, Option.ite_none_right_eq_some, Option.map_eq_some_iff,
      Bool.and_eq_true, beq_iff_eq] at h
    obtain ⟨⟨⟨⟨-, hstate⟩, hgranted⟩, htable⟩, ⟨e, u⟩, hu, rfl⟩ := h
    obtain ⟨hsound, hunbound, hdefined⟩ := hs.bind hstate hgranted htable hu
    split_ifs
    · refine ⟨⟨hsound.pages, (fun hbound => by cases hbound), fun _ => hsound.populated ?_,
        hsound.sgt, hsound.addrs, hsound.regions, hsound.table⟩, fun cmd hcmd => ?_⟩
      · rw [hunbound]
        decide
      · obtain ⟨rfl, m, hm, hd⟩ := hdefined cmd hcmd
        exact ⟨o, start, m, rfl, hm, hd.dmaAddr, hd.addrs, hd.set⟩
    · refine ⟨hsound, fun cmd hcmd => ?_⟩
      obtain ⟨rfl, m, hm, hd⟩ := hdefined cmd hcmd
      exact ⟨o, start, m, rfl, hm, hd⟩
  | unbind space =>
    simp only [TtmBuffer.step, Option.ite_none_right_eq_some, Option.map_eq_some_iff,
      Bool.and_eq_true, beq_iff_eq] at h
    obtain ⟨⟨-, hstate⟩, u, hu, rfl⟩ := h
    obtain ⟨hsound, hkept, hfifo⟩ := hs.unbind hu
    have hne : u.state ≠ .unpopulated := by
      rw [hkept, hstate]
      decide
    exact ⟨⟨hsound.pages, (fun hbound => by cases hbound), fun _ => hsound.populated hne,
      hsound.sgt, hsound.addrs, hsound.regions, hsound.table⟩, fun cmd hcmd =>
      absurd hcmd (hfifo cmd)⟩
  | unpopulate =>
    simp only [TtmBuffer.step, Option.ite_none_right_eq_some, Option.some.injEq] at h
    obtain ⟨-, rfl⟩ := h
    have hmob : Sound c n { s with mob := none } :=
      hs.same ⟨rfl, rfl, rfl, rfl, rfl, rfl, rfl⟩ fun m hm => by cases hm
    obtain ⟨hsound, hnot, hfifo⟩ := hmob.unmapDma
    exact ⟨⟨hsound.pages, fun _ => hnot, fun h => absurd rfl h, hsound.sgt, hsound.addrs,
      hsound.regions, hsound.table⟩, fun cmd hcmd => absurd hcmd (fifo_same hfifo)⟩
  | destroy =>
    simp only [TtmBuffer.step, Option.ite_none_right_eq_some, Option.some.injEq] at h
    obtain ⟨-, rfl⟩ := h
    obtain ⟨hsound, -, hfifo⟩ := hs.unmapDma
    exact ⟨⟨hsound.pages, hsound.unmapped, hsound.populated, hsound.sgt, hsound.addrs,
      hsound.regions, fun m hm => by cases hm⟩, fun cmd hcmd => absurd hcmd (fifo_same hfifo)⟩

/-- A bind to a MOB that keeps a page table finds each page where it was when the MOB was
    last set. -/
def rebindsSame (c : Config) (s : TtmTt) : Op → Prop
  | .bind o .mob _ =>
    ∀ m ∈ s.mob,
      keepsTable m (countRegions (addrAtBind c o.map s) s.numPages 0 (2 ^ 64 - 1)) s.numPages = true →
        ∀ i < s.numPages, addrAtBind c o.map s i = m.setFor i
  | _ => True

/-- In a run, a define command lets the device translate each page to its address exactly if
    the bind does not keep the table of other addresses. -/
theorem defines_translate_iff {as : List Op} {a : Op} {cmd : DefineGbMob}
    (hrun : Runs (step c) anyLabel (create n) as s) (h : step c s a = some t)
    (hcmd : t.fifo = s.fifo ++ [.defineGbMob64 cmd]) :
    (∀ i < n, (translate c (deviceMemory c t) cmd i).map (· * pageSize) = some (dmaAddr c t i)) ↔
      rebindsSame c s a := by
  have hs : Sound c n s :=
    hrun.invariant (Sound c n) (sound_create c n) fun _ _ _ hu _ hstep => (hu.step hstep).1
  obtain ⟨o, start, m, rfl, hm, haddr, haddrs, data, hdata, hset, htranslate⟩ :=
    (hs.step h).2 cmd hcmd
  rw [pageAddrs_iff] at haddrs hdata
  have hsame : (∀ i < n, (translate c (deviceMemory c t) cmd i).map (· * pageSize) =
      some (dmaAddr c t i)) ↔ ∀ i < n, addrAtBind c o.map s i = data i := by
    rw [haddr]
    refine forall₂_congr fun i hi => ?_
    rw [htranslate i hi]
    simp only [Option.map_some, Option.some.injEq]
    rw [Nat.div_mul_cancel (Nat.dvd_of_mod_eq_zero (hdata i hi).1)]
    exact eq_comm
  rw [hsame]
  unfold rebindsSame
  simp only [hs.pages]
  by_cases hkeep :
      keepsTable m (countRegions (addrAtBind c o.map s) n 0 (2 ^ 64 - 1)) n = true
  · rw [if_pos hkeep] at hset
    rcases hm with hm | ⟨-, rfl⟩
    · subst hset
      refine ⟨fun hall m' hm' _ => ?_, fun hall => hall m hm hkeep⟩
      obtain rfl : m = m' := by simpa [hm] using hm'
      exact hall
    · simp [keepsTable, vmwMobCreate] at hkeep
  · rw [if_neg hkeep] at hset
    subst hset
    refine ⟨fun _ m' hm' hkeep' => ?_, fun _ _ _ => rfl⟩
    rcases hm with hm | ⟨hm, -⟩
    · obtain rfl : m = m' := by simpa [hm] using hm'
      exact absurd hkeep' hkeep
    · simp [hm] at hm'

def apart (a b : ℕ) : ℕ → ℕ := fun i => if i = 0 then a else b

/-- A bind whose steps all succeed, with the pages of the page table where it may need them. -/
def bindsAt (addr : ℕ → ℕ) : BindEnds :=
  ⟨⟨none, .ok 2, some addr⟩, true, ⟨.ok ⟨fun k => 0x100000 + 4096 * k, 0⟩, true⟩⟩

def bindConfig : Config := ⟨true, .mapBind, true, 32, 16⟩

/-- The pages are bound and unbound; when they are bound again they have other addresses,
    or the same. -/
def reboundRun (addr : ℕ → ℕ) : List Op :=
  [.populate none none fun i => 4096 * i, .bind (bindsAt addr) .mob 7, .unbind true]

def endOf (as : List Op) : TtmTt := (exec (step bindConfig) (create 2) as).getD (create 2)

/-- The state after binding at the addresses `addr`. -/
def boundAt (s : TtmTt) (addr : ℕ → ℕ) : TtmTt :=
  (step bindConfig s (.bind (bindsAt addr) .mob 7)).getD s

theorem step_boundAt {s : TtmTt} {addr : ℕ → ℕ}
    (h : (step bindConfig s (.bind (bindsAt addr) .mob 7)).isSome = true) :
    step bindConfig s (.bind (bindsAt addr) .mob 7) = some (boundAt s addr) := by
  obtain ⟨u, hu⟩ := Option.isSome_iff_exists.1 h
  rw [boundAt, hu]
  rfl

/-- The define command for two pages with a table of one page. -/
def definesTable : DefineGbMob := ⟨7, .ptDepth64 1, 0x100, 8192⟩

theorem reboundRun_translates :
    let s := endOf (reboundRun (apart 0x1000 0x5000))
    let t := boundAt s (apart 0x1000 0x5000)
    ∀ i < 2, (translate bindConfig (deviceMemory bindConfig t) definesTable i).map (· * pageSize) =
      some (dmaAddr bindConfig t i) := by
  intro s t
  have hrun : Runs (step bindConfig) anyLabel (create 2) (reboundRun (apart 0x1000 0x5000)) s :=
    runs_getD (by decide +kernel)
  have hsame : rebindsSame bindConfig s (.bind (bindsAt (apart 0x1000 0x5000)) .mob 7) := by
    unfold rebindsSame
    decide +kernel
  exact (defines_translate_iff hrun (step_boundAt (by decide +kernel)) (by decide +kernel)).2 hsame

/-- The device reads the pages at the addresses that they had before. -/
theorem reboundRun_stale :
    ∃ s t, Runs (step bindConfig) anyLabel (create 2) (reboundRun (apart 0x1000 0x5000)) s ∧
      step bindConfig s (.bind (bindsAt (apart 0x7000 0x3000)) .mob 7) = some t ∧
      t.fifo = s.fifo ++ [.defineGbMob64 definesTable] ∧
      (translate bindConfig (deviceMemory bindConfig t) definesTable 0).map (· * pageSize) =
        some 0x1000 ∧ dmaAddr bindConfig t 0 = 0x7000 :=
  ⟨endOf (reboundRun (apart 0x1000 0x5000)), boundAt _ (apart 0x7000 0x3000), runs_getD (by decide +kernel),
    step_boundAt (by decide +kernel), by decide +kernel, by decide +kernel, by decide +kernel⟩

end Runs

section Keeping

/-- A MOB stands only while there is a mapping, and its table is of the addresses in it. -/
def TableCurrent (c : Config) (s : TtmTt) : Prop :=
  ∀ m, s.mob = some m → s.mapped = true ∧ (m.ptBo.isSome = true → m.setFor = dmaAddr c s)

theorem setTranslation_setFor {o : MobEnds} {addr : ℕ → ℕ} {numRegions : ℕ} {ptSetUp : Bool}
    (h : setTranslation c o addr numRegions n m = some (.ok (m', ptSetUp))) :
    m'.setFor = addr ∨ m' = m := by
  unfold setTranslation at h
  split_ifs at h
  · cases h
    exact .inl rfl
  · cases h
    exact .inl rfl
  · cases hbo : o.ptBo with
    | error e => simp [hbo] at h
    | ok bo =>
      simp only [hbo, Option.map_eq_some_iff, Except.ok.injEq, Prod.mk.injEq, vmwMobPtSetup] at h
      obtain ⟨_, ⟨_, -, rfl⟩, rfl, -⟩ := h
      exact .inl rfl
  · cases h
    exact .inr rfl

theorem tableCurrent_mobBind {o : MobEnds} {id : ℤ} {r : Option Errno} (hmapped : s.mapped = true)
    (hm : m.ptBo.isSome = true → m.setFor = dmaAddr c s)
    (h : vmwMobBind c o id m s = some (r, t)) : TableCurrent c t := by
  obtain rfl | ⟨-, m', ptSetUp, hset, ht⟩ := mobBind_cases h
  · intro m' hm'
    cases hm'
    exact ⟨hmapped, hm⟩
  have hcurrent : m'.ptBo.isSome = true → m'.setFor = dmaAddr c s := by
    intro hsome
    rcases setTranslation_setFor hset with hfor | rfl
    · exact hfor
    · exact hm hsome
  obtain rfl | rfl := ht
  · intro m'' hm''
    cases hm''
    exact ⟨hmapped, hcurrent⟩
  · intro m'' hm''
    cases ptSetUp with
    | true =>
      cases hm''
      exact ⟨hmapped, fun hsome => by cases hsome⟩
    | false =>
      cases hm''
      exact ⟨hmapped, hcurrent⟩

theorem TableCurrent.mapDma (h : TableCurrent c s) (o : MapEnds) :
    TableCurrent c (vmwTtmMapDma c o s).2 := by
  have hend := mapEnded c o s
  by_cases hmapped : s.mapped = true
  · rw [hend.kept hmapped]
    exact h
  · intro m hm
    rw [hend.mob] at hm
    exact absurd (h m hm).1 hmapped

theorem TableCurrent.bind {o : BindEnds} {p : Placement} {start : ℤ} {r : Option Errno}
    (hs : TableCurrent c s) (h : vmwTtmBind c o p start s = some (r, t)) : TableCurrent c t := by
  have hmap := hs.mapDma o.map
  have hend := mapEnded c o.map s
  obtain ⟨e, hu⟩ | ⟨u, hu, hrest⟩ := ttmBind_cases h
  · rw [hu] at hmap
    exact hmap
  rw [hu] at hmap hend
  have hmapped : u.mapped = true := (hend.mapped rfl).1
  obtain ⟨-, ht⟩ | ⟨-, rfl⟩ | ⟨-, m, hm, hbind⟩ := hrest
  · obtain ⟨hpages, hmob, -⟩ :=
      gmrBind_spec (c := c) o.mob.space start { u with gmrId := start, memType := some p }
    rw [← ht] at hpages hmob
    intro m hm
    rw [hpages.mapped, hpages.dmaAddr]
    exact hmap m (hmob.symm.trans hm)
  · exact hmap
  · refine tableCurrent_mobBind (s := { u with gmrId := start, memType := some p }) hmapped ?_ hbind
    intro hsome
    obtain hm | ⟨-, rfl⟩ := hm
    · exact (hmap m hm).2 hsome
    · simp [vmwMobCreate] at hsome

theorem tableCurrent_unbind {space : Bool} (hmode : c.mode ≠ .mapBind) (hs : TableCurrent c s)
    (h : vmwTtmUnbind c space s = some t) : TableCurrent c t := by
  unfold vmwTtmUnbind at h
  simp only [Option.map_eq_some_iff, hmode, if_false] at h
  obtain ⟨u, hu, rfl⟩ := h
  split at hu
  · cases hu
    unfold vmwGmrUnbind
    split_ifs <;> exact hs
  · cases hu
    exact hs
  · cases hu

def keepsMapping (_ : TtmTt) : Op → Prop
  | .unmapDma => False
  | _ => True

theorem TableCurrent.step {a : Op} (hmode : c.mode ≠ .mapBind) (hsound : Sound c n s)
    (hs : TableCurrent c s) (hok : keepsMapping s a) (h : step c s a = some t) :
    TableCurrent c t := by
  cases a with
  | populate account pages addr =>
    simp only [TtmBuffer.step, Option.ite_none_right_eq_some, Option.some.injEq] at h
    obtain ⟨-, rfl⟩ := h
    unfold vmwTtmPopulate
    split_ifs with hstate
    · exact hs
    · exact hs
    · exact hs
    all_goals
      intro m hm
      have hmapped := (hs m hm).1
      rw [hsound.unmapped (not_not.1 hstate)] at hmapped
      cases hmapped
  | mapDma o =>
    simp only [TtmBuffer.step, Option.ite_none_right_eq_some, Option.some.injEq] at h
    obtain ⟨-, rfl⟩ := h
    exact hs.mapDma o
  | unmapDma => exact hok.elim
  | bind o p start =>
    simp only [TtmBuffer.step, Option.ite_none_right_eq_some, Option.map_eq_some_iff] at h
    obtain ⟨-, r, hr, rfl⟩ := h
    have hbound := hs.bind hr
    split_ifs <;> exact hbound
  | unbind space =>
    simp only [TtmBuffer.step, Option.ite_none_right_eq_some, Option.map_eq_some_iff] at h
    obtain ⟨-, u, hu, rfl⟩ := h
    have hunbound := tableCurrent_unbind hmode hs hu
    exact hunbound
  | unpopulate =>
    simp only [TtmBuffer.step, Option.ite_none_right_eq_some, Option.some.injEq] at h
    obtain ⟨-, rfl⟩ := h
    intro m hm
    simp only [vmwTtmUnpopulate, vmwTtmUnmapDma] at hm
    split_ifs at hm
  | destroy =>
    simp only [TtmBuffer.step, Option.ite_none_right_eq_some, Option.some.injEq] at h
    obtain ⟨-, rfl⟩ := h
    exact fun m hm => by cases hm

/-- Except in the mode that unmaps with each unbind, every bind finds the table of the
    addresses that the pages have. -/
theorem other_modes_rebind_same {as : List Op} (hmode : c.mode ≠ .mapBind)
    (hrun : Runs (step c) keepsMapping (create n) as s) (a : Op) : rebindsSame c s a := by
  have hs : Sound c n s ∧ TableCurrent c s :=
    hrun.invariant (fun u => Sound c n u ∧ TableCurrent c u)
      ⟨sound_create c n, fun m hm => by cases hm⟩ fun _ _ _ hu hok hstep =>
        ⟨(hu.1.step hstep).1, hu.2.step hmode hu.1 hok hstep⟩
  unfold rebindsSame
  split
  · intro m hm hkeep i hi
    obtain ⟨hmapped, hfor⟩ := hs.2 m hm
    simp only [keepsTable, Bool.and_eq_true] at hkeep
    rw [hfor hkeep.1.1, addrAtBind, hmapped, Bool.not_true, Bool.and_false]
    rfl
  · trivial

end Keeping

end Vmwgfx.TtmBuffer
