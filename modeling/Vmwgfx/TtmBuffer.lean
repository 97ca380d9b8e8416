import Vmwgfx.ExecbufState
import Vmwgfx.LabelledRuns
import Vmwgfx.RadixWalk

set_option autoImplicit false

/-!
# Buffers and their device addresses

`vmwgfx_ttm_buffer.c` and `vmwgfx_mob.c`: the pages of one buffer object, their DMA mapping,
and the page table through which the device reads them as a MOB. A `BUG_ON` and a write
behind the page table end a run: such a call has no result.
-/
namespace Vmwgfx.TtmBuffer
open ExecbufState (Errno)
open LabelledRuns RadixWalk

inductive MapMode where
  | phys
  | allocCoherent
  | mapPopulate
  | mapBind
  deriving DecidableEq, Repr

/-- The modes in which the pages are mapped through an sg table. -/
def MapMode.usesSg : MapMode → Bool
  | .mapPopulate | .mapBind => true
  | _ => false

/-- What is the same for all calls: `CONFIG_64BIT`, the map mode, the capability, and the
    rounded sizes of `struct scatterlist` and `struct sg_table`. -/
structure Config where
  is64 : Bool
  mode : MapMode
  capGmr2 : Bool
  sglSize : ℕ
  sgtSize : ℕ
  deriving DecidableEq, Repr

def pageSize : ℕ := 4096

def Config.ppnSize (c : Config) : ℕ := if c.is64 then 8 else 4

def Config.slots (c : Config) : ℕ := pageSize / c.ppnSize

/-- The DMA addresses that pages may have. Entries of 32 bits reach 44 bits of address; the
    last page of all is that of the invalid address. -/
def Config.addrLimit (c : Config) : ℕ := if c.is64 then 2 ^ 64 - pageSize else 2 ^ 44

inductive MobFormat where
  | ptDepth (depth : ℕ)
  | range
  | ptDepth64 (depth : ℕ)
  deriving DecidableEq, Repr

def Config.mobFmt (c : Config) (depth : ℕ) : MobFormat :=
  if c.is64 then .ptDepth64 depth else .ptDepth depth

/-- The buffer object of a page table: the DMA addresses of its pages, and the entries in
    them. -/
structure PtBo where
  addr : ℕ → ℕ
  entry : ℕ → ℕ → ℕ

/-- `struct vmw_mob`; `setFor` recalls the DMA addresses of the pages of the buffer when
    `pt_level` and `pt_root_page` were last set. -/
structure Mob where
  ptBo : Option PtBo
  numPages : ℕ
  ptLevel : MobFormat
  ptRootPage : ℕ
  id : ℤ
  setFor : ℕ → ℕ

inductive TtState where
  | unpopulated
  | unbound
  | bound
  deriving DecidableEq, Repr

inductive Placement where
  | gmr
  | mob
  deriving DecidableEq, Repr

structure DefineGbMob where
  mobid : ℤ
  ptDepth : MobFormat
  base : ℕ
  sizeInBytes : ℕ
  deriving DecidableEq, Repr

inductive FifoCmd where
  | defineGbMob64 (cmd : DefineGbMob)
  | destroyGbMob (mobid : ℤ)
  | remapGmr2 (gmrId : ℤ) (ppns : List ℕ)
  | defineGmr2 (gmrId : ℤ) (numPages : ℕ)
  deriving DecidableEq, Repr

/-- `struct vmw_ttm_tt`. `sgt` tells that `vsgt.sgt` is not NULL. The last fields count what
    is acquired less what is released: the memory charged for the sg table and for the
    coherent addresses, the sg tables and the DMA mappings. -/
structure TtmTt where
  numPages : ℕ
  state : TtState
  pageAddr : ℕ → ℕ
  sgAddr : ℕ → ℕ
  sgt : Bool
  numRegions : ℕ
  sgAllocSize : ℕ
  mapped : Bool
  gmrId : ℤ
  memType : Option Placement
  mob : Option Mob
  freed : Bool
  fifo : List FifoCmd
  fifoResources : ℤ
  sgCharge : ℤ
  addrCharge : ℤ
  sgTables : ℤ
  dmaMappings : ℤ

def create (numPages : ℕ) : TtmTt :=
  ⟨numPages, .unpopulated, 0, 0, false, 0, 0, false, 0, none, none, false, [], 0, 0, 0, 0, 0⟩

section Mapping
variable (c : Config)

/-- `vmw_piter_dma_addr` at page `i`. -/
def dmaAddr (s : TtmTt) : ℕ → ℕ := if c.mode.usesSg then s.sgAddr else s.pageAddr

def countRegions (addr : ℕ → ℕ) : ℕ → ℕ → ℕ → ℕ
  | 0, _, _ => 0
  | n + 1, i, old =>
    (if addr i ≠ (old + pageSize) % 2 ^ 64 then 1 else 0) + countRegions addr n (i + 1) (addr i)

/-- What the three steps of `vmw_ttm_map_dma` that may fail return: the memory accounting,
    the sg table with its number of entries, and the DMA mapping with the address of each
    page. -/
structure MapEnds where
  account : Option Errno
  table : Except Errno ℕ
  dmaMap : Option (ℕ → ℕ)

/-- The end of `vmw_ttm_map_dma`. -/
def markMapped (s : TtmTt) : TtmTt :=
  { s with
    numRegions := countRegions (dmaAddr c s) s.numPages 0 (2 ^ 64 - 1)
    mapped := true }

def mapSg (o : MapEnds) (s : TtmTt) : Option Errno × TtmTt :=
  let size := c.sgtSize + c.sglSize * s.numPages
  let t := { s with sgAllocSize := size }
  if o.account.isSome then (o.account, t)
  else
    let t := { t with sgCharge := t.sgCharge + size }
    match o.table with
    | .error e => (some e, { t with sgCharge := t.sgCharge - t.sgAllocSize })
    | .ok nents =>
      let excess := if nents < s.numPages then c.sglSize * (s.numPages - nents) else 0
      let t :=
        { t with
          sgTables := t.sgTables + 1
          sgCharge := t.sgCharge - excess
          sgAllocSize := t.sgAllocSize - excess }
      match o.dmaMap with
      | none =>
        (some .enomem,
          { t with
            sgTables := t.sgTables - 1
            sgt := false
            sgCharge := t.sgCharge - t.sgAllocSize })
      | some addr =>
        (none, markMapped c { t with dmaMappings := t.dmaMappings + 1, sgAddr := addr })

def vmwTtmMapDma (o : MapEnds) (s : TtmTt) : Option Errno × TtmTt :=
  if s.mapped then (none, s)
  else
    let t := { s with sgt := true }
    if c.mode.usesSg then mapSg c o t else (none, markMapped c t)

/-- `vmw_ttm_unmap_from_dma` and `sg_free_table` are counted, whatever there is to release. -/
def vmwTtmUnmapDma (s : TtmTt) : TtmTt :=
  if !s.sgt then s
  else
    let t :=
      if c.mode.usesSg then
        { s with
          dmaMappings := s.dmaMappings - 1
          sgTables := s.sgTables - 1
          sgt := false
          sgCharge := s.sgCharge - s.sgAllocSize }
      else s
    { t with mapped := false }

end Mapping

section Mobs
variable (c : Config)

def divRoundUp (a b : ℕ) : ℕ := (a + b - 1) / b

/-- The loop of `vmw_mob_calculate_pt_pages`; each pass makes the data smaller. -/
def calculatePtPages : ℕ → ℕ → ℕ → ℕ
  | 0, _, totSize => totSize / pageSize
  | left + 1, dataSize, totSize =>
    if dataSize ≤ pageSize then totSize / pageSize
    else
      let size := divRoundUp dataSize pageSize * c.ppnSize
      calculatePtPages left size (totSize + divRoundUp size pageSize * pageSize)

def vmwMobCalculatePtPages (dataPages : ℕ) : ℕ :=
  calculatePtPages c dataPages (dataPages * pageSize) 0

/-- What a new MOB recalls is of no account: it has no page table. -/
def vmwMobCreate (dataPages : ℕ) : Mob :=
  ⟨none, vmwMobCalculatePtPages c dataPages, .ptDepth 0, 0, 0, 0⟩

/-- `vmw_mob_assign_ppn`. -/
def ppn (addr : ℕ) : ℕ := addr / pageSize % 2 ^ (8 * c.ppnSize)

def setEntry (page slot v : ℕ) (entry : ℕ → ℕ → ℕ) : ℕ → ℕ → ℕ :=
  Function.update entry page (Function.update (entry page) slot v)

/-- The inner loop of `vmw_mob_build_pt` for one page: `left` slots from `slot` on, and
    `n` data pages from `i` on. -/
def fillPage (data : ℕ → ℕ) (page : ℕ) :
    ℕ → ℕ → ℕ → ℕ → (ℕ → ℕ → ℕ) → (ℕ → ℕ → ℕ) × ℕ × ℕ
  | 0, _, i, n, entry => (entry, i, n)
  | left + 1, slot, i, n, entry =>
    let entry := setEntry page slot (ppn c (data i)) entry
    if n - 1 = 0 then (entry, i, 0)
    else fillPage data page left (slot + 1) (i + 1) (n - 1) entry

def fillPages (data : ℕ → ℕ) : ℕ → ℕ → ℕ → ℕ → (ℕ → ℕ → ℕ) → ℕ → ℕ → ℕ
  | 0, _, _, _, entry => entry
  | left + 1, page, i, n, entry =>
    let r := fillPage c data page c.slots 0 i n entry
    fillPages data left (page + 1) r.2.1 r.2.2 r.1

def numPtPages (n : ℕ) : ℕ := divRoundUp (n * c.ppnSize) pageSize

def vmwMobBuildPt (data : ℕ → ℕ) (n page : ℕ) (entry : ℕ → ℕ → ℕ) : ℕ → ℕ → ℕ :=
  fillPages c data (numPtPages c n) page 0 n entry

/-- The loop of `vmw_mob_pt_setup`, with `left` levels before the `BUG_ON`; `pos` is the
    next page of the table and `saved` the first one of the last level. -/
def ptSetupFrom (mobPages : ℕ) (addr : ℕ → ℕ) :
    ℕ → (ℕ → ℕ) → ℕ → ℕ → ℕ → ℕ → (ℕ → ℕ → ℕ) → Option (ℕ × ℕ × (ℕ → ℕ → ℕ))
  | left, data, n, pos, saved, level, entry =>
    if n ≤ 1 then some (level, saved, entry)
    else
      match left with
      | 0 => none
      | left + 1 =>
        if mobPages < pos + numPtPages c n then none
        else
          ptSetupFrom mobPages addr left (fun j => addr (pos + j)) (numPtPages c n)
            (pos + numPtPages c n) pos (level + 1) (vmwMobBuildPt c data n pos entry)

/-- `vmw_mob_pt_setup`, with the level as `vmw_mob_bind` adjusts it. -/
def vmwMobPtSetup (data : ℕ → ℕ) (n : ℕ) (bo : PtBo) (m : Mob) : Option Mob :=
  (ptSetupFrom c m.numPages bo.addr 2 data n 0 0 0 bo.entry).map fun r =>
    { m with
      ptBo := some { bo with entry := r.2.2 }
      ptLevel := c.mobFmt r.1
      ptRootPage := bo.addr r.2.1
      setFor := data }

/-- What the calls inside `vmw_mob_bind` do: `ptBo` is the buffer that `vmw_mob_pt_populate`
    creates, if it succeeds. -/
structure MobEnds where
  ptBo : Except Errno PtBo
  space : Bool

/-- The part of `vmw_mob_bind` that finds the translation; the flag is `pt_set_up`. -/
def setTranslation (o : MobEnds) (addr : ℕ → ℕ) (numRegions n : ℕ) (m : Mob) :
    Option (Except Errno (Mob × Bool)) :=
  if n = 1 then
    some (.ok ({ m with ptLevel := c.mobFmt 0, ptRootPage := addr 0, setFor := addr }, false))
  else if numRegions = 1 then
    some (.ok ({ m with ptLevel := .range, ptRootPage := addr 0, setFor := addr }, false))
  else if m.ptBo.isNone then
    match o.ptBo with
    | .error e => some (.error e)
    | .ok bo => (vmwMobPtSetup c addr n bo m).map fun m => .ok (m, true)
  else some (.ok (m, false))

/-- The define command with its count as a FIFO resource. -/
def vmwMobBind (o : MobEnds) (mobId : ℤ) (m : Mob) (s : TtmTt) : Option (Option Errno × TtmTt) :=
  let m := { m with id := mobId }
  if s.numPages = 0 then some (none, { s with mob := some m })
  else
    match setTranslation c o (dmaAddr c s) s.numRegions s.numPages m with
    | none => none
    | some (.error e) => some (some e, { s with mob := some m })
    | some (.ok (m, ptSetUp)) =>
      if o.space then
        some (none,
          { s with
            mob := some m
            fifoResources := s.fifoResources + 1
            fifo := s.fifo ++ [.defineGbMob64
              ⟨mobId, m.ptLevel, m.ptRootPage / pageSize, s.numPages * pageSize % 2 ^ 32⟩] })
      else some (some .enomem, { s with mob := some (if ptSetUp then { m with ptBo := none } else m) })

def vmwMobUnbind (space : Bool) (m : Mob) (s : TtmTt) : TtmTt :=
  { s with
    fifo := if space then s.fifo ++ [.destroyGbMob m.id] else s.fifo
    fifoResources := s.fifoResources - 1 }

end Mobs

section Calls
variable (c : Config)

def vmwGmrBind (space : Bool) (gmrId : ℤ) (s : TtmTt) : Option Errno × TtmTt :=
  if s.numPages = 0 then (none, s)
  else if !c.capGmr2 then (some .einval, s)
  else if !space then (some .enomem, s)
  else (none, { s with fifo := s.fifo ++ [.remapGmr2 gmrId
    ((List.range s.numPages).map fun i => dmaAddr c s i / pageSize)] })

def vmwGmrUnbind (space : Bool) (gmrId : ℤ) (s : TtmTt) : TtmTt :=
  if c.capGmr2 && space then { s with fifo := s.fifo ++ [.defineGmr2 gmrId 0] } else s

structure BindEnds where
  map : MapEnds
  mobCreate : Bool
  mob : MobEnds

def vmwTtmBind (o : BindEnds) (memType : Placement) (start : ℤ) (s : TtmTt) :
    Option (Option Errno × TtmTt) :=
  match vmwTtmMapDma c o.map s with
  | (some e, t) => some (some e, t)
  | (none, t) =>
    let t := { t with gmrId := start, memType := some memType }
    match memType with
    | .gmr => some (vmwGmrBind c o.mob.space start t)
    | .mob =>
      match t.mob with
      | some m => vmwMobBind c o.mob start m t
      | none =>
        if o.mobCreate then vmwMobBind c o.mob start (vmwMobCreate c t.numPages) t
        else some (some .enomem, t)

/-- `vmw_ttm_unbind`; there is no result where a missing MOB is followed. -/
def vmwTtmUnbind (space : Bool) (s : TtmTt) : Option TtmTt :=
  let unbound :=
    match s.memType, s.mob with
    | some .gmr, _ => some (vmwGmrUnbind c space s.gmrId s)
    | some .mob, some m => some (vmwMobUnbind space m s)
    | _, _ => none
  unbound.map fun t => if c.mode = .mapBind then vmwTtmUnmapDma c t else t

def addrSize (s : TtmTt) : ℤ := s.numPages * 8

/-- `vmw_ttm_populate`. The pages get their addresses unless an error is returned. -/
def vmwTtmPopulate (account pages : Option Errno) (addr : ℕ → ℕ) (s : TtmTt) :
    Option Errno × TtmTt :=
  if s.state ≠ .unpopulated then (none, s)
  else if c.mode = .allocCoherent ∧ account.isSome then (account, s)
  else if pages.isSome then (pages, s)
  else
    (none,
      { s with
        state := .unbound
        pageAddr := addr
        addrCharge := if c.mode = .allocCoherent then s.addrCharge + addrSize s else s.addrCharge })

def vmwTtmUnpopulate (s : TtmTt) : TtmTt :=
  let t := vmwTtmUnmapDma c { s with mob := none }
  { t with
    state := .unpopulated
    addrCharge := if c.mode = .allocCoherent then t.addrCharge - addrSize t else t.addrCharge }

def vmwTtmDestroy (s : TtmTt) : TtmTt :=
  { vmwTtmUnmapDma c s with mob := none, freed := true }

/-- The addresses of mapped pages are those of whole pages, within the limit. -/
def pageAddrs (n : ℕ) (addr : ℕ → ℕ) : Bool :=
  (List.range n).all fun i => addr i % pageSize == 0 && addr i < c.addrLimit

def distinctAddrs (n : ℕ) (addr : ℕ → ℕ) : Bool :=
  (List.range n).all fun i => (List.range i).all fun j => addr i != addr j

def granted (n : ℕ) (o : MapEnds) : Bool :=
  match o.dmaMap with
  | none => true
  | some addr => pageAddrs c n addr

def grantedTable (s : TtmTt) (o : MobEnds) : Bool :=
  match o.ptBo with
  | .error _ => true
  | .ok bo =>
    let n := vmwMobCalculatePtPages c s.numPages
    pageAddrs c n bo.addr && distinctAddrs n bo.addr

inductive Op where
  | populate (account pages : Option Errno) (addr : ℕ → ℕ)
  | mapDma (o : MapEnds)
  | unmapDma
  | bind (o : BindEnds) (memType : Placement) (start : ℤ)
  | unbind (space : Bool)
  | unpopulate
  | destroy

/-- The calls in the order in which TTM makes them: pages are bound when they are populated
    and not bound, and unpopulated and destroyed when they are not bound. -/
def step (s : TtmTt) : Op → Option TtmTt
  | .populate account pages addr =>
    if !s.freed && pageAddrs c s.numPages addr then some (vmwTtmPopulate c account pages addr s).2
    else none
  | .mapDma o =>
    if !s.freed && s.state != .unpopulated && granted c s.numPages o then
      some (vmwTtmMapDma c o s).2
    else none
  | .unmapDma => if s.freed then none else some (vmwTtmUnmapDma c s)
  | .bind o memType start =>
    if !s.freed && s.state == .unbound && granted c s.numPages o.map && grantedTable c s o.mob then
      (vmwTtmBind c o memType start s).map fun r =>
        if r.1.isNone then { r.2 with state := .bound } else r.2
    else none
  | .unbind space =>
    if !s.freed && s.state == .bound then
      (vmwTtmUnbind c space s).map fun t => { t with state := .unbound }
    else none
  | .unpopulate =>
    if !s.freed && s.state == .unbound then some (vmwTtmUnpopulate c s) else none
  | .destroy => if !s.freed && s.state != .bound then some (vmwTtmDestroy c s) else none

end Calls

section Cases
variable {c : Config} {s t : TtmTt} {r : Option Errno}

/-- A bind to a MOB tells nothing and leaves the MOB as it is but for its number, or finds a
    translation, which it tells if there is space. -/
theorem mobBind_cases {o : MobEnds} {id : ℤ} {m : Mob}
    (h : vmwMobBind c o id m s = some (r, t)) :
    t = { s with mob := some { m with id := id } } ∨
    (s.numPages ≠ 0 ∧ ∃ m' ptSetUp,
      setTranslation c o (dmaAddr c s) s.numRegions s.numPages { m with id := id } =
        some (.ok (m', ptSetUp)) ∧
      (t = { s with
          mob := some m'
          fifoResources := s.fifoResources + 1
          fifo := s.fifo ++ [.defineGbMob64
            ⟨id, m'.ptLevel, m'.ptRootPage / pageSize, s.numPages * pageSize % 2 ^ 32⟩] } ∨
        t = { s with mob := some (if ptSetUp then { m' with ptBo := none } else m') })) := by
  unfold vmwMobBind at h
  simp only at h
  split_ifs at h with hn hspace
  · cases h
    exact .inl rfl
  · split at h
    · cases h
    · cases h
      exact .inl rfl
    · rename_i m' ptSetUp hset
      cases h
      exact .inr ⟨hn, m', ptSetUp, hset, .inl rfl⟩
  · split at h
    · cases h
    · cases h
      exact .inl rfl
    · rename_i m' ptSetUp hset
      cases h
      exact .inr ⟨hn, m', ptSetUp, hset, .inr rfl⟩

/-- A bind does not get past the mapping, or goes on to a GMR, or to the MOB of the buffer or a
    new one. -/
theorem ttmBind_cases {o : BindEnds} {p : Placement} {start : ℤ}
    (h : vmwTtmBind c o p start s = some (r, t)) :
    (∃ e, vmwTtmMapDma c o.map s = (some e, t)) ∨
    ∃ u, vmwTtmMapDma c o.map s = (none, u) ∧
      ((p = .gmr ∧
          t = (vmwGmrBind c o.mob.space start { u with gmrId := start, memType := some p }).2) ∨
        (p = .mob ∧ t = { u with gmrId := start, memType := some p }) ∨
        (p = .mob ∧ ∃ m, (u.mob = some m ∨ u.mob = none ∧ m = vmwMobCreate c u.numPages) ∧
          vmwMobBind c o.mob start m { u with gmrId := start, memType := some p } =
            some (r, t))) := by
  unfold vmwTtmBind at h
  generalize vmwTtmMapDma c o.map s = q at h
  obtain ⟨e, u⟩ := q
  cases e with
  | some e =>
    cases h
    exact .inl ⟨e, rfl⟩
  | none =>
    refine .inr ⟨u, rfl, ?_⟩
    cases p with
    | gmr =>
      simp only [Option.some.injEq] at h
      exact .inl ⟨rfl, (congrArg Prod.snd h).symm⟩
    | mob =>
      simp only at h
      split at h
      · rename_i m hm
        exact .inr (.inr ⟨rfl, m, .inl hm, h⟩)
      · rename_i hm
        split_ifs at h
        · exact .inr (.inr ⟨rfl, _, .inr ⟨hm, rfl⟩, h⟩)
        · cases h
          exact .inr (.inl ⟨rfl, rfl⟩)

end Cases

section Device
variable (c : Config)

def tablePage (m : Mob) (n : ℕ) : Option (ℕ → ℕ) :=
  m.ptBo.bind fun bo =>
    ((List.range m.numPages).find? fun k => ppn c (bo.addr k) = n).map bo.entry

def translate (mem : ℕ → Option (ℕ → ℕ)) (cmd : DefineGbMob) (i : ℕ) : Option ℕ :=
  match cmd.ptDepth with
  | .range => some (cmd.base + i)
  | .ptDepth depth | .ptDepth64 depth => walk mem c.slots depth cmd.base i

def deviceMemory (s : TtmTt) (n : ℕ) : Option (ℕ → ℕ) := s.mob.bind fun m => tablePage c m n

end Device

end Vmwgfx.TtmBuffer
