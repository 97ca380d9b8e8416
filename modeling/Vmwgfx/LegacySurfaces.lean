import Vmwgfx.ExecbufState
import Vmwgfx.LabelledRuns
import Vmwgfx.Word32

set_option autoImplicit false

/-!
# Legacy surfaces on the device

`vmwgfx_surface.c` for devices without guest-backed objects: a surface gets its id, its
share of the device memory and its count as a FIFO resource when it is created, and loses
them when it is evicted or released. Surfaces are numbered in the order in which they are
allocated, so that the commands of a surface that is freed keep their meaning.
-/
namespace Vmwgfx.LegacySurfaces
open ExecbufState (Errno)
open LabelledRuns Word32

/-- `struct vmw_surface`, as far as the accounting reads it. -/
structure Surface where
  id : ℤ
  backupSize : ℕ
  freed : Bool
  deriving DecidableEq, Repr

/-- The commands that define and destroy a surface; beside the id they carry the surface
    that sends them. -/
inductive FifoCmd where
  | define (srf : ℕ) (id : ℤ)
  | destroy (srf : ℕ) (id : ℤ)
  deriving DecidableEq, Repr

/-- `others` is what the other users of the FIFO have added to `num_fifo_resources`, and
    `owed` what each surface has. -/
structure SurfDev where
  next : ℕ
  surface : ℕ → Surface
  memorySize : ℕ
  usedMemorySize : ℕ
  numFifoResources : ℤ
  fifo : List FifoCmd
  others : ℤ
  owed : ℕ → ℤ

/-- `vmw_driver_load` with `resources` of other users. -/
def start (memorySize : ℕ) (resources : ℤ) : SurfDev :=
  ⟨0, fun _ => ⟨-1, 0, true⟩, memorySize, 0, resources, [], 0, 0⟩

def setSurface (i : ℕ) (v : Surface) (s : SurfDev) : SurfDev :=
  { s with surface := Function.update s.surface i v }

def svga3dMaxSurfaceIds : ℤ := 32 * 1024

def emit (cmd : FifoCmd) (s : SurfDev) : SurfDev := { s with fifo := s.fifo ++ [cmd] }

def vmwFifoResourceInc (i : ℕ) (s : SurfDev) : SurfDev :=
  { s with numFifoResources := s.numFifoResources + 1, owed := s.owed + Pi.single i 1 }

def vmwFifoResourceDec (i : ℕ) (s : SurfDev) : SurfDev :=
  { s with numFifoResources := s.numFifoResources - 1, owed := s.owed - Pi.single i 1 }

/-- `vmw_resource_alloc_id`, with what `idr_alloc` returns. -/
def vmwResourceAllocId (id : Except Errno ℤ) (i : ℕ) (s : SurfDev) : Option Errno × SurfDev :=
  match id with
  | .error e => (some e, s)
  | .ok n => (none, setSurface i { s.surface i with id := n } s)

def vmwResourceReleaseId (i : ℕ) (s : SurfDev) : SurfDev :=
  setSurface i { s.surface i with id := -1 } s

/-- The define commands and the accounting at the end of `vmw_legacy_srf_create`. -/
def defineSurface (i : ℕ) (s : SurfDev) : SurfDev :=
  let t := vmwFifoResourceInc i (emit (.define i (s.surface i).id) s)
  { t with usedMemorySize := addU32 t.usedMemorySize (s.surface i).backupSize }

/-- `space` tells that the FIFO reservation succeeds. -/
def vmwLegacySrfCreate (id : Except Errno ℤ) (space : Bool) (i : ℕ) (s : SurfDev) :
    Option Errno × SurfDev :=
  if (s.surface i).id ≠ -1 then (none, s)
  else if s.memorySize ≤ s.usedMemorySize + (s.surface i).backupSize then (some (.other 16), s)
  else
    match vmwResourceAllocId id i s with
    | (some e, t) => (some e, t)
    | (none, t) =>
      if svga3dMaxSurfaceIds ≤ (t.surface i).id then (some (.other 16), vmwResourceReleaseId i t)
      else if !space then (some .enomem, vmwResourceReleaseId i t)
      else (none, defineSurface i t)

/-- The destroy command with the memory that it gives back. -/
def destroySurface (i : ℕ) (s : SurfDev) : SurfDev :=
  let t := emit (.destroy i (s.surface i).id) s
  { t with usedMemorySize := subU32 t.usedMemorySize (s.surface i).backupSize }

def vmwLegacySrfDestroy (space : Bool) (i : ℕ) (s : SurfDev) : Option Errno × SurfDev :=
  if (s.surface i).id = -1 then (none, s)
  else if !space then (some .enomem, s)
  else (none, vmwFifoResourceDec i (vmwResourceReleaseId i (destroySurface i s)))

/-- The `hw_destroy` of a legacy surface. -/
def vmwHwSurfaceDestroy (space : Bool) (i : ℕ) (s : SurfDev) : SurfDev :=
  if (s.surface i).id ≠ -1 then
    if !space then s else destroySurface i s
  else s

/-- `vmw_resource_release`: the surface is freed with its id, however `hw_destroy` ends. -/
def vmwResourceRelease (space : Bool) (i : ℕ) (s : SurfDev) : SurfDev :=
  let t := vmwHwSurfaceDestroy space i s
  setSurface i { t.surface i with freed := true } t

inductive Op where
  /-- `vmw_surface_define_ioctl`. -/
  | new (backupSize : ℕ)
  | create (id : Except Errno ℤ) (space : Bool) (srf : ℕ)
  | evict (space : Bool) (srf : ℕ)
  | release (space : Bool) (srf : ℕ)
  /-- Another user of the FIFO adds or removes resources. -/
  | other (k : ℤ)

def live (s : SurfDev) (i : ℕ) : Bool := decide (i < s.next) && !(s.surface i).freed

/-- The ids that `idr_alloc` may return. -/
def idFree (s : SurfDev) : Except Errno ℤ → Bool
  | .error _ => true
  | .ok n => decide (1 ≤ n) && (List.range s.next).all fun j => !live s j || (s.surface j).id != n

def step (s : SurfDev) : Op → Option SurfDev
  | .new size =>
    if size < 2 ^ 32 then some { setSurface s.next ⟨-1, size, false⟩ s with next := s.next + 1 }
    else none
  | .create id space i =>
    if live s i && idFree s id then some (vmwLegacySrfCreate id space i s).2 else none
  | .evict space i => if live s i then some (vmwLegacySrfDestroy space i s).2 else none
  | .release space i => if live s i then some (vmwResourceRelease space i s) else none
  | .other k => some { s with numFifoResources := s.numFifoResources + k, others := s.others + k }

def applyCmd (d : Finset ℕ) : FifoCmd → Finset ℕ
  | .define i _ => insert i d
  | .destroy i _ => d.erase i

/-- The surfaces defined on the device: a define command was sent and no destroy command
    since. -/
def defined (s : SurfDev) : Finset ℕ := s.fifo.foldl applyCmd ∅

def memory (s : SurfDev) : ℕ := ∑ i ∈ defined s, (s.surface i).backupSize

/-- The last reference of a surface is dropped while the surface is defined, and the FIFO
    has space for its destroy command. -/
def releasesDefined (s : SurfDev) : Op → Bool
  | .release space i => space && (s.surface i).id != -1
  | _ => false

def evictsFirst (s : SurfDev) (a : Op) : Prop := releasesDefined s a = false

instance : ∀ s a, Decidable (evictsFirst s a) := fun s a => decEq (releasesDefined s a) false

structure Accounted (s : SurfDev) : Prop where
  used : s.usedMemorySize = memory s
  fits : s.usedMemorySize < 2 ^ 32
  live : ∀ i < s.next, (s.surface i).freed = false → ((s.surface i).id ≠ -1 ↔ i ∈ defined s)
  old : ∀ i ∈ defined s, i < s.next

structure Counted (resources : ℤ) (s : SurfDev) : Prop where
  owed : ∀ i, s.owed i = if i ∈ defined s then 1 else 0
  total : s.numFifoResources = resources + s.others + (defined s).card

variable {s t : SurfDev} {i : ℕ} {v : Surface} {space : Bool} {id : Except Errno ℤ} {n : ℤ}
  {cmd : FifoCmd}

section Equations

@[simp] theorem defined_emit : defined (emit cmd s) = applyCmd (defined s) cmd := by
  simp [defined, emit]

@[simp] theorem defined_setSurface : defined (setSurface i v s) = defined s := rfl

theorem memory_setSurface (hv : v.backupSize = (s.surface i).backupSize) :
    memory (setSurface i v s) = memory s := by
  unfold memory
  rw [defined_setSurface]
  apply Finset.sum_congr rfl
  intro j _
  by_cases hj : j = i
  · subst hj
    simp [setSurface, hv]
  · simp [setSurface, Function.update_of_ne hj]

theorem defined_define : defined (defineSurface i s) = insert i (defined s) := by
  change defined (emit (.define i (s.surface i).id) s) = _
  exact defined_emit

theorem defined_destroy : defined (destroySurface i s) = (defined s).erase i := by
  change defined (emit (.destroy i (s.surface i).id) s) = _
  exact defined_emit

theorem memory_define (hi : i ∉ defined s) :
    memory (defineSurface i s) = memory s + (s.surface i).backupSize := by
  have hsum : memory (defineSurface i s) = ∑ j ∈ insert i (defined s), (s.surface j).backupSize := by
    unfold memory
    rw [defined_define]
    rfl
  rw [hsum, Finset.sum_insert hi, memory, add_comm]

theorem memory_destroy (hi : i ∈ defined s) :
    memory (destroySurface i s) + (s.surface i).backupSize = memory s := by
  have hsum : memory (destroySurface i s) =
      ∑ j ∈ (defined s).erase i, (s.surface j).backupSize := by
    unfold memory
    rw [defined_destroy]
    rfl
  rw [hsum, memory, Finset.sum_erase_add _ _ hi]

end Equations

section Memory

theorem Accounted.setSurface (h : Accounted s) (hv : v.backupSize = (s.surface i).backupSize)
    (hlive : v.freed = false → (v.id ≠ -1 ↔ i ∈ defined s)) : Accounted (setSurface i v s) where
  used := h.used.trans (memory_setSurface hv).symm
  fits := h.fits
  live j hj hfree := by
    rw [defined_setSurface]
    by_cases hji : j = i
    · subst hji
      simp only [LegacySurfaces.setSurface, Function.update_self] at hfree ⊢
      exact hlive hfree
    · simp only [LegacySurfaces.setSurface, Function.update_of_ne hji] at hfree ⊢
      exact h.live j hj hfree
  old := h.old

theorem Accounted.define (h : Accounted s) (hi : i < s.next) (hout : i ∉ defined s)
    (hroom : s.usedMemorySize + (s.surface i).backupSize < 2 ^ 32)
    (hv : v.backupSize = (s.surface i).backupSize) (hid : v.id ≠ -1) :
    Accounted (defineSurface i (LegacySurfaces.setSurface i v s)) := by
  have hsize : ((LegacySurfaces.setSurface i v s).surface i).backupSize = (s.surface i).backupSize := by
    simp [LegacySurfaces.setSurface, hv]
  have hused : (defineSurface i (LegacySurfaces.setSurface i v s)).usedMemorySize =
      s.usedMemorySize + (s.surface i).backupSize := by
    rw [← addU32_of_lt hroom, ← hsize]
    rfl
  constructor
  · rw [hused, memory_define (s := LegacySurfaces.setSurface i v s) hout, memory_setSurface hv,
      hsize, h.used]
  · rw [hused]
    exact hroom
  · intro j hj hfree
    rw [defined_define, defined_setSurface, Finset.mem_insert]
    change (Function.update s.surface i v j).freed = false at hfree
    change (Function.update s.surface i v j).id ≠ -1 ↔ _
    by_cases hji : j = i
    · subst hji
      simp [hid]
    · rw [Function.update_of_ne hji] at hfree ⊢
      rw [h.live j hj hfree, or_iff_right hji]
  · intro j hj
    rw [defined_define, defined_setSurface, Finset.mem_insert] at hj
    exact hj.elim (fun he => he ▸ hi) (h.old j)

theorem Accounted.destroy (h : Accounted s) (hin : i ∈ defined s)
    (hv : v.backupSize = (s.surface i).backupSize) (hgone : v.freed = false → v.id = -1) :
    Accounted (LegacySurfaces.setSurface i v (destroySurface i s)) := by
  have hmem := memory_destroy hin
  have hused : (destroySurface i s).usedMemorySize = memory (destroySurface i s) := by
    change subU32 s.usedMemorySize (s.surface i).backupSize = _
    have hle : (s.surface i).backupSize ≤ s.usedMemorySize := by rw [h.used]; omega
    rw [subU32_of_le hle h.fits, h.used]
    omega
  have hset : memory (LegacySurfaces.setSurface i v (destroySurface i s)) =
      memory (destroySurface i s) := memory_setSurface hv
  constructor
  · exact hused.trans hset.symm
  · change (destroySurface i s).usedMemorySize < 2 ^ 32
    have := h.fits
    rw [h.used] at this
    omega
  · intro j hj hfree
    rw [defined_setSurface, defined_destroy, Finset.mem_erase]
    change (Function.update s.surface i _ j).freed = false at hfree
    change (Function.update s.surface i _ j).id ≠ -1 ↔ _
    by_cases hji : j = i
    · subst hji
      rw [Function.update_self] at hfree ⊢
      simp [hgone hfree]
    · rw [Function.update_of_ne hji] at hfree ⊢
      rw [h.live j hj hfree]
      simp [hji]
  · intro j hj
    rw [defined_setSurface, defined_destroy] at hj
    exact h.old j (Finset.mem_of_mem_erase hj)

end Memory

theorem releaseId_allocated (h : (s.surface i).id = -1) :
    vmwResourceReleaseId i (setSurface i { s.surface i with id := n } s) = s := by
  have hback : (⟨-1, (s.surface i).backupSize, (s.surface i).freed⟩ : Surface) = s.surface i := by
    rw [← h]
  simp only [vmwResourceReleaseId, setSurface, Function.update_self, Function.update_idem, hback,
    Function.update_eq_self]

theorem vmwLegacySrfCreate_cases (id : Except Errno ℤ) (space : Bool) (i : ℕ) (s : SurfDev) :
    (vmwLegacySrfCreate id space i s).2 = s ∨
    ∃ n, id = .ok n ∧ (s.surface i).id = -1 ∧
      s.usedMemorySize + (s.surface i).backupSize < s.memorySize ∧
      (vmwLegacySrfCreate id space i s).2 =
        defineSurface i (setSurface i { s.surface i with id := n } s) := by
  unfold vmwLegacySrfCreate
  by_cases hid : (s.surface i).id = -1
  · rw [if_neg (not_not.2 hid)]
    by_cases hbusy : s.memorySize ≤ s.usedMemorySize + (s.surface i).backupSize
    · rw [if_pos hbusy]
      exact .inl rfl
    · rw [if_neg hbusy]
      cases id with
      | error e => exact .inl rfl
      | ok n =>
        simp only [vmwResourceAllocId, releaseId_allocated hid]
        split_ifs
        · exact .inl rfl
        · exact .inl rfl
        · exact .inr ⟨n, rfl, hid, not_le.1 hbusy, rfl⟩
  · rw [if_pos hid]
    exact .inl rfl

theorem vmwLegacySrfDestroy_cases (space : Bool) (i : ℕ) (s : SurfDev) :
    (vmwLegacySrfDestroy space i s).2 = s ∨
    (s.surface i).id ≠ -1 ∧ (vmwLegacySrfDestroy space i s).2 =
      vmwFifoResourceDec i (setSurface i { s.surface i with id := -1 } (destroySurface i s)) := by
  unfold vmwLegacySrfDestroy
  split_ifs with hid hspace
  · exact .inl rfl
  · exact .inl rfl
  · exact .inr ⟨hid, rfl⟩

theorem vmwResourceRelease_cases (space : Bool) (i : ℕ) (s : SurfDev) :
    (space = false ∨ (s.surface i).id = -1) ∧
      vmwResourceRelease space i s = setSurface i { s.surface i with freed := true } s ∨
    (s.surface i).id ≠ -1 ∧ space = true ∧ vmwResourceRelease space i s =
      setSurface i { s.surface i with freed := true } (destroySurface i s) := by
  unfold vmwResourceRelease vmwHwSurfaceDestroy
  cases space
  · simp
  · by_cases hid : (s.surface i).id = -1
    · simp [hid]
    · refine .inr ⟨hid, rfl, ?_⟩
      simp only [ne_eq, hid, not_false_eq_true, if_true]
      rfl

theorem Counted.define {m : ℤ} (h : Counted m s) (hout : i ∉ defined s) :
    Counted m (defineSurface i (setSurface i v s)) := by
  have howed : (defineSurface i (setSurface i v s)).owed = s.owed + Pi.single i 1 := rfl
  constructor
  · intro j
    rw [howed, defined_define, defined_setSurface, Pi.add_apply, h.owed]
    by_cases hji : j = i
    · subst hji
      simp [hout]
    · simp [hji]
  · rw [defined_define, defined_setSurface, Finset.card_insert_of_notMem hout]
    change s.numFifoResources + 1 = m + s.others + _
    rw [h.total]
    push_cast
    ring

theorem Counted.evict {m : ℤ} (h : Counted m s) (hin : i ∈ defined s) :
    Counted m (vmwFifoResourceDec i (setSurface i v (destroySurface i s))) := by
  have hdefined : defined (vmwFifoResourceDec i (setSurface i v (destroySurface i s))) =
      (defined s).erase i := defined_destroy
  have howed : (vmwFifoResourceDec i (setSurface i v (destroySurface i s))).owed =
      s.owed - Pi.single i 1 := rfl
  constructor
  · intro j
    rw [howed, hdefined, Pi.sub_apply, h.owed]
    by_cases hji : j = i
    · subst hji
      simp [hin]
    · simp [hji]
  · have hcard := Finset.card_erase_add_one hin
    rw [hdefined]
    change s.numFifoResources - 1 = m + s.others + _
    rw [h.total, ← hcard]
    push_cast
    ring

theorem Counted.setSurface {m : ℤ} (h : Counted m s) : Counted m (setSurface i v s) :=
  ⟨h.owed, h.total⟩

theorem live_iff : live s i = true ↔ i < s.next ∧ (s.surface i).freed = false := by
  simp [live]

theorem Accounted.new (h : Accounted s) (size : ℕ) :
    Accounted { LegacySurfaces.setSurface s.next ⟨-1, size, false⟩ s with next := s.next + 1 } := by
  have hold : ∀ j < s.next, Function.update s.surface s.next ⟨-1, size, false⟩ j = s.surface j :=
    fun j hj => Function.update_of_ne hj.ne _ _
  constructor
  · refine h.used.trans ?_
    apply Finset.sum_congr rfl
    intro j hj
    exact congrArg Surface.backupSize (hold j (h.old j hj)).symm
  · exact h.fits
  · intro j hj hfree
    change (Function.update s.surface s.next _ j).id ≠ -1 ↔ j ∈ defined s
    rcases Nat.lt_succ_iff_lt_or_eq.1 hj with hlt | rfl
    · change (Function.update s.surface s.next _ j).freed = false at hfree
      rw [hold j hlt] at hfree ⊢
      exact h.live j hlt hfree
    · rw [Function.update_self]
      simp only [ne_eq, not_true_eq_false, false_iff]
      exact fun hmem => absurd (h.old _ hmem) (lt_irrefl _)
  · intro j hj
    exact (h.old j hj).trans (Nat.lt_succ_self _)

theorem Accounted.step (h : Accounted s) (hm : s.memorySize ≤ 2 ^ 32) {a : Op}
    (hs : step s a = some t) : Accounted t ∧ t.memorySize = s.memorySize := by
  cases a with
  | new size =>
    simp only [LegacySurfaces.step, Option.ite_none_right_eq_some, Option.some.injEq] at hs
    obtain ⟨-, rfl⟩ := hs
    exact ⟨h.new size, rfl⟩
  | create id space i =>
    simp only [LegacySurfaces.step, Option.ite_none_right_eq_some, Option.some.injEq,
      Bool.and_eq_true] at hs
    obtain ⟨⟨hlive, hfree⟩, rfl⟩ := hs
    obtain ⟨hlt, halive⟩ := live_iff.1 hlive
    rcases vmwLegacySrfCreate_cases id space i s with he | ⟨n, rfl, hid, hroom, he⟩
    · rw [he]
      exact ⟨h, rfl⟩
    · rw [he]
      have hout : i ∉ defined s := fun hmem => (h.live i hlt halive).2 hmem hid
      have hn : 1 ≤ n := by
        simp only [idFree, Bool.and_eq_true, decide_eq_true_eq] at hfree
        exact hfree.1
      exact ⟨h.define hlt hout (hroom.trans_le hm) rfl (by simpa using by omega), rfl⟩
  | evict space i =>
    simp only [LegacySurfaces.step, Option.ite_none_right_eq_some, Option.some.injEq] at hs
    obtain ⟨hlive, rfl⟩ := hs
    obtain ⟨hlt, halive⟩ := live_iff.1 hlive
    rcases vmwLegacySrfDestroy_cases space i s with he | ⟨hid, he⟩
    · rw [he]
      exact ⟨h, rfl⟩
    · rw [he]
      have hgone := h.destroy (v := { s.surface i with id := -1 })
        ((h.live i hlt halive).1 hid) rfl fun _ => rfl
      exact ⟨⟨hgone.used, hgone.fits, hgone.live, hgone.old⟩, rfl⟩
  | release space i =>
    simp only [LegacySurfaces.step, Option.ite_none_right_eq_some, Option.some.injEq] at hs
    obtain ⟨hlive, rfl⟩ := hs
    obtain ⟨hlt, halive⟩ := live_iff.1 hlive
    rcases vmwResourceRelease_cases space i s with ⟨-, he⟩ | ⟨hid, -, he⟩
    · rw [he]
      exact ⟨h.setSurface rfl fun hfreed => by simp at hfreed, rfl⟩
    · rw [he]
      exact ⟨h.destroy ((h.live i hlt halive).1 hid) rfl fun hfreed => by simp at hfreed, rfl⟩
  | other k =>
    simp only [LegacySurfaces.step, Option.some.injEq] at hs
    subst hs
    exact ⟨⟨h.used, h.fits, h.live, h.old⟩, rfl⟩

/-- The FIFO resources are right unless a defined surface is released with its destroy
    command. -/
theorem Counted.step {m : ℤ} (h : Counted m s) (ha : Accounted s) {a : Op} (hok : evictsFirst s a)
    (hs : step s a = some t) : Counted m t := by
  cases a with
  | new size =>
    simp only [LegacySurfaces.step, Option.ite_none_right_eq_some, Option.some.injEq] at hs
    obtain ⟨-, rfl⟩ := hs
    exact ⟨h.owed, h.total⟩
  | create id space i =>
    simp only [LegacySurfaces.step, Option.ite_none_right_eq_some, Option.some.injEq,
      Bool.and_eq_true] at hs
    obtain ⟨⟨hlive, -⟩, rfl⟩ := hs
    obtain ⟨hlt, halive⟩ := live_iff.1 hlive
    rcases vmwLegacySrfCreate_cases id space i s with he | ⟨n, -, hid, -, he⟩
    · rw [he]
      exact h
    · rw [he]
      exact h.define fun hmem => (ha.live i hlt halive).2 hmem hid
  | evict space i =>
    simp only [LegacySurfaces.step, Option.ite_none_right_eq_some, Option.some.injEq] at hs
    obtain ⟨hlive, rfl⟩ := hs
    obtain ⟨hlt, halive⟩ := live_iff.1 hlive
    rcases vmwLegacySrfDestroy_cases space i s with he | ⟨hid, he⟩
    · rw [he]
      exact h
    · rw [he]
      exact h.evict ((ha.live i hlt halive).1 hid)
  | release space i =>
    simp only [LegacySurfaces.step, Option.ite_none_right_eq_some, Option.some.injEq] at hs
    obtain ⟨-, rfl⟩ := hs
    rcases vmwResourceRelease_cases space i s with ⟨-, he⟩ | ⟨hid, hspace, -⟩
    · rw [he]
      exact h.setSurface
    · simp [evictsFirst, releasesDefined, hspace, hid] at hok
  | other k =>
    simp only [LegacySurfaces.step, Option.some.injEq] at hs
    subst hs
    refine ⟨h.owed, ?_⟩
    change s.numFifoResources + k = m + (s.others + k) + (defined s).card
    rw [h.total]
    ring

theorem release_leaks {m : ℤ} (h : Counted m s) (ha : Accounted s) (hlive : live s i = true)
    (hid : (s.surface i).id ≠ -1) :
    (vmwResourceRelease true i s).numFifoResources =
      m + s.others + (defined (vmwResourceRelease true i s)).card + 1 := by
  obtain ⟨hlt, halive⟩ := live_iff.1 hlive
  have hin : i ∈ defined s := (ha.live i hlt halive).1 hid
  rcases vmwResourceRelease_cases true i s with ⟨hnot, -⟩ | ⟨-, -, he⟩
  · simp [hid] at hnot
  · rw [he, defined_setSurface, defined_destroy]
    change s.numFifoResources = _
    rw [h.total, ← Finset.card_erase_add_one hin]
    push_cast
    ring

theorem accounted_start (memorySize : ℕ) (m : ℤ) : Accounted (start memorySize m) :=
  ⟨rfl, by simp [start], fun i hi => absurd hi (Nat.not_lt_zero i), by simp [defined, start]⟩

theorem counted_start (memorySize : ℕ) (m : ℤ) : Counted m (start memorySize m) :=
  ⟨by simp [defined, start], by simp [defined, start]⟩

/-- In every run the used memory is that of the defined surfaces; if every surface is evicted
    before its last reference is dropped, or its destroy command finds no space, each of them
    has exactly one FIFO resource, and both counters are back at their initial values when no
    surface is defined. -/
theorem evicting_runs_counted {memorySize : ℕ} (hm : memorySize < 2 ^ 32) {m : ℤ} {as : List Op}
    (h : Runs step evictsFirst (start memorySize m) as s) :
    (s.usedMemorySize = ∑ i ∈ defined s, (s.surface i).backupSize) ∧
    (∀ i, s.owed i = if i ∈ defined s then 1 else 0) ∧
    (s.numFifoResources = m + s.others + (defined s).card) ∧
    (defined s = ∅ → s.usedMemorySize = 0 ∧ s.numFifoResources = m + s.others) := by
  have hinv := h.invariant
    (fun u => Accounted u ∧ Counted m u ∧ u.memorySize = memorySize)
    ⟨accounted_start _ _, counted_start _ _, rfl⟩
    fun u a v ⟨ha, hc, hsize⟩ hok hs => by
      obtain ⟨ha', hsize'⟩ := ha.step (hsize ▸ hm.le) hs
      exact ⟨ha', hc.step ha hok hs, hsize'.trans hsize⟩
  obtain ⟨ha, hc, -⟩ := hinv
  refine ⟨ha.used, hc.owed, hc.total, fun hnone => ⟨?_, ?_⟩⟩
  · rw [ha.used, memory, hnone, Finset.sum_empty]
  · rw [hc.total, hnone, Finset.card_empty]
    ring

/-- A surface that is evicted, created again without space, and then released. -/
def evictedRun : List Op :=
  [.new 4096, .new 64, .create (.ok 1) true 0, .create (.ok 2) true 1, .evict true 0,
    .create (.ok 1) false 0, .release true 0]

theorem evictedRun_counted :
    let s := (execAdmitted step evictsFirst (start 65536 7) evictedRun).getD (start 65536 7)
    s.usedMemorySize = 64 ∧ s.numFifoResources = 8 := by
  intro s
  have hrun : Runs step evictsFirst (start 65536 7) evictedRun s := runs_admitted_getD (by decide)
  have hcounted := evicting_runs_counted (by decide) hrun
  have hdefined : defined s = {1} := by decide
  exact ⟨hcounted.1.trans (by rw [hdefined]; decide),
    hcounted.2.2.1.trans (by rw [hdefined]; decide)⟩

/-- A surface that is released while it is defined: its FIFO resource stays. -/
def releasedRun : List Op := [.new 4096, .create (.ok 1) true 0, .release true 0]

theorem releasedRun_leaks : ∃ s, Runs step anyLabel (start 65536 7) releasedRun s ∧
    defined s = ∅ ∧ s.owed 0 = 1 ∧ s.others = 0 ∧ s.numFifoResources = 8 :=
  ⟨(exec step (start 65536 7) releasedRun).getD (start 65536 7), runs_getD (by decide), by decide,
    by decide, by decide, by decide⟩

end Vmwgfx.LegacySurfaces
