import Vmwgfx.ExecbufPlacement
import Vmwgfx.ExecbufRelocations

set_option autoImplicit false

/-!
# The two ways of submission

`vmw_execbuf_submit_fifo` copies the commands between the two kinds of relocations,
`vmw_execbuf_submit_cmdbuf` makes both in place. The memory of the submission context is
the bounce buffer in the first and the command buffer in the second.
-/
namespace Vmwgfx.ExecbufSubmit
open Word32 ByteStore ExecbufState ExecbufVerifier ExecbufPlacement

variable {σ : Type}

/-- An error code, the `BUG` for a buffer in system memory, a NULL resource and an error
    pointer that is written to. -/
inductive Fault where
  | errno (e : Errno)
  | bug
  | nullRes
  | errPtr
  deriving DecidableEq, Repr

def orFault {α : Type} (f : Fault) : Option α → Except Fault α
  | some a => .ok a
  | none => .error f

def memcpy (dst src : Memory) (n : ℕ) : Memory := fun a => if 0 ≤ a ∧ a < n then src a else dst a

def handed (m : Memory) (n : ℕ) : List UInt8 := (List.range n).map fun i : ℕ => m i

def vmwCmdbufInlineSize : ℕ := 960

/-- `header->size` after `vmw_cmdbuf_alloc`. -/
def vmwCmdbufAllocSize (size : ℕ) : ℕ :=
  if size ≤ vmwCmdbufInlineSize then vmwCmdbufInlineSize else (size + 4095) / 4096 * 4096

/-- The size of the command buffer; `none` is `-EINVAL`. -/
def vmwExecbufCmdbuf (commandSize : ℕ) : Option ℕ :=
  if ExecbufRelocations.svgaCbMaxSize < commandSize then none
  else some (vmwCmdbufAllocSize (min (commandSize + 512) ExecbufRelocations.svgaCbMaxSize))

def vmwCmdbufReserve (size headerSize : ℕ) : Except Fault Unit :=
  if headerSize < size then .error .errPtr else .ok ()

def freed (s : SwContext σ) (commands : Memory) : SwContext σ :=
  { s with mem := commands, boRelocations := [], resRelocations := [] }

variable (place : ℕ → Place) (resId : ℕ → ℕ)

/-- `space` is the memory that `vmw_fifo_reserve` gives. -/
def vmwExecbufSubmitFifo (space : Option Memory) (commandSize : ℕ) (s : SwContext σ) :
    Except Fault (List UInt8 × SwContext σ) := do
  let fifo ← orFault (.errno .enomem) space
  let commands ← orFault .bug (vmwApplyRelocations place s.boRelocations s.mem)
  let cmd ← orFault .nullRes (ExecbufRelocations.vmwResourceRelocationsApply resId
    s.resRelocations (memcpy fifo commands commandSize))
  pure (handed cmd commandSize, freed s commands)

def vmwExecbufSubmitCmdbuf (headerSize commandSize : ℕ) (s : SwContext σ) :
    Except Fault (List UInt8 × SwContext σ) := do
  vmwCmdbufReserve commandSize headerSize
  let commands ← orFault .bug (vmwApplyRelocations place s.boRelocations s.mem)
  let cmd ← orFault .nullRes (ExecbufRelocations.vmwResourceRelocationsApply resId
    s.resRelocations commands)
  pure (handed cmd commandSize, freed s cmd)

variable {place resId}

theorem le_vmwCmdbufAllocSize (size : ℕ) : size ≤ vmwCmdbufAllocSize size := by
  unfold vmwCmdbufAllocSize
  split_ifs with h
  · exact h
  · omega

theorem le_vmwExecbufCmdbuf {commandSize headerSize : ℕ}
    (h : vmwExecbufCmdbuf commandSize = some headerSize) : commandSize ≤ headerSize := by
  unfold vmwExecbufCmdbuf at h
  split_ifs at h with hmax
  rw [Option.some.injEq] at h
  have := le_vmwCmdbufAllocSize (min (commandSize + 512) ExecbufRelocations.svgaCbMaxSize)
  omega

section Agreement
variable {m m' : Memory} {S : Set ℤ} {n : ℤ}

theorem foldlM_rel {α β : Type} {R : α → α → Prop} {f : α → β → Option α}
    (hf : ∀ x a b, R a b → Option.Rel R (f a x) (f b x)) (l : List β) {a b : α} (h : R a b) :
    Option.Rel R (l.foldlM f a) (l.foldlM f b) := by
  induction l generalizing a b with
  | nil => exact .some h
  | cons x l ih =>
    rw [List.foldlM_cons, List.foldlM_cons]
    have := hf x a b h
    generalize f a x = u, f b x = v at this
    cases this with
    | none => exact .none
    | some huv => exact ih huv

theorem applyRelocation_rel (r : BoRelocation) (h : Set.EqOn m m' (Set.Iio n)) :
    Option.Rel (fun x y => Set.EqOn x y (Set.Iio n)) (applyRelocation place m r)
      (applyRelocation place m' r) := by
  unfold applyRelocation
  cases (place r.vbo).memType with
  | vram => exact .some (store_eqOn (store_add_eqOn h _ _) _ _)
  | gmr => exact .some (store_eqOn h _ _)
  | mob => exact .some (store_eqOn h _ _)
  | system => exact .none

variable (place) in
theorem vmwApplyRelocations_rel (rels : List BoRelocation) (h : Set.EqOn m m' (Set.Iio n)) :
    Option.Rel (fun x y => Set.EqOn x y (Set.Iio n)) (vmwApplyRelocations place rels m)
      (vmwApplyRelocations place rels m') :=
  foldlM_rel (fun r _ _ hab => applyRelocation_rel r hab) rels h

variable (resId) in
theorem applyResRelocation_rel (r : ResRelocation) (h : Set.EqOn m m' S) :
    Option.Rel (fun x y => Set.EqOn x y S) (ExecbufRelocations.applyRelocation resId r m)
      (ExecbufRelocations.applyRelocation resId r m') := by
  unfold ExecbufRelocations.applyRelocation
  cases r.relType with
  | normal =>
    cases r.res with
    | none => exact .none
    | some x => exact .some (store_eqOn h _ _)
  | nop => exact .some (store_eqOn h _ _)
  | condNop =>
    cases r.res with
    | none => exact .none
    | some x =>
      refine .some ?_
      dsimp only
      split_ifs
      · exact store_eqOn h _ _
      · exact h

variable (resId) in
theorem vmwResourceRelocationsApply_rel (rels : List ResRelocation) (h : Set.EqOn m m' S) :
    Option.Rel (fun x y => Set.EqOn x y S)
      (ExecbufRelocations.vmwResourceRelocationsApply resId rels m)
      (ExecbufRelocations.vmwResourceRelocationsApply resId rels m') := by
  induction rels generalizing m m' with
  | nil => exact .some h
  | cons r rels ih =>
    unfold ExecbufRelocations.vmwResourceRelocationsApply
    have := applyResRelocation_rel resId r h
    generalize ExecbufRelocations.applyRelocation resId r m = u,
      ExecbufRelocations.applyRelocation resId r m' = v at this
    cases this with
    | none => exact .none
    | some huv => exact ih huv

theorem memcpy_eqOn (fifo : Memory) {k : ℕ} (h : Set.EqOn m m' (Set.Iio (k : ℤ))) :
    Set.EqOn (memcpy fifo m k) m' (Set.Ico 0 k) := by
  intro a ha
  unfold memcpy
  rw [if_pos ⟨ha.1, ha.2⟩]
  exact h ha.2

theorem handed_congr {k : ℕ} (h : Set.EqOn m m' (Set.Ico 0 k)) : handed m k = handed m' k := by
  refine List.map_congr_left fun i hi => h ⟨Int.natCast_nonneg i, ?_⟩
  exact_mod_cast List.mem_range.1 hi

end Agreement

/-- For all lists of relocations, and so for those of every verified stream: the device is
    given the same bytes, or both ways end with the same fault. The two buffers may differ
    behind the stream. -/
theorem submitted_eq {commandSize headerSize : ℕ} (h : vmwExecbufCmdbuf commandSize = some headerSize)
    (s : SwContext σ) (fifo : Memory) {cmdbuf : Memory}
    (hmem : Set.EqOn s.mem cmdbuf (Set.Iio (commandSize : ℤ))) :
    (vmwExecbufSubmitFifo place resId (some fifo) commandSize s).map Prod.fst =
      (vmwExecbufSubmitCmdbuf place resId headerSize commandSize { s with mem := cmdbuf }).map
        Prod.fst := by
  have hreserve : vmwCmdbufReserve commandSize headerSize = .ok () :=
    if_neg (Nat.not_lt.2 (le_vmwExecbufCmdbuf h))
  unfold vmwExecbufSubmitFifo vmwExecbufSubmitCmdbuf
  rw [hreserve]
  have hbos := vmwApplyRelocations_rel place s.boRelocations hmem
  dsimp only
  generalize vmwApplyRelocations place s.boRelocations s.mem = u,
    vmwApplyRelocations place s.boRelocations cmdbuf = v at hbos
  cases hbos with
  | none => rfl
  | @some x y hxy =>
    have hres := vmwResourceRelocationsApply_rel resId s.resRelocations
      (memcpy_eqOn fifo hxy)
    change Except.map Prod.fst (Except.bind (orFault .nullRes
        (ExecbufRelocations.vmwResourceRelocationsApply resId s.resRelocations
          (memcpy fifo x commandSize))) fun cmd => .ok (handed cmd commandSize, freed s x)) =
      Except.map Prod.fst (Except.bind (orFault .nullRes
        (ExecbufRelocations.vmwResourceRelocationsApply resId s.resRelocations y))
          fun cmd => .ok (handed cmd commandSize, freed { s with mem := cmdbuf } cmd))
    generalize ExecbufRelocations.vmwResourceRelocationsApply resId s.resRelocations
        (memcpy fifo x commandSize) = a,
      ExecbufRelocations.vmwResourceRelocationsApply resId s.resRelocations y = b at hres
    cases hres with
    | none => rfl
    | some hab =>
      change Except.ok _ = Except.ok _
      rw [handed_congr hab]

section Sample

/-- A checked batch, with two more resource relocations that overlap the id at 8 and the
    pointer at 12. -/
def overlapping : SwContext Bool :=
  { checkedBatch with
    resRelocations := checkedBatch.resRelocations ++ [⟨some 3, 10, .normal⟩, ⟨none, 8, .nop⟩] }

theorem overlapping_eq :
    (vmwExecbufSubmitFifo (fun _ => ⟨.vram, 0, 4096⟩) id (some fun _ => 0) 16 overlapping).map
        Prod.fst =
      (vmwExecbufSubmitCmdbuf (fun _ => ⟨.vram, 0, 4096⟩) id 960 16
        { overlapping with mem := fun a => if a < 16 then overlapping.mem a else 255 }).map
          Prod.fst ∧
    (vmwExecbufSubmitFifo (fun _ => ⟨.vram, 0, 4096⟩) id (some fun _ => 0) 16
      overlapping).toOption.map Prod.fst =
        some [75, 4, 0, 0, 8, 0, 0, 0, 95, 4, 0, 0, 0, 0, 255, 255] := by
  refine ⟨submitted_eq (by decide) _ _ fun a ha => ?_, by decide +kernel⟩
  exact (if_pos ha).symm

end Sample

end Vmwgfx.ExecbufSubmit
