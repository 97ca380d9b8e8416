import Vmwgfx.ExecbufSafety

set_option autoImplicit false

/-!
# Buffer placement and the relocations of buffers

Between the check of the commands and `vmw_apply_relocations` the listed buffers are
reserved and validated. The buffer manager is a parameter; what is used of it is that a
successful `ttm_bo_validate` leaves the buffer in a wanted kind of memory, and that a
reserved buffer is moved by nobody else.
-/
namespace Vmwgfx.ExecbufPlacement
open Word32 ByteStore FailingState ExecbufState ExecbufVerifier ExecbufTrail ExecbufFlow
  ExecbufSafety

inductive MemType where
  | system
  | vram
  | gmr
  | mob
  deriving DecidableEq, Repr

/-- `bo->mem` and `bo->offset`. -/
structure Place where
  memType : MemType
  start : ℕ
  offset : ℕ
  deriving DecidableEq, Repr

inductive Placement where
  | mob
  | vramGmr
  | vram
  | nonfixed
  deriving DecidableEq, Repr

def Placement.allows : Placement → List MemType
  | .mob => [.mob]
  | .vramGmr => [.vram, .gmr]
  | .vram => [.vram]
  | .nonfixed => [.system, .gmr, .mob]

/-- The buffer manager, and the part of validation that concerns resources. -/
structure Ttm (τ : Type) where
  place : ℕ → τ → Place
  pinCount : ℕ → ℕ
  boValidate : Placement → ℕ → Run τ Errno Unit
  resValidate : Run τ Errno Unit

variable {σ τ : Type} {K : Kernel σ} {T : Ttm τ}

structure Ttm.Lawful (T : Ttm τ) (reserved : List ℕ) : Prop where
  placed : ∀ {p bo t u}, T.boValidate p bo t = (.ok (), u) → (T.place bo u).memType ∈ p.allows
  others : ∀ {p bo t b}, b ∈ reserved → b ≠ bo → T.place b (T.boValidate p bo t).2 = T.place b t
  resources : ∀ {t b}, b ∈ reserved → T.place b (T.resValidate t).2 = T.place b t

section Validation

variable (T)

def vmwValidationBoValidateSingle (bo : ℕ) (asMob : Bool) : Run τ Errno Unit := fun t =>
  if 0 < T.pinCount bo then (.ok (), t)
  else if asMob then T.boValidate .mob bo t
  else
    match T.boValidate .vramGmr bo t with
    | (.ok (), u) => (.ok (), u)
    | (.error .erestartsys, u) => (.error .erestartsys, u)
    -- no room: the previous contents of VRAM are evicted
    | (.error _, u) => T.boValidate .vram bo u

def validateNode (node : BoNode) : Run τ Errno Unit :=
  if node.cpuBlit then T.boValidate .nonfixed node.vbo
  else vmwValidationBoValidateSingle T node.vbo node.asMob

def vmwValidationBoValidate (nodes : List BoNode) : Run τ Errno Unit :=
  forEach (validateNode T) nodes

/-- The two steps of validation in `vmw_execbuf_process`. -/
def validateAll (nodes : List BoNode) : Run τ Errno Unit := do
  vmwValidationBoValidate T nodes
  T.resValidate

end Validation

section Reservation

/-- `vmw_resource_reserve`, with the backup buffer that the resource then has and whether
    it needs one. -/
def reserveResource (K : Kernel σ) (reserve : ℕ → Op σ (Option (ℕ × Bool))) (res : ℕ) :
    Check σ Unit := do
  match ← call (reserve res) with
  | some backup => vmwValidationAddBo K backup.1 backup.2 false
  | none => pure ()

def vmwValidationResReserve (K : Kernel σ) (reserve : ℕ → Op σ (Option (ℕ × Bool)))
    (resources : List ℕ) : Check σ Unit :=
  forEach (reserveResource K reserve) resources

def vmwResourcesReserve (K : Kernel σ) (reserve : ℕ → Op σ (Option (ℕ × Bool)))
    (resources : List ℕ) : Check σ Unit := do
  vmwValidationResReserve K reserve resources
  let s ← current
  let expected := s.dxQueryCtx.bind fun ctx => K.contextGetDxQueryMob ctx s.rest
  require (s.dxQueryMob.isNone || expected.isNone || expected == s.dxQueryMob) (.errno .einval)

end Reservation

section Application

def svgaGmrFramebuffer : ℕ := 2 ^ 32 - 2

/-- The kind of pointer is taken from where the buffer is now; system memory is a `BUG`. -/
def applyRelocation (place : ℕ → Place) (m : Memory) (r : BoRelocation) : Option Memory :=
  match (place r.vbo).memType with
  | .vram =>
    let moved := store m (r.location + 4) (addU32 (word m (r.location + 4)) (place r.vbo).offset)
    some (store moved r.location svgaGmrFramebuffer)
  | .gmr => some (store m r.location (place r.vbo).start)
  | .mob => some (store m r.location (place r.vbo).start)
  | .system => none

def vmwApplyRelocations (place : ℕ → Place) (rels : List BoRelocation) (m : Memory) :
    Option Memory :=
  rels.foldlM (applyRelocation place) m

/-- The bytes of the field: an id of a MOB, or a pointer with its two words. -/
def covers (r : BoRelocation) (a : ℤ) : Prop :=
  r.location ≤ a ∧ a < r.location + if r.asMob then 4 else 8

/-- One relocation: it changes its own field only, and for a MOB it writes the id of a
    buffer that is bound as one. -/
def WritesField (place : ℕ → Place) (r : BoRelocation) (m m' : Memory) : Prop :=
  applyRelocation place m r = some m' ∧ (∀ a, ¬ covers r a → m' a = m a) ∧
  (r.asMob = true → (place r.vbo).memType = .mob ∧
    m' = store m r.location (place r.vbo).start)

/-- The memories between the relocations, each of which writes its field. -/
inductive WritesFields (place : ℕ → Place) : List BoRelocation → Memory → Memory → Prop where
  | nil (m : Memory) : WritesFields place [] m m
  | cons {r : BoRelocation} {rels : List BoRelocation} {m m₁ m' : Memory} :
    WritesField place r m m₁ → WritesFields place rels m₁ m' → WritesFields place (r :: rels) m m'

theorem WritesFields.applied {place : ℕ → Place} {rels : List BoRelocation} {m m' : Memory}
    (h : WritesFields place rels m m') : vmwApplyRelocations place rels m = some m' := by
  induction h with
  | nil m => rfl
  | cons hr _ ih =>
    unfold vmwApplyRelocations
    rw [List.foldlM_cons, hr.1]
    exact ih

theorem WritesFields.frame {place : ℕ → Place} {rels : List BoRelocation} {m m' : Memory}
    (h : WritesFields place rels m m') {a : ℤ} (ha : ∀ r ∈ rels, ¬ covers r a) : m' a = m a := by
  induction h with
  | nil m => rfl
  | cons hr _ ih =>
    rw [ih fun r hr => ha r (List.mem_cons_of_mem _ hr)]
    exact hr.2.1 a (ha _ List.mem_cons_self)

/-- A place in which the relocation's kind of pointer can be made. -/
def Fit (r : BoRelocation) (p : Place) : Prop :=
  if r.asMob then p.memType = .mob else p.memType ≠ .system

theorem writesField_of_fit {place : ℕ → Place} {r : BoRelocation} (h : Fit r (place r.vbo))
    (m : Memory) : ∃ m', WritesField place r m m' := by
  have hstart : ∀ v a, ¬ covers r a → store m r.location v a = m a := by
    intro v a ha
    refine store_outside ?_
    unfold covers at ha
    split_ifs at ha <;> omega
  unfold WritesField applyRelocation
  unfold Fit at h
  split_ifs at h with hmob
  · rw [h]
    exact ⟨_, rfl, hstart _, fun _ => ⟨rfl, rfl⟩⟩
  · have hguest : ∀ P : Prop, r.asMob = true → P := fun _ hm => absurd hm hmob
    rcases hp : (place r.vbo).memType
    · exact absurd hp h
    · refine ⟨_, rfl, fun a ha => ?_, hguest _⟩
      unfold covers at ha
      rw [if_neg hmob] at ha
      rw [store_outside (by omega), store_outside (by omega)]
    · exact ⟨_, rfl, hstart _, hguest _⟩
    · exact ⟨_, rfl, hstart _, hguest _⟩

theorem fit_of_writesField {place : ℕ → Place} {r : BoRelocation} {m m' : Memory}
    (h : WritesField place r m m') : Fit r (place r.vbo) := by
  unfold Fit
  split_ifs with hmob
  · exact (h.2.2 hmob).1
  · intro hsys
    have := h.1
    unfold applyRelocation at this
    rw [hsys] at this
    cases this

theorem writesFields_iff {place : ℕ → Place} {rels : List BoRelocation} {m : Memory} :
    (∃ m', WritesFields place rels m m') ↔ ∀ r ∈ rels, Fit r (place r.vbo) := by
  constructor
  · rintro ⟨m', h⟩
    induction h with
    | nil m => simp
    | cons hr _ ih =>
      intro r hmem
      rcases List.mem_cons.1 hmem with rfl | hmem
      · exact fit_of_writesField hr
      · exact ih r hmem
  · intro h
    induction rels generalizing m with
    | nil => exact ⟨m, .nil m⟩
    | cons r rels ih =>
      obtain ⟨m₁, h₁⟩ := writesField_of_fit (h r List.mem_cons_self) m
      obtain ⟨m', h'⟩ := ih (m := m₁) fun r hr => h r (List.mem_cons_of_mem _ hr)
      exact ⟨m', .cons h₁ h'⟩

end Application

section Validated

/-- What validation has done to a listed buffer: a pinned one is where it was. -/
def Placed (T : Ttm τ) (node : BoNode) (t u : τ) : Prop :=
  if 0 < T.pinCount node.vbo then T.place node.vbo u = T.place node.vbo t
  else (T.place node.vbo u).memType ∈ if node.asMob then [.mob] else [MemType.vram, .gmr]

variable {reserved : List ℕ} {t u : τ}

theorem vmwValidationBoValidateSingle_placed {node : BoNode} (hT : T.Lawful reserved)
    (h : vmwValidationBoValidateSingle T node.vbo node.asMob t = (.ok (), u)) :
    Placed T node t u := by
  unfold vmwValidationBoValidateSingle at h
  unfold Placed
  split_ifs at h ⊢ with hpin hmob
  · cases h
    rfl
  · exact hT.placed h
  · split at h
    · rename_i hfirst
      cases h
      exact hT.placed hfirst
    · cases h
    · exact List.mem_cons.2 (.inl (List.mem_singleton.1 (hT.placed h)))

theorem vmwValidationBoValidateSingle_others {bo b : ℕ} {asMob : Bool} (hT : T.Lawful reserved)
    (hb : b ∈ reserved) (hne : b ≠ bo) :
    T.place b (vmwValidationBoValidateSingle T bo asMob t).2 = T.place b t := by
  unfold vmwValidationBoValidateSingle
  split_ifs with hpin hmob
  · rfl
  · exact hT.others hb hne
  · have hfirst := hT.others (p := .vramGmr) (t := t) hb hne
    split
    · rename_i hr
      rwa [hr] at hfirst
    · rename_i hr
      rwa [hr] at hfirst
    · rename_i hr
      rw [hr] at hfirst
      exact (hT.others hb hne).trans hfirst

theorem validateNode_others {node : BoNode} {b : ℕ} (hT : T.Lawful reserved) (hb : b ∈ reserved)
    (hne : b ≠ node.vbo) : T.place b (validateNode T node t).2 = T.place b t := by
  unfold validateNode
  cases node.cpuBlit
  · exact vmwValidationBoValidateSingle_others hT hb hne
  · exact hT.others hb hne

theorem vmwValidationBoValidate_others {nodes : List BoNode} {b : ℕ} (hT : T.Lawful reserved)
    (hb : b ∈ reserved) (hne : b ∉ nodes.map BoNode.vbo)
    (h : vmwValidationBoValidate T nodes t = (.ok (), u)) : T.place b u = T.place b t := by
  induction nodes generalizing t with
  | nil =>
    cases h
    rfl
  | cons node nodes ih =>
    obtain ⟨_, v, hnode, hrest⟩ := bind_ok.1 h
    rw [List.map_cons, List.mem_cons, not_or] at hne
    have hfirst := validateNode_others (t := t) hT hb hne.1
    rw [hnode] at hfirst
    exact (ih hne.2 hrest).trans hfirst

theorem vmwValidationBoValidate_placed {nodes : List BoNode} (hT : T.Lawful reserved)
    (hmem : ∀ n ∈ nodes, n.vbo ∈ reserved) (hnodup : (nodes.map BoNode.vbo).Nodup)
    (h : vmwValidationBoValidate T nodes t = (.ok (), u)) {n : BoNode} (hn : n ∈ nodes)
    (hblit : n.cpuBlit = false) : Placed T n t u := by
  induction nodes generalizing t with
  | nil => cases hn
  | cons node nodes ih =>
    obtain ⟨_, v, hnode, hrest⟩ := bind_ok.1 h
    rw [List.map_cons, List.nodup_cons] at hnodup
    have hres : n.vbo ∈ reserved := hmem n hn
    rcases List.mem_cons.1 hn with rfl | hn
    · unfold validateNode at hnode
      rw [hblit, if_neg Bool.false_ne_true] at hnode
      have hplaced := vmwValidationBoValidateSingle_placed hT hnode
      have hkept := vmwValidationBoValidate_others hT hres hnodup.1 hrest
      unfold Placed at *
      rwa [hkept]
    · have hne : n.vbo ≠ node.vbo := by
        intro heq
        exact hnodup.1 (heq ▸ List.mem_map_of_mem hn)
      have hkept := validateNode_others (t := t) hT hres hne
      rw [hnode] at hkept
      have hplaced := ih (fun m hm => hmem m (List.mem_cons_of_mem _ hm)) hnodup.2 hrest hn
      unfold Placed at *
      rwa [hkept] at hplaced

theorem validateAll_placed {nodes : List BoNode} (hT : T.Lawful (nodes.map BoNode.vbo))
    (hnodup : (nodes.map BoNode.vbo).Nodup) (h : validateAll T nodes t = (.ok (), u))
    {n : BoNode} (hn : n ∈ nodes) (hblit : n.cpuBlit = false) : Placed T n t u := by
  obtain ⟨_, v, hbos, hres⟩ := bind_ok.1 h
  have hplaced := vmwValidationBoValidate_placed hT (fun m hm => List.mem_map_of_mem hm) hnodup
    hbos hn hblit
  have hkept := hT.resources (t := v) (List.mem_map_of_mem (f := BoNode.vbo) hn)
  rw [hres] at hkept
  unfold Placed at *
  rwa [hkept]

theorem Placed.fit_iff {r : BoRelocation} (h : Placed T ⟨r.vbo, r.asMob, false⟩ t u) :
    Fit r (T.place r.vbo u) ↔ (0 < T.pinCount r.vbo → Fit r (T.place r.vbo t)) := by
  unfold Placed at h
  split_ifs at h with hpin hmob
  · rw [h]
    exact ⟨fun hf _ => hf, fun hf => hf hpin⟩
  · refine ⟨fun _ hp => absurd hp hpin, fun _ => ?_⟩
    unfold Fit
    rw [if_pos hmob]
    exact List.mem_singleton.1 h
  · refine ⟨fun _ hp => absurd hp hpin, fun _ => ?_⟩
    unfold Fit
    rw [if_neg hmob]
    intro hsys
    rw [hsys] at h
    simp at h

end Validated

section Submissions
variable {s c d : SwContext σ} {handle fuel size : ℕ}

theorem vmwResourcesReserve_still (reserve : ℕ → Op σ (Option (ℕ × Bool))) (resources : List ℕ) :
    Keeps (Still K) anyStop (vmwResourcesReserve K reserve resources) := by
  have hone : ∀ res, Keeps (Still K) anyStop (reserveResource K reserve res) := by
    intro res
    refine (call_still _).bind fun backup => ?_
    cases backup
    · exact keeps_pure _
    · exact vmwValidationAddBo_still _ _ _
  refine (Keeps.forEach hone resources).bind fun _ => ?_
  refine (keeps_inspect _).bind fun s => ?_
  exact keeps_require _ trivial

theorem cacheOk_of_accepted (hs : Submitted K handle s) {sizes : List ℕ}
    (hcheck : vmwCmdCheckAll K fuel size s = (.ok sizes, c)) : CacheOk K c := by
  have hflow : KeepsAt (Flow K False False False) (Allowed False False False)
      (vmwCmdCheckAll K fuel size) s := by
    refine vmwCmdCheckAll_flow fuel hs (fun hb => hb.elim) fun _ _ _ _ _ => ?_
    exact ⟨fun ha => ha.elim, fun hb => hb.elim, fun hn => hn.elim, fun hq => hq.elim⟩
  exact (hflow.ok hcheck).cache hs.start.1

/-- For an accepted batch, with all listed buffers validated, every relocation changes its
    own field only and writes for a MOB the id of a buffer that is bound as one, exactly if
    the pinned buffers were before in memory that fits their relocations. -/
theorem fields_written_iff (hs : Submitted K handle s) {sizes : List ℕ}
    (hcheck : vmwCmdCheckAll K fuel size s = (.ok sizes, c))
    {reserve : ℕ → Op σ (Option (ℕ × Bool))} {resources : List ℕ}
    (hreserve : vmwResourcesReserve K reserve resources c = (.ok (), d))
    (hT : T.Lawful (d.boList.map BoNode.vbo)) {t u : τ}
    (hvalidate : validateAll T d.boList t = (.ok (), u)) :
    (∃ m', vmwApplyRelocations (fun bo => T.place bo u) d.boRelocations d.mem = some m' ∧
      WritesFields (fun bo => T.place bo u) d.boRelocations d.mem m' ∧
      ∀ a, (∀ r ∈ d.boRelocations, ¬ covers r a) → m' a = d.mem a) ↔
    ∀ r ∈ d.boRelocations, 0 < T.pinCount r.vbo → Fit r (T.place r.vbo t) := by
  have hlisted : Listed d.boList d.boRelocations :=
    (((vmwResourcesReserve_still reserve resources).ok hreserve).cache
      (cacheOk_of_accepted hs hcheck)).2.2
  have hfit : ∀ r ∈ d.boRelocations,
      (Fit r (T.place r.vbo u) ↔ (0 < T.pinCount r.vbo → Fit r (T.place r.vbo t))) := fun r hr =>
    (validateAll_placed hT hlisted.1 hvalidate (hlisted.2 r hr) rfl).fit_iff
  have hwrites : (∃ m', WritesFields (fun bo => T.place bo u) d.boRelocations d.mem m') ↔ _ :=
    writesFields_iff
  constructor
  · rintro ⟨m', -, hfields, -⟩ r hr
    exact (hfit r hr).1 (hwrites.1 ⟨m', hfields⟩ r hr)
  · intro h
    obtain ⟨m', hfields⟩ := hwrites.2 fun r hr => (hfit r hr).2 (h r hr)
    exact ⟨m', hfields.applied, hfields, fun a ha => hfields.frame ha⟩

end Submissions

section Batches

/-- One buffer manager for the examples: buffer 7 is pinned, validation moves the others to
    the first memory that the placement allows. -/
def sampleTtm : Ttm (ℕ → Place) where
  place bo t := t bo
  pinCount bo := if bo = 7 then 1 else 0
  boValidate p bo t :=
    (.ok (), Function.update t bo { t bo with memType := p.allows.headD .system })
  resValidate t := (.ok (), t)

theorem sampleTtm_lawful (reserved : List ℕ) : sampleTtm.Lawful reserved where
  placed {p bo t u} h := by
    cases h
    cases p <;> simp [sampleTtm, Placement.allows]
  others {p bo t b} _ hne := by simp [sampleTtm, hne]
  resources _ := rfl

/-- `BIND_GB_SURFACE` for surface 3 with buffer 7, after the check. -/
def checkedBatch : SwContext Bool :=
  (vmwCmdCheckAll (sampleKernel true) 1 16 (sampleContext [1099, 8, 3, 7] true)).2

theorem checkedBatch_ok : vmwCmdCheckAll (sampleKernel true) 1 16
    (sampleContext [1099, 8, 3, 7] true) = (.ok [16], checkedBatch) :=
  ok_of_toOption (by decide +kernel)

theorem checkedBatch_boList : checkedBatch.boList = [⟨7, true, false⟩] := by decide +kernel

theorem checkedBatch_boRelocations : checkedBatch.boRelocations = [⟨7, 12, true⟩] := by
  decide +kernel

theorem checkedBatch_reserved :
    vmwResourcesReserve (sampleKernel true) (fun _ m => (.ok none, m)) [] checkedBatch =
      (.ok (), checkedBatch) := by
  have hmob : checkedBatch.dxQueryMob = none := by decide +kernel
  simp [vmwResourcesReserve, vmwValidationResReserve, forEach, bind, Run.andThen, pure,
    Run.result, current, inspect, require, hmob]

theorem checkedBatch_validated (place : ℕ → Place) :
    validateAll sampleTtm checkedBatch.boList place = (.ok (), place) := by
  rw [checkedBatch_boList]
  rfl

theorem pinned_mob_written_iff :
    (∃ m', vmwApplyRelocations (fun _ => ⟨.mob, 9, 0⟩) checkedBatch.boRelocations
        checkedBatch.mem = some m' ∧
      WritesFields (fun _ => ⟨.mob, 9, 0⟩) checkedBatch.boRelocations checkedBatch.mem m' ∧
      ∀ a, (∀ r ∈ checkedBatch.boRelocations, ¬ covers r a) → m' a = checkedBatch.mem a) ↔
    ∀ r ∈ checkedBatch.boRelocations, 0 < sampleTtm.pinCount r.vbo → Fit r ⟨.mob, 9, 0⟩ :=
  fields_written_iff (sample_submitted _ _ _) checkedBatch_ok checkedBatch_reserved
    (sampleTtm_lawful _) (checkedBatch_validated fun _ => ⟨.mob, 9, 0⟩)

/-- The same batch, with the buffer pinned in VRAM: the word after the id is changed, which
    is outside the batch, and the id is the one of the framebuffer. -/
theorem pinned_vram_field :
    vmwCmdCheckAll (sampleKernel true) 1 16 (sampleContext [1099, 8, 3, 7] true) =
      (.ok [16], checkedBatch) ∧
    validateAll sampleTtm checkedBatch.boList (fun _ => ⟨.vram, 0, 4096⟩) =
      (.ok (), fun _ => ⟨.vram, 0, 4096⟩) ∧
    (vmwApplyRelocations (fun _ => ⟨.vram, 0, 4096⟩) checkedBatch.boRelocations
      checkedBatch.mem).map (fun m' => (word m' 12, word m' 16)) = some (2 ^ 32 - 2, 4096) ∧
    ¬ ∃ m', WritesFields (fun _ => ⟨.vram, 0, 4096⟩) checkedBatch.boRelocations
      checkedBatch.mem m' := by
  refine ⟨checkedBatch_ok, checkedBatch_validated _, by decide +kernel, ?_⟩
  rw [writesFields_iff, checkedBatch_boRelocations]
  intro h
  have hfit := h ⟨7, 12, true⟩ (List.mem_singleton_self _)
  cases hfit

end Batches

end Vmwgfx.ExecbufPlacement
