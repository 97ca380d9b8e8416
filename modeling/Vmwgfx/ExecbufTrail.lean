import Vmwgfx.ExecbufVerifier

set_option autoImplicit false

/-!
# What the helpers and the id checks change

However a helper ends, it changes neither the command bytes nor any of the lists that the
handlers add to, and it keeps the resource cache consistent. `vmw_cmd_res_check` records
the location it read and at most one relocation there. A handler that succeeds leaves a
trail of such locations, with relocations only at them and at its own header.
-/
namespace Vmwgfx.ExecbufTrail
open Word32 ByteStore FailingState BindingSlots ExecbufState ExecbufHandlers ExecbufVerifier

variable {σ α β : Type} {K : Kernel σ} {F : Stop → Prop}

/-- No buffer is listed twice, and every buffer that a relocation names is listed the way
    the relocation wants it. -/
def Listed (nodes : List BoNode) (rels : List BoRelocation) : Prop :=
  (nodes.map BoNode.vbo).Nodup ∧ ∀ r ∈ rels, ⟨r.vbo, r.asMob, false⟩ ∈ nodes

/-- A valid entry of the resource cache holds a resource of the entry's type, a query
    barrier is wanted only when there is a context, and the buffers are listed. -/
def CacheOk (K : Kernel σ) (s : SwContext σ) : Prop := (∀ t,
  ((s.resCache t).valid = true → ∃ r, (s.resCache t).res = some r ∧ K.resType r = t) ∧
  ((s.resCache t).validHandle = true → (s.resCache t).valid = true)) ∧
  (s.needsPostQueryBarrier = true → (s.resCache .context).valid = true) ∧
  Listed s.boList s.boRelocations

/-- The changes of a helper stay in the cache, the validation state and the query state. -/
structure Still (K : Kernel σ) (s t : SwContext σ) : Prop where
  mem : t.mem = s.mem
  idReads : t.idReads = s.idReads
  unrecorded : t.unrecorded = s.unrecorded
  rels : t.resRelocations = s.resRelocations
  bindings : t.bindings = s.bindings
  uses : t.uses = s.uses
  node : t.dxCtxNode = s.dxCtxNode
  cache : CacheOk K s → CacheOk K t

instance : Std.Refl (Still K) where
  refl _ := ⟨rfl, rfl, rfl, rfl, rfl, rfl, rfl, fun h => h⟩

instance : IsTrans (SwContext σ) (Still K) where
  trans _ _ _ h h' := ⟨h'.mem.trans h.mem, h'.idReads.trans h.idReads,
    h'.unrecorded.trans h.unrecorded, h'.rels.trans h.rels, h'.bindings.trans h.bindings,
    h'.uses.trans h.uses, h'.node.trans h.node,
    fun hc => h'.cache (h.cache hc)⟩

/-- A context of the DX kind comes with all its cotables. -/
def CotablesPresent (K : Kernel σ) : Prop := ∀ ctx i (r : σ), K.resType ctx = .dxContext →
  i < svgaCotableDx10Max → (K.cotables ctx i r).isSome

class Soft (F : Stop → Prop) : Prop where
  errno : ∀ e, F (.errno e)

/-- Error codes are allowed, and NULL resources unless no context lacks a cotable. -/
class Lenient (K : Kernel σ) (F : Stop → Prop) : Prop extends Soft F where
  cotables : F .nullRes ∨ CotablesPresent K

section Still

theorem rd_still (a : ℤ) : Keeps (Still K) F (rd a) := keeps_inspect _

theorem dxCtxNode_still : Keeps (Still K) F dxCtxNode := keeps_inspect _

theorem ctxOf_still (n : ℕ) : Keeps (Still K) F (ctxOf n) := keeps_inspect _

theorem act_still (f : σ → σ) : Keeps (Still K) F (act f) :=
  keeps_update fun _ => ⟨rfl, rfl, rfl, rfl, rfl, rfl, rfl, fun h => h⟩

theorem deref_still (o : Option α) (h : o = none → F .nullRes) :
    Keeps (Still K) F (deref o : Check σ α) := by
  cases o
  · exact keeps_stop (h rfl)
  · exact keeps_pure _

theorem retOf_keeps {R : SwContext σ → SwContext σ → Prop} {m : Check σ α} (h : Keeps R F m) :
    Keeps R F (retOf m) := by
  intro s
  have hstate := (h s).state
  have hreason := (h s).reason
  rcases hm : m s with ⟨r, t⟩
  rw [hm] at hstate hreason
  rcases r with (e | _ | _ | _ | _) | a
  · exact keepsAt_of_ok (.error e) (by simp only [retOf, hm]) hstate
  · exact keepsAt_of_error .nullRes (by simp only [retOf, hm]) hstate (hreason _ rfl)
  · exact keepsAt_of_error .nullNode (by simp only [retOf, hm]) hstate (hreason _ rfl)
  · exact keepsAt_of_error .bugOn (by simp only [retOf, hm]) hstate (hreason _ rfl)
  · exact keepsAt_of_error .badIndex (by simp only [retOf, hm]) hstate (hreason _ rfl)
  · exact keepsAt_of_ok (.ok a) (by simp only [retOf, hm]) hstate

theorem vmwExecbufRcacheUpdate_still (res priv : ℕ) :
    Keeps (Still K) F (vmwExecbufRcacheUpdate (K.resType res) res priv) := by
  refine keeps_update fun s => ⟨rfl, rfl, rfl, rfl, rfl, rfl, rfl, fun h =>
    ⟨fun t => ?_, fun hb => ?_, h.2.2⟩⟩
  · by_cases ht : t = K.resType res
    · subst ht
      simp [CacheEntry.refreshed]
    · simpa [Function.update_of_ne ht] using h.1 t
  · by_cases ht : .context = K.resType res
    · simp [← ht, CacheEntry.refreshed]
    · simpa [Function.update_of_ne ht] using h.2.1 hb

variable [Soft F]

theorem fail_still (e : Errno) : Keeps (Still K) F (fail e : Check σ α) := keeps_stop (Soft.errno e)

theorem require_still (b : Bool) (e : Errno) : Keeps (Still K) F (require b (.errno e)) :=
  keeps_require b (Soft.errno e)

theorem call_still (op : Op σ α) : Keeps (Still K) F (call op) := by
  intro s
  have hstill : ∀ u, Still K s { s with rest := u } := fun _ =>
    ⟨rfl, rfl, rfl, rfl, rfl, rfl, rfl, fun h => h⟩
  rcases h : op s.rest with ⟨r, u⟩
  cases r with
  | ok a => exact keepsAt_of_ok a (by simp only [call, h]) (hstill u)
  | error e =>
    exact keepsAt_of_error (.errno e) (by simp only [call, h]) (hstill u) (Soft.errno e)

theorem memAlloc_still : Keeps (Still K) F (memAlloc K) := by
  intro s
  have hstill : ∀ u, Still K s { s with rest := u } := fun _ =>
    ⟨rfl, rfl, rfl, rfl, rfl, rfl, rfl, fun h => h⟩
  rcases h : K.validationMemAlloc s.rest with ⟨b, u⟩
  cases b with
  | true => exact keepsAt_of_ok () (by simp only [memAlloc, h]) (hstill u)
  | false =>
    exact keepsAt_of_error (.errno .enomem) (by simp only [memAlloc, h]) (hstill u) (Soft.errno _)

theorem ofRet_still (r : Except Errno α) : Keeps (Still K) F (ofRet r : Check σ α) := by
  cases r
  · exact fail_still _
  · exact keeps_pure _

theorem orElse_still (e : Errno) (o : Option α) : Keeps (Still K) F (orElse e o : Check σ α) := by
  cases o
  · exact fail_still _
  · exact keeps_pure _

theorem vmwExecbufResNoctxValAdd_still (res : ℕ) :
    Keeps (Still K) F (vmwExecbufResNoctxValAdd K res) := by
  refine (keeps_inspect _).bind fun b => ?_
  split
  · exact keeps_pure _
  · exact (call_still _).bind fun node => vmwExecbufRcacheUpdate_still res node.1

theorem vmwViewResValAdd_still (view : ℕ) : Keeps (Still K) F (vmwViewResValAdd K view) :=
  (vmwExecbufResNoctxValAdd_still _).bind fun _ => vmwExecbufResNoctxValAdd_still _

theorem vmwViewIdValAdd_still (viewType : ViewType) (id : ℕ) :
    Keeps (Still K) F (vmwViewIdValAdd K viewType id) := by
  refine dxCtxNode_still.bind fun node => ?_
  refine (orElse_still _ node).bind fun _ => ?_
  refine (keeps_inspect _).bind fun man => ?_
  refine (call_still _).bind fun view => ?_
  exact (vmwViewResValAdd_still view).bind fun _ => keeps_pure _

theorem viewOf_still (viewType : ViewType) (id : ℕ) :
    Keeps (Still K) F (viewOf K viewType id) := by
  unfold viewOf
  split
  · exact keeps_pure _
  · exact (vmwViewIdValAdd_still viewType id).bind fun _ => keeps_pure _

theorem boundValAdd_still (res : ℕ) : Keeps (Still K) F (boundValAdd K res) := by
  unfold boundValAdd
  split
  · exact vmwViewResValAdd_still res
  · exact vmwExecbufResNoctxValAdd_still res

theorem sharedStaged_still (o : Option ℕ) : Keeps (Still K) F (sharedStaged K o) := by
  cases o
  · refine (call_still _).bind fun staged => ?_
    refine (keeps_update fun _ => ?_).bind fun _ => keeps_pure _
    exact ⟨rfl, rfl, rfl, rfl, rfl, rfl, rfl, fun h => h⟩
  · exact keeps_pure _

theorem nodeStaged_still (inuse : Bool) (shared : ℕ) :
    Keeps (Still K) F (nodeStaged K inuse shared) := by
  unfold nodeStaged
  split
  · exact call_still _
  · refine (keeps_update fun _ => ?_).bind fun _ => keeps_pure _
    exact ⟨rfl, rfl, rfl, rfl, rfl, rfl, rfl, fun h => h⟩

theorem call_boList {op : Op σ α} {s t : SwContext σ} {a : α} (h : call op s = (.ok a, t)) :
    t.boList = s.boList := by
  simp only [call] at h
  split at h
  · cases h
    rfl
  · cases h

theorem memAlloc_boList {s t : SwContext σ} (h : memAlloc K s = (.ok (), t)) :
    t.boList = s.boList := by
  simp only [memAlloc] at h
  split at h
  · cases h
    rfl
  · cases h

theorem Listed.append {nodes : List BoNode} {rels : List BoRelocation} {n : BoNode}
    (h : Listed nodes rels) (hn : ∀ m ∈ nodes, m.vbo ≠ n.vbo) : Listed (nodes ++ [n]) rels := by
  refine ⟨?_, fun r hr => List.mem_append_left _ (h.2 r hr)⟩
  rw [List.map_append, List.nodup_append]
  refine ⟨h.1, by simp, ?_⟩
  intro a ha b hb
  obtain ⟨m, hm, rfl⟩ := List.mem_map.1 ha
  rw [List.map_singleton, List.mem_singleton] at hb
  exact hb ▸ hn m hm

theorem vmwValidationFindBoDup_none {nodes : List BoNode} {bo : ℕ}
    (h : vmwValidationFindBoDup nodes bo = none) : ∀ m ∈ nodes, m.vbo ≠ bo := by
  simpa [vmwValidationFindBoDup] using h

theorem vmwValidationFindBoDup_some {nodes : List BoNode} {bo : ℕ} {node : BoNode}
    (h : vmwValidationFindBoDup nodes bo = some node) : node ∈ nodes ∧ node.vbo = bo :=
  ⟨List.mem_of_find?_eq_some h, by simpa using List.find?_some h⟩

theorem vmwValidationAddBo_still (bo : ℕ) (asMob cpuBlit : Bool) :
    Keeps (Still K) F (vmwValidationAddBo K bo asMob cpuBlit) := by
  intro s
  refine KeepsAt.inspect_bind ?_
  rcases hfind : vmwValidationFindBoDup s.boList bo with _ | node
  · refine (call_still _ s).bind fun _ t ht => ?_
    refine ⟨⟨rfl, rfl, rfl, rfl, rfl, rfl, rfl, fun h => ⟨h.1, h.2.1, ?_⟩⟩, fun _ he => by cases he⟩
    refine h.2.2.append fun m hm => ?_
    rw [call_boList ht] at hm
    exact vmwValidationFindBoDup_none hfind m hm
  · exact require_still _ _ s

theorem vmwValidationAddBo_ok {bo : ℕ} {asMob cpuBlit : Bool} {s t : SwContext σ}
    (h : vmwValidationAddBo K bo asMob cpuBlit s = (.ok (), t)) :
    ⟨bo, asMob, cpuBlit⟩ ∈ t.boList := by
  obtain ⟨o, _, ho, h⟩ := bind_ok.1 h
  obtain ⟨rfl, rfl⟩ := inspect_ok.1 ho
  rcases hfind : vmwValidationFindBoDup s.boList bo with _ | node
  · rw [hfind] at h
    obtain ⟨_, u, -, h⟩ := bind_ok.1 h
    rw [← update_ok.1 h]
    exact List.mem_append_right _ (List.mem_singleton_self _)
  · rw [hfind] at h
    obtain ⟨hb, rfl⟩ := require_ok.1 h
    simp only [Bool.and_eq_true, beq_iff_eq] at hb
    obtain ⟨hmem, hkey⟩ := vmwValidationFindBoDup_some hfind
    rw [← hkey, ← hb.1, ← hb.2]
    exact hmem

theorem vmwTranslatePtr_still (asMob : Bool) (loc : ℤ) :
    Keeps (Still K) F (vmwTranslatePtr K asMob loc) := by
  refine (rd_still loc).bind fun handle => ?_
  refine (retOf_keeps (call_still _)).bind fun _ => ?_
  refine (call_still _).bind fun bo s => ?_
  refine (vmwValidationAddBo_still bo asMob false s).bind fun _ t ht => ?_
  refine (memAlloc_still t).bind fun _ u hu => ?_
  have hbo : ⟨bo, asMob, false⟩ ∈ u.boList := memAlloc_boList hu ▸ vmwValidationAddBo_ok ht
  refine KeepsAt.bind ⟨⟨rfl, rfl, rfl, rfl, rfl, rfl, rfl, fun h => ⟨h.1, h.2.1, h.2.2.1, ?_⟩⟩,
    fun _ he => by cases he⟩ fun _ v _ => keeps_pure bo v
  intro r hr
  rcases List.mem_append.1 hr with hr | hr
  · exact h.2.2.2 r hr
  · rw [List.mem_singleton.1 hr]
    exact hbo

theorem vmwTranslateMobPtr_still (loc : ℤ) : Keeps (Still K) F (vmwTranslateMobPtr K loc) :=
  vmwTranslatePtr_still true loc

theorem vmwTranslateGuestPtr_still (loc : ℤ) : Keeps (Still K) F (vmwTranslateGuestPtr K loc) :=
  vmwTranslatePtr_still false loc

theorem vmwCotableNotify_still (res : Except Errno (Option ℕ)) (id : ℕ)
    (h : (res.toOption.bind fun r => r) = none → F .nullRes) :
    Keeps (Still K) F (vmwCotableNotify K res id) := by
  refine (deref_still _ h).bind fun cotable => ?_
  exact (require_still _ _).bind fun _ => act_still _

theorem dxShader_still (shaderId : ℕ) : Keeps (Still K) F (dxShader K shaderId) := by
  unfold dxShader
  split
  · exact keeps_pure _
  · refine (keeps_inspect _).bind fun man => ?_
    refine (call_still _).bind fun res => ?_
    exact (vmwExecbufResNoctxValAdd_still res).bind fun _ => keeps_pure _

theorem dxContext_still : Keeps (Still K) F dxContext := by
  refine dxCtxNode_still.bind fun node => ?_
  refine (orElse_still _ node).bind fun n => ?_
  exact (ctxOf_still n).bind fun ctx => keeps_pure _

theorem compatShader_still (ctx : Option ℕ) (shid type : ℕ) (h : ctx = none → F .nullRes) :
    Keeps (Still K) F (compatShader K ctx shid type) := by
  unfold compatShader
  split
  · exact keeps_pure _
  · refine (deref_still _ h).bind fun c => ?_
    refine (retOf_keeps (call_still _)).bind fun r => ?_
    cases r
    · exact keeps_pure _
    · exact (vmwExecbufResNoctxValAdd_still _).bind fun _ => keeps_pure _

end Still

section Lenient

theorem vmwContextCotable_ok {ctx i : ℕ} {s t : SwContext σ} {r : Except Errno (Option ℕ)}
    (h : vmwContextCotable K ctx i s = (.ok r, t)) : s = t ∧
    (if svgaCotableDx10Max ≤ i then .error .einval else .ok (K.cotables ctx i s.rest)) = r := by
  obtain ⟨h, hs⟩ := inspect_ok.1 h
  exact ⟨hs, h⟩

variable [Lenient K F]

theorem cotableValAdd_still {ctx i : ℕ} (hctx : K.resType ctx = .dxContext) :
    Keeps (Still K) F (cotableValAdd K ctx i) := by
  intro s
  refine (keeps_inspect _ s).bind fun r t hr => ?_
  obtain ⟨rfl, rfl⟩ := vmwContextCotable_ok hr
  by_cases hi : svgaCotableDx10Max ≤ i
  · rw [if_pos hi]
    exact keeps_pure _ _
  · rw [if_neg hi]
    refine (deref_still _ ?_ _).bind fun r u _ => vmwExecbufResNoctxValAdd_still r u
    intro hnone
    refine (Lenient.cotables (K := K) (F := F)).resolve_right fun hc => ?_
    have := hc ctx i s.rest hctx (by omega)
    rw [hnone] at this
    simp at this

theorem vmwResourceContextResAdd_still (ctx : ℕ) :
    Keeps (Still K) F (vmwResourceContextResAdd K ctx) := by
  have hcotables : Keeps (Still K) F (runIf (K.hasDx && decide (K.resType ctx = .dxContext))
      (repeatFrom (cotableValAdd K ctx) 0 svgaCotableDx10Max)) := by
    intro s
    refine KeepsAt.runIf fun hb => ?_
    simp only [Bool.and_eq_true, decide_eq_true_eq] at hb
    exact Keeps.repeatFrom (fun _ => cotableValAdd_still hb.2) _ _ s
  refine hcotables.bind fun _ => ?_
  refine (keeps_inspect _).bind fun l => ?_
  refine (retOf_keeps (Keeps.forEach boundValAdd_still l)).bind fun ret => ?_
  refine (keeps_inspect _).bind fun mob => ?_
  cases mob
  · exact ofRet_still ret
  · exact vmwValidationAddBo_still _ _ _

theorem vmwCmdCtxFirstSetup_still (res node : ℕ) :
    Keeps (Still K) F (vmwCmdCtxFirstSetup K res node) := by
  refine (vmwResourceContextResAdd_still res).bind fun _ => ?_
  refine (keeps_inspect _).bind fun s => ?_
  refine (sharedStaged_still _).bind fun shared => ?_
  refine (nodeStaged_still _ shared).bind fun _ => ?_
  exact keeps_update fun _ => ⟨rfl, rfl, rfl, rfl, rfl, rfl, rfl, fun h => h⟩

theorem vmwExecbufResNorefValAdd_still (res : ℕ) :
    Keeps (Still K) F (vmwExecbufResNorefValAdd K res) := by
  refine (keeps_inspect _).bind fun b => ?_
  split
  · exact keeps_pure _
  · refine (call_still _).bind fun node => ?_
    refine ((vmwCmdCtxFirstSetup_still res node.1).runIf _).bind fun _ => ?_
    exact vmwExecbufRcacheUpdate_still res node.1

theorem vmwCmdResLookup_still (t : ResType) (c : Converter) (id : ℕ) :
    Keeps (Still K) F (vmwCmdResLookup K t c id) := by
  refine (call_still _).bind fun _ => ?_
  refine (call_still _).bind fun res => ?_
  refine (vmwExecbufResNorefValAdd_still res).bind fun _ => ?_
  refine (keeps_update fun s => ?_).bind fun _ => keeps_pure _
  split
  · rename_i hholds
    simp only [CacheEntry.holds, Bool.and_eq_true] at hholds
    refine ⟨rfl, rfl, rfl, rfl, rfl, rfl, rfl, fun h => ⟨fun u => ?_, fun hb => ?_, h.2.2⟩⟩
    · by_cases hu : u = t
      · subst hu
        simp only [Function.update_self]
        exact ⟨(h.1 u).1, fun _ => hholds.1⟩
      · simpa [Function.update_of_ne hu] using h.1 u
    · by_cases hu : .context = t
      · subst hu
        simpa [CacheEntry.named] using h.2.1 hb
      · simpa [Function.update_of_ne hu] using h.2.1 hb
  · exact ⟨rfl, rfl, rfl, rfl, rfl, rfl, rfl, fun h => h⟩

end Lenient

structure Quiet (s t : SwContext σ) : Prop where
  mem : t.mem = s.mem
  idReads : t.idReads = s.idReads
  unrecorded : t.unrecorded = s.unrecorded
  rels : t.resRelocations = s.resRelocations

instance : Std.Refl (Quiet (σ := σ)) where
  refl _ := ⟨rfl, rfl, rfl, rfl⟩

instance : IsTrans (SwContext σ) Quiet where
  trans _ _ _ h h' := ⟨h'.mem.trans h.mem, h'.idReads.trans h.idReads,
    h'.unrecorded.trans h.unrecorded, h'.rels.trans h.rels⟩

theorem Still.quiet {s t : SwContext σ} (h : Still K s t) : Quiet s t :=
  ⟨h.mem, h.idReads, h.unrecorded, h.rels⟩

def anyStop (_ : Stop) : Prop := True

instance : Soft anyStop := ⟨fun _ => trivial⟩

instance : Lenient K anyStop := ⟨.inl trivial⟩

theorem keeps_quiet {m : Check σ α} (h : Keeps (Still K) anyStop m) : Keeps Quiet anyStop m :=
  h.mono (fun _ _ hst => hst.quiet) fun _ he => he

section Trail
variable {q : List ℤ} {s t u : SwContext σ} {ids ids' : List ℤ}

/-- The offsets at which the given reads ask for a relocation. -/
def wanted (reads : List IdRead) : List ℕ :=
  (reads.filter fun f => f.id ≠ svga3dInvalidId).map fun f => (f.loc % 2 ^ 29).toNat

def normals (rels : List ResRelocation) : List ℕ :=
  (rels.filter fun r => r.relType = .normal).map ResRelocation.offset

theorem wanted_append (l l' : List IdRead) : wanted (l ++ l') = wanted l ++ wanted l' := by
  simp [wanted]

theorem normals_append (l l' : List ResRelocation) : normals (l ++ l') = normals l ++ normals l' := by
  simp [normals]

/-- Relocations that were recorded for some reads: those asked for except as many as found
    no memory, and others only at the places `q`. -/
structure Recorded (q : List ℤ) (reads : List IdRead) (lost : List ℤ)
    (rels : List ResRelocation) : Prop where
  sublist : (normals rels).Sublist (wanted reads)
  count : (normals rels).length + lost.length = (wanted reads).length
  header : ∀ r ∈ rels, r.relType ≠ .normal → ∃ a ∈ q, r.offset = (a % 2 ^ 29).toNat

theorem recorded_nil (q : List ℤ) : Recorded q [] [] [] :=
  ⟨List.Sublist.refl _, rfl, by simp⟩

theorem Recorded.append {l l' : List IdRead} {d d' : List ℤ} {r r' : List ResRelocation}
    (h : Recorded q l d r) (h' : Recorded q l' d' r') :
    Recorded q (l ++ l') (d ++ d') (r ++ r') := by
  refine ⟨?_, ?_, fun x hx => ?_⟩
  · rw [normals_append, wanted_append]
    exact h.sublist.append h'.sublist
  · have := h.count
    have := h'.count
    rw [normals_append, wanted_append, List.length_append, List.length_append,
      List.length_append]
    omega
  · rcases List.mem_append.1 hx with hx | hx
    · exact h.header x hx
    · exact h'.header x hx

/-- Between two states ids were read at the given locations, and relocations were recorded
    for them and at `q`. -/
def Marks (q : List ℤ) (s t : SwContext σ) (ids : List ℤ) : Prop :=
  ∃ reads lost rels, t.idReads = s.idReads ++ reads ∧ reads.map IdRead.loc = ids ∧
    t.unrecorded = s.unrecorded ++ lost ∧ t.resRelocations = s.resRelocations ++ rels ∧
    Recorded q reads lost rels

structure Trail (q : List ℤ) (s t : SwContext σ) (ids : List ℤ) : Prop where
  marks : Marks q s t ids
  mem : t.mem = s.mem

theorem Marks.trans (h : Marks q s t ids) (h' : Marks q t u ids') :
    Marks q s u (ids ++ ids') := by
  obtain ⟨reads, lost, rels, hreads, rfl, hlost, hrels, hrec⟩ := h
  obtain ⟨reads', lost', rels', hreads', rfl, hlost', hrels', hrec'⟩ := h'
  refine ⟨reads ++ reads', lost ++ lost', rels ++ rels', ?_, List.map_append, ?_, ?_,
    hrec.append hrec'⟩
  · rw [hreads', hreads, List.append_assoc]
  · rw [hlost', hlost, List.append_assoc]
  · rw [hrels', hrels, List.append_assoc]

theorem Trail.trans (h : Trail q s t ids) (h' : Trail q t u ids') :
    Trail q s u (ids ++ ids') := ⟨h.marks.trans h'.marks, h'.mem.trans h.mem⟩

theorem Quiet.marks (h : Quiet s t) (q : List ℤ) : Marks q s t [] :=
  ⟨[], [], [], by rw [h.idReads, List.append_nil], rfl, by rw [h.unrecorded, List.append_nil],
    by rw [h.rels, List.append_nil], recorded_nil q⟩

theorem Quiet.trail (h : Quiet s t) (q : List ℤ) : Trail q s t [] := ⟨h.marks q, h.mem⟩

theorem Trail.quiet (h : Trail q s t ids) (h' : Quiet t u) : Trail q s u ids := by
  simpa using h.trans (h'.trail q)

theorem Quiet.then (h : Quiet s t) (h' : Trail q t u ids) : Trail q s u ids := by
  simpa using (h.trail q).trans h'

/-- A success of `m` leaves the trail `ids`. -/
def Leaves (q : List ℤ) (m : Check σ α) (ids : List ℤ) : Prop :=
  ∀ s a t, m s = (.ok a, t) → Trail q s t ids

theorem leaves_quiet {m : Check σ α} (h : Keeps Quiet anyStop m) : Leaves q m [] := fun _ _ _ hm =>
  (h.ok hm).trail q

theorem Leaves.bind {m : Check σ α} {f : α → Check σ β} (hm : Leaves q m ids)
    (hf : ∀ a, Leaves q (f a) ids') : Leaves q (m >>= f) (ids ++ ids') := by
  intro s b u h
  obtain ⟨a, t, h₁, h₂⟩ := bind_ok.1 h
  exact (hm s a t h₁).trans (hf a t b u h₂)

theorem Leaves.bind_quiet {m : Check σ α} {f : α → Check σ β} (hm : Leaves q m ids)
    (hf : ∀ a, Keeps Quiet anyStop (f a)) : Leaves q (m >>= f) ids := by
  intro s b u h
  obtain ⟨a, t, h₁, h₂⟩ := bind_ok.1 h
  exact (hm s a t h₁).quiet ((hf a).ok h₂)

theorem Leaves.quiet_bind {m : Check σ α} {f : α → Check σ β} (hm : Keeps Quiet anyStop m)
    (hf : ∀ a, Leaves q (f a) ids) : Leaves q (m >>= f) ids := by
  intro s b u h
  obtain ⟨a, t, h₁, h₂⟩ := bind_ok.1 h
  exact (hm.ok h₁).then (hf a t b u h₂)

/-- Both the bytes and the lists other than the trail's are unchanged. -/
structure Steady (K : Kernel σ) (s t : SwContext σ) : Prop where
  mem : t.mem = s.mem
  bindings : t.bindings = s.bindings
  uses : t.uses = s.uses
  node : t.dxCtxNode = s.dxCtxNode
  cache : CacheOk K s → CacheOk K t

instance : Std.Refl (Steady K) where
  refl _ := ⟨rfl, rfl, rfl, rfl, fun h => h⟩

instance : IsTrans (SwContext σ) (Steady K) where
  trans _ _ _ h h' := ⟨h'.mem.trans h.mem, h'.bindings.trans h.bindings, h'.uses.trans h.uses,
    h'.node.trans h.node, fun hc => h'.cache (h.cache hc)⟩

theorem Still.steady (h : Still K s t) : Steady K s t :=
  ⟨h.mem, h.bindings, h.uses, h.node, h.cache⟩

theorem keeps_steady {m : Check σ α} (h : Keeps (Still K) F m) : Keeps (Steady K) F m :=
  h.mono (fun _ _ hst => hst.steady) fun _ he => he

theorem vmwResourceRelocationAdd_steady [Soft F] (res : Option ℕ) (a : ℤ) (relType : RelType) :
    Keeps (Steady K) F (vmwResourceRelocationAdd K res a relType) :=
  (keeps_steady memAlloc_still).bind fun _ =>
    keeps_update fun _ => ⟨rfl, rfl, rfl, rfl, fun h => h⟩

theorem vmwCmdResCheck_steady [Lenient K F] (t : ResType) (c : Converter) (a : ℤ) :
    Keeps (Steady K) F (vmwCmdResCheck K t c a) := by
  refine (keeps_inspect _).bind fun id => ?_
  refine (keeps_update fun _ => ⟨rfl, rfl, rfl, rfl, fun h => h⟩).bind fun _ => ?_
  split
  · split
    · exact keeps_stop (Soft.errno _)
    · exact keeps_pure _
  · refine (keeps_inspect _).bind fun entry => ?_
    refine Keeps.bind ?_ fun res => ?_
    · split
      · exact keeps_pure _
      · exact keeps_steady (vmwCmdResLookup_still _ _ _)
    · refine (retOf_keeps (vmwResourceRelocationAdd_steady res a .normal)).bind fun _ => ?_
      refine (keeps_update fun _ => ⟨rfl, rfl, rfl, rfl, fun h => h⟩).bind fun _ => ?_
      exact keeps_pure _

structure Adds (r : ResRelocation) (s t : SwContext σ) : Prop where
  mem : t.mem = s.mem
  idReads : t.idReads = s.idReads
  unrecorded : t.unrecorded = s.unrecorded
  rels : t.resRelocations = s.resRelocations ++ [r]

theorem vmwResourceRelocationAdd_ok {res : Option ℕ} {a : ℤ} {relType : RelType}
    (h : vmwResourceRelocationAdd K res a relType s = (.ok (), t)) :
    Adds ⟨res, (a % 2 ^ 29).toNat, relType⟩ s t := by
  obtain ⟨_, u, halloc, h⟩ := bind_ok.1 h
  have hu := (memAlloc_still (K := K) (F := anyStop)).ok halloc
  obtain rfl := update_ok.1 h
  exact ⟨hu.mem, hu.idReads, hu.unrecorded, by rw [hu.rels]⟩

theorem retRelocationAdd_ok {res : Option ℕ} {a : ℤ} {ret : Except Errno Unit}
    (h : retOf (vmwResourceRelocationAdd K res a .normal) s = (.ok ret, t)) :
    (ret.isOk = true ∧ Adds ⟨res, (a % 2 ^ 29).toNat, .normal⟩ s t) ∨
    (ret.isOk = false ∧ Quiet s t) := by
  rcases hm : vmwResourceRelocationAdd K res a .normal s with ⟨e | _, u⟩
  · right
    have hu : Quiet s u := by
      have hadd : vmwResourceRelocationAdd K res a .normal s = Run.andThen (memAlloc K) (fun _ =>
        update fun s => { s with resRelocations :=
          s.resRelocations ++ [⟨res, (a % 2 ^ 29).toNat, .normal⟩] }) s := rfl
      rcases halloc : memAlloc K s with ⟨e' | _, v⟩
      · have hv := ((memAlloc_still (K := K) (F := anyStop)) s).state
        rw [halloc] at hv
        rw [hm] at hadd
        simp only [Run.andThen, halloc, Prod.mk.injEq] at hadd
        rw [hadd.2]
        exact hv.quiet
      · rw [hm] at hadd
        simp [Run.andThen, halloc, update] at hadd
    unfold retOf at h
    rw [hm] at h
    cases e <;> simp only [Prod.mk.injEq, reduceCtorEq, false_and, Except.ok.injEq] at h
    obtain ⟨rfl, rfl⟩ := h
    exact ⟨rfl, hu⟩
  · left
    unfold retOf at h
    rw [hm] at h
    simp only [Prod.mk.injEq, Except.ok.injEq] at h
    obtain ⟨rfl, rfl⟩ := h
    exact ⟨rfl, vmwResourceRelocationAdd_ok hm⟩

theorem vmwResourceRelocationAdd_leaves (res : Option ℕ) {relType : RelType} (p : ℤ)
    (htype : relType ≠ .normal) : Leaves [p] (vmwResourceRelocationAdd K res p relType) [] := by
  intro s a t h
  have hadds := vmwResourceRelocationAdd_ok h
  refine ⟨⟨[], [], _, by rw [hadds.idReads, List.append_nil], rfl,
    by rw [hadds.unrecorded, List.append_nil], hadds.rels, ?_⟩, hadds.mem⟩
  refine ⟨?_, ?_, ?_⟩ <;> simp [normals, wanted, htype]

theorem vmwCmdResCheck_leaves (t : ResType) (c : Converter) (a : ℤ) :
    Leaves q (vmwCmdResCheck K t c a) [a] := by
  intro s res u h
  obtain ⟨id, s₁, h₁, h⟩ := bind_ok.1 h
  obtain ⟨-, rfl⟩ := inspect_ok.1 h₁
  obtain ⟨_, s₂, h₂, h⟩ := bind_ok.1 h
  have hs₂ := update_ok.1 h₂
  split at h
  · rename_i hid
    -- an invalid id: only a context is refused
    split at h
    · exact absurd h stop_ok
    · obtain ⟨-, rfl⟩ := pure_ok.1 h
      subst hs₂
      refine ⟨⟨[⟨a, id⟩], [], [], rfl, rfl, by simp, by simp, ?_⟩, rfl⟩
      refine ⟨?_, ?_, ?_⟩ <;> simp [normals, wanted, hid]
  · rename_i hid
    obtain ⟨entry, s₃, h₃, h⟩ := bind_ok.1 h
    obtain ⟨r, s₄, h₄, h⟩ := bind_ok.1 h
    obtain ⟨ret, s₅, h₅, h⟩ := bind_ok.1 h
    obtain ⟨_, s₆, h₆, h⟩ := bind_ok.1 h
    obtain ⟨-, rfl⟩ := pure_ok.1 h
    obtain ⟨-, rfl⟩ := inspect_ok.1 h₃
    obtain rfl := update_ok.1 h₆
    have hlookup : Quiet s₂ s₄ := by
      split at h₄
      · exact (keeps_pure (F := anyStop) _).ok h₄
      · exact (keeps_quiet (vmwCmdResLookup_still _ _ _)).ok h₄
    subst hs₂
    rcases retRelocationAdd_ok h₅ with ⟨hret, hadds⟩ | ⟨hret, hquiet⟩
    · refine ⟨⟨[⟨a, id⟩], [], _, hadds.idReads.trans hlookup.idReads, rfl, ?_,
        by rw [hadds.rels, hlookup.rels], ?_⟩, hadds.mem.trans hlookup.mem⟩
      · simp [hret, hadds.unrecorded, hlookup.unrecorded]
      · refine ⟨?_, ?_, ?_⟩ <;> simp [normals, wanted, hid]
    · refine ⟨⟨[⟨a, id⟩], [a], [], hquiet.idReads.trans hlookup.idReads, rfl, ?_,
        by rw [hquiet.rels, hlookup.rels, List.append_nil], ?_⟩, hquiet.mem.trans hlookup.mem⟩
      · simp [hret, hquiet.unrecorded, hlookup.unrecorded]
      · refine ⟨?_, ?_, ?_⟩ <;> simp [normals, wanted, hid]

end Trail

end Vmwgfx.ExecbufTrail
