import Vmwgfx.ExecbufFields

set_option autoImplicit false

/-!
# What the handlers bind and use

One traversal of all handlers for four questions: are the slots of bindings in range, are
resources used only for the fields that name them, is `dx_ctx_node` followed only where it
is set, and do the assertions of the query code hold. Each question has a condition on the
command under which the answer is yes; the questions are independent of each other.
-/
namespace Vmwgfx.ExecbufFlow
open Word32 ByteStore FailingState BindingSlots ExecbufState ExecbufHandlers ExecbufVerifier
  ExecbufTrail ExecbufFields

variable {σ α β : Type} {K : Kernel σ} {A B N Q : Prop} {p : ℤ} {s t u : SwContext σ}

def InRange (b : Binding) : Prop := vmwBindingLoc b.bt b.shaderSlot b.slot ≠ none

/-- The function was handed the resource that the command names. -/
def Good (u : Use) : Prop := u.used = u.named ∧ u.named ≠ none

/-- The reasons for which a handler may stop when the questions about resources, the node
    and the assertions have the answer yes. -/
def Allowed (B N Q : Prop) : Stop → Prop
  | .nullRes => ¬ B
  | .nullNode => ¬ N
  | .bugOn => ¬ Q
  | _ => True

instance : Soft (Allowed B N Q) := ⟨fun _ => trivial⟩

/-- The lists grow by bindings in range if `A`, and by good uses if `B`, or of the query code
    if `Q`. -/
structure Flow (K : Kernel σ) (A B Q : Prop) (s t : SwContext σ) : Prop where
  node : t.dxCtxNode = s.dxCtxNode
  cache : CacheOk K s → CacheOk K t
  bindings : ∃ new, t.bindings = s.bindings ++ new ∧ (A → ∀ b ∈ new, InRange b)
  uses : ∃ new, t.uses = s.uses ++ new ∧ ∀ x ∈ new, B ∨ (Q ∧ x.query = true) → Good x

instance : Std.Refl (Flow K A B Q) where
  refl _ := ⟨rfl, fun h => h, ⟨[], by simp⟩, ⟨[], by simp⟩⟩

instance : IsTrans (SwContext σ) (Flow K A B Q) where
  trans s t u h h' := by
    obtain ⟨b, hb, hA⟩ := h.bindings
    obtain ⟨b', hb', hA'⟩ := h'.bindings
    obtain ⟨x, hx, hB⟩ := h.uses
    obtain ⟨x', hx', hB'⟩ := h'.uses
    refine ⟨h'.node.trans h.node, fun hc => h'.cache (h.cache hc), ⟨b ++ b', ?_, fun ha c hc => ?_⟩,
      ⟨x ++ x', ?_, fun c hc => ?_⟩⟩
    · rw [hb', hb, List.append_assoc]
    · exact (List.mem_append.1 hc).elim (hA ha c) (hA' ha c)
    · rw [hx', hx, List.append_assoc]
    · exact (List.mem_append.1 hc).elim (hB c) (hB' c)

theorem Steady.flow (h : Steady K s t) : Flow K A B Q s t :=
  ⟨h.node, h.cache, ⟨[], by rw [h.bindings, List.append_nil], by simp⟩,
    ⟨[], by rw [h.uses, List.append_nil], by simp⟩⟩

section Helpers
variable {F : Stop → Prop}

theorem keeps_flow {m : Check σ α} (h : Keeps (Steady K) F m) : Keeps (Flow K A B Q) F m :=
  h.mono (fun _ _ hst => Steady.flow hst) fun _ he => he

theorem still_flow {m : Check σ α} (h : Keeps (Still K) F m) : Keeps (Flow K A B Q) F m :=
  keeps_flow (keeps_steady h)

theorem vmwBindingAdd_flow (b : Binding) (hb : A → InRange b) :
    Keeps (Flow K A B Q) F (vmwBindingAdd b) := by
  refine keeps_update fun s => ⟨rfl, fun h => h, ⟨[b], rfl, fun ha c hc => ?_⟩, ⟨[], by simp⟩⟩
  obtain rfl := List.mem_singleton.1 hc
  exact hb ha

theorem noteUse_flow (named used : Option ℕ) (query : Bool)
    (h : B ∨ (Q ∧ query = true) → Good ⟨named, used, query⟩) :
    Keeps (Flow K A B Q) F (noteUse named used query) := by
  refine keeps_update fun s => ⟨rfl, fun h => h, ⟨[], by simp⟩,
    ⟨[⟨named, used, query⟩], rfl, fun c hc => ?_⟩⟩
  obtain rfl := List.mem_singleton.1 hc
  exact h

theorem dxBinding_flow (node : ℕ) (b : ℕ → ℕ → Binding) (hb : ∀ x y, A → InRange (b x y)) :
    Keeps (Flow K A B Q) F (do
      let staged ← stagedOf node
      let c ← ctxOf node
      vmwBindingAdd (b staged c) : Check σ Unit) := by
  refine (keeps_inspect _).bind fun staged => ?_
  exact (keeps_inspect _).bind fun c => vmwBindingAdd_flow _ (hb staged c)

end Helpers

section Resources

theorem vmwCmdResLookup_ok {ty : ResType} {c : Converter} {id : ℕ} {res : Option ℕ}
    (h : vmwCmdResLookup K ty c id s = (.ok res, t)) : ∃ x s₁ s₂ s₃,
      call (K.validationPreloadRes (vmwExecbufResSize K ty)) s = (.ok (), s₁) ∧
      call (K.userResourceLookup c id) s₁ = (.ok x, s₂) ∧
      vmwExecbufResNorefValAdd K x s₂ = (.ok (), s₃) ∧ res = some x ∧
      t = if (s₃.resCache ty).holds x then
          { s₃ with resCache := Function.update s₃.resCache ty ((s₃.resCache ty).named id) }
        else s₃ := by
  obtain ⟨_, s₁, hpre, h⟩ := bind_ok.1 h
  obtain ⟨x, s₂, hlookup, h⟩ := bind_ok.1 h
  obtain ⟨_, s₃, hadded, h⟩ := bind_ok.1 h
  obtain ⟨_, s₄, hnamed, h⟩ := bind_ok.1 h
  obtain ⟨rfl, rfl⟩ := pure_ok.1 h
  exact ⟨x, s₁, s₂, s₃, hpre, hlookup, hadded, rfl, (update_ok.1 hnamed).symm⟩

theorem vmwCmdResCheck_ok {ty : ResType} {c : Converter} {a : ℤ} {res : Option ℕ}
    (hid : word s.mem a ≠ svga3dInvalidId) (h : vmwCmdResCheck K ty c a s = (.ok res, t)) :
    ∃ u ret v,
      (((s.resCache ty).validHandle = true ∧ res = (s.resCache ty).res ∧
          u = { s with idReads := s.idReads ++ [⟨a, word s.mem a⟩] }) ∨
        vmwCmdResLookup K ty c (word s.mem a)
          { s with idReads := s.idReads ++ [⟨a, word s.mem a⟩] } = (.ok res, u)) ∧
      retOf (vmwResourceRelocationAdd K res a .normal) u = (.ok ret, v) ∧
      noteUnrecorded ret a v = (.ok (), t) := by
  obtain ⟨id, _, h₁, h⟩ := bind_ok.1 h
  obtain ⟨rfl, rfl⟩ := inspect_ok.1 h₁
  obtain ⟨_, s₂, h₂, h⟩ := bind_ok.1 h
  obtain rfl := update_ok.1 h₂
  rw [if_neg hid] at h
  obtain ⟨entry, _, h₃, h⟩ := bind_ok.1 h
  obtain ⟨rfl, rfl⟩ := inspect_ok.1 h₃
  obtain ⟨r, u, hfound, h⟩ := bind_ok.1 h
  obtain ⟨ret, v, hret, h⟩ := bind_ok.1 h
  obtain ⟨_, w, hnote, h⟩ := bind_ok.1 h
  obtain ⟨rfl, rfl⟩ := pure_ok.1 h
  refine ⟨u, ret, v, ?_, hret, hnote⟩
  split at hfound
  · rename_i hcached
    obtain ⟨rfl, rfl⟩ := pure_ok.1 hfound
    exact .inl ⟨(Bool.and_eq_true_iff.1 hcached).1, rfl, rfl⟩
  · exact .inr hfound

theorem vmwCmdResCheck_some {ty : ResType} {c : Converter} {a : ℤ} {res : Option ℕ}
    (hc : CacheOk K s) (hid : word s.mem a ≠ svga3dInvalidId)
    (h : vmwCmdResCheck K ty c a s = (.ok res, t)) : res ≠ none := by
  obtain ⟨u, ret, v, ⟨hvalid, rfl, -⟩ | hlookup, -, -⟩ := vmwCmdResCheck_ok hid h
  · obtain ⟨x, hx, -⟩ := (hc.1 ty).1 ((hc.1 ty).2 hvalid)
    simp [hx]
  · obtain ⟨x, -, -, -, -, -, -, rfl, -⟩ := vmwCmdResLookup_ok hlookup
    exact Option.some_ne_none x

theorem vmwCmdResCheck_context_id {c : Converter} {a : ℤ} {res : Option ℕ}
    (h : vmwCmdResCheck K .context c a s = (.ok res, t)) : word s.mem a ≠ svga3dInvalidId := by
  intro hid
  obtain ⟨id, _, h₁, h⟩ := bind_ok.1 h
  obtain ⟨rfl, rfl⟩ := inspect_ok.1 h₁
  obtain ⟨_, s₂, h₂, h⟩ := bind_ok.1 h
  rw [if_pos hid] at h
  exact absurd h stop_ok

theorem vmwCmdResCheck_context {c : Converter} {a : ℤ} {res : Option ℕ} (hc : CacheOk K s)
    (h : vmwCmdResCheck K .context c a s = (.ok res, t)) : res ≠ none :=
  vmwCmdResCheck_some hc (vmwCmdResCheck_context_id h) h

variable [Lenient K (Allowed B N Q)]

theorem vmwCmdResCheck_flow (ty : ResType) (c : Converter) (a : ℤ) :
    Keeps (Flow K A B Q) (Allowed B N Q) (vmwCmdResCheck K ty c a) :=
  keeps_flow (vmwCmdResCheck_steady ty c a)

theorem sidCheck_flow (a : ℤ) : Keeps (Flow K A B Q) (Allowed B N Q) (sidCheck K a) :=
  (vmwCmdResCheck_flow _ _ a).bind fun _ => keeps_pure _

theorem cidCheck_flow (a : ℤ) : Keeps (Flow K A B Q) (Allowed B N Q) (cidCheck K a) :=
  (vmwCmdResCheck_flow _ _ a).bind fun _ => keeps_pure _

theorem sidPairCheck_flow (a b : ℤ) : Keeps (Flow K A B Q) (Allowed B N Q) (sidPairCheck K a b) :=
  (sidCheck_flow a).bind fun _ => sidCheck_flow b

omit [Lenient K (Allowed B N Q)] in
theorem vmwExecbufInfoFromRes_flow (res : Option ℕ) (h : B → res ≠ none) :
    Keeps (Flow K A B Q) (Allowed B N Q) (vmwExecbufInfoFromRes K res) := by
  refine (noteUse_flow res res false fun hb => ⟨rfl, h (by simpa using hb)⟩).bind fun _ => ?_
  refine (still_flow (deref_still res ?_)).bind fun r => keeps_inspect _
  exact fun hnone hb => h hb hnone

/-- The private space of the context for which something is bound. -/
def ctxInfo (K : Kernel σ) (ctx : Option ℕ) : Check σ ℕ := do
  orElse .einval (← vmwExecbufInfoFromRes K ctx)

/-- What the handlers for older contexts end with. -/
def nodeBinding (K : Kernel σ) (ctx : Option ℕ) (b : ℕ → ℕ → Binding) : Check σ Unit := do
  let node ← orElse .einval (← vmwExecbufInfoFromRes K ctx)
  vmwBindingAdd (b (← stagedOf node) (← deref ctx))

omit [Lenient K (Allowed B N Q)] in
theorem nodeBinding_flow {ctx : Option ℕ} {b : ℕ → ℕ → Binding} (hctx : B → ctx ≠ none)
    (hb : A → (∀ x y, InRange (b x y)) ∨ Fails (ctxInfo K ctx) s) :
    KeepsAt (Flow K A B Q) (Allowed B N Q) (nodeBinding K ctx b) s := by
  refine (vmwExecbufInfoFromRes_flow ctx hctx s).bind fun info t ht => ?_
  refine (still_flow (orElse_still _ info) t).bind fun node u hu => ?_
  refine (keeps_inspect _ u).bind fun staged v hv => ?_
  refine (still_flow (deref_still ctx fun hnone hb => hctx hb hnone) v).bind fun c w hw => ?_
  refine vmwBindingAdd_flow _ (fun ha => ?_) w
  obtain h | h := hb ha
  · exact h staged c
  · exact absurd hu (h.rest ht node u)

omit [Lenient K (Allowed B N Q)] in
theorem vmwCmdResSwitchBackup_flow (res : Option ℕ) (bufId : ℤ) (offset : ℕ) (h : B → res ≠ none) :
    Keeps (Flow K A B Q) (Allowed B N Q) (vmwCmdResSwitchBackup K res bufId offset) := by
  refine (vmwExecbufInfoFromRes_flow res h).bind fun info => ?_
  refine (still_flow (orElse_still _ info)).bind fun node => ?_
  refine (still_flow (vmwTranslateMobPtr_still bufId)).bind fun vbo => ?_
  exact still_flow (act_still _)

theorem vmwCmdSwitchBackup_flow {ty : ResType} {c : Converter} {a b : ℤ} {n : ℕ}
    (hc : CacheOk K s) (h : B → word s.mem a ≠ svga3dInvalidId) :
    KeepsAt (Flow K A B Q) (Allowed B N Q) (vmwCmdSwitchBackup K ty c a b n) s := by
  refine (vmwCmdResCheck_flow ty c a s).bind fun res t ht => ?_
  exact vmwCmdResSwitchBackup_flow res b n (fun hb => vmwCmdResCheck_some hc (h hb) ht) t

end Resources

section Older
variable [Lenient K (Allowed B N Q)]

theorem vmwCmdSetRenderTargetCheck_flow (hc : CacheOk K s) :
    KeepsAt (Flow K A B Q) (Allowed B N Q) (vmwCmdSetRenderTargetCheck K p) s := by
  refine KeepsAt.inspect_bind ?_
  refine KeepsAt.require_bind trivial fun htype => ?_
  refine (vmwCmdResCheck_flow _ _ _ s).bind fun ctx t ht => ?_
  have hctx := vmwCmdResCheck_context hc ht
  refine (vmwCmdResCheck_flow _ _ _ t).bind fun res u _ => ?_
  split
  · refine nodeBinding_flow (b := fun staged c => ⟨staged, c, res, .rt, 0, _, []⟩) (fun _ => hctx)
      fun _ => .inl fun _ _ => ?_
    have htype : word s.mem (p + 12) < 10 := of_decide_eq_true htype
    simp [InRange, vmwBindingLoc, single, index, htype]
  · exact keeps_pure _ u

theorem texStateCheck_flow {ctx : Option ℕ} (hctx : ctx ≠ none) (cur : ℤ) :
    Keeps (Flow K A B Q) (Allowed B N Q) (texStateCheck K ctx cur) := by
  intro s
  refine KeepsAt.inspect_bind ?_
  split
  · refine KeepsAt.inspect_bind ?_
    refine KeepsAt.require_bind trivial fun hstage => ?_
    refine (vmwCmdResCheck_flow _ _ _ s).bind fun res t _ => ?_
    split
    · refine nodeBinding_flow (b := fun staged c => ⟨staged, c, res, .tex, 0, _, []⟩)
        (fun _ => hctx) fun _ => .inl fun _ _ => ?_
      have hstage : word s.mem cur < 32 := of_decide_eq_true hstage
      simp [InRange, vmwBindingLoc, single, index, hstage]
    · exact keeps_pure _ t
  · exact keeps_pure _ s

theorem vmwCmdTexState_flow (hc : CacheOk K s) :
    KeepsAt (Flow K A B Q) (Allowed B N Q) (vmwCmdTexState K p) s := by
  refine KeepsAt.inspect_bind ?_
  refine (vmwCmdResCheck_flow _ _ _ s).bind fun ctx t ht => ?_
  have hctx := vmwCmdResCheck_context hc ht
  exact Keeps.repeatFrom (fun i => texStateCheck_flow hctx _) _ _ t

theorem vmwCmdDraw_flow : Keeps (Flow K A B Q) (Allowed B N Q) (vmwCmdDraw K p) := by
  refine (cidCheck_flow _).bind fun _ => ?_
  refine (keeps_inspect _).bind fun size => ?_
  refine (keeps_inspect _).bind fun decls => ?_
  refine (keeps_require _ trivial).bind fun _ => ?_
  refine (Keeps.repeatFrom (fun i => sidCheck_flow _) _ _).bind fun _ => ?_
  refine (keeps_inspect _).bind fun ranges => ?_
  refine (keeps_require _ trivial).bind fun _ => ?_
  exact Keeps.repeatFrom (fun i => sidCheck_flow _) _ _

theorem vmwCmdShaderDefine_flow (hc : CacheOk K s) :
    KeepsAt (Flow K A B Q) (Allowed B N Q) (vmwCmdShaderDefine K p) s := by
  refine (vmwCmdResCheck_flow _ _ _ s).bind fun ctx t ht => ?_
  have hctx := vmwCmdResCheck_context hc ht
  split
  · refine Keeps.bind (keeps_inspect _) (fun size => ?_) t
    refine (keeps_inspect _).bind fun shid => (keeps_inspect _).bind fun type => ?_
    refine (still_flow (deref_still ctx fun h => absurd h hctx)).bind fun c => ?_
    refine (still_flow (call_still _)).bind fun _ => ?_
    exact keeps_flow (vmwResourceRelocationAdd_steady _ _ _)
  · exact keeps_pure _ t

theorem vmwCmdShaderDestroy_flow (hc : CacheOk K s) :
    KeepsAt (Flow K A B Q) (Allowed B N Q) (vmwCmdShaderDestroy K p) s := by
  refine (vmwCmdResCheck_flow _ _ _ s).bind fun ctx t ht => ?_
  have hctx := vmwCmdResCheck_context hc ht
  split
  · refine Keeps.bind (keeps_inspect _) (fun shid => ?_) t
    refine (keeps_inspect _).bind fun type => ?_
    refine (still_flow (deref_still ctx fun h => absurd h hctx)).bind fun c => ?_
    refine (still_flow (call_still _)).bind fun _ => ?_
    exact keeps_flow (vmwResourceRelocationAdd_steady _ _ _)
  · exact keeps_pure _ t

theorem shaderSlot_lt {type n : ℕ} (h : type < n + 1) (hn : n < 2 ^ 32 - 1) (h₀ : type ≠ 0) :
    shaderSlot type < n := by
  unfold shaderSlot svga3dShadertypeMin
  rw [subU32_of_le (by omega) (by omega)]
  omega

/-- What `vmw_cmd_set_shader` looks up before it binds a shader of the type. -/
def setShaderIds (K : Kernel σ) (p : ℤ) (type : ℕ) : Check σ ℕ := do
  let ctx ← vmwCmdResCheck K .context .context (p + 8)
  let shid ← rd (p + 16)
  let compat ← compatShader K ctx shid type
  let _ ← (if compat.isSome then pure compat else vmwCmdResCheck K .shader .shader (p + 16))
  ctxInfo K ctx

theorem vmwCmdSetShader_flow (hc : CacheOk K s) (hA : A → K.hasMob = true →
      word s.mem (p + 12) = 0 → Fails (setShaderIds K p (word s.mem (p + 12))) s) :
    KeepsAt (Flow K A B Q) (Allowed B N Q) (vmwCmdSetShader K p) s := by
  refine KeepsAt.inspect_bind ?_
  refine KeepsAt.require_bind trivial fun htype => ?_
  refine (vmwCmdResCheck_flow _ _ _ s).bind fun ctx t ht => ?_
  have hctx := vmwCmdResCheck_context hc ht
  split
  · rename_i hmob
    have hfail := fun ha h₀ => (hA ha hmob h₀).rest ht
    refine (keeps_inspect _ t).bind fun shid u hu => ?_
    refine (still_flow (compatShader_still ctx _ _ fun h => absurd h hctx) u).bind
      fun compat v hv => ?_
    refine KeepsAt.bind ?_ fun res w hw => ?_
    · split
      · exact keeps_pure _ v
      · exact vmwCmdResCheck_flow _ _ _ v
    · refine nodeBinding_flow (b := fun staged c => ⟨staged, c, res, .shader, _, 0, []⟩)
        (fun _ => hctx) fun ha => ?_
      by_cases h₀ : word s.mem (p + 12) = 0
      · exact .inr ((((hfail ha h₀).rest hu).rest hv).rest hw)
      · have htype : word s.mem (p + 12) < 3 := of_decide_eq_true htype
        have hslot := shaderSlot_lt (n := 3) (by omega) (by norm_num) h₀
        refine .inl fun _ _ => ?_
        simp [InRange, vmwBindingLoc, index, hslot]
  · exact keeps_pure _ t

theorem vmwCmdBindGbShader_flow (hc : CacheOk K s) (hB : B → word s.mem (p + 8) ≠ svga3dInvalidId) :
    KeepsAt (Flow K A B Q) (Allowed B N Q) (vmwCmdBindGbShader K p) s :=
  KeepsAt.inspect_bind (vmwCmdSwitchBackup_flow hc hB)

omit [Lenient K (Allowed B N Q)] in
theorem wr_flow (a : ℤ) (v : ℕ) : Keeps (Flow K A B Q) (Allowed B N Q) (wr a v) :=
  keeps_update fun _ => ⟨rfl, fun h => h, ⟨[], by simp⟩, ⟨[], by simp⟩⟩

end Older

section Cached

structure SameCache (s t : SwContext σ) : Prop where
  resCache : t.resCache = s.resCache

instance : Std.Refl (SameCache (σ := σ)) := ⟨fun _ => ⟨rfl⟩⟩

instance : IsTrans (SwContext σ) SameCache where
  trans _ _ _ h h' := ⟨h'.resCache.trans h.resCache⟩

theorem call_sameCache (op : Op σ α) : Keeps SameCache anyStop (call op) := by
  intro s
  rcases h : op s.rest with ⟨_ | a, u⟩
  · exact keepsAt_of_error (t := { s with rest := u }) _ (by simp only [call, h]; rfl) ⟨rfl⟩ trivial
  · exact keepsAt_of_ok (t := { s with rest := u }) a (by simp only [call, h]) ⟨rfl⟩

theorem memAlloc_sameCache : Keeps SameCache anyStop (memAlloc K) := by
  intro s
  rcases h : K.validationMemAlloc s.rest with ⟨_ | _, u⟩
  · exact keepsAt_of_error (t := { s with rest := u }) _ (by simp only [memAlloc, h]; rfl) ⟨rfl⟩ trivial
  · exact keepsAt_of_ok (t := { s with rest := u }) () (by simp only [memAlloc, h]) ⟨rfl⟩

theorem vmwResourceRelocationAdd_sameCache (res : Option ℕ) (a : ℤ) (relType : RelType) :
    Keeps SameCache anyStop (vmwResourceRelocationAdd K res a relType) :=
  memAlloc_sameCache.bind fun _ => keeps_update fun _ => ⟨rfl⟩

theorem vmwValidationAddBo_sameCache (bo : ℕ) (asMob cpuBlit : Bool) :
    Keeps SameCache anyStop (vmwValidationAddBo K bo asMob cpuBlit) := by
  refine (keeps_inspect _).bind fun dup => ?_
  cases dup
  · exact (call_sameCache _).bind fun _ => keeps_update fun _ => ⟨rfl⟩
  · exact keeps_require _ trivial

theorem vmwTranslatePtr_sameCache (asMob : Bool) (loc : ℤ) :
    Keeps SameCache anyStop (vmwTranslatePtr K asMob loc) := by
  refine (keeps_inspect _).bind fun handle => ?_
  refine (retOf_keeps (call_sameCache _)).bind fun _ => ?_
  refine (call_sameCache _).bind fun bo => ?_
  refine (vmwValidationAddBo_sameCache bo asMob false).bind fun _ => ?_
  refine memAlloc_sameCache.bind fun _ => ?_
  exact (keeps_update fun _ => ⟨rfl⟩).bind fun _ => keeps_pure _

theorem vmwExecbufResNorefValAdd_holds {res : ℕ}
    (h : vmwExecbufResNorefValAdd K res s = (.ok (), t)) :
    (t.resCache (K.resType res)).holds res = true := by
  obtain ⟨b, _, h₁, h⟩ := bind_ok.1 h
  obtain ⟨rfl, rfl⟩ := inspect_ok.1 h₁
  split at h
  · rename_i hholds
    obtain ⟨-, rfl⟩ := pure_ok.1 h
    exact hholds
  · obtain ⟨node, _, -, h⟩ := bind_ok.1 h
    obtain ⟨_, _, -, h⟩ := bind_ok.1 h
    obtain rfl := update_ok.1 h
    simp [CacheEntry.holds, CacheEntry.refreshed]

theorem call_lookup {c : Converter} {handle : ℕ} {P : ℕ → Prop} {r : ℕ}
    (h : call (K.userResourceLookup c handle) s = (.ok r, t))
    (hP : ∀ w r w', K.userResourceLookup c handle w = (.ok r, w') → P r) : P r := by
  unfold call at h
  rcases hop : K.userResourceLookup c handle s.rest with ⟨_ | y, w⟩
  · simp [hop] at h
  · simp only [hop, Prod.mk.injEq, Except.ok.injEq] at h
    exact h.1 ▸ hP _ _ _ hop

theorem relocation_sameCache {res : Option ℕ} {a : ℤ} {ret : Except Errno Unit}
    (hret : retOf (vmwResourceRelocationAdd K res a .normal) s = (.ok ret, u))
    (hnote : noteUnrecorded ret a u = (.ok (), t)) : SameCache s t := by
  have hadd := (retOf_keeps (vmwResourceRelocationAdd_sameCache (K := K) res a .normal)).ok hret
  obtain rfl := update_ok.1 hnote
  exact ⟨hadd.resCache⟩

/-- After a check that found a resource of the type that the command expects, the cache entry
    of that type is the one of the id. -/
theorem vmwCmdResCheck_cached {ty : ResType} {c : Converter} {a : ℤ} {res : Option ℕ}
    (hc : CacheOk K s) (hty : ∀ r, res = some r → K.resType r = ty)
    (hid : word s.mem a ≠ svga3dInvalidId) (h : vmwCmdResCheck K ty c a s = (.ok res, t)) :
    (t.resCache ty).valid = true ∧ (t.resCache ty).res = res := by
  obtain ⟨u, ret, v, hfound, hret, hnote⟩ := vmwCmdResCheck_ok hid h
  rw [(relocation_sameCache hret hnote).resCache]
  obtain ⟨hvalid, rfl, rfl⟩ | hlookup := hfound
  · exact ⟨(hc.1 ty).2 hvalid, rfl⟩
  · obtain ⟨x, s₁, s₂, s₃, -, -, hadded, rfl, rfl⟩ := vmwCmdResLookup_ok hlookup
    have hx : K.resType x = ty := hty x rfl
    have hholds := vmwExecbufResNorefValAdd_holds hadded
    rw [hx] at hholds
    rw [if_pos hholds]
    simp only [CacheEntry.holds, Bool.and_eq_true, decide_eq_true_eq] at hholds
    simpa [CacheEntry.named] using hholds

def SurfacesOk (K : Kernel σ) : Prop := ∀ handle w r w',
  K.userResourceLookup .surface handle w = (.ok r, w') → K.resType r = .surface

theorem vmwCmdResCheck_surface {a : ℤ} {res : Option ℕ} (hK : SurfacesOk K) (hc : CacheOk K s)
    (hid : word s.mem a ≠ svga3dInvalidId)
    (h : vmwCmdResCheck K .surface .surface a s = (.ok res, t)) :
    ∀ r, res = some r → K.resType r = .surface := by
  rintro r rfl
  obtain ⟨u, ret, v, ⟨hvalid, hres, -⟩ | hlookup, -, -⟩ := vmwCmdResCheck_ok hid h
  · obtain ⟨x, hx, htype⟩ := (hc.1 .surface).1 ((hc.1 .surface).2 hvalid)
    rw [hx] at hres
    exact Option.some.inj hres ▸ htype
  · obtain ⟨x, _, _, _, -, hcall, -, hr, -⟩ := vmwCmdResLookup_ok hlookup
    obtain rfl := Option.some.inj hr
    exact call_lookup hcall fun _ _ _ => hK _ _ _ _

end Cached

section Queries

/-- The context of a query that ends has the type that the command expects, if the command gets
    to its buffer. -/
def EndsLegacy (K : Kernel σ) (asMob : Bool) (p : ℤ) (s : SwContext σ) : Prop := ∀ ctx t,
  vmwCmdResCheck K .context .context (p + 8) s = (.ok (some ctx), t) →
    Fails (vmwTranslatePtr K asMob (p + 16)) t ∨ K.resType ctx = .context

theorem queryBoBarrier_flow (o : Option ℕ) (hv : (s.resCache .context).valid = true) :
    KeepsAt (Flow K A B Q) (Allowed B N Q) (queryBoBarrier K o) s := by
  cases o
  · exact keeps_pure _ s
  · refine KeepsAt.bind ?_ fun _ t _ => still_flow (vmwValidationAddBo_still _ _ _) t
    exact keepsAt_of_ok () rfl ⟨rfl, fun h => ⟨h.1, fun _ => hv, h.2.2⟩, ⟨[], by simp⟩, ⟨[], by simp⟩⟩

/-- If the cached context is valid, its use is noted, and what follows notes no other. -/
theorem vmwQueryBoSwitchPrepare_valid (bo : ℕ) (ctx : Option ℕ)
    (hv : (s.resCache .context).valid = true) : ∃ m : Check σ Unit,
      vmwQueryBoSwitchPrepare K ctx bo s =
        m { s with uses := s.uses ++ [⟨ctx, (s.resCache .context).res, true⟩] } ∧
      ∀ A B N Q, KeepsAt (Flow K A B Q) (Allowed B N Q) m
        { s with uses := s.uses ++ [⟨ctx, (s.resCache .context).res, true⟩] } := by
  have hreq : (require (s.resCache .context).valid .bugOn : Check σ Unit) s = (.ok (), s) :=
    require_ok.2 ⟨hv, rfl⟩
  refine ⟨_, (bind_of_ok (m := current) rfl).trans ((bind_of_ok hreq).trans (bind_of_ok rfl)),
    fun A B N Q => ?_⟩
  refine KeepsAt.bind (keeps_update (fun _ => ?_) _) fun _ t ht => ?_
  · exact ⟨rfl, fun h => h, ⟨[], by simp⟩, ⟨[], by simp⟩⟩
  obtain rfl := update_ok.1 ht
  refine KeepsAt.runIf fun _ => ?_
  refine KeepsAt.require_bind trivial fun _ => ?_
  refine KeepsAt.bind (queryBoBarrier_flow _ ?_) fun _ t _ => ?_
  · exact hv
  refine Keeps.bind (keeps_update fun _ => ?_) (fun _ => still_flow (vmwValidationAddBo_still _ _ _)) t
  exact ⟨rfl, fun h => h, ⟨[], by simp⟩, ⟨[], by simp⟩⟩

theorem vmwQueryBoSwitchPrepare_invalid {ctx : Option ℕ} {bo : ℕ}
    (hv : (s.resCache .context).valid = false) :
    vmwQueryBoSwitchPrepare K ctx bo s = (.error .bugOn, s) := by
  simp [vmwQueryBoSwitchPrepare, bind, Run.andThen, current, inspect, require, hv, stop]

theorem vmwQueryBoSwitchPrepare_flow {ctx : Option ℕ} {bo : ℕ}
    (hQ : Q → (s.resCache .context).valid = true)
    (hB : B ∨ Q → Good ⟨ctx, (s.resCache .context).res, true⟩) :
    KeepsAt (Flow K A B Q) (Allowed B N Q) (vmwQueryBoSwitchPrepare K ctx bo) s := by
  cases hv : (s.resCache .context).valid with
  | false =>
    refine keepsAt_of_error .bugOn (vmwQueryBoSwitchPrepare_invalid hv) (Std.Refl.refl s) fun hq => ?_
    rw [hQ hq] at hv
    cases hv
  | true =>
    obtain ⟨m, hrun, hm⟩ := vmwQueryBoSwitchPrepare_valid (K := K) bo ctx hv
    have hnote : Flow K A B Q s _ :=
      (noteUse_flow (F := Allowed B N Q) ctx _ true (fun h => hB (by tauto)) s).state
    have hrest := hm A B N Q
    refine ⟨?_, ?_⟩
    · rw [hrun]
      exact IsTrans.trans _ _ _ hnote hrest.state
    · rw [hrun]
      exact hrest.reason

variable [Lenient K (Allowed B N Q)]

theorem endQuery_flow (asMob : Bool) (hc : CacheOk K s) (hL : B ∨ Q → EndsLegacy K asMob p s) :
    KeepsAt (Flow K A B Q) (Allowed B N Q) (do
      let ctx ← vmwCmdResCheck K .context .context (p + 8)
      let bo ← vmwTranslatePtr K asMob (p + 16)
      vmwQueryBoSwitchPrepare K ctx bo) s := by
  refine (vmwCmdResCheck_flow _ _ _ s).bind fun ctx t ht => ?_
  have hctx := vmwCmdResCheck_context hc ht
  refine (still_flow (vmwTranslatePtr_still asMob _) t).bind fun bo u hu => ?_
  have hsame : u.resCache = t.resCache := ((vmwTranslatePtr_sameCache asMob _).ok hu).resCache
  have hcached : B ∨ Q → (t.resCache .context).valid = true ∧ (t.resCache .context).res = ctx := by
    refine fun h => vmwCmdResCheck_cached hc (fun r hr => ?_) (vmwCmdResCheck_context_id ht) ht
    subst hr
    exact (hL h r t ht).resolve_left fun hfail => hfail bo u hu
  refine vmwQueryBoSwitchPrepare_flow (fun hq => ?_) fun hb => ?_
  · rw [hsame]
    exact (hcached (.inr hq)).1
  · rw [hsame]
    exact ⟨(hcached hb).2, hctx⟩

omit [Lenient K (Allowed B N Q)] in
theorem gbRewrite_flow {id : ℕ} {words : List ℤ} {m : Check σ Unit}
    (h : KeepsAt (Flow K A B Q) (Allowed B N Q) m { s with mem := store s.mem p id }) :
    KeepsAt (Flow K A B Q) (Allowed B N Q) (gbRewrite p id words >>= fun _ => m) s := by
  have hrewrite : KeepsAt (Flow K A B Q) (Allowed B N Q) (gbRewrite p id words) s :=
    keepsAt_of_ok () (gbRewrite_eq (s := s) id words) ⟨rfl, fun h => h, ⟨[], by simp⟩, ⟨[], by simp⟩⟩
  refine hrewrite.bind fun _ t ht => ?_
  rw [gbRewrite_eq] at ht
  cases ht
  exact h

theorem vmwCmdEndGbQuery_flow (hc : CacheOk K s) (hL : B ∨ Q → EndsLegacy K true p s) :
    KeepsAt (Flow K A B Q) (Allowed B N Q) (vmwCmdEndGbQuery K p) s := endQuery_flow true hc hL

/-- The state in which `vmw_cmd_end_query` looks at the ids: the command has been rewritten where
    there are MOBs. -/
def endQueryState (K : Kernel σ) (p : ℤ) (s : SwContext σ) : SwContext σ :=
  if K.hasMob then { s with mem := store s.mem p svga3dCmdEndGbQuery } else s

theorem vmwCmdEndQuery_flow (hc : CacheOk K s)
    (hL : B ∨ Q → EndsLegacy K K.hasMob p (endQueryState K p s)) :
    KeepsAt (Flow K A B Q) (Allowed B N Q) (vmwCmdEndQuery K p) s := by
  unfold endQueryState at hL
  unfold vmwCmdEndQuery
  cases hmob : K.hasMob with
  | true =>
    rw [hmob, if_pos rfl] at hL
    exact gbRewrite_flow (vmwCmdEndGbQuery_flow hc hL)
  | false =>
    rw [hmob, if_neg Bool.false_ne_true] at hL
    exact endQuery_flow false hc hL

theorem vmwCmdBeginQuery_flow : Keeps (Flow K A B Q) (Allowed B N Q) (vmwCmdBeginQuery K p) := by
  intro s
  unfold vmwCmdBeginQuery
  split
  · exact gbRewrite_flow (cidCheck_flow _ _)
  · exact cidCheck_flow _ s

theorem vmwCmdWaitGbQuery_flow : Keeps (Flow K A B Q) (Allowed B N Q) (vmwCmdWaitGbQuery K p) := by
  refine (cidCheck_flow _).bind fun _ => ?_
  exact (still_flow (vmwTranslateMobPtr_still _)).bind fun _ => keeps_pure _

theorem vmwCmdWaitQuery_flow : Keeps (Flow K A B Q) (Allowed B N Q) (vmwCmdWaitQuery K p) := by
  intro s
  unfold vmwCmdWaitQuery
  split
  · exact gbRewrite_flow (vmwCmdWaitGbQuery_flow _)
  · refine Keeps.bind (cidCheck_flow _) (fun _ => ?_) s
    exact (still_flow (vmwTranslateGuestPtr_still _)).bind fun _ => keeps_pure _

theorem vmwCmdSetShaderConst_flow :
    Keeps (Flow K A B Q) (Allowed B N Q) (vmwCmdSetShaderConst K p) := by
  refine (cidCheck_flow _).bind fun _ => ?_
  split
  · exact wr_flow _ _
  · exact keeps_pure _

end Queries

section Dx

theorem dxCtxNode_some {f : ℕ → Check σ β} {node : ℕ} (hnode : s.dxCtxNode = some node) :
    (do
      let o ← dxCtxNode
      let node ← orElse .einval o
      f node : Check σ β) s = f node s := by
  simp [Bind.bind, Run.andThen, dxCtxNode, inspect, hnode, orElse, Pure.pure, Run.result]

theorem dxCtxNode_bind {R : SwContext σ → SwContext σ → Prop} {F : Stop → Prop} [Std.Refl R]
    {f : ℕ → Check σ β} (hF : F (.errno .einval))
    (h : ∀ node, s.dxCtxNode = some node → KeepsAt R F (f node) s) :
    KeepsAt R F (do
      let o ← dxCtxNode
      let node ← orElse .einval o
      f node) s := by
  cases hnode : s.dxCtxNode with
  | none =>
    refine keepsAt_of_error (.errno .einval) ?_ (Std.Refl.refl s) hF
    simp [Bind.bind, Run.andThen, dxCtxNode, inspect, hnode, orElse, fail, stop]
  | some node =>
    have hrun := dxCtxNode_some (f := f) hnode
    exact ⟨hrun ▸ (h node hnode).state, hrun ▸ (h node hnode).reason⟩

theorem indexed_flow (o : Option α) : Keeps (Flow K A B Q) (Allowed B N Q) (indexed o : Check σ α) := by
  cases o
  · exact keeps_stop trivial
  · exact keeps_pure _

theorem contextCotable_run (ctx : ℕ) {i : ℕ} (hi : i < svgaCotableDx10Max) :
    vmwContextCotable K ctx i s = (.ok (.ok (K.cotables ctx i s.rest)), s) := by
  unfold vmwContextCotable inspect
  dsimp only
  rw [if_neg (by omega)]

theorem contextCotable_bind {R : SwContext σ → SwContext σ → Prop} {F : Stop → Prop} {ctx i : ℕ}
    {f : Except Errno (Option ℕ) → Check σ β} (hi : i < svgaCotableDx10Max)
    (h : KeepsAt R F (f (.ok (K.cotables ctx i s.rest))) s) :
    KeepsAt R F (vmwContextCotable K ctx i >>= f) s := by
  have hrun := bind_of_ok (f := f) (contextCotable_run (K := K) (s := s) ctx hi)
  exact ⟨hrun ▸ h.state, hrun ▸ h.reason⟩

/-- The context of a node has a cotable; the pointer to a missing one is NULL. -/
def HasCotable (K : Kernel σ) (node i : ℕ) (s : SwContext σ) : Prop :=
  K.cotables (s.info node).ctx i s.rest ≠ none

theorem vmwCotableNotify_flow {node i id : ℕ} (hB : B → HasCotable K node i t) :
    Keeps (Flow K A B Q) (Allowed B N Q)
      (vmwCotableNotify K (.ok (K.cotables (t.info node).ctx i t.rest)) id) :=
  still_flow (vmwCotableNotify_still _ _ fun hnone hb => hB hb hnone)

theorem vmwCmdDxDefineQuery_flow (hB : B → ∀ node, s.dxCtxNode = some node →
      word s.mem (p + 12) < svga3dQuerytypeMax → HasCotable K node svgaCotableDxquery s) :
    KeepsAt (Flow K A B Q) (Allowed B N Q) (vmwCmdDxDefineQuery K p) s := by
  refine dxCtxNode_bind trivial fun node hnode => ?_
  refine KeepsAt.inspect_bind ?_
  refine KeepsAt.require_bind trivial fun htype => ?_
  refine KeepsAt.inspect_bind ?_
  refine contextCotable_bind (by decide) ?_
  refine KeepsAt.inspect_bind ?_
  exact vmwCotableNotify_flow (fun hb => hB hb node hnode (of_decide_eq_true htype)) s

theorem vmwCmdDxDefineShader_flow
    (hB : B → ∀ node, s.dxCtxNode = some node → HasCotable K node svgaCotableDxshader s) :
    KeepsAt (Flow K A B Q) (Allowed B N Q) (vmwCmdDxDefineShader K p) s := by
  refine dxCtxNode_bind trivial fun node hnode => ?_
  refine KeepsAt.inspect_bind ?_
  refine contextCotable_bind (by decide) ?_
  refine KeepsAt.inspect_bind (KeepsAt.inspect_bind ?_)
  refine Keeps.bind (vmwCotableNotify_flow fun hb => hB hb node hnode) (fun _ => ?_) s
  exact (keeps_inspect _).bind fun man => still_flow (call_still _)

theorem vmwSoCotables_lt {id i : ℕ} (h : vmwSoCotables id = some i) : i < svgaCotableDx10Max := by
  unfold vmwSoCotables at h
  unfold svgaCotableDx10Max
  split at h <;> simp at h <;> omega

theorem vmwCmdDxSoDefine_flow (hB : B → ∀ node i, s.dxCtxNode = some node →
      vmwSoCotables (word s.mem p) = some i → HasCotable K node i s) :
    KeepsAt (Flow K A B Q) (Allowed B N Q) (vmwCmdDxSoDefine K p) s := by
  refine dxCtxNode_bind trivial fun node hnode => ?_
  refine KeepsAt.inspect_bind (KeepsAt.inspect_bind ?_)
  cases hi : vmwSoCotables (word s.mem p) with
  | none => exact KeepsAt.bind (keeps_stop trivial s) fun _ _ h => absurd h stop_ok
  | some i =>
    refine (keeps_pure i s).bind fun j t hj => ?_
    obtain ⟨rfl, rfl⟩ := pure_ok.1 hj
    refine contextCotable_bind (vmwSoCotables_lt hi) (KeepsAt.inspect_bind ?_)
    exact vmwCotableNotify_flow (fun hb => hB hb node i hnode hi) s

theorem vmwViewAdd_flow (man ctx : ℕ) (srf : Option ℕ) (viewType : ViewType) (userKey cmdSize : ℕ)
    (h : B → srf ≠ none) : Keeps (Flow K A B Q) (Allowed B N Q)
      (vmwViewAdd K man ctx srf viewType userKey cmdSize) := by
  refine (indexed_flow _).bind fun size => ?_
  refine (keeps_require _ trivial).bind fun _ => ?_
  refine (keeps_require _ trivial).bind fun _ => ?_
  refine (still_flow (call_still _)).bind fun _ => ?_
  refine (still_flow (deref_still srf fun hnone hb => h hb hnone)).bind fun r => ?_
  exact still_flow (call_still _)

theorem derefNode_bind {R : SwContext σ → SwContext σ → Prop} {F : Stop → Prop} [Std.Refl R]
    {f : ℕ → Check σ β} (h : s.dxCtxNode = none → F .nullNode)
    (hf : ∀ node, s.dxCtxNode = some node → KeepsAt R F (f node) s) :
    KeepsAt R F (do
      let o ← dxCtxNode
      let node ← derefNode o
      f node) s := by
  cases hnode : s.dxCtxNode with
  | none =>
    refine keepsAt_of_error .nullNode ?_ (Std.Refl.refl s) (h hnode)
    simp [Bind.bind, Run.andThen, dxCtxNode, inspect, hnode, derefNode, stop]
  | some node =>
    have hrun : (do
        let o ← dxCtxNode
        let node ← derefNode o
        f node : Check σ β) s = f node s := by
      simp [Bind.bind, Run.andThen, dxCtxNode, inspect, hnode, derefNode, Pure.pure, Run.result]
    exact ⟨hrun ▸ (hf node hnode).state, hrun ▸ (hf node hnode).reason⟩

theorem vmwCmdDxBindQuery_flow
    (hN : N → s.dxCtxNode = none → ∀ bo t, vmwTranslateMobPtr K (p + 12) s ≠ (.ok bo, t)) :
    KeepsAt (Flow K A B Q) (Allowed B N Q) (vmwCmdDxBindQuery K p) s := by
  have hstill := vmwTranslateMobPtr_still (K := K) (F := anyStop) (p + 12)
  refine (still_flow (vmwTranslateMobPtr_still _) s).bind fun bo t ht => ?_
  have hnode : t.dxCtxNode = s.dxCtxNode := (hstill.ok ht).node
  have hupdate : KeepsAt (Flow K A B Q) (Allowed B N Q)
      (update fun s => { s with dxQueryMob := some bo }) t :=
    keeps_update (fun _ => ⟨rfl, fun h => h, ⟨[], by simp⟩, ⟨[], by simp⟩⟩) t
  refine hupdate.bind fun _ u hu => ?_
  obtain rfl := update_ok.1 hu
  refine derefNode_bind (fun hnone hn => hN hn (hnode ▸ hnone) bo t ht) fun node _ => ?_
  refine KeepsAt.inspect_bind ?_
  exact keeps_update (fun _ => ⟨rfl, fun h => h, ⟨[], by simp⟩, ⟨[], by simp⟩⟩) _

theorem vmwViewBindingsAdd_flow {viewType : ViewType} {bt : BindingType} {shaderSlot : ℕ}
    {viewIds : ℤ} {numViews firstSlot : ℕ}
    (hA : A → (∀ i < numViews, vmwBindingLoc bt shaderSlot (addU32 firstSlot i) ≠ none) ∨
      (s.dxCtxNode ≠ none → 0 < numViews → Fails (viewOf K viewType (word s.mem viewIds)) s)) :
    KeepsAt (Flow K A B Q) (Allowed B N Q)
      (vmwViewBindingsAdd K viewType bt shaderSlot viewIds numViews firstSlot) s := by
  refine dxCtxNode_bind trivial fun node hnode => ?_
  by_cases hloc : A → ∀ i < numViews, vmwBindingLoc bt shaderSlot (addU32 firstSlot i) ≠ none
  · refine KeepsAt.repeatFrom (fun _ => True) _ trivial (fun i u _ hi _ => ?_)
      fun _ _ _ _ _ => trivial
    refine Keeps.bind (keeps_inspect _) (fun id => ?_) u
    refine (still_flow (viewOf_still viewType id)).bind fun view => ?_
    exact dxBinding_flow node
      (fun staged c => ⟨staged, c, view, bt, shaderSlot, addU32 firstSlot i, []⟩)
      fun _ _ ha => hloc ha i (by omega)
  -- the first view is not found
  · rw [Classical.not_imp] at hloc
    have hfail := (hA hloc.1).resolve_left hloc.2 (by rw [hnode]; exact Option.some_ne_none _)
    cases numViews with
    | zero => exact keeps_pure _ s
    | succ n =>
      have hview : Fails (viewOf K viewType (word s.mem (viewIds + 4 * (0 : ℕ)))) s := by
        simpa using hfail (Nat.succ_pos n)
      refine KeepsAt.bind (KeepsAt.inspect_bind ?_) fun _ t ht => ?_
      · exact (still_flow (viewOf_still _ _) s).bind fun view t ht => absurd ht (hview view t)
      · obtain ⟨id, _, h₁, h⟩ := bind_ok.1 ht
        obtain ⟨rfl, rfl⟩ := inspect_ok.1 h₁
        obtain ⟨view, u, h₂, -⟩ := bind_ok.1 h
        exact absurd h₂ (hview view u)

theorem vmwCmdDxSetShaderRes_flow (hA : A → word s.mem (p + 12) = 0 → s.dxCtxNode ≠ none →
      word s.mem (p + 8) + elements (word s.mem (p + 4)) 8 4 ≤ svga3dDxMaxSrviews →
        0 < elements (word s.mem (p + 4)) 8 4 →
          Fails (viewOf K .sr (word s.mem (p + 16))) s) :
    KeepsAt (Flow K A B Q) (Allowed B N Q) (vmwCmdDxSetShaderRes K p) s := by
  refine KeepsAt.inspect_bind (KeepsAt.inspect_bind (KeepsAt.inspect_bind ?_))
  refine KeepsAt.require_bind trivial fun hreq => ?_
  simp only [Bool.and_eq_true, decide_eq_true_eq] at hreq
  obtain ⟨hviews, htype⟩ := hreq
  refine vmwViewBindingsAdd_flow fun ha => ?_
  by_cases h₀ : word s.mem (p + 12) = 0
  · exact .inr fun hnode => hA ha h₀ hnode hviews
  · refine .inl fun i hi => ?_
    unfold svga3dDxMaxSrviews at hviews
    unfold svga3dShadertypeDx10Max at htype
    have hslot := shaderSlot_lt (n := 3) htype (by norm_num) h₀
    have hadd : addU32 (word s.mem (p + 8)) i < 128 := by
      rw [addU32_of_lt (by omega)]
      omega
    simp [vmwBindingLoc, index, hslot, hadd]

theorem vmwCmdDxSetShader_flow (hA : A → word s.mem (p + 12) = 0 → s.dxCtxNode ≠ none →
      Fails (dxShader K (word s.mem (p + 8))) s) :
    KeepsAt (Flow K A B Q) (Allowed B N Q) (vmwCmdDxSetShader K p) s := by
  refine dxCtxNode_bind trivial fun node hnode => ?_
  refine KeepsAt.inspect_bind (KeepsAt.inspect_bind ?_)
  refine KeepsAt.require_bind trivial fun htype => ?_
  refine (still_flow (dxShader_still _) s).bind fun res t ht => ?_
  refine dxBinding_flow node (fun staged c => ⟨staged, c, res, .dxShader, _, 0, []⟩)
    (fun _ _ ha => ?_) t
  have h₀ : word s.mem (p + 12) ≠ 0 := fun h₀ =>
    hA ha h₀ (by rw [hnode]; exact Option.some_ne_none _) res t ht
  have hslot := shaderSlot_lt (n := 3) (of_decide_eq_true htype) (by norm_num) h₀
  simp [InRange, vmwBindingLoc, index, hslot]

theorem vmwCmdDxSetRendertargets_flow :
    Keeps (Flow K A B Q) (Allowed B N Q) (vmwCmdDxSetRendertargets K p) := by
  intro s
  refine KeepsAt.inspect_bind ?_
  refine KeepsAt.require_bind trivial fun hnum => ?_
  have hnum : elements (word s.mem (p + 4)) 4 4 ≤ 8 := of_decide_eq_true hnum
  refine KeepsAt.bind (vmwViewBindingsAdd_flow fun _ => .inl fun i hi => ?_)
    fun _ t _ => vmwViewBindingsAdd_flow fun _ => .inl fun i hi => ?_
  · obtain rfl : i = 0 := by omega
    simp [vmwBindingLoc, single, addU32]
  · have hadd : addU32 0 i < 10 := by
      rw [addU32_of_lt (by omega)]
      omega
    simp [vmwBindingLoc, single, index, hadd]

theorem viewIdCheck_flow (viewType : ViewType) (a : ℤ) :
    Keeps (Flow K A B Q) (Allowed B N Q) (viewIdCheck K viewType a) := by
  refine (keeps_inspect _).bind fun id => ?_
  exact (still_flow (vmwViewIdValAdd_still viewType id)).bind fun _ => keeps_pure _

theorem vmwCmdDxCidCheck_flow : Keeps (Flow K A B Q) (Allowed B N Q) (vmwCmdDxCidCheck : Check σ Unit) :=
  fun _ => dxCtxNode_bind trivial fun _ _ => keeps_pure _ _

theorem vmwCmdDxDestroyShader_flow :
    Keeps (Flow K A B Q) (Allowed B N Q) (vmwCmdDxDestroyShader K p) := by
  intro s
  refine dxCtxNode_bind trivial fun _ _ => ?_
  refine KeepsAt.inspect_bind (KeepsAt.inspect_bind ?_)
  exact still_flow (call_still _) s

theorem vmwCmdDxViewRemove_flow : Keeps (Flow K A B Q) (Allowed B N Q) (vmwCmdDxViewRemove K p) := by
  intro s
  refine KeepsAt.inspect_bind ?_
  refine dxCtxNode_bind trivial fun _ _ => ?_
  refine KeepsAt.inspect_bind (KeepsAt.inspect_bind ?_)
  refine Keeps.bind ?_ (fun view => ?_) s
  · exact (keeps_require _ trivial).bind fun _ => still_flow (call_still _)
  · cases view
    · exact keeps_pure _
    · exact keeps_flow (vmwResourceRelocationAdd_steady _ _ _)

variable [Lenient K (Allowed B N Q)]

theorem vmwCmdDxSetSingleConstantBuffer_flow :
    Keeps (Flow K A B Q) (Allowed B N Q) (vmwCmdDxSetSingleConstantBuffer K p) := by
  intro s
  refine dxCtxNode_bind trivial fun node _ => ?_
  refine (vmwCmdResCheck_flow _ _ _ s).bind fun res t _ => ?_
  refine KeepsAt.inspect_bind (KeepsAt.inspect_bind (KeepsAt.inspect_bind (KeepsAt.inspect_bind ?_)))
  refine KeepsAt.require_bind trivial fun hreq => ?_
  simp only [Bool.and_eq_true, decide_eq_true_eq] at hreq
  obtain ⟨hshader, hslot⟩ := hreq
  refine dxBinding_flow node (fun staged c => ⟨staged, c, res, .cb, _, _, _⟩) (fun _ _ _ => ?_) t
  unfold svga3dNumShadertypeDx10 at hshader
  unfold svga3dDxMaxConstbuffers at hslot
  simp [InRange, vmwBindingLoc, index, hshader, hslot]

theorem vmwCmdDxSetIndexBuffer_flow :
    Keeps (Flow K A B Q) (Allowed B N Q) (vmwCmdDxSetIndexBuffer K p) := by
  intro s
  refine dxCtxNode_bind trivial fun node _ => ?_
  refine (vmwCmdResCheck_flow _ _ _ s).bind fun res t _ => ?_
  refine KeepsAt.inspect_bind (KeepsAt.inspect_bind ?_)
  refine dxBinding_flow node (fun staged c => ⟨staged, c, res, .ib, 0, 0, _⟩) (fun _ _ _ => ?_) t
  simp [InRange, vmwBindingLoc, single]

theorem vmwCmdDxSetVertexBuffers_flow :
    Keeps (Flow K A B Q) (Allowed B N Q) (vmwCmdDxSetVertexBuffers K p) := by
  intro s
  refine dxCtxNode_bind trivial fun node _ => ?_
  refine KeepsAt.inspect_bind (KeepsAt.inspect_bind ?_)
  refine KeepsAt.require_bind trivial fun hreq => ?_
  have hreq := of_decide_eq_true hreq
  refine KeepsAt.repeatFrom (fun _ => True) _ trivial (fun i u _ hi _ => ?_) fun _ _ _ _ _ => trivial
  refine (vmwCmdResCheck_flow _ _ _ u).bind fun res t _ => ?_
  refine KeepsAt.inspect_bind (KeepsAt.inspect_bind ?_)
  refine dxBinding_flow node (fun staged c => ⟨staged, c, res, .vb, 0, _, _⟩) (fun _ _ _ => ?_) t
  have hstart := word_lt s.mem (p + 8)
  have hnum : numElements (word s.mem (p + 4)) < 2 ^ 31 :=
    Int.bmod_lt (m := 2 ^ 32) (by norm_num)
  rw [Int.emod_eq_of_lt (by omega) (by omega)] at hreq
  unfold svga3dDxMaxVertexbuffers at hreq
  have hadd : addU32 i (word s.mem (p + 8)) < 32 := by
    rw [addU32_of_lt (by omega)]
    omega
  simp [InRange, vmwBindingLoc, single, index, hadd]

theorem vmwCmdDxSetSoTargets_flow :
    Keeps (Flow K A B Q) (Allowed B N Q) (vmwCmdDxSetSoTargets K p) := by
  intro s
  refine dxCtxNode_bind trivial fun node _ => ?_
  refine KeepsAt.inspect_bind ?_
  refine KeepsAt.require_bind trivial fun hreq => ?_
  have hreq : numElements (word s.mem (p + 4)) ≤ 4 := of_decide_eq_true hreq
  refine KeepsAt.repeatFrom (fun _ => True) _ trivial (fun i u _ hi _ => ?_) fun _ _ _ _ _ => trivial
  refine (vmwCmdResCheck_flow _ _ _ u).bind fun res t _ => ?_
  refine KeepsAt.inspect_bind (KeepsAt.inspect_bind ?_)
  refine dxBinding_flow node (fun staged c => ⟨staged, c, res, .so, 0, _, _⟩) (fun _ _ _ => ?_) t
  have hi : i < 4 := by omega
  simp [InRange, vmwBindingLoc, single, index, hi]

theorem vmwCmdDxBindShader_flow (hc : CacheOk K s) :
    KeepsAt (Flow K A B Q) (Allowed B N Q) (vmwCmdDxBindShader K p) s := by
  refine KeepsAt.inspect_bind ?_
  have hctx : KeepsAt (Flow K A B Q) (Allowed B N Q)
      (if word s.mem (p + 8) ≠ svga3dInvalidId then vmwCmdResCheck K .context .context (p + 8)
        else dxContext) s := by
    split
    · exact vmwCmdResCheck_flow _ _ _ s
    · exact still_flow dxContext_still s
  refine hctx.bind fun ctx t ht => ?_
  have hsome : ctx ≠ none := by
    split at ht
    · exact vmwCmdResCheck_context hc ht
    · obtain ⟨o, _, h₁, ht⟩ := bind_ok.1 ht
      obtain ⟨n, _, h₂, ht⟩ := bind_ok.1 ht
      obtain ⟨c, _, h₃, ht⟩ := bind_ok.1 ht
      obtain ⟨rfl, -⟩ := pure_ok.1 ht
      simp
  refine Keeps.bind (keeps_inspect _) (fun shid => ?_) t
  refine (still_flow (deref_still ctx fun h => absurd h hsome)).bind fun c => ?_
  refine (still_flow (call_still _)).bind fun res => ?_
  refine (still_flow (vmwExecbufResNoctxValAdd_still res)).bind fun _ => ?_
  refine (keeps_inspect _).bind fun offset => ?_
  exact vmwCmdResSwitchBackup_flow _ _ _ fun _ => by simp

theorem vmwViewCotables_lt {viewType : ViewType} {i : ℕ} (h : vmwViewCotables viewType = some i) :
    i < svgaCotableDx10Max := by
  unfold svgaCotableDx10Max
  cases viewType <;> simp [vmwViewCotables] at h <;> omega

/-- If a view definition gets to its cotable, the context has it, and if it is then defined, the
    surface is not the invalid one. -/
def ViewDefineOk (K : Kernel σ) (p : ℤ) (s : SwContext σ) : Prop := ∀ node i srf t,
  s.dxCtxNode = some node → vmwViewCotables (vmwViewCmdToType (word s.mem p)) = some i →
    vmwCmdResCheck K .surface .surface (p + 12) s = (.ok srf, t) → HasCotable K node i t ∧
      (word t.mem (p + 8) < svgaCotableMaxIds → word s.mem (p + 12) ≠ svga3dInvalidId)

theorem vmwCotableNotify_ok {res : Except Errno (Option ℕ)} {id : ℕ}
    (h : vmwCotableNotify K res id s = (.ok (), t)) : id < svgaCotableMaxIds := by
  obtain ⟨_, _, -, h⟩ := bind_ok.1 h
  obtain ⟨hid, -⟩ := require_bind_ok.1 h
  exact of_decide_eq_true (Bool.and_eq_true_iff.1 hid).2

theorem vmwCmdDxViewDefine_flow (hc : CacheOk K s) (hB : B → ViewDefineOk K p s) :
    KeepsAt (Flow K A B Q) (Allowed B N Q) (vmwCmdDxViewDefine K p) s := by
  refine dxCtxNode_bind trivial fun node hnode => ?_
  refine KeepsAt.inspect_bind ?_
  refine KeepsAt.require_bind trivial fun _ => ?_
  refine (vmwCmdResCheck_flow _ _ _ s).bind fun srf t ht => ?_
  refine KeepsAt.inspect_bind ?_
  cases hi : vmwViewCotables (vmwViewCmdToType (word s.mem p)) with
  | none => exact KeepsAt.bind (keeps_stop trivial t) fun _ _ h => absurd h stop_ok
  | some i =>
    refine (keeps_pure i t).bind fun j u hj => ?_
    obtain ⟨rfl, rfl⟩ := pure_ok.1 hj
    refine contextCotable_bind (vmwViewCotables_lt hi) (KeepsAt.inspect_bind ?_)
    refine (vmwCotableNotify_flow (fun hb => (hB hb node i srf t hnode hi ht).1) t).bind
      fun _ u hu => ?_
    have hsome : B → srf ≠ none := fun hb =>
      vmwCmdResCheck_some hc ((hB hb node i srf t hnode hi ht).2 (vmwCotableNotify_ok hu)) ht
    refine Keeps.bind (keeps_inspect _) (fun size => (keeps_inspect _).bind fun man => ?_) u
    refine (noteUse_flow srf srf false fun hb => ⟨rfl, hsome (by simpa using hb)⟩).bind fun _ => ?_
    exact vmwViewAdd_flow _ _ _ _ _ _ hsome

omit [Lenient K (Allowed B N Q)] in
theorem dmaGuest_flow : Keeps (Flow K A B Q) (Allowed B N Q) (dmaGuest K p) := by
  refine (keeps_inspect _).bind fun size => (keeps_inspect _).bind fun suffixSize => ?_
  refine (keeps_require _ trivial).bind fun _ => ?_
  refine (still_flow (vmwTranslateGuestPtr_still _)).bind fun bo => ?_
  refine (keeps_inspect _).bind fun offset => ?_
  refine (keeps_require _ trivial).bind fun _ => ?_
  refine (keeps_inspect _).bind fun maximum => ?_
  exact ((wr_flow _ _).runIf _).bind fun _ => keeps_pure _

theorem vmwCmdDma_flow (hc : CacheOk K s)
    (hB : B → SurfacesOk K ∧
      ∀ bo t, dmaGuest K p s = (.ok bo, t) → word t.mem (p + 20) ≠ svga3dInvalidId) :
    KeepsAt (Flow K A B Q) (Allowed B N Q) (vmwCmdDma K p) s := by
  have hguest := dmaGuest_flow (K := K) (A := A) (B := B) (N := N) (Q := Q) (p := p) s
  refine hguest.bind fun bo t ht => ?_
  have hct : CacheOk K t := (hguest.ok ht).cache hc
  refine (vmwCmdResCheck_flow _ _ _ t).bind fun named u hu => ?_
  refine KeepsAt.inspect_bind ?_
  have hgood : B → Good ⟨named, (u.resCache .surface).res, false⟩ := by
    intro hb
    have hid := (hB hb).2 bo t ht
    refine ⟨(vmwCmdResCheck_cached hct (vmwCmdResCheck_surface (hB hb).1 hct hid hu) hid hu).2, ?_⟩
    exact vmwCmdResCheck_some hct hid hu
  refine Keeps.bind (noteUse_flow named _ false fun hb => hgood (by simpa using hb)) (fun _ => ?_) u
  refine (still_flow (deref_still _ fun hnone hb => ?_)).bind fun r => still_flow (act_still _)
  have := hgood hb
  rw [hnone] at this
  exact this.2 this.1.symm

end Dx

end Vmwgfx.ExecbufFlow
