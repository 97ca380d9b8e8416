import Vmwgfx.ExecbufFlow
import Vmwgfx.ExecbufFraming

set_option autoImplicit false

/-!
# Safety of the command checker

The four questions about handlers are asked of whole submissions: of all commands that
`vmw_cmd_check_all` comes to, also of the one at which it fails. A submission starts with
the tied context, if the caller gave one.
-/
namespace Vmwgfx.ExecbufSafety
open Word32 ByteStore FailingState LabelledRuns BindingSlots ExecbufState ExecbufHandlers
  ExecbufVerifier ExecbufTrail ExecbufFields ExecbufFraming ExecbufFlow

variable {σ α : Type} {K : Kernel σ} {A B N Q : Prop} {p : ℤ} {s t : SwContext σ}

section Conditions

/-- A command that sets a shader or shader resources of the type zero stops before the first
    binding. -/
def SlotsOk (K : Kernel σ) (p : ℤ) (s : SwContext σ) : Handler → Prop
  | .setShader => K.hasMob = true → word s.mem (p + 12) = 0 →
      Fails (setShaderIds K p (word s.mem (p + 12))) s
  | .dxSetShader => word s.mem (p + 12) = 0 → s.dxCtxNode ≠ none →
      Fails (dxShader K (word s.mem (p + 8))) s
  | .dxSetShaderRes => word s.mem (p + 12) = 0 → s.dxCtxNode ≠ none →
      word s.mem (p + 8) + elements (word s.mem (p + 4)) 8 4 ≤ svga3dDxMaxSrviews →
        0 < elements (word s.mem (p + 4)) 8 4 → Fails (viewOf K .sr (word s.mem (p + 16))) s
  | _ => True

/-- The context of a query that ends is of the older kind, if the command gets to its buffer. -/
def QueryOk (K : Kernel σ) (p : ℤ) (s : SwContext σ) : Handler → Prop
  | .endGbQuery => EndsLegacy K true p s
  | .endQuery => EndsLegacy K K.hasMob p (endQueryState K p s)
  | _ => True

/-- The ids of resources that are followed are valid: the resource that gets a new backup, the
    surface of a view and the surface of a DMA at the time it is checked. A definition in a
    cotable that gets there finds the cotable. -/
def NamesOk (K : Kernel σ) (p : ℤ) (s : SwContext σ) : Handler → Prop
  | .bindGbSurface | .bindGbShader => word s.mem (p + 8) ≠ svga3dInvalidId
  | .dxViewDefine => ViewDefineOk K p s
  | .dxDefineQuery => ∀ node, s.dxCtxNode = some node →
      word s.mem (p + 12) < svga3dQuerytypeMax → HasCotable K node svgaCotableDxquery s
  | .dxSoDefine => ∀ node i, s.dxCtxNode = some node →
      vmwSoCotables (word s.mem p) = some i → HasCotable K node i s
  | .dxDefineShader => ∀ node, s.dxCtxNode = some node → HasCotable K node svgaCotableDxshader s
  | .dma => ∀ bo t, dmaGuest K p s = (.ok bo, t) → word t.mem (p + 20) ≠ svga3dInvalidId
  | func => QueryOk K p s func

/-- No query is bound without a context, unless its MOB cannot be translated. -/
def NodeOk (K : Kernel σ) (p : ℤ) (s : SwContext σ) : Handler → Prop
  | .dxBindQuery => s.dxCtxNode = none → ∀ bo t, vmwTranslateMobPtr K (p + 12) s ≠ (.ok bo, t)
  | _ => True

def Relied (K : Kernel σ) : Prop := CotablesPresent K ∧ SurfacesOk K

theorem NamesOk.query {func : Handler} (h : NamesOk K p s func) : QueryOk K p s func := by
  cases func <;> first | exact h | trivial

end Conditions

theorem lenient_of (h : B → Relied K) : Lenient K (Allowed B N Q) := by
  by_cases hb : B
  · exact { cotables := .inr (h hb).1 }
  · exact { cotables := .inl hb }

theorem run_flow {func : Handler} (hc : CacheOk K s) (hA : A → SlotsOk K p s func)
    (hK : B → Relied K) (hB : B → NamesOk K p s func) (hN : N → NodeOk K p s func)
    (hQ : Q → QueryOk K p s func) :
    KeepsAt (Flow K A B Q) (Allowed B N Q) (func.run K p) s := by
  have := lenient_of (N := N) (Q := Q) hK
  cases func with
  | invalid => exact keeps_stop trivial s
  | ok => exact keeps_pure _ s
  | cidCheck => exact cidCheck_flow _ s
  | setRenderTargetCheck => exact vmwCmdSetRenderTargetCheck_flow hc
  | surfaceCopyCheck => exact sidPairCheck_flow _ _ s
  | bufferCopyCheck => exact sidPairCheck_flow _ _ s
  | predCopyCheck => exact sidPairCheck_flow _ _ s
  | stretchBltCheck => exact sidPairCheck_flow _ _ s
  | bltSurfScreenCheck => exact sidCheck_flow _ s
  | presentCheck => exact sidCheck_flow _ s
  | dxDefineQuery => exact vmwCmdDxDefineQuery_flow hB
  | dxBindQuery => exact vmwCmdDxBindQuery_flow hN
  | beginGbQuery => exact cidCheck_flow _ s
  | beginQuery => exact vmwCmdBeginQuery_flow s
  | endGbQuery => exact vmwCmdEndGbQuery_flow hc fun h => h.elim hB hQ
  | endQuery => exact vmwCmdEndQuery_flow hc fun h => h.elim hB hQ
  | waitGbQuery => exact vmwCmdWaitGbQuery_flow s
  | waitQuery => exact vmwCmdWaitQuery_flow s
  | dma => exact vmwCmdDma_flow hc fun hb => ⟨(hK hb).2, hB hb⟩
  | draw => exact vmwCmdDraw_flow s
  | texState => exact vmwCmdTexState_flow hc
  | bindGbSurface => exact vmwCmdSwitchBackup_flow hc hB
  | updateGbImage => exact sidCheck_flow _ s
  | updateGbSurface => exact sidCheck_flow _ s
  | readbackGbImage => exact sidCheck_flow _ s
  | readbackGbSurface => exact sidCheck_flow _ s
  | invalidateGbImage => exact sidCheck_flow _ s
  | invalidateGbSurface => exact sidCheck_flow _ s
  | shaderDefine => exact vmwCmdShaderDefine_flow hc
  | shaderDestroy => exact vmwCmdShaderDestroy_flow hc
  | setShader => exact vmwCmdSetShader_flow hc hA
  | setShaderConst => exact vmwCmdSetShaderConst_flow s
  | bindGbShader => exact vmwCmdBindGbShader_flow hc hB
  | dxSetSingleConstantBuffer => exact vmwCmdDxSetSingleConstantBuffer_flow s
  | dxSetShaderRes => exact vmwCmdDxSetShaderRes_flow hA
  | dxSetShader => exact vmwCmdDxSetShader_flow hA
  | dxSetVertexBuffers => exact vmwCmdDxSetVertexBuffers_flow s
  | dxSetIndexBuffer => exact vmwCmdDxSetIndexBuffer_flow s
  | dxSetRendertargets => exact vmwCmdDxSetRendertargets_flow s
  | dxClearRendertargetView => exact viewIdCheck_flow _ _ s
  | dxClearDepthstencilView => exact viewIdCheck_flow _ _ s
  | dxViewDefine => exact vmwCmdDxViewDefine_flow hc hB
  | dxSetSoTargets => exact vmwCmdDxSetSoTargets_flow s
  | dxSoDefine => exact vmwCmdDxSoDefine_flow hB
  | dxCheckSubresource => exact sidCheck_flow _ s
  | dxCidCheck => exact vmwCmdDxCidCheck_flow s
  | dxViewRemove => exact vmwCmdDxViewRemove_flow s
  | dxDefineShader => exact vmwCmdDxDefineShader_flow hB
  | dxDestroyShader => exact vmwCmdDxDestroyShader_flow s
  | dxBindShader => exact vmwCmdDxBindShader_flow hc
  | dxGenmips => exact viewIdCheck_flow _ _ s
  | dxTransferFromBuffer => exact sidPairCheck_flow _ _ s
  | intraSurfaceCopy => exact Keeps.bind (keeps_require _ trivial) (fun _ => sidCheck_flow _) s

section Converses

theorem mem_bindings {F : Stop → Prop} {m : Check σ α} {b : Binding}
    (h : KeepsAt (Flow K A B Q) F m s) (hb : b ∈ s.bindings) : b ∈ (m s).2.bindings := by
  obtain ⟨new, hnew, -⟩ := h.state.bindings
  rw [hnew]
  exact List.mem_append_left _ hb

theorem setShader_binds {node : ℕ} (hc : CacheOk K s) (hmob : K.hasMob = true)
    (h₀ : word s.mem (p + 12) = 0)
    (h : setShaderIds K p (word s.mem (p + 12)) s = (.ok node, t)) :
    ∃ b ∈ (vmwCmdSetShader K p s).2.bindings, ¬InRange b := by
  obtain ⟨ctx, u, hctx, h⟩ := bind_ok.1 h
  obtain ⟨shid, _, h₁, h⟩ := bind_ok.1 h
  obtain ⟨rfl, rfl⟩ := inspect_ok.1 h₁
  obtain ⟨compat, v, hcompat, h⟩ := bind_ok.1 h
  obtain ⟨res, w, hres, h⟩ := bind_ok.1 h
  obtain ⟨info, x, hinfo, hnode⟩ := bind_ok.1 h
  obtain ⟨c, rfl⟩ := Option.ne_none_iff_exists'.1 (vmwCmdResCheck_context hc hctx)
  have htype : decide (word s.mem (p + 12) < svga3dShadertypePredxMax) = true := by
    rw [h₀]
    rfl
  have hrun : vmwCmdSetShader K p s = (.ok (), { t with
      bindings := t.bindings ++ [⟨(t.info node).staged, c, res, .shader,
        shaderSlot (word s.mem (p + 12)), 0, []⟩] }) := by
    refine (bind_of_ok rfl).trans <| (bind_of_ok ((require_ok (a := ())).2 ⟨htype, rfl⟩)).trans <|
      (bind_of_ok hctx).trans ?_
    rw [if_pos hmob]
    exact (bind_of_ok rfl).trans <| (bind_of_ok hcompat).trans <| (bind_of_ok hres).trans <|
      (bind_of_ok hinfo).trans <| (bind_of_ok hnode).trans rfl
  rw [hrun]
  refine ⟨_, List.mem_append_right _ (List.mem_singleton_self _), ?_⟩
  rw [h₀]
  exact not_not.2 rfl

theorem dxSetShader_binds {node : ℕ} {res : Option ℕ} (hnode : s.dxCtxNode = some node)
    (h₀ : word s.mem (p + 12) = 0) (h : dxShader K (word s.mem (p + 8)) s = (.ok res, t)) :
    ∃ b ∈ (vmwCmdDxSetShader K p s).2.bindings, ¬InRange b := by
  have htype : decide (word s.mem (p + 12) < svga3dShadertypeDx10Max) = true := by
    rw [h₀]
    rfl
  have hrun : vmwCmdDxSetShader K p s = (.ok (), { t with
      bindings := t.bindings ++ [⟨(t.info node).staged, (t.info node).ctx, res, .dxShader,
        shaderSlot (word s.mem (p + 12)), 0, []⟩] }) :=
    (dxCtxNode_some hnode).trans <| (bind_of_ok rfl).trans <| (bind_of_ok rfl).trans <|
      (bind_of_ok ((require_ok (a := ())).2 ⟨htype, rfl⟩)).trans <| (bind_of_ok h).trans rfl
  rw [hrun]
  refine ⟨_, List.mem_append_right _ (List.mem_singleton_self _), ?_⟩
  rw [h₀]
  exact not_not.2 rfl

theorem dxSetShaderRes_binds {node : ℕ} {view : Option ℕ} (hnode : s.dxCtxNode = some node)
    (h₀ : word s.mem (p + 12) = 0)
    (hviews : word s.mem (p + 8) + elements (word s.mem (p + 4)) 8 4 ≤ svga3dDxMaxSrviews)
    (hpos : 0 < elements (word s.mem (p + 4)) 8 4)
    (h : viewOf K .sr (word s.mem (p + 16)) s = (.ok view, t)) :
    ∃ b ∈ (vmwCmdDxSetShaderRes K p s).2.bindings, ¬InRange b := by
  obtain ⟨n, hn⟩ := Nat.exists_eq_succ_of_ne_zero hpos.ne'
  have hreq : (require (decide (word s.mem (p + 8) + elements (word s.mem (p + 4)) 8 4 ≤
      svga3dDxMaxSrviews) && decide (word s.mem (p + 12) < svga3dShadertypeDx10Max))
      (.errno .einval) : Check σ Unit) s = (.ok (), s) :=
    require_ok.2 ⟨by rw [decide_eq_true hviews, h₀]; rfl, rfl⟩
  have hrun : vmwCmdDxSetShaderRes K p s = vmwViewBindingsAdd K .sr .sr
      (shaderSlot (word s.mem (p + 12))) (p + 16) (elements (word s.mem (p + 4)) 8 4)
      (word s.mem (p + 8)) s :=
    (bind_of_ok rfl).trans <| (bind_of_ok rfl).trans <| (bind_of_ok rfl).trans <| bind_of_ok hreq
  rw [hrun, hn]
  have hview : viewOf K .sr (word s.mem (p + 16 + 4 * (0 : ℕ))) s = (.ok view, t) := by
    simpa using h
  have hadd : vmwViewBindingsAdd K .sr .sr (shaderSlot (word s.mem (p + 12))) (p + 16) (n + 1)
      (word s.mem (p + 8)) s = repeatFrom (fun i => do
        let id ← rd (p + 16 + 4 * i)
        let view ← viewOf K .sr id
        vmwBindingAdd ⟨← stagedOf node, ← ctxOf node, view, .sr,
          shaderSlot (word s.mem (p + 12)), addU32 (word s.mem (p + 8)) i, []⟩) 1 n
        { t with
          bindings := t.bindings ++ [⟨(t.info node).staged, (t.info node).ctx, view, .sr,
            shaderSlot (word s.mem (p + 12)), addU32 (word s.mem (p + 8)) 0, []⟩] } :=
    (dxCtxNode_some hnode).trans <|
      bind_of_ok ((bind_of_ok rfl).trans <| (bind_of_ok hview).trans rfl)
  rw [hadd]
  refine ⟨_, mem_bindings (K := K) (A := False) (B := False) (Q := False) (F := anyStop)
    (Keeps.repeatFrom (fun i => ?_) n 1 _)
    (List.mem_append_right _ (List.mem_singleton_self _)), ?_⟩
  · refine (keeps_inspect _).bind fun id => (still_flow (viewOf_still .sr id)).bind fun view => ?_
    exact dxBinding_flow node (fun x y => ⟨x, y, view, .sr, _, _, []⟩) fun _ _ ha => ha.elim
  · rw [h₀]
    exact not_not.2 rfl

theorem slotsOk_of_inRange {func : Handler} (hc : CacheOk K s)
    (h : ∀ b ∈ (func.run K p s).2.bindings, InRange b) : SlotsOk K p s func := by
  have hbad : ¬∃ b ∈ (func.run K p s).2.bindings, ¬InRange b := fun ⟨b, hb, hout⟩ => hout (h b hb)
  unfold SlotsOk
  split
  · exact fun hmob h₀ node t ht => hbad (setShader_binds hc hmob h₀ ht)
  · intro h₀ hnode res t ht
    obtain ⟨node, hnode⟩ := Option.ne_none_iff_exists'.1 hnode
    exact hbad (dxSetShader_binds hnode h₀ ht)
  · intro h₀ hnode hviews hpos view t ht
    obtain ⟨node, hnode⟩ := Option.ne_none_iff_exists'.1 hnode
    exact hbad (dxSetShaderRes_binds hnode h₀ hviews hpos ht)
  · trivial

end Converses

section Commands

/-- The handler that `vmw_cmd_check` calls for the command at the cursor. -/
structure Calls (K : Kernel σ) (l : Loop σ) (e : CmdEntry) : Prop where
  left : 0 < l.curSize
  is3d : svgaCmdMax ≤ word l.sw.mem l.buf
  fits : addU32 (word l.sw.mem (l.buf + 4)) 8 ≤ l.curSize.toNat
  known : subU32 (word l.sw.mem l.buf) svga3dCmdBase < svga3dCmdMax - svga3dCmdBase
  entry : cmdEntry (word l.sw.mem l.buf) = some e
  allowed : (e.userAllow || l.sw.kernel) = true
  legacy : (!(e.gbDisable && K.gb)) = true
  guest : (!(e.gbEnable && !K.gb)) = true

/-- All commands that the checker comes to meet `P`. -/
def EveryCall (K : Kernel σ) (l : Loop σ) (P : ℤ → SwContext σ → Handler → Prop) : Prop :=
  ∀ as m e, Runs (pass K) anyLabel l as m → Calls K m e → P m.buf m.sw e.func

theorem everyCall_single {l l' : Loop σ} {k : ℕ} {P : ℤ → SwContext σ → Handler → Prop}
    (h : pass K l k = some l') (hend : l'.curSize ≤ 0)
    (hP : ∀ e, cmdEntry (word l.sw.mem l.buf) = some e → P l.buf l.sw e.func) : EveryCall K l P := by
  intro as m e hruns he
  cases hruns with
  | refl => exact hP e he.entry
  | next _ hstep tail =>
    obtain ⟨-, t, ht, hl⟩ := pass_some h
    obtain ⟨-, t', ht', hl'⟩ := pass_some hstep
    rw [ht] at ht'
    cases ht'
    rw [← hl] at hl'
    subst hl'
    cases tail with
    | refl =>
      have := he.left
      omega
    | next _ hstep' _ =>
      have := (pass_some hstep').1
      omega

theorem runEntry_flow {func : Handler} {F : Stop → Prop} {R : SwContext σ → SwContext σ → Prop}
    [Std.Refl R] (hF : F (.errno .einval)) (h : KeepsAt R F (func.run K p) s) :
    KeepsAt R F (runEntry K func p) s := by
  have hstate := h.state
  have hreason := h.reason
  have hdef : runEntry K func p s = runEntry K func p s := rfl
  rcases hm : func.run K p s with ⟨r, t⟩
  rw [hm] at hstate hreason
  conv_rhs at hdef => simp only [runEntry, bind, Run.andThen, retOf, hm]
  rcases r with (e | _ | _ | _ | _) | a
  · exact keepsAt_of_error (.errno .einval) hdef hstate hF
  · exact keepsAt_of_error .nullRes hdef hstate (hreason _ rfl)
  · exact keepsAt_of_error .nullNode hdef hstate (hreason _ rfl)
  · exact keepsAt_of_error .bugOn hdef hstate (hreason _ rfl)
  · exact keepsAt_of_error .badIndex hdef hstate (hreason _ rfl)
  · exact keepsAt_of_ok () hdef hstate

theorem vmwCmdCheckNot3d_flow (buf : ℤ) (rem : ℕ) :
    Keeps (Flow K A B Q) (Allowed B N Q) (vmwCmdCheckNot3d K buf rem) := by
  refine (keeps_inspect _).bind fun id => ?_
  refine (still_flow (orElse_still _ _)).bind fun size => ?_
  refine (keeps_require _ trivial).bind fun _ => ?_
  refine (keeps_inspect _).bind fun kernel => ?_
  refine (keeps_require _ trivial).bind fun _ => ?_
  refine Keeps.bind (Keeps.runIf ?_ _) fun _ => keeps_pure _
  exact (still_flow (vmwTranslateGuestPtr_still _)).bind fun _ => keeps_pure _

theorem vmwCmdCheck_flow {l : Loop σ} (hleft : 0 < l.curSize)
    (h : ∀ e, Calls K l e → KeepsAt (Flow K A B Q) (Allowed B N Q) (e.func.run K l.buf) l.sw) :
    KeepsAt (Flow K A B Q) (Allowed B N Q) (vmwCmdCheck K l.buf l.curSize.toNat) l.sw := by
  refine KeepsAt.inspect_bind ?_
  split
  · exact vmwCmdCheckNot3d_flow _ _ _
  · rename_i hid
    refine KeepsAt.inspect_bind ?_
    refine KeepsAt.require_bind trivial fun hfits => ?_
    refine KeepsAt.require_bind trivial fun hknown => ?_
    cases hentry : cmdEntry (word l.sw.mem l.buf) with
    | none => exact KeepsAt.bind (keeps_stop trivial _) fun _ _ h => absurd h stop_ok
    | some e =>
      refine (keeps_pure e l.sw).bind fun e' t he => ?_
      obtain ⟨rfl, rfl⟩ := pure_ok.1 he
      refine KeepsAt.inspect_bind ?_
      refine KeepsAt.require_bind trivial fun hallowed => ?_
      refine KeepsAt.require_bind trivial fun hlegacy => ?_
      refine KeepsAt.require_bind trivial fun hguest => ?_
      refine KeepsAt.bind (runEntry_flow trivial (h e ?_)) fun _ t _ => keeps_pure _ t
      exact ⟨hleft, by omega, of_decide_eq_true hfits, of_decide_eq_true hknown, hentry, hallowed,
        hlegacy, hguest⟩

theorem checkLoop_flow (fuel : ℕ) {buf cur : ℤ} (hc : CacheOk K s) (hK : B → Relied K)
    (h : EveryCall K ⟨buf, cur, s⟩ fun p u func => (A → SlotsOk K p u func) ∧
      (B → NamesOk K p u func) ∧ (N → NodeOk K p u func) ∧ (Q → QueryOk K p u func)) :
    KeepsAt (Flow K A B Q) (Allowed B N Q) (checkLoop K fuel buf cur) s := by
  induction fuel generalizing buf cur s with
  | zero =>
    unfold checkLoop
    split_ifs
    · exact keeps_pure _ s
    · exact keeps_pure _ s
    · exact keeps_stop trivial s
  | succ fuel ih =>
    unfold checkLoop
    split_ifs with hpos
    · have hcmd : KeepsAt (Flow K A B Q) (Allowed B N Q) (vmwCmdCheck K buf cur.toNat) s := by
        refine vmwCmdCheck_flow (l := ⟨buf, cur, s⟩) hpos fun e he => ?_
        obtain ⟨hA, hB, hN, hQ⟩ := h [] _ e (.refl _) he
        exact run_flow hc hA hK hB hN hQ
      refine hcmd.bind fun k t ht => ?_
      have hpass := pass_of_ok (K := K) (l := ⟨buf, cur, s⟩) hpos ht
      have hloop : KeepsAt (Flow K A B Q) (Allowed B N Q)
          (checkLoop K fuel (buf + k) (Int.bmod (cur - k) (2 ^ 32))) t :=
        ih ((hcmd.ok ht).cache hc) fun as m e hruns he => h (k :: as) m e (.next trivial hpass hruns) he
      exact hloop.bind fun sizes u _ => keeps_pure _ u
    · exact keeps_pure _ s
    · exact keeps_stop trivial s

theorem vmwCmdCheck_of_calls {l : Loop σ} {e : CmdEntry} (h : Calls K l e) :
    vmwCmdCheck K l.buf l.curSize.toNat l.sw =
      (runEntry K e.func l.buf >>= fun _ => pure (addU32 (word l.sw.mem (l.buf + 4)) 8)) l.sw := by
  have hid : ¬ word l.sw.mem l.buf < svgaCmdMax := by
    have := h.is3d
    omega
  have hfits : decide (addU32 (word l.sw.mem (l.buf + 4)) 8 ≤ l.curSize.toNat) = true :=
    decide_eq_true h.fits
  have hknown : decide (subU32 (word l.sw.mem l.buf) svga3dCmdBase <
      svga3dCmdMax - svga3dCmdBase) = true := decide_eq_true h.known
  simp only [vmwCmdCheck, bind, Run.andThen, rd, inspect, if_neg hid, hfits, hknown, h.entry,
    h.allowed, h.legacy, h.guest, orElse, require, if_true, pure, Run.result]

theorem checkLoop_error {as : List ℕ} {l m : Loop σ} {e : Stop}
    (h : Runs (pass K) anyLabel l as m) (hleft : 0 < m.curSize)
    (he : (vmwCmdCheck K m.buf m.curSize.toNat m.sw).1 = .error e) :
    (checkLoop K (as.length + 1) l.buf l.curSize l.sw).1 = .error e := by
  induction h with
  | refl l =>
    unfold checkLoop
    rw [if_pos hleft]
    rcases hr : vmwCmdCheck K l.buf l.curSize.toNat l.sw with ⟨e' | k, u⟩
    · rw [hr] at he
      cases he
      simp [bind, Run.andThen, hr]
    · rw [hr] at he
      cases he
  | @next l u v k as _ hstep _ ih =>
    obtain ⟨hpos, t, hcheck, rfl⟩ := pass_some hstep
    have ih := ih hleft he
    unfold checkLoop
    rw [if_pos hpos, List.length_cons]
    rcases hr : checkLoop K (as.length + 1) (l.buf + k) (Int.bmod (l.curSize - k) (2 ^ 32)) t
      with ⟨e' | sizes, w⟩
    · simp only [hr] at ih
      cases ih
      simp only [bind, Run.andThen, hcheck, hr]
    · simp only [hr] at ih
      cases ih

theorem checkLoop_zero_state (buf cur : ℤ) : (checkLoop K 0 buf cur s).2 = s := by
  unfold checkLoop
  split_ifs <;> rfl

theorem checkLoop_state {as : List ℕ} {l m : Loop σ} (h : Runs (pass K) anyLabel l as m)
    (hleft : 0 < m.curSize) : (checkLoop K (as.length + 1) l.buf l.curSize l.sw).2 =
      (vmwCmdCheck K m.buf m.curSize.toNat m.sw).2 := by
  induction h with
  | refl l =>
    unfold checkLoop
    rw [if_pos hleft]
    rcases hr : vmwCmdCheck K l.buf l.curSize.toNat l.sw with ⟨e | k, u⟩
    · rw [bind_of_error hr]
    · rw [bind_of_ok hr, bind_pure_state]
      exact checkLoop_zero_state _ _
  | @next l u v k as _ hstep _ ih =>
    obtain ⟨hpos, t, hcheck, rfl⟩ := pass_some hstep
    rw [← ih hleft, List.length_cons]
    conv_lhs => unfold checkLoop
    rw [if_pos hpos, bind_of_ok hcheck, bind_pure_state]

theorem Calls.state {l : Loop σ} {e : CmdEntry} (h : Calls K l e) :
    (vmwCmdCheck K l.buf l.curSize.toNat l.sw).2 = (e.func.run K l.buf l.sw).2 := by
  rw [vmwCmdCheck_of_calls h, bind_pure_state]
  rcases hrun : e.func.run K l.buf l.sw with ⟨(_ | _ | _ | _ | _) | a, u⟩ <;>
    simp [bind, Run.andThen, runEntry, retOf, hrun, fail, stop, pure, Run.result]

/-- What is no error code ends the submission. -/
theorem Calls.fault {l : Loop σ} {e : CmdEntry} {f : Stop} (h : Calls K l e)
    (hf : ∀ errno, f ≠ .errno errno) (hrun : (e.func.run K l.buf l.sw).1 = .error f) :
    (vmwCmdCheck K l.buf l.curSize.toNat l.sw).1 = .error f := by
  rw [vmwCmdCheck_of_calls h]
  rcases hr : e.func.run K l.buf l.sw with ⟨e' | a, u⟩
  · rw [hr] at hrun
    cases hrun
    cases f with
    | errno errno => exact absurd rfl (hf errno)
    | _ => simp [bind, Run.andThen, runEntry, retOf, hr]
  · rw [hr] at hrun
    cases hrun

theorem runs_kept {as : List ℕ} {l m : Loop σ} (h : Runs (pass K) anyLabel l as m)
    (hc : CacheOk K l.sw) : CacheOk K m.sw ∧ m.sw.dxCtxNode = l.sw.dxCtxNode := by
  refine h.invariant (fun u => CacheOk K u.sw ∧ u.sw.dxCtxNode = l.sw.dxCtxNode) ⟨hc, rfl⟩ ?_
  rintro u k v ⟨hcu, hu⟩ - hpass
  obtain ⟨hpos, w, hcheck, rfl⟩ := pass_some hpass
  have hflow := vmwCmdCheck_flow (K := K) (A := False) (B := False) (N := False) (Q := False)
    hpos fun e _ => run_flow hcu (fun h => h.elim) (fun h => h.elim) (fun h => h.elim)
      (fun h => h.elim) fun h => h.elim
  have hst := hflow.ok hcheck
  exact ⟨hst.cache hcu, hst.node.trans hu⟩

end Commands

section Submissions
variable {size handle : ℕ}

/-- The state in which `vmw_execbuf_process` calls `vmw_cmd_check_all`. -/
def Submitted (K : Kernel σ) (handle : ℕ) (s : SwContext σ) : Prop :=
  ∃ (s₀ : SwContext σ) (kernel : Bool) (mem : Memory) (pinnedBo : Option ℕ),
    vmwExecbufTieContext K handle (resetContext s₀ kernel mem pinnedBo) = (.ok (), s)

theorem resetContext_cacheOk (kernel : Bool) (mem : Memory) (pinnedBo : Option ℕ) :
    CacheOk K (resetContext s kernel mem pinnedBo) := by
  refine ⟨fun t => ?_, ?_, ?_⟩ <;> simp [resetContext, Listed]

theorem Submitted.start (h : Submitted K handle s) :
    CacheOk K s ∧ s.bindings = [] ∧ ∀ x ∈ s.uses, Good x := by
  obtain ⟨s₀, kernel, mem, pinnedBo, h⟩ := h
  unfold vmwExecbufTieContext at h
  split at h
  · obtain ⟨-, rfl⟩ := pure_ok.1 h
    exact ⟨resetContext_cacheOk _ _ _, rfl, by simp [resetContext]⟩
  · obtain ⟨_, s₁, h₁, h⟩ := bind_ok.1 h
    obtain ⟨res, s₂, h₂, h⟩ := bind_ok.1 h
    obtain ⟨_, s₃, h₃, h⟩ := bind_ok.1 h
    have hstill : Still K (resetContext s₀ kernel mem pinnedBo) s₃ := by
      have h₁ := (call_still (K := K) (F := anyStop) _).ok h₁
      have h₂ := (call_still (K := K) (F := anyStop) _).ok h₂
      have h₃ := (vmwExecbufResNorefValAdd_still (F := anyStop) res).ok h₃
      exact IsTrans.trans _ _ _ (IsTrans.trans _ _ _ h₁ h₂) h₃
    obtain ⟨node, s₄, h₄, h⟩ := bind_ok.1 h
    obtain rfl := update_ok.1 h
    obtain ⟨_, s₅, h₅, h₄⟩ := bind_ok.1 h₄
    obtain rfl := update_ok.1 h₅
    obtain ⟨r, _, h₆, h₄⟩ := bind_ok.1 h₄
    obtain ⟨rfl, rfl⟩ := pure_ok.1 h₆
    obtain ⟨-, rfl⟩ := inspect_ok.1 h₄
    refine ⟨hstill.cache (resetContext_cacheOk _ _ _), hstill.bindings, fun x hx => ?_⟩
    have huses : s₃.uses = [] := hstill.uses
    simp only [huses, List.nil_append, List.mem_singleton] at hx
    subst hx
    exact ⟨rfl, by simp⟩

theorem vmwCmdCheckAll_flow (fuel : ℕ) (hs : Submitted K handle s) (hK : B → Relied K)
    (h : EveryCall K (start size s) fun p u func => (A → SlotsOk K p u func) ∧
      (B → NamesOk K p u func) ∧ (N → NodeOk K p u func) ∧ (Q → QueryOk K p u func)) :
    KeepsAt (Flow K A B Q) (Allowed B N Q) (vmwCmdCheckAll K fuel size) s :=
  checkLoop_flow fuel hs.start.1 hK h

/-- What follows from the end of a submission for the last handler that was called holds of all
    handlers that are called, as a submission can be checked up to each of them. -/
theorem everyCall_of_end {P : ℤ → SwContext σ → Handler → Prop} (hs : Submitted K handle s)
    (h : ∀ p u func n, CacheOk K u → u.dxCtxNode = s.dxCtxNode →
      (vmwCmdCheckAll K n size s).2 = (Handler.run K p func u).2 →
      (∀ f, (∀ errno, f ≠ .errno errno) → (Handler.run K p func u).1 = .error f →
        (vmwCmdCheckAll K n size s).1 = .error f) → P p u func) : EveryCall K (start size s) P := by
  intro as m e hruns he
  obtain ⟨hcm, hnode⟩ := runs_kept hruns hs.start.1
  refine h m.buf m.sw e.func (as.length + 1) hcm hnode ?_ fun f hf hrun => ?_
  · have hstate := checkLoop_state hruns he.left
    simp only [start] at hstate
    exact hstate.trans he.state
  · have herror := checkLoop_error hruns he.left (he.fault hf hrun)
    simp only [start] at herror
    exact herror

/-- Every call of `vmw_binding_add` in a submission names a slot in the staged state, exactly if
    no command that is checked binds a shader or shader resources for the type zero. -/
theorem bindings_inRange_iff (hs : Submitted K handle s) :
    (∀ fuel, ∀ b ∈ (vmwCmdCheckAll K fuel size s).2.bindings, InRange b) ↔
      EveryCall K (start size s) (SlotsOk K) := by
  constructor
  · intro hall
    refine everyCall_of_end hs fun p u func n hc _ hend _ => slotsOk_of_inRange hc ?_
    rw [← hend]
    exact hall n
  · intro h fuel b hb
    have hflow := vmwCmdCheckAll_flow (A := True) (B := False) (N := False) (Q := False) fuel hs
      (fun hb => hb.elim) fun as m e hruns he =>
        ⟨fun _ => h as m e hruns he, fun hb => hb.elim, fun hn => hn.elim, fun hq => hq.elim⟩
    obtain ⟨new, hnew, hgood⟩ := hflow.state.bindings
    rw [hnew, hs.start.2.1, List.nil_append] at hb
    exact hgood trivial b hb

theorem bindQuery_nullNode (hnode : s.dxCtxNode = none) {bo : ℕ}
    (h : vmwTranslateMobPtr K (p + 12) s = (.ok bo, t)) :
    (Handler.run K p .dxBindQuery s).1 = .error .nullNode := by
  have ht : t.dxCtxNode = none := by
    rw [((vmwTranslateMobPtr_still (K := K) (F := anyStop) _).ok h).node, hnode]
  simp [Handler.run, vmwCmdDxBindQuery, bind, Run.andThen, h, update, dxCtxNode, inspect, ht,
    derefNode, stop]

/-- In a submission without a DX context no handler follows `dx_ctx_node`, exactly if no
    `DX_BIND_QUERY` command that is checked has a MOB that can be translated. -/
theorem node_not_followed_iff (hs : Submitted K svga3dInvalidId s) :
    (∀ fuel, (vmwCmdCheckAll K fuel size s).1 ≠ .error .nullNode) ↔
      EveryCall K (start size s) fun p u func => func = .dxBindQuery →
        ∀ bo t, vmwTranslateMobPtr K (p + 12) u ≠ (.ok bo, t) := by
  have hnone : s.dxCtxNode = none := by
    obtain ⟨s₀, kernel, mem, pinnedBo, h⟩ := hs
    unfold vmwExecbufTieContext at h
    rw [if_pos rfl] at h
    obtain ⟨-, rfl⟩ := pure_ok.1 h
    rfl
  constructor
  · intro hall
    refine everyCall_of_end hs fun p u func n _ hnode _ hfault hfunc bo t ht => ?_
    refine hall n (hfault _ (by simp) ?_)
    rw [hfunc]
    exact bindQuery_nullNode (hnode.trans hnone) ht
  · intro h fuel herr
    have hflow : KeepsAt (Flow K False False False) (Allowed False True False)
        (vmwCmdCheckAll K fuel size) s := by
      refine vmwCmdCheckAll_flow fuel hs (fun hb => hb.elim) fun as m e hruns he => ?_
      refine ⟨fun ha => ha.elim, fun hb => hb.elim, fun _ => ?_, fun hq => hq.elim⟩
      have := h as m e hruns he
      unfold NodeOk
      split
      · rename_i hfunc
        exact fun _ => this hfunc
      · trivial
    exact hflow.reason _ herr trivial

end Submissions

section Batches

theorem sample_submitted (K : Kernel Bool) (ws : List ℕ) (memory : Bool) :
    Submitted K svga3dInvalidId (sampleContext ws memory) := by
  refine ⟨sampleContext ws memory, false, ofWords ws, none, ?_⟩
  unfold vmwExecbufTieContext
  rw [if_pos rfl]
  rfl

theorem entry_func {id : ℕ} {f : Handler} {e : CmdEntry}
    (h : (cmdEntry id).map CmdEntry.func = some f) (he : cmdEntry id = some e) : e.func = f := by
  rw [he] at h
  exact Option.some.inj h

instance (b : Binding) : Decidable (InRange b) := inferInstanceAs (Decidable (_ ≠ _))

/-- A vertex shader is set, and the type is one of those of the older contexts. -/
theorem setShader_inRange :
    (vmwCmdCheckAll (sampleKernel true) 1 20
      (sampleContext [1061, 12, 1, 1, 4] true)).2.bindings ≠ [] ∧
    ∀ b ∈ (vmwCmdCheckAll (sampleKernel true) 1 20
      (sampleContext [1061, 12, 1, 1, 4] true)).2.bindings, InRange b := by
  refine ⟨by decide +kernel, (bindings_inRange_iff (sample_submitted _ _ _)).2 ?_ 1⟩
  have hcheck : vmwCmdCheck (sampleKernel true) 0 20 (sampleContext [1061, 12, 1, 1, 4] true) =
      (.ok 20, _) := ok_of_toOption (by decide +kernel)
  refine everyCall_single (k := 20) (pass_of_ok (by decide) hcheck) (by decide) fun e he => ?_
  rw [entry_func (f := .setShader) (by decide +kernel) he]
  have hword : word (sampleContext [1061, 12, 1, 1, 4] true).mem 12 ≠ 0 := by decide +kernel
  exact fun _ h => absurd h hword

/-- The same command with the type zero: the shader slot is 2 ^ 32 - 1. -/
theorem setShader_outOfRange : ¬ ∀ b ∈ (vmwCmdCheckAll (sampleKernel true) 1 20
    (sampleContext [1061, 12, 1, 0, 4] true)).2.bindings, InRange b := by
  decide +kernel

theorem nop_node_not_followed_iff :
    (∀ fuel, (vmwCmdCheckAll (sampleKernel true) fuel 8 (sampleContext [1119, 0] true)).1 ≠
      .error .nullNode) ↔
    EveryCall (sampleKernel true) (start 8 (sampleContext [1119, 0] true)) fun p u func =>
      func = .dxBindQuery → ∀ bo t, vmwTranslateMobPtr (sampleKernel true) (p + 12) u ≠ (.ok bo, t) :=
  node_not_followed_iff (sample_submitted _ _ _)

/-- `DX_BIND_QUERY` without a DX context. -/
theorem bindQuery_without_context : (vmwCmdCheckAll (sampleKernel true) 1 16
    (sampleContext [1167, 8, 0, 7] true)).1 = .error .nullNode := by
  decide +kernel

end Batches

end Vmwgfx.ExecbufSafety
