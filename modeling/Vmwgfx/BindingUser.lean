import Vmwgfx.BindingTouch

set_option autoImplicit false

/-!
# Submissions

The binding commands of a user, the bindings that their handlers in `vmwgfx_execbuf.c`
stage, and the commit that follows. The device executes the commands as they were sent.
-/
namespace Vmwgfx.BindingUser
open BindingSlots BindingMachine BindingLists BindingDirty BindingSync BindingScrub BindingTouch
open LabelledRuns

variable {Φ : Relation} {s t : Manager} {p q : SlotRef} {i : StateId} {l : Loc} {c r : ℕ}

section Commands

/-- The resource that a command names, `none` for an invalid id, and its parameters. -/
abbrev Target := Option ℕ × List ℕ

/-- Commands for one slot, of the types that are scrubbed at once, and those for many. -/
inductive UserCmd where
  | single (bt : BindingType) (loc : Loc) (x : Target)
  | shaderResources (shaderSlot : Fin 3) (start : ℕ) (views : List (Option ℕ))
  | renderTargets (ds : Option ℕ) (views : List (Option ℕ))
  | soTargets (xs : List Target)
  | vertexBuffers (start : ℕ) (xs : List Target)
  deriving DecidableEq, Repr

def viewTargets (views : List (Option ℕ)) : List Target := views.map fun v => (v, [])

def content (x : Target) : Option Content := x.1.map fun r => ⟨r, x.2⟩

def UserCmd.cmd (c : ℕ) : UserCmd → BindCmd
  | .single _ l x => .single c l (content x)
  | .shaderResources sh start views =>
    .shaderResources c sh start ((viewTargets views).map content)
  | .renderTargets ds views =>
    .renderTargets c (content (ds, [])) ((viewTargets views).map content)
  | .soTargets xs => .soTargets c (xs.map content)
  | .vertexBuffers start xs => .vertexBuffers c start (xs.map content)

def placed (c : ℕ) (bt : BindingType) (slotAt : ℕ → Loc) (start : ℕ) (xs : List Target) :
    List (Loc × BindInfo) :=
  (xs.zipIdx start).map fun x => (slotAt x.2, ⟨c, x.1.1, bt, x.1.2⟩)

/-- The bindings that are staged. Those of render targets have neither face nor mipmap. -/
def UserCmd.binds (c : ℕ) : UserCmd → List (Loc × BindInfo)
  | .single bt l x => [(l, ⟨c, x.1, bt, if bt = .rt then [] else x.2⟩)]
  | .shaderResources sh start views =>
    placed c .sr (fun k => .sr sh (Fin.ofNat 128 k)) start (viewTargets views)
  | .renderTargets ds views =>
    (.ds, ⟨c, ds, .ds, []⟩) ::
      placed c .dxRt (fun k => .rt (Fin.ofNat 10 k)) 0 (viewTargets views)
  | .soTargets xs => placed c .so (fun k => .so (Fin.ofNat 4 k)) 0 xs
  | .vertexBuffers start xs => placed c .vb (fun k => .vb (Fin.ofNat 32 k)) start xs

def UserCmd.accepted : UserCmd → Bool
  | .single bt l _ => fits bt l && (delayed bt).isNone
  | .shaderResources _ start views => decide (start + views.length ≤ 128)
  | .renderTargets _ views => decide (views.length ≤ 8)
  | .soTargets xs => decide (xs.length ≤ 4)
  | .vertexBuffers start xs => decide (start + xs.length ≤ 32)

def stage (i : ℕ) (bs : List (Loc × BindInfo)) (s : Manager) : Manager :=
  bs.foldl (fun s b => vmwBindingAdd (.staged i, b.1) b.2 s) s

/-- A command of a submission; the resources that it names have been validated. -/
def userStep (c : ℕ) (s : Manager) (cmd : UserCmd) : Option Manager :=
  if cmd.accepted && (cmd.binds c).all fun b => b.2.res.all s.valid then
    let t := stage c (cmd.binds c) s
    some { t with device := (cmd.cmd c).exec t.device }
  else none

def submit (c : ℕ) (cmds : List UserCmd) (s : Manager) : Option Manager :=
  (cmds.foldlM (userStep c) s).map (vmwBindingStateCommit c c)

end Commands

section Stages

def fresh (bi : BindInfo) : Slot := ⟨some bi.ctx, bi.res, bi.bt, false, bi.data, .self⟩

theorem slot_vmwBindingAdd {bi : BindInfo} :
    (vmwBindingAdd p bi s).slot q = if q = p then fresh bi else s.slot q := by
  unfold vmwBindingAdd
  rw [slot_setSlot, slot_ctxListAdd]
  split_ifs with hq
  · rfl
  · exact slot_dropLive hq

variable {bs : List (Loc × BindInfo)}

theorem stage_untouched (i : ℕ) (bs : List (Loc × BindInfo)) (s : Manager) :
    Untouched s (stage i bs s) := by
  induction bs generalizing s with
  | nil => exact .refl s
  | cons b bs ih => exact (vmwBindingAdd_untouched _ _ s).trans (ih _)

theorem slot_stage_of_notMem {i : ℕ} (h : ∀ b ∈ bs, q ≠ (.staged i, b.1)) :
    (stage i bs s).slot q = s.slot q := by
  induction bs generalizing s with
  | nil => rfl
  | cons b bs ih =>
    change (stage i bs (vmwBindingAdd (.staged i, b.1) b.2 s)).slot q = _
    rw [ih fun b' hb' => h b' (List.mem_cons_of_mem _ hb'), slot_vmwBindingAdd,
      if_neg (h b List.mem_cons_self)]

theorem slot_stage_of_mem {i : ℕ} {b : Loc × BindInfo} (hb : b ∈ bs)
    (hunique : ∀ b' ∈ bs, b'.1 = b.1 → b' = b) :
    (stage i bs s).slot (.staged i, b.1) = fresh b.2 := by
  induction bs generalizing s with
  | nil => cases hb
  | cons a bs ih =>
    change (stage i bs (vmwBindingAdd (.staged i, a.1) a.2 s)).slot _ = _
    by_cases hmem : b ∈ bs
    · exact ih hmem fun b' hb' => hunique b' (List.mem_cons_of_mem _ hb')
    · obtain rfl := (List.mem_cons.1 hb).resolve_right hmem
      rw [slot_stage_of_notMem fun b' hb' he => hmem ?_, slot_vmwBindingAdd, if_pos rfl]
      have heq := hunique b' (List.mem_cons_of_mem _ hb') (Prod.mk.inj he).2.symm
      exact heq ▸ hb'

theorem stage_dirtyOk (h : DirtyOk s) (i : ℕ) (bs : List (Loc × BindInfo)) :
    DirtyOk (stage i bs s) := by
  induction bs generalizing s with
  | nil => exact h
  | cons b bs ih => exact ih (h.add b.2)

end Stages

section Told

variable {valid : ℕ → Bool} {dev dev' : Loc → Option Content}

/-- What a command does to a slot: it is staged once, with what the device is told, up to
    the parameters that are not kept for the arrays; or it is not staged, and then it is as
    before or emptied. -/
def Told (valid : ℕ → Bool) (c : ℕ) (bs : List (Loc × BindInfo))
    (dev dev' : Loc → Option Content) (l : Loc) : Prop :=
  (∃ b ∈ bs, b.1 = l ∧ (∀ b' ∈ bs, b'.1 = l → b' = b) ∧ b.2.ctx = c ∧ fits b.2.bt l = true ∧
    ∃ data, dev' l = idOf valid (fresh b.2) data ∧ (isArray l = true ∨ data = b.2.data)) ∨
  ((∀ b ∈ bs, b.1 ≠ l) ∧ (dev' l = dev l ∨ (isArray l = true ∧ dev' l = none)))

theorem mem_placed {bt : BindingType} {slotAt : ℕ → Loc} {start : ℕ} {xs : List Target}
    {b : Loc × BindInfo} : b ∈ placed c bt slotAt start xs ↔
    ∃ k x, start ≤ k ∧ xs[k - start]? = some x ∧ b = (slotAt k, ⟨c, x.1, bt, x.2⟩) := by
  unfold placed
  rw [List.mem_map]
  constructor
  · rintro ⟨⟨x, k⟩, hmem, rfl⟩
    obtain ⟨hk, hx⟩ := List.mk_mem_zipIdx_iff_le_and_getElem?_sub.1 hmem
    exact ⟨k, x, hk, hx, rfl⟩
  · rintro ⟨k, x, hk, hx, rfl⟩
    exact ⟨(x, k), List.mk_mem_zipIdx_iff_le_and_getElem?_sub.2 ⟨hk, hx⟩, rfl⟩

theorem content_eq {x : Target} {bt : BindingType} {data : List ℕ}
    (hvalid : x.1.all valid = true) :
    content x = idOf valid (fresh ⟨c, x.1, bt, data⟩) x.2 := by
  obtain ⟨r, d⟩ := x
  cases r with
  | none => rfl
  | some r => simp_all [content, idOf, fresh]

theorem told_placed {bt : BindingType} (slotAt : ℕ → Loc) {start k : ℕ} {xs : List Target}
    {bs : List (Loc × BindInfo)} (hbs : ∀ b, b.1 = slotAt k → (b ∈ bs ↔ b ∈ placed c bt slotAt start xs))
    (hvalid : ∀ b ∈ bs, b.2.res.all valid = true) (hk : start ≤ k ∧ k < start + xs.length)
    (hinj : ∀ k', start ≤ k' → k' < start + xs.length → slotAt k' = slotAt k → k' = k)
    (hfits : fits bt (slotAt k) = true)
    (hdev : dev' (slotAt k) = (xs.map content).getD (k - start) none) :
    Told valid c bs dev dev' (slotAt k) := by
  obtain ⟨x, hx⟩ : ∃ x, xs[k - start]? = some x :=
    ⟨_, List.getElem?_eq_getElem (by omega)⟩
  have hmem : (slotAt k, (⟨c, x.1, bt, x.2⟩ : BindInfo)) ∈ bs :=
    (hbs _ rfl).2 (mem_placed.2 ⟨k, x, hk.1, hx, rfl⟩)
  refine .inl ⟨_, hmem, rfl, fun b' hb' hb'' => ?_, rfl, hfits, x.2, ?_, .inr rfl⟩
  · obtain ⟨k', x', hk', hx', rfl⟩ := mem_placed.1 ((hbs b' hb'').1 hb')
    have hlt := (List.getElem?_eq_some_iff.1 hx').1
    obtain rfl := hinj k' hk' (by omega) hb''
    rw [hx] at hx'
    cases hx'
    rfl
  · rw [hdev, List.getD_eq_getElem?_getD, List.getElem?_map, hx]
    exact content_eq (hvalid _ hmem)

theorem told_other {bs : List (Loc × BindInfo)} (hbs : ∀ b ∈ bs, b.1 ≠ l)
    (hdev : dev' l = dev l ∨ (isArray l = true ∧ dev' l = none)) : Told valid c bs dev dev' l :=
  .inr ⟨hbs, hdev⟩

theorem told_array {n : ℕ} [NeZero n] (bt : BindingType) (mk : Fin n → Loc) (start : ℕ)
    (xs : List Target) {bs : List (Loc × BindInfo)} (hmk : Function.Injective mk) (k : Fin n)
    (hbs : ∀ b, b.1 = mk k → (b ∈ bs ↔ b ∈ placed c bt (fun j => mk (Fin.ofNat n j)) start xs))
    (hvalid : ∀ b ∈ bs, b.2.res.all valid = true) (hlen : start + xs.length ≤ n)
    (hfits : k.val < start + xs.length → fits bt (mk k) = true)
    (hset : start ≤ k.val ∧ k.val < start + xs.length →
      dev' (mk k) = (xs.map content).getD (k - start) none)
    (hrest : ¬ (start ≤ k.val ∧ k.val < start + xs.length) →
      dev' (mk k) = dev (mk k) ∨ (isArray (mk k) = true ∧ dev' (mk k) = none)) :
    Told valid c bs dev dev' (mk k) := by
  have hofNat : ∀ j, j < n → (Fin.ofNat n j).val = j := fun j hj => Nat.mod_eq_of_lt hj
  have hk : mk (Fin.ofNat n k) = mk k := congrArg mk (Fin.ext (hofNat k k.isLt))
  by_cases hin : start ≤ k.val ∧ k.val < start + xs.length
  · rw [← hk] at hbs hfits hset ⊢
    refine told_placed (fun j => mk (Fin.ofNat n j)) hbs hvalid hin (fun k' _ hlt he => ?_)
      (hfits hin.2) (hset hin)
    have heq := congrArg Fin.val (hmk he)
    rwa [hofNat k' (by omega), hofNat k k.isLt] at heq
  · refine told_other (fun b hb he => ?_) (hrest hin)
    obtain ⟨k', x, hstart, hx, rfl⟩ := mem_placed.1 ((hbs b he).1 hb)
    have hlt := (List.getElem?_eq_some_iff.1 hx).1
    have heq := congrArg Fin.val (hmk he)
    rw [hofNat k' (by omega)] at heq
    omega

theorem setFrom_of_mem {start k : ℕ} {xs : List Target} {old : Option Content}
    (h : start ≤ k ∧ k < start + xs.length) :
    setFrom start (xs.map content) k old = (xs.map content).getD (k - start) none := by
  unfold setFrom
  rw [List.length_map, if_pos h]

theorem setFrom_of_notMem {start k : ℕ} {xs : List Target} {old : Option Content}
    (h : ¬ (start ≤ k ∧ k < start + xs.length)) :
    setFrom start (xs.map content) k old = old := by
  unfold setFrom
  rw [List.length_map, if_neg h]

theorem getD_of_length_le {k : ℕ} {xs : List Target} (h : xs.length ≤ k) :
    (xs.map content).getD k none = none := by
  rw [List.getD_eq_getElem?_getD, List.getElem?_eq_none (by simpa using h)]
  rfl

theorem placed_ne {bt : BindingType} {slotAt : ℕ → Loc} {start : ℕ} {xs : List Target}
    (h : ∀ k, slotAt k ≠ l) : ∀ b ∈ placed c bt slotAt start xs, b.1 ≠ l := by
  intro b hb
  obtain ⟨k, x, -, -, rfl⟩ := mem_placed.1 hb
  exact h k

theorem viewTargets_length (views : List (Option ℕ)) :
    (viewTargets views).length = views.length := by
  simp [viewTargets]

theorem told_single {bt : BindingType} {m : Loc} {x : Target} (hfits : fits bt m = true)
    (hvalid : x.1.all valid = true) (l : Loc) :
    Told valid c ((UserCmd.single bt m x).binds c) dev
      (((UserCmd.single bt m x).cmd c).set dev) l := by
  by_cases hl : l = m
  · subst hl
    refine .inl ⟨_, List.mem_singleton_self _, rfl, fun b hb _ => List.mem_singleton.1 hb, rfl,
      hfits, x.2, ?_, ?_⟩
    · change (if l = l then content x else dev l) = _
      rw [if_pos rfl]
      exact content_eq hvalid
    · by_cases hrt : bt = .rt
      · subst hrt
        refine .inl ?_
        cases l with
        | rt _ => rfl
        | _ => cases hfits
      · exact .inr (if_neg hrt).symm
  · refine told_other (fun b hb he => hl ?_) (.inl (if_neg hl))
    rw [← he, List.mem_singleton.1 hb]

theorem told_cmd {cmd : UserCmd} (haccepted : cmd.accepted = true)
    (hvalid : ∀ b ∈ cmd.binds c, b.2.res.all valid = true) (l : Loc) :
    Told valid c (cmd.binds c) dev ((cmd.cmd c).set dev) l := by
  cases cmd with
  | single bt m x =>
    exact told_single (Bool.and_eq_true_iff.1 haccepted).1
      (hvalid _ (List.mem_singleton_self _)) l
  | shaderResources sh start views =>
    have hlen := of_decide_eq_true haccepted
    rw [← viewTargets_length] at hlen
    have hne : ∀ {m : Loc}, (∀ k, Loc.sr sh (Fin.ofNat 128 k) ≠ m) →
        ∀ b ∈ (UserCmd.shaderResources sh start views).binds c, b.1 ≠ m := fun h => placed_ne h
    cases l with
    | sr sh' k =>
      by_cases hsh : sh' = sh
      · subst hsh
        refine told_array .sr (.sr sh') start (viewTargets views)
          (fun _ _ he => (Loc.sr.inj he).2) k (fun _ _ => Iff.rfl) hvalid hlen (fun _ => rfl)
          (fun hin => ?_) fun hout => .inl ?_
        · exact (if_pos rfl).trans (setFrom_of_mem hin)
        · exact (if_pos rfl).trans (setFrom_of_notMem hout)
      · refine told_other (hne fun _ he => ?_) (.inl (if_neg hsh))
        exact hsh (Loc.sr.inj he).1.symm
    | _ => exact told_other (hne fun _ he => by cases he) (.inl rfl)
  | renderTargets ds views =>
    have hlen := of_decide_eq_true haccepted
    rw [← viewTargets_length] at hlen
    cases l with
    | rt k =>
      refine told_array .dxRt .rt 0 (viewTargets views) (fun _ _ he => Loc.rt.inj he) k
        (fun b hb => ?_) hvalid (by omega)
        (fun hk => decide_eq_true (by omega)) (fun hin => ?_) fun hout => ?_
      · refine ⟨fun hmem => (List.mem_cons.1 hmem).resolve_left ?_, List.mem_cons_of_mem _⟩
        rintro rfl
        cases hb
      · exact if_pos (by omega)
      · by_cases hk : k.val < 8
        · exact .inr ⟨rfl, (if_pos hk).trans (getD_of_length_le (by omega))⟩
        · exact .inl (if_neg hk)
    | ds =>
      refine .inl ⟨_, List.mem_cons_self, rfl, fun b hb he => ?_, rfl, rfl, [], ?_, .inr rfl⟩
      · refine (List.mem_cons.1 hb).resolve_right fun hmem => ?_
        exact placed_ne (fun _ he => by cases he) b hmem he
      · exact content_eq (x := (ds, [])) (hvalid _ List.mem_cons_self)
    | _ =>
      refine told_other (fun b hb => ?_) (.inl rfl)
      rcases List.mem_cons.1 hb with rfl | hb
      · exact fun he => by cases he
      · exact placed_ne (fun _ he => by cases he) b hb
  | soTargets xs =>
    have hlen := of_decide_eq_true haccepted
    have hne : ∀ {m : Loc}, (∀ k, Loc.so (Fin.ofNat 4 k) ≠ m) →
        ∀ b ∈ (UserCmd.soTargets xs).binds c, b.1 ≠ m := fun h => placed_ne h
    cases l with
    | so k =>
      refine told_array .so .so 0 xs (fun _ _ he => Loc.so.inj he) k
        (fun _ _ => Iff.rfl) hvalid (by omega) (fun _ => rfl) (fun hin => rfl) fun hout => ?_
      exact .inr ⟨rfl, getD_of_length_le (by omega)⟩
    | _ => exact told_other (hne fun _ he => by cases he) (.inl rfl)
  | vertexBuffers start xs =>
    have hlen := of_decide_eq_true haccepted
    have hne : ∀ {m : Loc}, (∀ k, Loc.vb (Fin.ofNat 32 k) ≠ m) →
        ∀ b ∈ (UserCmd.vertexBuffers start xs).binds c, b.1 ≠ m := fun h => placed_ne h
    cases l with
    | vb k =>
      refine told_array .vb .vb start xs (fun _ _ he => Loc.vb.inj he) k (fun _ _ => Iff.rfl)
        hvalid hlen (fun _ => rfl) (fun hin => setFrom_of_mem hin)
        fun hout => .inl (setFrom_of_notMem hout)
    | _ => exact told_other (hne fun _ he => by cases he) (.inl rfl)

end Told

/-- Between two operations: nothing is staged or delayed, and the bindings that are not
    scrubbed are of resources with an id. -/
structure Idle (Φ : Relation) (s : Manager) : Prop where
  sync : InSync Φ s
  clean : Clean s
  staged : ∀ i l, (s.slot (.staged i, l)).ctx = none
  hasId : ∀ c l, (s.slot (.persistent c, l)).ctx.isSome →
    (s.slot (.persistent c, l)).scrubbed = false →
    ((s.slot (.persistent c, l)).res.filter s.valid).isSome

theorem Idle.rel (h : Idle Φ s) (c : ℕ) (l : Loc) :
    Φ s.valid l (s.slot (.persistent c, l)) (s.device c l) :=
  (h.sync.synced c l).resolve_left fun hm => h.clean c hm.pending

section Submissions

def overlay (s : Manager) (c : ℕ) (l : Loc) : Slot :=
  if (s.slot (.staged c, l)).ctx.isSome then s.slot (.staged c, l) else s.slot (.persistent c, l)

/-- During a submission the condition is one on the staged slots. -/
structure Staging (Φ : Relation) (c : ℕ) (s : Manager) : Prop where
  ok : DirtyOk s
  fits : ∀ p, (s.slot p).ctx.isSome → fits (s.slot p).bt p.2 = true
  calm : Calm s
  clean : Clean s
  other : ∀ i l, i ≠ c → (s.slot (.staged i, l)).ctx = none
  own : ∀ l k, (s.slot (.staged c, l)).ctx = some k → k = c
  named : ∀ l, (s.slot (.staged c, l)).ctx.isSome →
    (s.slot (.staged c, l)).res.all s.valid = true
  hasId : ∀ c l, (s.slot (.persistent c, l)).ctx.isSome →
    (s.slot (.persistent c, l)).scrubbed = false →
    ((s.slot (.persistent c, l)).res.filter s.valid).isSome
  rel : ∀ l, Φ s.valid l (overlay s c l) (s.device c l)
  others : ∀ c' l, c' ≠ c → Φ s.valid l (s.slot (.persistent c', l)) (s.device c' l)

theorem Idle.staging (h : Idle Φ s) (c : ℕ) : Staging Φ c s where
  ok := h.sync.ok
  fits := h.sync.fits
  calm := h.sync.calm
  clean := h.clean
  other i l _ := h.staged i l
  own l k hk := by
    rw [h.staged] at hk
    cases hk
  named l hl := by
    rw [h.staged] at hl
    cases hl
  hasId := h.hasId
  rel l := by
    unfold overlay
    rw [h.staged, if_neg (by simp)]
    exact h.rel c l
  others c' l _ := h.rel c' l

theorem dirtyOk_setDevice (h : DirtyOk s) (dev : Device) : DirtyOk { s with device := dev } :=
  ⟨⟨h.lists.live, h.lists.nodup, h.lists.bound, h.lists.unlinked, h.lists.heads,
    h.lists.headsNodup, h.lists.safe⟩, h.owned, h.covered, h.dispatched⟩

theorem userStep_cases {cmd : UserCmd} (h : userStep c s cmd = some t) :
    (∀ b ∈ cmd.binds c, b.2.res.all s.valid = true) ∧
    Untouched { s with device := t.device } t ∧
    (∀ l, Told s.valid c (cmd.binds c) (s.device c) (t.device c) l) ∧
    (∀ c', c' ≠ c → t.device c' = s.device c') ∧
    ∀ q, t.slot q = (stage c (cmd.binds c) s).slot q := by
  unfold userStep at h
  split_ifs at h with hguard
  cases h
  rw [Bool.and_eq_true_iff, List.all_eq_true] at hguard
  have hsame := stage_untouched c (cmd.binds c) s
  have hctx : (cmd.cmd c).ctx = c := by
    cases cmd <;> rfl
  refine ⟨hguard.2, ⟨hsame.dirty, hsame.dirtyVb, hsame.dirtyPs, hsame.dirtySr, rfl, hsame.valid,
    hsame.later, hsame.dispatches, hsame.now⟩, fun l => ?_, fun c' hc => ?_, fun q => rfl⟩
  · have hexec : (cmd.cmd c).exec (stage c (cmd.binds c) s).device c =
        (cmd.cmd c).set (s.device c) := by
      rw [exec_apply, if_pos hctx.symm, hsame.device]
    change Told s.valid c (cmd.binds c) (s.device c)
      ((cmd.cmd c).exec (stage c (cmd.binds c) s).device c) l
    rw [hexec]
    exact told_cmd hguard.1 hguard.2 l
  · change (cmd.cmd c).exec (stage c (cmd.binds c) s).device c' = _
    rw [exec_apply, if_neg (by rw [hctx]; exact hc), hsame.device]

theorem userStep_staged {cmd : UserCmd} (h : userStep c s cmd = some t) (l : Loc) :
    (∃ b ∈ cmd.binds c, t.slot (.staged c, l) = fresh b.2 ∧ b.2.ctx = c ∧
      BindingScrub.fits b.2.bt l = true ∧ ∃ data, t.device c l = idOf s.valid (fresh b.2) data ∧
        (isArray l = true ∨ data = b.2.data)) ∨
      (t.slot (.staged c, l) = s.slot (.staged c, l) ∧
        (t.device c l = s.device c l ∨ (isArray l = true ∧ t.device c l = none))) := by
  obtain ⟨-, -, htold, -, hslot⟩ := userStep_cases h
  rcases htold l with ⟨b, hb, rfl, hunique, hctx, hfits, hdata⟩ | ⟨hnone, hdata⟩
  · exact .inl ⟨b, hb, (hslot _).trans (slot_stage_of_mem hb hunique), hctx, hfits, hdata⟩
  · refine .inr ⟨(hslot _).trans (slot_stage_of_notMem fun b hb he => ?_), hdata⟩
    exact hnone b hb (Prod.mk.inj he).2.symm

theorem fresh_rel (hΦ : Emittable Φ) {valid : ℕ → Bool} {bi : BindInfo} {data : List ℕ}
    (h : isArray l = true ∨ data = bi.data) :
    Φ valid l (fresh bi) (idOf valid (fresh bi) data) := by
  rcases h with harray | rfl
  · exact hΦ.array _ _ _ _ harray rfl rfl
  · exact hΦ.shown valid l (fresh bi)

theorem Staging.userStep (hΦ : Emittable Φ) (h : Staging Φ c s) {cmd : UserCmd}
    (hstep : userStep c s cmd = some t) : Staging Φ c t := by
  obtain ⟨hnamed, hsame, -, hdev, hslot⟩ := userStep_cases hstep
  have hok : DirtyOk t := by
    unfold BindingUser.userStep at hstep
    split_ifs at hstep
    cases hstep
    exact dirtyOk_setDevice (stage_dirtyOk h.ok c _) _
  have hpersistent : ∀ c' l, t.slot (.persistent c', l) = s.slot (.persistent c', l) := by
    intro c' l
    rw [hslot]
    exact slot_stage_of_notMem fun b _ => by simp
  have hvalid : t.valid = s.valid := hsame.valid
  have hstaged := userStep_staged hstep
  refine ⟨hok, fun p hp => ?_, ?_, fun c' => ?_, fun i l hi => ?_, fun l k hk => ?_, fun l hl => ?_,
    fun c' l hl hs => ?_, fun l => ?_, fun c' l hc => ?_⟩
  · obtain ⟨i, l⟩ := p
    cases i with
    | persistent c' =>
      rw [hpersistent] at hp ⊢
      exact h.fits _ hp
    | staged i =>
      by_cases hi : i = c
      · subst hi
        rcases hstaged l with ⟨b, -, heq, -, hfits, -⟩ | ⟨heq, -⟩
        · rw [heq]
          exact hfits
        · rw [heq] at hp ⊢
          exact h.fits _ hp
      · rw [hslot, slot_stage_of_notMem fun b _ => by simp [hi], h.other i l hi] at hp
        cases hp
  · refine ⟨?_, ?_⟩
    · rw [hsame.now]
      exact h.calm.1
    · unfold Fine
      rw [hsame.later]
      exact h.calm.2
  · rintro ⟨bit, hbit⟩
    rw [hsame.dirty] at hbit
    exact h.clean c' ⟨bit, hbit⟩
  · rw [hslot, slot_stage_of_notMem fun b _ => by simp [hi]]
    exact h.other i l hi
  · rcases hstaged l with ⟨b, -, heq, hctx, -⟩ | ⟨heq, -⟩
    · rw [heq] at hk
      exact (Option.some.inj hk).symm.trans hctx
    · rw [heq] at hk
      exact h.own l k hk
  · rw [hvalid]
    rcases hstaged l with ⟨b, hb, heq, -⟩ | ⟨heq, -⟩
    · rw [heq]
      exact hnamed b hb
    · rw [heq] at hl ⊢
      exact h.named l hl
  · rw [hpersistent] at hl hs ⊢
    rw [hvalid]
    exact h.hasId c' l hl hs
  · rw [hvalid]
    rcases hstaged l with ⟨b, -, heq, -, -, data, hdata, harray⟩ | ⟨heq, hdata⟩
    · have hover : overlay t c l = fresh b.2 := by
        unfold overlay
        rw [heq]
        exact if_pos rfl
      rw [hover, hdata]
      exact fresh_rel hΦ harray
    · have hover : overlay t c l = overlay s c l := by
        unfold overlay
        rw [heq, hpersistent]
      rw [hover]
      rcases hdata with hdata | ⟨harray, hdata⟩
      · rw [hdata]
        exact h.rel l
      · rw [hdata]
        exact hΦ.empty _ _ _ harray
  · rw [hvalid, hpersistent, hdev c' hc]
    exact h.others c' l hc

/-- A slot of the context after a commit: the staged one with links of its own, empty, or as
    before. -/
theorem commit_cases (h : ListsOk s) (c : ℕ) (l : Loc) :
    (∃ r, (s.slot (.staged c, l)).ctx.isSome ∧ (s.slot (.staged c, l)).res = some r ∧
      (vmwBindingStateCommit c c s).slot (.persistent c, l) =
        { s.slot (.staged c, l) with resList := .on r }) ∨
    ((s.slot (.staged c, l)).ctx.isSome ∧ (s.slot (.staged c, l)).res = none ∧
      ((vmwBindingStateCommit c c s).slot (.persistent c, l)).ctx = none) ∨
    ((s.slot (.staged c, l)).ctx = none ∧
      (vmwBindingStateCommit c c s).slot (.persistent c, l) = s.slot (.persistent c, l)) := by
  by_cases hl : (s.slot (.staged c, l)).ctx.isSome
  · have htrans := h.commit_transferred (c := c) hl
    unfold Transferred at htrans
    split at htrans
    · rename_i r hres
      exact .inl ⟨r, hl, hres, htrans⟩
    · rename_i hres
      exact .inr (.inl ⟨hl, hres, htrans⟩)
  · have hdead : (s.slot (.staged c, l)).ctx = none := by simpa using hl
    exact .inr (.inr ⟨hdead, h.commit_of_dead hdead⟩)

theorem Staging.commit (hΦ : Emittable Φ) (h : Staging Φ c s) :
    Idle Φ (vmwBindingStateCommit c c s) := by
  have hsame := vmwBindingStateCommit_untouched c c s
  have hclean : Clean (vmwBindingStateCommit c c s) := by
    rintro c' ⟨bit, hbit⟩
    rw [hsame.dirty] at hbit
    exact h.clean c' ⟨bit, hbit⟩
  have hother : ∀ c' l, c' ≠ c → (vmwBindingStateCommit c c s).slot (.persistent c', l) =
      s.slot (.persistent c', l) := fun c' l hc =>
    h.ok.lists.commit_of_ne (by simpa using hc) (by simp)
  have hstaged : ∀ i l, ((vmwBindingStateCommit c c s).slot (.staged i, l)).ctx = none := by
    intro i l
    by_cases hi : i = c
    · subst hi
      exact h.ok.lists.commit_staged
    · rw [h.ok.lists.commit_of_ne (by simp) (by simpa using hi)]
      exact h.other i l hi
  refine ⟨⟨?_, fun p hp => ?_, ?_, fun c' l => ?_⟩, hclean, hstaged, fun c' l hl hs => ?_⟩
  · exact h.ok.commit h.own fun hp => absurd hp (h.clean c)
  · obtain ⟨i, l⟩ := p
    cases i with
    | staged i =>
      rw [hstaged] at hp
      cases hp
    | persistent c' =>
      by_cases hc : c' = c
      · subst hc
        rcases commit_cases h.ok.lists c' l with ⟨r, hlive, -, heq⟩ | ⟨-, -, hnone⟩ | ⟨-, heq⟩
        · rw [heq]
          exact h.fits _ hlive
        · rw [hnone] at hp
          cases hp
        · rw [heq] at hp ⊢
          exact h.fits _ hp
      · rw [hother c' l hc] at hp ⊢
        exact h.fits _ hp
  · refine ⟨?_, ?_⟩
    · rw [hsame.now]
      exact h.calm.1
    · unfold Fine
      rw [hsame.later]
      exact h.calm.2
  · refine .inr ?_
    rw [hsame.valid, hsame.device]
    by_cases hc : c' = c
    · subst hc
      have hrel := h.rel l
      unfold overlay at hrel
      rcases commit_cases h.ok.lists c' l with ⟨r, hlive, -, heq⟩ | ⟨hlive, hres, hnone⟩ | ⟨hdead, heq⟩
      · rw [if_pos hlive] at hrel
        rw [heq]
        exact hΦ.links _ _ _ _ _ hrel
      · rw [if_pos hlive] at hrel
        exact hΦ.drop _ _ _ _ _ (.inr hres) hnone hrel
      · rw [hdead, if_neg (by simp)] at hrel
        rw [heq]
        exact hrel
    · rw [hother c' l hc]
      exact h.others c' l hc
  · rw [hsame.valid]
    by_cases hc : c' = c
    · subst hc
      rcases commit_cases h.ok.lists c' l with ⟨r, hlive, hres, heq⟩ | ⟨-, -, hnone⟩ | ⟨-, heq⟩
      · have hnamed := h.named l hlive
        rw [hres] at hnamed
        rw [heq]
        simpa [hres] using hnamed
      · rw [hnone] at hl
        cases hl
      · rw [heq] at hl hs ⊢
        exact h.hasId c' l hl hs
    · rw [hother c' l hc] at hl hs ⊢
      exact h.hasId c' l hl hs

theorem submit_valid {cmds : List UserCmd} (h : submit c cmds s = some t) : t.valid = s.valid := by
  obtain ⟨u, hu, rfl⟩ := Option.map_eq_some_iff.1 h
  rw [(vmwBindingStateCommit_untouched c c u).valid]
  clear h
  induction cmds generalizing s with
  | nil =>
    cases hu
    rfl
  | cons cmd cmds ih =>
    rw [List.foldlM_cons] at hu
    obtain ⟨v, hv, hu⟩ := Option.bind_eq_some_iff.1 hu
    rw [ih hu]
    exact (userStep_cases hv).2.1.valid

theorem Idle.submit (hΦ : Emittable Φ) (h : Idle Φ s) {cmds : List UserCmd}
    (hsubmit : submit c cmds s = some t) : Idle Φ t := by
  obtain ⟨u, hu, rfl⟩ := Option.map_eq_some_iff.1 hsubmit
  have hstaging : Staging Φ c u := by
    have hs := h.staging c
    clear h hsubmit
    induction cmds generalizing s with
    | nil =>
      cases hu
      exact hs
    | cons cmd cmds ih =>
      rw [List.foldlM_cons] at hu
      obtain ⟨v, hv, hu⟩ := Option.bind_eq_some_iff.1 hu
      exact ih hu (hs.userStep hΦ hv)
  exact hstaging.commit hΦ

end Submissions

end Vmwgfx.BindingUser
