import Vmwgfx.ValidationTable

set_option autoImplicit false

/-!
# Duplicates with and without a hash table

What the lists hold and what a call returns is told by the calls so far, in the same way
whether duplicates are found in a hash table or by a search of the lists.
-/
namespace Vmwgfx.Validation
open HashTable
open ExecbufState (Errno ResType)

variable {hash : ℕ → ℕ} {A : Allocator} {D : Device} {s s₀ t : ValContext hash} {x : ℕ}
  {os : List Op} {o : Op}

def Op.doomed : Op → Bool
  | .addBo _ _ _ _ doomed => doomed
  | .addResource _ _ doomed => doomed
  | .splice => false

/-- The usage flags with which a buffer object was added for the first time. -/
def firstBo (os : List Op) (vbo : ℕ) : Option (Bool × Bool) :=
  os.findSome? fun
    | .addBo v asMob cpuBlit mem _ => if v = vbo ∧ mem then some (asMob, cpuBlit) else none
    | _ => none

def uses (os : List Op) (res : ℕ) : ℕ := os.foldl usedBy 0
  where usedBy (n : ℕ) : Op → ℕ
    | .addResource r mem _ => if r = res ∧ (n ≠ 0 ∨ mem) then n + 1 else n
    | _ => n

/-- What a call returns after the calls `os`; of the result for a resource only
    `*first_usage`. -/
def answer (os : List Op) : Op → Except Errno (Option Bool)
  | .addBo vbo asMob cpuBlit mem _ =>
    match firstBo os vbo with
    | some f => if f = (asMob, cpuBlit) then .ok none else .error .einval
    | none => if mem then .ok none else .error .enomem
  | .addResource res mem _ =>
    if uses os res ≠ 0 then .ok (some false)
    else if mem then .ok (some true) else .error .enomem
  | .splice => .ok none

/-- A buffer object and a resource that are in use at one time have different addresses. -/
def Apart (os : List Op) : Prop :=
  ∀ vbo asMob cpuBlit mem doomed, .addBo vbo asMob cpuBlit mem doomed ∈ os →
    ∀ mem' doomed', .addResource vbo mem' doomed' ∉ os

def ValContext.resNodes (s : ValContext hash) : List ℕ := s.resourceCtxList ++ s.resourceList

/-- Every object that was added is on the lists once, a buffer object with the flags of its
    first addition. -/
structure Exact (os : List Op) (s : ValContext hash) : Prop where
  bos : ∀ vbo, (s.boList.map s.boNode).filter (fun n => n.bo = vbo) =
    (firstBo os vbo).toList.map fun f => ⟨vbo, f.1, f.2⟩
  resources : ∀ res, (s.resNodes.map s.resNode).filter (fun n => n.res = res) =
    if uses os res = 0 then [] else [⟨res, uses os res = 1⟩]

theorem firstBo_append (os : List Op) (o : Op) (vbo : ℕ) :
    firstBo (os ++ [o]) vbo = (firstBo os vbo).or (firstBo [o] vbo) := List.findSome?_append

theorem firstBo_addBo (v vbo : ℕ) (asMob cpuBlit mem doomed : Bool) :
    firstBo [.addBo v asMob cpuBlit mem doomed] vbo =
      if v = vbo ∧ mem = true then some (asMob, cpuBlit) else none := by
  simp only [firstBo, List.findSome?_cons, List.findSome?_nil]
  split <;> simp_all

theorem firstBo_other (h : ∀ vbo asMob cpuBlit mem doomed,
    o ≠ .addBo vbo asMob cpuBlit mem doomed) (vbo : ℕ) : firstBo [o] vbo = none := by
  cases o with
  | addBo v asMob cpuBlit mem doomed => exact absurd rfl (h v asMob cpuBlit mem doomed)
  | addResource => rfl
  | splice => rfl

theorem firstBo_addResource {res : ℕ} {mem doomed : Bool} (v : ℕ) :
    firstBo (os ++ [.addResource res mem doomed]) v = firstBo os v := by
  rw [firstBo_append, firstBo_other (by simp), Option.or_none]

theorem uses_append (os : List Op) (res r : ℕ) (mem doomed : Bool) :
    uses (os ++ [.addResource r mem doomed]) res =
      if r = res ∧ (uses os res ≠ 0 ∨ mem = true) then uses os res + 1 else uses os res := by
  rw [uses, List.foldl_append]
  rfl

theorem uses_other (h : ∀ res mem doomed, o ≠ .addResource res mem doomed) (res : ℕ) :
    uses (os ++ [o]) res = uses os res := by
  cases o with
  | addResource r mem doomed => exact absurd rfl (h r mem doomed)
  | addBo =>
    rw [uses, List.foldl_append]
    rfl
  | splice =>
    rw [uses, List.foldl_append]
    rfl

theorem mem_of_uses {res : ℕ} (h : uses os res ≠ 0) :
    ∃ mem doomed, .addResource res mem doomed ∈ os := by
  induction os using List.reverseRecOn with
  | nil => exact absurd rfl h
  | append_singleton os o ih =>
    by_cases hold : uses os res = 0
    · cases o with
      | addResource r mem doomed =>
        rw [uses_append] at h
        by_cases hr : r = res
        · subst hr
          exact ⟨mem, doomed, by simp⟩
        · rw [if_neg fun hc => hr hc.1] at h
          exact absurd hold h
      | addBo => exact absurd hold (by rwa [uses_other (by simp)] at h)
      | splice => exact absurd hold (by rwa [uses_other (by simp)] at h)
    · obtain ⟨mem, doomed, hm⟩ := ih hold
      exact ⟨mem, doomed, by simp [hm]⟩

theorem mem_of_firstBo {vbo : ℕ} (h : firstBo os vbo ≠ none) :
    ∃ asMob cpuBlit mem doomed, .addBo vbo asMob cpuBlit mem doomed ∈ os := by
  obtain ⟨f, hf⟩ := Option.ne_none_iff_exists'.1 h
  obtain ⟨o, ho, hof⟩ := List.exists_of_findSome?_eq_some hf
  cases o with
  | addBo v asMob cpuBlit mem doomed =>
    simp only [Option.ite_none_right_eq_some] at hof
    exact ⟨asMob, cpuBlit, mem, doomed, hof.1.1 ▸ ho⟩
  | addResource => cases hof
  | splice => cases hof

theorem Apart.of_append {os' : List Op} (h : Apart (os ++ os')) : Apart os :=
  fun vbo m c mem d hbo mem' d' hres =>
    h vbo m c mem d (List.mem_append_left _ hbo) mem' d' (List.mem_append_left _ hres)

/-- After the calls `os` on a context that merges duplicates. -/
structure After (s₀ : ValContext hash) (os : List Op) (s : ValContext hash) : Prop where
  mergeDups : s.mergeDups = true
  bos : ∀ vbo, (s.boList.map s.boNode).filter (fun n => n.bo = vbo) =
    (firstBo os vbo).toList.map fun f => ⟨vbo, f.1, f.2⟩
  resources : ∀ res, ((s.resNodes.map s.resNode).filter fun n => n.res = res).Perm
    (if uses os res = 0 then [] else [⟨res, uses os res = 1⟩])
  used : ∀ a, a ∈ s.boList ∨ a ∈ s.resNodes → a ∈ s.used
  boRefs : ∀ v, s.boRefs v = s₀.boRefs v + (s.boList.map fun a => (s.boNode a).bo).count v
  resRefs : ∀ r, s.resRefs r = s₀.resRefs r + (s.resNodes.map fun a => (s.resNode a).res).count r
  table : s.hasHt = true → ∀ k a, drmHtFindItem s.table k = some a ↔
    a ∈ s.boList ∧ (s.boNode a).bo = k ∨ a ∈ s.resNodes ∧ (s.resNode a).res = k

theorem After.bo_mem (h : After s₀ os s) {a : ℕ} (ha : a ∈ s.boList) :
    ∃ f, firstBo os (s.boNode a).bo = some f ∧ s.boNode a = ⟨(s.boNode a).bo, f.1, f.2⟩ := by
  have hm : s.boNode a ∈ (s.boList.map s.boNode).filter fun n => n.bo = (s.boNode a).bo :=
    List.mem_filter.2 ⟨List.mem_map_of_mem ha, by simp⟩
  rw [h.bos, List.mem_map] at hm
  obtain ⟨f, hf, he⟩ := hm
  exact ⟨f, Option.mem_toList.1 hf, he.symm⟩

theorem After.res_mem (h : After s₀ os s) {a : ℕ} (ha : a ∈ s.resNodes) :
    uses os (s.resNode a).res ≠ 0 := by
  have hm : s.resNode a ∈ (s.resNodes.map s.resNode).filter fun n => n.res = (s.resNode a).res :=
    List.mem_filter.2 ⟨List.mem_map_of_mem ha, by simp⟩
  intro h0
  rw [(h.resources _).mem_iff, if_pos h0] at hm
  cases hm

theorem unique_of_filter {α β : Type} [DecidableEq β] {l : List ℕ} {f : ℕ → α} {g : α → β} {k : β}
    (h : ((l.map f).filter fun n => g n = k).length ≤ 1) {a b : ℕ} (ha : a ∈ l) (hb : b ∈ l)
    (hga : g (f a) = k) (hgb : g (f b) = k) : a = b := by
  rw [List.filter_map, List.length_map] at h
  have hma : a ∈ l.filter ((fun n => decide (g n = k)) ∘ f) := List.mem_filter.2 ⟨ha, by simp [hga]⟩
  have hmb : b ∈ l.filter ((fun n => decide (g n = k)) ∘ f) := List.mem_filter.2 ⟨hb, by simp [hgb]⟩
  match hl : l.filter ((fun n => decide (g n = k)) ∘ f), h, hma, hmb with
  | [], _, hma, _ => cases hma
  | [c], _, hma, hmb => rw [List.mem_singleton.1 hma, List.mem_singleton.1 hmb]

theorem After.bo_unique (h : After s₀ os s) {a b : ℕ} (ha : a ∈ s.boList) (hb : b ∈ s.boList)
    (hab : (s.boNode a).bo = (s.boNode b).bo) : a = b := by
  refine unique_of_filter (k := (s.boNode b).bo) ?_ ha hb hab rfl
  rw [h.bos, List.length_map]
  cases firstBo os (s.boNode b).bo <;> simp

theorem After.res_unique (h : After s₀ os s) {a b : ℕ} (ha : a ∈ s.resNodes)
    (hb : b ∈ s.resNodes) (hab : (s.resNode a).res = (s.resNode b).res) : a = b := by
  refine unique_of_filter (k := (s.resNode b).res) ?_ ha hb hab rfl
  rw [(h.resources _).length_eq]
  split <;> simp

theorem After.findBoDup (h : After s₀ os s) {vbo : ℕ} (hapart : uses os vbo = 0) {a : ℕ} :
    vmwValidationFindBoDup s vbo = some a ↔ a ∈ s.boList ∧ (s.boNode a).bo = vbo := by
  unfold vmwValidationFindBoDup
  simp only [h.mergeDups, Bool.not_true, Bool.false_eq_true, if_false]
  cases hht : s.hasHt with
  | true =>
    rw [if_pos rfl, h.table hht]
    refine or_iff_left ?_
    rintro ⟨ha, rfl⟩
    exact h.res_mem ha hapart
  | false =>
    rw [if_neg (by simp)]
    constructor
    · intro hf
      exact ⟨List.mem_of_find?_eq_some hf, by simpa using List.find?_some hf⟩
    · rintro ⟨ha, hbo⟩
      cases hf : s.boList.find? fun entry => (s.boNode entry).bo = vbo with
      | none =>
        rw [List.find?_eq_none] at hf
        exact absurd (by simpa using hbo) (hf a ha)
      | some b =>
        have hb : (s.boNode b).bo = vbo := by simpa using List.find?_some hf
        rw [h.bo_unique ha (List.mem_of_find?_eq_some hf) (hbo.trans hb.symm)]

theorem find?_append' (p : ℕ → Bool) (l l' : List ℕ) :
    (l.find? p).or (l'.find? p) = (l ++ l').find? p := List.find?_append.symm

theorem After.findResDup (h : After s₀ os s) {res : ℕ} (hapart : firstBo os res = none) {a : ℕ} :
    vmwValidationFindResDup s res = some a ↔ a ∈ s.resNodes ∧ (s.resNode a).res = res := by
  unfold vmwValidationFindResDup
  simp only [h.mergeDups, Bool.not_true, Bool.false_eq_true, if_false]
  cases hht : s.hasHt with
  | true =>
    rw [if_pos rfl, h.table hht]
    refine or_iff_right ?_
    rintro ⟨ha, rfl⟩
    obtain ⟨f, hf, -⟩ := h.bo_mem ha
    rw [hapart] at hf
    cases hf
  | false =>
    rw [if_neg (by simp), find?_append']
    change (s.resNodes.find? _) = _ ↔ _
    constructor
    · intro hf
      exact ⟨List.mem_of_find?_eq_some hf, by simpa using List.find?_some hf⟩
    · rintro ⟨ha, hres⟩
      cases hf : s.resNodes.find? fun entry => (s.resNode entry).res = res with
      | none =>
        rw [List.find?_eq_none] at hf
        exact absurd (by simpa using hres) (hf a ha)
      | some b =>
        have hb : (s.resNode b).res = res := by simpa using List.find?_some hf
        rw [h.res_unique ha (List.mem_of_find?_eq_some hf) (hres.trans hb.symm)]

/-- The context with a new node in its memory and the table `ht`. -/
def ValContext.withNode (A : Allocator) (ht : OpenHash hash ℕ) (s : ValContext hash) :
    ValContext hash := { s.memAlloc A with table := ht }

theorem addNode_new (A : Allocator) (key : ℕ) (list : ℕ → ValContext hash → ValContext hash)
    (hfree : s.hasHt = true → drmHtFindItem s.table key = none) :
    ∃ ht, addNode A key true false list s =
        (.ok (A.alloc s.used), list (A.alloc s.used) (s.withNode A ht)) ∧
      (s.hasHt = true → drmHtInsertItem s.table ⟨A.alloc s.used, key⟩ = some ht) ∧
      (s.hasHt = false → ht = s.table) := by
  cases hht : s.hasHt with
  | false =>
    refine ⟨s.table, ?_, by simp, fun _ => rfl⟩
    simp [addNode, ValContext.insertNode, ValContext.withNode, ValContext.memAlloc, hht]
  | true =>
    cases hins : drmHtInsertItem s.table ⟨A.alloc s.used, key⟩ with
    | none => exact absurd (hfree hht) (drmHtInsertItem_eq_none_iff.1 hins)
    | some ht =>
      refine ⟨ht, ?_, fun _ => rfl, by simp⟩
      simp [addNode, ValContext.insertNode, ValContext.withNode, ValContext.memAlloc, hht, hins]

theorem addNode_noMem (A : Allocator) {key : ℕ} {doomed : Bool}
    {list : ℕ → ValContext hash → ValContext hash} :
    addNode A key false doomed list s = (.error .enomem, s) := rfl

theorem After.idle (h : After s₀ os s) (hbo : ∀ v, firstBo (os ++ [o]) v = firstBo os v)
    (huses : ∀ r, uses (os ++ [o]) r = uses os r) : After s₀ (os ++ [o]) s :=
  ⟨h.mergeDups, fun v => by rw [hbo]; exact h.bos v, fun r => by rw [huses]; exact h.resources r,
    h.used, h.boRefs, h.resRefs, h.table⟩

section NewNodes
variable (h : After s₀ os s) {ht : OpenHash hash ℕ} {asMob cpuBlit doomed : Bool} {vbo res : ℕ}
include h

theorem After.fresh_bo (A : Allocator) {b : ℕ} (hb : b ∈ s.boList) : b ≠ A.alloc s.used :=
  fun he => A.fresh _ (he ▸ h.used b (.inl hb))

theorem After.fresh_res (A : Allocator) {b : ℕ} (hb : b ∈ s.resNodes) : b ≠ A.alloc s.used :=
  fun he => A.fresh _ (he ▸ h.used b (.inr hb))

theorem After.listBo (hnew : firstBo os vbo = none)
    (hins : s.hasHt = true → drmHtInsertItem s.table ⟨A.alloc s.used, vbo⟩ = some ht) :
    After s₀ (os ++ [.addBo vbo asMob cpuBlit true doomed])
      ((s.withNode A ht).listBo (A.alloc s.used) vbo asMob cpuBlit) := by
  set a := A.alloc s.used with ha
  set t := (s.withNode A ht).listBo a vbo asMob cpuBlit
  have hbo : ∀ b ∈ s.boList, t.boNode b = s.boNode b := fun b hb => by
    have hne := h.fresh_bo A hb
    exact (Function.update_of_ne hne _ _).trans (Function.update_of_ne hne _ _)
  have hres : ∀ b ∈ s.resNodes, t.resNode b = s.resNode b := fun b hb =>
    Function.update_of_ne (h.fresh_res A hb) _ _
  have hnode : t.boNode a = ⟨vbo, asMob, cpuBlit⟩ := Function.update_self _ _ _
  have hlist : t.boList = s.boList ++ [a] := rfl
  have hnodes : t.resNodes = s.resNodes := rfl
  have huses : ∀ r, uses (os ++ [.addBo vbo asMob cpuBlit true doomed]) r = uses os r :=
    uses_other (by simp)
  refine ⟨h.mergeDups, fun v => ?_, fun r => ?_, fun b hb => ?_, fun v => ?_, fun r => ?_,
    fun hht k b => ?_⟩
  · rw [hlist, List.map_append, List.map_singleton, hnode, List.filter_append,
      List.map_congr_left hbo, h.bos, firstBo_append, firstBo_addBo]
    by_cases hv : vbo = v
    · subst hv
      simp [hnew]
    · simp [hv]
  · rw [hnodes, List.map_congr_left hres, huses]
    exact h.resources r
  · change b ∈ a :: s.used
    rcases hb with hb | hb
    · rcases List.mem_append.1 hb with hb | hb
      · exact List.mem_cons_of_mem _ (h.used b (.inl hb))
      · exact List.mem_cons.2 (.inl (List.mem_singleton.1 hb))
    · exact List.mem_cons_of_mem _ (h.used b (.inr hb))
  · have hmap : s.boList.map (fun b => (t.boNode b).bo) = s.boList.map fun b => (s.boNode b).bo :=
      List.map_congr_left fun b hb => by rw [hbo b hb]
    rw [hlist, List.map_append, List.map_singleton, hnode, List.count_append, hmap]
    change Function.update s.boRefs vbo (s.boRefs vbo + 1) v = _
    by_cases hv : v = vbo
    · subst hv
      rw [Function.update_self, h.boRefs]
      simp
      ring
    · rw [Function.update_of_ne hv, h.boRefs]
      simp [Ne.symm hv]
  · have hmap : s.resNodes.map (fun b => (t.resNode b).res) =
        s.resNodes.map fun b => (s.resNode b).res :=
      List.map_congr_left fun b hb => by rw [hres b hb]
    rw [hnodes, hmap]
    exact h.resRefs r
  · change drmHtFindItem ht k = some b ↔ _
    rw [drmHtFindItem_insert_iff (hins hht), h.table hht, hlist, hnodes]
    constructor
    · rintro (⟨rfl, rfl⟩ | ⟨hb, hbk⟩ | ⟨hb, hbk⟩)
      · exact .inl ⟨by simp, by rw [hnode]⟩
      · exact .inl ⟨by simp [hb], by rw [hbo b hb, hbk]⟩
      · exact .inr ⟨hb, by rw [hres b hb, hbk]⟩
    · rintro (⟨hb, hbk⟩ | ⟨hb, hbk⟩)
      · rcases List.mem_append.1 hb with hb | hb
        · exact .inr (.inl ⟨hb, by rw [← hbo b hb, hbk]⟩)
        · obtain rfl := List.mem_singleton.1 hb
          rw [hnode] at hbk
          exact .inl ⟨hbk.symm, rfl⟩
      · exact .inr (.inr ⟨hb, by rw [← hres b hb, hbk]⟩)

omit h in
theorem listRes_spec (D : Device) (t : ValContext hash) (a res : ℕ) :
    (t.listRes D a res).resNodes.Perm (a :: t.resNodes) ∧
      t.listRes D a res = { t with
        resRefs := Function.update t.resRefs res (t.resRefs res + 1)
        resNode := Function.update t.resNode a ⟨res, true⟩
        resourceList := (t.listRes D a res).resourceList
        resourceCtxList := (t.listRes D a res).resourceCtxList } := by
  have hlast : (t.resourceCtxList ++ (t.resourceList ++ [a])).Perm (a :: t.resNodes) := by
    rw [← List.append_assoc]
    exact List.perm_append_singleton _ _
  have hcotable : (t.resourceCtxList ++ [a] ++ t.resourceList).Perm (a :: t.resNodes) := by
    rw [List.append_assoc]
    exact List.perm_middle
  unfold ValContext.listRes
  by_cases hm : D.hasMob = true
  · cases htype : D.resType res <;>
      simp only [hm, Bool.not_true, Bool.false_eq_true, if_false, and_true]
    case context => exact List.Perm.refl _
    case dxContext => exact List.Perm.refl _
    case cotable => exact hcotable
    all_goals exact hlast
  · simp only [hm, Bool.not_false, if_true, and_true]
    exact hlast

theorem After.listRes (hnew : uses os res = 0)
    (hins : s.hasHt = true → drmHtInsertItem s.table ⟨A.alloc s.used, res⟩ = some ht) :
    After s₀ (os ++ [.addResource res true doomed])
      ((s.withNode A ht).listRes D (A.alloc s.used) res) := by
  set a := A.alloc s.used with ha
  obtain ⟨hperm, heq⟩ :=
    listRes_spec D (s.withNode A ht) a res
  set t := (s.withNode A ht).listRes D a res
  have hbo : ∀ b ∈ s.boList, t.boNode b = s.boNode b := fun b hb => by
    rw [heq]
    exact Function.update_of_ne (h.fresh_bo A hb) _ _
  have hres : ∀ b ∈ s.resNodes, t.resNode b = s.resNode b := fun b hb => by
    have hne := h.fresh_res A hb
    rw [heq]
    exact (Function.update_of_ne hne _ _).trans (Function.update_of_ne hne _ _)
  have hnode : t.resNode a = ⟨res, true⟩ := by
    rw [heq]
    exact Function.update_self _ _ _
  have hlist : t.boList = s.boList := by rw [heq]; rfl
  have hmem : ∀ b, b ∈ t.resNodes ↔ b = a ∨ b ∈ s.resNodes := fun b =>
    hperm.mem_iff.trans List.mem_cons
  refine ⟨by rw [heq]; exact h.mergeDups, fun v => ?_, fun r => ?_, fun b hb => ?_, fun v => ?_,
    fun r => ?_, fun hht k b => ?_⟩
  · rw [hlist, List.map_congr_left hbo, firstBo_addResource]
    exact h.bos v
  · have hmap : (t.resNodes.map t.resNode).Perm (⟨res, true⟩ :: s.resNodes.map s.resNode) := by
      refine (hperm.map _).trans ?_
      rw [List.map_cons, hnode]
      change (_ :: s.resNodes.map t.resNode).Perm _
      rw [List.map_congr_left hres]
    refine (hmap.filter _).trans ?_
    rw [uses_append]
    by_cases hr : res = r
    · subst hr
      rw [List.filter_cons_of_pos (by simp), if_neg (by simp), if_pos ⟨rfl, .inr rfl⟩, hnew]
      have hnil := h.resources res
      rw [if_pos hnew] at hnil
      rw [List.perm_nil.1 hnil]
      simp
    · rw [List.filter_cons_of_neg (by simpa using hr)]
      simpa only [hr, false_and, if_false] using h.resources r
  · rw [heq]
    change b ∈ a :: s.used
    rcases hb with hb | hb
    · exact List.mem_cons_of_mem _ (h.used b (.inl (by rwa [hlist] at hb)))
    · rcases (hmem b).1 hb with rfl | hb
      · exact List.mem_cons_self
      · exact List.mem_cons_of_mem _ (h.used b (.inr hb))
  · have hmap : s.boList.map (fun b => (t.boNode b).bo) = s.boList.map fun b => (s.boNode b).bo :=
      List.map_congr_left fun b hb => by rw [hbo b hb]
    rw [hlist, hmap, heq]
    exact h.boRefs v
  · have hmap : s.resNodes.map (fun b => (t.resNode b).res) =
        s.resNodes.map fun b => (s.resNode b).res :=
      List.map_congr_left fun b hb => by rw [hres b hb]
    have hcount : (t.resNodes.map fun b => (t.resNode b).res).count r =
        (res :: s.resNodes.map fun b => (s.resNode b).res).count r := by
      rw [(hperm.map _).count_eq, List.map_cons, hnode]
      change List.count r (res :: s.resNodes.map fun b => (t.resNode b).res) = _
      rw [hmap]
    rw [hcount, List.count_cons, show t.resRefs = Function.update s.resRefs res (s.resRefs res + 1) by
      rw [heq]; rfl]
    by_cases hr : r = res
    · subst hr
      rw [Function.update_self, h.resRefs]
      simp
      ring
    · rw [Function.update_of_ne hr, h.resRefs]
      simp [Ne.symm hr]
  · have htable : t.table = ht := by rw [heq]; rfl
    have hht' : s.hasHt = true := by rw [heq] at hht; exact hht
    rw [htable, drmHtFindItem_insert_iff (hins hht'), h.table hht', hlist, hmem]
    constructor
    · rintro (⟨rfl, rfl⟩ | ⟨hb, hbk⟩ | ⟨hb, hbk⟩)
      · exact .inr ⟨.inl rfl, by rw [hnode]⟩
      · exact .inl ⟨hb, by rw [hbo b hb, hbk]⟩
      · exact .inr ⟨.inr hb, by rw [hres b hb, hbk]⟩
    · rintro (⟨hb, hbk⟩ | ⟨rfl | hb, hbk⟩)
      · exact .inr (.inl ⟨hb, by rw [← hbo b hb, hbk]⟩)
      · rw [hnode] at hbk
        exact .inl ⟨hbk.symm, rfl⟩
      · exact .inr (.inr ⟨hb, by rw [← hres b hb, hbk]⟩)

theorem After.usedAgain {mem : Bool} {a : ℕ} (ha : a ∈ s.resNodes)
    (hres : (s.resNode a).res = res) :
    After s₀ (os ++ [.addResource res mem doomed]) (s.usedAgain a) := by
  have hne := h.res_mem ha
  rw [hres] at hne
  have hsame : ∀ b, ((s.usedAgain a).resNode b).res = (s.resNode b).res := fun b => by
    change (Function.update s.resNode a _ b).res = _
    by_cases hb : b = a
    · rw [hb, Function.update_self]
    · rw [Function.update_of_ne hb]
  refine ⟨h.mergeDups, fun v => by rw [firstBo_addResource]; exact h.bos v, fun r => ?_, h.used,
    h.boRefs,
    fun r => ?_, fun hht k b => ?_⟩
  · have hr := h.resources r
    rw [List.filter_map] at hr
    change ((s.resNodes.map (s.usedAgain a).resNode).filter _).Perm _
    rw [List.filter_map, show ((fun n : ResNode => decide (n.res = r)) ∘ (s.usedAgain a).resNode) =
      ((fun n : ResNode => decide (n.res = r)) ∘ s.resNode) from funext fun b => by
        simp [hsame b]]
    by_cases hrr : res = r
    · subst hrr
      have huses : uses (os ++ [.addResource res mem doomed]) res = uses os res + 1 := by
        rw [uses_append, if_pos ⟨rfl, .inl hne⟩]
      rw [if_neg hne] at hr
      rw [huses, if_neg (Nat.succ_ne_zero _)]
      -- the only node of the resource is `a`
      obtain ⟨b, hb⟩ := List.length_eq_one_iff.1 ((List.length_map _).symm.trans hr.length_eq)
      have hab : a = b := by
        have hm : a ∈ s.resNodes.filter ((fun n : ResNode => decide (n.res = res)) ∘ s.resNode) :=
          List.mem_filter.2 ⟨ha, by simp [hres]⟩
        rwa [hb, List.mem_singleton] at hm
      rw [hb, ← hab, List.map_singleton]
      change [Function.update s.resNode a _ a].Perm _
      rw [Function.update_self, hres]
      simp [hne]
    · have huses : uses (os ++ [.addResource res mem doomed]) r = uses os r := by
        rw [uses_append, if_neg fun hc => hrr hc.1]
      rw [huses]
      refine (List.Perm.of_eq (List.map_congr_left fun b hb => ?_)).trans hr
      refine Function.update_of_ne ?_ _ _
      rintro rfl
      have := (List.mem_filter.1 hb).2
      simp [hres, hrr] at this
  · have hmap : s.resNodes.map (fun b => ((s.usedAgain a).resNode b).res) =
        s.resNodes.map fun b => (s.resNode b).res := List.map_congr_left fun b _ => hsame b
    change s.resRefs r = _ + ((s.resNodes.map fun b => ((s.usedAgain a).resNode b).res).count r : ℕ)
    rw [hmap]
    exact h.resRefs r
  · refine (h.table hht k b).trans (or_congr Iff.rfl (and_congr_right fun _ => ?_))
    rw [hsame]

theorem After.splice : After s₀ (os ++ [.splice]) s.splice := by
  have hnodes : s.splice.resNodes = s.resNodes := rfl
  refine ⟨h.mergeDups, fun v => ?_, fun r => ?_, h.used, h.boRefs, h.resRefs, h.table⟩
  · rw [firstBo_append, firstBo_other (by simp), Option.or_none]
    exact h.bos v
  · rw [uses_other (by simp)]
    exact h.resources r

end NewNodes

def ValContext.plain (s : ValContext hash) : ValContext hash :=
  { s with hasHt := false, table := drmHtCreate hash ℕ }

theorem After.plain (h : After s₀ os s) : After s₀ os s.plain :=
  ⟨h.mergeDups, h.bos, h.resources, h.used, h.boRefs, h.resRefs, fun hht => by cases hht⟩

/-- What is known of a call: the invariant afterwards, its result, and that it does the same
    without the hash table. -/
structure Call (A : Allocator) (D : Device) (s₀ : ValContext hash) (os : List Op) (o : Op)
    (s : ValContext hash) : Prop where
  after : After s₀ (os ++ [o]) (runOp A D o s).2
  answer : (runOp A D o s).1.map (Option.map Prod.fst) = answer os o
  unchanged : (runOp A D o s).1 = .error .einval → (runOp A D o s).2 = s
  plain : runOp A D o s.plain = ((runOp A D o s).1, (runOp A D o s).2.plain)

theorem firstBo_addBo_append (os : List Op) (vbo : ℕ) (asMob cpuBlit mem doomed : Bool) (v : ℕ) :
    firstBo (os ++ [.addBo vbo asMob cpuBlit mem doomed]) v =
      (firstBo os v).or (if vbo = v ∧ mem = true then some (asMob, cpuBlit) else none) := by
  rw [firstBo_append, firstBo_addBo]

theorem After.findBoDup_plain (h : After s₀ os s) {vbo : ℕ} (hapart : uses os vbo = 0) :
    vmwValidationFindBoDup s.plain vbo = vmwValidationFindBoDup s vbo :=
  Option.ext fun _ => (h.plain.findBoDup hapart).trans (h.findBoDup hapart).symm

theorem After.findResDup_plain (h : After s₀ os s) {res : ℕ} (hapart : firstBo os res = none) :
    vmwValidationFindResDup s.plain res = vmwValidationFindResDup s res :=
  Option.ext fun _ => (h.plain.findResDup hapart).trans (h.findResDup hapart).symm

theorem After.firstBo_of_noDup (h : After s₀ os s) {vbo : ℕ} (hapart : uses os vbo = 0)
    (hdup : vmwValidationFindBoDup s vbo = none) : firstBo os vbo = none := by
  by_contra hne
  obtain ⟨f, hf⟩ := Option.ne_none_iff_exists'.1 hne
  have hbos := h.bos vbo
  rw [hf, List.filter_map] at hbos
  obtain ⟨a, ha⟩ := List.exists_mem_of_length_pos
    (l := s.boList.filter ((fun n : BoNode => decide (n.bo = vbo)) ∘ s.boNode))
    (by rw [← List.length_map, hbos]; simp)
  obtain ⟨ha, hbo⟩ := List.mem_filter.1 ha
  have := (h.findBoDup hapart).2 ⟨ha, by simpa using hbo⟩
  rw [hdup] at this
  cases this

theorem After.uses_of_noDup (h : After s₀ os s) {res : ℕ} (hapart : firstBo os res = none)
    (hdup : vmwValidationFindResDup s res = none) : uses os res = 0 := by
  by_contra hne
  have hnodes := (h.resources res).length_eq
  rw [List.filter_map, List.length_map, if_neg hne] at hnodes
  obtain ⟨a, ha⟩ := List.exists_mem_of_length_pos (Nat.lt_of_lt_of_eq Nat.zero_lt_one hnodes.symm)
  obtain ⟨ha, hres⟩ := List.mem_filter.1 ha
  have := (h.findResDup hapart).2 ⟨ha, by simpa using hres⟩
  rw [hdup] at this
  cases this

theorem After.addBo_again (h : After s₀ os s) {vbo node : ℕ} (asMob cpuBlit mem : Bool)
    (hapart : uses os vbo = 0) (hdup : vmwValidationFindBoDup s vbo = some node) :
    Call A D s₀ os (.addBo vbo asMob cpuBlit mem false) s := by
  obtain ⟨hmem, hbo⟩ := (h.findBoDup hapart).1 hdup
  obtain ⟨f, hf, hnode⟩ := h.bo_mem hmem
  rw [hbo] at hf hnode
  have hrun : ∀ u : ValContext hash, vmwValidationFindBoDup u vbo = some node →
      u.boNode = s.boNode → runOp A D (.addBo vbo asMob cpuBlit mem false) u =
        (if f = (asMob, cpuBlit) then .ok none else .error .einval, u) := by
    intro u hu hn
    simp only [runOp, vmwValidationAddBo, hu, hn, hnode]
    obtain ⟨m, c⟩ := f
    by_cases hflags : m = asMob ∧ c = cpuBlit
    · simp [hflags, Except.map]
    · rw [if_pos (by tauto), if_neg (by simpa using hflags)]
      rfl
  refine ⟨?_, ?_, fun _ => ?_, ?_⟩
  · rw [hrun s hdup rfl]
    refine h.idle (fun v => ?_) (uses_other (by simp))
    rw [firstBo_addBo_append]
    by_cases hv : vbo = v
    · rw [← hv, hf, Option.some_or]
    · simp [hv]
  · rw [hrun s hdup rfl]
    simp only [Validation.answer, hf]
    split <;> rfl
  · rw [hrun s hdup rfl]
  · rw [hrun s hdup rfl, hrun s.plain ((h.findBoDup_plain hapart).trans hdup) rfl]

theorem After.addBo_noMem (h : After s₀ os s) {vbo : ℕ} (asMob cpuBlit : Bool)
    (hapart : uses os vbo = 0) (hdup : vmwValidationFindBoDup s vbo = none) :
    Call A D s₀ os (.addBo vbo asMob cpuBlit false false) s := by
  have hrun : ∀ u : ValContext hash, vmwValidationFindBoDup u vbo = none →
      runOp A D (.addBo vbo asMob cpuBlit false false) u = (.error .enomem, u) := by
    intro u hu
    simp only [runOp, vmwValidationAddBo, hu, addNode_noMem]
    rfl
  refine ⟨?_, ?_, fun _ => ?_, ?_⟩
  · rw [hrun s hdup]
    exact h.idle (fun v => by rw [firstBo_addBo_append]; simp) (uses_other (by simp))
  · rw [hrun s hdup]
    simp [Validation.answer, h.firstBo_of_noDup hapart hdup, Except.map]
  · rw [hrun s hdup]
  · rw [hrun s hdup, hrun s.plain ((h.findBoDup_plain hapart).trans hdup)]

theorem After.addBo_new (h : After s₀ os s) {vbo : ℕ} (asMob cpuBlit : Bool)
    (hapart : uses os vbo = 0) (hdup : vmwValidationFindBoDup s vbo = none) :
    Call A D s₀ os (.addBo vbo asMob cpuBlit true false) s := by
  have hnone := h.firstBo_of_noDup hapart hdup
  have hfree : s.hasHt = true → drmHtFindItem s.table vbo = none := fun hht => by
    simpa [vmwValidationFindBoDup, h.mergeDups, hht] using hdup
  obtain ⟨ht, hadd, hins, -⟩ := addNode_new A vbo
    (fun node => .listBo node vbo asMob cpuBlit) hfree
  obtain ⟨ht', hadd', -, hht'⟩ := addNode_new A vbo (s := s.plain)
    (fun node => .listBo node vbo asMob cpuBlit) (fun hc => by cases hc)
  obtain rfl := hht' rfl
  have hrun : runOp A D (.addBo vbo asMob cpuBlit true false) s =
      (.ok none, (s.withNode A ht).listBo (A.alloc s.used) vbo asMob cpuBlit) := by
    simp only [runOp, vmwValidationAddBo, hdup, hadd]
    rfl
  have hrun' : runOp A D (.addBo vbo asMob cpuBlit true false) s.plain = (.ok none,
      (s.plain.withNode A s.plain.table).listBo (A.alloc s.used) vbo asMob cpuBlit) := by
    simp only [runOp, vmwValidationAddBo, (h.findBoDup_plain hapart).trans hdup, hadd']
    rfl
  refine ⟨?_, ?_, fun he => ?_, ?_⟩
  · rw [hrun]
    exact h.listBo hnone hins
  · rw [hrun]
    simp [Validation.answer, hnone, Except.map]
  · rw [hrun] at he
    cases he
  · rw [hrun', hrun]
    rfl

theorem After.addBo (h : After s₀ os s) (vbo : ℕ) (asMob cpuBlit mem : Bool)
    (hapart : uses os vbo = 0) : Call A D s₀ os (.addBo vbo asMob cpuBlit mem false) s := by
  cases hdup : vmwValidationFindBoDup s vbo with
  | some node => exact h.addBo_again asMob cpuBlit mem hapart hdup
  | none =>
    cases mem with
    | false => exact h.addBo_noMem asMob cpuBlit hapart hdup
    | true => exact h.addBo_new asMob cpuBlit hapart hdup

theorem After.addResource_again (h : After s₀ os s) {res node : ℕ} (mem : Bool)
    (hapart : firstBo os res = none) (hdup : vmwValidationFindResDup s res = some node) :
    Call A D s₀ os (.addResource res mem false) s := by
  obtain ⟨hmem, hres⟩ := (h.findResDup hapart).1 hdup
  have hne := h.res_mem hmem
  rw [hres] at hne
  have hrun : ∀ u : ValContext hash, vmwValidationFindResDup u res = some node →
      runOp A D (.addResource res mem false) u =
        (.ok (some (false, node)), u.usedAgain node) := by
    intro u hu
    simp only [runOp, vmwValidationAddResource, hu, ValContext.usedAgain, Function.update_self]
    rfl
  refine ⟨?_, ?_, fun he => ?_, ?_⟩
  · rw [hrun s hdup]
    exact h.usedAgain hmem hres
  · rw [hrun s hdup, Validation.answer, if_pos hne]
    rfl
  · rw [hrun s hdup] at he
    cases he
  · rw [hrun s hdup, hrun s.plain ((h.findResDup_plain hapart).trans hdup)]
    rfl

theorem After.addResource_noMem (h : After s₀ os s) {res : ℕ} (hapart : firstBo os res = none)
    (hdup : vmwValidationFindResDup s res = none) :
    Call A D s₀ os (.addResource res false false) s := by
  have hnone := h.uses_of_noDup hapart hdup
  have hrun : ∀ u : ValContext hash, vmwValidationFindResDup u res = none →
      runOp A D (.addResource res false false) u = (.error .enomem, u) := by
    intro u hu
    simp only [runOp, vmwValidationAddResource, hu, addNode_noMem]
    rfl
  refine ⟨?_, ?_, fun _ => ?_, ?_⟩
  · rw [hrun s hdup]
    refine h.idle firstBo_addResource fun r => ?_
    rw [uses_append]
    by_cases hr : res = r
    · simp [← hr, hnone]
    · simp [hr]
  · rw [hrun s hdup]
    simp [Validation.answer, hnone, Except.map]
  · rw [hrun s hdup]
  · rw [hrun s hdup, hrun s.plain ((h.findResDup_plain hapart).trans hdup)]

theorem After.addResource_new (h : After s₀ os s) {res : ℕ} (hapart : firstBo os res = none)
    (hdup : vmwValidationFindResDup s res = none) :
    Call A D s₀ os (.addResource res true false) s := by
  have hnone := h.uses_of_noDup hapart hdup
  have hfree : s.hasHt = true → drmHtFindItem s.table res = none := fun hht => by
    simpa [vmwValidationFindResDup, h.mergeDups, hht] using hdup
  obtain ⟨ht, hadd, hins, -⟩ := addNode_new A res (fun node => .listRes D node res) hfree
  obtain ⟨ht', hadd', -, hht'⟩ := addNode_new A res (s := s.plain)
    (fun node => .listRes D node res) (fun hc => by cases hc)
  obtain rfl := hht' rfl
  have hnode : ∀ u : ValContext hash, ((u.listRes D (A.alloc s.used) res).resNode
      (A.alloc s.used)).firstUsage = true := fun u => by
    rw [(listRes_spec D u (A.alloc s.used) res).2]
    simp
  have hrun : runOp A D (.addResource res true false) s =
      (.ok (some (true, A.alloc s.used)), (s.withNode A ht).listRes D (A.alloc s.used) res) := by
    simp only [runOp, vmwValidationAddResource, hdup, hadd, Except.map, hnode]
  have hrun' : runOp A D (.addResource res true false) s.plain =
      (.ok (some (true, A.alloc s.used)),
        (s.plain.withNode A s.plain.table).listRes D (A.alloc s.used) res) := by
    simp only [runOp, vmwValidationAddResource, (h.findResDup_plain hapart).trans hdup, hadd',
      Except.map]
    rw [show s.plain.used = s.used from rfl, hnode]
  refine ⟨?_, ?_, fun he => ?_, ?_⟩
  · rw [hrun]
    exact h.listRes hnone hins
  · rw [hrun]
    simp [Validation.answer, hnone, Except.map]
  · rw [hrun] at he
    cases he
  · rw [hrun', hrun]
    unfold ValContext.listRes
    split
    · rfl
    · split <;> rfl

theorem After.addResource (h : After s₀ os s) (res : ℕ) (mem : Bool)
    (hapart : firstBo os res = none) : Call A D s₀ os (.addResource res mem false) s := by
  cases hdup : vmwValidationFindResDup s res with
  | some node => exact h.addResource_again mem hapart hdup
  | none =>
    cases mem with
    | false => exact h.addResource_noMem hapart hdup
    | true => exact h.addResource_new hapart hdup

theorem After.runOp (h : After s₀ os s) (hd : o.doomed = false) (ha : Apart (os ++ [o])) :
    Call A D s₀ os o s := by
  cases o with
  | addBo vbo asMob cpuBlit mem doomed =>
    obtain rfl : doomed = false := hd
    refine h.addBo vbo asMob cpuBlit mem ?_
    by_contra hne
    obtain ⟨mem', doomed', hm⟩ := mem_of_uses hne
    exact ha vbo asMob cpuBlit mem false (by simp) mem' doomed' (by simp [hm])
  | addResource res mem doomed =>
    obtain rfl : doomed = false := hd
    refine h.addResource res mem ?_
    by_contra hne
    obtain ⟨asMob, cpuBlit, mem', doomed', hm⟩ := mem_of_firstBo hne
    exact ha res asMob cpuBlit mem' doomed' (by simp [hm]) mem false (by simp)
  | splice =>
    exact ⟨h.splice, rfl, (fun he => by cases he), rfl⟩

theorem After.declare (hs : ∀ k, drmHtFindItem s₀.table k = none) (hasHt : Bool) :
    After s₀ [] (declareValContext hasHt true s₀) where
  mergeDups := rfl
  bos _ := rfl
  resources _ := List.Perm.refl _
  used a h := by simp [declareValContext, ValContext.resNodes] at h
  boRefs _ := by simp [declareValContext]
  resRefs _ := by simp [declareValContext, ValContext.resNodes]
  table _ k a := by simp [declareValContext, ValContext.resNodes, hs]

theorem runOps_append (os : List Op) (o : Op) (s : ValContext hash) :
    runOps A D (os ++ [o]) s = (runOp A D o (runOps A D os s)).2 := by
  simp [runOps, List.foldl_append]

theorem After.runOps (hs : ∀ k, drmHtFindItem s₀.table k = none) (os : List Op)
    (hd : ∀ o ∈ os, o.doomed = false) (ha : Apart os) :
    (∀ hasHt, After s₀ os (runOps A D os (declareValContext hasHt true s₀))) ∧
      (runOps A D os (declareValContext true true s₀)).plain =
        (runOps A D os (declareValContext false true s₀)).plain := by
  induction os using List.reverseRecOn with
  | nil => exact ⟨fun hasHt => After.declare hs hasHt, rfl⟩
  | append_singleton os o ih =>
    obtain ⟨hafter, hplain⟩ := ih (fun o ho => hd o (by simp [ho])) ha.of_append
    have hcall := fun hasHt => (hafter hasHt).runOp (A := A) (D := D) (hd o (by simp)) ha
    simp only [runOps_append]
    refine ⟨fun hasHt => (hcall hasHt).after, ?_⟩
    have h1 := congrArg Prod.snd (hcall true).plain
    have h2 := congrArg Prod.snd (hcall false).plain
    dsimp only at h1 h2
    rw [← h1, ← h2, hplain]

@[simp] theorem unreferenceAll_apply (objects : List ℕ) (refs : ℕ → ℤ) (o : ℕ) :
    unreferenceAll objects refs o = refs o - objects.count o := by
  induction objects generalizing refs with
  | nil => simp [unreferenceAll]
  | cons a l ih =>
    change unreferenceAll l (Function.update refs a (refs a - 1)) o = _
    rw [ih, List.count_cons]
    by_cases h : o = a
    · subst h
      simp
      ring
    · simp [h, Ne.symm h]

theorem After.exact (h : After s₀ os s) : Exact os s where
  bos := h.bos
  resources res := by
    have hp := h.resources res
    split at hp
    · rename_i h0
      rw [if_pos h0]
      exact List.perm_nil.1 hp
    · rename_i h0
      rw [if_neg h0]
      exact List.perm_singleton.1 hp

theorem After.unref (h : After s₀ os s) :
    (vmwValidationUnrefLists s).boRefs = s₀.boRefs ∧
      (vmwValidationUnrefLists s).resRefs = s₀.resRefs := by
  constructor
  · funext v
    have hv := h.boRefs v
    simp only [vmwValidationUnrefLists, unreferenceAll_apply, ValContext.splice]
    omega
  · funext r
    have hr := h.resRefs r
    simp only [vmwValidationUnrefLists, unreferenceAll_apply, ValContext.splice]
    simp only [ValContext.resNodes] at hr
    omega

/-- For every sequence of calls in which no object is doomed: the lists with a hash table are
    those without one, and both are told by the calls. -/
theorem lists_agree (os : List Op) (hs : ∀ k, drmHtFindItem s₀.table k = none)
    (hd : ∀ o ∈ os, o.doomed = false) (ha : Apart os) :
    let run := fun hasHt os => runOps A D os (declareValContext hasHt true s₀)
    ((run true os).boList = (run false os).boList ∧
      (run true os).boNode = (run false os).boNode ∧
      (run true os).resourceList = (run false os).resourceList ∧
      (run true os).resourceCtxList = (run false os).resourceCtxList ∧
      (run true os).resNode = (run false os).resNode) ∧
    ∀ hasHt, Exact os (run hasHt os) ∧
      (∀ os₁ o os₂, os = os₁ ++ o :: os₂ →
        (runOp A D o (run hasHt os₁)).1.map (Option.map Prod.fst) = answer os₁ o ∧
        ((runOp A D o (run hasHt os₁)).1 = .error .einval →
          (runOp A D o (run hasHt os₁)).2 = run hasHt os₁)) ∧
      (vmwValidationUnrefLists (run hasHt os)).boRefs = s₀.boRefs ∧
      (vmwValidationUnrefLists (run hasHt os)).resRefs = s₀.resRefs := by
  intro run
  obtain ⟨hafter, hplain⟩ := After.runOps (A := A) (D := D) hs os hd ha
  refine ⟨⟨congrArg (·.boList) hplain, congrArg (·.boNode) hplain, congrArg (·.resourceList) hplain,
    congrArg (·.resourceCtxList) hplain, congrArg (·.resNode) hplain⟩, fun hasHt =>
    ⟨(hafter hasHt).exact, fun os₁ o os₂ hos => ?_, (hafter hasHt).unref⟩⟩
  subst hos
  have hpre : os₁ ++ o :: os₂ = os₁ ++ [o] ++ os₂ := by simp
  have hd₁ : ∀ o' ∈ os₁, o'.doomed = false := fun o' ho => hd o' (by simp [ho])
  have ha₁ : Apart (os₁ ++ [o]) := Apart.of_append (hpre ▸ ha)
  have h := ((After.runOps (A := A) (D := D) hs os₁ hd₁ ha₁.of_append).1 hasHt).runOp
    (A := A) (D := D) (hd o (by simp)) ha₁
  exact ⟨h.answer, h.unchanged⟩

/-- A buffer object and a resource are added, each twice; the flags of the buffer object
    differ the second time. -/
def sampleOps : List Op :=
  [.addBo 4096 true false true false, .addResource 8192 true false,
    .addBo 4096 false false true false, .addResource 8192 true false]

theorem sample_apart : Apart sampleOps := by
  intro vbo asMob cpuBlit mem doomed hbo mem' doomed' hres
  simp only [sampleOps, List.mem_cons, Op.addBo.injEq, Op.addResource.injEq, reduceCtorEq,
    List.not_mem_nil, or_false, false_or] at hbo hres
  omega

theorem sample_agree :
    Exact sampleOps (runOps .next ⟨true, fun _ => .surface⟩ sampleOps
      (declareValContext true true (unused (· % 256)))) ∧
    (runOp .next ⟨true, fun _ => .surface⟩ (.addBo 4096 false false true false)
      (runOps .next ⟨true, fun _ => .surface⟩ (sampleOps.take 2)
        (declareValContext true true (unused (· % 256))))).1.map (Option.map Prod.fst) =
      .error .einval := by
  have hs : ∀ k, drmHtFindItem (unused (· % 256)).table k = none := fun _ => rfl
  have h := (lists_agree (A := .next) (D := ⟨true, fun _ => .surface⟩) sampleOps hs (by decide)
    sample_apart).2 true
  exact ⟨h.1, (h.2.1 (sampleOps.take 2) (.addBo 4096 false false true false)
    [.addResource 8192 true false] rfl).1⟩

end Vmwgfx.Validation
