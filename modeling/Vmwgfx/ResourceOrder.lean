import Vmwgfx.ExecbufListing
import Vmwgfx.ReservationOrder

set_option autoImplicit false

/-!
# The order of the resources of a submission

Contexts are put at the head of a list of their own, cotables behind them, and all other
resources on the list that this one is spliced in front of. A view is added after its surface.
-/
namespace Vmwgfx.ResourceOrder
open HashTable FailingState ExecbufState ExecbufListing
open Validation hiding vmwValidationAddBo vmwValidationFindBoDup BoNode

section Ranks
variable {hash : ℕ → ℕ} {A : Allocator} {D : Device} {s t : ValContext hash} {res x : ℕ}

def rank (resType : ℕ → ResType) (res : ℕ) : ℕ :=
  match resType res with
  | .context | .dxContext => 0
  | .cotable => 1
  | _ => 2

def resOf (s : ValContext hash) (l : List ℕ) : List ℕ := l.map fun x => (s.resNode x).res

/-- The resources in the order in which the splice leaves them. -/
def splicedOrder (s : ValContext hash) : List ℕ := resOf s.splice s.splice.resourceList

structure Ranked (resType : ℕ → ResType) (s : ValContext hash) : Prop where
  used : ∀ x ∈ s.resNodes, x ∈ s.used
  sorted : (resOf s s.resourceCtxList).Pairwise fun a b => rank resType a ≤ rank resType b
  ctx : ∀ r ∈ resOf s s.resourceCtxList, rank resType r ≤ 1
  list : ∀ r ∈ resOf s s.resourceList, rank resType r = 2

theorem Ranked.same (h : Ranked D.resType s) (hctx : t.resourceCtxList = s.resourceCtxList)
    (hlist : t.resourceList = s.resourceList) (hused : s.used ⊆ t.used)
    (hnode : ∀ x ∈ s.used, (t.resNode x).res = (s.resNode x).res) : Ranked D.resType t := by
  have hnodes : t.resNodes = s.resNodes := by
    unfold ValContext.resNodes
    rw [hctx, hlist]
  have hres : ∀ l, (∀ x ∈ l, x ∈ s.resNodes) → resOf t l = resOf s l := fun l hl =>
    List.map_congr_left fun x hx => hnode x (h.used x (hl x hx))
  have hresCtx := hres s.resourceCtxList fun x hx => List.mem_append_left _ hx
  have hresList := hres s.resourceList fun x hx => List.mem_append_right _ hx
  constructor
  · rw [hnodes]
    exact fun x hx => hused (h.used x hx)
  · rw [hctx, hresCtx]
    exact h.sorted
  · rw [hctx, hresCtx]
    exact h.ctx
  · rw [hlist, hresList]
    exact h.list

theorem Ranked.listRes (h : Ranked D.resType s) (hmob : D.hasMob = true) (hx : x ∉ s.resNodes)
    (hused : x ∈ s.used) : Ranked D.resType (s.listRes D x res) := by
  obtain ⟨hperm, heq⟩ := listRes_spec D s x res
  have hnode : (s.listRes D x res).resNode = Function.update s.resNode x ⟨res, true⟩ := by
    rw [heq]
  have hold : ∀ l : List ℕ, (∀ y ∈ l, y ∈ s.resNodes) →
      resOf (s.listRes D x res) l = resOf s l := by
    intro l hl
    refine List.map_congr_left fun y hy => ?_
    rw [hnode, Function.update_of_ne]
    exact fun hyx => hx (hyx ▸ hl y hy)
  have hctx := hold s.resourceCtxList fun y hy => List.mem_append_left _ hy
  have hlist := hold s.resourceList fun y hy => List.mem_append_right _ hy
  have hself : resOf (s.listRes D x res) [x] = [res] := by
    unfold resOf
    rw [hnode, List.map_singleton, Function.update_self]
  have happend : ∀ l l', resOf (s.listRes D x res) (l ++ l') =
      resOf (s.listRes D x res) l ++ resOf (s.listRes D x res) l' := fun l l' => List.map_append
  have hin : ∀ y ∈ (s.listRes D x res).resNodes, y ∈ (s.listRes D x res).used := by
    intro y hy
    rw [heq]
    rcases List.mem_cons.1 (hperm.mem_iff.1 hy) with rfl | hy
    · exact hused
    · exact h.used y hy
  have hlast : rank D.resType res = 2 →
      (s.listRes D x res).resourceCtxList = s.resourceCtxList →
      (s.listRes D x res).resourceList = s.resourceList ++ [x] →
      Ranked D.resType (s.listRes D x res) := by
    intro hrank hc hl
    refine ⟨hin, ?_, ?_, ?_⟩
    · rw [hc, hctx]
      exact h.sorted
    · rw [hc, hctx]
      exact h.ctx
    · rw [hl, happend, hlist, hself]
      intro r hr
      rcases List.mem_append.1 hr with hr | hr
      · exact h.list r hr
      · rw [List.mem_singleton.1 hr]
        exact hrank
  cases htype : D.resType res
  case context | dxContext =>
    have hrank : rank D.resType res = 0 := by
      unfold rank
      rw [htype]
    have hc : (s.listRes D x res).resourceCtxList = [x] ++ s.resourceCtxList := by
      simp [ValContext.listRes, hmob, htype]
    have hl : (s.listRes D x res).resourceList = s.resourceList := by
      simp [ValContext.listRes, hmob, htype]
    refine ⟨hin, ?_, ?_, ?_⟩
    · rw [hc, happend, hself, hctx]
      exact List.pairwise_cons.2 ⟨fun r _ => hrank ▸ Nat.zero_le _, h.sorted⟩
    · rw [hc, happend, hself, hctx]
      intro r hr
      rcases List.mem_cons.1 hr with rfl | hr
      · omega
      · exact h.ctx r hr
    · rw [hl, hlist]
      exact h.list
  case cotable =>
    have hrank : rank D.resType res = 1 := by
      unfold rank
      rw [htype]
    have hc : (s.listRes D x res).resourceCtxList = s.resourceCtxList ++ [x] := by
      simp [ValContext.listRes, hmob, htype]
    have hl : (s.listRes D x res).resourceList = s.resourceList := by
      simp [ValContext.listRes, hmob, htype]
    refine ⟨hin, ?_, ?_, ?_⟩
    · rw [hc, happend, hself, hctx]
      refine List.pairwise_append.2 ⟨h.sorted, List.pairwise_singleton _ _, fun r hr r' hr' => ?_⟩
      rw [List.mem_singleton.1 hr', hrank]
      exact h.ctx r hr
    · rw [hc, happend, hself, hctx]
      intro r hr
      rcases List.mem_append.1 hr with hr | hr
      · exact h.ctx r hr
      · rw [List.mem_singleton.1 hr]
        omega
    · rw [hl, hlist]
      exact h.list
  all_goals
    apply hlast
    · unfold rank
      rw [htype]
    · simp [ValContext.listRes, hmob, htype]
    · simp [ValContext.listRes, hmob, htype]

theorem Ranked.memAlloc (h : Ranked D.resType s) (A : Allocator) :
    Ranked D.resType (s.memAlloc A) := by
  refine h.same rfl rfl (List.subset_cons_self _ _) fun x hx => ?_
  change (Function.update s.resNode (A.alloc s.used) _ x).res = _
  rw [Function.update_of_ne]
  rintro rfl
  exact A.fresh _ hx

theorem Ranked.addNode {key : ℕ} {mem doomed : Bool}
    {list : ℕ → ValContext hash → ValContext hash} (h : Ranked D.resType s)
    (hlist : ∀ t x, Ranked D.resType t → x ∉ t.resNodes → x ∈ t.used →
      Ranked D.resType (list x t)) :
    Ranked D.resType (addNode A key mem doomed list s).2 := by
  cases mem with
  | false => exact h
  | true =>
    have halloc := h.memAlloc A
    have hnot : A.alloc s.used ∉ s.resNodes := fun hx => A.fresh _ (h.used _ hx)
    simp only [Validation.addNode, if_true]
    cases hins : (s.memAlloc A).insertNode (A.alloc s.used) key with
    | none => exact halloc
    | some t =>
      have ht : Ranked D.resType t ∧ A.alloc s.used ∉ t.resNodes ∧ A.alloc s.used ∈ t.used := by
        unfold ValContext.insertNode at hins
        split_ifs at hins
        · obtain ⟨ht, -, rfl⟩ := Option.map_eq_some_iff.1 hins
          exact ⟨halloc.same rfl rfl (List.Subset.refl _) fun _ _ => rfl, hnot,
            List.mem_cons_self⟩
        · cases hins
          exact ⟨halloc, hnot, List.mem_cons_self⟩
      obtain ⟨hranked, hnew, hused⟩ := ht
      cases doomed with
      | true => exact hranked
      | false => exact hlist t _ hranked hnew hused

theorem Ranked.usedAgain (h : Ranked D.resType s) (x : ℕ) : Ranked D.resType (s.usedAgain x) :=
  h.same rfl rfl (List.Subset.refl _) fun y _ => usedAgain_res x y

theorem Ranked.addResource (h : Ranked D.resType s) (hmob : D.hasMob = true) (res : ℕ)
    (mem doomed : Bool) : Ranked D.resType (vmwValidationAddResource A D res mem doomed s).2 := by
  unfold vmwValidationAddResource
  split
  · exact h.usedAgain _
  · exact h.addNode fun t x ht hx hused => ht.listRes hmob hx hused

theorem Ranked.addBo (h : Ranked D.resType s) (vbo : ℕ) (asMob cpuBlit mem doomed : Bool) :
    Ranked D.resType (Validation.vmwValidationAddBo A vbo asMob cpuBlit mem doomed s).2 := by
  unfold Validation.vmwValidationAddBo
  split
  · split_ifs
    · exact h
    · exact h
  · exact h.addNode fun t x ht _ _ => ht.same rfl rfl (List.Subset.refl _) fun _ _ => rfl

theorem Ranked.splice {T : ℕ → ResType} (h : Ranked T s) :
    (splicedOrder s).Pairwise fun a b => rank T a ≤ rank T b := by
  change (resOf s (s.resourceCtxList ++ s.resourceList)).Pairwise _
  unfold resOf
  rw [List.map_append]
  refine List.pairwise_append.2 ⟨h.sorted, ?_, fun r hr r' hr' => ?_⟩
  · refine List.pairwise_of_forall_mem_list fun r hr r' hr' => ?_
    rw [h.list r hr, h.list r' hr']
  · rw [h.list r' hr']
    exact (h.ctx r hr).trans (by omega)

theorem ranked_declare (resType : ℕ → ResType) (hasHt mergeDups : Bool) (s : ValContext hash) :
    Ranked resType (declareValContext hasHt mergeDups s) where
  used _ hx := by cases hx
  sorted := List.Pairwise.nil
  ctx _ hr := by cases hr
  list _ hr := by cases hr

theorem ranked_runOps (hmob : D.hasMob = true) (os : List Validation.Op)
    (hos : .splice ∉ os) (h : Ranked D.resType s) : Ranked D.resType (runOps A D os s) := by
  induction os generalizing s with
  | nil => exact h
  | cons o os ih =>
    have hrest : Validation.Op.splice ∉ os := fun ho => hos (List.mem_cons_of_mem _ ho)
    apply ih hrest
    cases o with
    | addBo vbo asMob cpuBlit mem doomed => exact h.addBo vbo asMob cpuBlit mem doomed
    | addResource res mem doomed => exact h.addResource hmob res mem doomed
    | splice => exact absurd List.mem_cons_self hos

end Ranks

section Tables
variable {hash : ℕ → ℕ} {A : Allocator} {D : Device} {s t : ValContext hash} {res x : ℕ}

/-- The table has a node for the resource, on a list or not. -/
def Known (s : ValContext hash) (r : ℕ) : Prop := drmHtFindItem s.table r ≠ none

/-- A context that merges duplicates by its table, in which it finds what is on its lists. -/
structure Merging (s : ValContext hash) : Prop where
  mergeDups : s.mergeDups = true
  hasHt : s.hasHt = true
  used : ∀ x ∈ s.resNodes, x ∈ s.used
  listed : ∀ r ∈ order s, Known s r

theorem Merging.findResDup (h : Merging s) (r : ℕ) :
    vmwValidationFindResDup s r = drmHtFindItem s.table r := by
  simp [vmwValidationFindResDup, h.mergeDups, h.hasHt]

/-- What an addition can do: a resource that is known is not listed again, and one that is
    not known is listed, is known without being listed, or stays as it was. -/
structure AddEffect (D : Device) (res : ℕ) (doomed : Bool) (s t : ValContext hash) : Prop where
  merging : Merging t
  known : ∀ r, Known s r → Known t r
  origin : ∀ r, Known t r → Known s r ∨ r = res ∧ (r ∈ order t ∨ doomed = true)
  order : order t = order s ∨ ¬ Known s res ∧ ∃ a b, ExecbufListing.order s = a ++ b ∧
    ExecbufListing.order t = a ++ res :: b ∧ (D.resType res = .view → b = [])

theorem addEffect_refl (h : Merging s) (doomed : Bool) : AddEffect D res doomed s s where
  merging := h
  known _ hr := hr
  origin _ hr := .inl hr
  order := .inl rfl

theorem known_insert {ht : OpenHash hash ℕ} (h : drmHtInsertItem s.table ⟨x, res⟩ = some ht)
    (r : ℕ) : drmHtFindItem ht r ≠ none ↔ Known s r ∨ r = res := by
  rw [drmHtFindItem_insert h]
  unfold Known
  by_cases hr : r = res
  · simp [hr]
  · simp [hr]

theorem Merging.withNode (h : Merging s) {ht : OpenHash hash ℕ}
    (hins : drmHtInsertItem s.table ⟨A.alloc s.used, res⟩ = some ht) :
    Merging (s.withNode A ht) where
  mergeDups := h.mergeDups
  hasHt := h.hasHt
  used x hx := List.mem_cons_of_mem _ (h.used x hx)
  listed r hr := by
    rw [order_withNode h.used] at hr
    exact (known_insert hins r).2 (.inl (h.listed r hr))

theorem Merging.listRes (h : Merging s) (hx : x ∉ s.resNodes) (hused : x ∈ s.used)
    (hres : Known s res) : Merging (s.listRes D x res) := by
  obtain ⟨hperm, heq⟩ := listRes_spec D s x res
  obtain ⟨a, b, hold, hnew, -⟩ := order_listRes D res hx
  have hknown : ∀ r, Known s r → Known (s.listRes D x res) r := by
    rw [heq]
    exact fun r hr => hr
  refine ⟨by rw [heq]; exact h.mergeDups, by rw [heq]; exact h.hasHt, fun y hy => ?_,
    fun r hr => hknown r ?_⟩
  · rw [heq]
    rcases List.mem_cons.1 (hperm.mem_iff.1 hy) with rfl | hy
    · exact hused
    · exact h.used y hy
  · rw [hnew] at hr
    have hin : r = res ∨ r ∈ order s := by
      rw [hold]
      simp only [List.mem_append, List.mem_cons] at hr ⊢
      tauto
    rcases hin with rfl | hin
    · exact hres
    · exact h.listed r hin

theorem addResource_effect (A : Allocator) (D : Device) (h : Merging s) (res : ℕ)
    (mem doomed : Bool) :
    AddEffect D res doomed s (vmwValidationAddResource A D res mem doomed s).2 ∧
      ∀ r, (vmwValidationAddResource A D res mem doomed s).1 = .ok r →
        Known (vmwValidationAddResource A D res mem doomed s).2 res := by
  unfold vmwValidationAddResource
  rw [h.findResDup]
  cases hf : drmHtFindItem s.table res with
  | some node =>
    have hknown : Known s res := by
      unfold Known
      rw [hf]
      exact Option.some_ne_none node
    refine ⟨⟨⟨h.mergeDups, h.hasHt, h.used, ?_⟩, fun _ hr => hr, fun _ hr => .inl hr,
      .inl order_usedAgain⟩, fun _ _ => hknown⟩
    rw [order_usedAgain]
    exact h.listed
  | none =>
    have hnot : ¬Known s res := fun hknown => hknown hf
    cases mem with
    | false => exact ⟨addEffect_refl h doomed, fun r hr => by cases hr⟩
    | true =>
      simp only [addNode, if_true]
      cases hins : (s.memAlloc A).insertNode (A.alloc s.used) res with
      | none => exact absurd hf (insertNode_none (s := s.memAlloc A) h.hasHt hins)
      | some t =>
        obtain ⟨ht, hins', rfl⟩ : ∃ ht, drmHtInsertItem s.table ⟨A.alloc s.used, res⟩ = some ht ∧
            s.withNode A ht = t := by
          obtain ⟨hins', heq⟩ := insertNode_some (s := s.memAlloc A) h.hasHt hins
          exact ⟨t.table, hins', heq.symm⟩
        have hmerging := h.withNode hins'
        have hknown := known_insert hins'
        have hself : Known (s.withNode A ht) res := (hknown res).2 (.inr rfl)
        cases doomed with
        | true =>
          refine ⟨⟨hmerging, fun r hr => (hknown r).2 (.inl hr), fun r hr => ?_,
            .inl (order_withNode h.used A ht)⟩, fun _ _ => hself⟩
          exact ((hknown r).1 hr).imp id fun heq => ⟨heq, .inr rfl⟩
        | false =>
          have hx : A.alloc s.used ∉ (s.withNode A ht).resNodes := fun hx =>
            A.fresh _ (h.used _ hx)
          obtain ⟨a, b, hold, hnew, hlast⟩ := order_listRes D res hx
          rw [order_withNode h.used] at hold
          have htable : ∀ r, Known ((s.withNode A ht).listRes D (A.alloc s.used) res) r ↔
              Known (s.withNode A ht) r := by
            intro r
            rw [(listRes_spec D (s.withNode A ht) (A.alloc s.used) res).2]
            exact Iff.rfl
          have hlisted : res ∈ order ((s.withNode A ht).listRes D (A.alloc s.used) res) := by
            rw [hnew]
            exact List.mem_append_right _ List.mem_cons_self
          refine ⟨⟨hmerging.listRes hx List.mem_cons_self hself,
            fun r hr => (htable r).2 ((hknown r).2 (.inl hr)), fun r hr => ?_,
            .inr ⟨hnot, a, b, hold, hnew, hlast⟩⟩, fun _ _ => (htable res).2 hself⟩
          refine ((hknown r).1 ((htable r).1 hr)).imp id fun heq => ⟨heq, .inl ?_⟩
          rw [heq]
          exact hlisted

end Tables

section Additions
variable {hash : ℕ → ℕ} {σ : Type} {A : Allocator} {S : Supply σ} {K : Kernel σ}
  {s t : SwContext (Lists hash σ)} {res : ℕ} {table : OpenHash hash ℕ}

/-- What holds between the additions of a submission that began with the table `table`: what
    is known is on the lists, was in the table before, or was found doomed; the surface of a
    listed view is known, and stands before the view if it is listed. -/
structure Ordered (K : Kernel σ) (S : Supply σ) (table : OpenHash hash ℕ)
    (s : SwContext (Lists hash σ)) : Prop where
  merging : Merging s.rest.val
  ranked : K.hasMob = true → Ranked K.resType s.rest.val
  cached : ∀ t r, (s.resCache t).holds r = true → Known s.rest.val r
  origin : ∀ r, Known s.rest.val r → r ∈ order s.rest.val ∨ drmHtFindItem table r ≠ none ∨
    ∃ w, S.doomed r w = true
  nodup : (order s.rest.val).Nodup
  surface : ∀ v ∈ order s.rest.val, K.resType v = .view → Known s.rest.val (K.viewSrf v)
  before : ∀ v ∈ order s.rest.val, K.resType v = .view → K.viewSrf v ∈ order s.rest.val →
    [K.viewSrf v, v].Sublist (order s.rest.val)

/-- However a computation ends, it keeps the order, and what is known stays known. -/
def Extends (K : Kernel σ) (S : Supply σ) (table : OpenHash hash ℕ)
    (s t : SwContext (Lists hash σ)) : Prop :=
  Ordered K S table s → Ordered K S table t ∧ ∀ r, Known s.rest.val r → Known t.rest.val r

instance : Std.Refl (Extends K S table) := ⟨fun _ hs => ⟨hs, fun _ hr => hr⟩⟩

instance : IsTrans (SwContext (Lists hash σ)) (Extends K S table) :=
  ⟨fun _ _ _ h h' hs =>
    ⟨(h' (h hs).1).1, fun r hr => (h' (h hs).1).2 r ((h hs).2 r hr)⟩⟩

theorem extends_idle (hval : t.rest.val = s.rest.val) (hcache : t.resCache = s.resCache) :
    Extends K S table s t := by
  rintro ⟨h1, h2, h3, h4, h5, h6, h7⟩
  refine ⟨⟨?_, ?_, ?_, ?_, ?_, ?_, ?_⟩, ?_⟩
  all_goals
    rw [hval]
  · exact h1
  · exact h2
  · rw [hcache]
    exact h3
  · exact h4
  · exact h5
  · exact h6
  · exact h7
  · exact fun _ hr => hr

def anyStop (_ : Stop) : Prop := True

theorem Ordered.added {val : ValContext hash} (hs : Ordered K S table s)
    (h : AddEffect ⟨K.hasMob, K.resType⟩ res (S.doomed res s.rest.rest) s.rest.val val)
    (hranked : K.hasMob = true → Ranked K.resType val)
    (hview : K.resType res = .view → Known s.rest.val (K.viewSrf res)) :
    Ordered K S table { s with rest := { s.rest with val := val } } := by
  have hsub : (order s.rest.val).Sublist (order val) := by
    rcases h.order with heq | ⟨-, a, b, hold, hnew, -⟩
    · rw [heq]
    · rw [hold, hnew]
      exact (List.sublist_cons_self res b).append_left a
  have hmem : ∀ r ∈ order val, r ∈ order s.rest.val ∨ r = res ∧ ¬Known s.rest.val res := by
    rcases h.order with heq | ⟨hnot, a, b, hold, hnew, -⟩
    · rw [heq]
      exact fun r hr => .inl hr
    · rw [hold, hnew]
      intro r hr
      rcases List.mem_append.1 hr with hr | hr
      · exact .inl (List.mem_append_left _ hr)
      · rcases List.mem_cons.1 hr with rfl | hr
        · exact .inr ⟨rfl, hnot⟩
        · exact .inl (List.mem_append_right _ hr)
  have hlast : K.resType res = .view → ¬Known s.rest.val res → res ∈ order val →
      order val = order s.rest.val ++ [res] := by
    intro htype hnot hres
    rcases h.order with heq | ⟨-, a, b, hold, hnew, hend⟩
    · rw [heq] at hres
      exact absurd (hs.merging.listed res hres) hnot
    · obtain rfl := hend htype
      rw [hold, hnew, List.append_nil]
  -- a surface that is known but not listed is not listed later
  have hkept : ∀ v, Known s.rest.val v → v ∈ order val → v ∈ order s.rest.val := by
    intro v hv hin
    rcases hmem v hin with hin | ⟨rfl, hnot⟩
    · exact hin
    · exact absurd hv hnot
  refine ⟨h.merging, hranked, fun u r hr => h.known r (hs.cached u r hr), fun r hr => ?_, ?_,
    fun v hv htype => ?_, fun v hv htype hsrf => ?_⟩
  · rcases h.origin r hr with hr | ⟨rfl, hr | hr⟩
    · exact (hs.origin r hr).imp_left fun hin => hsub.subset hin
    · exact .inl hr
    · exact .inr (.inr ⟨_, hr⟩)
  · rcases h.order with heq | ⟨hnot, a, b, hold, hnew, -⟩
    · change (order val).Nodup
      rw [heq]
      exact hs.nodup
    · change (order val).Nodup
      rw [hnew, List.nodup_middle, ← hold]
      exact List.nodup_cons.2 ⟨fun hin => hnot (hs.merging.listed res hin), hs.nodup⟩
  · rcases hmem v hv with hold | ⟨rfl, -⟩
    · exact h.known _ (hs.surface v hold htype)
    · exact h.known _ (hview htype)
  · rcases hmem v hv with hold | ⟨rfl, hnot⟩
    · have hin := hkept _ (hs.surface v hold htype) hsrf
      exact (hs.before v hold htype hin).trans hsub
    · have hin := hkept _ (hview htype) hsrf
      change [K.viewSrf v, v].Sublist (order val)
      rw [hlast htype hnot hv]
      exact (List.singleton_sublist.2 hin).append (List.Sublist.refl [v])

theorem addResource_extends (hs : Ordered K S table s)
    (hview : K.resType res = .view → Known s.rest.val (K.viewSrf res)) :
    ∃ r val, call (addResource A ⟨K.hasMob, K.resType⟩ S res) s =
        (r, { s with rest := { s.rest with val := val } }) ∧
      Ordered K S table { s with rest := { s.rest with val := val } } ∧
      (∀ v, Known s.rest.val v → Known val v) ∧ ∀ n, r = .ok n → Known val res := by
  obtain ⟨heffect, hknown⟩ := addResource_effect A ⟨K.hasMob, K.resType⟩ hs.merging res
    (S.mem res s.rest.rest) (S.doomed res s.rest.rest)
  have hranked : K.hasMob = true → Ranked K.resType (vmwValidationAddResource A
      ⟨K.hasMob, K.resType⟩ res (S.mem res s.rest.rest) (S.doomed res s.rest.rest) s.rest.val).2 :=
    fun hmob => (hs.ranked hmob).addResource (D := ⟨K.hasMob, K.resType⟩) hmob res _ _
  have hordered := hs.added heffect hranked hview
  unfold call addResource
  rcases hrun : vmwValidationAddResource A ⟨K.hasMob, K.resType⟩ res (S.mem res s.rest.rest)
    (S.doomed res s.rest.rest) s.rest.val with ⟨e | x, val⟩
  · rw [hrun] at heffect hordered
    exact ⟨.error (.errno e), val, rfl, hordered, heffect.known, fun n hn => by cases hn⟩
  · rw [hrun] at heffect hordered hknown
    exact ⟨.ok (x.2, x.1), val, rfl, hordered, heffect.known, fun _ _ => hknown x rfl⟩

theorem Ordered.refreshed (hs : Ordered K S table s) (hres : Known s.rest.val res)
    (u : ResType) (node : ℕ) :
    Ordered K S table
      { s with resCache := Function.update s.resCache u ((s.resCache u).refreshed res node) } where
  merging := hs.merging
  ranked := hs.ranked
  cached t r hr := by
    by_cases ht : t = u
    · subst ht
      simp only [Function.update_self, CacheEntry.holds, CacheEntry.refreshed, Bool.true_and,
        decide_eq_true_eq, Option.some.injEq] at hr
      exact hr ▸ hres
    · simp only [Function.update_of_ne ht] at hr
      exact hs.cached t r hr
  origin := hs.origin
  nodup := hs.nodup
  surface := hs.surface
  before := hs.before

theorem noctx_extends (hs : Ordered K S table s)
    (hview : K.resType res = .view → Known s.rest.val (K.viewSrf res)) :
    KeepsAt (Extends K S table) anyStop (vmwExecbufResNoctxValAdd (listed hash A S K) res) s ∧
      ∀ t, vmwExecbufResNoctxValAdd (listed hash A S K) res s = (.ok (), t) →
        Known t.rest.val res := by
  cases hholds : (s.resCache (K.resType res)).holds res with
  | true =>
    have hrun := noctx_hit (A := A) (S := S) hholds
    refine ⟨keepsAt_of_ok () hrun (Std.Refl.refl s), fun t ht => ?_⟩
    rw [hrun] at ht
    cases ht
    exact hs.cached _ _ hholds
  | false =>
    obtain ⟨r, val, hcall, hordered, hmono, hknown⟩ := addResource_extends (A := A) hs hview
    have hmiss := noctx_miss (A := A) (S := S) hholds
    cases r with
    | error e =>
      have hrun : vmwExecbufResNoctxValAdd (listed hash A S K) res s =
          (.error e, { s with rest := { s.rest with val := val } }) := by
        rw [hmiss]
        simp only [Bind.bind, Run.andThen, hcall]
      refine ⟨keepsAt_of_error e hrun (fun _ => ⟨hordered, hmono⟩) trivial, fun t ht => ?_⟩
      rw [hrun] at ht
      cases ht
    | ok n =>
      have hres := hknown n rfl
      have hrun : vmwExecbufResNoctxValAdd (listed hash A S K) res s =
          (.ok (), noded K s val res n.1) := by
        rw [hmiss]
        simp only [Bind.bind, Run.andThen, hcall]
        rfl
      refine ⟨keepsAt_of_ok () hrun fun _ => ⟨?_, hmono⟩, fun t ht => ?_⟩
      · exact hordered.refreshed hres (K.resType res) n.1
      · rw [hrun] at ht
        cases ht
        exact hres

theorem keeps_of_ordered {α : Type} {m : Check (Lists hash σ) α}
    (h : ∀ s, Ordered K S table s → KeepsAt (Extends K S table) anyStop m s) :
    Keeps (Extends K S table) anyStop m := fun s =>
  ⟨fun hs => (h s hs).state hs, fun _ _ => trivial⟩

theorem viewRes_extends {view : ℕ} (hsrf : K.resType (K.viewSrf view) = .surface) :
    Keeps (Extends K S table) anyStop (vmwViewResValAdd (listed hash A S K) view) := by
  refine keeps_of_ordered fun s hs => ?_
  have hnot : K.resType (K.viewSrf view) = .view →
      Known s.rest.val (K.viewSrf (K.viewSrf view)) := fun h => by
    rw [hsrf] at h
    cases h
  obtain ⟨hfirst, hknown⟩ := noctx_extends (A := A) hs hnot
  refine hfirst.bind fun _ t ht => ?_
  exact (noctx_extends (hfirst.ok ht hs).1 fun _ => hknown t ht).1

theorem other_extends (hres : K.resType res ≠ .view) :
    Keeps (Extends K S table) anyStop (vmwExecbufResNoctxValAdd (listed hash A S K) res) :=
  keeps_of_ordered fun _ hs => (noctx_extends hs fun h => absurd h hres).1

theorem bound_extends (hK : Typed K) (res : ℕ) :
    Keeps (Extends K S table) anyStop (boundValAdd (listed hash A S K) res) := by
  unfold boundValAdd
  by_cases hview : K.resType res = .view
  · rw [if_pos (show (listed hash A S K).resType res = .view from hview)]
    exact viewRes_extends (hK.viewSrf res hview)
  · rw [if_neg (show ¬(listed hash A S K).resType res = .view from hview)]
    exact other_extends hview

theorem cotable_extends (hK : Typed K) (ctx i : ℕ) :
    Keeps (Extends K S table) anyStop (cotableValAdd (listed hash A S K) ctx i) := by
  intro s
  apply KeepsAt.inspect_bind
  split
  · exact keeps_pure () s
  · rename_i res hres
    split_ifs at hres
    cases hres
    change KeepsAt _ _ (deref (K.cotables ctx i s.rest.rest) >>= _) s
    cases hcotable : K.cotables ctx i s.rest.rest with
    | none => exact keeps_stop trivial s
    | some r =>
      have htype : K.resType r ≠ .view := by
        rw [hK.cotables ctx i _ r hcotable]
        decide
      exact other_extends htype s

theorem retOf_keeps {α : Type} {m : Check (Lists hash σ) α}
    (h : Keeps (Extends K S table) anyStop m) : Keeps (Extends K S table) anyStop (retOf m) := by
  intro s
  refine ⟨?_, fun _ _ => trivial⟩
  rw [retOf_eq]
  exact (h s).state

theorem onRest_keeps {α : Type} (op : ExecbufState.Op σ α) :
    Keeps (Extends K S table) anyStop (call (onRest op : ExecbufState.Op (Lists hash σ) α)) := by
  intro s
  rcases hop : op s.rest.rest with ⟨e | a, r⟩
  · refine keepsAt_of_error (.errno e) (t := { s with rest := { s.rest with rest := r } }) ?_
      (extends_idle rfl rfl) trivial
    simp only [call, onRest, hop]
  · refine keepsAt_of_ok a (t := { s with rest := { s.rest with rest := r } }) ?_
      (extends_idle rfl rfl)
    simp only [call, onRest, hop]

theorem update_keeps {g : SwContext (Lists hash σ) → SwContext (Lists hash σ)}
    (hval : ∀ s, (g s).rest.val = s.rest.val) (hcache : ∀ s, (g s).resCache = s.resCache) :
    Keeps (Extends K S table) anyStop (update g : Check (Lists hash σ) Unit) :=
  keeps_update fun s => extends_idle (hval s) (hcache s)

theorem addBo_extends (bo : ℕ) (asMob cpuBlit : Bool) :
    Keeps (Extends K S table) anyStop
      (vmwValidationAddBo (listed hash A S K) bo asMob cpuBlit) := by
  refine (keeps_inspect _).bind fun dup => ?_
  cases dup with
  | some node => exact keeps_require _ trivial
  | none => exact (onRest_keeps _).bind fun _ => update_keeps (fun _ => rfl) fun _ => rfl

theorem contextRes_extends (hK : Typed K) (ctx : ℕ) :
    Keeps (Extends K S table) anyStop (vmwResourceContextResAdd (listed hash A S K) ctx) := by
  unfold vmwResourceContextResAdd
  refine ((Keeps.repeatFrom (cotable_extends hK ctx) _ _).runIf _).bind fun _ => ?_
  refine (keeps_inspect _).bind fun bindingList => ?_
  refine (retOf_keeps (Keeps.forEach (bound_extends hK) bindingList)).bind fun ret => ?_
  refine (keeps_inspect _).bind fun mob => ?_
  cases mob with
  | some bo => exact addBo_extends bo true false
  | none =>
    cases ret with
    | ok a => exact keeps_pure a
    | error e => exact keeps_stop trivial

theorem firstSetup_extends (hK : Typed K) (res node : ℕ) :
    Keeps (Extends K S table) anyStop (vmwCmdCtxFirstSetup (listed hash A S K) res node) := by
  unfold vmwCmdCtxFirstSetup
  refine (contextRes_extends hK res).bind fun _ => ?_
  refine (keeps_inspect _).bind fun s => ?_
  refine Keeps.bind ?_ fun shared => Keeps.bind ?_ fun staged => ?_
  · cases s.stagedBindings with
    | some staged => exact keeps_pure staged
    | none =>
      refine (onRest_keeps _).bind fun staged => ?_
      refine Keeps.bind ?_ fun _ => keeps_pure staged
      exact update_keeps (fun _ => rfl) fun _ => rfl
  · unfold nodeStaged
    split_ifs
    · exact onRest_keeps _
    · refine Keeps.bind ?_ fun _ => keeps_pure shared
      exact update_keeps (fun _ => rfl) fun _ => rfl
  · exact update_keeps (fun _ => rfl) fun _ => rfl

/-- The addition of a resource that a command names; a context brings its cotables and what
    is bound to it. -/
theorem noref_extends (hK : Typed K) (hres : K.resType res ≠ .view) :
    Keeps (Extends K S table) anyStop (vmwExecbufResNorefValAdd (listed hash A S K) res) := by
  refine keeps_of_ordered fun s hs => ?_
  apply KeepsAt.inspect_bind
  split_ifs
  · exact keeps_pure () s
  · obtain ⟨r, val, hcall, hordered, hmono, hknown⟩ :=
      addResource_extends (A := A) hs fun h => absurd h hres
    have hadd : KeepsAt (Extends K S table) anyStop
        (call (addResource A ⟨K.hasMob, K.resType⟩ S res)) s := by
      refine ⟨?_, fun _ _ => trivial⟩
      rw [hcall]
      exact fun _ => ⟨hordered, hmono⟩
    refine KeepsAt.bind hadd fun node t ht => ?_
    have ht : t.rest.val = val ∧ Ordered K S table t ∧ Known val res := by
      have hrun := hcall.symm.trans ht
      simp only [Prod.mk.injEq] at hrun
      obtain ⟨hok, rfl⟩ := hrun
      exact ⟨rfl, hordered, hknown node hok⟩
    obtain ⟨rfl, htordered, hres⟩ := ht
    have hsetup : Keeps (Extends K S table) anyStop (runIf
        (vmwExecbufResSize (listed hash A S K) (K.resType res) ≠ 0 && node.2)
        (vmwCmdCtxFirstSetup (listed hash A S K) res node.1)) :=
      (firstSetup_extends hK res node.1).runIf _
    refine KeepsAt.bind (hsetup t) fun _ u hu => ?_
    obtain ⟨huordered, hkept⟩ := hsetup.ok hu htordered
    exact keepsAt_of_ok () rfl fun _ =>
      ⟨huordered.refreshed (hkept res hres) _ node.1, fun _ hv => hv⟩

/-- The functions through which resources come onto the lists of a submission. -/
inductive Addition where
  | noref (res : ℕ)
  | noctx (res : ℕ)
  | view (res : ℕ)
  | contextRes (ctx : ℕ)
  deriving DecidableEq, Repr

/-- Views come through `vmw_view_res_val_add` only. -/
def Addition.typed (K : Kernel σ) : Addition → Prop
  | .noref res | .noctx res => K.resType res ≠ .view
  | .view res => K.resType res = .view
  | .contextRes _ => True

def runAddition (A : Allocator) (S : Supply σ) (K : Kernel σ) :
    Addition → Check (Lists hash σ) Unit
  | .noref res => vmwExecbufResNorefValAdd (listed hash A S K) res
  | .noctx res => vmwExecbufResNoctxValAdd (listed hash A S K) res
  | .view res => vmwViewResValAdd (listed hash A S K) res
  | .contextRes ctx => vmwResourceContextResAdd (listed hash A S K) ctx

/-- The additions one after the other, however each of them ends. -/
def runAdditions (A : Allocator) (S : Supply σ) (K : Kernel σ) (adds : List Addition)
    (s : SwContext (Lists hash σ)) : SwContext (Lists hash σ) :=
  adds.foldl (fun s a => (runAddition A S K a s).2) s

theorem addition_extends (hK : Typed K) {a : Addition} (ha : a.typed K) :
    Keeps (Extends K S table) anyStop (runAddition A S K a : Check (Lists hash σ) Unit) := by
  cases a with
  | noref res => exact noref_extends hK ha
  | noctx res => exact other_extends ha
  | view res => exact viewRes_extends (hK.viewSrf res ha)
  | contextRes ctx => exact contextRes_extends hK ctx

theorem ordered_runAdditions (hK : Typed K) {adds : List Addition}
    (hadds : ∀ a ∈ adds, a.typed K) (hs : Ordered K S table s) :
    Ordered K S table (runAdditions A S K adds s) := by
  induction adds generalizing s with
  | nil => exact hs
  | cons a adds ih =>
    have hstep := (addition_extends (A := A) (S := S) hK (hadds a List.mem_cons_self) s).state hs
    exact ih (fun b hb => hadds b (List.mem_cons_of_mem _ hb)) hstep.1

theorem ordered_begun {s : SwContext σ} {v : ValContext hash}
    (hcache : ∀ t, (s.resCache t).valid = false) : Ordered K S v.table (begun s v) where
  merging := ⟨rfl, rfl, (fun _ hx => by cases hx), fun _ hr => by cases hr⟩
  ranked _ := ranked_declare K.resType true true v
  cached t r h := by
    change ((s.resCache t).valid && _) = true at h
    rw [hcache] at h
    cases h
  origin _ hr := .inr (.inl hr)
  nodup := List.nodup_nil
  surface _ hv := by cases hv
  before _ hv := by cases hv

/-- Contexts go before cotables and these before the others; a surface goes before its views. -/
def MustPrecede (K : Kernel σ) (x y : ℕ) : Prop :=
  rank K.resType x < rank K.resType y ∨ K.resType y = .view ∧ x = K.viewSrf y

theorem pair_of_ranks {l : List ℕ} {r : ℕ → ℕ} {x y : ℕ}
    (hl : l.Pairwise fun a b => r a ≤ r b) (hx : x ∈ l) (hy : y ∈ l) (h : r x < r y) :
    [x, y].Sublist l := by
  obtain ⟨a, b, rfl⟩ := List.append_of_mem hx
  rcases List.mem_append.1 hy with hya | hyb
  · have hle := (List.pairwise_append.1 hl).2.2 y hya x List.mem_cons_self
    omega
  · rcases List.mem_cons.1 hyb with rfl | hyb
    · omega
    · exact ((List.singleton_sublist.2 hyb).cons_cons x).trans (List.sublist_append_right a (x :: b))

theorem Ordered.precedes {x y : ℕ} (hs : Ordered K S table s) (hmob : K.hasMob = true)
    (hx : x ∈ splicedOrder s.rest.val) (hy : y ∈ splicedOrder s.rest.val)
    (h : MustPrecede K x y) : [x, y].Sublist (splicedOrder s.rest.val) := by
  rcases h with hrank | ⟨htype, rfl⟩
  · exact pair_of_ranks (hs.ranked hmob).splice hx hy hrank
  · exact hs.before y hy htype hx

/-- On a device with MOBs, whatever is added to a validation context and however the additions
    end, the splice leaves contexts, cotables and other resources in this order; in a submission
    the surface of a listed view is listed before it, unless it was in the table before or found
    doomed; and the loops that reserve and validate reach a resource after those that must
    precede it. -/
theorem resources_ordered {s : SwContext σ} {v : ValContext hash} {adds : List Addition}
    (hK : Typed K) (hmob : K.hasMob = true) (hcache : ∀ t, (s.resCache t).valid = false)
    (hadds : ∀ a ∈ adds, a.typed K) :
    let l := splicedOrder (runAdditions A S K adds (begun s v)).rest.val
    (∀ (D : Device) (s₀ : ValContext hash) hasHt mergeDups os, D.hasMob = true → .splice ∉ os →
      (splicedOrder (runOps A D os (declareValContext hasHt mergeDups s₀))).Pairwise
        fun a b => rank D.resType a ≤ rank D.resType b) ∧
    l.Nodup ∧ (l.Pairwise fun a b => rank K.resType a ≤ rank K.resType b) ∧
    (∀ w ∈ l, K.resType w = .view → drmHtFindItem v.table (K.viewSrf w) = none →
      (∀ u, S.doomed (K.viewSrf w) u = false) → K.viewSrf w ∈ l) ∧
    ∀ x ∈ l, ∀ y ∈ l, MustPrecede K x y → [x, y].Sublist l ∧
      ∀ nodes : List Reservations.ResNode, nodes.map (·.res) = l → ∀ o o' i dev,
        (y ∈ Reservations.reserveTrace o i nodes dev →
          [x, y].Sublist (Reservations.reserveTrace o i nodes dev)) ∧
        (y ∈ Reservations.validateTrace o' i nodes dev →
          [x, y].Sublist (Reservations.validateTrace o' i nodes dev)) := by
  intro l
  have hs : Ordered K S v.table (runAdditions A S K adds (begun s v)) :=
    ordered_runAdditions hK hadds (ordered_begun hcache)
  refine ⟨fun D s₀ hasHt mergeDups os hD hos => ?_, hs.nodup, (hs.ranked hmob).splice,
    fun w hw htype htable hlive => ?_, fun x hx y hy h => ?_⟩
  · exact (ranked_runOps hD os hos (ranked_declare D.resType hasHt mergeDups s₀)).splice
  · rcases hs.origin _ (hs.surface w hw htype) with hin | hin | ⟨u, hu⟩
    · exact hin
    · exact absurd htable hin
    · rw [hlive u] at hu
      cases hu
  · have hxy := hs.precedes hmob hx hy h
    refine ⟨hxy, fun nodes hnodes o o' i dev => ⟨fun hin => ?_, fun hin => ?_⟩⟩
    · exact Reservations.pair_of_prefix (Reservations.reserveTrace_prefix o)
        (hnodes ▸ hs.nodup) (hnodes ▸ hxy) hin
    · exact Reservations.pair_of_prefix (Reservations.validateTrace_prefix o')
        (hnodes ▸ hs.nodup) (hnodes ▸ hxy) hin

/-- A view is added and then its context, which has cotables. -/
def viewThenContext : List Addition := [.view 5, .noref 2]

theorem viewThenContext_typed : ∀ a ∈ viewThenContext, a.typed boundKernel := by
  intro a ha
  rcases List.mem_cons.1 ha with rfl | ha
  · exact (by decide : boundKernel.resType 5 = .view)
  · obtain rfl := List.mem_singleton.1 ha
    exact (by decide : boundKernel.resType 2 ≠ .view)

theorem viewThenContext_ordered :
    let l := splicedOrder (runAdditions .next (allBut 0) boundKernel viewThenContext
      (begun (ExecbufVerifier.sampleContext [] true) (unused (· % 256)))).rest.val
    [3, 5].Sublist l ∧ [2, 20].Sublist l := by
  intro l
  have hordered := (resources_ordered (A := .next) (S := allBut 0) (v := unused (· % 256))
    (s := ExecbufVerifier.sampleContext [] true) boundKernel_typed rfl (fun _ => rfl)
    viewThenContext_typed).2.2.2.2
  exact ⟨(hordered 3 (by decide +kernel) 5 (by decide +kernel) (.inr ⟨by decide, rfl⟩)).1,
    (hordered 2 (by decide +kernel) 20 (by decide +kernel) (.inl (by decide))).1⟩

end Additions

end Vmwgfx.ResourceOrder
