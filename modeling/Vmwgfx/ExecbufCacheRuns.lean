import Vmwgfx.ExecbufCacheMode
import Vmwgfx.ExecbufListing
import Vmwgfx.PairedRuns
import Vmwgfx.ValidationTable

set_option autoImplicit false

/-!
# What the resource cache changes

A batch is checked with the cache and without it. The cache entries, the nodes of resources
and their backup switches are the part of the state in which the two runs may differ; the
rest of the state is the same.
-/
namespace Vmwgfx.ExecbufCacheRuns
open Word32 HashTable FailingState PairedRuns ExecbufState ExecbufHandlers ExecbufVerifier
  ExecbufListing
open Validation hiding vmwValidationAddBo vmwValidationFindBoDup BoNode

structure Tables (hash : ℕ → ℕ) where
  cache : ResType → CacheEntry
  val : ValContext hash
  switch : ℕ → Option BackupSwitch

section Blind
variable {hash : ℕ → ℕ} {σ α : Type}

def tables (hash : ℕ → ℕ) (σ : Type) : Part (SwContext (Lists hash σ)) (Tables hash) where
  get s := ⟨s.resCache, s.rest.val, s.rest.switch⟩
  put T s := { s with resCache := T.cache, rest := ⟨T.val, T.switch, s.rest.rest⟩ }
  get_put _ _ := rfl
  put_get _ := rfl
  put_put _ _ _ := rfl

abbrev Apart (m : Check (Lists hash σ) α) : Prop := Blind (tables hash σ) m

theorem Apart.retOf {m : Check (Lists hash σ) α} (h : Apart m) : Apart (retOf m) := by
  intro s x
  rw [retOf_eq, retOf_eq, h]

theorem apart_field {g : SwContext (Lists hash σ) → α}
    (h : ∀ s x, g ((tables hash σ).put x s) = g s) : Apart (inspect g) := blind_inspect h

theorem apart_rd (a : ℤ) : Apart (rd a : Check (Lists hash σ) ℕ) := apart_field fun _ _ => rfl

theorem apart_wr (a : ℤ) (v : ℕ) : Apart (wr a v : Check (Lists hash σ) Unit) :=
  blind_update fun _ _ => rfl

theorem apart_call (op : Op σ α) : Apart (call (onRest op) : Check (Lists hash σ) α) := by
  intro s x
  simp only [call, onRest, tables]
  rcases op s.rest.rest with ⟨e | a, w⟩ <;> rfl

theorem apart_act (f : σ → σ) : Apart (act (actRest f) : Check (Lists hash σ) Unit) :=
  blind_update fun _ _ => rfl

theorem apart_fail (e : Errno) : Apart (fail e : Check (Lists hash σ) α) := blind_stop _

theorem apart_deref (o : Option α) : Apart (deref o : Check (Lists hash σ) α) := by
  cases o
  · exact blind_stop _
  · exact blind_pure _

theorem apart_orElse (e : Errno) (o : Option α) : Apart (orElse e o : Check (Lists hash σ) α) := by
  cases o
  · exact blind_stop _
  · exact blind_pure _

theorem apart_indexed (o : Option α) : Apart (indexed o : Check (Lists hash σ) α) := by
  cases o
  · exact blind_stop _
  · exact blind_pure _

theorem apart_ofRet (r : Except Errno α) : Apart (ofRet r : Check (Lists hash σ) α) := by
  cases r
  · exact blind_stop _
  · exact blind_pure _

theorem apart_dxCtxNode : Apart (dxCtxNode : Check (Lists hash σ) _) := apart_field fun _ _ => rfl

theorem apart_ctxOf (node : ℕ) : Apart (ctxOf node : Check (Lists hash σ) ℕ) :=
  apart_field fun _ _ => rfl

theorem apart_noteUse (named used : Option ℕ) (query : Bool) :
    Apart (noteUse named used query : Check (Lists hash σ) Unit) := blind_update fun _ _ => rfl

theorem apart_bindingAdd {c : Check (Lists hash σ) ℕ} (node : ℕ) (b : ℕ → ℕ → Binding)
    (hc : Apart c) : Apart (do
      let staged ← stagedOf node
      let c ← c
      vmwBindingAdd (b staged c)) := by
  refine (apart_field fun _ _ => rfl).bind fun staged => hc.bind fun x => ?_
  exact blind_update fun _ _ => rfl

end Blind

section Helpers
variable {hash : ℕ → ℕ} {σ : Type} {A : Allocator} {S : Supply σ} {K : Kernel σ}

theorem apart_memAlloc : Apart (memAlloc (listed hash A S K)) := by
  intro s x
  simp only [memAlloc, listed, actRest, tables]
  rcases K.validationMemAlloc s.rest.rest with ⟨_ | _, w⟩ <;> rfl

theorem apart_contextCotable (ctx i : ℕ) : Apart (vmwContextCotable (listed hash A S K) ctx i) :=
  apart_field fun _ _ => rfl

theorem apart_validationAddBo (bo : ℕ) (asMob cpuBlit : Bool) :
    Apart (vmwValidationAddBo (listed hash A S K) bo asMob cpuBlit) := by
  refine (apart_field fun _ _ => rfl).bind fun dup => ?_
  cases dup
  · exact (apart_call _).bind fun _ => blind_update fun _ _ => rfl
  · exact blind_require _ _

theorem apart_sharedStaged (o : Option ℕ) : Apart (sharedStaged (listed hash A S K) o) := by
  cases o
  · refine (apart_call _).bind fun staged => Blind.bind ?_ fun _ => blind_pure _
    exact blind_update fun _ _ => rfl
  · exact blind_pure _

theorem apart_nodeStaged (inuse : Bool) (shared : ℕ) :
    Apart (nodeStaged (listed hash A S K) inuse shared) := by
  unfold nodeStaged
  split
  · exact apart_call _
  · exact (blind_update fun _ _ => rfl).bind fun _ => blind_pure _

theorem apart_relocationAdd (res : Option ℕ) (a : ℤ) (relType : RelType) :
    Apart (vmwResourceRelocationAdd (listed hash A S K) res a relType) :=
  apart_memAlloc.bind fun _ => blind_update fun _ _ => rfl

theorem apart_translatePtr (asMob : Bool) (a : ℤ) :
    Apart (vmwTranslatePtr (listed hash A S K) asMob a) := by
  refine (apart_rd _).bind fun handle => (apart_call _).retOf.bind fun _ => ?_
  refine (apart_call _).bind fun bo => (apart_validationAddBo bo asMob false).bind fun _ => ?_
  exact apart_memAlloc.bind fun _ => (blind_update fun _ _ => rfl).bind fun _ => blind_pure _

theorem apart_cotableNotify (res : Except Errno (Option ℕ)) (id : ℕ) :
    Apart (vmwCotableNotify (listed hash A S K) res id) :=
  (apart_deref _).bind fun _ => (blind_require _ _).bind fun _ => apart_act _

theorem apart_gbRewrite (p : ℤ) (id : ℕ) (words : List ℤ) :
    Apart (gbRewrite p id words : Check (Lists hash σ) Unit) :=
  (apart_wr p id).bind fun _ =>
    Blind.forEach (fun a => (apart_rd a).bind fun v => apart_wr a v) words

theorem apart_dmaGuest (p : ℤ) : Apart (dmaGuest (listed hash A S K) p) := by
  refine (apart_rd _).bind fun size => (apart_rd _).bind fun suffixSize => ?_
  refine (blind_require _ _).bind fun _ => (apart_translatePtr _ _).bind fun bo => ?_
  refine (apart_rd _).bind fun offset => (blind_require _ _).bind fun _ => ?_
  refine (apart_rd _).bind fun maximum => Blind.bind ?_ fun _ => blind_pure _
  exact Blind.runIf (apart_wr _ _) _

theorem apart_viewAdd (man ctx : ℕ) (srf : Option ℕ) (viewType : ViewType) (userKey size : ℕ) :
    Apart (vmwViewAdd (listed hash A S K) man ctx srf viewType userKey size) := by
  refine (apart_indexed _).bind fun n => (blind_require _ _).bind fun _ => ?_
  refine (blind_require _ _).bind fun _ => (apart_call _).bind fun _ => ?_
  exact (apart_deref _).bind fun s => apart_call _

theorem apart_dxContext : Apart (dxContext : Check (Lists hash σ) _) :=
  apart_dxCtxNode.bind fun _ => (apart_orElse _ _).bind fun node =>
    (apart_ctxOf node).bind fun _ => blind_pure _

theorem apart_not3d (buf : ℤ) (n : ℕ) : Apart (vmwCmdCheckNot3d (listed hash A S K) buf n) := by
  refine (apart_rd _).bind fun id => (apart_orElse _ _).bind fun size => ?_
  refine (blind_require _ _).bind fun _ => (apart_field fun _ _ => rfl).bind fun kernel => ?_
  refine (blind_require _ _).bind fun _ => Blind.bind (Blind.runIf ?_ _) fun _ => blind_pure _
  exact (apart_translatePtr _ _).bind fun _ => blind_pure _

def plainHandlers : List Handler := [.invalid, .ok, .dxDefineQuery, .dxBindQuery, .dxSoDefine,
  .dxCidCheck, .dxViewRemove, .dxDefineShader, .dxDestroyShader]

theorem apart_handlers (p : ℤ) {h : Handler} (hh : h ∈ plainHandlers) :
    Apart (h.run (listed hash A S K) p) := by
  simp only [plainHandlers, List.mem_cons, List.not_mem_nil, or_false] at hh
  rcases hh with rfl | rfl | rfl | rfl | rfl | rfl | rfl | rfl | rfl
  · exact apart_fail _
  · exact blind_pure _
  · refine apart_dxCtxNode.bind fun o => (apart_orElse _ o).bind fun node => ?_
    refine (apart_rd _).bind fun type => (blind_require _ _).bind fun _ => ?_
    refine (apart_ctxOf node).bind fun ctx => (apart_contextCotable _ _).bind fun cotable => ?_
    exact (apart_rd _).bind fun id => apart_cotableNotify cotable id
  · refine (apart_translatePtr _ _).bind fun bo => (blind_update fun _ _ => rfl).bind fun _ => ?_
    refine apart_dxCtxNode.bind fun o => Blind.bind ?_ fun node => ?_
    · cases o
      · exact blind_stop _
      · exact blind_pure _
    · exact (apart_ctxOf node).bind fun ctx => blind_update fun _ _ => rfl
  · refine apart_dxCtxNode.bind fun o => (apart_orElse _ o).bind fun node => ?_
    refine (apart_rd _).bind fun id => (apart_ctxOf node).bind fun ctx => ?_
    refine (apart_indexed _).bind fun i => (apart_contextCotable _ _).bind fun cotable => ?_
    exact (apart_rd _).bind fun id => apart_cotableNotify cotable id
  · exact apart_dxCtxNode.bind fun o => (apart_orElse _ o).bind fun _ => blind_pure _
  · refine (apart_rd _).bind fun id => apart_dxCtxNode.bind fun o => ?_
    refine (apart_orElse _ o).bind fun _ => (apart_field fun _ _ => rfl).bind fun man => ?_
    refine (apart_rd _).bind fun viewId => Blind.bind ?_ fun view => ?_
    · exact (blind_require _ _).bind fun _ => apart_call _
    · cases view
      · exact blind_pure _
      · exact apart_relocationAdd _ _ _
  · refine apart_dxCtxNode.bind fun o => (apart_orElse _ o).bind fun node => ?_
    refine (apart_ctxOf node).bind fun ctx => (apart_contextCotable _ _).bind fun cotable => ?_
    refine (apart_rd _).bind fun id => (apart_rd _).bind fun type => ?_
    refine (apart_cotableNotify cotable id).bind fun _ => (apart_field fun _ _ => rfl).bind fun man => ?_
    exact apart_call _
  · refine apart_dxCtxNode.bind fun o => (apart_orElse _ o).bind fun _ => ?_
    refine (apart_field fun _ _ => rfl).bind fun man => (apart_rd _).bind fun id => apart_call _

end Helpers

section Nodes
variable {hash : ℕ → ℕ} {a b : ValContext hash} {A : Allocator} {D : Device} {res x : ℕ}
  {mem doomed : Bool}

/-- The same lists; a node that is new in the second was used once in the first as well. -/
structure Alike (a b : ValContext hash) : Prop where
  lists : b = { a with resNode := b.resNode }
  res : ∀ x, (b.resNode x).res = (a.resNode x).res
  first : ∀ x, (b.resNode x).firstUsage = true → (a.resNode x).firstUsage = true

/-- What a table that finds the resources keeps when one is added. -/
structure Grows (a b : ValContext hash) : Prop where
  mergeDups : b.mergeDups = true
  hasHt : b.hasHt = true
  found : ∀ r x, drmHtFindItem a.table r = some x → drmHtFindItem b.table r = some x

theorem Alike.usedAgain_right (h : Alike a b) (x : ℕ) : Alike a (b.usedAgain x) where
  lists := by
    rw [ValContext.usedAgain, h.lists]
  res y := (usedAgain_res x y).trans (h.res y)
  first y hy := by
    change (Function.update b.resNode x _ y).firstUsage = true at hy
    by_cases hxy : y = x
    · rw [hxy, Function.update_self] at hy
      cases hy
    · rw [Function.update_of_ne hxy] at hy
      exact h.first y hy

theorem Alike.update (h : Alike a b) (f : ValContext hash → ValContext hash) (x : ℕ)
    (n : ResNode → ResNode)
    (hn : ∀ p q, q.res = p.res → (q.firstUsage = true → p.firstUsage = true) →
      (n q).res = (n p).res ∧ ((n q).firstUsage = true → (n p).firstUsage = true))
    (hf : ∀ g, f { a with resNode := g } =
      { f a with resNode := Function.update g x (n (g x)) }) : Alike (f a) (f b) := by
  have ha : (f a).resNode = Function.update a.resNode x (n (a.resNode x)) :=
    congrArg ValContext.resNode (hf a.resNode)
  have hlists : f b = { f a with resNode := Function.update b.resNode x (n (b.resNode x)) } := by
    rw [← hf, ← h.lists]
  have hb : (f b).resNode = Function.update b.resNode x (n (b.resNode x)) := by rw [hlists]
  have hnode := hn _ _ (h.res x) (h.first x)
  refine ⟨?_, fun y => ?_, fun y => ?_⟩
  · rw [hb]
    exact hlists
  · rw [ha, hb]
    by_cases hy : y = x
    · rw [hy, Function.update_self, Function.update_self]
      exact hnode.1
    · rw [Function.update_of_ne hy, Function.update_of_ne hy]
      exact h.res y
  · rw [ha, hb]
    by_cases hy : y = x
    · rw [hy, Function.update_self, Function.update_self]
      exact hnode.2
    · rw [Function.update_of_ne hy, Function.update_of_ne hy]
      exact h.first y

theorem Alike.usedAgain (h : Alike a b) (x : ℕ) : Alike (a.usedAgain x) (b.usedAgain x) :=
  h.update (ValContext.usedAgain x) x (fun q => { q with firstUsage := false })
    (fun _ _ hres _ => ⟨hres, id⟩) fun _ => rfl

theorem Alike.memAlloc (h : Alike a b) : Alike (a.memAlloc A) (b.memAlloc A) :=
  h.update (ValContext.memAlloc A) (A.alloc a.used) (fun _ => ⟨0, false⟩)
    (fun _ _ _ _ => ⟨rfl, id⟩) fun _ => rfl

theorem Alike.table (h : Alike a b) : b.table = a.table := by rw [h.lists]

theorem Alike.withTable (h : Alike a b) (ht : OpenHash hash ℕ) :
    Alike { a with table := ht } { b with table := ht } where
  lists := by
    rw [h.lists]
  res := h.res
  first := h.first

theorem Alike.listRes (h : Alike a b) (x : ℕ) : Alike (a.listRes D x res) (b.listRes D x res) := by
  refine h.update (ValContext.listRes D x res) x (fun _ => ⟨res, true⟩) (fun _ _ _ _ => ⟨rfl, id⟩)
    fun g => ?_
  unfold ValContext.listRes
  dsimp only
  split
  · rfl
  · split <;> rfl

theorem Alike.insertNode (h : Alike a b) (x key : ℕ) :
    (a.insertNode x key = none ∧ b.insertNode x key = none) ∨
      ∃ a' b', a.insertNode x key = some a' ∧ b.insertNode x key = some b' ∧ Alike a' b' := by
  have hht : b.hasHt = a.hasHt := by rw [h.lists]
  unfold ValContext.insertNode
  by_cases hd : a.hasHt = true
  · rw [if_pos hd, if_pos (hht.trans hd), h.table]
    cases drmHtInsertItem a.table ⟨x, key⟩ with
    | none => exact .inl ⟨rfl, rfl⟩
    | some ht => exact .inr ⟨_, _, rfl, rfl, h.withTable ht⟩
  · rw [if_neg hd, if_neg (hht ▸ hd)]
    exact .inr ⟨a, b, rfl, rfl, h⟩

theorem Alike.addResource (h : Alike a b) (hm : a.mergeDups = true) (hh : a.hasHt = true)
    (A : Allocator) (D : Device) (res : ℕ) (mem doomed : Bool) :
    (vmwValidationAddResource A D res mem doomed b).1 =
        (vmwValidationAddResource A D res mem doomed a).1 ∧
      Alike (vmwValidationAddResource A D res mem doomed a).2
        (vmwValidationAddResource A D res mem doomed b).2 := by
  have hfind : ∀ v : ValContext hash, v.mergeDups = true → v.hasHt = true →
      vmwValidationFindResDup v res = drmHtFindItem v.table res := by
    intro v hm hh
    simp [vmwValidationFindResDup, hm, hh]
  have hused : b.used = a.used := by rw [h.lists]
  have hdup : vmwValidationFindResDup b res = vmwValidationFindResDup a res := by
    rw [hfind a hm hh, hfind b (by rw [h.lists]; exact hm) (by rw [h.lists]; exact hh), h.table]
  unfold vmwValidationAddResource
  rw [hdup]
  cases vmwValidationFindResDup a res with
  | some x =>
    refine ⟨?_, h.usedAgain x⟩
    simp [ValContext.usedAgain]
  | none =>
    cases mem with
    | false => exact ⟨rfl, h⟩
    | true =>
      simp only [addNode, if_true, hused]
      obtain ⟨ha, hb⟩ | ⟨a', b', ha, hb, h'⟩ := (h.memAlloc (A := A)).insertNode (A.alloc a.used) res
      · rw [ha, hb]
        exact ⟨rfl, h.memAlloc⟩
      · rw [ha, hb]
        cases doomed with
        | true => exact ⟨rfl, h'⟩
        | false =>
          refine ⟨?_, h'.listRes _⟩
          simp only [Bool.false_eq_true, if_false, Except.map]
          rw [(listRes_spec D b' (A.alloc a.used) res).2, (listRes_spec D a' (A.alloc a.used) res).2]
          simp only [Function.update_self]

theorem addResource_grows (hm : a.mergeDups = true) (hh : a.hasHt = true) :
    Grows a (vmwValidationAddResource A D res mem doomed a).2 ∧
      ∀ fu x, (vmwValidationAddResource A D res mem doomed a).1 = .ok (fu, x) →
        drmHtFindItem (vmwValidationAddResource A D res mem doomed a).2.table res = some x ∧
          ((vmwValidationAddResource A D res mem doomed a).2.resNode x).firstUsage = fu := by
  have hfind : vmwValidationFindResDup a res = drmHtFindItem a.table res := by
    simp [vmwValidationFindResDup, hm, hh]
  unfold vmwValidationAddResource
  cases hdup : vmwValidationFindResDup a res with
  | some x =>
    refine ⟨⟨hm, hh, fun _ _ => id⟩, fun fu y hy => ?_⟩
    cases hy
    exact ⟨hfind.symm.trans hdup, rfl⟩
  | none =>
    cases mem with
    | false => exact ⟨⟨hm, hh, fun _ _ => id⟩, fun _ _ hy => by cases hy⟩
    | true =>
      simp only [addNode, if_true]
      cases hins : (a.memAlloc A).insertNode (A.alloc a.used) res with
      | none => exact ⟨⟨hm, hh, fun _ _ => id⟩, fun _ _ hy => by cases hy⟩
      | some t =>
        obtain ⟨htable, ht⟩ := insertNode_some (s := a.memAlloc A) hh hins
        have hgrown : ∀ r x, drmHtFindItem a.table r = some x → drmHtFindItem t.table r = some x :=
          fun r x hx => (drmHtFindItem_insert_iff htable).2 (.inr hx)
        have hflags : t.mergeDups = true ∧ t.hasHt = true := by
          rw [ht]
          exact ⟨hm, hh⟩
        cases doomed with
        | true => exact ⟨⟨hflags.1, hflags.2, hgrown⟩, fun _ _ hy => by cases hy⟩
        | false =>
          have hlist := (listRes_spec D t (A.alloc a.used) res).2
          have hsame : (t.listRes D (A.alloc a.used) res).table = t.table := by rw [hlist]
          simp only [Bool.false_eq_true, if_false]
          refine ⟨⟨?_, ?_, fun r x hx => ?_⟩, fun fu y hy => ?_⟩
          · rw [hlist]
            exact hflags.1
          · rw [hlist]
            exact hflags.2
          · rw [hsame]
            exact hgrown r x hx
          · cases hy
            refine ⟨?_, rfl⟩
            rw [hsame]
            exact (drmHtFindItem_insert_iff htable).2 (.inl ⟨rfl, rfl⟩)

end Nodes

section Sim
variable {hash : ℕ → ℕ} {σ : Type} {K : Kernel σ} {table : Converter → ℕ → Except Errno ℕ}
  {B : Prop} {pins : ℕ → ℕ → Prop} {X Y : Tables hash} {t : ResType} {res x : ℕ}

/-- A handle table that does not change, and memory for the node of every lookup. -/
structure FixedTable (K : Kernel σ) (table : Converter → ℕ → Except Errno ℕ) : Prop where
  lookup : ∀ c handle w, K.userResourceLookup c handle w = (table c handle, w)
  preload : ∀ size w, K.validationPreloadRes size w = (.ok (), w)
  surfaces : ∀ handle r, table .surface handle = .ok r → K.resType r = .surface
  shaders : ∀ handle r, table .shader handle = .ok r → K.resType r = .shader

/-- The converter with which handles are looked up for the entry of a type. -/
def converterOf : ResType → Converter
  | .surface => .surface
  | .shader => .shader
  | _ => .context

structure SameEntry (c d : CacheEntry) : Prop where
  valid : d.valid = c.valid
  res : d.res = c.res
  priv : d.priv = c.priv

theorem SameEntry.refl (c : CacheEntry) : SameEntry c c := ⟨rfl, rfl, rfl⟩

theorem SameEntry.holds {c d : CacheEntry} (h : SameEntry c d) (r : ℕ) : d.holds r = c.holds r := by
  rw [CacheEntry.holds, CacheEntry.holds, h.valid, h.res]

theorem SameEntry.update {a b : CacheEntry} (hab : SameEntry a b) {c d : ResType → CacheEntry}
    (h : ∀ u, SameEntry (c u) (d u)) (t u : ResType) :
    SameEntry (Function.update c t a u) (Function.update d t b u) := by
  by_cases hu : u = t
  · rw [hu, Function.update_self, Function.update_self]
    exact hab
  · rw [Function.update_of_ne hu, Function.update_of_ne hu]
    exact h u

theorem holds_iff {c : CacheEntry} {r : ℕ} : c.holds r = true ↔ c.valid = true ∧ c.res = some r := by
  simp [CacheEntry.holds]

def target (b : BackupSwitch) : ℕ × ℕ := (b.newBackup, b.newBackupOffset)

/-- `X` is of the run with the cache. `B` tells whether the flags of the backup switches agree
    as well, and `pins` are nodes that are to stay. -/
structure Sim (K : Kernel σ) (table : Converter → ℕ → Except Errno ℕ) (B : Prop)
    (pins : ℕ → ℕ → Prop) (X Y : Tables hash) : Prop where
  entries : ∀ t, SameEntry (X.cache t) (Y.cache t)
  alike : Alike X.val Y.val
  backups : ∀ x, (Y.switch x).map target = (X.switch x).map target
  flags : B → Y.switch = X.switch
  mergeDups : X.val.mergeDups = true
  hasHt : X.val.hasHt = true
  held : ∀ t r, (X.cache t).holds r = true → K.resType r = t ∧
    ∃ x, (X.cache t).priv = some x ∧ drmHtFindItem X.val.table r = some x
  handles : ∀ t, (X.cache t).validHandle = true → ∃ r, (X.cache t).holds r = true ∧
    table (converterOf t) (X.cache t).handle = .ok r
  pinned : ∀ r x, pins r x → drmHtFindItem X.val.table r = some x

def Tables.refreshed (K : Kernel σ) (T : Tables hash) (res x : ℕ) : Tables hash :=
  { T with
    cache := Function.update T.cache (K.resType res) ((T.cache (K.resType res)).refreshed res x) }

def Tables.named (T : Tables hash) (t : ResType) (id : ℕ) : Tables hash :=
  { T with cache := Function.update T.cache t ((T.cache t).named id) }

theorem Sim.grown (h : Sim K table B pins X Y) {a b : ValContext hash} (hab : Alike a b)
    (ha : Grows X.val a) : Sim K table B pins { X with val := a } { Y with val := b } where
  entries := h.entries
  alike := hab
  backups := h.backups
  flags := h.flags
  mergeDups := ha.mergeDups
  hasHt := ha.hasHt
  held t r hr := by
    obtain ⟨htype, x, hpriv, hx⟩ := h.held t r hr
    exact ⟨htype, x, hpriv, ha.found r x hx⟩
  handles := h.handles
  pinned r x hx := ha.found r x (h.pinned r x hx)

theorem Sim.pin (h : Sim K table B pins X Y) (hx : drmHtFindItem X.val.table res = some x) :
    Sim K table B (fun r y => pins r y ∨ r = res ∧ y = x) X Y :=
  { h with pinned := fun r y hr => hr.elim (h.pinned r y) fun heq => by rw [heq.1, heq.2, hx] }

theorem Sim.unpin (h : Sim K table B (fun r y => pins r y ∨ r = res ∧ y = x) X Y) :
    Sim K table B pins X Y := { h with pinned := fun r y hr => h.pinned r y (.inl hr) }

theorem Sim.refreshed (h : Sim K table B pins X Y)
    (hx : drmHtFindItem X.val.table res = some x) :
    Sim K table B pins (X.refreshed K res x) (Y.refreshed K res x) where
  entries u := by
    have hentry : SameEntry ((X.cache (K.resType res)).refreshed res x)
        ((Y.cache (K.resType res)).refreshed res x) := ⟨rfl, rfl, rfl⟩
    exact hentry.update h.entries _ u
  alike := h.alike
  backups := h.backups
  flags := h.flags
  mergeDups := h.mergeDups
  hasHt := h.hasHt
  held u r hr := by
    simp only [Tables.refreshed] at hr ⊢
    by_cases hu : u = K.resType res
    · rw [hu, Function.update_self] at hr ⊢
      obtain rfl : res = r := Option.some.inj (holds_iff.1 hr).2
      exact ⟨rfl, x, rfl, hx⟩
    · rw [Function.update_of_ne hu] at hr ⊢
      exact h.held u r hr
  handles u hu := by
    simp only [Tables.refreshed] at hu ⊢
    by_cases hut : u = K.resType res
    · rw [hut, Function.update_self] at hu
      cases hu
    · rw [Function.update_of_ne hut] at hu ⊢
      exact h.handles u hu
  pinned := h.pinned

theorem Sim.again (h : Sim K table B pins X Y) (hr : (X.cache (K.resType res)).holds res = true)
    (hx : (X.cache (K.resType res)).priv = some x) :
    Sim K table B pins X ({ Y with val := Y.val.usedAgain x }.refreshed K res x) :=
  { h with
    entries := fun u => by
      simp only [Tables.refreshed]
      by_cases hu : u = K.resType res
      · obtain ⟨hvalid, hres⟩ := holds_iff.1 hr
        rw [hu, Function.update_self]
        exact ⟨hvalid.symm, hres.symm, hx.symm⟩
      · rw [Function.update_of_ne hu]
        exact h.entries u
    alike := h.alike.usedAgain_right x }

theorem Sim.named (h : Sim K table B pins X Y) (hr : (X.cache t).holds res = true) {id : ℕ}
    (hid : table (converterOf t) id = .ok res) :
    Sim K table B pins (X.named t id) (Y.named t id) where
  entries u := by
    have hentry : SameEntry ((X.cache t).named id) ((Y.cache t).named id) :=
      ⟨(h.entries t).valid, (h.entries t).res, (h.entries t).priv⟩
    exact hentry.update h.entries t u
  alike := h.alike
  backups := h.backups
  flags := h.flags
  mergeDups := h.mergeDups
  hasHt := h.hasHt
  held u r hur := by
    simp only [Tables.named] at hur ⊢
    by_cases hu : u = t
    · rw [hu, Function.update_self] at hur ⊢
      exact h.held t r hur
    · rw [Function.update_of_ne hu] at hur ⊢
      exact h.held u r hur
  handles u hu := by
    simp only [Tables.named] at hu ⊢
    by_cases hut : u = t
    · rw [hut, Function.update_self]
      exact ⟨res, hr, hid⟩
    · rw [Function.update_of_ne hut] at hu ⊢
      exact h.handles u hu
  pinned := h.pinned

theorem Sim.named_right (h : Sim K table B pins X Y) (id : ℕ) :
    Sim K table B pins X (Y.named t id) :=
  { h with
    entries := fun u => by
      simp only [Tables.named]
      by_cases hu : u = t
      · rw [hu, Function.update_self]
        exact ⟨(h.entries t).valid, (h.entries t).res, (h.entries t).priv⟩
      · rw [Function.update_of_ne hu]
        exact h.entries u }

/-- `no_buffer_needed` of a node. -/
def kept (X : Tables hash) (x : ℕ) : Bool := (X.switch x).any BackupSwitch.noBufferNeeded

/-- The cache has the resource, whose node counts as used once, and its buffer is still needed. -/
def stale (K : Kernel σ) (X : Tables hash) (res : ℕ) : Bool :=
  (X.cache (K.resType res)).holds res &&
    (X.cache (K.resType res)).priv.any fun x => (X.val.resNode x).firstUsage && !kept X x

/-- A switch of the backup of the resource sets the same flag in both runs. -/
def Settled (K : Kernel σ) (res : ℕ) (X Y : Tables hash) : Prop :=
  ∀ x, (X.cache (K.resType res)).holds res = true → (X.cache (K.resType res)).priv = some x →
    kept X x = true ∨ (Y.val.resNode x).firstUsage = (X.val.resNode x).firstUsage

theorem Settled.congr {X' Y' : Tables hash} (h : Settled K res X Y)
    (hentry : ∀ u, SameEntry (X.cache u) (X'.cache u)) (hX : X'.val = X.val)
    (hswitch : X'.switch = X.switch) (hY : Y'.val = Y.val) : Settled K res X' Y' := by
  intro x hx hpriv
  rw [(hentry _).holds] at hx
  rw [(hentry _).priv] at hpriv
  rw [hX, hY, kept, hswitch]
  exact h x hx hpriv

/-- `vmw_validation_res_switch_backup`. -/
def Tables.switched (X : Tables hash) (x vbo offset : ℕ) : Tables hash :=
  { X with
    switch := Function.update X.switch x
      (some ⟨kept X x || (X.val.resNode x).firstUsage, vbo, offset⟩) }

theorem Sim.switched (h : Sim K table B pins X Y)
    (hx : B → kept X x = true ∨ (Y.val.resNode x).firstUsage = (X.val.resNode x).firstUsage)
    (vbo offset : ℕ) :
    Sim K table B pins (Tables.switched X x vbo offset) (Tables.switched Y x vbo offset) :=
  { h with
    backups := fun y => by
      unfold Tables.switched
      dsimp only
      by_cases hy : y = x
      · rw [hy, Function.update_self, Function.update_self]
        rfl
      · rw [Function.update_of_ne hy, Function.update_of_ne hy]
        exact h.backups y
    flags := fun hB => by
      have hkept : kept Y x = kept X x := by rw [kept, kept, h.flags hB]
      have hflag : (kept Y x || (Y.val.resNode x).firstUsage) =
          (kept X x || (X.val.resNode x).firstUsage) := by
        rw [hkept]
        rcases hx hB with hx | hx
        · rw [hx]
          rfl
        · rw [hx]
      rw [Tables.switched, Tables.switched, hflag, h.flags hB] }

end Sim

section Adds
variable {hash : ℕ → ℕ} {σ : Type} {A : Allocator} {S : Supply σ} {K : Kernel σ}
  {table : Converter → ℕ → Except Errno ℕ} {B : Prop} {pins : ℕ → ℕ → Prop}
  {s t : SwContext (Lists hash σ)} {res x : ℕ}

/-- The two runs of a computation, `X` the one with the cache. -/
abbrev Related (hash : ℕ → ℕ) (K : Kernel σ) (table : Converter → ℕ → Except Errno ℕ) (B : Prop)
    (pins : ℕ → ℕ → Prop) : SwContext (Lists hash σ) → SwContext (Lists hash σ) → Prop :=
  Beside (tables hash σ) (Sim K table B pins)

def added (A : Allocator) (S : Supply σ) (K : Kernel σ) (res : ℕ) (s : SwContext (Lists hash σ)) :
    Except Errno (Bool × ℕ) × ValContext hash :=
  vmwValidationAddResource A ⟨K.hasMob, K.resType⟩ res (S.mem res s.rest.rest)
    (S.doomed res s.rest.rest) s.rest.val

def filled : Except Errno (Bool × ℕ) → Except Stop (ℕ × Bool)
  | .ok a => .ok (a.2, a.1)
  | .error e => .error (.errno e)

theorem call_add (s : SwContext (Lists hash σ)) :
    call (addResource A ⟨K.hasMob, K.resType⟩ S res) s =
      (filled (added A S K res s).1,
        (tables hash σ).put { (tables hash σ).get s with val := (added A S K res s).2 } s) := by
  simp only [call, addResource, added]
  rcases vmwValidationAddResource A _ res _ _ s.rest.val with ⟨e | a, v⟩ <;> rfl

theorem add_paired (res : ℕ) : Paired (Related hash K table B pins)
    (call (addResource A ⟨K.hasMob, K.resType⟩ S res))
    (call (addResource A ⟨K.hasMob, K.resType⟩ S res)) := by
  intro s t hst
  have hsim := hst.inside
  have hrest : t.rest.rest = s.rest.rest := by rw [hst.outside]; rfl
  have hadd := hsim.alike.addResource hsim.mergeDups hsim.hasHt A ⟨K.hasMob, K.resType⟩ res
    (S.mem res s.rest.rest) (S.doomed res s.rest.rest)
  have ht : added A S K res t = vmwValidationAddResource A ⟨K.hasMob, K.resType⟩ res
    (S.mem res s.rest.rest) (S.doomed res s.rest.rest) t.rest.val := by rw [added, hrest]
  constructor
  · rw [call_add, call_add, ht]
    exact congrArg filled hadd.1.symm
  · rw [call_add, call_add, ht]
    exact hst.put (hsim.grown hadd.2 (addResource_grows hsim.mergeDups hsim.hasHt).1)

theorem add_found (hm : s.rest.val.mergeDups = true) (hh : s.rest.val.hasHt = true) {a : ℕ × Bool}
    {u : SwContext (Lists hash σ)}
    (h : call (addResource A ⟨K.hasMob, K.resType⟩ S res) s = (.ok a, u)) :
    drmHtFindItem u.rest.val.table res = some a.1 ∧ (u.rest.val.resNode a.1).firstUsage = a.2 := by
  rw [call_add] at h
  obtain ⟨hresult, rfl⟩ := Prod.mk.inj h
  rcases hadd : (added A S K res s).1 with e | ⟨fu, y⟩
  · rw [hadd] at hresult
    cases hresult
  · rw [hadd] at hresult
    cases hresult
    exact (addResource_grows hm hh).2 fu y hadd

def nodeAdd (A : Allocator) (S : Supply σ) (K : Kernel σ) (res : ℕ)
    (f : ℕ × Bool → Check (Lists hash σ) Unit) : Check (Lists hash σ) Unit := do
  let node ← call (addResource A ⟨K.hasMob, K.resType⟩ S res)
  f node
  vmwExecbufRcacheUpdate (K.resType res) res node.1

def matched (cached : Bool) (K : Kernel σ) (res : ℕ) (m : Check (Lists hash σ) Unit) :
    Check (Lists hash σ) Unit := do
  if ← inspect fun s => cached && (s.resCache (K.resType res)).holds res then pure ()
  else m

theorem refreshed_paired (hst : Related hash K table B pins s t)
    (hx : drmHtFindItem s.rest.val.table res = some x) :
    PairedAt (Related hash K table B pins) (vmwExecbufRcacheUpdate (K.resType res) res x)
      (vmwExecbufRcacheUpdate (K.resType res) res x) s t :=
  ⟨rfl, hst.put (hst.inside.refreshed hx)⟩

theorem nodeAdd_paired {f g : ℕ × Bool → Check (Lists hash σ) Unit}
    (hfg : ∀ node pins, Paired (Related hash K table B pins) (f node) (g node)) (res : ℕ) :
    Paired (Related hash K table B pins) (nodeAdd A S K res f) (nodeAdd A S K res g) := by
  intro s t hst
  refine (add_paired res s t hst).bind fun a u v hu _ huv => ?_
  have hpin : Related hash K table B (fun r y => pins r y ∨ r = res ∧ y = a.1) u v :=
    ⟨huv.outside, huv.inside.pin (add_found hst.inside.mergeDups hst.inside.hasHt hu).1⟩
  have hrest := (hfg a _ u v hpin).bind fun _ u' v' _ _ h =>
    refreshed_paired h (h.inside.pinned res a.1 (.inr ⟨rfl, rfl⟩))
  exact hrest.mono fun _ _ h => h.mono fun _ _ h => h.unpin

theorem nodeAdd_again_run (hst : Related hash K table B pins s t)
    (hr : (s.resCache (K.resType res)).holds res = true)
    (hx : (s.resCache (K.resType res)).priv = some x) {f : ℕ × Bool → Check (Lists hash σ) Unit}
    (hf : ∀ x, f (x, false) = pure ()) :
    nodeAdd A S K res f t = (.ok (), (tables hash σ).put
      (Tables.refreshed K { (tables hash σ).get t with val := t.rest.val.usedAgain x } res x) t) := by
  have hfound : drmHtFindItem s.rest.val.table res = some x := by
    obtain ⟨-, y, hy, hfound⟩ := hst.inside.held _ res hr
    obtain rfl : x = y := Option.some.inj (hx.symm.trans hy)
    exact hfound
  have hdup : vmwValidationFindResDup t.rest.val res = some x := by
    have hlists : t.rest.val = { s.rest.val with resNode := t.rest.val.resNode } :=
      hst.inside.alike.lists
    have hm : s.rest.val.mergeDups = true := hst.inside.mergeDups
    have hh : s.rest.val.hasHt = true := hst.inside.hasHt
    rw [hlists]
    simp only [vmwValidationFindResDup, hm, hh]
    exact hfound
  have hadd : added A S K res t = (.ok (false, x), t.rest.val.usedAgain x) := by
    simp [added, vmwValidationAddResource, hdup, ValContext.usedAgain]
  have hcall := @call_add hash σ A S K res t
  rw [hadd] at hcall
  rw [nodeAdd, bind_of_ok hcall]
  change (f (x, false) >>= fun _ => vmwExecbufRcacheUpdate (K.resType res) res x) _ = _
  rw [hf]
  rfl

theorem nodeAdd_again (hst : Related hash K table B pins s t)
    (hr : (s.resCache (K.resType res)).holds res = true) {f : ℕ × Bool → Check (Lists hash σ) Unit}
    (hf : ∀ x, f (x, false) = pure ()) :
    PairedAt (Related hash K table B pins) (pure ()) (nodeAdd A S K res f) s t := by
  obtain ⟨-, x, hx, -⟩ := hst.inside.held _ res hr
  have hrun := nodeAdd_again_run (A := A) (S := S) hst hr hx hf
  refine ⟨by rw [hrun]; rfl, ?_⟩
  rw [hrun]
  have hput := hst.put (hst.inside.again hr hx)
  rw [(tables hash σ).put_get] at hput
  exact hput

theorem matched_paired {f g : ℕ × Bool → Check (Lists hash σ) Unit}
    (hfg : ∀ node pins, Paired (Related hash K table B pins) (f node) (g node))
    (hg : ∀ x, g (x, false) = pure ()) (res : ℕ) :
    Paired (Related hash K table B pins) (matched true K res (nodeAdd A S K res f))
      (matched false K res (nodeAdd A S K res g)) := by
  intro s t hst
  cases hr : (s.resCache (K.resType res)).holds res with
  | true =>
    refine (nodeAdd_again hst hr hg).congr ?_ rfl
    change (if (true && (s.resCache (K.resType res)).holds res) = true then _ else _ : Check _ Unit) s = _
    rw [hr]
    rfl
  | false =>
    refine (nodeAdd_paired hfg res s t hst).congr ?_ rfl
    change (if (true && (s.resCache (K.resType res)).holds res) = true then _ else _ : Check _ Unit) s = _
    rw [hr]
    rfl

end Adds

end Vmwgfx.ExecbufCacheRuns
