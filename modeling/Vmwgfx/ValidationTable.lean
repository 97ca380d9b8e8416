import Vmwgfx.Validation

set_option autoImplicit false

/-!
# The hash table after a submission

A node goes into the hash table before the reference to its object is taken and onto a list
after it. `vmw_validation_drop_ht` follows the lists.
-/
namespace Vmwgfx.Validation
open HashTable
open ExecbufState (Errno ResType)

variable {hash : ℕ → ℕ} {A : Allocator} {D : Device} {s t u : ValContext hash} {x : ℕ}

def Listed (s : ValContext hash) (x : ℕ) : Prop :=
  x ∈ s.boList ∨ x ∈ s.resourceList ∨ x ∈ s.resourceCtxList

def Clean (s : ValContext hash) : Prop := ∀ b, ∀ i ∈ s.table.table b, i.addr ∉ s.used

/-- A node that is in the table only: its object is doomed when it is seen first. -/
def Strands (s : ValContext hash) : Op → Prop
  | .addBo vbo _ _ mem doomed =>
    mem = true ∧ doomed = true ∧ drmHtFindItem s.table vbo = none
  | .addResource res mem doomed =>
    mem = true ∧ doomed = true ∧ drmHtFindItem s.table res = none
  | .splice => False

instance (s : ValContext hash) (o : Op) : Decidable (Strands s o) := by
  unfold Strands
  cases o <;> infer_instance

/-- What a submission does with its validation context and the shared table. -/
structure Batch where
  mergeDups : Bool
  ops : List Op

/-- A submission up to `vmw_validation_drop_ht`. -/
def runBatch (A : Allocator) (D : Device) (b : Batch) (s : ValContext hash) : ValContext hash :=
  vmwValidationDropHt (runOps A D b.ops (declareValContext true b.mergeDups s))

def AllClean (A : Allocator) (D : Device) : List Batch → ValContext hash → Prop
  | [], _ => True
  | b :: bs, s =>
    Clean (runBatch A D b s) ∧ AllClean A D bs (vmwValidationUnrefLists (runBatch A D b s))

def NoneStrands (A : Allocator) (D : Device) : List Op → ValContext hash → Prop
  | [], _ => True
  | o :: os, s => ¬ Strands s o ∧ NoneStrands A D os (runOp A D o s).2

/-- No submission finds an object doomed when it sees it first. -/
def NeverStrands (A : Allocator) (D : Device) : List Batch → ValContext hash → Prop
  | [], _ => True
  | b :: bs, s => NoneStrands A D b.ops (declareValContext true b.mergeDups s) ∧
      NeverStrands A D bs (vmwValidationUnrefLists (runBatch A D b s))

/-- `t` has a new node `x`, which is in the table. -/
structure NewNode (A : Allocator) (s t : ValContext hash) (key : ℕ) : Prop where
  hasHt : t.hasHt = true
  inserted : drmHtInsertItem s.table ⟨A.alloc s.used, key⟩ = some t.table
  used : t.used = A.alloc s.used :: s.used

/-- What a call can do to a context with a hash table: nothing new, a node that is listed,
    or a node that is not. -/
inductive Effect (A : Allocator) (s : ValContext hash) (o : Op) (t : ValContext hash) : Prop where
  | same (hasHt : t.hasHt = true) (table : t.table = s.table)
      (used : t.used = s.used ∨ t.used = A.alloc s.used :: s.used)
      (listed : ∀ x, Listed t x ↔ Listed s x) (quiet : ¬ Strands s o)
  | linked (key : ℕ) (node : NewNode A s t key)
      (listed : ∀ x, Listed t x ↔ Listed s x ∨ x = A.alloc s.used) (quiet : ¬ Strands s o)
  | stranded (key : ℕ) (node : NewNode A s t key)
      (listed : ∀ x, Listed t x ↔ Listed s x) (strands : Strands s o)

theorem insertNode_some {key node : ℕ} (hht : s.hasHt = true)
    (h : s.insertNode node key = some t) :
    drmHtInsertItem s.table ⟨node, key⟩ = some t.table ∧ t = { s with table := t.table } := by
  simp only [ValContext.insertNode, hht, if_true, Option.map_eq_some_iff] at h
  obtain ⟨ht, hins, rfl⟩ := h
  exact ⟨hins, by rw [hht]⟩

theorem insertNode_none {key node : ℕ} (hht : s.hasHt = true)
    (h : s.insertNode node key = none) : drmHtFindItem s.table key ≠ none := by
  simp only [ValContext.insertNode, hht, if_true, Option.map_eq_none_iff] at h
  exact drmHtInsertItem_eq_none_iff.1 h

theorem addNode_effect {key : ℕ} {mem doomed : Bool} {o : Op}
    {list : ℕ → ValContext hash → ValContext hash} (hht : s.hasHt = true)
    (ho : Strands s o ↔ mem = true ∧ doomed = true ∧ drmHtFindItem s.table key = none)
    (hlist : ∀ (t : ValContext hash) x, (list x t).hasHt = t.hasHt ∧ (list x t).table = t.table ∧
      (list x t).used = t.used ∧ ∀ y, Listed (list x t) y ↔ Listed t y ∨ y = x) :
    Effect A s o (addNode A key mem doomed list s).2 := by
  cases mem with
  | false => exact .same hht rfl (.inl rfl) (fun _ => Iff.rfl) (by rw [ho]; simp)
  | true =>
    simp only [addNode, if_true]
    cases hins : (s.memAlloc A).insertNode (A.alloc s.used) key with
    | none =>
      have hf : drmHtFindItem s.table key ≠ none := insertNode_none (s := s.memAlloc A) hht hins
      exact .same hht rfl (.inr rfl) (fun _ => Iff.rfl) (by rw [ho]; simp [hf])
    | some t =>
      obtain ⟨hins', ht⟩ := insertNode_some (s := s.memAlloc A) hht hins
      have hused : t.used = A.alloc s.used :: s.used := by rw [ht]; rfl
      have hht' : t.hasHt = true := by rw [ht]; exact hht
      have hl : ∀ x, Listed t x ↔ Listed s x := fun x => by rw [ht]; exact Iff.rfl
      cases doomed with
      | true =>
        exact .stranded key ⟨hht', hins', hused⟩ hl (ho.2 ⟨rfl, rfl, free_of_inserted hins'⟩)
      | false =>
        obtain ⟨h1, h2, h3, h4⟩ := hlist t (A.alloc s.used)
        refine .linked key ⟨h1.trans hht', hins'.trans (congrArg some h2.symm), h3.trans hused⟩
          (fun x => ?_) (by rw [ho]; simp)
        exact (h4 x).trans (or_congr_left (hl x))

theorem quiet_of_found {key node : ℕ} {mem doomed : Bool} {o : Op}
    (ho : Strands s o ↔ mem = true ∧ doomed = true ∧ drmHtFindItem s.table key = none)
    (h : drmHtFindItem s.table key = some node) : ¬ Strands s o := by
  rw [ho, h]
  simp

theorem runOp_effect (hht : s.hasHt = true) (o : Op) : Effect A s o (runOp A D o s).2 := by
  cases o with
  | addBo vbo asMob cpuBlit mem doomed =>
    simp only [runOp, vmwValidationAddBo]
    cases hdup : vmwValidationFindBoDup s vbo with
    | some node =>
      have hf : drmHtFindItem s.table vbo = some node := by
        unfold vmwValidationFindBoDup at hdup
        cases hm : s.mergeDups with
        | true => simpa [hm, hht] using hdup
        | false => simp [hm] at hdup
      have hsame : Effect A s (.addBo vbo asMob cpuBlit mem doomed) s :=
        .same hht rfl (.inl rfl) (fun _ => Iff.rfl) (quiet_of_found Iff.rfl hf)
      dsimp only
      split <;> exact hsame
    | none =>
      refine addNode_effect hht Iff.rfl fun t x => ⟨rfl, rfl, rfl, fun y => ?_⟩
      simp only [Listed, ValContext.listBo, List.mem_append, List.mem_singleton]
      tauto
  | addResource res mem doomed =>
    simp only [runOp, vmwValidationAddResource]
    cases hdup : vmwValidationFindResDup s res with
    | some node =>
      have hf : drmHtFindItem s.table res = some node := by
        unfold vmwValidationFindResDup at hdup
        cases hm : s.mergeDups with
        | true => simpa [hm, hht] using hdup
        | false => simp [hm] at hdup
      exact .same hht rfl (.inl rfl) (fun _ => Iff.rfl) (quiet_of_found Iff.rfl hf)
    | none =>
      refine addNode_effect hht Iff.rfl fun t x => ?_
      unfold ValContext.listRes
      by_cases hm : D.hasMob = true
      · cases htype : D.resType res <;>
          refine ⟨by simp [hm], by simp [hm], by simp [hm], fun y => ?_⟩ <;>
          simp [hm, Listed] <;> tauto
      · refine ⟨by simp [hm], by simp [hm], by simp [hm], fun y => ?_⟩
        simp [hm, Listed]
        tauto
  | splice =>
    refine .same hht rfl (.inl rfl) (fun x => ?_) not_false
    simp only [runOp, Listed, ValContext.splice, List.mem_append, List.not_mem_nil, or_false]
    tauto

def InTable (s : ValContext hash) (x : ℕ) : Prop := ∃ b, ∃ i ∈ s.table.table b, i.addr = x

theorem inTable_iff : InTable s x ↔ ∃ k, drmHtFindItem s.table k = some x := by
  constructor
  · rintro ⟨b, i, hi, rfl⟩
    obtain rfl := s.table.hashed b i hi
    exact ⟨i.key, drmHtFindItem_iff.2 hi⟩
  · rintro ⟨k, hk⟩
    exact ⟨hash k, _, drmHtFindItem_iff.1 hk, rfl⟩

theorem clean_iff : Clean s ↔ ∀ x, InTable s x → x ∉ s.used :=
  ⟨fun h _ ⟨b, i, hi, he⟩ => he ▸ h b i hi, fun h b i hi => h _ ⟨b, i, hi, rfl⟩⟩

theorem NewNode.inTable {key : ℕ} (h : NewNode A s t key) (x : ℕ) :
    InTable t x ↔ InTable s x ∨ x = A.alloc s.used := by
  simp only [inTable_iff, drmHtFindItem_insert h.inserted]
  constructor
  · rintro ⟨k, hk⟩
    by_cases hkey : k = key
    · rw [if_pos hkey, Option.some.injEq] at hk
      exact .inr hk.symm
    · rw [if_neg hkey] at hk
      exact .inl ⟨k, hk⟩
  · rintro (⟨k, hk⟩ | rfl)
    · refine ⟨k, ?_⟩
      rw [if_neg, hk]
      rintro rfl
      rw [free_of_inserted h.inserted] at hk
      cases hk
    · exact ⟨key, if_pos rfl⟩

/-- During a submission that started with an empty table. -/
structure During (s : ValContext hash) : Prop where
  hasHt : s.hasHt = true
  listed : ∀ x, Listed s x → x ∈ s.used
  inTable : ∀ x, InTable s x → x ∈ s.used

def Stranded (s : ValContext hash) (x : ℕ) : Prop := InTable s x ∧ ¬ Listed s x

theorem During.declare (hs : ∀ x, ¬ InTable s x) (mergeDups : Bool) :
    During (declareValContext true mergeDups s) where
  hasHt := rfl
  listed x h := by simp [Listed, declareValContext] at h
  inTable x h := absurd h (hs x)

theorem During.runOp (hs : During s) (o : Op) : During (runOp A D o s).2 := by
  rcases runOp_effect (A := A) (D := D) hs.hasHt o with ⟨hht, htable, hused, hl, -⟩ |
    ⟨key, hn, hl, -⟩ | ⟨key, hn, hl, -⟩
  · have hsub : ∀ x, x ∈ s.used → x ∈ (Validation.runOp A D o s).2.used := fun x hx => by
      rcases hused with h | h <;> rw [h]
      · exact hx
      · exact List.mem_cons_of_mem _ hx
    refine ⟨hht, fun x h => hsub x (hs.listed x ((hl x).1 h)), fun x h => hsub x (hs.inTable x ?_)⟩
    simpa only [InTable, htable] using h
  · refine ⟨hn.hasHt, fun x h => ?_, fun x h => ?_⟩ <;> rw [hn.used]
    · rcases (hl x).1 h with h | rfl
      · exact List.mem_cons_of_mem _ (hs.listed x h)
      · exact List.mem_cons_self
    · rcases (hn.inTable x).1 h with h | rfl
      · exact List.mem_cons_of_mem _ (hs.inTable x h)
      · exact List.mem_cons_self
  · refine ⟨hn.hasHt, fun x h => ?_, fun x h => ?_⟩ <;> rw [hn.used]
    · exact List.mem_cons_of_mem _ (hs.listed x ((hl x).1 h))
    · rcases (hn.inTable x).1 h with h | rfl
      · exact List.mem_cons_of_mem _ (hs.inTable x h)
      · exact List.mem_cons_self

theorem stranded_runOp (hs : During s) (o : Op) :
    (∃ x, Stranded (runOp A D o s).2 x) ↔ (∃ x, Stranded s x) ∨ Strands s o := by
  have hold : ∀ {x}, Stranded s x → x ≠ A.alloc s.used := by
    rintro x ⟨hx, -⟩ rfl
    exact A.fresh _ (hs.inTable _ hx)
  rcases runOp_effect (A := A) (D := D) hs.hasHt o with ⟨-, htable, -, hl, hq⟩ |
    ⟨key, hn, hl, hq⟩ | ⟨key, hn, hl, hq⟩
  · simp only [Stranded, InTable, htable, hl, hq, or_false]
  · simp only [hq, or_false, Stranded, hl, hn.inTable]
    constructor
    · rintro ⟨x, hx | hx, hnot⟩
      · exact ⟨x, hx, fun h => hnot (.inl h)⟩
      · exact absurd (.inr hx) hnot
    · rintro ⟨x, hx, hnot⟩
      exact ⟨x, .inl hx, fun h => h.elim hnot (hold ⟨hx, hnot⟩)⟩
  · refine iff_of_true ⟨A.alloc s.used, (hn.inTable _).2 (.inr rfl), ?_⟩ (.inr hq)
    rw [hl]
    exact fun h => A.fresh _ (hs.listed _ h)

theorem stranded_runOps (os : List Op) : ∀ s : ValContext hash, During s →
    During (runOps A D os s) ∧ ((∃ x, Stranded (runOps A D os s) x) ↔
      (∃ x, Stranded s x) ∨ ¬ NoneStrands A D os s) := by
  induction os with
  | nil => exact fun s hs => ⟨hs, by simp [runOps, NoneStrands]⟩
  | cons o os ih =>
    intro s hs
    obtain ⟨hd, hiff⟩ := ih (runOp A D o s).2 (hs.runOp o)
    refine ⟨hd, hiff.trans ?_⟩
    rw [stranded_runOp hs, NoneStrands]
    tauto

theorem removeAll_table (l : List ℕ) (ht : OpenHash hash ℕ) (b : ℕ) (i : Item ℕ ℕ) :
    i ∈ (l.foldl drmHtRemoveItem ht).table b ↔ i ∈ ht.table b ∧ i.addr ∉ l := by
  induction l generalizing ht with
  | nil => simp
  | cons a l ih =>
    rw [List.foldl_cons, ih]
    simp only [drmHtRemoveItem, List.mem_filter, decide_eq_true_eq, List.mem_cons, not_or]
    tauto

theorem inTable_dropHt (hht : s.hasHt = true) (x : ℕ) :
    InTable (vmwValidationDropHt s) x ↔ Stranded s x := by
  simp only [vmwValidationDropHt, hht, if_true, InTable, removeAll_table, Stranded, Listed,
    List.mem_append, not_or]
  constructor
  · rintro ⟨b, i, ⟨hi, hl⟩, rfl⟩
    exact ⟨⟨b, i, hi, rfl⟩, hl.1.1, hl.1.2, hl.2⟩
  · rintro ⟨⟨b, i, hi, rfl⟩, h1, h2, h3⟩
    exact ⟨b, i, ⟨hi, ⟨h1, h2⟩, h3⟩, rfl⟩

theorem runBatch_spec (hs : ∀ x, ¬ InTable s x) (b : Batch) :
    (Clean (runBatch A D b s) ↔ NoneStrands A D b.ops (declareValContext true b.mergeDups s)) ∧
    (NoneStrands A D b.ops (declareValContext true b.mergeDups s) →
      ∀ x, ¬ InTable (vmwValidationUnrefLists (runBatch A D b s)) x) := by
  have hd := During.declare hs b.mergeDups
  obtain ⟨hend, hiff⟩ := stranded_runOps (A := A) (D := D) b.ops _ hd
  have hstart : ¬ ∃ x, Stranded (declareValContext true b.mergeDups s) x :=
    fun ⟨x, hx⟩ => hs x hx.1
  have hused : (runBatch A D b s).used =
      (runOps A D b.ops (declareValContext true b.mergeDups s)).used := by
    rw [runBatch, vmwValidationDropHt, if_pos hend.hasHt]
  have hin : ∀ x, InTable (runBatch A D b s) x ↔
      Stranded (runOps A D b.ops (declareValContext true b.mergeDups s)) x :=
    inTable_dropHt hend.hasHt
  have hnone : (¬ ∃ x, InTable (runBatch A D b s) x) ↔
      NoneStrands A D b.ops (declareValContext true b.mergeDups s) := by
    simp only [hin, hiff, hstart, false_or, not_not]
  refine ⟨?_, fun h x hx => hnone.2 h ⟨x, hx⟩⟩
  rw [← hnone, clean_iff, hused]
  constructor
  · rintro hc ⟨x, hx⟩
    exact hc x hx (hend.inTable x ((hin x).1 hx).1)
  · exact fun h x hx => absurd ⟨x, hx⟩ h

/-- Submissions that share a hash table, from its creation on. -/
theorem allClean_iff (bs : List Batch) :
    AllClean A D bs (unused hash) ↔ NeverStrands A D bs (unused hash) := by
  have hstart : ∀ x, ¬ InTable (unused hash) x := by
    rintro x ⟨b, i, hi, -⟩
    cases hi
  generalize unused hash = s at hstart
  induction bs generalizing s with
  | nil => exact Iff.rfl
  | cons b bs ih =>
    obtain ⟨hclean, hempty⟩ := runBatch_spec (A := A) (D := D) hstart b
    rw [AllClean, NeverStrands, hclean]
    exact and_congr_right fun h => ih _ (hempty h)

/-- A doomed buffer object is looked up. -/
theorem doomed_stranded : ¬ AllClean .next ⟨true, fun _ => .surface⟩
    [⟨true, [.addBo 4096 false false true true]⟩] (unused (· % 256)) := by
  intro h
  have hitem : (⟨1, 4096⟩ : Item ℕ ℕ) ∈ (runBatch .next ⟨true, fun _ => .surface⟩
      ⟨true, [.addBo 4096 false false true true]⟩ (unused (· % 256))).table.table 0 := by
    decide +kernel
  exact h.1 0 _ hitem (by decide +kernel)

end Vmwgfx.Validation
