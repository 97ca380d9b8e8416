import Mathlib.Tactic

set_option autoImplicit false

/-!
# Open hash tables

`drm_hashtab.c`: chains of items in the order of their keys. The items are allocated by the
user of the table and are named by their addresses; `hash_long` is a parameter. An item
that is linked already is never inserted again by the users of the tables.
-/
namespace Vmwgfx.HashTable

variable {ι κ β : Type} [LinearOrder κ]

/-- `struct drm_hash_item`: the address of the item and its key. -/
structure Item (ι κ : Type) where
  addr : ι
  key : κ
  deriving DecidableEq, Repr

def Ascending (chain : List (Item ι κ)) : Prop := chain.Pairwise fun i j => i.key < j.key

/-- The loop of `drm_ht_find_key`. -/
def findKey (key : κ) : List (Item ι κ) → Option ι
  | [] => none
  | entry :: chain =>
    if entry.key = key then some entry.addr
    else if key < entry.key then none
    else findKey key chain

/-- The loop of `drm_ht_insert_item`; nothing for `-EINVAL`. -/
def insertItem (item : Item ι κ) : List (Item ι κ) → Option (List (Item ι κ))
  | [] => some [item]
  | entry :: chain =>
    if entry.key = item.key then none
    else if item.key < entry.key then some (item :: entry :: chain)
    else (insertItem item chain).map (entry :: ·)

section Chains
variable {chain chain' : List (Item ι κ)} {item : Item ι κ} {key : κ} {addr : ι}

theorem findKey_iff (h : Ascending chain) :
    findKey key chain = some addr ↔ ⟨addr, key⟩ ∈ chain := by
  induction chain with
  | nil => simp [findKey]
  | cons entry chain ih =>
    obtain ⟨hhead, htail⟩ := List.pairwise_cons.1 h
    simp only [findKey, List.mem_cons]
    by_cases heq : entry.key = key
    · subst heq
      have hnot : (⟨addr, entry.key⟩ : Item ι κ) ∉ chain := fun hm => (hhead _ hm).ne rfl
      cases entry
      simp_all [eq_comm]
    · have hne : (⟨addr, key⟩ : Item ι κ) ≠ entry := fun he => heq (he ▸ rfl)
      simp only [heq, if_false, hne, false_or]
      by_cases hlt : key < entry.key
      · have hnot : (⟨addr, key⟩ : Item ι κ) ∉ chain :=
          fun hm => (hlt.trans (hhead _ hm)).ne rfl
        simp [hlt, hnot]
      · simpa [hlt] using ih htail

theorem insertItem_eq_none_iff (h : Ascending chain) :
    insertItem item chain = none ↔ ∃ i ∈ chain, i.key = item.key := by
  induction chain with
  | nil => simp [insertItem]
  | cons entry chain ih =>
    obtain ⟨hhead, htail⟩ := List.pairwise_cons.1 h
    simp only [insertItem, List.mem_cons, exists_eq_or_imp]
    by_cases heq : entry.key = item.key
    · simp [heq]
    · simp only [heq, if_false, false_or]
      by_cases hlt : item.key < entry.key
      · have hnot : ¬ ∃ i ∈ chain, i.key = item.key := fun ⟨i, hi, he⟩ =>
          (hlt.trans (hhead i hi)).ne he.symm
        simp [hlt, hnot]
      · simpa [hlt] using ih htail

theorem insertItem_mem (h : insertItem item chain = some chain') (i : Item ι κ) :
    i ∈ chain' ↔ i = item ∨ i ∈ chain := by
  induction chain generalizing chain' with
  | nil =>
    simp only [insertItem, Option.some.injEq] at h
    simp [← h]
  | cons entry chain ih =>
    simp only [insertItem] at h
    by_cases heq : entry.key = item.key
    · simp [heq] at h
    · by_cases hlt : item.key < entry.key
      · simp only [heq, hlt, if_false, if_true, Option.some.injEq] at h
        simp [← h]
      · simp only [heq, hlt, if_false, Option.map_eq_some_iff] at h
        obtain ⟨rest, hrest, rfl⟩ := h
        simp only [List.mem_cons, ih hrest]
        exact or_left_comm

theorem insertItem_ascending (hc : Ascending chain) (h : insertItem item chain = some chain') :
    Ascending chain' := by
  induction chain generalizing chain' with
  | nil =>
    simp only [insertItem, Option.some.injEq] at h
    subst h
    exact List.pairwise_singleton _ _
  | cons entry chain ih =>
    obtain ⟨hhead, htail⟩ := List.pairwise_cons.1 hc
    simp only [insertItem] at h
    by_cases heq : entry.key = item.key
    · simp [heq] at h
    · by_cases hlt : item.key < entry.key
      · simp only [heq, hlt, if_false, if_true, Option.some.injEq] at h
        subst h
        refine List.pairwise_cons.2 ⟨fun i hi => ?_, hc⟩
        rcases List.mem_cons.1 hi with rfl | hi
        · exact hlt
        · exact hlt.trans (hhead i hi)
      · simp only [heq, hlt, if_false, Option.map_eq_some_iff] at h
        obtain ⟨rest, hrest, rfl⟩ := h
        refine List.pairwise_cons.2 ⟨fun i hi => ?_, ih htail hrest⟩
        rcases (insertItem_mem hrest i).1 hi with rfl | hi
        · exact lt_of_le_of_ne (not_lt.1 hlt) heq
        · exact hhead i hi

end Chains

/-- `struct drm_open_hash`: every chain is in order and holds keys of its own bucket. -/
structure OpenHash (hash : κ → β) (ι : Type) where
  table : β → List (Item ι κ)
  ascending : ∀ b, Ascending (table b)
  hashed : ∀ b, ∀ i ∈ table b, hash i.key = b

variable {hash : κ → β}

def drmHtCreate (hash : κ → β) (ι : Type) : OpenHash hash ι where
  table _ := []
  ascending _ := List.Pairwise.nil
  hashed _ _ h := absurd h List.not_mem_nil

/-- `drm_ht_find_item`: the address of the item with a key. -/
def drmHtFindItem (ht : OpenHash hash ι) (key : κ) : Option ι :=
  findKey key (ht.table (hash key))

section Lookups
variable {ht : OpenHash hash ι} {item : Item ι κ} {key : κ} {addr : ι}

theorem drmHtFindItem_iff :
    drmHtFindItem ht key = some addr ↔ ⟨addr, key⟩ ∈ ht.table (hash key) :=
  findKey_iff (ht.ascending _)

@[simp] theorem drmHtFindItem_create : drmHtFindItem (drmHtCreate hash ι) key = none := rfl

theorem inserted_hashed {chain : List (Item ι κ)}
    (h : insertItem item (ht.table (hash item.key)) = some chain) :
    ∀ i ∈ chain, hash i.key = hash item.key := fun i hi => by
  rcases (insertItem_mem h i).1 hi with rfl | hi
  · rfl
  · exact ht.hashed _ i hi

end Lookups

def OpenHash.setChain [DecidableEq β] (ht : OpenHash hash ι) (b : β) (chain : List (Item ι κ))
    (hc : Ascending chain) (hh : ∀ i ∈ chain, hash i.key = b) : OpenHash hash ι where
  table b' := if b' = b then chain else ht.table b'
  ascending b' := by
    by_cases h : b' = b
    · simpa [h] using hc
    · simpa [h] using ht.ascending b'
  hashed b' i hi := by
    by_cases h : b' = b
    · rw [if_pos h] at hi
      rw [hh i hi, h]
    · rw [if_neg h] at hi
      exact ht.hashed b' i hi

/-- `drm_ht_insert_item`; nothing for `-EINVAL`. -/
def drmHtInsertItem [DecidableEq β] (ht : OpenHash hash ι) (item : Item ι κ) : Option (OpenHash hash ι) :=
  match h : insertItem item (ht.table (hash item.key)) with
  | none => none
  | some chain => some (ht.setChain (hash item.key) chain
      (insertItem_ascending (ht.ascending _) h) (inserted_hashed h))

/-- `drm_ht_remove_item`: `hlist_del_init_rcu` unlinks the item, if it is linked. -/
def drmHtRemoveItem [DecidableEq ι] (ht : OpenHash hash ι) (addr : ι) : OpenHash hash ι where
  table b := (ht.table b).filter (·.addr ≠ addr)
  ascending b := (ht.ascending b).filter _
  hashed b i hi := ht.hashed b i (List.mem_filter.1 hi).1

section Tables
variable {ht ht' : OpenHash hash ι} {item : Item ι κ} {key : κ} {addr : ι}

theorem drmHtInsertItem_eq_none_iff [DecidableEq β] :
    drmHtInsertItem ht item = none ↔ drmHtFindItem ht item.key ≠ none := by
  have hkey : (∃ i ∈ ht.table (hash item.key), i.key = item.key) ↔
      drmHtFindItem ht item.key ≠ none := by
    rw [Option.ne_none_iff_exists']
    constructor
    · rintro ⟨i, hi, he⟩
      exact ⟨i.addr, drmHtFindItem_iff.2 (by rw [← he] at hi ⊢; exact hi)⟩
    · rintro ⟨addr, h⟩
      exact ⟨⟨addr, item.key⟩, drmHtFindItem_iff.1 h, rfl⟩
  rw [← hkey, ← insertItem_eq_none_iff (ht.ascending _)]
  unfold drmHtInsertItem
  split <;> simp_all

theorem free_of_inserted [DecidableEq β] (h : drmHtInsertItem ht item = some ht') :
    drmHtFindItem ht item.key = none := by
  by_contra hused
  rw [drmHtInsertItem_eq_none_iff.2 hused] at h
  cases h

theorem drmHtFindItem_insert [DecidableEq β] (h : drmHtInsertItem ht item = some ht') (key : κ) :
    drmHtFindItem ht' key = if key = item.key then some item.addr else drmHtFindItem ht key := by
  have hnone := free_of_inserted h
  unfold drmHtInsertItem at h
  split at h
  · cases h
  · rename_i chain hchain
    simp only [Option.some.injEq] at h
    subst h
    ext addr
    rw [drmHtFindItem_iff]
    by_cases hb : hash key = hash item.key
    · have hmem : (⟨addr, key⟩ : Item ι κ) ∈ chain ↔
          (⟨addr, key⟩ : Item ι κ) = item ∨ drmHtFindItem ht key = some addr := by
        rw [insertItem_mem hchain, drmHtFindItem_iff, hb]
      simp only [OpenHash.setChain, hb, if_true, hmem]
      by_cases hk : key = item.key
      · subst hk
        simp only [hnone, reduceCtorEq, or_false, if_true, Option.some.injEq]
        exact ⟨fun he => congrArg Item.addr he.symm, fun he => he ▸ rfl⟩
      · have hne : (⟨addr, key⟩ : Item ι κ) ≠ item := fun he => hk (he ▸ rfl)
        simp [hk, hne]
    · have hk : key ≠ item.key := fun he => hb (he ▸ rfl)
      simp only [OpenHash.setChain, hb, if_false, hk, drmHtFindItem_iff]

theorem drmHtFindItem_insert_iff [DecidableEq β] (h : drmHtInsertItem ht item = some ht') :
    drmHtFindItem ht' key = some addr ↔
      key = item.key ∧ addr = item.addr ∨ drmHtFindItem ht key = some addr := by
  rw [drmHtFindItem_insert h]
  by_cases hk : key = item.key
  · rw [if_pos hk, hk, free_of_inserted h, Option.some.injEq]
    simp [eq_comm]
  · simp [hk]

theorem drmHtFindItem_remove [DecidableEq ι] (addr : ι) (key : κ) :
    drmHtFindItem (drmHtRemoveItem ht addr) key =
      if drmHtFindItem ht key = some addr then none else drmHtFindItem ht key := by
  ext other
  rw [drmHtFindItem_iff]
  simp only [drmHtRemoveItem, List.mem_filter, ← drmHtFindItem_iff, decide_eq_true_eq]
  by_cases h : drmHtFindItem ht key = some addr
  · simp only [h, if_true, Option.some.injEq, reduceCtorEq, iff_false, not_and, not_not]
    exact fun he => he.symm
  · simp only [h, if_false, and_iff_left_iff_imp]
    rintro h' rfl
    exact h h'

end Tables

/-- An allocator: it is told which addresses are in use and gives another one. -/
structure Allocator where
  alloc : List ℕ → ℕ
  fresh : ∀ used, alloc used ∉ used

def Allocator.next : Allocator where
  alloc used := used.foldr max 0 + 1
  fresh used h := by
    have hle : ∀ (l : List ℕ) (a : ℕ), a ∈ l → a ≤ l.foldr max 0 := by
      intro l a ha
      induction l with
      | nil => simp at ha
      | cons b l ih =>
        rcases List.mem_cons.1 ha with rfl | ha
        · exact le_max_left _ _
        · exact (ih ha).trans (le_max_right _ _)
    have := hle _ _ h
    omega

end Vmwgfx.HashTable
