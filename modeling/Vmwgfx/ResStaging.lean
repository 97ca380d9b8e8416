import Vmwgfx.ResManager

set_option autoImplicit false

/-!
# Staging lists in every run

An entry is found in the table of its manager while it is staged for addition; it leaves
the table when it is staged for removal. A committed entry can be missing from its table,
since reverting a batch can leave it out.
-/
namespace Vmwgfx.ResManager
open HashTable LabelledRuns FailingState
open ExecbufState (Errno Stop)

variable {hash : ℕ → ℕ} {A : Allocator} {s t : Managers hash} {a b m k : ℕ}

def SameKey (s : Managers hash) (a b : ℕ) : Prop :=
  (s.entry a).man = (s.entry b).man ∧ (s.entry a).key = (s.entry b).key

structure Wf (s : Managers hash) : Prop where
  found : ∀ {m k a}, s.found m k = some a → (s.entry a).man = m ∧ (s.entry a).key = k ∧
    (a ∈ s.list m ∨ a ∈ s.staged ∧ (s.entry a).state = .add)
  listed : ∀ {m a}, a ∈ s.list m →
    (s.entry a).man = m ∧ (s.entry a).state = .committed ∧ a ∈ s.used
  staged : ∀ {a}, a ∈ s.staged → (s.entry a).state ≠ .committed ∧ a ∈ s.used
  added : ∀ {a}, a ∈ s.staged → (s.entry a).state = .add →
    s.found (s.entry a).man (s.entry a).key = some a
  /-- The key of an entry that is staged for removal is free or newly taken. -/
  vacated : ∀ {a b}, a ∈ s.staged → (s.entry a).state = .del →
    s.found (s.entry a).man (s.entry a).key = some b → (s.entry b).state = .add
  /-- For each key there is at most a removal and after it an addition. -/
  ordered : s.staged.Pairwise fun a b => SameKey s a b →
    (s.entry a).state = .del ∧ (s.entry b).state = .add
  listNodup : ∀ m, (s.list m).Nodup
  stagedNodup : s.staged.Nodup

theorem Wf.created : Wf (created hash) where
  found h := by simp [Managers.found, ResManager.created] at h
  listed h := by simp [ResManager.created] at h
  staged h := by simp [ResManager.created] at h
  added h := by simp [ResManager.created] at h
  vacated h := by simp [ResManager.created] at h
  ordered := List.Pairwise.nil
  listNodup _ := List.nodup_nil
  stagedNodup := List.nodup_nil

theorem found_setTable (ht : OpenHash hash ℕ) :
    (s.setTable m ht).found = Function.update s.found m (drmHtFindItem ht) := by
  funext m' k
  by_cases h : m' = m
  · subst h
    simp [Managers.found, Managers.setTable]
  · simp [Managers.found, Managers.setTable, Function.update_of_ne h]

@[simp] theorem found_listDel : (s.listDel a).found = s.found := rfl
@[simp] theorem found_unreference : (s.unreference a).found = s.found := rfl
@[simp] theorem found_kfree : (s.kfree a).found = s.found := rfl
@[simp] theorem found_settle : (s.settle a).found = s.found := rfl

theorem found_removeItem (hs : Wf s) (m' : ℕ) :
    Function.update s.found (s.entry a).man
      (drmHtFindItem (drmHtRemoveItem (s.resources (s.entry a).man) a)) m' k =
    if s.found m' k = some a then none else s.found m' k := by
  by_cases h : m' = (s.entry a).man
  · subst h
    rw [Function.update_self, drmHtFindItem_remove]
    rfl
  · rw [Function.update_of_ne h, if_neg]
    intro hf
    exact h (hs.found hf).1.symm

theorem found_free (hs : Wf s) :
    (vmwCmdbufResFree (s.entry a).man a s).found m k =
      if s.found m k = some a then none else s.found m k := by
  change (Managers.setTable _ _ _).found m k = _
  rw [found_setTable]
  exact found_removeItem hs m

theorem found_stageRemove (hs : Wf s) :
    (s.stageRemove (s.entry a).man a).found m k =
      if s.found m k = some a then none else s.found m k := by
  change (Managers.setTable _ _ _).found m k = _
  rw [found_setTable]
  exact found_removeItem hs m

theorem found_stageAdd {man key res cres : ℕ} {ht : OpenHash hash ℕ}
    (h : drmHtInsertItem (s.resources man) ⟨cres, key⟩ = some ht) :
    (s.stageAdd cres man key res ht).found m k =
      if m = man ∧ k = key then some cres else s.found m k := by
  change (Managers.setTable man ht s).found m k = _
  rw [found_setTable]
  by_cases hm : m = man
  · subst hm
    rw [Function.update_self, drmHtFindItem_insert h]
    simp only [true_and]
    rfl
  · rw [Function.update_of_ne hm, if_neg fun hc => hm hc.1]

theorem found_of_inserted {man key cres : ℕ} {ht : OpenHash hash ℕ}
    (h : drmHtInsertItem (s.resources man) ⟨cres, key⟩ = some ht) : s.found man key = none :=
  free_of_inserted h

theorem found_putBack :
    (s.putBack a).found m k =
      if m = (s.entry a).man ∧ k = (s.entry a).key then some ((s.found m k).getD a)
      else s.found m k := by
  cases h : drmHtInsertItem (s.resources (s.entry a).man) ⟨a, (s.entry a).key⟩ with
  | none =>
    simp only [Managers.putBack, h, found_settle, found_listDel]
    split
    · rename_i hc
      obtain ⟨rfl, rfl⟩ := hc
      obtain ⟨b, hb⟩ := Option.ne_none_iff_exists'.1 (drmHtInsertItem_eq_none_iff.1 h)
      change s.found _ _ = some b at hb
      rw [hb]
      rfl
    · rfl
  | some ht =>
    simp only [Managers.putBack, h, found_settle, found_listDel]
    rw [found_setTable]
    by_cases hm : m = (s.entry a).man
    · subst hm
      rw [Function.update_self, drmHtFindItem_insert h]
      simp only [true_and]
      split
      · rename_i hk
        subst hk
        rw [found_of_inserted h]
        rfl
      · rfl
    · rw [Function.update_of_ne hm, if_neg fun hc => hm hc.1]

theorem call_cases (hs : Wf s) (c : Call) :
    (∃ e, call A c s = (.error (.errno e), s)) ∨
    (∃ e, call A c s = (.error (.errno e), { s with used := A.alloc s.used :: s.used })) ∨
    (∃ man resType userKey res ht, c = .add man resType userKey res true ∧
      s.found man c.key = none ∧
      drmHtInsertItem (s.resources man) ⟨A.alloc s.used, c.key⟩ = some ht ∧
      call A c s = (.ok none, s.stageAdd (A.alloc s.used) man c.key res ht)) ∨
    (∃ man resType userKey a, c = .remove man resType userKey ∧
      s.found man c.key = some a ∧ a ∈ s.staged ∧ (s.entry a).state = .add ∧
      call A c s = (.ok none, vmwCmdbufResFree man a s)) ∨
    (∃ man resType userKey a, c = .remove man resType userKey ∧
      s.found man c.key = some a ∧ a ∈ s.list man ∧
      call A c s = (.ok (some (s.entry a).res), s.stageRemove man a)) := by
  cases c with
  | add man resType userKey res mem =>
    cases mem with
    | false => exact .inl ⟨.enomem, rfl⟩
    | true =>
      simp only [call, vmwCmdbufResAdd, if_true]
      cases h : drmHtInsertItem (s.resources man) ⟨A.alloc s.used, resKey resType userKey⟩ with
      | none => exact .inr (.inl ⟨.einval, rfl⟩)
      | some ht =>
        exact .inr (.inr (.inl ⟨man, resType, userKey, res, ht, rfl, found_of_inserted h, h, rfl⟩))
  | remove man resType userKey =>
    simp only [call, vmwCmdbufResRemove, Call.key]
    cases h : s.found man (resKey resType userKey) with
    | none => exact .inl ⟨.einval, rfl⟩
    | some a =>
      obtain ⟨-, -, hl | ⟨hst, hadd⟩⟩ := hs.found h
      · refine .inr (.inr (.inr (.inr ⟨man, resType, userKey, a, rfl, h, hl, ?_⟩)))
        simp only [(hs.listed hl).2.1]
      · refine .inr (.inr (.inr (.inl ⟨man, resType, userKey, a, rfl, h, hst, hadd, ?_⟩)))
        simp only [hadd]

section Changes
variable {cres man key res : ℕ} {ht : OpenHash hash ℕ}

theorem mem_staged_stageAdd :
    b ∈ (s.stageAdd cres man key res ht).staged ↔ b ∈ s.staged ∨ b = cres := by
  change b ∈ s.staged ++ [cres] ↔ _
  simp

theorem entry_stageAdd_new :
    (s.stageAdd cres man key res ht).entry cres = ⟨res, key, .add, man⟩ :=
  Function.update_self _ _ _

theorem entry_stageAdd_used (hc : cres ∉ s.used) (hb : b ∈ s.used) :
    (s.stageAdd cres man key res ht).entry b = s.entry b :=
  Function.update_of_ne (fun he => hc (by rw [← he]; exact hb)) _ _

theorem mem_staged_free : b ∈ (vmwCmdbufResFree m a s).staged ↔ b ∈ s.staged ∧ b ≠ a := by
  change b ∈ s.staged.filter _ ↔ _
  simp

theorem mem_list_free {n : ℕ} :
    b ∈ (vmwCmdbufResFree m a s).list n ↔ b ∈ s.list n ∧ b ≠ a := by
  change b ∈ (s.list n).filter _ ↔ _
  simp

theorem found_free_iff (hs : Wf s) :
    (vmwCmdbufResFree (s.entry a).man a s).found m k = some b ↔ s.found m k = some b ∧ b ≠ a := by
  rw [found_free hs]
  by_cases hf : s.found m k = some a
  · simp [hf, eq_comm]
  · rw [if_neg hf]
    exact ⟨fun h => ⟨h, fun he => hf (he ▸ h)⟩, And.left⟩

theorem mem_staged_stageRemove : b ∈ (s.stageRemove m a).staged ↔ b ∈ s.staged ∨ b = a := by
  change b ∈ s.staged.filter _ ++ [a] ↔ _
  by_cases hb : b = a <;> simp [hb]

theorem mem_list_stageRemove {n : ℕ} :
    b ∈ (s.stageRemove m a).list n ↔ b ∈ s.list n ∧ b ≠ a := by
  change b ∈ (s.list n).filter _ ↔ _
  simp

theorem entry_stageRemove_self :
    (s.stageRemove m a).entry a = { s.entry a with state := .del } := Function.update_self _ _ _

theorem entry_stageRemove_of_ne (hb : b ≠ a) : (s.stageRemove m a).entry b = s.entry b :=
  Function.update_of_ne hb _ _

theorem found_stageRemove_iff (hs : Wf s) :
    (s.stageRemove (s.entry a).man a).found m k = some b ↔ s.found m k = some b ∧ b ≠ a := by
  rw [found_stageRemove hs]
  by_cases hf : s.found m k = some a
  · simp [hf, eq_comm]
  · rw [if_neg hf]
    exact ⟨fun h => ⟨h, fun he => hf (he ▸ h)⟩, And.left⟩

end Changes

theorem Wf.used (hs : Wf s) (h : s.found m k = some a) : a ∈ s.used := by
  obtain ⟨-, -, hl | ⟨hst, -⟩⟩ := hs.found h
  · exact (hs.listed hl).2.2
  · exact (hs.staged hst).2

theorem Wf.not_listed (hs : Wf s) (ha : a ∈ s.staged) : a ∉ s.list m := fun hl =>
  (hs.staged ha).1 (hs.listed hl).2.1

theorem Wf.leak (hs : Wf s) (u : ℕ) : Wf { s with used := u :: s.used } where
  found := hs.found
  listed h :=
    ⟨(hs.listed h).1, (hs.listed h).2.1, List.mem_cons_of_mem _ (hs.listed h).2.2⟩
  staged h := ⟨(hs.staged h).1, List.mem_cons_of_mem _ (hs.staged h).2⟩
  added := hs.added
  vacated := hs.vacated
  ordered := hs.ordered
  listNodup := hs.listNodup
  stagedNodup := hs.stagedNodup

theorem Wf.del_of_free (hs : Wf s) (ha : a ∈ s.staged)
    (hfree : s.found (s.entry a).man (s.entry a).key = none) : (s.entry a).state = .del := by
  cases hst : (s.entry a).state with
  | committed => exact absurd hst (hs.staged ha).1
  | del => rfl
  | add =>
    rw [hs.added ha hst] at hfree
    cases hfree

theorem Wf.not_sameKey (hs : Wf s) (hb : b ∈ s.staged) (hcom : (s.entry a).state = .committed)
    (hf : s.found (s.entry a).man (s.entry a).key = some a) : ¬ SameKey s b a := by
  rintro ⟨hm, hk⟩
  rw [← hm, ← hk] at hf
  cases hst : (s.entry b).state with
  | committed => exact (hs.staged hb).1 hst
  | add =>
    have hfb := hs.added hb hst
    rw [hf, Option.some.injEq] at hfb
    rw [hfb, hst] at hcom
    cases hcom
  | del =>
    have hadd := hs.vacated hb hst hf
    rw [hcom] at hadd
    cases hadd

theorem Wf.stageAdd (hs : Wf s) {cres man key res : ℕ} {ht : OpenHash hash ℕ}
    (hc : cres ∉ s.used) (h : drmHtInsertItem (s.resources man) ⟨cres, key⟩ = some ht) :
    Wf (s.stageAdd cres man key res ht) := by
  have hfree := found_of_inserted h
  refine ⟨fun {m k a} hf => ?_, fun {m a} hl => ?_, fun {a} ha => ?_, fun {a} ha hadd => ?_,
    fun {a b} ha hdel hf => ?_, ?_, hs.listNodup, ?_⟩
  · rw [found_stageAdd h] at hf
    by_cases hk : m = man ∧ k = key
    · rw [if_pos hk, Option.some.injEq] at hf
      subst hf
      rw [entry_stageAdd_new]
      exact ⟨hk.1.symm, hk.2.symm, .inr ⟨mem_staged_stageAdd.2 (.inr rfl), rfl⟩⟩
    · rw [if_neg hk] at hf
      obtain ⟨hm, hkey, hin⟩ := hs.found hf
      rw [entry_stageAdd_used hc (hs.used hf)]
      exact ⟨hm, hkey, hin.imp id fun hin => ⟨mem_staged_stageAdd.2 (.inl hin.1), hin.2⟩⟩
  · obtain ⟨hm, hst, hu⟩ := hs.listed hl
    rw [entry_stageAdd_used hc hu]
    exact ⟨hm, hst, List.mem_cons_of_mem _ hu⟩
  · rcases mem_staged_stageAdd.1 ha with ha | rfl
    · rw [entry_stageAdd_used hc (hs.staged ha).2]
      exact ⟨(hs.staged ha).1, List.mem_cons_of_mem _ (hs.staged ha).2⟩
    · rw [entry_stageAdd_new]
      exact ⟨by simp, List.mem_cons_self⟩
  · rw [found_stageAdd h]
    rcases mem_staged_stageAdd.1 ha with ha | rfl
    · rw [entry_stageAdd_used hc (hs.staged ha).2] at hadd ⊢
      have hf := hs.added ha hadd
      rw [if_neg, hf]
      rintro ⟨hm, hk⟩
      rw [hm, hk, hfree] at hf
      cases hf
    · rw [entry_stageAdd_new, if_pos ⟨rfl, rfl⟩]
  · rcases mem_staged_stageAdd.1 ha with ha | rfl
    · rw [entry_stageAdd_used hc (hs.staged ha).2] at hdel hf
      rw [found_stageAdd h] at hf
      by_cases hk : (s.entry a).man = man ∧ (s.entry a).key = key
      · rw [if_pos hk, Option.some.injEq] at hf
        rw [← hf, entry_stageAdd_new]
      · rw [if_neg hk] at hf
        rw [entry_stageAdd_used hc (hs.used hf)]
        exact hs.vacated ha hdel hf
    · rw [entry_stageAdd_new] at hdel
      cases hdel
  · change (s.staged ++ [cres]).Pairwise _
    refine List.pairwise_append.2 ⟨?_, List.pairwise_singleton _ _, ?_⟩
    · refine hs.ordered.imp_of_mem fun {a b} ha hb hab hk => ?_
      simp only [SameKey, entry_stageAdd_used hc (hs.staged ha).2,
        entry_stageAdd_used hc (hs.staged hb).2] at hk ⊢
      exact hab hk
    · intro a ha b hb hk
      rw [List.mem_singleton] at hb
      subst hb
      simp only [SameKey, entry_stageAdd_used hc (hs.staged ha).2, entry_stageAdd_new] at hk ⊢
      exact ⟨hs.del_of_free ha (by rw [hk.1, hk.2, hfree]), trivial⟩
  · change (s.staged ++ [cres]).Nodup
    refine List.nodup_append.2 ⟨hs.stagedNodup, List.nodup_singleton _, ?_⟩
    intro a ha b hb he
    rw [List.mem_singleton] at hb
    exact hc (by rw [← hb, ← he]; exact (hs.staged ha).2)

theorem Wf.free (hs : Wf s) : Wf (vmwCmdbufResFree (s.entry a).man a s) := by
  have hused : ∀ {b}, b ∈ s.used → b ≠ a →
      b ∈ (vmwCmdbufResFree (s.entry a).man a s).used := fun {b} hb hne => by
    change b ∈ s.used.filter _
    simp [hb, hne]
  refine ⟨fun {m k b} hf => ?_, fun {m b} hl => ?_, fun {b} hb => ?_, fun {b} hb hst => ?_,
    fun {b c} hb hst hf => ?_, ?_, fun m => (hs.listNodup m).filter _, hs.stagedNodup.filter _⟩
  · obtain ⟨hf, hne⟩ := (found_free_iff hs).1 hf
    obtain ⟨hm, hk, hin⟩ := hs.found hf
    exact ⟨hm, hk, hin.imp (fun h => mem_list_free.2 ⟨h, hne⟩)
      fun h => ⟨mem_staged_free.2 ⟨h.1, hne⟩, h.2⟩⟩
  · obtain ⟨hl, hne⟩ := mem_list_free.1 hl
    obtain ⟨hm, hst, hu⟩ := hs.listed hl
    exact ⟨hm, hst, hused hu hne⟩
  · obtain ⟨hb, hne⟩ := mem_staged_free.1 hb
    exact ⟨(hs.staged hb).1, hused (hs.staged hb).2 hne⟩
  · obtain ⟨hb, hne⟩ := mem_staged_free.1 hb
    exact (found_free_iff hs).2 ⟨hs.added hb hst, hne⟩
  · exact hs.vacated (mem_staged_free.1 hb).1 hst ((found_free_iff hs).1 hf).1
  · exact hs.ordered.filter _

theorem Wf.stageRemove (hs : Wf s) (ha : a ∈ s.list m) (hf : s.found m k = some a) :
    Wf (s.stageRemove m a) := by
  obtain ⟨rfl, hcom, hau⟩ := hs.listed ha
  obtain rfl : (s.entry a).key = k := (hs.found hf).2.1
  have hnot : a ∉ s.staged := fun h => hs.not_listed h ha
  have hne : ∀ {b}, b ∈ s.staged → b ≠ a := fun hb he => hnot (he ▸ hb)
  refine ⟨fun {m k b} hf => ?_, fun {m b} hl => ?_, fun {b} hb => ?_, fun {b} hb hst => ?_,
    fun {b c} hb hst hf' => ?_, ?_, fun m => (hs.listNodup m).filter _, ?_⟩
  · obtain ⟨hf, hba⟩ := (found_stageRemove_iff hs).1 hf
    obtain ⟨hm, hk, hin⟩ := hs.found hf
    rw [entry_stageRemove_of_ne hba]
    exact ⟨hm, hk, hin.imp (fun h => mem_list_stageRemove.2 ⟨h, hba⟩)
      fun h => ⟨mem_staged_stageRemove.2 (.inl h.1), h.2⟩⟩
  · obtain ⟨hl, hba⟩ := mem_list_stageRemove.1 hl
    rw [entry_stageRemove_of_ne hba]
    exact hs.listed hl
  · rcases mem_staged_stageRemove.1 hb with hb | rfl
    · rw [entry_stageRemove_of_ne (hne hb)]
      exact hs.staged hb
    · rw [entry_stageRemove_self]
      exact ⟨by simp, hau⟩
  · rcases mem_staged_stageRemove.1 hb with hb | rfl
    · rw [entry_stageRemove_of_ne (hne hb)] at hst ⊢
      exact (found_stageRemove_iff hs).2 ⟨hs.added hb hst, hne hb⟩
    · rw [entry_stageRemove_self] at hst
      cases hst
  · obtain ⟨hf', hca⟩ := (found_stageRemove_iff hs).1 hf'
    rw [entry_stageRemove_of_ne hca]
    rcases mem_staged_stageRemove.1 hb with hb | rfl
    · rw [entry_stageRemove_of_ne (hne hb)] at hst hf'
      exact hs.vacated hb hst hf'
    · rw [entry_stageRemove_self, hf, Option.some.injEq] at hf'
      exact absurd hf'.symm hca
  · change (s.staged.filter _ ++ [a]).Pairwise _
    refine List.pairwise_append.2 ⟨?_, List.pairwise_singleton _ _, ?_⟩
    · refine (hs.ordered.filter _).imp_of_mem fun {b c} hb hc hbc hk => ?_
      have hb := hne (List.mem_filter.1 hb).1
      have hc := hne (List.mem_filter.1 hc).1
      simp only [SameKey, entry_stageRemove_of_ne hb, entry_stageRemove_of_ne hc] at hk ⊢
      exact hbc hk
    · intro b hb c hc hk
      rw [List.mem_singleton] at hc
      subst hc
      have hb := (List.mem_filter.1 hb).1
      simp only [SameKey, entry_stageRemove_of_ne (hne hb), entry_stageRemove_self] at hk
      exact absurd hk (hs.not_sameKey hb hcom hf)
  · change (s.staged.filter _ ++ [a]).Nodup
    refine List.nodup_append.2 ⟨hs.stagedNodup.filter _, List.nodup_singleton _, ?_⟩
    intro b hb c hc he
    rw [List.mem_singleton] at hc
    exact hne (List.mem_filter.1 hb).1 (he.trans hc)

theorem Wf.call (hs : Wf s) (c : Call) : Wf (call A c s).2 := by
  rcases call_cases (A := A) hs c with ⟨e, h⟩ | ⟨e, h⟩ |
    ⟨man, resType, userKey, res, ht, -, -, hins, h⟩ | ⟨man, resType, userKey, a, -, hf, -, -, h⟩ |
    ⟨man, resType, userKey, a, -, hf, ha, h⟩ <;> rw [h]
  · exact hs
  · exact hs.leak _
  · exact hs.stageAdd (A.fresh _) hins
  · obtain ⟨rfl, -⟩ := hs.found hf
    exact hs.free
  · exact hs.stageRemove ha hf

theorem Wf.callAll (hs : Wf s) (cs : List Call) : Wf (callAll A cs s).2 := by
  induction cs generalizing s with
  | nil => exact hs
  | cons c cs ih => exact ih (hs.call c)

section Head
variable {l : List ℕ}

theorem Wf.head_not_mem (hs : Wf s) (hst : s.staged = a :: l) : a ∉ l := by
  have h := hs.stagedNodup
  rw [hst] at h
  exact (List.nodup_cons.1 h).1

theorem Wf.head_listed (hs : Wf s) (hst : s.staged = a :: l) : a ∉ s.list m :=
  hs.not_listed (by rw [hst]; exact List.mem_cons_self)

theorem Wf.listDel_staged (hs : Wf s) (hst : s.staged = a :: l) : (s.listDel a).staged = l := by
  change s.staged.filter _ = l
  rw [hst, List.filter_cons_of_neg (by simp), List.filter_eq_self]
  intro b hb
  simp only [ne_eq, decide_eq_true_eq]
  rintro rfl
  exact hs.head_not_mem hst hb

theorem Wf.listDel_list (hs : Wf s) (hst : s.staged = a :: l) : (s.listDel a).list = s.list := by
  funext m
  refine List.filter_eq_self.2 fun b hb => ?_
  simp only [ne_eq, decide_eq_true_eq]
  rintro rfl
  exact hs.head_listed hst hb

theorem Wf.head_ordered (hs : Wf s) (hst : s.staged = a :: l) (hb : b ∈ l)
    (hk : SameKey s a b) : (s.entry a).state = .del ∧ (s.entry b).state = .add := by
  have h := hs.ordered
  rw [hst] at h
  exact (List.pairwise_cons.1 h).1 b hb hk

theorem Wf.settled (hs : Wf s) (hst : s.staged = a :: l) (hstaged : t.staged = l)
    (hentry : t.entry = Function.update s.entry a { s.entry a with state := .committed })
    (hlist : t.list = Function.update s.list (s.entry a).man (s.list (s.entry a).man ++ [a]))
    (hused : t.used = s.used)
    (hfound : ∀ {m k b}, t.found m k = some b →
      s.found m k = some b ∨ b = a ∧ m = (s.entry a).man ∧ k = (s.entry a).key)
    (hkept : ∀ {m k b}, s.found m k = some b → t.found m k = some b) : Wf t := by
  have ha : a ∈ s.staged := by simp [hst]
  have hold : ∀ {b}, b ≠ a → t.entry b = s.entry b := fun {b} hb => by
    rw [hentry, Function.update_of_ne hb]
  have hnew : t.entry a = { s.entry a with state := .committed } := by
    rw [hentry, Function.update_self]
  have hne : ∀ {b}, b ∈ l → b ≠ a := fun hb he => hs.head_not_mem hst (he ▸ hb)
  have hin : ∀ {b}, b ∈ l → b ∈ s.staged := fun hb => by simp [hst, hb]
  have hmem : ∀ {m b}, b ∈ t.list m ↔ b ∈ s.list m ∨ b = a ∧ m = (s.entry a).man :=
    fun {m b} => by
      rw [hlist]
      by_cases hm : m = (s.entry a).man
      · subst hm
        simp
      · simp [hm]
  refine ⟨fun {m k b} hf => ?_, fun {m b} hl => ?_, fun {b} hb => ?_, fun {b} hb hadd => ?_,
    fun {b c} hb hdel hf => ?_, ?_, fun m => ?_, ?_⟩
  · by_cases hb : b = a
    · subst hb
      rw [hnew]
      have hk : m = (s.entry b).man ∧ k = (s.entry b).key := by
        rcases hfound hf with hf | hf
        · exact ⟨(hs.found hf).1.symm, (hs.found hf).2.1.symm⟩
        · exact hf.2
      exact ⟨hk.1.symm, hk.2.symm, .inl (hmem.2 (.inr ⟨rfl, hk.1⟩))⟩
    · have hf := (hfound hf).resolve_right fun h => hb h.1
      obtain ⟨hm, hk, hl | ⟨hbs, hadd⟩⟩ := hs.found hf
      · rw [hold hb]
        exact ⟨hm, hk, .inl (hmem.2 (.inl hl))⟩
      · rw [hold hb, hstaged]
        rw [hst] at hbs
        exact ⟨hm, hk, .inr ⟨(List.mem_cons.1 hbs).resolve_left hb, hadd⟩⟩
  · rw [hused]
    rcases hmem.1 hl with hl | ⟨rfl, hm⟩
    · rw [hold fun he => hs.head_listed hst (he ▸ hl)]
      exact hs.listed hl
    · rw [hnew]
      exact ⟨hm.symm, rfl, (hs.staged ha).2⟩
  · rw [hstaged] at hb
    rw [hold (hne hb), hused]
    exact hs.staged (hin hb)
  · rw [hstaged] at hb
    rw [hold (hne hb)] at hadd ⊢
    exact hkept (hs.added (hin hb) hadd)
  · rw [hstaged] at hb
    rw [hold (hne hb)] at hdel hf
    have hclash : SameKey s a b → False := fun hk => by
      have h := (hs.head_ordered hst hb hk).2
      rw [hdel] at h
      cases h
    rcases hfound hf with hf | ⟨-, hm, hk⟩
    · have hca : c ≠ a := by
        rintro rfl
        exact hclash ⟨(hs.found hf).1, (hs.found hf).2.1⟩
      rw [hold hca]
      exact hs.vacated (hin hb) hdel hf
    · exact (hclash ⟨hm.symm, hk.symm⟩).elim
  · rw [hstaged]
    have h := hs.ordered
    rw [hst] at h
    refine (List.pairwise_cons.1 h).2.imp_of_mem fun {b c} hb hc hbc hk => ?_
    simp only [SameKey, hold (hne hb), hold (hne hc)] at hk ⊢
    exact hbc hk
  · rw [hlist]
    by_cases hm : m = (s.entry a).man
    · subst hm
      rw [Function.update_self, List.nodup_append]
      refine ⟨hs.listNodup _, List.nodup_singleton _, fun b hb c hc he => ?_⟩
      rw [List.mem_singleton] at hc
      exact hs.head_listed hst (by rw [← hc, ← he]; exact hb)
    · rw [Function.update_of_ne hm]
      exact hs.listNodup m
  · rw [hstaged]
    have h := hs.stagedNodup
    rw [hst] at h
    exact (List.nodup_cons.1 h).2

theorem Wf.dropped (hs : Wf s) (hst : s.staged = a :: l) (hdel : (s.entry a).state = .del)
    (hstaged : t.staged = l) (hentry : t.entry = s.entry) (hlist : t.list = s.list)
    (hused : t.used = s.used.filter (· ≠ a)) (hfound : t.found = s.found) : Wf t := by
  have hne : ∀ {b}, b ∈ l → b ≠ a := fun hb he => hs.head_not_mem hst (he ▸ hb)
  have hin : ∀ {b}, b ∈ l → b ∈ s.staged := fun hb => by simp [hst, hb]
  have hkeep : ∀ {b}, b ∈ s.used → b ≠ a → b ∈ t.used := fun {b} hb hne => by
    rw [hused]
    simp [hb, hne]
  have htail := hst ▸ hs.ordered
  have hnodup := hst ▸ hs.stagedNodup
  refine ⟨fun {m k b} hf => ?_, fun {m b} hl => ?_, fun {b} hb => ?_, fun {b} hb hadd => ?_,
    fun {b c} hb hst' hf => ?_, ?_, fun m => ?_, ?_⟩
  · rw [hfound] at hf
    rw [hentry, hlist, hstaged]
    obtain ⟨hm, hk, hl | ⟨hbs, hadd⟩⟩ := hs.found hf
    · exact ⟨hm, hk, .inl hl⟩
    · refine ⟨hm, hk, .inr ⟨?_, hadd⟩⟩
      rw [hst] at hbs
      refine (List.mem_cons.1 hbs).resolve_left ?_
      rintro rfl
      rw [hdel] at hadd
      cases hadd
  · rw [hlist] at hl
    rw [hentry]
    obtain ⟨hm, hcom, hu⟩ := hs.listed hl
    exact ⟨hm, hcom, hkeep hu fun he => hs.head_listed hst (he ▸ hl)⟩
  · rw [hstaged] at hb
    rw [hentry]
    exact ⟨(hs.staged (hin hb)).1, hkeep (hs.staged (hin hb)).2 (hne hb)⟩
  · rw [hstaged] at hb
    rw [hentry] at hadd ⊢
    rw [hfound]
    exact hs.added (hin hb) hadd
  · rw [hstaged] at hb
    rw [hentry] at hst' hf ⊢
    rw [hfound] at hf
    exact hs.vacated (hin hb) hst' hf
  · rw [hstaged]
    simpa only [SameKey, hentry] using (List.pairwise_cons.1 htail).2
  · rw [hlist]
    exact hs.listNodup m
  · rw [hstaged]
    exact (List.nodup_cons.1 hnodup).2

theorem forEach_ok {f : ℕ → Run (Managers hash) Stop Unit} (h : f a s = (.ok (), t)) :
    forEach f (a :: l) s = forEach f l t := by
  change Run.andThen (f a) (fun _ => forEach f l) s = _
  rw [Run.andThen, h]

@[simp] theorem listDel_entry : (s.listDel a).entry = s.entry := rfl

/-- What the revert of one entry makes of the entry that is found under a key. -/
def replay (s : Managers hash) (m k : ℕ) (cur : Option ℕ) (a : ℕ) : Option ℕ :=
  if (s.entry a).man = m ∧ (s.entry a).key = k then
    match (s.entry a).state with
    | .add => if cur = some a then none else cur
    | _ => some (cur.getD a)
  else cur

/-- The entries `l` are reverted between two states. -/
structure Reverts (l : List ℕ) (s t : Managers hash) : Prop where
  wf : Wf t
  staged : t.staged = []
  found : ∀ m k, t.found m k = l.foldl (replay s m k) (s.found m k)
  list : ∀ m, t.list m =
    s.list m ++ l.filter fun a => (s.entry a).state = .del ∧ (s.entry a).man = m
  same : ∀ a, (t.entry a).res = (s.entry a).res ∧ (t.entry a).key = (s.entry a).key ∧
    (t.entry a).man = (s.entry a).man

theorem putBack_fields (s : Managers hash) (a : ℕ) :
    (s.putBack a).entry = Function.update s.entry a { s.entry a with state := .committed } ∧
      (s.putBack a).list = Function.update (s.listDel a).list (s.entry a).man
        ((s.listDel a).list (s.entry a).man ++ [a]) ∧
      (s.putBack a).staged = (s.listDel a).staged ∧ (s.putBack a).used = s.used := by
  unfold Managers.putBack
  cases drmHtInsertItem (s.resources (s.entry a).man) ⟨a, (s.entry a).key⟩
  · exact ⟨rfl, rfl, rfl, rfl⟩
  · exact ⟨rfl, rfl, rfl, rfl⟩

theorem found_of_putBack {b : ℕ} (hf : (s.putBack a).found m k = some b) :
    s.found m k = some b ∨ b = a ∧ m = (s.entry a).man ∧ k = (s.entry a).key := by
  rw [found_putBack] at hf
  by_cases hk : m = (s.entry a).man ∧ k = (s.entry a).key
  · rw [if_pos hk, Option.some.injEq] at hf
    cases hold : s.found m k with
    | none =>
      rw [hold] at hf
      exact .inr ⟨hf.symm, hk⟩
    | some c =>
      rw [hold] at hf
      exact .inl (congrArg some hf)
  · rw [if_neg hk] at hf
    exact .inl hf

theorem revertEntry_ok (hs : Wf s) (hst : s.staged = a :: l) :
    ∃ u, revertEntry a s = (.ok (), u) ∧ Wf u ∧ u.staged = l ∧
      (∀ m k, u.found m k = replay s m k (s.found m k) a) ∧
      (∀ b, b ≠ a → u.entry b = s.entry b) ∧
      (u.entry a).res = (s.entry a).res ∧ (u.entry a).key = (s.entry a).key ∧
      (u.entry a).man = (s.entry a).man ∧
      ∀ m, u.list m = s.list m ++
        if (s.entry a).state = .del ∧ (s.entry a).man = m then [a] else [] := by
  have hstaged := hs.listDel_staged hst
  have hlist := hs.listDel_list hst
  cases hstate : (s.entry a).state with
  | committed => exact absurd hstate (hs.staged (by simp [hst])).1
  | add =>
    refine ⟨vmwCmdbufResFree (s.entry a).man a s, ?_, hs.free, hstaged, fun m k => ?_,
      fun b _ => rfl, rfl, rfl, rfl, fun m => ?_⟩
    · simp only [revertEntry, hstate]
    · rw [found_free hs, replay, hstate]
      by_cases hk : (s.entry a).man = m ∧ (s.entry a).key = k
      · rw [if_pos hk]
      · rw [if_neg hk, if_neg]
        exact fun hf => hk ⟨(hs.found hf).1, (hs.found hf).2.1⟩
    · change (s.listDel a).list m = _
      simp [hlist]
  | del =>
    obtain ⟨hentry, hback, hleft, hused⟩ := putBack_fields s a
    rw [hlist] at hback
    rw [hstaged] at hleft
    refine ⟨s.putBack a, ?_, ?_, hleft, fun m k => ?_, fun b hb => ?_, ?_, ?_, ?_, fun m => ?_⟩
    · simp only [revertEntry, hstate]
    · refine hs.settled hst hleft hentry hback hused found_of_putBack (fun {m k b} hf => ?_)
      rw [found_putBack, hf]
      split <;> rfl
    · rw [found_putBack, replay, hstate]
      simp only [eq_comm]
    · rw [hentry, Function.update_of_ne hb]
    · rw [hentry, Function.update_self]
    · rw [hentry, Function.update_self]
    · rw [hentry, Function.update_self]
    · rw [hback]
      by_cases hm : (s.entry a).man = m
      · subst hm
        simp
      · simp [hm, Ne.symm hm]

theorem revert_loop (l : List ℕ) : ∀ s : Managers hash, Wf s → s.staged = l →
    ∃ t, forEach revertEntry l s = (.ok (), t) ∧ Reverts l s t := by
  induction l with
  | nil =>
    intro s hs hst
    exact ⟨s, rfl, hs, hst, fun _ _ => rfl, by simp, fun _ => ⟨rfl, rfl, rfl⟩⟩
  | cons a l ih =>
    intro s hs hst
    obtain ⟨u, hu, hwf, hl, hfound, hold, hres, hkey, hman, hlist⟩ := revertEntry_ok hs hst
    obtain ⟨t, ht, hr⟩ := ih u hwf hl
    have hsame : ∀ b ∈ l, u.entry b = s.entry b := fun b hb =>
      hold b fun he => hs.head_not_mem hst (he ▸ hb)
    refine ⟨t, (forEach_ok hu).trans ht, hr.wf, hr.staged, fun m k => ?_, fun m => ?_, fun b => ?_⟩
    · rw [hr.found, hfound, List.foldl_cons]
      refine List.foldl_ext _ _ _ fun cur b hb => ?_
      rw [replay, hsame b hb]
      rfl
    · rw [hr.list, hlist, List.filter_cons, List.append_assoc]
      congr 1
      have htail : (l.filter fun a => (u.entry a).state = .del ∧ (u.entry a).man = m) =
          l.filter fun a => (s.entry a).state = .del ∧ (s.entry a).man = m :=
        List.filter_congr fun b hb => by rw [hsame b hb]
      rw [htail]
      by_cases hm : (s.entry a).state = .del ∧ (s.entry a).man = m <;> simp [hm]
    · obtain ⟨h1, h2, h3⟩ := hr.same b
      by_cases hb : b = a
      · subst hb
        exact ⟨h1.trans hres, h2.trans hkey, h3.trans hman⟩
      · rw [hold b hb] at h1 h2 h3
        exact ⟨h1, h2, h3⟩

end Head

end Vmwgfx.ResManager
