import Vmwgfx.ResCommit

set_option autoImplicit false

/-!
# Reverting a batch

The entries are reverted in the order in which they were staged. An entry whose key has
been taken by a later addition cannot go back into its table, and when that addition is
freed nothing is left under the key.
-/
namespace Vmwgfx.ResManager
open HashTable LabelledRuns FailingState

variable {hash : ℕ → ℕ} {A : Allocator} {notifies : ℕ → Bool} {s₀ s t : Managers hash}
  {a b m k : ℕ}

def Whole (s : Managers hash) : Prop :=
  ∀ m a, a ∈ s.list m → s.found m (s.entry a).key = some a

/-- No key of an entry that is staged for removal has been taken by an addition. -/
def NoReplacement (s : Managers hash) : Prop :=
  ∀ a ∈ s.staged, ∀ b ∈ s.staged, (s.entry a).state = .del → (s.entry b).state = .add →
    ¬ SameKey s a b

/-- The state before a batch is back: the lookups, the committed entries up to their order,
    each once in the table, and nothing staged. -/
structure Restored (s₀ t : Managers hash) : Prop where
  lookup : ∀ man resType userKey,
    vmwCmdbufResLookup t man resType userKey = vmwCmdbufResLookup s₀ man resType userKey
  list : ∀ m, (t.list m).Perm (s₀.list m)
  found : ∀ m a, a ∈ t.list m → ∀ m' k, t.found m' k = some a ↔ m' = m ∧ k = (t.entry a).key
  staged : t.staged = []

structure Since (s₀ s : Managers hash) : Prop where
  same : ∀ {m a}, a ∈ s₀.list m → (s.entry a).res = (s₀.entry a).res ∧
    (s.entry a).key = (s₀.entry a).key ∧ (s.entry a).man = (s₀.entry a).man
  listed : ∀ {m a}, a ∈ s.list m → a ∈ s₀.list m
  left : ∀ {m a}, a ∈ s₀.list m → a ∈ s.list m ∨ a ∈ s.staged ∧ (s.entry a).state = .del
  removed : ∀ {a}, a ∈ s.staged → (s.entry a).state = .del →
    s₀.found (s.entry a).man (s.entry a).key = some a
  added : ∀ {m a}, a ∈ s.staged → (s.entry a).state = .add → a ∉ s₀.list m
  found : ∀ {m k a}, s.found m k = some a →
    s₀.found m k = some a ∨ a ∈ s.staged ∧ (s.entry a).state = .add
  lost : ∀ {m k a}, s₀.found m k = some a →
    s.found m k = some a ∨ a ∈ s.staged ∧ (s.entry a).state = .del

theorem Since.refl (hidle : s.staged = []) : Since s s where
  same _ := ⟨rfl, rfl, rfl⟩
  listed h := h
  left h := .inl h
  removed h := by simp [hidle] at h
  added h := by simp [hidle] at h
  found h := .inl h
  lost h := .inl h

theorem Since.used (hs : Wf s) (h : Since s₀ s) (ha : a ∈ s₀.list m) : a ∈ s.used := by
  rcases h.left ha with hl | ⟨hst, -⟩
  · exact (hs.listed hl).2.2
  · exact (hs.staged hst).2

theorem Since.stageAdd (hs : Wf s) (h : Since s₀ s) {cres man key res : ℕ}
    {ht : OpenHash hash ℕ} (hc : cres ∉ s.used)
    (hins : drmHtInsertItem (s.resources man) ⟨cres, key⟩ = some ht) :
    Since s₀ (s.stageAdd cres man key res ht) := by
  refine ⟨fun {m a} ha => ?_, h.listed, fun {m a} ha => ?_, fun {a} ha hdel => ?_,
    fun {m a} ha hadd => ?_, fun {m k a} hf => ?_, fun {m k a} hf => ?_⟩
  · rw [entry_stageAdd_used hc (h.used hs ha)]
    exact h.same ha
  · rw [entry_stageAdd_used hc (h.used hs ha)]
    exact (h.left ha).imp id fun h => ⟨mem_staged_stageAdd.2 (.inl h.1), h.2⟩
  · rcases mem_staged_stageAdd.1 ha with ha | rfl
    · rw [entry_stageAdd_used hc (hs.staged ha).2] at hdel ⊢
      exact h.removed ha hdel
    · rw [entry_stageAdd_new] at hdel
      cases hdel
  · rcases mem_staged_stageAdd.1 ha with ha | rfl
    · rw [entry_stageAdd_used hc (hs.staged ha).2] at hadd
      exact h.added ha hadd
    · exact fun hl => hc (h.used hs hl)
  · rw [found_stageAdd hins] at hf
    by_cases hk : m = man ∧ k = key
    · rw [if_pos hk, Option.some.injEq] at hf
      subst hf
      exact .inr ⟨mem_staged_stageAdd.2 (.inr rfl), by rw [entry_stageAdd_new]⟩
    · rw [if_neg hk] at hf
      rw [entry_stageAdd_used hc (hs.used hf)]
      exact (h.found hf).imp id fun h => ⟨mem_staged_stageAdd.2 (.inl h.1), h.2⟩
  · rw [found_stageAdd hins]
    rcases h.lost hf with hf | ⟨ha, hdel⟩
    · refine .inl ?_
      rw [if_neg, hf]
      rintro ⟨rfl, rfl⟩
      rw [found_of_inserted hins] at hf
      cases hf
    · rw [entry_stageAdd_used hc (hs.staged ha).2]
      exact .inr ⟨mem_staged_stageAdd.2 (.inl ha), hdel⟩

theorem Since.free (hs : Wf s) (h : Since s₀ s) (ha : a ∈ s.staged)
    (hadd : (s.entry a).state = .add) (h₀ : Wf s₀) (hidle : s₀.staged = []) :
    Since s₀ (vmwCmdbufResFree (s.entry a).man a s) := by
  have hdel : ∀ {b}, (s.entry b).state = .del → b ≠ a := by
    rintro b hb rfl
    rw [hadd] at hb
    cases hb
  refine ⟨h.same, fun hl => h.listed (mem_list_free.1 hl).1, fun {m b} hb => ?_,
    fun hb => h.removed (mem_staged_free.1 hb).1, fun hb => h.added (mem_staged_free.1 hb).1,
    fun {m k b} hf => ?_, fun {m k b} hf => ?_⟩
  · refine (h.left hb).imp (fun hl => mem_list_free.2 ⟨hl, ?_⟩)
      fun h => ⟨mem_staged_free.2 ⟨h.1, hdel h.2⟩, h.2⟩
    rintro rfl
    exact hs.not_listed ha hl
  · rw [found_free hs] at hf
    split at hf
    · cases hf
    · rename_i hne
      refine (h.found hf).imp id fun h => ⟨mem_staged_free.2 ⟨h.1, ?_⟩, h.2⟩
      rintro rfl
      exact hne hf
  · rw [found_free hs]
    have hba : b ≠ a := by
      rintro rfl
      obtain ⟨-, -, hl | ⟨hst, -⟩⟩ := h₀.found hf
      · exact h.added ha hadd hl
      · rw [hidle] at hst
        cases hst
    refine (h.lost hf).imp (fun hf => ?_) fun h => ⟨mem_staged_free.2 ⟨h.1, hba⟩, h.2⟩
    rw [hf, if_neg]
    exact fun he => hba (Option.some.inj he)

theorem Since.stageRemove (hs : Wf s) (h : Since s₀ s) (ha : a ∈ s.list m)
    (hf : s.found m k = some a) : Since s₀ (s.stageRemove m a) := by
  obtain ⟨rfl, hcom, -⟩ := hs.listed ha
  obtain rfl : (s.entry a).key = k := (hs.found hf).2.1
  have hnot : a ∉ s.staged := fun h => hs.not_listed h ha
  have hne : ∀ {b}, b ∈ s.staged → b ≠ a := fun hb he => hnot (he ▸ hb)
  refine ⟨fun {m b} hb => ?_, fun hl => h.listed (mem_list_stageRemove.1 hl).1, fun {m b} hb => ?_,
    fun {b} hb hdel => ?_, fun {m b} hb hadd => ?_, fun {m k b} hf' => ?_, fun {m k b} hf' => ?_⟩
  · by_cases hba : b = a
    · subst hba
      rw [entry_stageRemove_self]
      exact h.same hb
    · rw [entry_stageRemove_of_ne hba]
      exact h.same hb
  · by_cases hba : b = a
    · subst hba
      exact .inr ⟨mem_staged_stageRemove.2 (.inr rfl), by rw [entry_stageRemove_self]⟩
    · rw [entry_stageRemove_of_ne hba]
      exact (h.left hb).imp (fun hl => mem_list_stageRemove.2 ⟨hl, hba⟩)
        fun h => ⟨mem_staged_stageRemove.2 (.inl h.1), h.2⟩
  · rcases mem_staged_stageRemove.1 hb with hb | rfl
    · rw [entry_stageRemove_of_ne (hne hb)] at hdel ⊢
      exact h.removed hb hdel
    · rw [entry_stageRemove_self]
      refine (h.found hf).resolve_right fun h => ?_
      rw [hcom] at h
      cases h.2
  · rcases mem_staged_stageRemove.1 hb with hb | rfl
    · rw [entry_stageRemove_of_ne (hne hb)] at hadd
      exact h.added hb hadd
    · rw [entry_stageRemove_self] at hadd
      cases hadd
  · rw [found_stageRemove hs] at hf'
    split at hf'
    · cases hf'
    · rename_i hba
      have hne : b ≠ a := fun he => hba (he ▸ hf')
      rw [entry_stageRemove_of_ne hne]
      exact (h.found hf').imp id fun h => ⟨mem_staged_stageRemove.2 (.inl h.1), h.2⟩
  · rw [found_stageRemove hs]
    by_cases hba : b = a
    · subst hba
      exact .inr ⟨mem_staged_stageRemove.2 (.inr rfl), by rw [entry_stageRemove_self]⟩
    · rw [entry_stageRemove_of_ne hba]
      refine (h.lost hf').imp (fun hf => ?_) fun h => ⟨mem_staged_stageRemove.2 (.inl h.1), h.2⟩
      rw [hf, if_neg]
      exact fun he => hba (Option.some.inj he)

theorem Since.callAll (h₀ : Wf s₀) (hidle : s₀.staged = []) (cs : List Call) :
    ∀ s : Managers hash, Wf s → Since s₀ s → Since s₀ (callAll A cs s).2 := by
  induction cs with
  | nil => exact fun s _ h => h
  | cons c cs ih =>
    intro s hs h
    refine ih _ (hs.call c) ?_
    rcases call_cases (A := A) hs c with ⟨e, he⟩ | ⟨e, he⟩ |
      ⟨man, resType, userKey, res, ht, -, -, hins, he⟩ |
      ⟨man, resType, userKey, a, -, hf, ha, hadd, he⟩ |
      ⟨man, resType, userKey, a, -, hf, ha, he⟩ <;> rw [he]
    · exact h
    · exact ⟨h.same, h.listed, h.left, h.removed, h.added, h.found, h.lost⟩
    · exact h.stageAdd hs (A.fresh _) hins
    · obtain ⟨rfl, -⟩ := hs.found hf
      exact h.free hs ha hadd h₀ hidle
    · exact h.stageRemove hs ha hf

def At (s : Managers hash) (m k a : ℕ) : Prop := (s.entry a).man = m ∧ (s.entry a).key = k

theorem replay_not_at {cur : Option ℕ} (h : ¬ At s m k a) : replay s m k cur a = cur := if_neg h

theorem replay_removed {cur : Option ℕ} (h : At s m k a) (hdel : (s.entry a).state = .del) :
    replay s m k cur a = some (cur.getD a) := by
  refine (if_pos h).trans ?_
  rw [hdel]

theorem replay_added {cur : Option ℕ} (h : At s m k a) (hadd : (s.entry a).state = .add) :
    replay s m k cur a = if cur = some a then none else cur := by
  refine (if_pos h).trans ?_
  rw [hadd]

theorem replay_skip {l : List ℕ} {cur : Option ℕ} (h : ∀ a ∈ l, ¬ At s m k a) :
    l.foldl (replay s m k) cur = cur := by
  induction l with
  | nil => rfl
  | cons a l ih =>
    rw [List.foldl_cons, replay_not_at (h a List.mem_cons_self)]
    exact ih fun b hb => h b (List.mem_cons_of_mem _ hb)

theorem replay_keep {l : List ℕ} (h : ∀ a ∈ l, At s m k a → (s.entry a).state = .del) :
    l.foldl (replay s m k) (some b) = some b := by
  induction l with
  | nil => rfl
  | cons a l ih =>
    have hstep : replay s m k (some b) a = some b := by
      by_cases hat : At s m k a
      · exact replay_removed hat (h a List.mem_cons_self hat)
      · exact replay_not_at hat
    rw [List.foldl_cons, hstep]
    exact ih fun c hc => h c (List.mem_cons_of_mem _ hc)

theorem replay_removal (hs : Wf s) (ha : a ∈ s.staged) (hat : At s m k a)
    (hdel : (s.entry a).state = .del)
    (hno : ∀ b ∈ s.staged, At s m k b → (s.entry b).state ≠ .add) :
    s.staged.foldl (replay s m k) none = some a := by
  obtain ⟨l, l', hl⟩ := List.append_of_mem ha
  have hord := hs.ordered
  rw [hl, List.pairwise_append] at hord
  obtain ⟨-, htail, hcross⟩ := hord
  have hbefore : ∀ b ∈ l, ¬ At s m k b := fun b hb hbat => by
    have hadd := (hcross b hb a List.mem_cons_self
      ⟨hbat.1.trans hat.1.symm, hbat.2.trans hat.2.symm⟩).2
    rw [hdel] at hadd
    cases hadd
  have hafter : ∀ b ∈ l', ¬ At s m k b := fun b hb hbat =>
    hno b (by rw [hl]; simp [hb]) hbat ((List.pairwise_cons.1 htail).1 b hb
      ⟨hat.1.trans hbat.1.symm, hat.2.trans hbat.2.symm⟩).2
  have hstep : replay s m k none a = some a := replay_removed hat hdel
  rw [hl, List.foldl_append, replay_skip hbefore, List.foldl_cons, hstep, replay_skip hafter]

theorem replay_addition (hs : Wf s) (hb : b ∈ s.staged) (hat : At s m k b)
    (hadd : (s.entry b).state = .add) :
    s.staged.foldl (replay s m k) (some b) = none := by
  obtain ⟨l, l', hl⟩ := List.append_of_mem hb
  have hord := hs.ordered
  rw [hl, List.pairwise_append] at hord
  obtain ⟨-, htail, hcross⟩ := hord
  have hbefore : ∀ a ∈ l, At s m k a → (s.entry a).state = .del := fun a ha haat =>
    (hcross a ha b List.mem_cons_self ⟨haat.1.trans hat.1.symm, haat.2.trans hat.2.symm⟩).1
  have hafter : ∀ a ∈ l', ¬ At s m k a := fun a ha haat => by
    have hdel := ((List.pairwise_cons.1 htail).1 a ha
      ⟨hat.1.trans haat.1.symm, hat.2.trans haat.2.symm⟩).1
    rw [hadd] at hdel
    cases hdel
  have hstep : replay s m k (some b) b = none := (replay_added hat hadd).trans (if_pos rfl)
  rw [hl, List.foldl_append, replay_keep hbefore, List.foldl_cons, hstep, replay_skip hafter]

theorem found_cases (hs : Wf s) (hr : Reverts s.staged s t) (m k : ℕ) :
    (∃ b ∈ s.staged, At s m k b ∧ (s.entry b).state = .add ∧ s.found m k = some b ∧
      t.found m k = none) ∨
    ((∀ b ∈ s.staged, At s m k b → (s.entry b).state ≠ .add) ∧
      ∃ a ∈ s.staged, At s m k a ∧ (s.entry a).state = .del ∧ t.found m k = some a) ∨
    ((∀ b ∈ s.staged, ¬ At s m k b) ∧ t.found m k = s.found m k) := by
  rw [hr.found]
  by_cases hadd : ∃ b ∈ s.staged, At s m k b ∧ (s.entry b).state = .add
  · obtain ⟨b, hb, hat, hstate⟩ := hadd
    have hf : s.found m k = some b := by
      rw [← hat.1, ← hat.2]
      exact hs.added hb hstate
    exact .inl ⟨b, hb, hat, hstate, hf, by rw [hf]; exact replay_addition hs hb hat hstate⟩
  · have hno : ∀ b ∈ s.staged, At s m k b → (s.entry b).state ≠ .add :=
      fun b hb hat h => hadd ⟨b, hb, hat, h⟩
    by_cases hany : ∃ a ∈ s.staged, At s m k a
    · obtain ⟨a, ha, hat⟩ := hany
      have hdel : (s.entry a).state = .del := by
        cases hstate : (s.entry a).state with
        | committed => exact absurd hstate (hs.staged ha).1
        | add => exact absurd hstate (hno a ha hat)
        | del => rfl
      have hnone : s.found m k = none := by
        by_contra hf
        obtain ⟨c, hc⟩ := Option.ne_none_iff_exists'.1 hf
        have hcadd := hs.vacated ha hdel (by rw [hat.1, hat.2]; exact hc)
        obtain ⟨hm, hk, hl | ⟨hst, -⟩⟩ := hs.found hc
        · rw [(hs.listed hl).2.1] at hcadd
          cases hcadd
        · exact hno c hst ⟨hm, hk⟩ hcadd
      refine .inr (.inl ⟨hno, a, ha, hat, hdel, ?_⟩)
      rw [hnone]
      exact replay_removal hs ha hat hdel hno
    · have hnot : ∀ b ∈ s.staged, ¬ At s m k b := fun b hb hat => hany ⟨b, hb, hat⟩
      exact .inr (.inr ⟨hnot, replay_skip hnot⟩)

section Restoring
variable (h₀ : Wf s₀) (hidle : s₀.staged = []) (hs : Wf s) (h : Since s₀ s)
  (hr : Reverts s.staged s t)
include h₀ hidle

theorem listed_of_found (hf : s₀.found m k = some a) : a ∈ s₀.list m := by
  obtain ⟨-, -, hl | ⟨hst, -⟩⟩ := h₀.found hf
  · exact hl
  · rw [hidle] at hst
    cases hst

include h

theorem at_of_found (hf : s₀.found m k = some a) : At s m k a := by
  have hl := listed_of_found h₀ hidle hf
  obtain ⟨hm, hk, -⟩ := h₀.found hf
  obtain ⟨-, hkey, hman⟩ := h.same hl
  exact ⟨hman.trans hm, hkey.trans hk⟩

include hr

theorem mem_list_iff : a ∈ t.list m ↔ a ∈ s₀.list m := by
  rw [hr.list, List.mem_append, List.mem_filter]
  constructor
  · rintro (hl | ⟨hst, hdel⟩)
    · exact h.listed hl
    · simp only [decide_eq_true_eq] at hdel
      exact hdel.2 ▸ listed_of_found h₀ hidle (h.removed hst hdel.1)
  · intro hl
    rcases h.left hl with hl' | ⟨hst, hdel⟩
    · exact .inl hl'
    · refine .inr ⟨hst, ?_⟩
      rw [decide_eq_true_eq, (h.same hl).2.2]
      exact ⟨hdel, (h₀.listed hl).1⟩

include hs

theorem found_restored (hno : NoReplacement s) (m k : ℕ) : t.found m k = s₀.found m k := by
  rcases found_cases hs hr m k with ⟨b, hb, hat, hadd, hf, ht⟩ | ⟨-, a, ha, hat, hdel, ht⟩ |
    ⟨hnot, ht⟩
  · rw [ht]
    by_contra hne
    obtain ⟨a, ha⟩ := Option.ne_none_iff_exists'.1 (Ne.symm hne)
    have haat := at_of_found h₀ hidle h ha
    rcases h.lost ha with hfa | ⟨hst, hdel⟩
    · rw [hf, Option.some.injEq] at hfa
      subst hfa
      exact h.added hb hadd (listed_of_found h₀ hidle ha)
    · exact hno a hst b hb hdel hadd ⟨haat.1.trans hat.1.symm, haat.2.trans hat.2.symm⟩
  · rw [ht, ← hat.1, ← hat.2, h.removed ha hdel]
  · rw [ht]
    ext a
    constructor
    · intro hf
      refine (h.found hf).resolve_right fun hc => hnot a hc.1 ?_
      exact ⟨(hs.found hf).1, (hs.found hf).2.1⟩
    · intro hf
      exact (h.lost hf).resolve_right fun hc => hnot a hc.1 (at_of_found h₀ hidle h hf)

theorem restored (hwhole : Whole s₀) (hno : NoReplacement s) : Restored s₀ t := by
  have hfound := found_restored h₀ hidle hs h hr hno
  have hmem : ∀ {m a}, a ∈ t.list m ↔ a ∈ s₀.list m := mem_list_iff h₀ hidle h hr
  refine ⟨fun man resType userKey => ?_, fun m => ?_, fun m a ha m' k => ?_, hr.staged⟩
  · unfold vmwCmdbufResLookup
    rw [hfound]
    cases hf : s₀.found man (resKey resType userKey) with
    | none => rfl
    | some a =>
      dsimp only
      rw [(hr.same a).1, (h.same (listed_of_found h₀ hidle hf)).1]
  · exact (List.perm_ext_iff_of_nodup (hr.wf.listNodup m) (h₀.listNodup m)).2 fun a => hmem
  · constructor
    · intro hf
      obtain ⟨hm, hk, -⟩ := hr.wf.found hf
      exact ⟨hm.symm.trans (hr.wf.listed ha).1, hk.symm⟩
    · rintro ⟨rfl, rfl⟩
      have hl := hmem.1 ha
      rw [hfound, (hr.same a).2.1, (h.same hl).2.1]
      exact hwhole _ a hl

omit h₀ hidle in
theorem noReplacement_of_restored (hd : Restored s₀ t) : NoReplacement s := by
  intro a ha b hb hdel hadd hk
  have hat : At s (s.entry a).man (s.entry a).key b := ⟨hk.1.symm, hk.2.symm⟩
  have hold := h.removed ha hdel
  rcases found_cases hs hr (s.entry a).man (s.entry a).key with ⟨c, -, -, -, -, ht⟩ |
    ⟨hno, -⟩ | ⟨hnot, -⟩
  · have hlook := hd.lookup (s.entry a).man .shader (s.entry a).key
    have hkey : resKey .shader (s.entry a).key = (s.entry a).key := by
      simp [resKey, CmdbufResType.code]
    simp only [vmwCmdbufResLookup, hkey, ht, hold, reduceCtorEq] at hlook
  · exact hno b hb hat hadd
  · exact hnot b hb hat

theorem whole_of_restored (hd : Restored s₀ t) : Whole s₀ := by
  intro m a hl
  have hkey : (t.entry a).key = (s₀.entry a).key := (hr.same a).2.1.trans (h.same hl).2.1
  have hf : t.found m (s₀.entry a).key = some a := by
    rw [← hkey]
    exact (hd.found m a ((mem_list_iff h₀ hidle h hr).2 hl) m _).2 ⟨rfl, rfl⟩
  rcases found_cases hs hr m (s₀.entry a).key with ⟨b, -, -, -, -, ht⟩ |
    ⟨-, b, hb, hat, hdel, ht⟩ | ⟨-, ht⟩
  · rw [ht] at hf
    cases hf
  · rw [ht, Option.some.injEq] at hf
    subst hf
    rw [← hat.1, ← hat.2]
    exact h.removed hb hdel
  · rw [ht] at hf
    exact (h.found hf).resolve_right fun hc => h.added hc.1 hc.2 hl

end Restoring

theorem Whole.call (hs : Wf s) (hw : Whole s) (c : Call) : Whole (call A c s).2 := by
  rcases call_cases (A := A) hs c with ⟨e, he⟩ | ⟨e, he⟩ |
    ⟨man, resType, userKey, res, ht, -, hfree, hins, he⟩ |
    ⟨man, resType, userKey, a, -, hf, -, -, he⟩ |
    ⟨man, resType, userKey, a, -, hf, -, he⟩ <;> rw [he]
  · exact hw
  · exact hw
  · intro m b hb
    have hfb := hw m b hb
    have hentry : (s.stageAdd (A.alloc s.used) man c.key res ht).entry b = s.entry b := by
      refine Function.update_of_ne ?_ _ _
      rintro rfl
      exact A.fresh _ (hs.used hfb)
    rw [hentry, found_stageAdd hins, if_neg, hfb]
    rintro ⟨rfl, hk⟩
    rw [hk, hfree] at hfb
    cases hfb
  · obtain ⟨rfl, -⟩ := hs.found hf
    intro m b hb
    obtain ⟨hb, hba⟩ := List.mem_filter.1 hb
    change (vmwCmdbufResFree _ a s).found m (s.entry b).key = _
    rw [found_free hs, hw m b hb, if_neg]
    simpa using hba
  · obtain ⟨rfl, -⟩ := hs.found hf
    intro m b hb
    obtain ⟨hb, hba⟩ := List.mem_filter.1 hb
    rw [decide_eq_true_eq] at hba
    rw [found_stageRemove hs, show (s.stageRemove (s.entry a).man a).entry b = s.entry b from
      Function.update_of_ne hba _ _, hw m b hb, if_neg]
    simpa using hba

theorem Whole.commit (hs : Wf s) (hw : Whole s) (hc : Commits notifies s.staged s t) :
    Whole t := by
  intro m a ha
  rw [hc.list, List.mem_append, List.mem_filter] at ha
  rw [hc.found, (hc.same a).2]
  rcases ha with hl | ⟨hst, hadd⟩
  · exact hw m a hl
  · simp only [decide_eq_true_eq] at hadd
    rw [← hadd.2]
    exact hs.added hst hadd.1

theorem Wf.removal_unique (hs : Wf s) (ha : a ∈ s.staged) (hb : b ∈ s.staged)
    (hdel : (s.entry a).state = .del) (hdel' : (s.entry b).state = .del) (hk : SameKey s a b) :
    a = b := by
  by_contra hne
  let R := fun a b => SameKey s a b → (s.entry a).state = .add ∨ (s.entry b).state = .add
  have hR : s.staged.Pairwise R := hs.ordered.imp fun hab hk => .inr (hab hk).2
  have : Std.Symm R := ⟨fun a b hab hk => (hab ⟨hk.1.symm, hk.2.symm⟩).symm⟩
  rcases hR.forall ha hb hne hk with h | h
  · rw [hdel] at h
    cases h
  · rw [hdel'] at h
    cases h

theorem Whole.revert (hs : Wf s) (hw : Whole s) (hr : Reverts s.staged s t)
    (hno : NoReplacement s) : Whole t := by
  intro m a ha
  rw [(hr.same a).2.1]
  rw [hr.list, List.mem_append, List.mem_filter] at ha
  rcases found_cases hs hr m (s.entry a).key with ⟨b, hb, hat, hadd, hf, -⟩ |
    ⟨hnone, b, hb, hat, hdel, ht⟩ | ⟨hnot, ht⟩
  · rcases ha with hl | ⟨hst, hdel⟩
    · rw [hw m a hl, Option.some.injEq] at hf
      subst hf
      exact absurd hl (hs.not_listed hb)
    · simp only [decide_eq_true_eq] at hdel
      exact absurd ⟨hdel.2.trans hat.1.symm, hat.2.symm⟩ (hno a hst b hb hdel.1 hadd)
  · rw [ht]
    rcases ha with hl | ⟨hst, hdela⟩
    · have hadd := hs.vacated hb hdel (by rw [hat.1, hat.2]; exact hw m a hl)
      rw [(hs.listed hl).2.1] at hadd
      cases hadd
    · simp only [decide_eq_true_eq] at hdela
      rw [hs.removal_unique hst hb hdela.1 hdel ⟨hdela.2.trans hat.1.symm, hat.2.symm⟩]
  · rw [ht]
    rcases ha with hl | ⟨hst, hdel⟩
    · exact hw m a hl
    · simp only [decide_eq_true_eq] at hdel
      exact absurd ⟨hdel.2, rfl⟩ (hnot a hst)

def revertsOnly (s : Managers hash) (o : Op) : Prop := o = .revert → NoReplacement s

theorem whole_of_runs {ops : List Op}
    (h : Runs (step A notifies) revertsOnly (created hash) ops s) : Wf s ∧ Whole s := by
  refine h.invariant (fun s => Wf s ∧ Whole s) ⟨Wf.created, fun m a ha => ?_⟩ ?_
  · cases ha
  · rintro s o u ⟨hs, hw⟩ ok hstep
    refine ⟨hs.step hstep, ?_⟩
    cases o with
    | call c =>
      simp only [step, Option.some.injEq] at hstep
      exact hstep ▸ hw.call hs c
    | commit =>
      obtain ⟨v, hv, hc⟩ := commit_ok notifies hs
      simp only [step, hv, Option.some.injEq] at hstep
      exact hstep ▸ hw.commit hs hc
    | revert =>
      obtain ⟨v, hv, hr⟩ := revert_ok hs
      simp only [step, hv, Option.some.injEq] at hstep
      exact hstep ▸ hw.revert hs hr (ok rfl)

/-- After any run of the managers that ends between two batches. -/
theorem revert_restores_iff {ops : List Op}
    (hrun : Runs (step A notifies) anyLabel (created hash) ops s₀) (hidle : s₀.staged = [])
    (cs : List Call) :
    Restored s₀ (vmwCmdbufResRevert (callAll A cs s₀).2).2 ↔
      Whole s₀ ∧ NoReplacement (callAll A cs s₀).2 := by
  have h₀ := wf_of_runs hrun
  have hs := h₀.callAll (A := A) cs
  have h := Since.callAll (A := A) h₀ hidle cs s₀ h₀ (Since.refl hidle)
  obtain ⟨t, ht, hr⟩ := revert_ok hs
  rw [ht]
  exact ⟨fun hd => ⟨whole_of_restored h₀ hidle hs h hr hd,
    noReplacement_of_restored hs h hr hd⟩,
    fun hc => restored h₀ hidle hs h hr hc.1 hc.2⟩

/-- The shader is destroyed in a batch that is reverted. -/
theorem destroy_restored : Restored sampleManagers
    (vmwCmdbufResRevert (callAll .next [.remove 0 .shader 5] sampleManagers).2).2 := by
  refine (revert_restores_iff (sample_runs anyLabel fun _ _ _ => trivial) (by decide +kernel)
    [.remove 0 .shader 5]).2 ⟨?_, ?_⟩
  · exact (whole_of_runs (sample_runs revertsOnly fun _ _ h h' => absurd h' h)).2
  · intro a ha b hb hdel hadd
    have hst : (callAll .next [.remove 0 .shader 5] sampleManagers).2.staged = [1] := by
      decide +kernel
    rw [hst, List.mem_singleton] at ha hb
    subst ha hb
    rw [hdel] at hadd
    cases hadd

/-- The batch destroys the shader and defines the shader 200 under its id. -/
theorem replace_lost : ¬ Restored sampleManagers
    (vmwCmdbufResRevert (callAll .next
      [.remove 0 .shader 5, .add 0 .shader 5 200 true] sampleManagers).2).2 := by
  intro h
  have hlook := h.lookup 0 .shader 5
  have hbefore : vmwCmdbufResLookup sampleManagers 0 .shader 5 = .ok 100 := by decide +kernel
  have hafter : vmwCmdbufResLookup (vmwCmdbufResRevert (callAll .next
      [.remove 0 .shader 5, .add 0 .shader 5 200 true] sampleManagers).2).2 0 .shader 5 =
      .error .einval := by decide +kernel
  rw [hbefore, hafter] at hlook
  cases hlook

end Vmwgfx.ResManager
