import Vmwgfx.TtmBuffer

set_option autoImplicit false

/-!
# What a buffer's DMA mapping has acquired

A mapping through an sg table holds its memory charge, the table and the mapping itself. Two
fields tell whether there is something to release; they disagree after a mapping that failed
before its sg table existed.
-/
namespace Vmwgfx.TtmBuffer
open ExecbufState (Errno)
open LabelledRuns

def hasSg (c : Config) (s : TtmTt) : Bool := c.mode.usesSg && s.mapped

/-- `vmw_ttm_map_dma` has failed at the memory accounting or at the sg table. -/
def failedEarly (c : Config) (s : TtmTt) : Bool := c.mode.usesSg && s.sgt && !s.mapped

def unmaps (c : Config) : Op → Bool
  | .unmapDma | .unpopulate | .destroy => true
  | .unbind _ => c.mode == .mapBind
  | _ => false

/-- No clean-up follows directly on a mapping that failed early. -/
def cleansMapped (c : Config) (s : TtmTt) (a : Op) : Prop :=
  (unmaps c a && failedEarly c s) = false

instance (c : Config) : ∀ s a, Decidable (cleansMapped c s a) := fun s a =>
  decEq (unmaps c a && failedEarly c s) false

/-- What is held is exactly what the mapping has acquired. -/
structure Balanced (c : Config) (s : TtmTt) : Prop where
  charge : s.sgCharge = if hasSg c s then (s.sgAllocSize : ℤ) else 0
  tables : s.sgTables = if hasSg c s then 1 else 0
  mappings : s.dmaMappings = if hasSg c s then 1 else 0
  sgt : s.mapped = true → s.sgt = true
  freed : s.freed = true → s.mapped = false

structure SameMapping (s t : TtmTt) : Prop where
  sgt : t.sgt = s.sgt
  mapped : t.mapped = s.mapped
  size : t.sgAllocSize = s.sgAllocSize
  charge : t.sgCharge = s.sgCharge
  tables : t.sgTables = s.sgTables
  mappings : t.dmaMappings = s.dmaMappings
  freed : t.freed = s.freed

variable {c : Config} {s t u : TtmTt} {o : MapEnds} {m : Mob}

theorem Balanced.same (hs : Balanced c s) (h : SameMapping s t) : Balanced c t where
  charge := by
    rw [h.charge, h.size, hs.charge, hasSg, hasSg, h.mapped]
  tables := by
    rw [h.tables, hs.tables, hasSg, hasSg, h.mapped]
  mappings := by
    rw [h.mappings, hs.mappings, hasSg, hasSg, h.mapped]
  sgt := by
    rw [h.mapped, h.sgt]
    exact hs.sgt
  freed := by
    rw [h.mapped, h.freed]
    exact hs.freed

theorem excess_le (c : Config) (s : TtmTt) (nents : ℕ) :
    (if nents < s.numPages then c.sglSize * (s.numPages - nents) else 0) ≤
      c.sgtSize + c.sglSize * s.numPages := by
  split_ifs
  · exact (Nat.mul_le_mul_left _ (Nat.sub_le _ _)).trans (Nat.le_add_left _ _)
  · exact Nat.zero_le _

theorem balanced_mapSg (hsg : c.mode.usesSg = true) (h : Balanced c s) (hnot : s.mapped = false)
    (hsgt : s.sgt = true) (hlive : s.freed = false) : Balanced c (mapSg c o s).2 := by
  have hcharge : s.sgCharge = 0 := by rw [h.charge]; simp [hasSg, hnot]
  have htables : s.sgTables = 0 := by rw [h.tables]; simp [hasSg, hnot]
  have hmappings : s.dmaMappings = 0 := by rw [h.mappings]; simp [hasSg, hnot]
  unfold mapSg
  simp only
  split_ifs with haccount
  · exact ⟨by simp [hasSg, hnot, hcharge], by simp [hasSg, hnot, htables],
      by simp [hasSg, hnot, hmappings], fun _ => hsgt, fun _ => hnot⟩
  · cases o.table with
    | error e =>
      exact ⟨by simp [hasSg, hnot, hcharge], by simp [hasSg, hnot, htables],
        by simp [hasSg, hnot, hmappings], fun _ => hsgt, fun _ => hnot⟩
    | ok nents =>
      have hle := excess_le c s nents
      cases o.dmaMap with
      | none =>
        constructor
        · simp only [hasSg, hnot, Bool.and_false, Bool.false_eq_true, if_false]
          push_cast [hle]
          omega
        · simp [hasSg, hnot, htables]
        · simp [hasSg, hnot, hmappings]
        · intro hmapped
          simp [hnot] at hmapped
        · exact fun _ => hnot
      | some addr =>
        constructor
        · simp only [hasSg, markMapped, hsg, Bool.and_true, if_true]
          push_cast [hle]
          omega
        · simp [hasSg, markMapped, hsg, htables]
        · simp [hasSg, markMapped, hsg, hmappings]
        · exact fun _ => hsgt
        · intro hfreed
          simp [markMapped, hlive] at hfreed

theorem Balanced.mapDma (h : Balanced c s) (hlive : s.freed = false) :
    Balanced c (vmwTtmMapDma c o s).2 := by
  unfold vmwTtmMapDma
  by_cases hmapped : s.mapped = true
  · rw [if_pos hmapped]
    exact h
  · rw [if_neg hmapped]
    have hnot : s.mapped = false := Bool.eq_false_iff.2 hmapped
    have hready : Balanced c { s with sgt := true } :=
      ⟨h.charge, h.tables, h.mappings, fun _ => rfl, h.freed⟩
    by_cases hsg : c.mode.usesSg = true
    · simp only [hsg, if_true]
      exact balanced_mapSg hsg hready hnot rfl hlive
    · simp only [hsg, Bool.false_eq_true, if_false]
      exact ⟨by simp [hasSg, markMapped, hsg, h.charge], by simp [hasSg, markMapped, hsg, h.tables],
        by simp [hasSg, markMapped, hsg, h.mappings], fun _ => rfl,
        fun hfreed => by simp [markMapped, hlive] at hfreed⟩

theorem Balanced.unmapDma (h : Balanced c s) (hok : failedEarly c s = false) :
    Balanced c (vmwTtmUnmapDma c s) ∧ (vmwTtmUnmapDma c s).mapped = false := by
  unfold vmwTtmUnmapDma
  cases hsgt : s.sgt with
  | false =>
    have hnot : s.mapped = false := by
      by_contra hm
      rw [h.sgt (Bool.eq_true_of_not_eq_false hm)] at hsgt
      cases hsgt
    exact ⟨h, hnot⟩
  | true =>
    cases hsg : c.mode.usesSg with
    | false =>
      exact ⟨⟨by simp [hasSg, hsg, h.charge], by simp [hasSg, hsg, h.tables],
        by simp [hasSg, hsg, h.mappings], (fun hm => by cases hm), fun _ => rfl⟩, rfl⟩
    | true =>
      have hmapped : s.mapped = true := by simpa [failedEarly, hsg, hsgt] using hok
      exact ⟨⟨by simp [hasSg, hsg, h.charge, hmapped], by simp [hasSg, hsg, h.tables, hmapped],
        by simp [hasSg, hsg, h.mappings, hmapped], (fun hm => by cases hm), fun _ => rfl⟩, rfl⟩

theorem unmapDma_overfrees (h : Balanced c s) (hfail : failedEarly c s = true) :
    (vmwTtmUnmapDma c s).sgTables = -1 ∧ (vmwTtmUnmapDma c s).dmaMappings = -1 ∧
    (vmwTtmUnmapDma c s).sgCharge = -s.sgAllocSize := by
  simp only [failedEarly, Bool.and_eq_true, Bool.not_eq_true'] at hfail
  obtain ⟨⟨hsg, hsgt⟩, hnot⟩ := hfail
  simp [vmwTtmUnmapDma, hsgt, hsg, h.charge, h.tables, h.mappings, hasSg, hnot]

theorem sameMapping_mobBind {mo : MobEnds} {id : ℤ} {r : Option Errno}
    (h : vmwMobBind c mo id m s = some (r, t)) : SameMapping s t := by
  obtain rfl | ⟨-, m', ptSetUp, -, rfl | rfl⟩ := mobBind_cases h
  · exact ⟨rfl, rfl, rfl, rfl, rfl, rfl, rfl⟩
  · exact ⟨rfl, rfl, rfl, rfl, rfl, rfl, rfl⟩
  · exact ⟨rfl, rfl, rfl, rfl, rfl, rfl, rfl⟩

theorem sameMapping_gmrBind (space : Bool) (id : ℤ) (s : TtmTt) :
    SameMapping s (vmwGmrBind c space id s).2 := by
  unfold vmwGmrBind
  split_ifs <;> exact ⟨rfl, rfl, rfl, rfl, rfl, rfl, rfl⟩

theorem Balanced.bind (h : Balanced c s) (hlive : s.freed = false) {bo : BindEnds} {p : Placement}
    {start : ℤ} {r : Option Errno} (hs : vmwTtmBind c bo p start s = some (r, t)) :
    Balanced c t := by
  have hmap : Balanced c (vmwTtmMapDma c bo.map s).2 := h.mapDma hlive
  obtain ⟨e, hu⟩ | ⟨u, hu, hrest⟩ := ttmBind_cases hs
  · rw [hu] at hmap
    exact hmap
  · rw [hu] at hmap
    have hfields : Balanced c { u with gmrId := start, memType := some p } :=
      hmap.same ⟨rfl, rfl, rfl, rfl, rfl, rfl, rfl⟩
    obtain ⟨-, rfl⟩ | ⟨-, rfl⟩ | ⟨-, m, -, hbind⟩ := hrest
    · exact hfields.same (sameMapping_gmrBind _ _ _)
    · exact hfields
    · exact hfields.same (sameMapping_mobBind hbind)

theorem Balanced.unbind (h : Balanced c s) {space : Bool}
    (hok : cleansMapped c s (.unbind space)) (hs : vmwTtmUnbind c space s = some t) :
    Balanced c t := by
  unfold vmwTtmUnbind at hs
  simp only [Option.map_eq_some_iff] at hs
  obtain ⟨u, hu, rfl⟩ := hs
  have hsame : SameMapping s u := by
    split at hu
    · cases hu
      unfold vmwGmrUnbind
      split_ifs <;> exact ⟨rfl, rfl, rfl, rfl, rfl, rfl, rfl⟩
    · cases hu
      exact ⟨rfl, rfl, rfl, rfl, rfl, rfl, rfl⟩
    · cases hu
  have hbalanced := h.same hsame
  split_ifs with hmode
  · refine (hbalanced.unmapDma ?_).1
    have hnot : failedEarly c s = false := by simpa [cleansMapped, unmaps, hmode] using hok
    rw [failedEarly, hsame.sgt, hsame.mapped]
    exact hnot
  · exact hbalanced

theorem balanced_create (c : Config) (n : ℕ) : Balanced c (create n) :=
  ⟨by simp [hasSg, create], by simp [hasSg, create], by simp [hasSg, create],
    fun h => by simp [create] at h, fun _ => rfl⟩

theorem Balanced.step (h : Balanced c s) {a : Op} (hok : cleansMapped c s a)
    (hs : step c s a = some t) : Balanced c t := by
  cases a with
  | populate account pages addr =>
    simp only [TtmBuffer.step, Option.ite_none_right_eq_some, Option.some.injEq] at hs
    obtain ⟨-, rfl⟩ := hs
    unfold vmwTtmPopulate
    split_ifs
    · exact h
    · exact h
    · exact h
    all_goals exact h.same ⟨rfl, rfl, rfl, rfl, rfl, rfl, rfl⟩
  | mapDma o =>
    simp only [TtmBuffer.step, Option.ite_none_right_eq_some, Option.some.injEq, Bool.and_eq_true,
      Bool.not_eq_true'] at hs
    obtain ⟨⟨⟨hlive, -⟩, -⟩, rfl⟩ := hs
    exact h.mapDma hlive
  | unmapDma =>
    simp only [TtmBuffer.step, Option.ite_none_left_eq_some, Option.some.injEq] at hs
    obtain ⟨-, rfl⟩ := hs
    exact (h.unmapDma (by simpa [cleansMapped, unmaps] using hok)).1
  | bind bo p start =>
    simp only [TtmBuffer.step, Option.ite_none_right_eq_some, Option.map_eq_some_iff,
      Bool.and_eq_true, Bool.not_eq_true'] at hs
    obtain ⟨⟨⟨⟨hlive, -⟩, -⟩, -⟩, r, hr, rfl⟩ := hs
    have hbound := h.bind hlive hr
    split_ifs
    · exact hbound.same ⟨rfl, rfl, rfl, rfl, rfl, rfl, rfl⟩
    · exact hbound
  | unbind space =>
    simp only [TtmBuffer.step, Option.ite_none_right_eq_some, Option.map_eq_some_iff] at hs
    obtain ⟨-, u, hu, rfl⟩ := hs
    exact (h.unbind hok hu).same ⟨rfl, rfl, rfl, rfl, rfl, rfl, rfl⟩
  | unpopulate =>
    simp only [TtmBuffer.step, Option.ite_none_right_eq_some, Option.some.injEq] at hs
    obtain ⟨-, rfl⟩ := hs
    have hmob : Balanced c { s with mob := none } := h.same ⟨rfl, rfl, rfl, rfl, rfl, rfl, rfl⟩
    have hnot : failedEarly c s = false := by simpa [cleansMapped, unmaps] using hok
    exact (hmob.unmapDma hnot).1.same ⟨rfl, rfl, rfl, rfl, rfl, rfl, rfl⟩
  | destroy =>
    simp only [TtmBuffer.step, Option.ite_none_right_eq_some, Option.some.injEq] at hs
    obtain ⟨-, rfl⟩ := hs
    obtain ⟨hgone, hnot⟩ := h.unmapDma (by simpa [cleansMapped, unmaps] using hok)
    exact ⟨hgone.charge, hgone.tables, hgone.mappings, hgone.sgt, fun _ => hnot⟩

/-- In every run in which no clean-up follows directly on a mapping that failed early, the
    memory charged is that of the live mapping, which has one sg table and one DMA mapping;
    without a mapping, and after the destruction, nothing is held. -/
theorem cleaning_runs_balanced {n : ℕ} {as : List Op}
    (h : Runs (step c) (cleansMapped c) (create n) as s) :
    (s.sgCharge = if (c.mode = .mapBind ∨ c.mode = .mapPopulate) ∧ s.mapped = true then
      (s.sgAllocSize : ℤ) else 0) ∧
    (s.sgTables = if (c.mode = .mapBind ∨ c.mode = .mapPopulate) ∧ s.mapped = true then 1 else 0) ∧
    (s.dmaMappings = if (c.mode = .mapBind ∨ c.mode = .mapPopulate) ∧ s.mapped = true then 1
      else 0) ∧
    (s.freed = true → s.sgCharge = 0 ∧ s.sgTables = 0 ∧ s.dmaMappings = 0) := by
  have hbal : Balanced c s :=
    h.invariant (Balanced c) (balanced_create c n) fun _ _ _ hu hok hs => hu.step hok hs
  have hsg : (hasSg c s = true) ↔ (c.mode = .mapBind ∨ c.mode = .mapPopulate) ∧ s.mapped = true := by
    unfold hasSg
    cases c.mode <;> simp [MapMode.usesSg]
  refine ⟨?_, ?_, ?_, fun hfreed => ?_⟩
  · rw [hbal.charge]
    exact if_congr hsg rfl rfl
  · rw [hbal.tables]
    exact if_congr hsg rfl rfl
  · rw [hbal.mappings]
    exact if_congr hsg rfl rfl
  · have hnot : hasSg c s = false := by simp [hasSg, hbal.freed hfreed]
    simp [hbal.charge, hbal.tables, hbal.mappings, hnot]

def mapsAt (addr : ℕ → ℕ) : MapEnds := ⟨none, .ok 1, some addr⟩

def noTable : MapEnds := ⟨none, .error .enomem, none⟩

def noMapping : MapEnds := ⟨none, .ok 2, none⟩

def popConfig : Config := ⟨true, .mapPopulate, true, 32, 16⟩

/-- A mapping that fails late, one that fails early, one that is made, and the end of it. -/
def retriedRun : List Op :=
  [.populate none none fun i => 4096 * i, .mapDma noMapping, .unmapDma, .mapDma noTable,
    .mapDma (mapsAt fun i => 4096 * i)]

theorem retriedRun_balanced :
    let s := (execAdmitted (step popConfig) (cleansMapped popConfig) (create 2) retriedRun).getD
      (create 2)
    s.sgCharge = 48 ∧ s.sgTables = 1 := by
  intro s
  have hrun : Runs (step popConfig) (cleansMapped popConfig) (create 2) retriedRun s :=
    runs_admitted_getD (by decide)
  have hbalanced := cleaning_runs_balanced hrun
  have hmapped : s.mapped = true := by decide
  have hsize : s.sgAllocSize = 48 := by decide
  simp only [popConfig, hmapped, hsize, or_true, and_true, if_true] at hbalanced
  exact ⟨hbalanced.1, hbalanced.2.1⟩

/-- The sg table cannot be allocated, and the buffer is unpopulated. -/
def failedRun : List Op :=
  [.populate none none fun i => 4096 * i, .mapDma noTable, .unpopulate]

theorem failedRun_overfrees : ∃ s, Runs (step popConfig) anyLabel (create 2) failedRun s ∧
    s.mapped = false ∧ s.sgCharge = -80 ∧ s.sgTables = -1 ∧ s.dmaMappings = -1 :=
  ⟨(exec (step popConfig) (create 2) failedRun).getD (create 2), runs_getD (by decide), by decide,
    by decide, by decide, by decide⟩

end Vmwgfx.TtmBuffer
