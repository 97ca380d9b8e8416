import Vmwgfx.LabelledRuns

set_option autoImplicit false

/-!
# Commits of plane states

What the atomic helpers do with the state objects of the planes of any driver: a commit
duplicates the state of a plane and prepares the copy, and then either rolls back or swaps
it in, sets modes, updates the plane, and cleans up and destroys the state that it replaced.
A commit of several planes is some interleaving of what it does to each.
-/
namespace Vmwgfx.AtomicCommits
open LabelledRuns

variable {ι σ δ κ ε μ υ : Type*}

/-- The functions of a driver. The state objects are of type `σ` and all else is in `δ`; what
    is asked of a new state, how a preparation ends, the calls that set modes and how an
    update ends are the other types. -/
structure PlaneFuncs (ι σ δ κ ε μ υ : Type*) where
  duplicateState : κ → σ → δ → σ × δ
  prepareFb : ε → σ → δ → Bool × σ × δ
  modeSet : ι → μ → σ → δ → δ
  /-- With the old state and the new. -/
  atomicUpdate : ι → υ → σ → σ → δ → δ
  cleanupFb : σ → δ → σ × δ
  destroyState : σ → δ → δ

inductive Stage where
  | fresh
  | prepared
  | spent
  deriving DecidableEq, Repr

/-- The state objects of a plane: `plane->state`, the state in the commit that is not
    swapped yet, the one for which the current state was swapped in and that the device may
    still show, and those that wait for the cleanup and for the destruction. -/
structure Lane (σ : Type*) where
  current : σ
  next : Option (Stage × σ)
  replaced : Option σ
  updated : List σ
  cleaned : List σ
  deriving DecidableEq, Repr

inductive LaneOp (κ ε μ υ : Type*) where
  | duplicate (k : κ)
  | prepare (e : ε)
  | rollBack
  | discard
  | swap
  | modeSet (x : μ)
  | update (x : υ)
  | cleanup (n : ℕ)
  | destroy (n : ℕ)
  deriving DecidableEq, Repr

/-- One call for the plane `u`. A swap waits until the last one is updated. -/
def laneStep (F : PlaneFuncs ι σ δ κ ε μ υ) (u : ι) (L : Lane σ) (d : δ) :
    LaneOp κ ε μ υ → Option (Lane σ × δ)
  | .duplicate k =>
    match L.next with
    | none =>
      let r := F.duplicateState k L.current d
      some ({ L with next := some (.fresh, r.1) }, r.2)
    | some _ => none
  | .prepare e =>
    match L.next with
    | some (.fresh, v) =>
      let r := F.prepareFb e v d
      some ({ L with next := some (if r.1 then .prepared else .spent, r.2.1) }, r.2.2)
    | _ => none
  | .rollBack =>
    match L.next with
    | some (.prepared, v) =>
      let r := F.cleanupFb v d
      some ({ L with next := some (.spent, r.1) }, r.2)
    | _ => none
  | .discard =>
    match L.next with
    | some (.fresh, v) | some (.spent, v) => some ({ L with next := none }, F.destroyState v d)
    | _ => none
  | .swap =>
    match L.next, L.replaced with
    | some (.prepared, v), none =>
      some ({ L with current := v, next := none, replaced := some L.current }, d)
    | _, _ => none
  | .modeSet x => if L.replaced.isSome then some (L, F.modeSet u x L.current d) else none
  | .update x =>
    match L.replaced with
    | some w =>
      some ({ L with replaced := none, updated := w :: L.updated }, F.atomicUpdate u x w L.current d)
    | none => none
  | .cleanup n =>
    match L.updated[n]? with
    | some v =>
      let r := F.cleanupFb v d
      some ({ L with updated := L.updated.eraseIdx n, cleaned := r.1 :: L.cleaned }, r.2)
    | none => none
  | .destroy n =>
    match L.cleaned[n]? with
    | some v => some ({ L with cleaned := L.cleaned.eraseIdx n }, F.destroyState v d)
    | none => none

structure Device (ι σ δ : Type*) where
  lanes : ι → Lane σ
  rest : δ

def step [DecidableEq ι] (F : PlaneFuncs ι σ δ κ ε μ υ) (s : Device ι σ δ) (a : ι × LaneOp κ ε μ υ) :
    Option (Device ι σ δ) :=
  (laneStep F a.1 (s.lanes a.1) s.rest a.2).map fun r => ⟨Function.update s.lanes a.1 r.1, r.2⟩

inductive LaneTo (F : PlaneFuncs ι σ δ κ ε μ υ) (u : ι) (L : Lane σ) (d : δ) :
    LaneOp κ ε μ υ → Lane σ → δ → Prop where
  | duplicate (k : κ) (h : L.next = none) : LaneTo F u L d (.duplicate k)
      { L with next := some (.fresh, (F.duplicateState k L.current d).1) }
      (F.duplicateState k L.current d).2
  | prepare (e : ε) (v : σ) (h : L.next = some (.fresh, v)) : LaneTo F u L d (.prepare e)
      { L with
        next := some (if (F.prepareFb e v d).1 then .prepared else .spent, (F.prepareFb e v d).2.1) }
      (F.prepareFb e v d).2.2
  | rollBack (v : σ) (h : L.next = some (.prepared, v)) : LaneTo F u L d .rollBack
      { L with next := some (.spent, (F.cleanupFb v d).1) } (F.cleanupFb v d).2
  | discard (g : Stage) (v : σ) (hg : g ≠ .prepared) (h : L.next = some (g, v)) :
      LaneTo F u L d .discard { L with next := none } (F.destroyState v d)
  | swap (v : σ) (h : L.next = some (.prepared, v)) (hr : L.replaced = none) : LaneTo F u L d .swap
      { L with current := v, next := none, replaced := some L.current } d
  | modeSet (x : μ) (w : σ) (h : L.replaced = some w) : LaneTo F u L d (.modeSet x)
      L (F.modeSet u x L.current d)
  | update (x : υ) (w : σ) (h : L.replaced = some w) : LaneTo F u L d (.update x)
      { L with replaced := none, updated := w :: L.updated } (F.atomicUpdate u x w L.current d)
  | cleanup (n : ℕ) (v : σ) (h : L.updated[n]? = some v) : LaneTo F u L d (.cleanup n)
      { L with updated := L.updated.eraseIdx n, cleaned := (F.cleanupFb v d).1 :: L.cleaned }
      (F.cleanupFb v d).2
  | destroy (n : ℕ) (v : σ) (h : L.cleaned[n]? = some v) : LaneTo F u L d (.destroy n)
      { L with cleaned := L.cleaned.eraseIdx n } (F.destroyState v d)

variable {F : PlaneFuncs ι σ δ κ ε μ υ} {good : Stage → σ → Prop} {f : Stage → σ → ℤ} {g : δ → ℤ} {u : ι}
  {L L' : Lane σ} {d d' : δ} {a : LaneOp κ ε μ υ}

theorem laneTo_of_step (h : laneStep F u L d a = some (L', d')) : LaneTo F u L d a L' d' := by
  cases a <;> simp only [laneStep] at h
  case modeSet x =>
    obtain ⟨hsome, he⟩ := Option.ite_none_right_eq_some.1 h
    obtain ⟨w, hw⟩ := Option.isSome_iff_exists.1 hsome
    cases he
    exact .modeSet x w hw
  all_goals
    split at h <;> cases h
  · exact .duplicate _ ‹_›
  · exact .prepare _ _ ‹_›
  · exact .rollBack _ ‹_›
  · exact .discard .fresh _ (by simp) ‹_›
  · exact .discard .spent _ (by simp) ‹_›
  · exact .swap _ ‹_› ‹_›
  · exact .update _ _ ‹_›
  · exact .cleanup _ _ ‹_›
  · exact .destroy _ _ ‹_›

/-- Each function takes a state object from its stage to the next. -/
structure Staged (F : PlaneFuncs ι σ δ κ ε μ υ) (good : Stage → σ → Prop) : Prop where
  duplicate : ∀ k v d, good .prepared v → good .fresh (F.duplicateState k v d).1
  prepare : ∀ e v d, good .fresh v →
    good (if (F.prepareFb e v d).1 then .prepared else .spent) (F.prepareFb e v d).2.1
  cleanup : ∀ v d, good .prepared v → good .spent (F.cleanupFb v d).1

structure LaneOk (good : Stage → σ → Prop) (L : Lane σ) : Prop where
  current : good .prepared L.current
  next : ∀ x ∈ L.next, good x.1 x.2
  replaced : ∀ v ∈ L.replaced, good .prepared v
  updated : ∀ v ∈ L.updated, good .prepared v
  cleaned : ∀ v ∈ L.cleaned, good .spent v

theorem LaneOk.to (hF : Staged F good) (hL : LaneOk good L) (h : LaneTo F u L d a L' d') :
    LaneOk good L' := by
  obtain ⟨hcurrent, hnext, hreplaced, hupdated, hcleaned⟩ := hL
  cases h with
  | duplicate k h =>
    refine ⟨hcurrent, fun x hx => ?_, hreplaced, hupdated, hcleaned⟩
    cases hx
    exact hF.duplicate k _ _ hcurrent
  | prepare e v h =>
    refine ⟨hcurrent, fun x hx => ?_, hreplaced, hupdated, hcleaned⟩
    cases hx
    exact hF.prepare e v _ (hnext _ h)
  | rollBack v h =>
    refine ⟨hcurrent, fun x hx => ?_, hreplaced, hupdated, hcleaned⟩
    cases hx
    exact hF.cleanup v _ (hnext _ h)
  | discard g v hg h => exact ⟨hcurrent, fun _ hx => (by cases hx), hreplaced, hupdated, hcleaned⟩
  | swap v h hr =>
    refine ⟨hnext _ h, fun _ hx => (by cases hx), fun w hw => ?_, hupdated, hcleaned⟩
    cases hw
    exact hcurrent
  | modeSet x w h => exact ⟨hcurrent, hnext, hreplaced, hupdated, hcleaned⟩
  | update x w h =>
    refine ⟨hcurrent, hnext, fun _ hx => (by cases hx), fun v hv => ?_, hcleaned⟩
    obtain rfl | hv := List.mem_cons.1 hv
    · exact hreplaced _ h
    · exact hupdated v hv
  | cleanup n v h =>
    refine ⟨hcurrent, hnext, hreplaced, fun w hw => hupdated w (List.mem_of_mem_eraseIdx hw),
      fun w hw => ?_⟩
    obtain rfl | hw := List.mem_cons.1 hw
    · exact hF.cleanup v _ (hupdated v (List.mem_of_getElem? h))
    · exact hcleaned w hw
  | destroy n v h =>
    exact ⟨hcurrent, hnext, hreplaced, hupdated, fun w hw => hcleaned w (List.mem_of_mem_eraseIdx hw)⟩

theorem LaneOk.shown (hL : LaneOk good L) : good .prepared (L.replaced.getD L.current) := by
  cases hr : L.replaced with
  | none => exact hL.current
  | some w => exact hL.replaced w hr

/-- The state objects of a plane that are not destroyed, with their stages. -/
def Lane.states (L : Lane σ) : List (Stage × σ) :=
  (.prepared, L.current) :: (L.next.toList ++ L.replaced.toList.map (Prod.mk .prepared) ++
    L.updated.map (Prod.mk .prepared) ++ L.cleaned.map (Prod.mk .spent))

theorem replaced_mem_states (L : Lane σ) : (.prepared, L.replaced.getD L.current) ∈ L.states := by
  unfold Lane.states
  cases L.replaced <;> simp

def total (f : Stage → σ → ℤ) (L : Lane σ) : ℤ := (L.states.map fun x => f x.1 x.2).sum

/-- `g` counts what the state objects hold, `f` for each. -/
structure Counts (F : PlaneFuncs ι σ δ κ ε μ υ) (good : Stage → σ → Prop) (f : Stage → σ → ℤ)
    (g : δ → ℤ) : Prop where
  duplicate : ∀ k v d, good .prepared v →
    g (F.duplicateState k v d).2 = g d + f .fresh (F.duplicateState k v d).1
  prepare : ∀ e v d, good .fresh v → g (F.prepareFb e v d).2.2 + f .fresh v =
    g d + f (if (F.prepareFb e v d).1 then .prepared else .spent) (F.prepareFb e v d).2.1
  modeSet : ∀ u x v d, g (F.modeSet u x v d) = g d
  update : ∀ u x v w d, g (F.atomicUpdate u x v w d) = g d
  cleanup : ∀ v d, good .prepared v →
    g (F.cleanupFb v d).2 + f .prepared v = g d + f .spent (F.cleanupFb v d).1
  destroy : ∀ c v d, c ≠ Stage.prepared → good c v → g (F.destroyState v d) + f c v = g d

theorem total_eq (f : Stage → σ → ℤ) (L : Lane σ) : total f L =
    f .prepared L.current + (L.next.elim 0 fun x => f x.1 x.2) + L.replaced.elim 0 (f .prepared) +
      (L.updated.map (f .prepared)).sum + (L.cleaned.map (f .spent)).sum := by
  unfold total Lane.states
  simp only [List.map_cons, List.map_append, List.sum_cons, List.sum_append, List.map_map]
  cases L.next <;> cases L.replaced <;> simp [add_assoc, Function.comp_def]

theorem sum_eraseIdx (f : σ → ℤ) {l : List σ} {n : ℕ} {v : σ} (h : l[n]? = some v) :
    f v + ((l.eraseIdx n).map f).sum = (l.map f).sum := by
  obtain ⟨hn, rfl⟩ := List.getElem?_eq_some_iff.1 h
  exact ((List.getElem_cons_eraseIdx_perm hn).map f).sum_eq

theorem Counts.to (hF : Counts F good f g) (hL : LaneOk good L) (h : LaneTo F u L d a L' d') :
    g d' + total f L = g d + total f L' := by
  rw [total_eq, total_eq]
  cases h with
  | duplicate k h =>
    rw [hF.duplicate k _ _ hL.current, h]
    simp only [Option.elim_none, Option.elim_some]
    ring
  | prepare e v h =>
    have := hF.prepare e v d (hL.next _ h)
    rw [h]
    simp only [Option.elim_some]
    linarith
  | rollBack v h =>
    have := hF.cleanup v d (hL.next _ h)
    rw [h]
    simp only [Option.elim_some]
    linarith
  | discard c v hc h =>
    have := hF.destroy c v d hc (hL.next _ h)
    rw [h]
    simp only [Option.elim_some, Option.elim_none]
    linarith
  | swap v h hr =>
    rw [h, hr]
    simp only [Option.elim_some, Option.elim_none]
    ring
  | modeSet x w h => rw [hF.modeSet]
  | update x w h =>
    rw [hF.update, h]
    simp only [Option.elim_some, Option.elim_none, List.map_cons, List.sum_cons]
    ring
  | cleanup n v h =>
    have := hF.cleanup v d (hL.updated v (List.mem_of_getElem? h))
    have := sum_eraseIdx (f .prepared) h
    simp only [List.map_cons, List.sum_cons]
    linarith
  | destroy n v h =>
    have := hF.destroy .spent v d (by simp) (hL.cleaned v (List.mem_of_getElem? h))
    have := sum_eraseIdx (f .spent) h
    dsimp only
    linarith

section Runs
variable [DecidableEq ι] {admits : Device ι σ δ → ι × LaneOp κ ε μ υ → Prop} {s t : Device ι σ δ}
  {as : List (ι × LaneOp κ ε μ υ)}

theorem step_eq_some {x : ι × LaneOp κ ε μ υ} (h : step F s x = some t) :
    ∃ L d, LaneTo F x.1 (s.lanes x.1) s.rest x.2 L d ∧ t = ⟨Function.update s.lanes x.1 L, d⟩ := by
  obtain ⟨⟨L, d⟩, hr, rfl⟩ := Option.map_eq_some_iff.1 h
  exact ⟨L, d, laneTo_of_step hr, rfl⟩

theorem lanesOk_of_runs (hF : Staged F good) (h : Runs (step F) admits s as t)
    (hs : ∀ u, LaneOk good (s.lanes u)) : ∀ u, LaneOk good (t.lanes u) := by
  refine h.invariant (fun s => ∀ u, LaneOk good (s.lanes u)) hs fun s x v hs _ hx w => ?_
  obtain ⟨L, d, hto, rfl⟩ := step_eq_some hx
  dsimp only
  by_cases hw : w = x.1
  · subst hw
    rw [Function.update_self]
    exact (hs _).to hF hto
  · rw [Function.update_of_ne hw]
    exact hs w

theorem counted_of_runs [Fintype ι] (hF : Staged F good) (hc : Counts F good f g)
    (h : Runs (step F) admits s as t) (hs : ∀ u, LaneOk good (s.lanes u))
    (hcount : g s.rest = ∑ u, total f (s.lanes u)) : g t.rest = ∑ u, total f (t.lanes u) := by
  refine (h.invariant (fun s => (∀ u, LaneOk good (s.lanes u)) ∧
    g s.rest = ∑ u, total f (s.lanes u)) ⟨hs, hcount⟩ fun s x v hs hok hx => ?_).2
  refine ⟨lanesOk_of_runs hF (.next hok hx (.refl v)) hs.1, ?_⟩
  obtain ⟨L, d, hto, rfl⟩ := step_eq_some hx
  have hlane := hc.to (hs.1 x.1) hto
  have hsum := Finset.add_sum_erase Finset.univ (fun u => total f (s.lanes u)) (Finset.mem_univ x.1)
  have hsum' := Finset.add_sum_erase Finset.univ
    (fun u => total f (Function.update s.lanes x.1 L u)) (Finset.mem_univ x.1)
  have hrest : ∑ u ∈ Finset.univ.erase x.1, total f (Function.update s.lanes x.1 L u) =
      ∑ u ∈ Finset.univ.erase x.1, total f (s.lanes u) :=
    Finset.sum_congr rfl fun u hu => by rw [Function.update_of_ne (Finset.ne_of_mem_erase hu)]
  rw [Function.update_self, hrest] at hsum'
  have := hs.2
  dsimp only
  linarith

omit [DecidableEq ι] in
theorem le_counted [Fintype ι] (hf : ∀ c v, 0 ≤ f c v) {c : Stage} {v : σ}
    (hv : (c, v) ∈ (s.lanes u).states) : f c v ≤ ∑ u, total f (s.lanes u) := by
  have hnonneg : ∀ L : Lane σ, 0 ≤ total f L := fun L =>
    List.sum_nonneg fun x hx => by
      obtain ⟨w, -, rfl⟩ := List.mem_map.1 hx
      exact hf w.1 w.2
  calc
    f c v ≤ total f (s.lanes u) :=
      List.single_le_sum (fun x hx => by
        obtain ⟨w, -, rfl⟩ := List.mem_map.1 hx
        exact hf w.1 w.2) _ (List.mem_map_of_mem (f := fun x : Stage × σ => f x.1 x.2) hv)
    _ ≤ ∑ u, total f (s.lanes u) :=
      Finset.single_le_sum (fun w _ => hnonneg (s.lanes w)) (Finset.mem_univ u)

theorem planes_of_runs {Q : ι → Lane σ → δ → Prop} (hF : Staged F good)
    (h : Runs (step F) admits s as t) (hs : ∀ u, LaneOk good (s.lanes u))
    (hQ : ∀ u, Q u (s.lanes u) s.rest)
    (hown : ∀ (s : Device ι σ δ) u a L d, (∀ w, LaneOk good (s.lanes w)) → admits s (u, a) →
      Q u (s.lanes u) s.rest → LaneTo F u (s.lanes u) s.rest a L d → Q u L d)
    (hother : ∀ (s : Device ι σ δ) u a L d w, w ≠ u → (∀ w, LaneOk good (s.lanes w)) →
      Q w (s.lanes w) s.rest → LaneTo F u (s.lanes u) s.rest a L d → Q w (s.lanes w) d) :
    ∀ u, Q u (t.lanes u) t.rest := by
  refine (h.invariant (fun s => (∀ u, LaneOk good (s.lanes u)) ∧ ∀ u, Q u (s.lanes u) s.rest)
    ⟨hs, hQ⟩ fun s x v hs hok hx => ?_).2
  refine ⟨lanesOk_of_runs hF (.next hok hx (.refl v)) hs.1, fun w => ?_⟩
  obtain ⟨L, d, hto, rfl⟩ := step_eq_some hx
  dsimp only
  by_cases hw : w = x.1
  · subst hw
    rw [Function.update_self]
    exact hown s _ _ L d hs.1 hok (hs.2 _) hto
  · rw [Function.update_of_ne hw]
    exact hother s _ _ L d w hw hs.1 (hs.2 w) hto

end Runs

end Vmwgfx.AtomicCommits
