import Vmwgfx.ListPlaces
import Vmwgfx.Views

set_option autoImplicit false

/-!
# The lists of views

A view that is committed and has an id is on the list of its surface and on that of its
table, once. The one way to a freed view on a list is a last reference whose destruction
finds no space in the FIFO.
-/
namespace Vmwgfx.Views
open ExecbufState (Errno)
open LabelledRuns ListPlaces

def placeOf (head : View → ℕ) (V : Option View) : Option ℕ :=
  V.bind fun V => if V.committed = true ∧ V.id ≠ -1 then some (head V) else none

def places (head : View → ℕ) (s : ViewDev) (v : ℕ) : Option ℕ := placeOf head (s.views v)

structure Inv (s : ViewDev) : Prop where
  surfaces : Listed (places View.srf s) s.viewList
  tables : Listed (places View.cotable s) s.resourceList
  staged : ∀ v V, s.views v = some V → V.phase = .staged → V.committed = false

def Destroyable (space : Bool) (V : View) : Prop := V.committed = true → V.id ≠ -1 → space = true

/-- The last reference of a view goes only where its destruction does not fail. -/
def admits (s : ViewDev) : Op → Prop
  | .manDestroy space v | .drop space v =>
    ∀ V, s.views v = some V → V.refs ≤ 1 → Destroyable space V
  | _ => True

variable {head : View → ℕ} {v : ℕ} {V W : View} {s t : ViewDev} {space : Bool}

theorem placeOf_congr (hcommitted : W.committed = V.committed) (hid : W.id = V.id)
    (hhead : head W = head V) : placeOf head (some W) = placeOf head (some V) := by
  simp only [placeOf, Option.bind_some, hcommitted, hid, hhead]

theorem placeOf_listed (hcommitted : V.committed = true) (hid : V.id ≠ -1) :
    placeOf head (some V) = some (head V) := by
  simp [placeOf, hcommitted, hid]

theorem placeOf_unlisted (h : V.committed = true → V.id = -1) :
    placeOf head (some V) = none := by
  simp only [placeOf, Option.bind_some]
  exact if_neg fun hV => hV.2 (h hV.1)

theorem placeOf_eq {a : ℕ} (h : placeOf head (some V) = some a) : a = head V := by
  simp only [placeOf, Option.bind_some] at h
  split_ifs at h
  exact (Option.some.inj h).symm

theorem places_update (V : Option View) (h : t.views = Function.update s.views v V) :
    places head t = Function.update (places head s) v (placeOf head V) := by
  funext w
  unfold places
  rw [h]
  by_cases hw : w = v
  · subst hw
    rw [Function.update_self, Function.update_self]
  · rw [Function.update_of_ne hw, Function.update_of_ne hw]

theorem Inv.keep (h : Inv s) (V : Option View)
    (hplace : ∀ head : View → ℕ, (head = View.srf ∨ head = View.cotable) →
      placeOf head V = placeOf head (s.views v))
    (hstaged : ∀ W, V = some W → W.phase = .staged → W.committed = false) :
    Inv (setView v V s) := by
  have hkeep : ∀ head : View → ℕ, (head = View.srf ∨ head = View.cotable) →
      places head (setView v V s) = places head s := by
    intro head hhead
    rw [places_update V rfl, hplace head hhead]
    exact Function.update_eq_self v _
  constructor
  · rw [hkeep _ (.inl rfl)]
    exact h.surfaces
  · rw [hkeep _ (.inr rfl)]
    exact h.tables
  · intro w W hW
    by_cases hwv : w = v
    · subst hwv
      rw [setView_self] at hW
      exact hstaged W hW
    · rw [setView_of_ne hwv] at hW
      exact h.staged w W hW

theorem Inv.link (h : Inv s) (hV : s.views v = some V) (hoff : V.committed = true → V.id = -1)
    (hW : W.committed = true ∧ W.id ≠ -1) (hsrf : W.srf = V.srf) (hcotable : W.cotable = V.cotable)
    (hphase : W.phase ≠ .staged) (hviews : t.views = Function.update s.views v (some W))
    (hsurface : t.viewList = Function.update s.viewList V.srf (s.viewList V.srf ++ [v]))
    (htable : t.resourceList =
      Function.update s.resourceList V.cotable (s.resourceList V.cotable ++ [v])) : Inv t := by
  have hnone : ∀ head : View → ℕ, places head s v = none := by
    intro head
    rw [places, hV]
    exact placeOf_unlisted hoff
  constructor
  · rw [places_update _ hviews, placeOf_listed hW.1 hW.2, hsrf, hsurface]
    exact h.surfaces.append (hnone _)
  · rw [places_update _ hviews, placeOf_listed hW.1 hW.2, hcotable, htable]
    exact h.tables.append (hnone _)
  · intro w U hU hstaged
    rw [hviews] at hU
    by_cases hwv : w = v
    · subst hwv
      rw [Function.update_self] at hU
      obtain rfl := Option.some.inj hU
      exact absurd hstaged hphase
    · rw [Function.update_of_ne hwv] at hU
      exact h.staged w U hU hstaged

theorem Inv.unlink (h : Inv s) (hV : s.views v = some V) {U : Option View}
    (hoff : ∀ W, U = some W → W.committed = true → W.id = -1)
    (hstaged : ∀ W, U = some W → W.phase = .staged → W.committed = false)
    (hviews : t.views = Function.update s.views v U)
    (hsurface : t.viewList = Function.update s.viewList V.srf ((s.viewList V.srf).erase v))
    (htable : t.resourceList =
      Function.update s.resourceList V.cotable ((s.resourceList V.cotable).erase v)) : Inv t := by
  have hnone : ∀ head : View → ℕ, placeOf head U = none := by
    intro head
    cases U with
    | none => rfl
    | some W => exact placeOf_unlisted (hoff W rfl)
  have hplace : ∀ head : View → ℕ, ∀ a, places head s v = some a → a = head V := by
    intro head a ha
    rw [places, hV] at ha
    exact placeOf_eq ha
  constructor
  · rw [places_update _ hviews, hnone, hsurface]
    exact h.surfaces.erase (hplace _)
  · rw [places_update _ hviews, hnone, htable]
    exact h.tables.erase (hplace _)
  · intro w W hW
    rw [hviews] at hW
    by_cases hwv : w = v
    · subst hwv
      rw [Function.update_self] at hW
      exact hstaged W hW
    · rw [Function.update_of_ne hwv] at hW
      exact h.staged w W hW

theorem vmwViewDestroy_off (h : V.committed = true → V.id = -1) :
    vmwViewDestroy space v V s = (none, s) := by
  unfold vmwViewDestroy
  rw [if_pos]
  cases hc : V.committed with
  | false => rfl
  | true => simp [h hc]

theorem vmwViewDestroy_noSpace : (vmwViewDestroy false v V s).2 = s := by
  unfold vmwViewDestroy
  split_ifs with hoff hspace
  · rfl
  · rfl
  · exact absurd rfl hspace

theorem Inv.destroyed (h : Inv s) (hV : s.views v = some V)
    (hon : ¬ (V.committed = true → V.id = -1)) :
    Inv (vmwViewDestroy true v V s).2 ∧ Inv (setView v none (vmwViewDestroy true v V s).2) := by
  have hskip : ¬ (!V.committed || V.id == -1) = true := by
    intro hor
    apply hon
    simpa [Bool.or_eq_true, imp_iff_not_or] using hor
  unfold vmwViewDestroy
  rw [if_neg hskip, if_neg (by simp)]
  constructor
  · apply h.unlink (U := some { V with id := -1 }) hV
    · intro W hW _
      rw [← Option.some.inj hW]
    · intro W hW hstaged
      obtain rfl := Option.some.inj hW
      exact h.staged v V hV hstaged
    · rfl
    · rfl
    · rfl
  · apply h.unlink (U := none) hV
    · intro W hW
      cases hW
    · intro W hW
      cases hW
    · exact Function.update_idem ..
    · rfl
    · rfl

theorem Inv.destroy (h : Inv s) (hV : s.views v = some V) :
    Inv (vmwViewDestroy space v V s).2 := by
  by_cases hon : V.committed = true → V.id = -1
  · rwa [vmwViewDestroy_off hon]
  · cases space with
    | false => rwa [vmwViewDestroy_noSpace]
    | true => exact (h.destroyed hV hon).1

theorem Inv.free (h : Inv s) (hV : s.views v = some V) (hoff : V.committed = true → V.id = -1) :
    Inv (setView v none s) := by
  apply h.keep none
  · intro head _
    rw [hV, placeOf_unlisted hoff]
    rfl
  · intro W hW
    cases hW

theorem Inv.release (h : Inv s) (hV : s.views v = some V) (hspace : Destroyable space V) :
    Inv (vmwResourceRelease space v V s) := by
  unfold vmwResourceRelease
  by_cases hon : V.committed = true → V.id = -1
  · rw [vmwViewDestroy_off hon]
    exact h.free hV hon
  · obtain ⟨hcommitted, hid⟩ := Classical.not_imp.1 hon
    rw [hspace hcommitted hid]
    exact (h.destroyed hV hon).2

theorem Inv.change (h : Inv s) (hV : s.views v = some V) (hcommitted : W.committed = V.committed)
    (hid : W.id = V.id) (hsrf : W.srf = V.srf) (hcotable : W.cotable = V.cotable)
    (hphase : W.phase = .staged → V.phase = .staged) : Inv (setView v (some W) s) := by
  apply h.keep (some W)
  · intro head hhead
    rw [hV]
    apply placeOf_congr hcommitted hid
    rcases hhead with rfl | rfl
    · exact hsrf
    · exact hcotable
  · intro U hU hstaged
    obtain rfl := Option.some.inj hU
    rw [hcommitted]
    exact h.staged v V hV (hphase hstaged)

theorem Inv.unreference (h : Inv s) (hV : s.views v = some V)
    (hspace : V.refs ≤ 1 → Destroyable space V) : Inv (vmwResourceUnreference space v V s) := by
  unfold vmwResourceUnreference
  split_ifs with hlast
  · exact h.release hV (hspace hlast)
  · exact h.change hV rfl rfl rfl rfl id

theorem vmwResourceUnreference_setView :
    vmwResourceUnreference space v V (setView v (some W) s) =
      vmwResourceUnreference space v V s := by
  unfold vmwResourceUnreference vmwResourceRelease vmwViewDestroy
  split_ifs <;> simp [setView, emit, unlink, Function.update_idem]

theorem Inv.resFree (h : Inv s) (hV : s.views v = some V)
    (hspace : V.refs ≤ 1 → Destroyable space V) : Inv (vmwCmdbufResFree space v V s) := by
  have hgone : Inv (setView v (some { V with phase := .gone }) s) :=
    h.change hV rfl rfl rfl rfl fun hstaged => by cases hstaged
  have hfree := hgone.unreference (V := { V with phase := .gone }) (setView_self ..) hspace
  rwa [vmwResourceUnreference_setView] at hfree

theorem Inv.notifyRemove (h : Inv s) (hV : s.views v = some V) (hphase : V.phase ≠ .staged) :
    Inv (notifyRemove v V s) := by
  apply h.unlink (U := some { V with committed := false, id := -1 }) hV
  · intro W hW _
    rw [← Option.some.inj hW]
  · intro W hW hstaged
    obtain rfl := Option.some.inj hW
    exact absurd hstaged hphase
  · rfl
  · rfl
  · rfl

theorem Inv.create (h : Inv s) (hV : s.views v = some V) (hid : V.id = -1) :
    Inv (vmwViewCreate space v V s).2 := by
  unfold vmwViewCreate
  split_ifs with hcommitted hspace
  · exact h
  · exact h
  · have hcommitted : V.committed = true := by simpa using hcommitted
    apply h.link (W := { V with id := V.viewId }) hV (fun _ => hid)
    · exact ⟨hcommitted, by simp⟩
    · rfl
    · rfl
    · intro hstaged
      have hoff := h.staged v V hV hstaged
      rw [hcommitted] at hoff
      cases hoff
    · rfl
    · rfl
    · rfl

theorem vmwViewDestroy_alive (w : ℕ) (hV : s.views v = some V) :
    ((vmwViewDestroy space v V s).2.views w).isSome = (s.views w).isSome := by
  unfold vmwViewDestroy
  split_ifs
  · rfl
  · rfl
  · have hviews : ∀ W t, (unlink v V (setView v W t)).views w = (setView v W t).views w :=
      fun W t => rfl
    simp only [hviews]
    by_cases hw : w = v
    · subst hw
      rw [hV, setView_self]
      rfl
    · rw [setView_of_ne hw]
      rfl

theorem Inv.listDestroy (h : Inv s) {l : List ℕ} (hl : ∀ v ∈ l, (s.views v).isSome = true)
    (space : ℕ → Bool) : ∃ t, listDestroy space l s = some t ∧ Inv t := by
  induction l generalizing s with
  | nil => exact ⟨s, rfl, h⟩
  | cons v l ih =>
    obtain ⟨V, hV⟩ := Option.isSome_iff_exists.1 (hl v List.mem_cons_self)
    have hone : Inv (vmwViewDestroy (space v) v V s).2 := h.destroy hV
    obtain ⟨t, ht, hinv⟩ := ih hone fun w hw => by
      rw [vmwViewDestroy_alive w hV]
      exact hl w (List.mem_cons_of_mem v hw)
    refine ⟨t, ?_, hinv⟩
    rw [Views.listDestroy, hV]
    exact ht

theorem alive_of_listed {lists : ℕ → List ℕ} (h : Listed (places head s) lists) {a : ℕ} :
    ∀ v ∈ lists a, (s.views v).isSome = true := by
  intro v hv
  have hplace := h.mem_iff.1 hv
  unfold places at hplace
  cases hV : s.views v with
  | none =>
    rw [hV] at hplace
    cases hplace
  | some V => rfl

theorem onView_eq_some {p : EntryPhase → Bool} {f : View → ViewDev}
    (h : onView p v s f = some t) : ∃ V, s.views v = some V ∧ p V.phase = true ∧ t = f V := by
  unfold onView at h
  split at h
  · cases h
  · next V hV =>
    split_ifs at h with hp
    exact ⟨V, hV, hp, (Option.some.inj h).symm⟩

theorem step_inv (s : ViewDev) (op : Op) (t : ViewDev) (h : Inv s) (hok : admits s op)
    (hs : step s op = some t) : Inv t := by
  cases op with
  | add v srf cotable viewType userKey =>
    simp only [step] at hs
    split_ifs at hs with hfree hkey
    · obtain rfl := Option.some.inj hs
      apply h.keep
      · intro head _
        rw [hfree]
        exact placeOf_unlisted fun hcommitted => by cases hcommitted
      · intro W hW _
        rw [← Option.some.inj hW]
    · obtain rfl := Option.some.inj hs
      exact h
  | commitAdd v =>
    simp only [step] at hs
    obtain ⟨V, hV, hphase, rfl⟩ := onView_eq_some hs
    have hstaged := h.staged v V hV (of_decide_eq_true hphase)
    apply h.link (W := { V with phase := .committed, committed := true, id := V.viewId }) hV
    · intro hcommitted
      rw [hstaged] at hcommitted
      cases hcommitted
    · exact ⟨rfl, by simp⟩
    · rfl
    · rfl
    · intro hstaged
      cases hstaged
    · rfl
    · rfl
    · rfl
  | revertAdd space v =>
    simp only [step] at hs
    obtain ⟨V, hV, hphase, rfl⟩ := onView_eq_some hs
    apply h.resFree hV
    intro _ hcommitted
    -- a view that is only staged is not on the device yet
    rw [h.staged v V hV (of_decide_eq_true hphase)] at hcommitted
    cases hcommitted
  | remove v =>
    simp only [step] at hs
    obtain ⟨V, hV, _, rfl⟩ := onView_eq_some hs
    exact h.change hV rfl rfl rfl rfl fun hstaged => by cases hstaged
  | commitRemove space v =>
    simp only [step] at hs
    obtain ⟨V, hV, hphase, rfl⟩ := onView_eq_some hs
    have hremoving : V.phase ≠ .staged := by
      rw [of_decide_eq_true hphase]
      exact EntryPhase.noConfusion
    apply (h.notifyRemove hV hremoving).resFree (setView_self ..)
    intro _ hcommitted
    cases hcommitted
  | revertRemove v =>
    simp only [step] at hs
    obtain ⟨V, hV, _, rfl⟩ := onView_eq_some hs
    exact h.change hV rfl rfl rfl rfl fun hstaged => by cases hstaged
  | manDestroy space v =>
    simp only [step] at hs
    obtain ⟨V, hV, _, rfl⟩ := onView_eq_some hs
    exact h.resFree hV (hok V hV)
  | hold v =>
    simp only [step] at hs
    obtain ⟨V, hV, _, rfl⟩ := onView_eq_some hs
    exact h.change hV rfl rfl rfl rfl id
  | drop space v =>
    simp only [step] at hs
    split at hs
    · cases hs
    · next V hV =>
      split_ifs at hs
      obtain rfl := Option.some.inj hs
      exact h.unreference hV (hok V hV)
  | create space v =>
    simp only [step] at hs
    split at hs
    · cases hs
    · next V hV =>
      split_ifs at hs with hid
      obtain rfl := Option.some.inj hs
      exact h.create hV hid
  | surfaceListDestroy space srf =>
    obtain ⟨u, hu, hinv⟩ := h.listDestroy (alive_of_listed h.surfaces) space
    obtain rfl := Option.some.inj (hu.symm.trans hs)
    exact hinv
  | cotableListDestroy space cotable =>
    obtain ⟨u, hu, hinv⟩ := h.listDestroy (alive_of_listed h.tables) space
    obtain rfl := Option.some.inj (hu.symm.trans hs)
    exact hinv

theorem start_inv : Inv start where
  surfaces := listed_nil
  tables := listed_nil
  staged v V hV := by cases hV

theorem runs_inv {ops : List Op} (h : Runs step admits start ops s) : Inv s :=
  h.invariant Inv start_inv step_inv

/-- Where the last reference of a view on the device goes without space in the FIFO, a freed
    view is left on the lists. -/
theorem vmwResourceRelease_noSpace (h : Inv s) (hV : s.views v = some V)
    (hcommitted : V.committed = true) (hid : V.id ≠ -1) :
    let t := vmwResourceRelease false v V s
    t.views v = none ∧ v ∈ t.viewList V.srf ∧ v ∈ t.resourceList V.cotable := by
  have hplace : ∀ head : View → ℕ, places head s v = some (head V) := by
    intro head
    rw [places, hV]
    exact placeOf_listed hcommitted hid
  unfold vmwResourceRelease
  rw [vmwViewDestroy_noSpace]
  exact ⟨setView_self .., h.surfaces.mem_iff.2 (hplace _), h.tables.mem_iff.2 (hplace _)⟩

/-- A view that is alive is on the list of its surface and on that of its table, once each, if
    it is committed and has an id, and on none otherwise; one that is freed is on none. So
    every eviction of a surface or of a table finds the views on its list. -/
theorem runs_listed {ops : List Op} (h : Runs step admits start ops s) :
    (∀ v V, s.views v = some V → ∀ a,
      ((s.viewList a).count v =
        if (V.committed = true ∧ V.id ≠ -1) ∧ a = V.srf then 1 else 0) ∧
      (s.resourceList a).count v =
        if (V.committed = true ∧ V.id ≠ -1) ∧ a = V.cotable then 1 else 0) ∧
    (∀ v, s.views v = none → ∀ a, v ∉ s.viewList a ∧ v ∉ s.resourceList a) ∧
    ∀ space a, (∃ t, step s (.surfaceListDestroy space a) = some t) ∧
      ∃ t, step s (.cotableListDestroy space a) = some t := by
  have hinv := runs_inv h
  refine ⟨?_, ?_, ?_⟩
  · intro v V hV a
    rw [hinv.surfaces v a, hinv.tables v a]
    unfold places placeOf
    rw [hV]
    simp only [Option.bind_some]
    constructor
    · split_ifs <;> simp_all
    · split_ifs <;> simp_all
  · intro v hV a
    rw [hinv.surfaces.mem_iff, hinv.tables.mem_iff]
    unfold places
    rw [hV]
    simp [placeOf]
  · intro space a
    obtain ⟨t, ht, _⟩ := hinv.listDestroy (alive_of_listed hinv.surfaces) space
    obtain ⟨u, hu, _⟩ := hinv.listDestroy (alive_of_listed hinv.tables) space
    exact ⟨⟨t, ht⟩, ⟨u, hu⟩⟩

/-- Two views of a surface that is evicted, once without space for the second one. -/
def evictedRun : List Op :=
  [.add 0 8 9 0 5, .add 1 8 9 1 6, .commitAdd 0, .commitAdd 1, .hold 1,
   .surfaceListDestroy (· == 0) 8, .remove 0, .create false 0, .create true 0]

theorem evictedRun_listed : ∃ s, Runs step admits start evictedRun s ∧
    s.viewList 8 = [1, 0] ∧ s.resourceList 9 = [1, 0] ∧ (s.viewList 8).count 0 = 1 ∧
    ∃ t, step s (.surfaceListDestroy (fun _ => true) 8) = some t := by
  let s := (exec step start evictedRun).getD start
  have hrun : Runs step admits start evictedRun s := by
    apply Runs.of_exec
    · intro op hop s
      fin_cases hop <;> trivial
    · rfl
  have hlisted := runs_listed hrun
  have hview : s.views 0 = some ⟨8, 9, 0, 5, true, 5, .removing, 1⟩ := by decide
  exact ⟨s, hrun, by decide, by decide, (hlisted.1 0 _ hview 8).1, (hlisted.2.2 _ 8).1⟩

/-- The manager is destroyed while the FIFO has no space. -/
def failedRun : List Op := [.add 0 8 9 0 5, .commitAdd 0, .manDestroy false 0]

theorem failedRun_listed : ∃ s, Runs step anyLabel start failedRun s ∧ s.views 0 = none ∧
    0 ∈ s.viewList 8 ∧ 0 ∈ s.resourceList 9 ∧
    step s (.surfaceListDestroy (fun _ => true) 8) = none :=
  ⟨(exec step start failedRun).getD start, runs_getD (by decide), by decide, by decide, by decide,
    by decide⟩

end Vmwgfx.Views
