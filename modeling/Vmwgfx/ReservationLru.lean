import Vmwgfx.Reservations

set_option autoImplicit false

/-!
# Reservations that are undone

When a reservation or a preparation fails, every resource that it had reserved is put back on
its list if it may be evicted, and those that it had not reserved are where they were.
-/
namespace Vmwgfx.Reservations
open ExecbufState (Errno)
open LabelledRuns Resources

variable {r q : ℕ} {R : Res} {s t u : ResDev} {v : ResNode} {vs ws : List ResNode}
  {c d : ValContext} {e : Errno}

theorem unreserveNodes_spec (vs : List ResNode) (h : LruOk s) :
    LruOk (unreserveNodes true vs s) ∧ (unreserveNodes true vs s).res = s.res ∧
      ∀ q, OnLru (unreserveNodes true vs s) q ↔
        OnLru s q ∨ EvictableAt s q ∧ ∃ v ∈ vs, v.res = q ∧ v.reserved = true := by
  induction vs generalizing s with
  | nil => exact ⟨h, rfl, fun q => by simp [unreserveNodes]⟩
  | cons v vs ih =>
    cases hreserved : v.reserved with
    | false =>
      obtain ⟨hok, hres, hon⟩ := ih h
      simp only [unreserveNodes, hreserved]
      refine ⟨hok, hres, fun q => (hon q).trans ?_⟩
      simp [hreserved]
    | true =>
      obtain ⟨hres', hon'⟩ := unreserveAt_spec v.res s
      obtain ⟨hok, hres, hon⟩ := ih (h.unreserveAt none v.res)
      simp only [unreserveNodes, hreserved]
      refine ⟨hok, hres.trans hres', fun q => (hon q).trans ?_⟩
      have hevict : EvictableAt (unreserveAt none v.res s) q ↔ EvictableAt s q := by
        rw [EvictableAt, EvictableAt, hres']
      rw [hon', hevict]
      constructor
      · rintro ((hq | ⟨rfl, hv⟩) | ⟨hq, w, hw, hwq⟩)
        · exact .inl hq
        · exact .inr ⟨hv, v, List.mem_cons_self, rfl, hreserved⟩
        · exact .inr ⟨hq, w, List.mem_cons_of_mem v hw, hwq⟩
      · rintro (hq | ⟨hq, w, hw, hwq, hwr⟩)
        · exact .inl (.inl hq)
        · rcases List.mem_cons.1 hw with rfl | hw
          · subst hwq
            exact .inl (.inr ⟨rfl, hq⟩)
          · exact .inr ⟨hq, w, hw, hwq, hwr⟩

/-- How far a reservation has come; `own` is the resource that failed itself. -/
structure Reserving (own : Option ℕ) (vs : List ResNode) (s t : ResDev) : Prop where
  ok : LruOk t
  sub : ∀ q, OnLru t q → OnLru s q
  kinds : kinds t = kinds s
  off : ∀ v ∈ vs, v.reserved = true → ¬ OnLru t v.res
  others : ∀ v ∈ vs, (∀ w ∈ vs, w.res = v.res → w.reserved = false) → own ≠ some v.res →
    OnLru s v.res → OnLru t v.res

theorem moveOuts_settles (h : LruOk s) (ms : Moves) : ∀ p, Settles p s (moveOuts ms s) := by
  induction ms generalizing s with
  | nil => exact fun p => Settles.refl h
  | cons m ms ih =>
    have hone := unbindList_settles h m.1 (s.resList m.2)
    intro p
    exact (hone p).trans (ih (hone p).ok p)

theorem unbindList_lru (o : ℕ → Option Errno × List ℕ) (l : List ℕ) (s : ResDev) :
    (vmwResourceUnbindList o l s).lru = s.lru := by
  induction l generalizing s with
  | nil => rfl
  | cons r l ih =>
    unfold vmwResourceUnbindList
    split
    · exact ih s
    · next R _ =>
      split_ifs
      · exact ih s
      · exact (ih _).trans (quiet_unbindOne (o r).1 (o r).2 r (R, s)).lru

theorem moveOuts_lru (ms : Moves) (s : ResDev) : (moveOuts ms s).lru = s.lru := by
  induction ms generalizing s with
  | nil => rfl
  | cons m ms ih => exact (ih _).trans (unbindList_lru m.1 _ s)

theorem onLru_lruDel (h : LruOk s) (hR : s.res r = some R) :
    OnLru (lruDel R.func.resType r s) q ↔ OnLru s q ∧ q ≠ r := by
  constructor
  · intro hq
    refine ⟨?_, ?_⟩
    · obtain ⟨ty, hmem⟩ := hq
      by_cases hty : ty = R.func.resType
      · subst hty
        rw [lruDel_self] at hmem
        exact ⟨_, List.mem_of_mem_erase hmem⟩
      · rw [lruDel_of_ne hty] at hmem
        exact ⟨ty, hmem⟩
    · rintro rfl
      exact h.off_lruDel hR hq
  · rintro ⟨⟨ty, hmem⟩, hqr⟩
    refine ⟨ty, ?_⟩
    by_cases hty : ty = R.func.resType
    · subst hty
      rw [lruDel_self]
      exact (List.mem_erase_of_ne hqr).2 hmem
    · rwa [lruDel_of_ne hty]

theorem reserveAt_spec (h : LruOk s) (o : Except Errno ℕ) (noBackup : Bool) (r : ℕ) :
    LruOk (reserveAt o noBackup r s).2 ∧ kinds (reserveAt o noBackup r s).2 = kinds s ∧
      ∀ q, OnLru (reserveAt o noBackup r s).2 q ↔ OnLru s q ∧ q ≠ r := by
  unfold reserveAt
  split
  · next hnone =>
    refine ⟨h, rfl, fun q => ⟨fun hq => ⟨hq, ?_⟩, And.left⟩⟩
    rintro rfl
    obtain ⟨ty, hmem⟩ := hq
    obtain ⟨R, hR, -⟩ := h.listed ty q hmem
    rw [hnone] at hR
    cases hR
  · next R hR =>
    obtain ⟨ret, b, hreserve, -⟩ := reserve_cases o noBackup r R s
    rw [hreserve]
    refine ⟨h.reserve hR _, ?_, fun q => onLru_lruDel h hR⟩
    funext q
    unfold kinds
    by_cases hqr : q = r
    · subst hqr
      rw [setRes_self, hR]
      rfl
    · rw [setRes_of_ne hqr]
      rfl

theorem reserveNode_cases {o : ReserveOut} {ret : Option Errno} {w : ResNode} (h : LruOk s)
    (hs : reserveNode o v s = (ret, w, t)) :
    LruOk t ∧ kinds t = kinds s ∧ (∀ q, OnLru t q ↔ OnLru s q ∧ q ≠ v.res) ∧ w.res = v.res ∧
      (ret.isSome = true ∧ w = v ∧
          (reserveAt o.alloc v.noBufferNeeded v.res (moveOuts o.moved s)).1.isSome = true ∨
        w.reserved = true ∧
          (reserveAt o.alloc v.noBufferNeeded v.res (moveOuts o.moved s)).1.isSome = false) := by
  have hmoved := moveOuts_settles h o.moved 0
  obtain ⟨hok, hkinds, hon⟩ := reserveAt_spec hmoved.ok o.alloc v.noBufferNeeded v.res
  have hkinds' := hkinds.trans hmoved.kinds
  have hon' : ∀ q, OnLru (reserveAt o.alloc v.noBufferNeeded v.res (moveOuts o.moved s)).2 q ↔
      OnLru s q ∧ q ≠ v.res := by
    intro q
    rw [hon, OnLru, OnLru, moveOuts_lru]
  unfold reserveNode at hs
  split at hs
  · next e t' he =>
    obtain ⟨rfl, rfl, rfl⟩ := by simpa using hs
    rw [he] at hok hkinds' hon' ⊢
    exact ⟨hok, hkinds', hon', rfl, .inl ⟨rfl, rfl, rfl⟩⟩
  · next t' he =>
    obtain ⟨-, rfl, rfl⟩ := by simpa using hs
    rw [he] at hok hkinds' hon' ⊢
    exact ⟨hok, hkinds', hon', rfl, .inr ⟨rfl, rfl⟩⟩

theorem reserving_end {own : Option ℕ} {w : ResNode} (hok : LruOk t) (hkinds : kinds t = kinds s)
    (hon : ∀ q, OnLru t q ↔ OnLru s q ∧ q ≠ w.res) (hrest : ∀ v ∈ vs, v.reserved = false)
    (hend : w.reserved = true ∨ own = some w.res) : Reserving own (w :: vs) s t := by
  refine ⟨hok, fun q hq => ((hon q).1 hq).1, hkinds, ?_, ?_⟩
  · intro x hx hreserved hxon
    rcases List.mem_cons.1 hx with rfl | hx
    · exact ((hon _).1 hxon).2 rfl
    · rw [hrest x hx] at hreserved
      cases hreserved
  · intro x _ hnodes hown hx
    refine (hon x.res).2 ⟨hx, ?_⟩
    intro hxw
    rcases hend with hreserved | hfailed
    · rw [hnodes w List.mem_cons_self hxw.symm] at hreserved
      cases hreserved
    · exact hown (hfailed.trans (congrArg some hxw.symm))

theorem reserving_cons {own : Option ℕ} {w : ResNode} (h : Reserving own ws t u)
    (hkinds : kinds t = kinds s) (hon : ∀ q, OnLru t q ↔ OnLru s q ∧ q ≠ w.res)
    (hreserved : w.reserved = true) : Reserving own (w :: ws) s u := by
  refine ⟨h.ok, fun q hq => ((hon q).1 (h.sub q hq)).1, h.kinds.trans hkinds, ?_, ?_⟩
  · intro x hx hxr
    rcases List.mem_cons.1 hx with rfl | hx
    · intro hxon
      exact ((hon _).1 (h.sub _ hxon)).2 rfl
    · exact h.off x hx hxr
  · intro x hx hnodes hown hxon
    rcases List.mem_cons.1 hx with rfl | hx
    · rw [hnodes x List.mem_cons_self rfl] at hreserved
      cases hreserved
    · apply h.others x hx (fun y hy => hnodes y (List.mem_cons_of_mem w hy)) hown
      refine (hon x.res).2 ⟨hxon, ?_⟩
      intro hxw
      rw [hnodes w List.mem_cons_self hxw.symm] at hreserved
      cases hreserved

theorem reserveNodes_spec {o : ℕ → ReserveOut} {i : ℕ} {ret : Option Errno} (h : LruOk s)
    (hfresh : ∀ v ∈ vs, v.reserved = false) (hs : reserveNodes o i vs s = (ret, ws, t)) :
    Reserving (ownFailure o i vs s) ws s t ∧ ws.map ResNode.res = vs.map ResNode.res ∧
      (ret = none → ∀ w ∈ ws, w.reserved = true) := by
  induction vs generalizing i s ret ws with
  | nil =>
    obtain ⟨rfl, rfl, rfl⟩ := by simpa [reserveNodes] using hs
    refine ⟨⟨h, fun q hq => hq, rfl, ?_, fun v _ _ _ hv => hv⟩, rfl, ?_⟩
    · intro v hv
      cases hv
    · intro _ v hv
      cases hv
  | cons v vs ih =>
    have hrest : ∀ v ∈ vs, v.reserved = false := fun w hw => hfresh w (List.mem_cons_of_mem v hw)
    unfold reserveNodes at hs
    split at hs
    · next e w t' hnode =>
      obtain ⟨rfl, rfl, rfl⟩ := by simpa using hs
      obtain ⟨hok, hkinds, hon, hw, hend⟩ := reserveNode_cases h hnode
      rw [← hw] at hon
      refine ⟨reserving_end hok hkinds hon hrest ?_, ?_, fun hret => by cases hret⟩
      · rcases hend with ⟨-, rfl, hfails⟩ | ⟨hreserved, -⟩
        · exact .inr (by rw [ownFailure, if_pos hfails])
        · exact .inl hreserved
      · rw [List.map_cons, List.map_cons, hw]
    · next w t' hnode =>
      obtain ⟨hok, hkinds, hon, hw, hend⟩ := reserveNode_cases h hnode
      rw [← hw] at hon
      obtain ⟨hreserved, hown⟩ := hend.resolve_left (by simp)
      have hown' : ownFailure o i (v :: vs) s = ownFailure o (i + 1) vs t' := by
        rw [ownFailure, hown, hnode]
        rfl
      split at hs
      next ret' ws' u hloop =>
      obtain ⟨rfl, rfl, rfl⟩ := by simpa using hs
      obtain ⟨hres, hmap, hall⟩ := ih hok hrest hloop
      rw [hown']
      refine ⟨reserving_cons hres hkinds hon hreserved, ?_, ?_⟩
      · rw [List.map_cons, List.map_cons, hw, hmap]
      · intro hret x hx
        rcases List.mem_cons.1 hx with rfl | hx
        · exact hreserved
        · exact hall hret x hx

theorem Reserving.settle {own : Option ℕ} (h : Reserving own vs s t)
    (hall : ∀ v ∈ vs, v.reserved = true) {p : ℕ} (hu : Settles p t u) : Reserving own vs s u := by
  refine ⟨hu.ok, ?_, hu.kinds.trans h.kinds, ?_, ?_⟩
  · rintro q ⟨ty, hmem⟩
    exact h.sub q ⟨ty, hu.sub ty q hmem⟩
  · intro v hv hreserved
    exact hu.off (h.off v hv hreserved)
  · intro v hv hnodes
    have hreserved := hall v hv
    rw [hnodes v hv rfl] at hreserved
    cases hreserved

def ValContext.nodes (c : ValContext) : List ResNode := c.resourceCtxList ++ c.resourceList

/-- The context `c` and the state `s` before an attempt, and `d` and `t` when it has failed. -/
structure Restored (own : Option ℕ) (c d : ValContext) (s t : ResDev) : Prop where
  ok : LruOk t
  resources : d.nodes.map ResNode.res = c.nodes.map ResNode.res
  reserved : ∀ v ∈ d.nodes, v.reserved = true → (OnLru t v.res ↔ EvictableAt t v.res)
  others : ∀ v ∈ d.nodes, (∀ w ∈ d.nodes, w.res = v.res → w.reserved = false) →
    own ≠ some v.res → (OnLru t v.res ↔ OnLru s v.res)
  stays : ∀ v ∈ d.nodes, own ≠ some v.res → OnLru s v.res →
    (∃ R, t.res v.res = some R ∧ R.id ≠ -1) → OnLru t v.res

theorem evictableAt_of_onLru (h : LruOk s) (hkinds : kinds t = kinds s) (hon : OnLru s r)
    (hR : t.res r = some R) (hid : R.id ≠ -1) : EvictableAt t r := by
  obtain ⟨ty, hmem⟩ := hon
  obtain ⟨S, hS, -, hevict, hpins⟩ := h.listed ty r hmem
  have hkind := congrFun hkinds r
  simp only [kinds, hR, hS, Option.map_some, Option.some.injEq, Prod.mk.injEq] at hkind
  refine ⟨R, hR, ?_, hid, hkind.2.trans hpins⟩
  rw [hkind.1]
  exact hevict

theorem Reserving.restored {own : Option ℕ} (h : LruOk s) (hres : Reserving own vs s t)
    (hmap : vs.map ResNode.res = c.nodes.map ResNode.res) :
    Restored own c (vmwValidationResUnreserve true ⟨vs, []⟩ t).1 s
      (vmwValidationResUnreserve true ⟨vs, []⟩ t).2 := by
  obtain ⟨hok, hsame, hon⟩ := unreserveNodes_spec vs hres.ok
  change Restored own c ⟨vs, []⟩ s (unreserveNodes true vs t)
  have hevict : ∀ q, EvictableAt (unreserveNodes true vs t) q ↔ EvictableAt t q := by
    intro q
    rw [EvictableAt, EvictableAt, hsame]
  have hreserved : ∀ v ∈ vs, v.reserved = true →
      (OnLru (unreserveNodes true vs t) v.res ↔ EvictableAt (unreserveNodes true vs t) v.res) := by
    intro v hv hr
    rw [hon, hevict]
    constructor
    · rintro (hlisted | ⟨hyes, -⟩)
      · exact absurd hlisted (hres.off v hv hr)
      · exact hyes
    · intro hyes
      exact .inr ⟨hyes, v, hv, rfl, hr⟩
  have hothers : ∀ v ∈ vs, (∀ w ∈ vs, w.res = v.res → w.reserved = false) → own ≠ some v.res →
      (OnLru (unreserveNodes true vs t) v.res ↔ OnLru s v.res) := by
    intro v hv hnone hown
    rw [hon]
    constructor
    · rintro (hlisted | ⟨-, w, hw, hwv, hr⟩)
      · exact hres.sub _ hlisted
      · rw [hnone w hw hwv] at hr
        cases hr
    · intro hlisted
      exact .inl (hres.others v hv hnone hown hlisted)
  refine ⟨hok, hmap, hreserved, hothers, ?_⟩
  rintro v hv hown hlisted ⟨R, hR, hid⟩
  by_cases hnone : ∀ w ∈ vs, w.res = v.res → w.reserved = false
  · exact (hothers v hv hnone hown).2 hlisted
  · push Not at hnone
    obtain ⟨w, hw, hwv, hr⟩ := hnone
    rw [← hwv] at hR hlisted ⊢
    rw [hreserved w hw (by simpa using hr), hevict]
    rw [hsame] at hR
    exact evictableAt_of_onLru h hres.kinds hlisted hR hid

theorem validateNodes_reserving {own : Option ℕ} {o : ℕ → NodeOut} {i : ℕ} {ret : Option Errno}
    (h : Reserving own ws s t) (hall : ∀ w ∈ ws, w.reserved = true)
    (hu : vmwValidationResValidate o i vs t = some (ret, u)) : Reserving own ws s u := by
  induction vs generalizing i t with
  | nil =>
    obtain ⟨-, rfl⟩ := Prod.mk.inj (Option.some.inj hu)
    exact h
  | cons v vs ih =>
    have hmoved := h.settle hall (moveOuts_settles h.ok (o i).moved 0)
    unfold vmwValidationResValidate at hu
    split at hu
    · cases hu
    · next e t' hv =>
      obtain ⟨-, rfl⟩ := Prod.mk.inj (Option.some.inj hu)
      exact hmoved.settle hall (validate_settles hmoved.ok hv)
    · next t' hv =>
      have hnext := hmoved.settle hall (validate_settles hmoved.ok hv)
      split_ifs at hu
      · obtain ⟨-, rfl⟩ := Prod.mk.inj (Option.some.inj hu)
        exact hnext
      · exact ih hnext hu

theorem resReserve_cases {o : ℕ → ReserveOut} {ret : Option Errno} (h : LruOk s)
    (hfresh : ∀ v ∈ c.nodes, v.reserved = false)
    (hs : vmwValidationResReserve o c s = (ret, d, t)) : ∃ vs u,
      Reserving (ownFailure o 0 c.nodes s) vs s u ∧
      vs.map ResNode.res = c.nodes.map ResNode.res ∧
      ((∃ e, ret = some e ∧ (d, t) = vmwValidationResUnreserve true ⟨vs, []⟩ u) ∨
        ret = none ∧ d = ⟨vs, []⟩ ∧ t = u ∧ ∀ v ∈ vs, v.reserved = true) := by
  unfold vmwValidationResReserve at hs
  split at hs
  · next e vs u hloop =>
    obtain ⟨hres, hmap, -⟩ := reserveNodes_spec h hfresh hloop
    obtain ⟨rfl, hback⟩ := Prod.mk.inj hs
    exact ⟨vs, u, hres, hmap, .inl ⟨e, rfl, hback.symm⟩⟩
  · next vs u hloop =>
    obtain ⟨hres, hmap, hall⟩ := reserveNodes_spec h hfresh hloop
    obtain ⟨rfl, rfl, rfl⟩ := by simpa using hs
    exact ⟨vs, u, hres, hmap, .inr ⟨rfl, rfl, rfl, hall rfl⟩⟩

theorem placeBuffers_reserving {own : Option ℕ} {o : PrepareOut} {ret : Option Errno}
    (h : Reserving own vs s t) (hall : ∀ v ∈ vs, v.reserved = true)
    (hu : placeBuffers o t = (ret, u)) : Reserving own vs s u := by
  unfold placeBuffers at hu
  split at hu
  · obtain ⟨-, rfl⟩ := Prod.mk.inj hu
    exact h
  · obtain ⟨-, rfl⟩ := Prod.mk.inj hu
    exact h.settle hall (moveOuts_settles h.ok o.moved 0)

theorem resReserve_restored {o : ℕ → ReserveOut} (h : LruOk s)
    (hfresh : ∀ v ∈ c.nodes, v.reserved = false)
    (hs : vmwValidationResReserve o c s = (some e, d, t)) :
    Restored (ownFailure o 0 c.nodes s) c d s t := by
  obtain ⟨vs, u, hres, hmap, ⟨e', -, hback⟩ | ⟨hnone, -⟩⟩ := resReserve_cases h hfresh hs
  · obtain ⟨rfl, rfl⟩ := Prod.mk.inj hback
    exact hres.restored h hmap
  · cases hnone

theorem restored_refl {own : Option ℕ} (h : LruOk s) (hfresh : ∀ v ∈ c.nodes, v.reserved = false) :
    Restored own c c s s := by
  refine ⟨h, rfl, ?_, fun _ _ _ _ => Iff.rfl, fun _ _ _ hon _ => hon⟩
  intro v hv hreserved
  rw [hfresh v hv] at hreserved
  cases hreserved

/-- The resource of `c` whose own reservation fails, if there is one. -/
def prepareFailure (mutex intr : Bool) (o : PrepareOut) (c : ValContext) (s : ResDev) : Option ℕ :=
  if lockFails mutex intr o then none else ownFailure o.reserve 0 c.nodes s

theorem prepare_restored {mutex intr : Bool} {o : PrepareOut} (h : LruOk s)
    (hfresh : ∀ v ∈ c.nodes, v.reserved = false)
    (hs : vmwValidationPrepare mutex intr o c s = some (some e, d, t)) :
    Restored (prepareFailure mutex intr o c s) c d s t := by
  unfold vmwValidationPrepare at hs
  unfold prepareFailure
  split_ifs at hs ⊢
  · obtain ⟨rfl, rfl, rfl⟩ := by simpa using hs
    exact restored_refl h hfresh
  · split at hs
    · next hreserve =>
      obtain ⟨rfl, rfl, rfl⟩ := by simpa using hs
      exact resReserve_restored h hfresh hreserve
    · next d' t' hreserve =>
      obtain ⟨vs, u, hres, hmap, ⟨e', hsome, -⟩ | ⟨-, rfl, rfl, hall⟩⟩ :=
        resReserve_cases h hfresh hreserve
      · cases hsome
      · split at hs
        · next hplace =>
          obtain ⟨-, hback⟩ := Prod.mk.inj (Option.some.inj hs)
          obtain ⟨rfl, rfl⟩ := Prod.mk.inj hback
          exact (placeBuffers_reserving hres hall hplace).restored h hmap
        · next hplace =>
          have hplaced := placeBuffers_reserving hres hall hplace
          split at hs
          · cases hs
          · next hvalid =>
            obtain ⟨-, hback⟩ := Prod.mk.inj (Option.some.inj hs)
            obtain ⟨rfl, rfl⟩ := Prod.mk.inj hback
            exact (validateNodes_reserving hplaced hall hvalid).restored h hmap
          · obtain ⟨hret, -⟩ := Prod.mk.inj (Option.some.inj hs)
            cases hret

/-- Every failure of a reservation or of a preparation, from any state that is reached. Each
    resource is on its list at most once. Those that the attempt has reserved are on it exactly
    if they may be evicted, which those that were on it may as long as they have an id; the
    others are where they were, but for the one whose own reservation has failed. -/
theorem failed_restored {ops : List Op} (h : Runs step anyLabel start ops s)
    (hfresh : ∀ v ∈ c.nodes, v.reserved = false) :
    (∀ o e d t, vmwValidationResReserve o c s = (some e, d, t) →
      Restored (ownFailure o 0 c.nodes s) c d s t) ∧
    ∀ mutex intr o e d t, vmwValidationPrepare mutex intr o c s = some (some e, d, t) →
      Restored (prepareFailure mutex intr o c s) c d s t :=
  ⟨fun _ _ _ _ hs => resReserve_restored (runs_lruOk h) hfresh hs,
    fun _ _ _ _ _ _ hs => prepare_restored (runs_lruOk h) hfresh hs⟩

/-- Two surfaces, of which the first one may be evicted if it has been validated. -/
def twoSurfaces : List Op :=
  [.init 0 .gbSurface (-1) none, .init 1 .gbSurface (-1) none, .reserve (.ok 5) false 0]

def twoNodes : ValContext := ⟨[⟨0, false, false, false, none⟩, ⟨1, false, false, false, none⟩], []⟩

/-- The second buffer cannot be registered, or else the second surface has no memory. -/
def outOfMemory (addBo : Option Errno) : PrepareOut where
  interrupted := false
  reserve i := ⟨[], .ok (5 + i), if i = 0 then none else addBo⟩
  boReserve := none
  moved := []
  boValidate := none
  validate i :=
    ⟨[], [if i = 0 then okRound else ⟨⟨.failed .enomem 0, none, none⟩, okRound.evict⟩], none⟩

theorem twoSurfaces_restored : ∃ s d t,
    Runs step anyLabel start (twoSurfaces ++ [.validate [okRound] 0, .unreserve none 0]) s ∧
    vmwValidationPrepare true true (outOfMemory (some .einval)) twoNodes s =
      some (some .einval, d, t) ∧
    OnLru s 0 ∧ Restored none twoNodes d s t := by
  let ops := twoSurfaces ++ [.validate [okRound] 0, .unreserve none 0]
  let s := (exec step start ops).getD start
  have hrun : Runs step anyLabel start ops s := runs_getD (by rfl)
  refine ⟨s, _, _, hrun, by rfl, ⟨.surface, by decide⟩, ?_⟩
  have hfresh : ∀ v ∈ twoNodes.nodes, v.reserved = false := by decide
  exact (failed_restored hrun hfresh).2 true true (outOfMemory (some .einval)) .einval _ _
    (by rfl)

/-- A surface that has been created by the attempt is on the list afterwards, although it was
    not on it before. -/
theorem created_listed : ∃ s d t, Runs step anyLabel start (twoSurfaces.take 2) s ∧
    vmwValidationPrepare true true (outOfMemory none) twoNodes s = some (some .enomem, d, t) ∧
    0 ∈ twoNodes.nodes.map ResNode.res ∧ ¬ OnLru s 0 ∧ OnLru t 0 := by
  refine ⟨_, _, _, runs_getD (d := start) (by rfl), by rfl, by decide, ?_, ⟨.surface, by decide⟩⟩
  rintro ⟨ty, hmem⟩
  cases ty <;> cases hmem

end Vmwgfx.Reservations
