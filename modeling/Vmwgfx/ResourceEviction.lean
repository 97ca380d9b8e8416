import Vmwgfx.ResourceLru
import Vmwgfx.RetryQueue

set_option autoImplicit false

/-!
# Loops that evict

`vmw_resource_validate` and `vmw_resource_evict_type` take resources from the front of a list
until they are done or have met too many errors. Each round takes one off the list or uses up
one of the errors.
-/
namespace Vmwgfx.Resources
open ExecbufState (Errno)
open LabelledRuns RetryQueue

variable {r q : ℕ} {R : Res} {s t u : ResDev} {ty : ResType} {n m : ℕ} {es : List (ℕ × Bool)}

/-- How a round goes on after an eviction; only a validation ends when it is interrupted. -/
def countError (restarts : Bool) (errCount : ℕ) (ret : Option Errno) (s : ResDev) : RoundEnd :=
  match ret with
  | none => .goesOn errCount s
  | some e =>
    if (restarts ∧ e = .erestartsys) ∨ vmwResEvictErrCount < errCount + 1 then .ends (some e) s
    else .goesOn (errCount + 1) s

/-- One round of the loop of `vmw_resource_evict_type`, for a list that is not empty. -/
def evictTypeRound (o : EvictOut) (ty : ResType) (errCount : ℕ) (s : ResDev) : Option RoundEnd :=
  (evictFirst o ty s).map fun e => countError false errCount e.1 e.2

/-- The loop of `vmw_resource_evict_type`, with the outcomes of its rounds. There is no result as
    long as it goes on. -/
def evictTypeLoop (ty : ResType) : List EvictOut → ℕ → ResDev → Option ResDev
  | [], _, s => if s.lru ty = [] then some s else none
  | o :: os, errCount, s =>
    if s.lru ty = [] then some s
    else
      match evictTypeRound o ty errCount s with
      | none => none
      | some (.ends _ t) => some t
      | some (.goesOn n t) => evictTypeLoop ty os n t

def vmwResourceEvictType (os : List EvictOut) (ty : ResType) (s : ResDev) : Option ResDev :=
  evictTypeLoop ty os 0 s

/-- The errors that are left, and the length of the list. -/
def budget (ty : ResType) (errCount : ℕ) (s : ResDev) : ℕ × ℕ :=
  (vmwResEvictErrCount - errCount, (s.lru ty).length)

def Before (a b : ℕ × ℕ) : Prop := Prod.Lex (· < ·) (· < ·) a b

theorem evictFirst_lru {o : EvictOut} {ret : Option Errno}
    (hs : evictFirst o ty s = some (ret, t)) :
    ∃ q l, s.lru ty = q :: l ∧ t.lru ty = if ret.isSome then l ++ [q] else l := by
  obtain ⟨q, l, Q, f, hlru, hQ, hf, rfl⟩ := evictFirst_cases hs
  have hquiet := quiet_doEvict o q (Q, { s with lru := Function.update s.lru ty l })
  rw [hf] at hquiet
  have hlist : (setRes q f.1 f.2).lru ty = l :=
    (congrFun hquiet.lru ty).trans (Function.update_self ..)
  refine ⟨q, l, hlru, ?_⟩
  split_ifs
  · rw [lruAdd_self, hlist]
  · exact hlist

theorem evictFirst_some (h : LruOk s) (hne : s.lru ty ≠ []) (o : EvictOut) :
    ∃ ret t, evictFirst o ty s = some (ret, t) := by
  obtain ⟨q, l, hlru⟩ := List.exists_cons_of_ne_nil hne
  obtain ⟨Q, hQ, -⟩ := h.listed ty q (hlru ▸ List.mem_cons_self)
  unfold evictFirst
  simp only [hlru, hQ]
  exact ⟨_, _, rfl⟩

theorem countError_state (restarts : Bool) (n : ℕ) (ret : Option Errno) (t : ResDev) :
    (countError restarts n ret t).state = t := by
  unfold countError
  cases ret with
  | none => rfl
  | some e =>
    dsimp only
    split_ifs <;> rfl

theorem countError_goesOn {restarts : Bool} {ret : Option Errno}
    (h : countError restarts n ret t = .goesOn m u) :
    u = t ∧ (ret = none ∧ m = n ∨ ret.isSome = true ∧ m = n + 1 ∧ m ≤ vmwResEvictErrCount) := by
  unfold countError at h
  cases ret with
  | none =>
    obtain ⟨rfl, rfl⟩ := RoundEnd.goesOn.inj h
    exact ⟨rfl, .inl ⟨rfl, rfl⟩⟩
  | some e =>
    dsimp only at h
    split_ifs at h with hend
    obtain ⟨rfl, rfl⟩ := RoundEnd.goesOn.inj h
    exact ⟨rfl, .inr ⟨rfl, rfl, by omega⟩⟩

theorem evict_goesOn {o : EvictOut} {restarts : Bool} {ret : Option Errno}
    (hs : evictFirst o ty s = some (ret, t)) (h : countError restarts n ret t = .goesOn m u) :
    Before (budget ty m u) (budget ty n s) ∧ u = t ∧
      (u.lru ty).length + (vmwResEvictErrCount - m) + 1 =
        (s.lru ty).length + (vmwResEvictErrCount - n) := by
  obtain ⟨q, l, hlru, hnext⟩ := evictFirst_lru hs
  obtain ⟨rfl, ⟨rfl, rfl⟩ | ⟨hret, rfl, hle⟩⟩ := countError_goesOn h
  · rw [Option.isSome_none, if_neg Bool.false_ne_true] at hnext
    refine ⟨?_, rfl, ?_⟩
    · apply Prod.Lex.right
      rw [hnext, hlru]
      exact Nat.lt_succ_self _
    · rw [hnext, hlru, List.length_cons]
      omega
  · rw [if_pos hret] at hnext
    refine ⟨Prod.Lex.left _ _ (by omega), rfl, ?_⟩
    rw [hnext, hlru]
    simp only [List.length_append, List.length_cons, List.length_nil]
    omega

/-- The resource at `r` is validated, which leaves the lists alone. -/
def Validated (r : ℕ) (s t : ResDev) : Prop :=
  ∃ o hasBo R, s.res r = some R ∧
    t = setRes r (vmwResourceDoValidate o hasBo r (R, s)).2.1
      (vmwResourceDoValidate o hasBo r (R, s)).2.2

/-- Evictions of the first resource of a list with other steps between them; each is noted with
    whether it was successful. -/
inductive Evictions (between : ResDev → ResDev → Prop) (ty : ResType) :
    ResDev → List (ℕ × Bool) → ResDev → Prop where
  | nil (s : ResDev) : Evictions between ty s [] s
  | other {s t u : ResDev} {es : List (ℕ × Bool)} (hstep : between s t)
      (h : Evictions between ty t es u) : Evictions between ty s es u
  | evict {s t u : ResDev} {es : List (ℕ × Bool)} {q : ℕ} {l : List ℕ} {o : EvictOut}
      {ret : Option Errno} (hq : s.lru ty = q :: l) (hs : evictFirst o ty s = some (ret, t))
      (h : Evictions between ty t es u) : Evictions between ty s ((q, ret.isNone) :: es) u

variable {between : ResDev → ResDev → Prop}

theorem Evictions.served (h : Evictions between ty s es t)
    (hb : ∀ u v, between u v → v.lru ty = u.lru ty) : Served (s.lru ty) es (t.lru ty) := by
  induction h with
  | nil s => exact Served.nil _
  | other hstep _ ih => rwa [hb _ _ hstep] at ih
  | @evict s t u es q l o ret hq hs _ ih =>
    obtain ⟨q', l', hlru, hnext⟩ := evictFirst_lru hs
    obtain ⟨rfl, rfl⟩ := List.cons.inj (hq.symm.trans hlru)
    rw [hnext] at ih
    rw [hq]
    cases ret with
    | none => exact Served.done ih
    | some e => exact Served.failed ih

theorem Validated.lru (h : Validated r s t) : t.lru = s.lru := by
  obtain ⟨o, hasBo, R, hR, rfl⟩ := h
  exact (quiet_doValidate o hasBo r (R, s)).lru

/-- What evictions from `s` to `t` do to the list of a type. -/
structure EvictsInOrder (between : ResDev → ResDev → Prop) (ty : ResType) (s t : ResDev)
    (es : List (ℕ × Bool)) : Prop where
  evictions : ∃ t', Evictions between ty s es t' ∧ t.lru = t'.lru
  order : es.map Prod.fst ++ t.lru ty = s.lru ty ++ failures es
  once : (t.lru ty).Nodup
  kept : ∀ q ∈ s.lru ty, q ∈ t.lru ty ∨ (q, true) ∈ es

theorem Evictions.inOrder (h : Evictions between ty s es t) (hs : LruOk s)
    (hb : ∀ u v, between u v → v.lru ty = u.lru ty) : EvictsInOrder between ty s t es where
  evictions := ⟨t, h, rfl⟩
  order := (h.served hb).order
  once := (h.served hb).nodup (hs.nodup ty)
  kept _ hq := (h.served hb).kept hq

theorem evictTypeLoop_ends (os : List EvictOut) (h : LruOk s) (hn : n ≤ vmwResEvictErrCount)
    (hlen : (s.lru ty).length + (vmwResEvictErrCount - n) ≤ os.length) :
    ∃ t es, evictTypeLoop ty os n s = some t ∧ Evictions (fun _ _ => False) ty s es t := by
  induction os generalizing n s with
  | nil =>
    rw [List.length_nil, Nat.le_zero, Nat.add_eq_zero_iff, List.length_eq_zero_iff] at hlen
    refine ⟨s, [], ?_, .nil s⟩
    rw [evictTypeLoop, if_pos hlen.1]
  | cons o os ih =>
    unfold evictTypeLoop
    by_cases hempty : s.lru ty = []
    · rw [if_pos hempty]
      exact ⟨s, [], rfl, .nil s⟩
    · rw [if_neg hempty]
      obtain ⟨ret, t, hevict⟩ := evictFirst_some h hempty o
      obtain ⟨q, l, hlru, -⟩ := evictFirst_lru hevict
      have hround : evictTypeRound o ty n s = some (countError false n ret t) := by
        rw [evictTypeRound, hevict]
        rfl
      rw [hround]
      cases hg : countError false n ret t with
      | ends ret' u =>
        obtain rfl : u = t := by
          have hstate := countError_state false n ret t
          rwa [hg] at hstate
        exact ⟨u, _, rfl, .evict hlru hevict (.nil u)⟩
      | goesOn m u =>
        obtain ⟨-, rfl, hsum⟩ := evict_goesOn hevict hg
        obtain ⟨-, hm⟩ := countError_goesOn hg
        rw [List.length_cons] at hlen
        obtain ⟨v, es, hloop, hes⟩ := ih (evictFirst_settles h hevict 0).ok (by omega)
          (n := m) (by omega)
        exact ⟨v, _, hloop, .evict hlru hevict hes⟩

theorem validateRound_spec (h : LruOk s) (hR : s.res r = some R) (hasBo : Bool) (o : Round) (n : ℕ) :
    ∃ g t, validateRound hasBo r o n s = some g ∧ Validated r s t ∧ LruOk t ∧ kinds t = kinds s ∧
      ((∃ ret, g = .ends ret t) ∨
        ∃ ret u, evictFirst o.evict R.func.resType t = some (ret, u) ∧
          g = countError true n ret u) := by
  have hquiet := quiet_doValidate o.validate hasBo r (R, s)
  have hset := Settles.setRes h hR hquiet
  have hvalid : Validated r s (setRes r (vmwResourceDoValidate o.validate hasBo r (R, s)).2.1
      (vmwResourceDoValidate o.validate hasBo r (R, s)).2.2) := ⟨_, _, R, hR, rfl⟩
  unfold validateRound
  simp only [hR]
  generalize setRes r (vmwResourceDoValidate o.validate hasBo r (R, s)).2.1
      (vmwResourceDoValidate o.validate hasBo r (R, s)).2.2 = t at hset hvalid ⊢
  split_ifs with hbusy hlast
  · exact ⟨_, t, rfl, hvalid, hset.ok, hset.kinds, .inl ⟨_, rfl⟩⟩
  · exact ⟨_, t, rfl, hvalid, hset.ok, hset.kinds, .inl ⟨_, rfl⟩⟩
  · have hne : t.lru R.func.resType ≠ [] := by
      intro hempty
      simp [hempty] at hlast
    obtain ⟨ret, u, hevict⟩ := evictFirst_some hset.ok hne o.evict
    refine ⟨countError true n ret u, t, ?_, hvalid, hset.ok, hset.kinds, .inr ⟨ret, u, hevict, rfl⟩⟩
    rw [hevict]
    cases ret with
    | none => rfl
    | some e =>
      simp only [countError, true_and]
      split_ifs <;> rfl

theorem validateLoop_ends (hasBo : Bool) (os : List Round) (h : LruOk s) (hR : s.res r = some R)
    (hty : R.func.resType = ty) (hn : n ≤ vmwResEvictErrCount)
    (hlen : (s.lru ty).length + (vmwResEvictErrCount - n) < os.length) :
    ∃ ret t es, validateLoop hasBo r os n s = some (ret, t) ∧
      Evictions (Validated r) ty s es t ∧ LruOk t := by
  induction os generalizing n s R with
  | nil => cases hlen
  | cons o os ih =>
    obtain ⟨g, t, hround, hvalid, hok, hkinds, hend⟩ := validateRound_spec h hR hasBo o n
    have hlru : t.lru ty = s.lru ty := congrFun hvalid.lru ty
    unfold validateLoop
    rw [hround]
    rcases hend with ⟨ret, rfl⟩ | ⟨ret, u, hevict, rfl⟩
    · exact ⟨ret, t, [], rfl, .other hvalid (.nil t), hok⟩
    · rw [hty] at hevict
      obtain ⟨q, l, hhead, -⟩ := evictFirst_lru hevict
      have hset := evictFirst_settles hok hevict r
      cases hg : countError true n ret u with
      | ends ret' v =>
        obtain rfl : v = u := by
          have hstate := countError_state true n ret u
          rwa [hg] at hstate
        exact ⟨ret', v, _, rfl, .other hvalid (.evict hhead hevict (.nil v)), hset.ok⟩
      | goesOn m v =>
        obtain ⟨-, rfl, hsum⟩ := evict_goesOn hevict hg
        obtain ⟨-, hm⟩ := countError_goesOn hg
        obtain ⟨S, hS, hkind⟩ := res_of_map (congrFun (hset.kinds.trans hkinds) r) hR
        have hfunc : S.func = R.func := congrArg Prod.fst hkind
        rw [List.length_cons] at hlen
        obtain ⟨ret', w, es, hloop, hes, hw⟩ := ih hset.ok hS (by rw [hfunc, hty]) (n := m)
          (by omega) (by rw [hlru] at hsum; omega)
        exact ⟨ret', w, _, hloop, .other hvalid (.evict hhead hevict hes), hw⟩

theorem releaseBackup_lru (r : ℕ) (s : ResDev) : (releaseBackup r s).lru = s.lru := by
  unfold releaseBackup
  split
  · rfl
  · next R hR =>
    split_ifs
    · exact (quiet_mobDel r (R, s)).lru
    · rfl

theorem validate_ends (os : List Round) (h : LruOk s) (hR : s.res r = some R)
    (hty : R.func.resType = ty) (hlen : (s.lru ty).length + vmwResEvictErrCount < os.length) :
    ∃ ret t es, vmwResourceValidate os r s = some (ret, t) ∧
      EvictsInOrder (Validated r) ty s t es := by
  have hquiet : ∀ u v, Validated r u v → v.lru ty = u.lru ty := fun _ _ hv => congrFun hv.lru ty
  unfold vmwResourceValidate
  simp only [hR]
  split_ifs
  · exact ⟨none, s, [], rfl, (Evictions.nil s).inOrder h hquiet⟩
  · obtain ⟨ret, t, es, hloop, hes, ht⟩ :=
      validateLoop_ends R.backup.isSome os h hR hty (Nat.zero_le _) hlen
    have horder := hes.inOrder h hquiet
    rw [hloop]
    cases ret with
    | some e => exact ⟨some e, t, es, rfl, horder⟩
    | none =>
      have hlru := releaseBackup_lru r t
      refine ⟨none, _, es, rfl, ⟨⟨t, hes, hlru⟩, ?_, ?_, ?_⟩⟩
      · rw [hlru]
        exact horder.order
      · rw [hlru]
        exact horder.once
      · rw [hlru]
        exact horder.kept

theorem validateRound_before (h : LruOk s) (hR : s.res r = some R) {hasBo : Bool} {o : Round}
    (hg : validateRound hasBo r o n s = some (.goesOn m u)) :
    Before (budget R.func.resType m u) (budget R.func.resType n s) := by
  obtain ⟨g, t, hround, hvalid, -, -, hend⟩ := validateRound_spec h hR hasBo o n
  obtain rfl : g = .goesOn m u := Option.some.inj (hround.symm.trans hg)
  rcases hend with ⟨ret, hends⟩ | ⟨ret, v, hevict, hcount⟩
  · cases hends
  · have hbefore := (evict_goesOn hevict hcount.symm).1
    rwa [budget, budget, hvalid.lru] at hbefore

theorem evictTypeRound_before {o : EvictOut}
    (hg : evictTypeRound o ty n s = some (.goesOn m u)) :
    Before (budget ty m u) (budget ty n s) := by
  obtain ⟨⟨ret, t⟩, hevict, hcount⟩ := Option.map_eq_some_iff.1 hg
  exact (evict_goesOn hevict hcount).1

theorem failed_back_once (h : LruOk s) {o : EvictOut} {e : Errno}
    (hs : evictFirst o ty s = some (some e, t)) :
    ∃ q l, s.lru ty = q :: l ∧ t.lru ty = l ++ [q] ∧ (t.lru ty).count q = 1 := by
  obtain ⟨q, l, hlru, hnext⟩ := evictFirst_lru hs
  rw [Option.isSome_some, if_pos rfl] at hnext
  refine ⟨q, l, hlru, hnext, ?_⟩
  apply List.count_eq_one_of_mem ((evictFirst_settles h hs q).ok.nodup ty)
  rw [hnext]
  exact List.mem_append_right _ (List.mem_singleton_self q)

/-- Both loops come to their end, whatever their rounds bring, and take the resources in the order
    of the list. What holds of the lists here holds in every run. -/
theorem evictions_terminate (h : LruOk s) (ty : ResType) :
    (∀ r R hasBo o n m u, s.res r = some R →
      validateRound hasBo r o n s = some (.goesOn m u) →
      Before (budget R.func.resType m u) (budget R.func.resType n s)) ∧
    (∀ o n m u, evictTypeRound o ty n s = some (.goesOn m u) →
      Before (budget ty m u) (budget ty n s)) ∧
    (∀ o e t, evictFirst o ty s = some (some e, t) →
      ∃ q l, s.lru ty = q :: l ∧ t.lru ty = l ++ [q] ∧ (t.lru ty).count q = 1) ∧
    (∀ r R (os : List Round), s.res r = some R → R.func.resType = ty →
      (s.lru ty).length + vmwResEvictErrCount < os.length →
      ∃ ret t es, vmwResourceValidate os r s = some (ret, t) ∧
        EvictsInOrder (Validated r) ty s t es) ∧
    ∀ os : List EvictOut, (s.lru ty).length + vmwResEvictErrCount ≤ os.length →
      ∃ t es, vmwResourceEvictType os ty s = some t ∧
        EvictsInOrder (fun _ _ => False) ty s t es := by
  refine ⟨fun _ _ _ _ _ _ _ hR hg => validateRound_before h hR hg,
    fun _ _ _ _ hg => evictTypeRound_before hg, fun _ _ _ hs => failed_back_once h hs,
    fun _ _ os hR hty hlen => validate_ends os h hR hty hlen, fun os hlen => ?_⟩
  obtain ⟨t, es, hloop, hes⟩ := evictTypeLoop_ends os h (Nat.zero_le _) hlen
  exact ⟨t, es, hloop, hes.inOrder h fun _ _ hfalse => hfalse.elim⟩

def twoListed : List Op :=
  [.init 1 .gbSurface 5 none, .unreserve none 1, .init 2 .gbSurface 6 none, .unreserve none 2]

def listedDev : ResDev := (LabelledRuns.exec step start twoListed).getD start

def noBuffer : EvictOut := ⟨⟨.error .enomem, none, none⟩, none, [], none⟩

theorem listedDev_terminates : ∃ t es,
    vmwResourceEvictType (List.replicate 12 noBuffer) .surface listedDev = some t ∧
      es.map Prod.fst ++ t.lru .surface = [1, 2] ++ failures es ∧ (t.lru .surface).Nodup := by
  have hok : LruOk listedDev := runs_lruOk (runs_getD (by decide))
  obtain ⟨-, -, -, -, htype⟩ := evictions_terminate hok .surface
  obtain ⟨t, es, ht, horder⟩ := htype (List.replicate 12 noBuffer) (by decide)
  exact ⟨t, es, ht, horder.order, horder.once⟩

end Vmwgfx.Resources
