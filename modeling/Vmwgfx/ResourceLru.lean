import Vmwgfx.ResourceBackups

set_option autoImplicit false

/-!
# The lists of resources that may be evicted

A resource is on the list of its type only, once, and only while it may be evicted and is not
pinned. An eviction puts no resource on a list that was not there before.
-/
namespace Vmwgfx.Resources
open ExecbufState (Errno)
open LabelledRuns ListPlaces

/-- What the callbacks leave alone of the other resources. -/
def Res.tag (R : Res) : ResFunc × ℕ × Option ℕ := (R.func, R.pinCount, R.backup)

/-- The lists and the pins stay as they are, and so do the other resources. -/
structure Quiet (f g : Focus) : Prop where
  lru : g.2.lru = f.2.lru
  live : g.2.live = f.2.live
  pins : g.2.pinCount = f.2.pinCount
  otherPins : g.2.otherPins = f.2.otherPins
  tags : ∀ q, (g.2.res q).map Res.tag = (f.2.res q).map Res.tag
  func : g.1.func = f.1.func
  pinCount : g.1.pinCount = f.1.pinCount

structure LruOk (s : ResDev) : Prop where
  nodup : ∀ ty, (s.lru ty).Nodup
  listed : ∀ ty r, r ∈ s.lru ty → ∃ R, s.res r = some R ∧ R.func.resType = ty ∧
    R.func.mayEvict = true ∧ R.pinCount = 0

variable {r q b : ℕ} {R S W : Res} {s t : ResDev} {f g k : Focus} {ty : ResType}

theorem Quiet.refl (f : Focus) : Quiet f f := ⟨rfl, rfl, rfl, rfl, fun _ => rfl, rfl, rfl⟩

theorem Quiet.trans (h : Quiet f g) (h' : Quiet g k) : Quiet f k :=
  ⟨h'.lru.trans h.lru, h'.live.trans h.live, h'.pins.trans h.pins, h'.otherPins.trans h.otherPins,
    fun q => (h'.tags q).trans (h.tags q), h'.func.trans h.func, h'.pinCount.trans h.pinCount⟩

theorem Quiet.own (hfunc : W.func = R.func) (hpins : W.pinCount = R.pinCount) :
    Quiet (R, s) (W, s) := ⟨rfl, rfl, rfl, rfl, fun _ => rfl, hfunc, hpins⟩

theorem quiet_mobDel (r : ℕ) (f : Focus) : Quiet f (mobDel r f) := by
  obtain ⟨R, s⟩ := f
  cases hmob : R.mobHead with
  | none =>
    rw [mobDel_of_none s hmob]
    exact Quiet.refl _
  | some b =>
    rw [mobDel_of_some s hmob]
    exact ⟨rfl, rfl, rfl, rfl, fun _ => rfl, rfl, rfl⟩

theorem Quiet.mobAdd (h : Quiet f g) (b r : ℕ) : Quiet f (mobAdd b r g) :=
  ⟨h.lru, h.live, h.pins, h.otherPins, h.tags, h.func, h.pinCount⟩

theorem Quiet.setBackup (h : Quiet f g) (v : Option ℕ) : Quiet f ({ g.1 with backup := v }, g.2) :=
  ⟨h.lru, h.live, h.pins, h.otherPins, h.tags, h.func, h.pinCount⟩

theorem quiet_scrubIds (l : List ℕ) (hfunc : W.func = f.1.func)
    (hpins : W.pinCount = f.1.pinCount) : Quiet f (W, scrubIds l f.2) := by
  refine ⟨rfl, rfl, rfl, rfl, ?_, hfunc, hpins⟩
  intro q
  rw [scrubIds_res]
  cases f.2.res q with
  | none => rfl
  | some Q =>
    rw [Option.map_some, Option.map_some, Option.map_some]
    split_ifs <;> rfl

theorem quiet_create (o : CreateOut) (r : ℕ) (f : Focus) : Quiet f (create o r f).2 := by
  obtain ⟨R, s⟩ := f
  cases o with
  | failed e id =>
    simp only [create]
    split_ifs
    · exact Quiet.own rfl rfl
    · exact Quiet.refl _
  | done id => exact Quiet.own rfl rfl
  | resized b id =>
    simp only [create]
    split_ifs
    · have hnew : Quiet (R, s) ({ R with backup := some b }, s) := Quiet.own rfl rfl
      exact ((hnew.trans (quiet_mobDel r _)).mobAdd b r).trans (Quiet.own rfl rfl)
    · exact Quiet.own rfl rfl

theorem quiet_destroy (o : Option Errno) (f : Focus) : Quiet f (destroy o f).2 := by
  unfold destroy
  split
  · exact Quiet.refl f
  · exact Quiet.own rfl rfl

theorem quiet_unbind (o : Option Errno) (l : List ℕ) (r : ℕ) (f : Focus) :
    Quiet f (unbind o l r f).2 := by
  unfold unbind
  split
  · exact Quiet.refl f
  · apply quiet_scrubIds
    · split_ifs <;> rfl
    · split_ifs <;> rfl

theorem quiet_bindBackup (o : ValidateOut) (hasBo : Bool) (r : ℕ) (f : Focus) :
    Quiet f (bindBackup o hasBo r f).2 := by
  unfold bindBackup
  split_ifs
  · cases hret : (if f.1.func = .dxShader then none else o.bind) with
    | some e =>
      simp only [bind, hret]
      exact quiet_destroy o.destroy f
    | none =>
      simp only [bind, hret]
      have hclean : Quiet f ({ f.1 with backupDirty := f.1.backupDirty && !f.1.func.bindCleans },
        f.2) := Quiet.own rfl rfl
      split
      · exact hclean.mobAdd _ r
      · exact hclean
  · exact Quiet.refl f

theorem quiet_doValidate (o : ValidateOut) (hasBo : Bool) (r : ℕ) (f : Focus) :
    Quiet f (vmwResourceDoValidate o hasBo r f).2 := by
  have hcreate : Quiet f (if f.1.id = -1 then create o.create r f else (none, f)).2 := by
    split_ifs
    · exact quiet_create o.create r f
    · exact Quiet.refl f
  unfold vmwResourceDoValidate
  split
  · next hg =>
    rw [hg] at hcreate
    exact hcreate
  · next e g hg =>
    rw [hg] at hcreate
    have hbind := hcreate.trans (quiet_bindBackup o hasBo r _)
    split
    · next hh =>
      rw [hh] at hbind
      exact hbind
    · next hh =>
      rw [hh] at hbind
      exact hbind.trans (Quiet.own rfl rfl)

theorem checkBuffer_own (o : BufferOut) (R : Res) :
    (vmwResourceCheckBuffer o R).2.func = R.func ∧
      (vmwResourceCheckBuffer o R).2.pinCount = R.pinCount := by
  rcases checkBuffer_cases R o with ⟨-, e, he⟩ | ⟨b, -, -, hend⟩
  · rw [he]
    exact ⟨rfl, rfl⟩
  · rcases hend with ⟨e, -, he⟩ | ⟨-, -, e, -, he⟩ | ⟨-, he⟩ <;> rw [he] <;> exact ⟨rfl, rfl⟩

theorem quiet_doEvict (o : EvictOut) (r : ℕ) (f : Focus) :
    Quiet f (vmwResourceDoEvict o r f).2 := by
  obtain ⟨R, s⟩ := f
  obtain ⟨hfunc, hpins⟩ := checkBuffer_own o.buffer R
  have hcheck : Quiet (R, s) ((vmwResourceCheckBuffer o.buffer R).2, s) := Quiet.own hfunc hpins
  have hdestroyed : ∀ g, Quiet g (destroyEvicted o g).2 := fun g =>
    (quiet_destroy o.destroy g).trans (Quiet.own rfl rfl)
  unfold vmwResourceDoEvict
  split
  · next hg =>
    rw [hg] at hcheck
    exact hcheck
  · next hg =>
    rw [hg] at hcheck
    split_ifs
    · have hunbind := hcheck.trans (quiet_unbind o.unbind o.scrubbed r _)
      split
      · next hh =>
        rw [hh] at hunbind
        exact hunbind
      · next hh =>
        rw [hh] at hunbind
        exact (hunbind.trans (quiet_mobDel r _)).trans (hdestroyed _)
    · exact hcheck.trans (hdestroyed _)

theorem res_of_map {α : Type} {p : Res → α} {u v : Option Res} (h : u.map p = v.map p)
    (hv : v = some R) : ∃ S, u = some S ∧ p S = p R := by
  rw [hv, Option.map_some, Option.map_eq_some_iff] at h
  exact h

theorem LruOk.setRes (h : LruOk s) (hR : s.res r = some R) (hq : Quiet (R, s) f) :
    LruOk (setRes r f.1 f.2) := by
  have hlru : (Resources.setRes r f.1 f.2).lru = s.lru := hq.lru
  refine ⟨fun ty => hlru ▸ h.nodup ty, ?_⟩
  intro ty q hmem
  rw [hlru] at hmem
  obtain ⟨Q, hQ, hty, hevict, hpins⟩ := h.listed ty q hmem
  by_cases hqr : q = r
  · subst hqr
    obtain rfl := Option.some.inj (hR.symm.trans hQ)
    refine ⟨f.1, setRes_self .., ?_, ?_, hq.pinCount.trans hpins⟩
    · rw [hq.func]
      exact hty
    · rw [hq.func]
      exact hevict
  · obtain ⟨S, hS, htag⟩ := res_of_map (hq.tags q) hQ
    simp only [Res.tag, Prod.mk.injEq] at htag
    refine ⟨S, (setRes_of_ne hqr ..).trans hS, ?_, ?_, htag.2.1.trans hpins⟩
    · rw [htag.1]
      exact hty
    · rw [htag.1]
      exact hevict

theorem lruDel_self (ty : ResType) (r : ℕ) (s : ResDev) :
    (lruDel ty r s).lru ty = (s.lru ty).erase r := Function.update_self ..

theorem lruAdd_self (ty : ResType) (r : ℕ) (s : ResDev) :
    (lruAdd ty r s).lru ty = s.lru ty ++ [r] := Function.update_self ..

theorem lruDel_of_ne {ty' : ResType} (h : ty' ≠ ty) (r : ℕ) (s : ResDev) :
    (lruDel ty r s).lru ty' = s.lru ty' := Function.update_of_ne h ..

theorem lruAdd_of_ne {ty' : ResType} (h : ty' ≠ ty) (r : ℕ) (s : ResDev) :
    (lruAdd ty r s).lru ty' = s.lru ty' := Function.update_of_ne h ..

theorem LruOk.drop (h : LruOk s) {l : List ℕ} (hl : l.Sublist (s.lru ty)) :
    LruOk { s with lru := Function.update s.lru ty l } := by
  have hsub : ∀ ty', (Function.update s.lru ty l ty').Sublist (s.lru ty') := by
    intro ty'
    by_cases hty : ty' = ty
    · subst hty
      rwa [Function.update_self]
    · rw [Function.update_of_ne hty]
  exact ⟨fun ty' => (hsub ty').nodup (h.nodup ty'),
    fun ty' q hq => h.listed ty' q ((hsub ty').subset hq)⟩

theorem LruOk.lruDel (h : LruOk s) (ty : ResType) (r : ℕ) : LruOk (lruDel ty r s) :=
  h.drop List.erase_sublist

theorem LruOk.lruAdd (h : LruOk s) (hR : s.res r = some R) (hevict : R.func.mayEvict = true)
    (hpins : R.pinCount = 0) (hoff : r ∉ s.lru R.func.resType) :
    LruOk (lruAdd R.func.resType r s) := by
  constructor
  · intro ty
    by_cases hty : ty = R.func.resType
    · subst hty
      rw [lruAdd_self]
      apply List.Nodup.append (h.nodup _) (List.nodup_singleton r)
      rwa [List.disjoint_singleton]
    · rw [lruAdd_of_ne hty]
      exact h.nodup ty
  · intro ty q hq
    by_cases hty : ty = R.func.resType
    · subst hty
      rw [lruAdd_self, List.mem_append, List.mem_singleton] at hq
      rcases hq with hq | rfl
      · exact h.listed _ q hq
      · exact ⟨R, hR, rfl, hevict, hpins⟩
    · rw [lruAdd_of_ne hty] at hq
      exact h.listed ty q hq

def Res.held (R : Res) : Option ℕ := if R.pinCount = 0 then none else R.backup

def held (s : ResDev) (r : ℕ) : Option ℕ := (s.res r).bind Res.held

/-- The type of each resource, and how often it is pinned. -/
def kinds (s : ResDev) (r : ℕ) : Option (ResFunc × ℕ) := (s.res r).map fun R => (R.func, R.pinCount)

/-- A validation of the resource at `r`, with its evictions: no list gets longer, and no pin
    of another resource changes. -/
structure Settles (r : ℕ) (s t : ResDev) : Prop where
  ok : LruOk t
  sub : ∀ ty q, q ∈ t.lru ty → q ∈ s.lru ty
  live : t.live = s.live
  pins : t.pinCount = s.pinCount
  otherPins : t.otherPins = s.otherPins
  kinds : kinds t = kinds s
  held : ∀ q, q ≠ r → held t q = held s q

theorem Settles.refl (h : LruOk s) : Settles r s s :=
  ⟨h, fun _ _ hq => hq, rfl, rfl, rfl, rfl, fun _ _ => rfl⟩

theorem Settles.trans {u : ResDev} (h : Settles r s t) (h' : Settles r t u) : Settles r s u :=
  ⟨h'.ok, fun ty q hq => h.sub ty q (h'.sub ty q hq), h'.live.trans h.live, h'.pins.trans h.pins,
    h'.otherPins.trans h.otherPins, h'.kinds.trans h.kinds,
    fun q hq => (h'.held q hq).trans (h.held q hq)⟩

theorem kinds_of_tags {u v : Option Res} (h : u.map Res.tag = v.map Res.tag) :
    u.map (fun R => (R.func, R.pinCount)) = v.map fun R => (R.func, R.pinCount) := by
  have hcomp : ∀ w : Option Res, w.map (fun R => (R.func, R.pinCount)) =
      (w.map Res.tag).map fun tag => (tag.1, tag.2.1) := by
    intro w
    rw [Option.map_map]
    rfl
  rw [hcomp, hcomp, h]

theorem held_of_tags {u v : Option Res} (h : u.map Res.tag = v.map Res.tag) :
    u.bind Res.held = v.bind Res.held := by
  have hcomp : ∀ w : Option Res, w.bind Res.held =
      (w.map Res.tag).bind fun tag => if tag.2.1 = 0 then none else tag.2.2 := by
    intro w
    cases w <;> rfl
  rw [hcomp, hcomp, h]

theorem Settles.setRes (h : LruOk s) (hR : s.res r = some R) (hq : Quiet (R, s) f) :
    Settles r s (setRes r f.1 f.2) := by
  refine ⟨h.setRes hR hq, ?_, hq.live, hq.pins, hq.otherPins, ?_, ?_⟩
  · intro ty q hmem
    exact hq.lru ▸ hmem
  · funext q
    unfold Resources.kinds
    by_cases hqr : q = r
    · subst hqr
      rw [setRes_self, hR, Option.map_some, Option.map_some, hq.func, hq.pinCount]
    · rw [setRes_of_ne hqr]
      exact kinds_of_tags (hq.tags q)
  · intro q hqr
    unfold Resources.held
    rw [setRes_of_ne hqr]
    exact held_of_tags (hq.tags q)

theorem held_of_unpinned (hR : s.res r = some R) (hpins : R.pinCount = 0) : held s r = none := by
  rw [held, hR, Option.bind_some, Res.held, if_pos hpins]

theorem Settles.unpinned (h : Settles q s t) (hQ : s.res q = some R)
    (hpins : R.pinCount = 0) : ∀ r, Settles r s t := by
  intro r
  refine ⟨h.ok, h.sub, h.live, h.pins, h.otherPins, h.kinds, ?_⟩
  intro p hpr
  by_cases hpq : p = q
  · subst hpq
    obtain ⟨S, hS, hkind⟩ := res_of_map (congrFun h.kinds p) hQ
    have hfree : S.pinCount = 0 := (congrArg Prod.snd hkind).trans hpins
    rw [held_of_unpinned hQ hpins, held_of_unpinned hS hfree]
  · exact h.held p hpq

theorem Settles.lruAdd (h : Settles r s t) (hR : t.res r = some R) (hmem : r ∈ s.lru R.func.resType)
    (hevict : R.func.mayEvict = true) (hpins : R.pinCount = 0) (hoff : r ∉ t.lru R.func.resType) :
    Settles r s (lruAdd R.func.resType r t) := by
  refine ⟨h.ok.lruAdd hR hevict hpins hoff, ?_, h.live, h.pins, h.otherPins, h.kinds, h.held⟩
  intro ty q hq
  by_cases hty : ty = R.func.resType
  · subst hty
    rw [lruAdd_self, List.mem_append, List.mem_singleton] at hq
    rcases hq with hq | rfl
    · exact h.sub _ q hq
    · exact hmem
  · rw [lruAdd_of_ne hty] at hq
    exact h.sub ty q hq

theorem Settles.drop (h : LruOk s) {l : List ℕ} (hl : l.Sublist (s.lru ty)) :
    Settles r s { s with lru := Function.update s.lru ty l } := by
  refine ⟨h.drop hl, ?_, rfl, rfl, rfl, rfl, fun _ _ => rfl⟩
  intro ty' q hq
  by_cases hty : ty' = ty
  · subst hty
    change q ∈ Function.update s.lru ty' l ty' at hq
    rw [Function.update_self] at hq
    exact hl.subset hq
  · change q ∈ Function.update s.lru ty l ty' at hq
    rwa [Function.update_of_ne hty] at hq

theorem evictFirst_settles (h : LruOk s) {o : EvictOut} {ret : Option Errno}
    (hs : evictFirst o ty s = some (ret, t)) : ∀ r, Settles r s t := by
  obtain ⟨q, l, Q, f, hlru, hQ, hf, rfl⟩ := evictFirst_cases hs
  have hmem : q ∈ s.lru ty := hlru ▸ List.mem_cons_self
  obtain ⟨P, hP, hty, hevict, hpins⟩ := h.listed ty q hmem
  obtain rfl : P = Q := Option.some.inj (hP.symm.trans hQ)
  have hsub : l.Sublist (s.lru ty) := hlru ▸ List.sublist_cons_self q l
  have hdrop : Settles q s { s with lru := Function.update s.lru ty l } := Settles.drop h hsub
  have hquiet := quiet_doEvict o q (P, { s with lru := Function.update s.lru ty l })
  rw [hf] at hquiet
  have hset := hdrop.trans (Settles.setRes hdrop.ok hQ hquiet)
  have hfunc : f.1.func = P.func := hquiet.func
  have hoff : q ∉ (setRes q f.1 f.2).lru ty := by
    have hlist : (setRes q f.1 f.2).lru = Function.update s.lru ty l := hquiet.lru
    have hnodup := h.nodup ty
    rw [hlru] at hnodup
    rw [hlist, Function.update_self]
    exact (List.nodup_cons.1 hnodup).1
  apply Settles.unpinned (q := q) _ hQ hpins
  split_ifs
  · rw [← hfunc] at hty hevict
    subst hty
    exact hset.lruAdd (setRes_self ..) hmem hevict (hquiet.pinCount.trans hpins) hoff
  · exact hset

theorem validateRound_settles (h : LruOk s) {hasBo : Bool} {o : Round} {n : ℕ} {g : RoundEnd}
    (hg : validateRound hasBo r o n s = some g) : Settles r s g.state := by
  obtain ⟨R, ret, f, hR, hf, hend⟩ := validateRound_cases hg
  have hquiet := quiet_doValidate o.validate hasBo r (R, s)
  rw [hf] at hquiet
  have hset := Settles.setRes h hR hquiet
  rcases hend with ⟨-, rfl⟩ | rfl | ⟨-, -, evicted, hu, -⟩
  · exact hset
  · exact hset
  · exact hset.trans (evictFirst_settles hset.ok hu r)

theorem validateLoop_settles {hasBo : Bool} {os : List Round} {n : ℕ} (h : LruOk s)
    {ret : Option Errno} (hs : validateLoop hasBo r os n s = some (ret, t)) : Settles r s t := by
  induction os generalizing n s with
  | nil => cases hs
  | cons o os ih =>
    unfold validateLoop at hs
    split at hs
    · cases hs
    · next ret' u hu =>
      obtain ⟨-, rfl⟩ := Prod.mk.inj (Option.some.inj hs)
      exact validateRound_settles h hu
    · next m u hu =>
      have hround : Settles r s u := validateRound_settles h hu
      exact hround.trans (ih hround.ok hs)

theorem releaseBackup_settles (h : LruOk s) (r : ℕ) : Settles r s (releaseBackup r s) := by
  unfold releaseBackup
  split
  · exact Settles.refl h
  · next R hR =>
    split_ifs
    · exact Settles.setRes h hR ((quiet_mobDel r (R, s)).setBackup none)
    · exact Settles.refl h

theorem validate_settles (h : LruOk s) {os : List Round} {ret : Option Errno}
    (hs : vmwResourceValidate os r s = some (ret, t)) : Settles r s t := by
  obtain ⟨R, hR, ⟨-, -, rfl⟩ | ⟨u, hu, rfl⟩⟩ := validate_cases hs
  · exact Settles.refl h
  · have hloop := validateLoop_settles h hu
    split_ifs
    · exact hloop
    · exact hloop.trans (releaseBackup_settles hloop.ok r)

/-- `lru_head` is on a list. -/
def OnLru (s : ResDev) (r : ℕ) : Prop := ∃ ty, r ∈ s.lru ty

/-- What `vmw_resource_unreserve` asks of a resource. -/
def Res.evictable (R : Res) : Prop := R.func.mayEvict = true ∧ R.id ≠ -1 ∧ R.pinCount = 0

theorem LruOk.congr (h : LruOk s) (hres : t.res = s.res) (hlru : t.lru = s.lru) : LruOk t := by
  refine ⟨fun ty => hlru ▸ h.nodup ty, ?_⟩
  intro ty q hq
  rw [hlru] at hq
  rw [hres]
  exact h.listed ty q hq

theorem LruOk.onLru_iff (h : LruOk s) (hR : s.res r = some R) :
    OnLru s r ↔ r ∈ s.lru R.func.resType := by
  constructor
  · rintro ⟨ty, hmem⟩
    obtain ⟨Q, hQ, hty, -⟩ := h.listed ty r hmem
    obtain rfl := Option.some.inj (hR.symm.trans hQ)
    rwa [hty]
  · intro hmem
    exact ⟨_, hmem⟩

theorem LruOk.setOff (h : LruOk s) (hoff : ¬ OnLru s r) (R : Res) :
    LruOk (Resources.setRes r R s) := by
  refine ⟨h.nodup, ?_⟩
  intro ty q hq
  have hqr : q ≠ r := by
    rintro rfl
    exact hoff ⟨ty, hq⟩
  rw [setRes_of_ne hqr]
  exact h.listed ty q hq

theorem LruOk.off_lruDel (h : LruOk s) (hR : s.res r = some R) :
    ¬ OnLru (Resources.lruDel R.func.resType r s) r := by
  rw [(h.lruDel R.func.resType r).onLru_iff hR, lruDel_self]
  exact (h.nodup _).not_mem_erase

theorem reserve_cases (o : Except Errno ℕ) (noBackup : Bool) (r : ℕ) (R : Res) (s : ResDev) :
    ∃ ret v, vmwResourceReserve o noBackup r (R, s) =
        (ret, ({ R with backup := v }, lruDel R.func.resType r s)) ∧
      (v = R.backup ∨ R.backup = none ∧ R.func.needsBackup = true) ∧ (ret ≠ none → v = none) ∧
      (ret = none → R.func.needsBackup = true → noBackup = false → v ≠ none) := by
  unfold vmwResourceReserve
  dsimp only
  split_ifs with hif
  · rcases bufAlloc_cases R o with ⟨⟨hnone, -⟩, e, he⟩ | ⟨-, b, hb, hor⟩
    · rw [he]
      exact ⟨some e, R.backup, rfl, .inl rfl, fun _ => hnone, fun h => by cases h⟩
    · rw [hb]
      refine ⟨none, some b, rfl, ?_, fun h => absurd rfl h, fun _ _ _ => by simp⟩
      rcases hor with ⟨hnone, -⟩ | hsome
      · exact .inr ⟨hnone, (Bool.and_eq_true_iff.1 hif).1⟩
      · exact .inl hsome.symm
  · refine ⟨none, R.backup, rfl, .inl rfl, fun h => absurd rfl h, ?_⟩
    intro _ hneeds hno
    simp [hneeds, hno] at hif

theorem LruOk.reserve (h : LruOk s) (hR : s.res r = some R) (S : Res) :
    LruOk (Resources.setRes r S (Resources.lruDel R.func.resType r s)) :=
  (h.lruDel R.func.resType r).setOff (h.off_lruDel hR) S

theorem quiet_switchBackup (new : Option ℕ) (r : ℕ) (f : Focus) :
    Quiet f (switchBackup new r f) := by
  obtain ⟨R, s⟩ := f
  have hdel := quiet_mobDel r (R, s)
  unfold switchBackup
  dsimp only
  split_ifs
  · exact Quiet.refl _
  · cases new with
    | some b => exact (hdel.setBackup (some b)).mobAdd b r
    | none => exact hdel.setBackup none
  · cases new with
    | some b => exact ((Quiet.refl (R, s)).setBackup (some b)).mobAdd b r
    | none => exact (Quiet.refl (R, s)).setBackup none

theorem setRes_same (hR : s.res r = some R) : setRes r R s = s := by
  have hsame := Function.update_eq_self r s.res
  rw [hR] at hsame
  exact congrArg (fun res => { s with res := res }) hsame

theorem unreserveAt_listed (switch : Option (Option ℕ)) (hR : s.res r = some R)
    (hmem : r ∈ s.lru R.func.resType) : unreserveAt switch r s = s := by
  simp only [unreserveAt, hR, vmwResourceUnreserve, if_pos hmem]
  exact setRes_same hR

theorem unreserveAt_cases (switch : Option (Option ℕ)) (hR : s.res r = some R)
    (hoff : r ∉ s.lru R.func.resType) : ∃ f, f = switch.elim (R, s) (switchBackup · r (R, s)) ∧
      Quiet (R, s) f ∧
      (f.1.evictable ∧
          unreserveAt switch r s = lruAdd f.1.func.resType r (setRes r f.1 f.2) ∨
        ¬ f.1.evictable ∧ unreserveAt switch r s = setRes r f.1 f.2) := by
  refine ⟨_, rfl, ?_, ?_⟩
  · cases switch with
    | none => exact Quiet.refl _
    | some new => exact quiet_switchBackup new r _
  · generalize hf : switch.elim (R, s) (switchBackup · r (R, s)) = f
    simp only [unreserveAt, hR, vmwResourceUnreserve, if_neg hoff, hf]
    split_ifs with hif
    · refine .inr ⟨?_, rfl⟩
      rintro ⟨hevict, hid, hpins⟩
      simp [hevict, hid, hpins] at hif
    · refine .inl ⟨?_, rfl⟩
      simp only [Bool.or_eq_true, Bool.not_eq_true', decide_eq_true_eq, not_or,
        Bool.not_eq_false, not_not] at hif
      exact ⟨hif.1.1, hif.1.2, hif.2⟩

theorem LruOk.unreserveAt (h : LruOk s) (switch : Option (Option ℕ)) (r : ℕ) :
    LruOk (unreserveAt switch r s) := by
  cases hR : s.res r with
  | none =>
    simp only [Resources.unreserveAt, hR]
    exact h
  | some R =>
    by_cases hmem : r ∈ s.lru R.func.resType
    · rw [unreserveAt_listed switch hR hmem]
      exact h
    · obtain ⟨f, -, hquiet, ⟨hevict, heq⟩ | ⟨-, heq⟩⟩ := unreserveAt_cases switch hR hmem
      · rw [heq]
        have hlru : (Resources.setRes r f.1 f.2).lru = s.lru := hquiet.lru
        apply (h.setRes hR hquiet).lruAdd (setRes_self ..) hevict.1 hevict.2.2
        rw [hlru, hquiet.func]
        exact hmem
      · rw [heq]
        exact h.setRes hR hquiet

def EvictableAt (s : ResDev) (r : ℕ) : Prop := ∃ R, s.res r = some R ∧ R.evictable

theorem onLru_lruAdd {ty : ResType} : OnLru (lruAdd ty r s) q ↔ OnLru s q ∨ q = r := by
  have hmem : ∀ ty', q ∈ (lruAdd ty r s).lru ty' ↔ q ∈ s.lru ty' ∨ ty' = ty ∧ q = r := by
    intro ty'
    by_cases hty : ty' = ty
    · subst hty
      rw [lruAdd_self, List.mem_append, List.mem_singleton]
      simp
    · rw [lruAdd_of_ne hty]
      simp [hty]
  simp only [OnLru, hmem, exists_or, exists_eq_left]

theorem unreserveAt_spec (r : ℕ) (s : ResDev) :
    (unreserveAt none r s).res = s.res ∧
      ∀ q, OnLru (unreserveAt none r s) q ↔ OnLru s q ∨ q = r ∧ EvictableAt s r := by
  cases hR : s.res r with
  | none =>
    have hsame : unreserveAt none r s = s := by simp only [unreserveAt, hR]
    rw [hsame]
    simp [EvictableAt, hR]
  | some R =>
    have hevict : EvictableAt s r ↔ R.evictable := by simp [EvictableAt, hR]
    by_cases hmem : r ∈ s.lru R.func.resType
    · rw [unreserveAt_listed none hR hmem]
      refine ⟨rfl, fun q => ⟨.inl, ?_⟩⟩
      rintro (hon | ⟨rfl, -⟩)
      · exact hon
      · exact ⟨_, hmem⟩
    · obtain ⟨f, rfl, -, ⟨hyes, heq⟩ | ⟨hno, heq⟩⟩ := unreserveAt_cases none hR hmem
      · change unreserveAt none r s = lruAdd R.func.resType r (setRes r R s) at heq
        rw [heq, setRes_same hR]
        refine ⟨rfl, fun q => onLru_lruAdd.trans ?_⟩
        simp [hevict, show R.evictable from hyes]
      · change unreserveAt none r s = setRes r R s at heq
        rw [heq, setRes_same hR]
        refine ⟨rfl, fun q => ?_⟩
        simp [hevict, show ¬ R.evictable from hno]

theorem LruOk.addPinAt (h : LruOk s) (hoff : ¬ OnLru s r) : LruOk (addPinAt r s) := by
  unfold Resources.addPinAt
  split
  · exact h
  · exact h.setOff hoff _

theorem quiet_unbindOne (o : Option Errno) (l : List ℕ) (r : ℕ) (f : Focus) :
    Quiet f (mobDel r ({ (unbind o l r f).2.1 with backupDirty := true, resDirty := false },
      (unbind o l r f).2.2)) := by
  have hunbind := quiet_unbind o l r f
  have hdirty : Quiet f ({ (unbind o l r f).2.1 with backupDirty := true, resDirty := false },
      (unbind o l r f).2.2) :=
    ⟨hunbind.lru, hunbind.live, hunbind.pins, hunbind.otherPins, hunbind.tags, hunbind.func,
      hunbind.pinCount⟩
  exact hdirty.trans (quiet_mobDel r _)

theorem Settles.setKept (h : LruOk s) (hR : s.res r = some R) (hq : Quiet (R, s) f)
    (hbackup : f.1.backup = R.backup) : ∀ p, Settles p s (Resources.setRes r f.1 f.2) := by
  have hset := Settles.setRes h hR hq
  intro p
  refine ⟨hset.ok, hset.sub, hset.live, hset.pins, hset.otherPins, hset.kinds, ?_⟩
  intro q _
  by_cases hqr : q = r
  · subst hqr
    rw [Resources.held, Resources.held, setRes_self, hR, Option.bind_some, Option.bind_some,
      Res.held, Res.held, hq.pinCount, hbackup]
  · exact hset.held q hqr

theorem unbind_backup (o : Option Errno) (l : List ℕ) (r : ℕ) (f : Focus) :
    (unbind o l r f).2.1.backup = f.1.backup := by
  unfold unbind
  split
  · rfl
  · dsimp only
    split_ifs <;> rfl

theorem unbindList_settles (h : LruOk s) (o : ℕ → Option Errno × List ℕ) (l : List ℕ) :
    ∀ p, Settles p s (vmwResourceUnbindList o l s) := by
  induction l generalizing s with
  | nil => exact fun p => Settles.refl h
  | cons r l ih =>
    unfold vmwResourceUnbindList
    split
    · exact ih h
    · next R hR =>
      split_ifs
      · exact ih h
      · have hquiet := quiet_unbindOne (o r).1 (o r).2 r (R, s)
        have hone := Settles.setKept h hR hquiet (by rw [mobDel_fst]; exact unbind_backup ..)
        intro p
        exact (hone p).trans (ih (hone p).ok p)

/-- The resource at `r` while `vmw_resource_pin` holds its reservation. -/
def pinReserved (r : ℕ) (R : Res) (v : Option ℕ) (s : ResDev) : ResDev :=
  setRes r { R with backup := v } (lruDel R.func.resType r s)

theorem pinStart_cases {o : PinOut} {g : PinStart} (hg : pinStart o r s = some g) :
    ∃ R v, s.res r = some R ∧ (v = R.backup ∨ R.backup = none ∧ R.func.needsBackup = true) ∧
      ((∃ e, v = none ∧ g = .ends (some e) (pinReserved r R v s)) ∨
        (R.func.needsBackup = true → v ≠ none) ∧
          (R.pinCount ≠ 0 ∧
              g = .ends none (unreserveAt none r (addPinAt r (pinReserved r R v s))) ∨
            R.pinCount = 0 ∧
              ((∃ e, g = .ends (some e) (unreserveAt none r (pinReserved r R v s))) ∨
                (∃ b, v = some b ∧
                  g = .validates (vmwBoPinReserved b true (pinReserved r R v s))) ∨
                v = none ∧ g = .validates (pinReserved r R v s)))) := by
  unfold pinStart at hg
  split at hg
  · cases hg
  · next R hR =>
    obtain ⟨ret, v, hreserve, hkept, hfailed, hneeds⟩ := reserve_cases o.alloc false r R s
    refine ⟨R, v, hR, hkept, ?_⟩
    rw [hreserve] at hg
    cases ret with
    | some e => exact .inl ⟨e, hfailed (by simp), (Option.some.inj hg).symm⟩
    | none =>
      refine .inr ⟨fun h => hneeds rfl h rfl, ?_⟩
      dsimp only at hg
      split_ifs at hg with hpinned
      · exact .inl ⟨hpinned, (Option.some.inj hg).symm⟩
      · refine .inr ⟨not_not.1 hpinned, ?_⟩
        cases v with
        | none => exact .inr (.inr ⟨rfl, (Option.some.inj hg).symm⟩)
        | some b =>
          cases hplaced : o.boValidate with
          | none =>
            rw [hplaced] at hg
            exact .inr (.inl ⟨b, rfl, (Option.some.inj hg).symm⟩)
          | some e =>
            rw [hplaced] at hg
            dsimp only at hg
            split_ifs at hg
            · exact .inl ⟨e, (Option.some.inj hg).symm⟩
            · exact .inr (.inl ⟨b, rfl, (Option.some.inj hg).symm⟩)

theorem LruOk.pinReserved (h : LruOk s) (hR : s.res r = some R) (v : Option ℕ) :
    LruOk (pinReserved r R v s) := h.reserve hR _

theorem LruOk.pinStart (h : LruOk s) {o : PinOut} {g : PinStart} (hg : pinStart o r s = some g) :
    LruOk g.state ∧ ∀ t, g = .validates t → ¬ OnLru t r := by
  obtain ⟨R, v, hR, -, hend⟩ := pinStart_cases hg
  have hok := h.pinReserved hR v
  have hoff : ¬ OnLru (Resources.pinReserved r R v s) r := h.off_lruDel hR
  rcases hend with ⟨e, -, rfl⟩ | ⟨-, ⟨-, rfl⟩ | ⟨-, ⟨e, rfl⟩ | ⟨b, -, rfl⟩ | ⟨-, rfl⟩⟩⟩
  · exact ⟨hok, fun t ht => by cases ht⟩
  · exact ⟨(hok.addPinAt hoff).unreserveAt none r, fun t ht => by cases ht⟩
  · exact ⟨hok.unreserveAt none r, fun t ht => by cases ht⟩
  · refine ⟨hok.congr rfl rfl, fun t ht => ?_⟩
    cases ht
    exact hoff
  · refine ⟨hok, fun t ht => ?_⟩
    cases ht
    exact hoff

theorem pin_cases {o : PinOut} {ret : Option Errno} (hs : vmwResourcePin o r s = some (ret, t)) :
    pinStart o r s = some (.ends ret t) ∨
      ∃ u w, pinStart o r s = some (.validates u) ∧
        vmwResourceValidate o.rounds r u = some (ret, w) ∧
        t = unreserveAt none r (if ret.isSome then w else addPinAt r w) := by
  unfold vmwResourcePin at hs
  split at hs
  · cases hs
  · next hu =>
    obtain ⟨rfl, rfl⟩ := Prod.mk.inj (Option.some.inj hs)
    exact .inl hu
  · next u hu =>
    refine .inr ⟨u, ?_⟩
    split at hs
    · cases hs
    · next w hw =>
      obtain ⟨rfl, rfl⟩ := Prod.mk.inj (Option.some.inj hs)
      exact ⟨w, hu, hw, rfl⟩
    · next w hw =>
      obtain ⟨rfl, rfl⟩ := Prod.mk.inj (Option.some.inj hs)
      exact ⟨w, hu, hw, rfl⟩

theorem Settles.off (h : Settles r s t) (hoff : ¬ OnLru s q) : ¬ OnLru t q := by
  rintro ⟨ty, hmem⟩
  exact hoff ⟨ty, h.sub ty q hmem⟩

theorem LruOk.pin (h : LruOk s) {o : PinOut} {ret : Option Errno}
    (hs : vmwResourcePin o r s = some (ret, t)) : LruOk t := by
  rcases pin_cases hs with hu | ⟨u, w, hu, hw, rfl⟩
  · exact (h.pinStart hu).1
  · obtain ⟨hok, hoff⟩ := h.pinStart hu
    have hsettles := validate_settles hok hw
    apply LruOk.unreserveAt
    split_ifs
    · exact hsettles.ok
    · exact hsettles.ok.addPinAt (hsettles.off (hoff u rfl))

theorem unpin_cases (hs : vmwResourceUnpin r s = some t) :
    ∃ R u, s.res r = some R ∧
      u = setRes r R.dropPin (lruDel R.func.resType r s) ∧
      t = unreserveAt none r (if R.dropPin.pinCount = 0 then
        R.backup.elim u (vmwBoPinReserved · false u) else u) := by
  unfold vmwResourceUnpin at hs
  split at hs
  · cases hs
  · next R hR => exact ⟨R, _, hR, rfl, (Option.some.inj hs).symm⟩

theorem LruOk.unpin (h : LruOk s) (hs : vmwResourceUnpin r s = some t) : LruOk t := by
  obtain ⟨R, u, hR, rfl, rfl⟩ := unpin_cases hs
  have hok := h.reserve hR R.dropPin
  apply LruOk.unreserveAt
  split_ifs
  · cases R.backup with
    | none => exact hok
    | some b => exact hok.congr rfl rfl
  · exact hok

theorem step_lruOk (s : ResDev) (op : Op) (t : ResDev) (h : LruOk s) (_ : anyLabel s op)
    (hs : step s op = some t) : LruOk t := by
  cases op with
  | init r func id backup =>
    simp only [step] at hs
    split_ifs at hs with hfree
    rw [← Option.some.inj hs]
    have hoff : ¬ OnLru s r := by
      rintro ⟨ty, hmem⟩
      obtain ⟨R, hR, -⟩ := h.listed ty r hmem
      rw [hfree] at hR
      cases hR
    exact (h.setOff hoff _).congr rfl rfl
  | reserve o noBackup r =>
    simp only [step] at hs
    split at hs
    · cases hs
    · next R hR =>
      obtain ⟨ret, v, hreserve, -⟩ := reserve_cases o noBackup r R s
      rw [← Option.some.inj hs, hreserve]
      exact h.reserve hR _
  | unreserve switch r =>
    rw [← Option.some.inj hs]
    exact h.unreserveAt switch r
  | validate os r =>
    simp only [step] at hs
    split at hs
    · cases hs
    · split_ifs at hs
      obtain ⟨⟨ret, u⟩, hu, rfl⟩ := Option.map_eq_some_iff.1 hs
      exact (validate_settles h hu).ok
  | evict o ty =>
    obtain ⟨⟨ret, u⟩, hu, rfl⟩ := Option.map_eq_some_iff.1 hs
    exact (evictFirst_settles h hu 0).ok
  | moveOut o b =>
    rw [← Option.some.inj hs]
    exact (unbindList_settles h o _ 0).ok
  | pin o r =>
    obtain ⟨⟨ret, u⟩, hu, rfl⟩ := Option.map_eq_some_iff.1 hs
    exact h.pin hu
  | unpin r => exact h.unpin hs
  | otherPin b pin =>
    rw [← Option.some.inj hs]
    exact h.congr rfl rfl

theorem start_lruOk : LruOk start := by
  refine ⟨fun _ => List.nodup_nil, ?_⟩
  intro ty r hmem
  cases hmem

theorem runs_lruOk {ops : List Op} (h : Runs step anyLabel start ops s) : LruOk s :=
  Runs.invariant LruOk h start_lruOk step_lruOk

end Vmwgfx.Resources
