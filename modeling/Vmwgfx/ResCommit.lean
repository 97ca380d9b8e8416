import Vmwgfx.ResStaging

set_option autoImplicit false

/-!
# Committing a batch

What the lookups give is a finite map that the successful calls change, with a list of the
actions that are still pending: an addition that is taken back leaves the list again.
-/
namespace Vmwgfx.ResManager
open HashTable LabelledRuns FailingState
open ExecbufState (Errno Stop)

variable {hash : ℕ → ℕ} {A : Allocator} {notifies : ℕ → Bool} {s t u : Managers hash}
  {a b m k : ℕ} {l : List ℕ}

structure Action where
  man : ℕ
  key : ℕ
  res : ℕ
  state : ResState
  deriving DecidableEq, Repr

/-- The resources of the managers by their keys, and what is pending. -/
structure ResMap where
  map : ℕ → ℕ → Option ℕ
  pending : List Action

def ResMap.set (M : ResMap) (man key : ℕ) (x : Option ℕ) : ℕ → ℕ → Option ℕ := fun m k =>
  if m = man ∧ k = key then x else M.map m k

def Action.adds (man key : ℕ) (x : Action) : Bool :=
  x.state == .add && x.man == man && x.key == key

/-- An addition under the key is taken back, else its resource is to be removed. -/
def ResMap.unstage (M : ResMap) (man key : ℕ) : List Action :=
  if M.pending.any (Action.adds man key) then M.pending.filter fun x => !x.adds man key
  else M.pending ++ ((M.map man key).map fun res => ⟨man, key, res, .del⟩).toList

def ResMap.apply (M : ResMap) : Call × Bool → ResMap
  | (.add man resType userKey res _, true) =>
    ⟨M.set man (resKey resType userKey) (some res),
      M.pending ++ [⟨man, resKey resType userKey, res, .add⟩]⟩
  | (.remove man resType userKey, true) =>
    ⟨M.set man (resKey resType userKey) none, M.unstage man (resKey resType userKey)⟩
  | (_, false) => M

def ResMap.applyAll (M : ResMap) (cs : List (Call × Bool)) : ResMap := cs.foldl ResMap.apply M

def succeeded (r : Call × Except Stop (Option ℕ)) : Call × Bool := (r.1, r.2.isOk)

def actionOf (e : CmdbufRes) : Action := ⟨e.man, e.key, e.res, e.state⟩

def resMap (s : Managers hash) : ResMap where
  map m k := (s.found m k).map fun a => (s.entry a).res
  pending := s.staged.map fun a => actionOf (s.entry a)

theorem lookup_resMap (s : Managers hash) (man : ℕ) (resType : CmdbufResType) (userKey : ℕ) :
    vmwCmdbufResLookup s man resType userKey =
      ((resMap s).map man (resKey resType userKey)).elim (.error .einval) .ok := by
  unfold vmwCmdbufResLookup resMap
  dsimp only
  cases s.found man (resKey resType userKey) <;> rfl

theorem resMap_ext {M N : ResMap} (hm : ∀ m k, M.map m k = N.map m k)
    (hp : M.pending = N.pending) : M = N := by
  cases M
  cases N
  simp only [ResMap.mk.injEq]
  exact ⟨funext fun m => funext fun k => hm m k, hp⟩

theorem adds_iff (e : CmdbufRes) (man key : ℕ) :
    (actionOf e).adds man key = true ↔ e.state = .add ∧ e.man = man ∧ e.key = key := by
  simp [Action.adds, actionOf, and_assoc]

theorem resMap_stageAdd (hs : Wf s) {cres man key res : ℕ} {ht : OpenHash hash ℕ}
    (hc : cres ∉ s.used) (h : drmHtInsertItem (s.resources man) ⟨cres, key⟩ = some ht) :
    resMap (s.stageAdd cres man key res ht) =
      ⟨(resMap s).set man key (some res), (resMap s).pending ++ [⟨man, key, res, .add⟩]⟩ := by
  refine resMap_ext (fun m k => ?_) ?_
  · simp only [resMap, ResMap.set]
    rw [found_stageAdd h]
    by_cases hk : m = man ∧ k = key
    · simp only [if_pos hk, Option.map_some, entry_stageAdd_new]
    · simp only [if_neg hk]
      refine Option.map_congr fun a ha => ?_
      rw [entry_stageAdd_used hc (hs.used ha)]
  · change List.map _ (s.staged ++ [cres]) = _
    rw [List.map_append, List.map_singleton, entry_stageAdd_new]
    congr 1
    exact List.map_congr_left fun a ha => by rw [entry_stageAdd_used hc (hs.staged ha).2]

theorem adds_found (hs : Wf s) (hf : s.found m k = some a) (hb : b ∈ s.staged) :
    (actionOf (s.entry b)).adds m k = true ↔ b = a ∧ (s.entry a).state = .add := by
  rw [adds_iff]
  constructor
  · rintro ⟨hadd, rfl, rfl⟩
    have hba := hs.added hb hadd
    rw [hf, Option.some.injEq] at hba
    exact ⟨hba.symm, hba ▸ hadd⟩
  · rintro ⟨rfl, hadd⟩
    exact ⟨hadd, (hs.found hf).1, (hs.found hf).2.1⟩

theorem resMap_free (hs : Wf s) (hf : s.found m k = some a) (ha : a ∈ s.staged)
    (hadd : (s.entry a).state = .add) :
    resMap (vmwCmdbufResFree m a s) =
      ⟨(resMap s).set m k none, (resMap s).unstage m k⟩ := by
  obtain ⟨rfl, rfl, -⟩ := hs.found hf
  have hany : (resMap s).pending.any (Action.adds (s.entry a).man (s.entry a).key) = true :=
    List.any_eq_true.2 ⟨_, List.mem_map_of_mem ha, (adds_found hs hf ha).2 ⟨rfl, hadd⟩⟩
  refine resMap_ext (fun m k => ?_) ?_
  · simp only [resMap, ResMap.set, found_free hs]
    by_cases hk : s.found m k = some a
    · have hmk := hs.found hk
      simp only [hk, if_true, hmk.1, hmk.2.1, and_self, Option.map_none]
    · rw [if_neg hk, if_neg]
      · rfl
      · rintro ⟨rfl, rfl⟩
        exact hk hf
  · simp only [ResMap.unstage, hany, if_true]
    change List.map _ (s.staged.filter _) = List.filter _ (s.staged.map _)
    rw [List.filter_map]
    congr 1
    refine List.filter_congr fun b hb => ?_
    have hiff := adds_found hs hf hb
    by_cases hba : b = a
    · have := hiff.2 ⟨hba, hadd⟩
      simp only [Function.comp_apply, this]
      simp [hba]
    · have : (actionOf (s.entry b)).adds (s.entry a).man (s.entry a).key = false := by
        rw [← Bool.not_eq_true, hiff]
        exact fun h => hba h.1
      simp only [Function.comp_apply, this]
      simp [hba]

theorem resMap_stageRemove (hs : Wf s) (hf : s.found m k = some a) (ha : a ∈ s.list m) :
    resMap (s.stageRemove m a) = ⟨(resMap s).set m k none, (resMap s).unstage m k⟩ := by
  obtain ⟨rfl, rfl, -⟩ := hs.found hf
  have hcom := (hs.listed ha).2.1
  have hnot : a ∉ s.staged := fun h => hs.not_listed h ha
  have hany : (resMap s).pending.any (Action.adds (s.entry a).man (s.entry a).key) = false := by
    refine List.any_eq_false.2 fun x hx => ?_
    obtain ⟨b, hb, rfl⟩ := List.mem_map.1 hx
    rw [adds_found hs hf hb, hcom]
    simp
  refine resMap_ext (fun m k => ?_) ?_
  · simp only [resMap, ResMap.set, found_stageRemove hs]
    by_cases hk : s.found m k = some a
    · have hmk := hs.found hk
      simp only [hk, if_true, hmk.1, hmk.2.1, and_self, Option.map_none]
    · rw [if_neg hk, if_neg]
      · refine Option.map_congr fun b hb => ?_
        rw [entry_stageRemove_of_ne]
        rintro rfl
        exact hk hb
      · rintro ⟨rfl, rfl⟩
        exact hk hf
  · simp only [ResMap.unstage, hany, Bool.false_eq_true, if_false]
    change List.map _ (s.staged.filter _ ++ [a]) = _
    rw [List.map_append, List.map_singleton]
    congr 1
    · rw [List.filter_eq_self.2 fun b hb => by
        simpa using fun he : b = a => hnot (he ▸ hb)]
      refine List.map_congr_left fun b hb => ?_
      have hne : b ≠ a := fun he => hnot (he ▸ hb)
      rw [entry_stageRemove_of_ne hne]
    · simp only [resMap, hf, Option.map_some, Option.toList_some]
      rw [entry_stageRemove_self]
      rfl

theorem call_refines (hs : Wf s) (c : Call) :
    resMap (call A c s).2 = (resMap s).apply (succeeded (c, (call A c s).1)) ∧
      (call A c s).1 ≠ .error .bugOn := by
  rcases call_cases (A := A) hs c with ⟨e, h⟩ | ⟨e, h⟩ |
    ⟨man, resType, userKey, res, ht, rfl, -, hins, h⟩ |
    ⟨man, resType, userKey, a, rfl, hf, ha, hadd, h⟩ |
    ⟨man, resType, userKey, a, rfl, hf, ha, h⟩ <;> rw [h]
  · exact ⟨by cases c <;> rfl, by simp⟩
  · exact ⟨by cases c <;> rfl, by simp⟩
  · exact ⟨resMap_stageAdd hs (A.fresh _) hins, by simp⟩
  · exact ⟨resMap_free hs hf ha hadd, by simp⟩
  · exact ⟨resMap_stageRemove hs hf ha, by simp⟩

theorem callAll_refines (hs : Wf s) (cs : List Call) :
    resMap (callAll A cs s).2 = (resMap s).applyAll ((callAll A cs s).1.map succeeded) ∧
      ∀ r ∈ (callAll A cs s).1, r.2 ≠ .error .bugOn := by
  induction cs generalizing s with
  | nil => exact ⟨rfl, fun r hr => absurd hr List.not_mem_nil⟩
  | cons c cs ih =>
    obtain ⟨hmap, hbug⟩ := call_refines (A := A) hs c
    obtain ⟨hmap', hbug'⟩ := ih (hs.call (A := A) c)
    refine ⟨?_, fun r hr => ?_⟩
    · change resMap (callAll A cs (call A c s).2).2 = _
      rw [hmap', hmap]
      rfl
    · rcases List.mem_cons.1 hr with rfl | hr
      · exact hbug
      · exact hbug' r hr

@[simp] theorem notify_entry (e : CmdbufRes) : (s.notify notifies e).entry = s.entry := by
  unfold Managers.notify
  split <;> rfl

@[simp] theorem notify_used (e : CmdbufRes) : (s.notify notifies e).used = s.used := by
  unfold Managers.notify
  split <;> rfl

@[simp] theorem notify_found (e : CmdbufRes) : (s.notify notifies e).found = s.found := by
  unfold Managers.notify
  split <;> rfl

@[simp] theorem notify_list (e : CmdbufRes) : (s.notify notifies e).list = s.list := by
  unfold Managers.notify
  split <;> rfl

@[simp] theorem notify_staged (e : CmdbufRes) : (s.notify notifies e).staged = s.staged := by
  unfold Managers.notify
  split <;> rfl

@[simp] theorem notify_refs (e : CmdbufRes) : (s.notify notifies e).refs = s.refs := by
  unfold Managers.notify
  split <;> rfl

theorem notify_notified (e : CmdbufRes) : (s.notify notifies e).notified =
    s.notified ++ if notifies e.res then [(e.res, e.state)] else [] := by
  unfold Managers.notify
  split <;> simp

/-- The entries `l` are committed between two states. -/
structure Commits (notifies : ℕ → Bool) (l : List ℕ) (s t : Managers hash) : Prop where
  wf : Wf t
  staged : t.staged = []
  found : t.found = s.found
  same : ∀ a, (t.entry a).res = (s.entry a).res ∧ (t.entry a).key = (s.entry a).key
  list : ∀ m, t.list m =
    s.list m ++ l.filter fun a => (s.entry a).state = .add ∧ (s.entry a).man = m
  refs : ∀ r, t.refs r =
    s.refs r - l.countP fun a => (s.entry a).state = .del ∧ (s.entry a).res = r
  notified : t.notified = s.notified ++
    (l.filter fun a => notifies (s.entry a).res).map fun a =>
      ((s.entry a).res, (s.entry a).state)

theorem Commits.cons (hs : Wf s) (hst : s.staged = a :: l)
    (hu : u.found = s.found ∧ (∀ b, b ≠ a → u.entry b = s.entry b) ∧
      ((u.entry a).res = (s.entry a).res ∧ (u.entry a).key = (s.entry a).key) ∧
      (∀ m, u.list m = s.list m ++
        if (s.entry a).state = .add ∧ (s.entry a).man = m then [a] else []) ∧
      (∀ r, u.refs r = s.refs r -
        if (s.entry a).state = .del ∧ (s.entry a).res = r then 1 else 0) ∧
      u.notified = s.notified ++
        if notifies (s.entry a).res then [((s.entry a).res, (s.entry a).state)] else [])
    (ht : Commits notifies l u t) : Commits notifies (a :: l) s t := by
  obtain ⟨hfound, hold, hres, hlist, hrefs, hnot⟩ := hu
  have hsame : ∀ b ∈ l, u.entry b = s.entry b := fun b hb =>
    hold b fun he => hs.head_not_mem hst (he ▸ hb)
  refine ⟨ht.wf, ht.staged, ht.found.trans hfound, fun b => ?_, fun m => ?_, fun r => ?_, ?_⟩
  · rw [(ht.same b).1, (ht.same b).2]
    by_cases hb : b = a
    · rw [hb]
      exact hres
    · rw [hold b hb]
      exact ⟨rfl, rfl⟩
  · rw [ht.list, hlist, List.filter_cons, List.append_assoc]
    congr 1
    have htail : (l.filter fun a => (u.entry a).state = .add ∧ (u.entry a).man = m) =
        l.filter fun a => (s.entry a).state = .add ∧ (s.entry a).man = m :=
      List.filter_congr fun b hb => by rw [hsame b hb]
    rw [htail]
    by_cases hm : (s.entry a).state = .add ∧ (s.entry a).man = m <;> simp [hm]
  · rw [ht.refs, hrefs, List.countP_cons]
    have htail : (l.countP fun a => (u.entry a).state = .del ∧ (u.entry a).res = r) =
        l.countP fun a => (s.entry a).state = .del ∧ (s.entry a).res = r :=
      List.countP_congr fun b hb => by rw [hsame b hb]
    rw [htail]
    by_cases hr : (s.entry a).state = .del ∧ (s.entry a).res = r <;> simp [hr]
    ring
  · rw [ht.notified, hnot, List.filter_cons, List.append_assoc]
    congr 1
    have htail : ((l.filter fun a => notifies (u.entry a).res).map fun a =>
        ((u.entry a).res, (u.entry a).state)) =
        (l.filter fun a => notifies (s.entry a).res).map fun a =>
          ((s.entry a).res, (s.entry a).state) := by
      rw [List.filter_congr fun b hb => by rw [hsame b hb]]
      exact List.map_congr_left fun b hb => by rw [hsame b (List.mem_filter.1 hb).1]
    rw [htail]
    by_cases hn : notifies (s.entry a).res = true <;> simp [hn]

theorem commitEntry_ok (notifies : ℕ → Bool) (hs : Wf s) (hst : s.staged = a :: l) :
    ∃ u, commitEntry notifies a s = (.ok (), u) ∧ Wf u ∧ u.staged = l ∧
      u.found = s.found ∧ (∀ b, b ≠ a → u.entry b = s.entry b) ∧
      ((u.entry a).res = (s.entry a).res ∧ (u.entry a).key = (s.entry a).key) ∧
      (∀ m, u.list m = s.list m ++
        if (s.entry a).state = .add ∧ (s.entry a).man = m then [a] else []) ∧
      (∀ r, u.refs r = s.refs r -
        if (s.entry a).state = .del ∧ (s.entry a).res = r then 1 else 0) ∧
      u.notified = s.notified ++
        if notifies (s.entry a).res then [((s.entry a).res, (s.entry a).state)] else [] := by
  have hstaged := hs.listDel_staged hst
  have hlist := hs.listDel_list hst
  cases hstate : (s.entry a).state with
  | committed => exact absurd hstate (hs.staged (by simp [hst])).1
  | add =>
    have hsettled : (((s.listDel a).notify notifies (s.entry a)).settle a).list =
        Function.update s.list (s.entry a).man (s.list (s.entry a).man ++ [a]) := by
      simp only [Managers.settle, notify_entry, notify_list, hlist, listDel_entry]
    refine ⟨((s.listDel a).notify notifies (s.entry a)).settle a, ?_, ?_, ?_, ?_, ?_, ?_, ?_, ?_, ?_⟩
    · simp only [commitEntry, hstate]
    · refine hs.settled hst ?_ ?_ ?_ ?_ ?_ ?_
      · simpa [Managers.settle] using hstaged
      · simp [Managers.settle, Managers.listDel]
      · exact hsettled
      · simp [Managers.settle, Managers.listDel]
      · intro m k b h
        exact .inl (by simpa using h)
      · intro m k b h
        simpa using h
    · simpa [Managers.settle] using hstaged
    · simp
    · intro b hb
      simp [Managers.settle, hb, Managers.listDel]
    · simp [Managers.settle, Managers.listDel]
    · intro m
      rw [hsettled]
      by_cases hm : (s.entry a).man = m
      · subst hm
        simp
      · simp [hm, Ne.symm hm]
    · simp [Managers.settle, Managers.listDel]
    · change (Managers.notify _ _ _).notified = _
      rw [notify_notified, hstate]
      rfl
  | del =>
    refine ⟨(((s.listDel a).notify notifies (s.entry a)).unreference (s.entry a).res).kfree a,
      ?_, ?_, ?_, ?_, ?_, ?_, ?_, ?_, ?_⟩
    · simp only [commitEntry, hstate]
    · refine hs.dropped hst hstate ?_ ?_ ?_ ?_ ?_
      · simpa [Managers.kfree, Managers.unreference] using hstaged
      · simp [Managers.kfree, Managers.unreference, Managers.listDel]
      · simp [Managers.kfree, Managers.unreference, hlist]
      · simp [Managers.kfree, Managers.unreference, Managers.listDel]
      · simp
    · simpa [Managers.kfree, Managers.unreference] using hstaged
    · simp
    · intro b hb
      simp [Managers.kfree, Managers.unreference, Managers.listDel]
    · simp [Managers.kfree, Managers.unreference, Managers.listDel]
    · simp [Managers.kfree, Managers.unreference, hlist]
    · intro r
      by_cases hr : (s.entry a).res = r
      · simp [Managers.kfree, Managers.unreference, Managers.listDel, hr]
      · simp [Managers.kfree, Managers.unreference, Managers.listDel, hr, Ne.symm hr]
    · change (Managers.notify _ _ _).notified = _
      rw [notify_notified, hstate]
      rfl

theorem commit_loop (l : List ℕ) : ∀ s : Managers hash, Wf s → s.staged = l →
    ∃ t, forEach (commitEntry notifies) l s = (.ok (), t) ∧ Commits notifies l s t := by
  induction l with
  | nil =>
    intro s hs hst
    exact ⟨s, rfl, hs, hst, rfl, fun _ => ⟨rfl, rfl⟩, by simp, by simp, by simp⟩
  | cons a l ih =>
    intro s hs hst
    obtain ⟨u, hu, hwf, hl, heffect⟩ := commitEntry_ok notifies hs hst
    obtain ⟨t, ht, hc⟩ := ih u hwf hl
    exact ⟨t, (forEach_ok hu).trans ht, Commits.cons hs hst heffect hc⟩

inductive Op where
  | call (c : Call)
  | commit
  | revert
  deriving DecidableEq, Repr

/-- The functions of the manager under the command buffer mutex, each to its end. -/
def step (A : Allocator) (notifies : ℕ → Bool) (s : Managers hash) (o : Op) :
    Option (Managers hash) :=
  match o with
  | .call c => some (call A c s).2
  | .commit => some (vmwCmdbufResCommit notifies s).2
  | .revert => some (vmwCmdbufResRevert s).2

theorem commit_ok (notifies : ℕ → Bool) (hs : Wf s) :
    ∃ t, vmwCmdbufResCommit notifies s = (.ok (), t) ∧
    Commits notifies s.staged s t := commit_loop s.staged s hs rfl

theorem revert_ok (hs : Wf s) : ∃ t, vmwCmdbufResRevert s = (.ok (), t) ∧
    Reverts s.staged s t := revert_loop s.staged s hs rfl

theorem Wf.step {o : Op} (hs : Wf s) (h : step A notifies s o = some t) : Wf t := by
  cases o with
  | call c =>
    simp only [ResManager.step, Option.some.injEq] at h
    exact h ▸ hs.call c
  | commit =>
    obtain ⟨u, hu, hc⟩ := commit_ok notifies hs
    simp only [ResManager.step, hu, Option.some.injEq] at h
    exact h ▸ hc.wf
  | revert =>
    obtain ⟨u, hu, hc⟩ := revert_ok hs
    simp only [ResManager.step, hu, Option.some.injEq] at h
    exact h ▸ hc.wf

theorem wf_of_runs {ops : List Op} (h : Runs (step A notifies) anyLabel (created hash) ops s) :
    Wf s := h.invariant Wf Wf.created fun _ _ _ hs _ hstep => hs.step hstep

theorem Commits.settled (hc : Commits notifies l s t)
    (ha : (∃ m k, t.found m k = some a) ∨ ∃ m, a ∈ t.list m) :
    (t.entry a).state = .committed ∧
      ∀ m, (t.list m).count a = if m = (t.entry a).man then 1 else 0 := by
  have hl : a ∈ t.list (t.entry a).man := by
    rcases ha with ⟨m, k, hf⟩ | ⟨m, hl⟩
    · obtain ⟨rfl, -, hl | ⟨hst, -⟩⟩ := hc.wf.found hf
      · exact hl
      · rw [hc.staged] at hst
        cases hst
    · obtain ⟨rfl, -⟩ := hc.wf.listed hl
      exact hl
  refine ⟨(hc.wf.listed hl).2.1, fun m => ?_⟩
  by_cases hm : m = (t.entry a).man
  · rw [if_pos hm, hm]
    exact List.count_eq_one_of_mem (hc.wf.listNodup _) hl
  · rw [if_neg hm]
    exact List.count_eq_zero_of_not_mem fun h => hm (hc.wf.listed h).1.symm

/-- After any run of the managers: at every point of a batch the lookups are those of the
    map of its successful calls, and the commit keeps them. -/
theorem batch_commits {ops : List Op}
    (hr : Runs (step A notifies) anyLabel (created hash) ops s) (cs : List Call) :
    let r := callAll A cs s
    let M := (resMap s).applyAll (r.1.map succeeded)
    let done := vmwCmdbufResCommit notifies r.2
    let t := done.2
    (∀ man resType userKey, vmwCmdbufResLookup r.2 man resType userKey =
      (M.map man (resKey resType userKey)).elim (.error .einval) .ok) ∧
    (∀ man resType userKey, vmwCmdbufResLookup t man resType userKey =
      (M.map man (resKey resType userKey)).elim (.error .einval) .ok) ∧
    (done.1 = .ok () ∧ t.staged = []) ∧
    (∀ a, ((∃ m k, t.found m k = some a) ∨ ∃ m, a ∈ t.list m) →
      (t.entry a).state = .committed ∧
        ∀ m, (t.list m).count a = if m = (t.entry a).man then 1 else 0) ∧
    (∀ res, t.refs res =
      r.2.refs res - M.pending.countP fun x => x.state = .del ∧ x.res = res) ∧
    t.notified = r.2.notified ++
      (M.pending.filter fun x => notifies x.res).map fun x => (x.res, x.state) := by
  intro r M done t
  have hs := wf_of_runs hr
  have hM : resMap r.2 = M := (callAll_refines hs cs).1
  obtain ⟨u, hu, hc⟩ := commit_ok notifies (hs.callAll (A := A) cs)
  have hdone : done = (.ok (), u) := hu
  have ht : t = u := congrArg Prod.snd hdone
  rw [ht, hdone]
  have hmap : (resMap u).map = M.map := by
    rw [← hM]
    funext m k
    simp only [resMap, hc.found]
    exact Option.map_congr fun a _ => (hc.same a).1
  refine ⟨fun man resType userKey => ?_, fun man resType userKey => ?_, ⟨rfl, hc.staged⟩,
    fun a ha => hc.settled ha, fun res => ?_, ?_⟩
  · rw [lookup_resMap, hM]
  · rw [lookup_resMap, hmap]
  · rw [hc.refs, ← hM]
    simp only [resMap, List.countP_map]
    rfl
  · rw [hc.notified, ← hM]
    simp only [resMap, List.filter_map, List.map_map]
    rfl

/-- A shader 100 has been defined under the id 5 and committed. -/
def sampleManagers : Managers (· % 4096) :=
  ((exec (step .next fun _ => false) (created _)
    [.call (.add 0 .shader 5 100 true), .commit]).getD (created _))

theorem sample_runs (admits : Managers (· % 4096) → Op → Prop)
    (h : ∀ s o, o ≠ .revert → admits s o) : Runs (step .next fun _ => false) admits (created _)
      [.call (.add 0 .shader 5 100 true), .commit] sampleManagers :=
  .next (h _ _ (by simp)) rfl (.next (h _ _ (by simp)) rfl (.refl _))

/-- The shader is replaced under its id. -/
theorem replace_commits : vmwCmdbufResLookup (vmwCmdbufResCommit (fun _ => false) (callAll .next
    [.remove 0 .shader 5, .add 0 .shader 5 200 true] sampleManagers).2).2 0 .shader 5 =
      .ok 200 := by
  have h := (batch_commits (sample_runs anyLabel fun _ _ _ => trivial)
    [.remove 0 .shader 5, .add 0 .shader 5 200 true]).2.1 0 .shader 5
  exact h.trans (by decide +kernel)

end Vmwgfx.ResManager
