import Vmwgfx.ResourceLru
import Vmwgfx.Shares

set_option autoImplicit false

/-!
# Pins of backup buffers

A resource that is pinned pins its backup buffer once. A validation keeps the buffer of a
resource that needs one unless it makes a table larger, so what a pin has pinned is still the
buffer of the resource when the pin is counted.
-/
namespace Vmwgfx.Resources
open ExecbufState (Errno)
open LabelledRuns Shares

/-- Every pin of a buffer has an owner, but for one of `owed`; a resource that is pinned has a
    buffer if it needs one. -/
structure Balanced (owed : Option ℕ) (s : ResDev) : Prop where
  lru : LruOk s
  live : ∀ r R, s.res r = some R → r ∈ s.live
  pins : s.pinCount = s.otherPins + share s.live (held s) + mark owed
  backed : ∀ r R, s.res r = some R → R.pinCount ≠ 0 →
    (R.func.needsBackup = true ↔ R.backup ≠ none)

variable {r q b : ℕ} {R S W : Res} {s t : ResDev} {f : Focus} {owed : Option ℕ}

theorem held_of_pinned (hR : s.res r = some R) (hpinned : R.pinCount ≠ 0) :
    held s r = R.backup := by
  rw [held, hR, Option.bind_some, Res.held, if_neg hpinned]

theorem held_setRes (r : ℕ) (W : Res) (s : ResDev) : held (setRes r W s) r = W.held := by
  rw [held, setRes_self, Option.bind_some]

theorem held_setRes_of_ne (h : q ≠ r) (W : Res) (s : ResDev) :
    held (setRes r W s) q = held s q := by
  rw [held, held, setRes_of_ne h]

theorem Balanced.congr (h : Balanced owed s) (hlru : LruOk t) (hres : t.res = s.res)
    (hlive : t.live = s.live) (hpins : t.pinCount = s.pinCount)
    (hother : t.otherPins = s.otherPins) : Balanced owed t := by
  have hheld : held t = held s := by
    funext q
    rw [held, held, hres]
  refine ⟨hlru, ?_, ?_, ?_⟩
  · rw [hres, hlive]
    exact h.live
  · rw [hpins, hother, hlive, hheld]
    exact h.pins
  · rw [hres]
    exact h.backed

theorem Balanced.settle (h : Balanced owed s) {p : ℕ} (hset : Settles p s t)
    (hheld : held t = held s) : Balanced owed t := by
  have hback : ∀ q S, t.res q = some S → ∃ R, s.res q = some R ∧ (R.func, R.pinCount) =
      (S.func, S.pinCount) := fun q S hS => res_of_map (congrFun hset.kinds q).symm hS
  refine ⟨hset.ok, ?_, ?_, ?_⟩
  · intro q S hS
    obtain ⟨R, hR, -⟩ := hback q S hS
    rw [hset.live]
    exact h.live q R hR
  · rw [hset.pins, hset.otherPins, hset.live, hheld]
    exact h.pins
  · intro q S hS hpinned
    obtain ⟨R, hR, hkind⟩ := hback q S hS
    obtain ⟨hfunc, hcount⟩ := Prod.mk.inj hkind
    have hbackup := congrFun hheld q
    rw [held_of_pinned hS hpinned, held_of_pinned hR (hcount.trans_ne hpinned)] at hbackup
    rw [hbackup, ← hfunc]
    exact h.backed q R hR (hcount.trans_ne hpinned)

theorem Balanced.setOff {owed' : Option ℕ} (h : Balanced owed s) (hR : s.res r = some R)
    (hoff : ¬ OnLru s r)
    (hbacked : W.pinCount ≠ 0 → (W.func.needsBackup = true ↔ W.backup ≠ none))
    (hpins : mark R.held + mark owed = mark W.held + mark owed') :
    Balanced owed' (setRes r W s) := by
  have hmem := h.live r R hR
  refine ⟨h.lru.setOff hoff W, ?_, ?_, ?_⟩
  · intro q Q hQ
    by_cases hqr : q = r
    · subst hqr
      exact hmem
    · rw [setRes_of_ne hqr] at hQ
      exact h.live q Q hQ
  · have hshare : share s.live (held (setRes r W s)) =
        share s.live (held s) + mark W.held - mark R.held := by
      rw [share_change (held s) _ hmem fun j _ hj => held_setRes_of_ne hj W s, held_setRes]
      rw [held, hR, Option.bind_some]
    change s.pinCount = s.otherPins + share s.live (held (setRes r W s)) + mark owed'
    rw [hshare, h.pins]
    linear_combination hpins
  · intro q Q hQ
    by_cases hqr : q = r
    · subst hqr
      rw [setRes_self] at hQ
      obtain rfl := Option.some.inj hQ
      exact hbacked
    · rw [setRes_of_ne hqr] at hQ
      exact h.backed q Q hQ

theorem Balanced.boPin (h : Balanced none s) (b : ℕ) :
    Balanced (some b) (vmwBoPinReserved b true s) := by
  refine ⟨h.lru.congr rfl rfl, h.live, ?_, h.backed⟩
  have hpins := update_add_mark s.pinCount b 1
  change Function.update s.pinCount b (s.pinCount b + 1) =
    s.otherPins + share s.live (held s) + mark (some b)
  rw [hpins, h.pins, mark_none, one_smul, add_zero]

theorem Balanced.boUnpin (h : Balanced (some b) s) :
    Balanced none (vmwBoPinReserved b false s) := by
  refine ⟨h.lru.congr rfl rfl, h.live, ?_, h.backed⟩
  have hpins := update_add_mark s.pinCount b (-1)
  change Function.update s.pinCount b (s.pinCount b + -1) =
    s.otherPins + share s.live (held s) + mark none
  rw [hpins, h.pins, mark_none, neg_one_smul]
  abel

theorem Balanced.otherPin (h : Balanced none s) (b : ℕ) (n : ℤ) :
    Balanced none { s with
      pinCount := Function.update s.pinCount b (s.pinCount b + n)
      otherPins := Function.update s.otherPins b (s.otherPins b + n) } := by
  refine ⟨h.lru.congr rfl rfl, h.live, ?_, h.backed⟩
  change Function.update s.pinCount b (s.pinCount b + n) =
    Function.update s.otherPins b (s.otherPins b + n) + share s.live (held s) + mark none
  rw [update_add_mark, update_add_mark, h.pins, mark_none]
  abel

def tagAt (s : ResDev) (r : ℕ) : Option (ResFunc × ℕ × Option ℕ) := (s.res r).map Res.tag

/-- `vmw_cotable_resize` gives the table another buffer. -/
def Resizes (o : CreateOut) (R : Res) : Prop :=
  R.func = .cotable ∧ R.id = -1 ∧ ∃ b id, o = .resized b id

def RoundsKeepTable (hasBo : Bool) (r : ℕ) : List Round → ℕ → ResDev → Prop
  | [], _, _ => True
  | o :: os, n, s => (∀ R, s.res r = some R → ¬ Resizes o.validate.create R) ∧
    ∀ m t, validateRound hasBo r o n s = some (.goesOn m t) → RoundsKeepTable hasBo r os m t

/-- The resource is not a table that becomes larger in the validation. -/
def TableKept (os : List Round) (r : ℕ) (s : ResDev) : Prop :=
  ∀ R, s.res r = some R → RoundsKeepTable R.backup.isSome r os 0 s

theorem create_backup {o : CreateOut} (hid : R.id = -1) (h : ¬ Resizes o R) (r : ℕ) (s : ResDev) :
    (create o r (R, s)).2.1.backup = R.backup := by
  cases o with
  | failed e id =>
    simp only [create]
    split_ifs <;> rfl
  | done id => rfl
  | resized b id =>
    simp only [create]
    split_ifs with hfunc
    · exact absurd ⟨hfunc, hid, b, id, rfl⟩ h
    · rfl

theorem destroy_backup (o : Option Errno) (f : Focus) : (destroy o f).2.1.backup = f.1.backup := by
  unfold destroy
  split <;> rfl

theorem bindBackup_backup (o : ValidateOut) (hasBo : Bool) (r : ℕ) (f : Focus) :
    (bindBackup o hasBo r f).2.1.backup = f.1.backup := by
  unfold bindBackup
  split_ifs
  · cases hret : (if f.1.func = .dxShader then none else o.bind) with
    | some e =>
      simp only [bind, hret]
      exact destroy_backup o.destroy f
    | none =>
      simp only [bind, hret]
      split <;> rfl
  · rfl

theorem doValidate_backup {o : ValidateOut} (h : ¬ Resizes o.create R) (hasBo : Bool) (r : ℕ)
    (s : ResDev) : (vmwResourceDoValidate o hasBo r (R, s)).2.1.backup = R.backup := by
  have hcreate : (if R.id = -1 then create o.create r (R, s) else (none, (R, s))).2.1.backup =
      R.backup := by
    split_ifs with hid
    · exact create_backup hid h r s
    · rfl
  unfold vmwResourceDoValidate
  split
  · next hg =>
    rw [hg] at hcreate
    exact hcreate
  · next hg =>
    rw [hg] at hcreate
    have hbind := (bindBackup_backup o hasBo r _).trans hcreate
    split
    · next hh =>
      rw [hh] at hbind
      exact hbind
    · next hh =>
      rw [hh] at hbind
      exact hbind

theorem tagAt_setRes (hR : s.res r = some R) (hq : Quiet (R, s) f)
    (hbackup : f.1.backup = R.backup) : tagAt (setRes r f.1 f.2) = tagAt s := by
  funext q
  unfold tagAt
  by_cases hqr : q = r
  · subst hqr
    rw [setRes_self, hR, Option.map_some, Option.map_some, Res.tag, Res.tag, hq.func, hq.pinCount,
      hbackup]
  · rw [setRes_of_ne hqr]
    exact hq.tags q

theorem evictFirst_tag {o : EvictOut} {ty : ResType} {ret : Option Errno} (hoff : ¬ OnLru s r)
    (hs : evictFirst o ty s = some (ret, t)) : tagAt t r = tagAt s r := by
  obtain ⟨q, l, Q, f, hlru, hQ, hf, rfl⟩ := evictFirst_cases hs
  have hrq : r ≠ q := by
    rintro rfl
    exact hoff ⟨ty, hlru ▸ List.mem_cons_self⟩
  have hquiet := quiet_doEvict o q (Q, { s with lru := Function.update s.lru ty l })
  rw [hf] at hquiet
  have hset : tagAt (setRes q f.1 f.2) r = tagAt s r := by
    rw [tagAt, setRes_of_ne hrq]
    exact hquiet.tags r
  split_ifs
  · exact hset
  · exact hset

theorem validateRound_tag {hasBo : Bool} {o : Round} {n : ℕ} {g : RoundEnd} (hoff : ¬ OnLru s r)
    (hkeeps : ∀ R, s.res r = some R → ¬ Resizes o.validate.create R)
    (hg : validateRound hasBo r o n s = some g) : tagAt g.state r = tagAt s r := by
  obtain ⟨R, ret, f, hR, hf, hend⟩ := validateRound_cases hg
  have hquiet := quiet_doValidate o.validate hasBo r (R, s)
  have hbackup := doValidate_backup (hkeeps R hR) hasBo r s
  rw [hf] at hquiet hbackup
  have hset := congrFun (tagAt_setRes hR hquiet hbackup) r
  rcases hend with ⟨-, rfl⟩ | rfl | ⟨-, -, evicted, hu, -⟩
  · exact hset
  · exact hset
  · have hoff' : ¬ OnLru (setRes r f.1 f.2) r := by
      have hlru : (setRes r f.1 f.2).lru = s.lru := hquiet.lru
      rwa [OnLru, hlru]
    exact (evictFirst_tag hoff' hu).trans hset

theorem validateLoop_tag {hasBo : Bool} {os : List Round} {n : ℕ} {ret : Option Errno}
    (h : LruOk s) (hoff : ¬ OnLru s r) (hkeeps : RoundsKeepTable hasBo r os n s)
    (hs : validateLoop hasBo r os n s = some (ret, t)) : tagAt t r = tagAt s r := by
  induction os generalizing n s with
  | nil => cases hs
  | cons o os ih =>
    unfold validateLoop at hs
    split at hs
    · cases hs
    · next ret' u hu =>
      obtain ⟨-, rfl⟩ := Prod.mk.inj (Option.some.inj hs)
      exact validateRound_tag hoff hkeeps.1 hu
    · next m u hu =>
      have hround : Settles r s u := validateRound_settles h hu
      have htag : tagAt u r = tagAt s r := validateRound_tag hoff hkeeps.1 hu
      exact (ih hround.ok (hround.off hoff) (hkeeps.2 m u hu) hs).trans htag

theorem validate_tag {os : List Round} {ret : Option Errno} (h : LruOk s) (hoff : ¬ OnLru s r)
    (hkeeps : TableKept os r s)
    (hneeds : ∀ R, s.res r = some R → R.backup ≠ none → R.func.needsBackup = true)
    (hs : vmwResourceValidate os r s = some (ret, t)) : tagAt t r = tagAt s r := by
  obtain ⟨R, hR, ⟨-, -, rfl⟩ | ⟨u, hu, rfl⟩⟩ := validate_cases hs
  · rfl
  · have hloop := validateLoop_tag h hoff (hkeeps R hR) hu
    split_ifs
    · exact hloop
    · obtain ⟨S, hS, htag⟩ := res_of_map hloop hR
      simp only [Res.tag, Prod.mk.injEq] at htag
      rw [← hloop]
      unfold releaseBackup
      rw [hS]
      dsimp only
      split_ifs with hif
      · rw [Bool.and_eq_true, Bool.not_eq_true', htag.1, htag.2.2] at hif
        rw [hneeds R hR (Option.isSome_iff_ne_none.1 hif.2)] at hif
        cases hif.1
      · rfl

theorem held_of_tag (h : tagAt t r = tagAt s r) : held t r = held s r := held_of_tags h

theorem held_of_settles (h : Settles r s t) (hheld : held t r = held s r) : held t = held s := by
  funext q
  by_cases hqr : q = r
  · subst hqr
    exact hheld
  · exact h.held q hqr

theorem held_of_all (h : ∀ p, Settles p s t) : held t = held s := by
  funext q
  exact (h (q + 1)).held q (Nat.succ_ne_self q).symm

theorem held_of_free (h : Settles r s t) (hR : s.res r = some R) (hpins : R.pinCount = 0) :
    held t = held s := held_of_all (h.unpinned hR hpins)

theorem Balanced.reserve (h : Balanced owed s) (hR : s.res r = some R) {v : Option ℕ}
    (hv : v = R.backup ∨ R.backup = none ∧ R.func.needsBackup = true) :
    Balanced owed (setRes r { R with backup := v } (lruDel R.func.resType r s)) ∧
      held (setRes r { R with backup := v } (lruDel R.func.resType r s)) = held s := by
  have hdel : Balanced owed (lruDel R.func.resType r s) :=
    h.congr (h.lru.lruDel _ r) rfl rfl rfl rfl
  have hsame : R.pinCount ≠ 0 → v = R.backup := by
    intro hpinned
    rcases hv with hv | ⟨hnone, hneeds⟩
    · exact hv
    · exact absurd hnone ((h.backed r R hR hpinned).1 hneeds)
  have hheld : Res.held { R with backup := v } = R.held := by
    unfold Res.held
    dsimp only
    split_ifs with hpins
    · rfl
    · exact hsame hpins
  constructor
  · apply hdel.setOff hR (h.lru.off_lruDel hR)
    · intro hpinned
      dsimp only
      rw [hsame hpinned]
      exact h.backed r R hR hpinned
    · rw [hheld]
  · funext q
    by_cases hqr : q = r
    · subst hqr
      rw [held_setRes, hheld, held, hR, Option.bind_some]
    · rw [held_setRes_of_ne hqr]
      rfl

theorem kinds_reserve (hR : s.res r = some R) (v : Option ℕ) :
    kinds (setRes r { R with backup := v } (lruDel R.func.resType r s)) = kinds s := by
  funext q
  unfold kinds
  by_cases hqr : q = r
  · subst hqr
    rw [setRes_self, hR]
    rfl
  · rw [setRes_of_ne hqr]
    rfl

theorem switchBackup_same (r : ℕ) (f : Focus) : switchBackup f.1.backup r f = f := by
  obtain ⟨R, s⟩ := f
  exact if_pos rfl

theorem Balanced.unreserve (h : Balanced owed s) (r : ℕ) {switch : Option (Option ℕ)}
    (hswitch : ∀ R, s.res r = some R → R.pinCount ≠ 0 → switch = none ∨ switch = some R.backup) :
    Balanced owed (unreserveAt switch r s) ∧ held (unreserveAt switch r s) = held s := by
  have hlru := h.lru.unreserveAt switch r
  cases hR : s.res r with
  | none =>
    have hsame : unreserveAt switch r s = s := by simp only [unreserveAt, hR]
    rw [hsame]
    exact ⟨h, rfl⟩
  | some R =>
    by_cases hmem : r ∈ s.lru R.func.resType
    · rw [unreserveAt_listed switch hR hmem]
      exact ⟨h, rfl⟩
    · obtain ⟨f, hf, hquiet, hend⟩ := unreserveAt_cases switch hR hmem
      have hset := Settles.setRes h.lru hR hquiet
      have hheld : held (setRes r f.1 f.2) = held s := by
        by_cases hpins : R.pinCount = 0
        · exact held_of_free hset hR hpins
        · have hsame : f = (R, s) := by
            rcases hswitch R hR hpins with rfl | rfl
            · exact hf
            · exact hf.trans (switchBackup_same r (R, s))
          rw [hsame, setRes_same hR]
      have hbalanced := h.settle hset hheld
      rcases hend with ⟨-, heq⟩ | ⟨-, heq⟩
      · rw [heq] at hlru ⊢
        exact ⟨hbalanced.congr hlru rfl rfl rfl rfl, hheld⟩
      · rw [heq]
        exact ⟨hbalanced, hheld⟩

theorem Balanced.unreserveNone (h : Balanced owed s) (r : ℕ) :
    Balanced owed (unreserveAt none r s) ∧ held (unreserveAt none r s) = held s :=
  h.unreserve r fun _ _ _ => .inl rfl

theorem unreserveAt_none_eq (r : ℕ) (s : ResDev) : (unreserveAt none r s).pinCount = s.pinCount ∧
    kinds (unreserveAt none r s) = kinds s := by
  have hres := (unreserveAt_spec r s).1
  refine ⟨?_, ?_⟩
  · cases hR : s.res r with
    | none => simp only [unreserveAt, hR]
    | some R =>
      by_cases hmem : r ∈ s.lru R.func.resType
      · rw [unreserveAt_listed none hR hmem]
      · obtain ⟨f, rfl, -, ⟨-, heq⟩ | ⟨-, heq⟩⟩ := unreserveAt_cases none hR hmem
        · rw [heq]
          rfl
        · rw [heq]
          rfl
  · funext q
    rw [kinds, kinds, hres]

theorem Balanced.addPinAt (h : Balanced owed s) (hR : s.res r = some R) (hoff : ¬ OnLru s r)
    (hroom : R.pinCount + 1 < 2 ^ 64)
    (howed : if R.pinCount = 0 then owed = R.backup else owed = none)
    (hneeds : R.func.needsBackup = true ↔ R.backup ≠ none) :
    Balanced none (addPinAt r s) ∧ held (addPinAt r s) r = R.backup ∧
      ∀ q, q ≠ r → held (addPinAt r s) q = held s q := by
  have hcount : R.addPin.pinCount = R.pinCount + 1 := Nat.mod_eq_of_lt hroom
  have hheld : R.addPin.held = R.backup := by
    rw [Res.held, if_neg (by omega)]
    rfl
  have hadd : Resources.addPinAt r s = setRes r R.addPin s := by
    simp only [Resources.addPinAt, hR]
  rw [hadd]
  refine ⟨h.setOff hR hoff (fun _ => hneeds) ?_, ?_, fun q hq => held_setRes_of_ne hq _ s⟩
  · rw [hheld, Res.held]
    split_ifs at howed ⊢ with hpins
    · rw [howed, mark_none]
      abel
    · rw [howed]
  · rw [held_setRes, hheld]

/-- A pin that validates a resource with a buffer: the buffer is one that it needs and keeps, and
    the validation does not fail. The count of the pins does not wrap around. -/
def PinOk (o : PinOut) (r : ℕ) (s : ResDev) : Prop :=
  (∀ R, s.res r = some R → R.pinCount + 1 < 2 ^ 64) ∧
  ∀ t, pinStart o r s = some (.validates t) → TableKept o.rounds r t ∧
    ∀ R, t.res r = some R → R.backup ≠ none → R.func.needsBackup = true ∧
      ∀ e u, vmwResourceValidate o.rounds r t ≠ some (some e, u)

structure Pinned (ret : Option Errno) (s t : ResDev) : Prop where
  balanced : Balanced none t
  held : ∀ q b, held s q = some b → held t q = some b
  failed : ret ≠ none → t.pinCount = s.pinCount ∧ kinds t = kinds s

theorem Pinned.unreserve {ret : Option Errno} (h : Pinned ret s t) (r : ℕ) :
    Pinned ret s (unreserveAt none r t) := by
  obtain ⟨hbalanced, hheld⟩ := h.balanced.unreserveNone r
  obtain ⟨hpins, hkinds⟩ := unreserveAt_none_eq r t
  refine ⟨hbalanced, fun q b hq => ?_, fun hret => ?_⟩
  · rw [hheld]
    exact h.held q b hq
  · obtain ⟨hpins', hkinds'⟩ := h.failed hret
    exact ⟨hpins.trans hpins', hkinds.trans hkinds'⟩

theorem pinned_of_validated {u w : ResDev} {v : Option ℕ} (hu : Balanced v u)
    (hR : u.res r = some R) (hbackup : R.backup = v) (hfree : R.pinCount = 0)
    (hneeds : R.func.needsBackup = true ↔ v ≠ none) (hoff : ¬ OnLru u r) (hset : Settles r u w)
    (htag : tagAt w r = tagAt u r) (hheld : held u = held s) : Pinned none s (addPinAt r w) := by
  have hw : Balanced v w := hu.settle hset (held_of_settles hset (held_of_tag htag))
  obtain ⟨W, hW, htagW⟩ := res_of_map htag hR
  simp only [Res.tag, Prod.mk.injEq] at htagW
  obtain ⟨hfunc, hcount, hback⟩ := htagW
  rw [hfree] at hcount
  rw [hbackup] at hback
  have hroom : W.pinCount + 1 < 2 ^ 64 := by omega
  obtain ⟨hbalanced, -, hothers⟩ := hw.addPinAt hW (hset.off hoff) hroom
    (by rw [if_pos hcount, hback]) (by rw [hfunc, hback]; exact hneeds)
  refine ⟨hbalanced, ?_, fun h => absurd rfl h⟩
  intro q b hq
  have hqr : q ≠ r := by
    rintro rfl
    rw [← hheld, held_of_unpinned hR hfree] at hq
    cases hq
  rw [hothers q hqr, hset.held q hqr, hheld]
  exact hq

theorem pinReserved_again (h : Balanced none s) (hR : s.res r = some R) {v : Option ℕ}
    (hv : v = R.backup ∨ R.backup = none ∧ R.func.needsBackup = true)
    (hpinned : R.pinCount ≠ 0) (hroom : R.pinCount + 1 < 2 ^ 64) :
    Pinned none s (addPinAt r (pinReserved r R v s)) := by
  obtain ⟨hu, hheld⟩ := h.reserve hR hv
  have hS : (pinReserved r R v s).res r = some { R with backup := v } := setRes_self ..
  obtain ⟨hbalanced, hown, hothers⟩ := hu.addPinAt hS (h.lru.off_lruDel hR) hroom
    (by rw [if_neg hpinned]) (hu.backed r _ hS hpinned)
  refine ⟨hbalanced, ?_, fun hret => absurd rfl hret⟩
  intro q b hq
  rw [← hheld] at hq
  by_cases hqr : q = r
  · subst hqr
    exact hown.trans ((held_of_pinned hS hpinned).symm.trans hq)
  · exact (hothers q hqr).trans hq

theorem Balanced.pin (h : Balanced none s) {o : PinOut} {ret : Option Errno} (hok : PinOk o r s)
    (hs : vmwResourcePin o r s = some (ret, t)) : Pinned ret s t := by
  have hreserved : ∀ R v, s.res r = some R →
      (v = R.backup ∨ R.backup = none ∧ R.func.needsBackup = true) →
      ∀ ret, Pinned ret s (pinReserved r R v s) := by
    intro R v hR hv ret
    obtain ⟨hu, hheld⟩ := h.reserve hR hv
    exact ⟨hu, fun q b hq => (congrFun hheld q).trans hq, fun _ => ⟨rfl, kinds_reserve hR v⟩⟩
  rcases pin_cases hs with hg | ⟨u, w, hg, hw, rfl⟩
  · obtain ⟨R, v, hR, hv, hend⟩ := pinStart_cases hg
    rcases hend with ⟨e, -, heq⟩ | ⟨-, ⟨hpinned, heq⟩ | ⟨-, ⟨e, heq⟩ | ⟨b, -, heq⟩ | ⟨-, heq⟩⟩⟩
    · cases heq
      exact hreserved R v hR hv _
    · cases heq
      exact (pinReserved_again h hR hv hpinned (hok.1 R hR)).unreserve r
    · cases heq
      exact (hreserved R v hR hv _).unreserve r
    · cases heq
    · cases heq
  · obtain ⟨hkept, hneeds⟩ := hok.2 u hg
    obtain ⟨R, v, hR, hv, hend⟩ := pinStart_cases hg
    obtain ⟨hu, hheld⟩ := h.reserve hR hv
    have hS : (pinReserved r R v s).res r = some { R with backup := v } := setRes_self ..
    have hoff : ¬ OnLru (pinReserved r R v s) r := h.lru.off_lruDel hR
    apply Pinned.unreserve
    rcases hend with ⟨e, -, heq⟩ | ⟨hv', ⟨-, heq⟩ | ⟨hfree, ⟨e, heq⟩ | ⟨b, rfl, heq⟩ | ⟨rfl, heq⟩⟩⟩
    · cases heq
    · cases heq
    · cases heq
    · cases heq
      obtain ⟨hfunc, hnofail⟩ := hneeds _ hS (by simp)
      have hpin := hu.boPin b
      have hset := validate_settles hpin.lru hw
      have htag := validate_tag hpin.lru hoff hkept
        (fun Q hQ hsome => (hneeds Q hQ hsome).1) hw
      cases ret with
      | some e => exact absurd hw (hnofail e w)
      | none =>
        exact pinned_of_validated hpin hS rfl hfree (by simp [hfunc]) hoff hset htag hheld
    · cases heq
      have hset := validate_settles hu.lru hw
      cases ret with
      | some e =>
        have hw' := held_of_free hset hS hfree
        refine ⟨hu.settle hset hw', fun q b hq => ?_, fun _ => ?_⟩
        · exact (congrFun (hw'.trans hheld) q).trans hq
        · exact ⟨hset.pins, hset.kinds.trans (kinds_reserve hR none)⟩
      | none =>
        have htag := validate_tag hu.lru hoff hkept (fun Q hQ hsome => (hneeds Q hQ hsome).1) hw
        have hfunc : ¬ R.func.needsBackup = true := fun hyes => hv' hyes rfl
        exact pinned_of_validated (v := none) hu hS rfl hfree (by simp [hfunc]) hoff hset htag hheld

theorem Balanced.unpin (h : Balanced none s) (hok : ∀ R, s.res r = some R → R.pinCount ≠ 0)
    (hs : vmwResourceUnpin r s = some t) : Balanced none t ∧
      (∀ q, q ≠ r → held t q = held s q) ∧
      ∀ R, s.res r = some R → ∃ S, t.res r = some S ∧ S.backup = R.backup := by
  obtain ⟨R, u, hR, rfl, rfl⟩ := unpin_cases hs
  have hpinned := hok R hR
  have hdel : Balanced none (lruDel R.func.resType r s) :=
    h.congr (h.lru.lruDel _ r) rfl rfl rfl rfl
  have hdrop : Balanced (if R.dropPin.pinCount = 0 then R.backup else none)
      (setRes r R.dropPin (lruDel R.func.resType r s)) := by
    apply hdel.setOff (W := R.dropPin) hR (h.lru.off_lruDel hR) fun _ => h.backed r R hR hpinned
    have hheld : R.held = R.backup := if_neg hpinned
    rw [hheld, Res.held]
    split_ifs
    · rw [mark_none, add_comm]
    · rfl
  have hothers : ∀ q, q ≠ r → held (setRes r R.dropPin (lruDel R.func.resType r s)) q = held s q :=
    fun q hq => held_setRes_of_ne hq _ _
  -- what the pin of the buffer does not touch
  have hend : ∀ u, Balanced none u → u.res = (setRes r R.dropPin (lruDel R.func.resType r s)).res →
      Balanced none (unreserveAt none r u) ∧
      (∀ q, q ≠ r → held (unreserveAt none r u) q = held s q) ∧
      ∀ R', s.res r = some R' → ∃ S, (unreserveAt none r u).res r = some S ∧
        S.backup = R'.backup := by
    intro u hu hres
    obtain ⟨hbalanced, hheld⟩ := hu.unreserveNone r
    refine ⟨hbalanced, fun q hq => ?_, fun R' hR' => ?_⟩
    · rw [hheld, ← hothers q hq, held, held, hres]
    · obtain rfl := Option.some.inj (hR.symm.trans hR')
      rw [(unreserveAt_spec r u).1, hres, setRes_self]
      exact ⟨_, rfl, rfl⟩
  split_ifs at hdrop ⊢
  · cases hbackup : R.backup with
    | none =>
      rw [hbackup] at hdrop
      exact hend _ hdrop rfl
    | some b =>
      rw [hbackup] at hdrop
      exact hend _ hdrop.boUnpin rfl
  · exact hend _ hdrop rfl

/-- What is asked of a step: a pin with a buffer does not fail in its validation, and no step
    takes away the buffer of a resource that is pinned. -/
def pinAdmits (s : ResDev) : Op → Prop
  | .unreserve switch r =>
    ∀ R, s.res r = some R → R.pinCount ≠ 0 → switch = none ∨ switch = some R.backup
  | .validate os r => ∀ R, s.res r = some R → R.pinCount ≠ 0 → TableKept os r s
  | .pin o r => PinOk o r s
  | .unpin r => ∀ R, s.res r = some R → R.pinCount ≠ 0
  | _ => True

def KeepsBuffers (s t : ResDev) : Prop :=
  ∀ r R b, s.res r = some R → R.pinCount ≠ 0 → R.backup = some b →
    ∃ S, t.res r = some S ∧ S.backup = some b

theorem backup_of_held (h : held t r = some b) : ∃ S, t.res r = some S ∧ S.backup = some b := by
  obtain ⟨S, hS, hheld⟩ := Option.bind_eq_some_iff.1 h
  refine ⟨S, hS, ?_⟩
  unfold Res.held at hheld
  split_ifs at hheld
  exact hheld

theorem keepsBuffers_of_held (h : ∀ q b, held s q = some b → held t q = some b) :
    KeepsBuffers s t := by
  intro r R b hR hpinned hbackup
  exact backup_of_held (h r b ((held_of_pinned hR hpinned).trans hbackup))

theorem Balanced.init (h : Balanced none s) (hfree : s.res r = none) (hpins : W.pinCount = 0)
    (hlru : LruOk { setRes r W s with live := insert r s.live }) :
    Balanced none { setRes r W s with live := insert r s.live } ∧
      held { setRes r W s with live := insert r s.live } = held s := by
  have hnone : held s r = none := by rw [held, hfree, Option.bind_none]
  have hheld : held { setRes r W s with live := insert r s.live } = held s := by
    funext q
    by_cases hqr : q = r
    · subst hqr
      rw [hnone]
      exact held_of_unpinned (setRes_self ..) hpins
    · exact held_setRes_of_ne hqr W s
  refine ⟨⟨hlru, ?_, ?_, ?_⟩, hheld⟩
  · intro q Q hQ
    by_cases hqr : q = r
    · exact hqr ▸ Finset.mem_insert_self ..
    · exact Finset.mem_insert_of_mem (h.live q Q ((setRes_of_ne hqr W s).symm.trans hQ))
  · rw [hheld]
    have hshare : share (insert r s.live) (held s) = share s.live (held s) := by
      by_cases hmem : r ∈ s.live
      · rw [Finset.insert_eq_of_mem hmem]
      · rw [share_insert hmem, hnone, mark_none, add_zero]
    change s.pinCount = s.otherPins + share (insert r s.live) (held s) + mark none
    rw [hshare]
    exact h.pins
  · intro q Q hQ hpinned
    by_cases hqr : q = r
    · subst hqr
      obtain rfl := Option.some.inj ((setRes_self q W s).symm.trans hQ)
      exact absurd hpins hpinned
    · exact h.backed q Q ((setRes_of_ne hqr W s).symm.trans hQ) hpinned

theorem step_balanced (s : ResDev) (op : Op) (t : ResDev) (h : Balanced none s)
    (hok : pinAdmits s op) (hs : step s op = some t) : Balanced none t ∧ KeepsBuffers s t := by
  have hsame : held t = held s → KeepsBuffers s t :=
    fun hheld => keepsBuffers_of_held fun q b hq => (congrFun hheld q).trans hq
  cases op with
  | init r func id backup =>
    have hlru := step_lruOk s _ t h.lru trivial hs
    simp only [step] at hs
    split_ifs at hs with hfree
    rw [← Option.some.inj hs] at hlru hsame ⊢
    obtain ⟨hbalanced, hheld⟩ := h.init hfree rfl hlru
    exact ⟨hbalanced, hsame hheld⟩
  | reserve o noBackup r =>
    simp only [step] at hs
    split at hs
    · cases hs
    · next R hR =>
      obtain ⟨ret, v, hreserve, hv, -⟩ := reserve_cases o noBackup r R s
      rw [← Option.some.inj hs, hreserve] at hsame ⊢
      obtain ⟨hbalanced, hheld⟩ := h.reserve hR hv
      exact ⟨hbalanced, hsame hheld⟩
  | unreserve switch r =>
    rw [← Option.some.inj hs] at hsame ⊢
    obtain ⟨hbalanced, hheld⟩ := h.unreserve r hok
    exact ⟨hbalanced, hsame hheld⟩
  | validate os r =>
    simp only [step] at hs
    split at hs
    · cases hs
    · next R hR =>
      split_ifs at hs with hmem
      obtain ⟨⟨ret, u⟩, hu, rfl⟩ := Option.map_eq_some_iff.1 hs
      have hset := validate_settles h.lru hu
      have hheld : held u = held s := by
        by_cases hpins : R.pinCount = 0
        · exact held_of_free hset hR hpins
        · apply held_of_settles hset
          apply held_of_tag
          have hoff : ¬ OnLru s r := fun hon => hmem ((h.lru.onLru_iff hR).1 hon)
          apply validate_tag h.lru hoff (hok R hR hpins) _ hu
          intro Q hQ hbackup
          obtain rfl := Option.some.inj (hR.symm.trans hQ)
          exact (h.backed r R hR hpins).2 hbackup
      exact ⟨h.settle hset hheld, hsame hheld⟩
  | evict o ty =>
    obtain ⟨⟨ret, u⟩, hu, rfl⟩ := Option.map_eq_some_iff.1 hs
    have hset := evictFirst_settles h.lru hu
    have hheld := held_of_all hset
    exact ⟨h.settle (hset 0) hheld, hsame hheld⟩
  | moveOut o b =>
    rw [← Option.some.inj hs] at hsame ⊢
    have hset := unbindList_settles h.lru o (s.resList b)
    have hheld := held_of_all hset
    exact ⟨h.settle (hset 0) hheld, hsame hheld⟩
  | pin o r =>
    obtain ⟨⟨ret, u⟩, hu, rfl⟩ := Option.map_eq_some_iff.1 hs
    have hpinned := h.pin hok hu
    exact ⟨hpinned.balanced, keepsBuffers_of_held hpinned.held⟩
  | unpin r =>
    obtain ⟨hbalanced, hothers, hown⟩ := h.unpin hok hs
    refine ⟨hbalanced, ?_⟩
    intro q R b hR hpinned hbackup
    by_cases hqr : q = r
    · subst hqr
      obtain ⟨S, hS, hback⟩ := hown R hR
      exact ⟨S, hS, hback.trans hbackup⟩
    · apply backup_of_held
      rw [hothers q hqr, held_of_pinned hR hpinned, hbackup]
  | otherPin b pin =>
    rw [← Option.some.inj hs] at hsame ⊢
    exact ⟨h.otherPin b _, hsame rfl⟩

theorem start_balanced : Balanced none start := by
  refine ⟨start_lruOk, (fun r R hR => by cases hR), ?_, (fun r R hR => by cases hR)⟩
  have hshare : share start.live (held start) = 0 := share_empty
  rw [hshare, mark_none, add_zero, add_zero]
  rfl

/-- The pins of a buffer that other owners do not hold are one for each resource that is pinned
    and has it as its backup buffer. A pin that fails leaves all pins as they were, and the
    buffer of a resource that is pinned stays whatever is done next. -/
theorem runs_pinned {ops : List Op} (h : Runs step pinAdmits start ops s) :
    (∀ b, s.pinCount b = s.otherPins b + (s.live.filter fun r => held s r = some b).card) ∧
    (∀ r R, s.res r = some R → r ∈ s.live) ∧
    (∀ o r, pinAdmits s (.pin o r) → ∀ e t, vmwResourcePin o r s = some (some e, t) →
      t.pinCount = s.pinCount ∧ kinds t = kinds s) ∧
    ∀ op t, pinAdmits s op → step s op = some t → KeepsBuffers s t := by
  have hbalanced : Balanced none s := Runs.invariant (Balanced none) h start_balanced
    fun s op t hs hok hst => (step_balanced s op t hs hok hst).1
  refine ⟨?_, hbalanced.live, ?_, ?_⟩
  · intro b
    have hpins := congrFun hbalanced.pins b
    rw [mark_none, add_zero] at hpins
    exact hpins
  · intro o r hok e t hs
    exact (hbalanced.pin hok hs).failed (by simp)
  · intro op t hok hst
    exact (step_balanced s op t hbalanced hok hst).2

theorem failedPin_pins {u : ResDev} {o : PinOut} {e : Errno} (h : LruOk s)
    (hg : pinStart o r s = some (.validates u)) (hW : u.res r = some W)
    (hs : vmwResourcePin o r s = some (some e, t)) : t.pinCount = s.pinCount + mark W.backup := by
  have hok := (h.pinStart hg).1
  rcases pin_cases hs with hg' | ⟨u', w, hg', hw, rfl⟩
  · rw [hg] at hg'
    cases hg'
  · obtain rfl := PinStart.validates.inj (Option.some.inj (hg.symm.trans hg'))
    rw [(unreserveAt_none_eq r _).1]
    refine (validate_settles hok hw).pins.trans ?_
    obtain ⟨R, v, hR, -, hend⟩ := pinStart_cases hg
    rcases hend with ⟨_, -, heq⟩ | ⟨-, ⟨-, heq⟩ | ⟨-, ⟨_, heq⟩ | ⟨b, rfl, heq⟩ | ⟨rfl, heq⟩⟩⟩
    · cases heq
    · cases heq
    · cases heq
    · cases heq
      obtain rfl := Option.some.inj ((setRes_self ..).symm.trans hW)
      exact (update_add_mark s.pinCount b 1).trans (by rw [one_smul])
    · cases heq
      obtain rfl := Option.some.inj ((setRes_self ..).symm.trans hW)
      rw [mark_none, add_zero]
      rfl

/-- Two surfaces; the first one is pinned with its buffer 5. -/
def pinnedRun : List Op :=
  [.init 0 .gbSurface (-1) none, .init 1 .gbSurface (-1) none, .pin ⟨.ok 5, none, [okRound]⟩ 0]

theorem pinnedRun_pinned : ∃ s t, Runs step pinAdmits start pinnedRun s ∧
    (s.pinCount 5 = 1 ∧
      s.pinCount 5 = s.otherPins 5 + (s.live.filter fun r => held s r = some 5).card) ∧
    step s (.unpin 0) = some t ∧ t.pinCount 5 = 0 ∧ KeepsBuffers s t := by
  let u := (exec step start (pinnedRun.take 2)).getD start
  let s := (step u (.pin ⟨.ok 5, none, [okRound]⟩ 0)).getD start
  have hinit : Runs step pinAdmits start (pinnedRun.take 2) u := by
    apply Runs.of_exec
    · intro op hop s
      fin_cases hop <;> trivial
    · rfl
  have hpin : pinAdmits u (.pin ⟨.ok 5, none, [okRound]⟩ 0) := by
    refine ⟨?_, ?_⟩
    · intro R hR
      obtain rfl := Option.some.inj hR
      decide
    · intro t ht
      obtain rfl := PinStart.validates.inj (Option.some.inj ht)
      refine ⟨?_, ?_⟩
      · intro R hR
        refine ⟨?_, fun _ _ _ => trivial⟩
        rintro Q hQ ⟨hfunc, -⟩
        obtain rfl := Option.some.inj hQ
        cases hfunc
      · intro R hR _
        obtain rfl := Option.some.inj hR
        refine ⟨rfl, ?_⟩
        intro e w hw
        cases hw
  have hrun : Runs step pinAdmits start pinnedRun s :=
    hinit.trans (.next hpin (by rfl) (.refl _))
  obtain ⟨hbalance, -, -, hkeeps⟩ := runs_pinned hrun
  have hunpin : pinAdmits s (.unpin 0) := by
    intro R hR
    obtain rfl := Option.some.inj hR
    decide
  exact ⟨s, _, hrun, ⟨by rfl, hbalance 5⟩, by rfl, by rfl, hkeeps (.unpin 0) _ hunpin (by rfl)⟩

/-- A validation that fails leaves the buffer pinned. -/
theorem failedPin_unbalanced : ∃ s t, Runs step anyLabel start (pinnedRun.take 2) s ∧
    vmwResourcePin ⟨.ok 5, none, [⟨⟨.failed .enomem 0, none, none⟩, okRound.evict⟩]⟩ 1 s =
      some (some .enomem, t) ∧
    s.pinCount 5 = 0 ∧ t.pinCount 5 = 1 ∧ t.otherPins 5 = 0 ∧
    (t.live.filter fun r => held t r = some 5).card = 0 :=
  ⟨_, _, runs_getD (d := start) (by rfl), by rfl, rfl, rfl, rfl, by decide⟩

end Vmwgfx.Resources
