import Vmwgfx.BindingDirty

set_option autoImplicit false

/-!
# The device and the tracker, up to delayed commands

A condition on what the device has in a slot, given what the tracker has there, is kept by
all operations if it is one that the delayed commands establish. While an operation is
under way it may fail for the slots for which a command is still to come.
-/
namespace Vmwgfx.BindingSync
open BindingSlots BindingMachine BindingLists BindingDirty

section Scans

theorem findNextBit_le {bits : ℕ → Bool} {size offset j : ℕ} (h : offset ≤ j) (hj : j < size)
    (hbit : bits j = true) : findNextBit bits size offset ≤ j := by
  unfold findNextBit
  rcases hfind : (List.range' offset (size - offset)).find? bits with _ | k
  · have := List.find?_eq_none.1 hfind j (by simp; omega)
    exact absurd hbit this
  · by_contra hlt
    obtain ⟨-, a, b, happ, hnone⟩ := List.find?_eq_some_iff_append.1 hfind
    have hmem : j ∈ a := by
      have hjm : j ∈ List.range' offset (size - offset) := by simp; omega
      have hsorted : (List.range' offset (size - offset)).Pairwise (· < ·) := List.pairwise_lt_range'
      rw [happ] at hjm hsorted
      rcases List.mem_append.1 hjm with ha | hb
      · exact ha
      · rw [List.pairwise_append] at hsorted
        rcases List.mem_cons.1 hb with rfl | hb
        · exact absurd (le_refl _) hlt
        · have := (List.pairwise_cons.1 hsorted.2.1).1 j hb
          simp only [Option.getD_some, not_le] at hlt
          omega
    simpa [hbit] using hnone j hmem

theorem lt_dirtyCount {bits : ℕ → Bool} {maxNum j : ℕ} (hj : j < maxNum) (hbit : bits j = true)
    {i left : ℕ} (hleft : i + left = maxNum) (hi : i ≤ j) :
    j < i + dirtyCount bits maxNum i left := by
  induction left generalizing i with
  | zero => omega
  | succ left ih =>
    unfold dirtyCount
    split_ifs with hlast
    · simp only [Bool.and_eq_true, decide_eq_true_eq] at hlast
      by_contra hlt
      have : findNextBit bits maxNum (i + 1) ≤ j := findNextBit_le (by omega) hj hbit
      omega
    · rcases Nat.eq_or_lt_of_le hi with rfl | hlt
      · omega
      · have := ih (i := i + 1) (by omega) hlt
        omega

theorem mem_dirtySpan {bits : ℕ → Bool} {maxNum j : ℕ} (hj : j < maxNum) (hbit : bits j = true) :
    (dirtySpan bits maxNum).1 ≤ j ∧
      j < (dirtySpan bits maxNum).1 + (dirtySpan bits maxNum).2 := by
  have hfirst : findNextBit bits maxNum 0 ≤ j := findNextBit_le (Nat.zero_le j) hj hbit
  refine ⟨hfirst, ?_⟩
  exact lt_dirtyCount (i := findNextBit bits maxNum 0) hj hbit (by omega) hfirst

variable {valid : ℕ → Bool} {slotAt : ℕ → Slot}

theorem setFrom_collectDirty {span : ℕ × ℕ} {i : ℕ} {old : Option Content} :
    setFrom span.1 (collectDirty valid slotAt span) i old =
      if span.1 ≤ i ∧ i < span.1 + span.2 then shown valid (slotAt i) else old := by
  unfold setFrom collectDirty
  rw [List.length_map, List.length_range']
  split_ifs with h
  · have hget : (List.range' span.1 span.2)[i - span.1]? = some i := by
      rw [List.getElem?_range' (by omega)]
      congr 1
      omega
    simp [List.getD_eq_getElem?_getD, hget]
  · rfl

theorem takeWhile_range' {p : ℕ → Bool} {n a i : ℕ} :
    ((List.range' a n).takeWhile p)[i]? =
      if i < n ∧ ∀ j, j ≤ i → p (a + j) = true then some (a + i) else none := by
  induction n generalizing a i with
  | zero => simp
  | succ n ih =>
    rw [List.range'_succ, List.takeWhile_cons]
    by_cases hp : p a = true
    · rw [if_pos hp]
      cases i with
      | zero => simp [hp]
      | succ i =>
        rw [List.getElem?_cons_succ, ih]
        have hiff : (i < n ∧ ∀ j, j ≤ i → p (a + 1 + j) = true) ↔
            (i + 1 < n + 1 ∧ ∀ j, j ≤ i + 1 → p (a + j) = true) := by
          constructor
          · rintro ⟨hi, h⟩
            refine ⟨by omega, fun j hj => ?_⟩
            cases j with
            | zero => exact hp
            | succ j =>
              have := h j (by omega)
              rwa [show a + 1 + j = a + (j + 1) by omega] at this
          · rintro ⟨hi, h⟩
            refine ⟨by omega, fun j hj => ?_⟩
            rw [show a + 1 + j = a + (j + 1) by omega]
            exact h (j + 1) (by omega)
        simp only [hiff]
        rw [show a + 1 + i = a + (i + 1) by omega]
    · rw [if_neg hp, if_neg]
      · simp
      · rintro ⟨-, h⟩
        exact hp (h 0 (Nat.zero_le i))

theorem collectLeading_getD {maxNum i : ℕ} :
    (collectLeading valid slotAt maxNum).getD i none =
      if i < maxNum ∧ ∀ j, j ≤ i → (slotAt j).ctx.isSome then shown valid (slotAt i) else none := by
  unfold collectLeading
  rw [List.getD_eq_getElem?_getD, List.getElem?_map, List.range_eq_range', takeWhile_range']
  simp only [zero_add]
  split_ifs <;> rfl

theorem collectLeading_length_pos (valid : ℕ → Bool) (slotAt : ℕ → Slot) {maxNum : ℕ}
    (hmax : 0 < maxNum) :
    (collectLeading valid slotAt maxNum).length ≠ 0 ↔ (slotAt 0).ctx.isSome := by
  have hget : ((List.range' 0 maxNum).takeWhile fun i => (slotAt i).ctx.isSome)[0]? =
      if (slotAt 0).ctx.isSome then some 0 else none := by
    rw [takeWhile_range']
    refine if_congr ⟨fun h => h.2 0 le_rfl, fun h => ⟨hmax, fun j hj => ?_⟩⟩ rfl rfl
    obtain rfl : j = 0 := by omega
    exact h
  unfold collectLeading
  rw [List.length_map, List.range_eq_range']
  generalize (List.range' 0 maxNum).takeWhile (fun i => (slotAt i).ctx.isSome) = xs at hget
  cases xs with
  | nil =>
    cases h : (slotAt 0).ctx.isSome
    · simp
    · simp [h] at hget
  | cons x xs =>
    cases h : (slotAt 0).ctx.isSome
    · simp [h] at hget
    · simp

end Scans

/-- The slots of the arrays that one command sets as a whole. -/
def isArray : Loc → Bool
  | .rt _ | .ds | .so _ => true
  | _ => false

/-- A condition on the ids that resources have, a slot of the tracker and what the device
    has there. -/
abbrev Relation := (ℕ → Bool) → Loc → Slot → Option Content → Prop

structure Emittable (Φ : Relation) : Prop where
  shown : ∀ valid l x, Φ valid l x (shown valid x)
  empty : ∀ valid l x, isArray l → Φ valid l x none
  array : ∀ valid l x data, isArray l → x.ctx.isSome → x.scrubbed = false →
    Φ valid l x (idOf valid x data)
  unscrub : ∀ valid l x y, isArray l → x.scrubbed = true → Φ valid l x y →
    Φ valid l { x with scrubbed := false } y
  drop : ∀ valid l x x' y, x.scrubbed = true ∨ x.res = none → x'.ctx = none → Φ valid l x y →
    Φ valid l x' y
  links : ∀ valid l x y k, Φ valid l x y → Φ valid l { x with resList := k } y

/-- A delayed command will set the slot. Stream output targets are not set while the first
    of them is not bound. -/
def Marked (b : Cbs) : Loc → Prop
  | .rt i => b.dirty .rt = true ∧ i.val < 8
  | .ds => b.dirty .rt = true
  | .so _ => b.dirty .so = true ∧ (b.slots (.so 0)).ctx.isSome
  | .sr sh i => b.dirty .ps = true ∧ b.dirtyPs sh = true ∧ b.dirtySr sh i = true
  | .vb i => b.dirty .vb = true ∧ b.dirtyVb i = true
  | _ => False

def SyncedAt (Φ : Relation) (s : Manager) (c : ℕ) (l : Loc) : Prop :=
  Marked (s.cbs (.persistent c)) l ∨ Φ s.valid l (s.slot (.persistent c, l)) (s.device c l)

variable {Φ : Relation} {s t : Manager} {p q : SlotRef} {i : StateId} {l : Loc} {c r : ℕ}

theorem Marked.pending {b : Cbs} (h : Marked b l) : Pending b := by
  cases l with
  | rt i => exact ⟨.rt, h.1⟩
  | ds => exact ⟨.rt, h⟩
  | so i => exact ⟨.so, h.1⟩
  | sr sh i => exact ⟨.ps, h.1⟩
  | vb i => exact ⟨.vb, h.1⟩
  | shader _ | tex _ | cb _ _ | ib => exact h.elim

section Delayed

theorem exec_apply {cmd : BindCmd} {dev : Device} :
    cmd.exec dev c = if c = cmd.ctx then cmd.set (dev c) else dev c := by
  unfold BindCmd.exec
  rw [Function.update_apply]
  split_ifs with h
  · rw [h]
  · rfl

theorem sendLater_device {cmd : ℕ → BindCmd} (hctx : vmwCbsContext (s.cbs i) = some c)
    (hfine : Fine s) : (sendLater i cmd s).2.device = (cmd c).exec s.device := by
  have hsent := (sendLater_fine (by rw [hctx]; rfl) hfine cmd).1
  unfold sendLater at hsent ⊢
  rw [hctx] at hsent ⊢
  dsimp only at hsent ⊢
  split_ifs at hsent ⊢ with hhead
  rfl

theorem sendSome_device {cmd : ℕ → BindCmd} {n : ℕ} (hctx : vmwCbsContext (s.cbs i) = some c)
    (hfine : Fine s) :
    (sendSome i n cmd s).2.device = if n = 0 then s.device else (cmd c).exec s.device := by
  unfold sendSome
  split_ifs
  · rfl
  · exact sendLater_device hctx hfine

theorem SyncedAt.of_same (h : SyncedAt Φ s c l) (hcbs : t.cbs (.persistent c) = s.cbs (.persistent c))
    (hvalid : t.valid = s.valid) (hdev : t.device c = s.device c) : SyncedAt Φ t c l := by
  unfold SyncedAt Manager.slot at *
  rwa [hcbs, hvalid, hdev]

theorem SyncedAt.of_kept (h : SyncedAt Φ s c l) (hkept : Kept s t)
    (hmark : Marked (s.cbs (.persistent c)) l → Marked (t.cbs (.persistent c)) l)
    (hdev : t.device c l = s.device c l) : SyncedAt Φ t c l := by
  refine h.imp hmark fun hrel => ?_
  rw [hkept.valid, hkept.slot, hdev]
  exact hrel

def bitOf : Loc → Option DirtyBit
  | .rt _ | .ds => some .rt
  | .sr _ _ => some .ps
  | .so _ => some .so
  | .vb _ => some .vb
  | _ => none

theorem Marked.of_bits {b b' : Cbs} (h : Marked b l) (hslots : b'.slots = b.slots)
    (hdirty : ∀ bit, bitOf l = some bit → b'.dirty bit = b.dirty bit)
    (hsr : ∀ sh i, l = .sr sh i → b'.dirtyPs sh = b.dirtyPs sh ∧
      b'.dirtySr sh i = b.dirtySr sh i)
    (hvb : ∀ i, l = .vb i → b'.dirtyVb i = b.dirtyVb i) : Marked b' l := by
  cases l with
  | rt i => exact ⟨(hdirty .rt rfl).trans h.1, h.2⟩
  | ds => exact (hdirty .rt rfl).trans h
  | so i =>
    refine ⟨(hdirty .so rfl).trans h.1, ?_⟩
    rw [hslots]
    exact h.2
  | sr sh i =>
    obtain ⟨h₁, h₂⟩ := hsr sh i rfl
    exact ⟨(hdirty .ps rfl).trans h.1, h₁.trans h.2.1, h₂.trans h.2.2⟩
  | vb i => exact ⟨(hdirty .vb rfl).trans h.1, (hvb i rfl).trans h.2⟩
  | shader _ | tex _ | cb _ _ | ib => exact h.elim

/-- After the emitter for `bit`, the slots of this bit need no mark any more. -/
def SettledAt (Φ : Relation) (bit : DirtyBit) (s : Manager) (c : ℕ) (l : Loc) : Prop :=
  (bitOf l = some bit → Φ s.valid l (s.slot (.persistent c, l)) (s.device c l)) ∧
  (bitOf l ≠ some bit → SyncedAt Φ s c l)

section Emitters

variable (hctx : vmwCbsContext (s.cbs (.persistent c)) = some c) (hfine : Fine s)
include hctx hfine

theorem vmwEmitSetRt_device : (vmwEmitSetRt (.persistent c) s).2.device c = fun l =>
    match l with
    | .rt i =>
      if i.val < 8 then
        if ∀ j, j ≤ i.val → (rtAt (s.cbs (.persistent c)) j).ctx.isSome then
          shown s.valid (s.slot (.persistent c, .rt i))
        else none
      else s.device c (.rt i)
    | .ds => shown s.valid (s.slot (.persistent c, .ds))
    | l => s.device c l := by
  have hdev : (vmwEmitSetRt (.persistent c) s).2.device c = _ :=
    congrFun (sendLater_device hctx hfine) c
  simp only [exec_apply, BindCmd.ctx, if_true] at hdev
  rw [hdev]
  funext l
  cases l with
  | rt i =>
    change (if i.val < 8 then List.getD _ _ _ else _) = if i.val < 8 then _ else _
    rw [collectLeading_getD]
    have hat : rtAt (s.cbs (.persistent c)) i = s.slot (.persistent c, .rt i) := by
      simp [rtAt, Manager.slot]
    rw [hat]
    by_cases hi : i.val < 8
    · rw [if_pos hi, if_pos hi]
      exact if_congr ⟨fun h => h.2, fun h => ⟨hi, h⟩⟩ rfl rfl
    · rw [if_neg hi, if_neg hi]
  | _ => rfl

/-- The stream output targets up to the first that is not bound; with none of them nothing
    is sent. -/
theorem vmwEmitSetSo_device : (vmwEmitSetSo (.persistent c) s).2.device c = fun l =>
    match l with
    | .so i =>
      if (s.slot (.persistent c, .so 0)).ctx.isSome then
        if ∀ j, j ≤ i.val → (soAt (s.cbs (.persistent c)) j).ctx.isSome then
          shown s.valid (s.slot (.persistent c, .so i))
        else none
      else s.device c (.so i)
    | l => s.device c l := by
  have hpos := collectLeading_length_pos s.valid (soAt (s.cbs (.persistent c)))
    (show 0 < 4 by omega)
  have hzero : soAt (s.cbs (.persistent c)) 0 = s.slot (.persistent c, .so 0) := rfl
  rw [hzero] at hpos
  have hdev : (vmwEmitSetSo (.persistent c) s).2.device c = _ :=
    congrFun (sendSome_device hctx hfine) c
  split_ifs at hdev with hlen
  · have hdead : ¬ (s.slot (.persistent c, .so 0)).ctx.isSome := fun hl => hpos.2 hl hlen
    rw [hdev]
    funext l
    cases l with
    | so i => exact (if_neg hdead).symm
    | _ => rfl
  · simp only [exec_apply, BindCmd.ctx, if_true] at hdev
    rw [hdev]
    funext l
    cases l with
    | so i =>
      change List.getD _ _ _ = if _ then _ else _
      rw [if_pos (hpos.1 hlen), collectLeading_getD]
      have hat : soAt (s.cbs (.persistent c)) i = s.slot (.persistent c, .so i) := by
        simp [soAt, Manager.slot]
      rw [hat]
      exact if_congr ⟨fun h => h.2, fun h => ⟨i.isLt, h⟩⟩ rfl rfl
    | _ => rfl

theorem vmwEmitSetSr_device (sh : Fin 3) : (vmwEmitSetSr (.persistent c) sh s).2.device c = fun l =>
    match l with
    | .sr sh' i =>
      if sh' = sh ∧ (dirtySpan ((s.cbs (.persistent c)).dirtySr sh) 128).1 ≤ i.val ∧
          i.val < (dirtySpan ((s.cbs (.persistent c)).dirtySr sh) 128).1 +
            (dirtySpan ((s.cbs (.persistent c)).dirtySr sh) 128).2 then
        shown s.valid (s.slot (.persistent c, .sr sh i))
      else s.device c (.sr sh' i)
    | l => s.device c l := by
  have hsend := sendSome_fine (s := s) (i := .persistent c) (by rw [hctx]; rfl) hfine
  unfold vmwEmitSetSr
  dsimp only
  rw [if_pos (hsend _ _).1]
  change (sendSome _ _ _ s).2.device c = _
  rw [sendSome_device hctx hfine]
  generalize hspan : dirtySpan ((s.cbs (.persistent c)).dirtySr sh) 128 = span
  split_ifs with hzero
  · funext l
    cases l with
    | sr sh' i =>
      change _ = if _ then _ else _
      rw [if_neg (by omega)]
    | _ => rfl
  · simp only [exec_apply, BindCmd.ctx, if_true]
    funext l
    cases l with
    | sr sh' i =>
      change (if sh' = sh then setFrom _ _ _ _ else _) = _
      have hat : srAt (s.cbs (.persistent c)) sh i = s.slot (.persistent c, .sr sh i) := by
        simp [srAt, Manager.slot]
      rw [setFrom_collectDirty, hat]
      by_cases hsh : sh' = sh
      · subst hsh
        simp
      · simp [hsh]
    | _ => rfl

theorem vmwEmitSetVb_device : (vmwEmitSetVb (.persistent c) s).2.device c = fun l =>
    match l with
    | .vb i =>
      if (dirtySpan (s.cbs (.persistent c)).dirtyVb 32).1 ≤ i.val ∧
          i.val < (dirtySpan (s.cbs (.persistent c)).dirtyVb 32).1 +
            (dirtySpan (s.cbs (.persistent c)).dirtyVb 32).2 then
        shown s.valid (s.slot (.persistent c, .vb i))
      else s.device c (.vb i)
    | l => s.device c l := by
  have hsend := sendSome_fine (s := s) (i := .persistent c) (by rw [hctx]; rfl) hfine
  unfold vmwEmitSetVb
  dsimp only
  rw [if_pos (hsend _ _).1]
  change (sendSome _ _ _ s).2.device c = _
  rw [sendSome_device hctx hfine]
  generalize hspan : dirtySpan (s.cbs (.persistent c)).dirtyVb 32 = span
  split_ifs with hzero
  · funext l
    cases l with
    | vb i =>
      change _ = if _ then _ else _
      rw [if_neg (by omega)]
    | _ => rfl
  · simp only [exec_apply, BindCmd.ctx, if_true]
    funext l
    cases l with
    | vb i =>
      change setFrom _ _ _ _ = _
      have hat : vbAt (s.cbs (.persistent c)) i = s.slot (.persistent c, .vb i) := by
        simp [vbAt, Manager.slot]
      rw [setFrom_collectDirty, hat]
    | _ => rfl

end Emitters

section Settling

variable (hΦ : Emittable Φ) (h : ∀ l, SyncedAt Φ s c l)
  (hctx : vmwCbsContext (s.cbs (.persistent c)) = some c) (hfine : Fine s)
include hΦ h hctx hfine

theorem vmwEmitSetRt_settled (l : Loc) :
    SettledAt Φ .rt (vmwEmitSetRt (.persistent c) s).2 c l := by
  have hkept : Kept s (vmwEmitSetRt (.persistent c) s).2 := sendLater_kept _ _ s
  have hcbs : (vmwEmitSetRt (.persistent c) s).2.cbs = s.cbs := (sendLater_cbs _ _ s).1
  have hdev := vmwEmitSetRt_device hctx hfine
  generalize (vmwEmitSetRt (.persistent c) s).2 = t at hkept hcbs hdev ⊢
  have hother : t.device c l = s.device c l → SyncedAt Φ t c l :=
    (h l).of_kept hkept fun hm => by rwa [hcbs]
  unfold SettledAt
  cases l with
  | rt i =>
    refine ⟨fun _ => ?_, fun hne => absurd rfl hne⟩
    rw [hkept.valid, hkept.slot, hdev]
    dsimp only
    split_ifs with hi hall
    · exact hΦ.shown _ _ _
    · exact hΦ.empty _ _ _ rfl
    · exact (h (.rt i)).resolve_left fun hm => hi hm.2
  | ds =>
    refine ⟨fun _ => ?_, fun hne => absurd rfl hne⟩
    rw [hkept.valid, hkept.slot, hdev]
    exact hΦ.shown _ _ _
  | _ =>
    refine ⟨fun hbit => (by cases hbit), fun _ => ?_⟩
    exact hother (by rw [hdev])

theorem vmwEmitSetSo_settled (l : Loc) :
    SettledAt Φ .so (vmwEmitSetSo (.persistent c) s).2 c l := by
  have hkept : Kept s (vmwEmitSetSo (.persistent c) s).2 := sendSome_kept _ _ _ s
  have hcbs : (vmwEmitSetSo (.persistent c) s).2.cbs = s.cbs := (sendSome_cbs _ _ _ s).1
  have hdev := vmwEmitSetSo_device hctx hfine
  generalize (vmwEmitSetSo (.persistent c) s).2 = t at hkept hcbs hdev ⊢
  have hother : t.device c l = s.device c l → SyncedAt Φ t c l :=
    (h l).of_kept hkept fun hm => by rwa [hcbs]
  unfold SettledAt
  cases l with
  | so i =>
    refine ⟨fun _ => ?_, fun hne => absurd rfl hne⟩
    rw [hkept.valid, hkept.slot, hdev]
    dsimp only
    split_ifs with hfirst hall
    · exact hΦ.shown _ _ _
    · exact hΦ.empty _ _ _ rfl
    · exact (h (.so i)).resolve_left fun hm => hfirst hm.2
  | _ =>
    refine ⟨fun hbit => (by cases hbit), fun _ => ?_⟩
    exact hother (by rw [hdev])

theorem vmwEmitSetVb_settled (l : Loc) :
    SettledAt Φ .vb (vmwEmitSetVb (.persistent c) s).2 c l := by
  have hkept := vmwEmitSetVb_kept (.persistent c) s
  have hcbs : (vmwEmitSetVb (.persistent c) s).2.cbs (.persistent c) =
      { s.cbs (.persistent c) with
        dirtyVb := bitmapClear (s.cbs (.persistent c)).dirtyVb
          (dirtySpan (s.cbs (.persistent c)).dirtyVb 32) } := by
    unfold vmwEmitSetVb
    dsimp only
    rw [if_pos (sendSome_fine (by rw [hctx]; rfl) hfine _ _).1]
    exact cbs_setCbs_self
  have hdev := vmwEmitSetVb_device hctx hfine
  generalize (vmwEmitSetVb (.persistent c) s).2 = t at hkept hcbs hdev ⊢
  unfold SettledAt
  cases l with
  | vb i =>
    refine ⟨fun _ => ?_, fun hne => absurd rfl hne⟩
    rw [hkept.valid, hkept.slot, hdev]
    dsimp only
    split_ifs with hspan
    · exact hΦ.shown _ _ _
    · exact (h (.vb i)).resolve_left fun hm => hspan (mem_dirtySpan i.isLt hm.2)
  | _ =>
    refine ⟨fun hbit => (by cases hbit), fun _ => ?_⟩
    refine (h _).of_kept hkept (fun hm => ?_) (by rw [hdev])
    rw [hcbs]
    exact hm

theorem vmwEmitSetSr_synced (sh : Fin 3) (l : Loc) : SyncedAt Φ
    ((vmwEmitSetSr (.persistent c) sh s).2.setCbs (.persistent c)
      { (vmwEmitSetSr (.persistent c) sh s).2.cbs (.persistent c) with
        dirtyPs := Function.update ((vmwEmitSetSr (.persistent c) sh s).2.cbs
          (.persistent c)).dirtyPs sh false }) c l := by
  have hkept := vmwEmitSetSr_kept (.persistent c) sh s
  have hcbs : (vmwEmitSetSr (.persistent c) sh s).2.cbs (.persistent c) =
      { s.cbs (.persistent c) with
        dirtySr := Function.update (s.cbs (.persistent c)).dirtySr sh
          (bitmapClear ((s.cbs (.persistent c)).dirtySr sh)
            (dirtySpan ((s.cbs (.persistent c)).dirtySr sh) 128)) } := by
    unfold vmwEmitSetSr
    dsimp only
    rw [if_pos (sendSome_fine (by rw [hctx]; rfl) hfine _ _).1]
    exact cbs_setCbs_self
  have hdev := vmwEmitSetSr_device hctx hfine sh
  generalize (vmwEmitSetSr (.persistent c) sh s).2 = t at hkept hcbs hdev ⊢
  have hclear := hkept.trans (kept_setCbs (i := .persistent c)
    (b := { t.cbs (.persistent c) with
      dirtyPs := Function.update (t.cbs (.persistent c)).dirtyPs sh false }) rfl rfl)
  have hother : (∀ i, l ≠ .sr sh i) → SyncedAt Φ (t.setCbs (.persistent c)
      { t.cbs (.persistent c) with
        dirtyPs := Function.update (t.cbs (.persistent c)).dirtyPs sh false }) c l := by
    intro hl
    refine (h l).of_kept hclear (fun hm => ?_) ?_
    · rw [cbs_setCbs_self, hcbs]
      refine hm.of_bits rfl (fun _ _ => rfl) (fun sh' i hsr => ?_) fun _ _ => rfl
      have hsh : sh' ≠ sh := fun he => hl i (he ▸ hsr)
      simp [hsh]
    · change t.device c l = _
      rw [hdev]
      cases l with
      | sr sh' i =>
        have hsh : sh' ≠ sh := fun he => hl i (by rw [he])
        simp [hsh]
      | _ => rfl
  cases l with
  | sr sh' i =>
    by_cases hsh : sh' = sh
    · subst hsh
      refine .inr ?_
      rw [hclear.valid, hclear.slot]
      change Φ _ _ _ (t.device c (.sr sh' i))
      rw [hdev]
      dsimp only
      split_ifs with hspan
      · exact hΦ.shown _ _ _
      · refine (h (.sr sh' i)).resolve_left fun hm => hspan ⟨rfl, ?_⟩
        exact mem_dirtySpan i.isLt hm.2.2
    · exact hother fun i' he => hsh (Loc.sr.inj he).1
  | _ => exact hother fun i he => by cases he

theorem emitShaders_synced (shs : List (Fin 3)) :
    (∀ l, SyncedAt Φ (emitShaders (.persistent c) shs s) c l) ∧
    ∀ sh, (sh ∈ shs ∨ (s.cbs (.persistent c)).dirtyPs sh = false) →
      ((emitShaders (.persistent c) shs s).cbs (.persistent c)).dirtyPs sh = false := by
  induction shs generalizing s with
  | nil => exact ⟨h, fun sh hsh => hsh.resolve_left (by simp)⟩
  | cons sh shs ih =>
    have hfine' := vmwEmitSetSr_fine (by rw [hctx]; rfl) hfine sh
    have hps : ∀ sh', ((vmwEmitSetSr (.persistent c) sh s).2.cbs (.persistent c)).dirtyPs sh' =
        (s.cbs (.persistent c)).dirtyPs sh' := by
      intro sh'
      unfold vmwEmitSetSr
      dsimp only
      split_ifs
      · rw [cbs_setCbs_self]
      · rw [(sendSome_cbs _ _ _ s).1]
    unfold emitShaders
    dsimp only
    split_ifs with hdirty
    · have hsynced := vmwEmitSetSr_synced hΦ h hctx hfine sh
      have hkept := (vmwEmitSetSr_kept (.persistent c) sh s).trans (kept_setCbs (i := .persistent c)
        (b := { (vmwEmitSetSr (.persistent c) sh s).2.cbs (.persistent c) with
          dirtyPs := Function.update ((vmwEmitSetSr (.persistent c) sh s).2.cbs
            (.persistent c)).dirtyPs sh false }) rfl rfl)
      obtain ⟨hrest, hclear⟩ := ih hsynced (by rw [hkept.vmwCbsContext_eq, hctx]) hfine'.2
      refine ⟨hrest, fun sh' hsh' => hclear sh' ?_⟩
      rw [cbs_setCbs_self]
      dsimp only
      rw [Function.update_apply, hps]
      by_cases heq : sh' = sh
      · exact .inr (if_pos heq)
      · rw [if_neg heq]
        exact hsh'.imp (fun hm => (List.mem_cons.1 hm).resolve_left heq) fun hd => hd
    · rename_i hret
      exact absurd hfine'.1 hret
    · obtain ⟨hrest, hclear⟩ := ih h hctx hfine
      refine ⟨hrest, fun sh' hsh' => hclear sh' ?_⟩
      by_cases heq : sh' = sh
      · exact .inr (by rw [heq]; simpa using hdirty)
      · exact hsh'.imp (fun hm => (List.mem_cons.1 hm).resolve_left heq) fun hd => hd

theorem emitter_settled (bit : DirtyBit) (l : Loc) :
    SettledAt Φ bit (emitter (.persistent c) bit s).2 c l := by
  cases bit with
  | rt => exact vmwEmitSetRt_settled hΦ h hctx hfine l
  | so => exact vmwEmitSetSo_settled hΦ h hctx hfine l
  | vb => exact vmwEmitSetVb_settled hΦ h hctx hfine l
  | ps =>
    obtain ⟨hsynced, hclear⟩ := emitShaders_synced hΦ h hctx hfine [0, 1, 2]
    refine ⟨fun hbit => ?_, fun _ => hsynced l⟩
    cases l with
    | sr sh i =>
      refine (hsynced (.sr sh i)).resolve_left fun hm => ?_
      have hps := hm.2.1
      rw [hclear sh (.inl (by fin_cases sh <;> simp))] at hps
      cases hps
    | _ => cases hbit

theorem emitBit_synced (bit : DirtyBit) (l : Loc) :
    SyncedAt Φ (emitBit (.persistent c) bit s).2 c l := by
  have hsettled := emitter_settled
    (s := { s with dispatches := s.dispatches ++ [vmwCbsContext (s.cbs (.persistent c))] })
    hΦ h hctx hfine bit l
  have hret := emitter_fine (i := .persistent c)
    (s := { s with dispatches := s.dispatches ++ [vmwCbsContext (s.cbs (.persistent c))] })
    (by change (vmwCbsContext (s.cbs (.persistent c))).isSome; rw [hctx]; rfl) hfine bit
  unfold emitBit
  dsimp only
  rw [if_pos hret.1]
  generalize (emitter (.persistent c) bit
    { s with dispatches := s.dispatches ++ [vmwCbsContext (s.cbs (.persistent c))] }).2 = t
    at hsettled ⊢
  have hkept : Kept t (t.setCbs (.persistent c) { t.cbs (.persistent c) with
      dirty := Function.update (t.cbs (.persistent c)).dirty bit false }) := kept_setCbs rfl rfl
  by_cases hbit : bitOf l = some bit
  · refine .inr ?_
    rw [hkept.valid, hkept.slot]
    exact hsettled.1 hbit
  · refine (hsettled.2 hbit).of_kept hkept (fun hm => ?_) rfl
    rw [cbs_setCbs_self]
    refine hm.of_bits rfl (fun b hb => ?_) (fun _ _ _ => ⟨rfl, rfl⟩) fun _ _ => rfl
    have hne : b ≠ bit := by
      rintro rfl
      exact hbit hb
    exact Function.update_of_ne hne _ _

end Settling

theorem emitBits_synced (hΦ : Emittable Φ) (h : ∀ l, SyncedAt Φ s c l)
    (hctx : vmwCbsContext (s.cbs (.persistent c)) = some c) (hfine : Fine s)
    (bits : List DirtyBit) (l : Loc) : SyncedAt Φ (emitBits (.persistent c) bits s).2 c l := by
  induction bits generalizing s with
  | nil => exact h l
  | cons bit bits ih =>
    unfold emitBits
    dsimp only
    have hbit := emitBit_synced hΦ h hctx hfine bit
    split_ifs
    · refine ih hbit ?_ (emitBit_fine (by rw [hctx]; rfl) hfine bit).2.1
      rw [(emitBit_kept (.persistent c) bit s).vmwCbsContext_eq, hctx]
    · exact hbit l
    · exact ih h hctx hfine

def OnlyCtx (c : ℕ) (s t : Manager) : Prop := ∀ c', c' ≠ c → t.device c' = s.device c'

theorem OnlyCtx.trans {u : Manager} (h : OnlyCtx c s t) (h' : OnlyCtx c t u) : OnlyCtx c s u :=
  fun c' hc => (h' c' hc).trans (h c' hc)

def Names (s : Manager) (i : StateId) (c : ℕ) : Prop := ∀ k, vmwCbsContext (s.cbs i) = some k → k = c

theorem Names.of_kept (h : Names s i c) (hkept : Kept s t) : Names t i c := fun k hk =>
  h k (hkept.vmwCbsContext_eq ▸ hk)

theorem sendLater_onlyCtx {cmd : ℕ → BindCmd} (hcmd : ∀ k, (cmd k).ctx = k) (h : Names s i c) :
    OnlyCtx c s (sendLater i cmd s).2 := by
  intro c' hc
  unfold sendLater
  split
  · rfl
  · rename_i k hk
    obtain rfl := h k hk
    split_ifs
    · change (cmd k).exec s.device c' = _
      rw [exec_apply, if_neg (by rw [hcmd]; exact hc)]
    · rfl

theorem sendSome_onlyCtx {cmd : ℕ → BindCmd} (hcmd : ∀ k, (cmd k).ctx = k) (h : Names s i c)
    (n : ℕ) : OnlyCtx c s (sendSome i n cmd s).2 := by
  unfold sendSome
  split_ifs
  · exact fun _ _ => rfl
  · exact sendLater_onlyCtx hcmd h

theorem vmwEmitSetSr_onlyCtx (h : Names s i c) (sh : Fin 3) :
    OnlyCtx c s (vmwEmitSetSr i sh s).2 := by
  unfold vmwEmitSetSr
  dsimp only
  split_ifs
  · exact sendSome_onlyCtx (fun _ => rfl) h _
  · exact sendSome_onlyCtx (fun _ => rfl) h _

theorem emitShaders_onlyCtx (h : Names s i c) (shs : List (Fin 3)) :
    OnlyCtx c s (emitShaders i shs s) := by
  induction shs generalizing s with
  | nil => exact fun _ _ => rfl
  | cons sh shs ih =>
    have hsr := vmwEmitSetSr_onlyCtx h sh
    have hkept := vmwEmitSetSr_kept i sh s
    unfold emitShaders
    dsimp only
    split_ifs
    · refine OnlyCtx.trans hsr ?_
      refine ih ((h.of_kept hkept).of_kept (kept_setCbs rfl rfl))
    · exact hsr
    · exact ih h

theorem emitter_onlyCtx (h : Names s i c) (bit : DirtyBit) : OnlyCtx c s (emitter i bit s).2 := by
  cases bit with
  | rt => exact sendLater_onlyCtx (fun _ => rfl) h
  | ps => exact emitShaders_onlyCtx h _
  | so => exact sendSome_onlyCtx (fun _ => rfl) h _
  | vb =>
    change OnlyCtx c s (vmwEmitSetVb i s).2
    unfold vmwEmitSetVb
    dsimp only
    split_ifs
    · exact sendSome_onlyCtx (fun _ => rfl) h _
    · exact sendSome_onlyCtx (fun _ => rfl) h _

theorem emitBits_onlyCtx (h : Names s i c) (bits : List DirtyBit) :
    OnlyCtx c s (emitBits i bits s).2 := by
  induction bits generalizing s with
  | nil => exact fun _ _ => rfl
  | cons bit bits ih =>
    have hbit : OnlyCtx c s (emitBit i bit s).2 := by
      have hemit := emitter_onlyCtx
        (s := { s with dispatches := s.dispatches ++ [vmwCbsContext (s.cbs i)] }) h bit
      unfold emitBit
      dsimp only
      split_ifs
      · exact hemit
      · exact hemit
    unfold emitBits
    dsimp only
    split_ifs
    · exact hbit.trans (ih (h.of_kept (emitBit_kept i bit s)))
    · exact hbit
    · exact ih h

theorem DirtyOk.names (h : DirtyOk s) (c : ℕ) : Names s (.persistent c) c := by
  intro k hk
  obtain ⟨l, -, hl⟩ := Option.bind_eq_some_iff.1 hk
  exact h.owned c l k hl

theorem vmwBindingEmitDirty_synced (hΦ : Emittable Φ) (hok : DirtyOk s) (hfine : Fine s)
    (h : ∀ c l, SyncedAt Φ s c l) (c c' : ℕ) (l : Loc) :
    SyncedAt Φ (vmwBindingEmitDirty (.persistent c) s).2 c' l := by
  by_cases hp : Pending (s.cbs (.persistent c))
  · have hemits := vmwBindingEmitDirty_emits (.persistent c) s
    by_cases hc : c' = c
    · subst hc
      obtain ⟨m, hm⟩ := hok.covered c' hp
      exact emitBits_synced hΦ (h c') (hok.context hm) hfine _ l
    · refine (h c' l).of_same (hemits.others _ (by simpa using hc)) hemits.kept.valid ?_
      exact emitBits_onlyCtx (DirtyOk.names hok c) _ c' hc
  · unfold vmwBindingEmitDirty
    rw [emitBits_of_not_pending hp]
    exact h c' l

end Delayed

end Vmwgfx.BindingSync
