import Mathlib.Data.UInt
import Vmwgfx.FenceMachine

set_option autoImplicit false

/-!
# Passed seqnos

`vmw_seqno_passed` of `vmwgfx_irq.c` with the markers of `vmw_fifo_send_fence`. The decision
compares a seqno with the last value read of `SVGA_FIFO_FENCE`, with the value read now and
with the marker counter, each modulo `2 ^ 32`. A wait that times out, after which the driver
writes to the register what the device has not completed, is left out.
-/
namespace Vmwgfx.SeqnoPassed
open Word32 LabelledRuns FenceMachine

/-- `VMW_FENCE_WRAP` of `vmwgfx_irq.c`. -/
def vmwFenceWrap : ℕ := 2 ^ 24

structure Markers where
  markerSeq : ℕ
  /-- `SVGA_FIFO_FENCE`. -/
  fence : ℕ
  lastReadSeqno : ℕ
  /-- `SVGA_FIFO_CAP_FENCE`. -/
  capFence : Bool
  /-- The markers so far, the newest first; the last one is that of `vmw_fifo_init`. -/
  history : List ℕ
  /-- The number of markers after the one in `fence`. -/
  outstanding : ℕ
  deriving DecidableEq

/-- The state left by `vmw_fifo_init`. -/
def start (seqno : UInt32) (capFence : Bool) : Markers where
  markerSeq := seqno.toNat
  fence := seqno.toNat
  lastReadSeqno := seqno.toNat
  capFence := capFence
  history := [seqno.toNat]
  outstanding := 0

/-- The device executes the next `k` fence commands. -/
def deviceRun (k : ℕ) (s : Markers) : Markers :=
  if s.capFence then
    { s with
      outstanding := s.outstanding - k
      fence := s.history.getD (s.outstanding - k) s.fence }
  else s

def vmwUpdateSeqno (s : Markers) : Markers :=
  if s.lastReadSeqno ≠ s.fence then { s with lastReadSeqno := s.fence } else s

/-- `idle` is what `vmw_fifo_idle` finds. -/
def vmwSeqnoPassed (idle : Bool) (seqno : ℕ) (s : Markers) : Bool × Markers :=
  if subU32 s.lastReadSeqno seqno < vmwFenceWrap then (true, s)
  else
    let s := vmwUpdateSeqno s
    if subU32 s.lastReadSeqno seqno < vmwFenceWrap then (true, s)
    else if !s.capFence && idle then (true, s)
    else (decide (vmwFenceWrap < subU32 s.markerSeq seqno), s)

def emitMarker (s : Markers) : Markers :=
  { s with
    markerSeq := nextSeqno s.markerSeq
    history := nextSeqno s.markerSeq :: s.history
    outstanding := s.outstanding + 1 }

/-- `vmw_fifo_send_fence`, with the device making progress `k` before the register is read. -/
def vmwFifoSendFence (k : ℕ) (s : Markers) : Markers :=
  let s := emitMarker s
  if s.capFence then vmwUpdateSeqno (deviceRun k s) else s

/-- `vmw_fallback_wait` for an idle FIFO. -/
def vmwFallbackWait (s : Markers) : Markers := { s with fence := s.markerSeq, outstanding := 0 }

inductive Act where
  | sendFence (k : ℕ)
  | fallbackWait
  | device (k : ℕ)
  | updateSeqno
  | seqnoPassed (idle : Bool) (seqno : ℕ)
  deriving DecidableEq, Repr

def next (s : Markers) : Act → Markers
  | .sendFence k => vmwFifoSendFence k s
  | .fallbackWait => vmwFallbackWait s
  | .device k => deviceRun k s
  | .updateSeqno => vmwUpdateSeqno s
  | .seqnoPassed idle seqno => (vmwSeqnoPassed idle seqno s).2

def step (s : Markers) (a : Act) : Option Markers := some (next s a)

/-- The newest marker is less than `2 ^ 24` after the completed one. -/
def Near (s : Markers) : Prop := subU32 s.markerSeq s.fence < vmwFenceWrap

instance (s : Markers) : Decidable (Near s) := by
  unfold Near
  infer_instance

def StaysNear (s : Markers) (a : Act) : Prop := Near (next s a)

instance (s : Markers) (a : Act) : Decidable (StaysNear s a) := by
  unfold StaysNear
  infer_instance

section Distances
variable {m x y n i : ℕ}

/-- How many markers are emitted from `x` to `m`, zero being left out. -/
def emittedSince (x m : ℕ) : ℕ := if x ≤ m then m - x else m + (2 ^ 32 - 1) - x

theorem nextSeqno_lt (m : ℕ) : nextSeqno m < 2 ^ 32 := by
  unfold nextSeqno addU32
  split_ifs <;> omega

theorem emittedSince_self (m : ℕ) : emittedSince m m = 0 := by
  unfold emittedSince
  rw [if_pos le_rfl, Nat.sub_self]

theorem emittedSince_next (hx : x < 2 ^ 32) (hm : m < 2 ^ 32)
    (h : emittedSince x m + 1 < 2 ^ 32 - 1) :
    emittedSince x (nextSeqno m) = emittedSince x m + 1 := by
  unfold emittedSince nextSeqno addU32 at *
  split_ifs at * <;> omega

theorem subU32_emitted (hx : x < 2 ^ 32) (hm : m < 2 ^ 32) (h : emittedSince x m = n) :
    subU32 m x = n ∨ (m < x ∧ subU32 m x = n + 1) := by
  unfold emittedSince at h
  unfold subU32
  split_ifs at h <;> omega

theorem emitted_le_iff (hx : x < 2 ^ 32) (hy : y < 2 ^ 32) (hm : m < 2 ^ 32)
    (hi : emittedSince x m = i) (hn : emittedSince y m = n) (hxy : i = n → x = y) :
    i ≤ n ↔ subU32 m x ≤ subU32 m y := by
  unfold emittedSince at hi hn
  unfold subU32
  split_ifs at hi hn <;> omega

end Distances

theorem passed_iff {idle : Bool} {seqno : ℕ} {s : Markers} :
    (vmwSeqnoPassed idle seqno s).1 = true ↔
      subU32 s.lastReadSeqno seqno < vmwFenceWrap ∨ subU32 s.fence seqno < vmwFenceWrap ∨
        (s.capFence = false ∧ idle = true) ∨ vmwFenceWrap < subU32 s.markerSeq seqno := by
  have hread : (vmwUpdateSeqno s).lastReadSeqno = s.fence ∧
      (vmwUpdateSeqno s).capFence = s.capFence ∧ (vmwUpdateSeqno s).markerSeq = s.markerSeq := by
    unfold vmwUpdateSeqno
    split_ifs with h
    · exact ⟨rfl, rfl, rfl⟩
    · exact ⟨not_not.1 h, rfl, rfl⟩
  unfold vmwSeqnoPassed
  dsimp only
  rw [hread.1, hread.2.1, hread.2.2]
  split_ifs with hcached hnow hidle
  · simp [hcached]
  · simp [hnow]
  · simp only [Bool.and_eq_true, Bool.not_eq_true'] at hidle
    simp [hidle]
  · simp only [Bool.and_eq_true, Bool.not_eq_true'] at hidle
    simp [hcached, hnow, hidle]

/-- The registers are places of the history, which is spaced like the markers. -/
structure Told (s : Markers) : Prop where
  bounded : ∀ x ∈ s.history, x < 2 ^ 32
  newest : s.history[0]? = some s.markerSeq
  completed : s.history[s.outstanding]? = some s.fence
  spaced : ∀ i x, s.history[i]? = some x → i < 2 ^ 32 - 1 → emittedSince x s.markerSeq = i

/-- With fences the cached value is one that the device has completed, and a recent one: it is
    read again for every marker. -/
structure Inv (s : Markers) : Prop extends Told s where
  near : s.outstanding < 2 ^ 24
  cached : s.capFence = true →
    ∃ i, s.outstanding ≤ i ∧ i < 2 ^ 24 ∧ s.history[i]? = some s.lastReadSeqno

section Invariant
variable {s : Markers} {i x : ℕ}

theorem Told.marker_lt (h : Told s) : s.markerSeq < 2 ^ 32 :=
  h.bounded _ (List.mem_of_getElem? h.newest)

theorem Told.distance (h : Told s) (hx : s.history[i]? = some x) (hi : i < 2 ^ 32 - 1) :
    subU32 s.markerSeq x = i ∨ subU32 s.markerSeq x = i + 1 := by
  have hd := subU32_emitted (h.bounded x (List.mem_of_getElem? hx)) h.marker_lt
    (h.spaced i x hx hi)
  exact hd.imp_right And.right

theorem Told.near_of (h : Told s) (hout : s.outstanding < 2 ^ 32 - 1) (hnear : Near s) :
    s.outstanding < 2 ^ 24 := by
  have hd := h.distance h.completed hout
  unfold Near vmwFenceWrap at hnear
  omega

theorem Told.emit (h : Told s) : Told (emitMarker s) where
  bounded := by
    intro x hx
    rcases List.mem_cons.1 hx with rfl | hx
    · exact nextSeqno_lt s.markerSeq
    · exact h.bounded x hx
  newest := rfl
  completed := h.completed
  spaced := by
    intro i x hx hi
    cases i with
    | zero =>
      obtain rfl := Option.some.inj hx
      exact emittedSince_self _
    | succ i =>
      have hold := h.spaced i x hx (by omega)
      have hlt := h.bounded x (List.mem_of_getElem? hx)
      change emittedSince x (nextSeqno s.markerSeq) = i + 1
      rw [emittedSince_next hlt h.marker_lt (by omega), hold]

theorem Told.deviceRun (h : Told s) (k : ℕ) : Told (deviceRun k s) := by
  unfold SeqnoPassed.deviceRun
  split_ifs
  · refine ⟨h.bounded, h.newest, ?_, h.spaced⟩
    obtain ⟨hlen, -⟩ := List.getElem?_eq_some_iff.1 h.completed
    have hlen' : s.outstanding - k < s.history.length := by omega
    change s.history[s.outstanding - k]? = some (s.history.getD (s.outstanding - k) s.fence)
    rw [List.getD_eq_getElem?_getD, List.getElem?_eq_getElem hlen']
    rfl
  · exact h

theorem vmwUpdateSeqno_eq (s : Markers) :
    vmwUpdateSeqno s = { s with lastReadSeqno := s.fence } := by
  unfold vmwUpdateSeqno
  split_ifs with h
  · rfl
  · have heq := not_not.1 h
    cases s
    cases heq
    rfl

theorem Told.update (h : Told s) : Told (vmwUpdateSeqno s) := by
  rw [vmwUpdateSeqno_eq]
  exact ⟨h.bounded, h.newest, h.completed, h.spaced⟩

theorem Inv.update (h : Inv s) : Inv (vmwUpdateSeqno s) := by
  refine ⟨h.toTold.update, ?_, ?_⟩
  · rw [vmwUpdateSeqno_eq]
    exact h.near
  · rw [vmwUpdateSeqno_eq]
    exact fun _ => ⟨s.outstanding, le_rfl, h.near, h.completed⟩

theorem deviceRun_outstanding (k : ℕ) (s : Markers) :
    (deviceRun k s).outstanding ≤ s.outstanding := by
  unfold deviceRun
  split_ifs
  · exact Nat.sub_le _ _
  · exact le_rfl

theorem Inv.deviceRun (h : Inv s) (k : ℕ) : Inv (deviceRun k s) := by
  have hle := deviceRun_outstanding k s
  refine ⟨h.toTold.deviceRun k, hle.trans_lt h.near, fun hcap => ?_⟩
  have hcap' : s.capFence = true := by
    unfold SeqnoPassed.deviceRun at hcap
    split_ifs at hcap with hc
    · exact hc
    · exact hcap
  obtain ⟨i, hi, hlt, hread⟩ := h.cached hcap'
  refine ⟨i, hle.trans hi, hlt, ?_⟩
  unfold SeqnoPassed.deviceRun
  rw [if_pos hcap']
  exact hread

theorem Inv.fallbackWait (h : Inv s) : Inv (vmwFallbackWait s) where
  toTold := ⟨h.bounded, h.newest, h.newest, h.spaced⟩
  near := by norm_num [vmwFallbackWait]
  cached := by
    intro hcap
    obtain ⟨i, -, hlt, hread⟩ := h.cached hcap
    exact ⟨i, Nat.zero_le i, hlt, hread⟩

theorem Inv.sendFence (h : Inv s) (k : ℕ) (hnear : Near (vmwFifoSendFence k s)) :
    Inv (vmwFifoSendFence k s) := by
  have hemit := h.toTold.emit
  have hout : (emitMarker s).outstanding < 2 ^ 32 - 1 := by
    have := h.near
    change s.outstanding + 1 < 2 ^ 32 - 1
    omega
  unfold vmwFifoSendFence at *
  dsimp only at *
  split_ifs at hnear ⊢ with hcap
  · have hrun := hemit.deviceRun k
    have hle := deviceRun_outstanding k (emitMarker s)
    rw [vmwUpdateSeqno_eq] at hnear ⊢
    have hlt := hrun.near_of (hle.trans_lt hout) hnear
    exact ⟨⟨hrun.bounded, hrun.newest, hrun.completed, hrun.spaced⟩, hlt,
      fun _ => ⟨_, le_rfl, hlt, hrun.completed⟩⟩
  · exact ⟨hemit, hemit.near_of hout hnear, fun hc => absurd hc hcap⟩

theorem Inv.seqnoPassed (h : Inv s) (idle : Bool) (seqno : ℕ) :
    Inv (vmwSeqnoPassed idle seqno s).2 := by
  unfold vmwSeqnoPassed
  dsimp only
  split_ifs
  · exact h
  · exact h.update
  · exact h.update
  · exact h.update

theorem start_inv (seqno : UInt32) (capFence : Bool) : Inv (start seqno capFence) where
  bounded := by
    intro x hx
    obtain rfl := List.mem_singleton.1 hx
    exact seqno.toNat_lt
  newest := rfl
  completed := rfl
  spaced := by
    intro i x hx _
    cases i with
    | zero =>
      obtain rfl := Option.some.inj hx
      exact emittedSince_self _
    | succ i => cases hx
  near := by norm_num [start]
  cached := fun _ => ⟨0, le_rfl, by norm_num, rfl⟩

theorem step_inv {t : Markers} {a : Act} (h : Inv s) (hnear : StaysNear s a)
    (hstep : step s a = some t) : Inv t := by
  obtain rfl := Option.some.inj hstep
  cases a with
  | sendFence k => exact h.sendFence k hnear
  | fallbackWait => exact h.fallbackWait
  | device k => exact h.deviceRun k
  | updateSeqno => exact h.update
  | seqnoPassed idle seqno => exact h.seqnoPassed idle seqno

theorem runs_inv {seqno : UInt32} {capFence : Bool} {as : List Act} {t : Markers}
    (h : Runs step StaysNear (start seqno capFence) as t) : Inv t :=
  h.invariant Inv (start_inv seqno capFence) fun _ _ _ hi hnear hstep => step_inv hi hnear hstep

end Invariant

/-- For the marker emitted `n` markers before the newest: it is not asked for at exactly
    `2 ^ 24` behind a marker that the device has completed and the driver has read, and without
    fences neither an idle FIFO nor an old value of the register stands for it. -/
def Decided (idle : Bool) (n seqno : ℕ) (s : Markers) : Prop :=
  (n < s.outstanding → s.capFence = false →
    idle = false ∧ vmwFenceWrap ≤ subU32 s.lastReadSeqno seqno) ∧
  ¬ (subU32 s.markerSeq seqno = vmwFenceWrap ∧ s.outstanding = 0 ∧
    vmwFenceWrap ≤ subU32 s.lastReadSeqno seqno ∧ (s.capFence = true ∨ idle = false))

instance (idle : Bool) (n seqno : ℕ) (s : Markers) : Decidable (Decided idle n seqno s) := by
  unfold Decided
  infer_instance

section Decision
variable {s : Markers} {n seqno : ℕ}

theorem Told.le_iff {i j x y : ℕ} (h : Told s) (hx : s.history[i]? = some x)
    (hy : s.history[j]? = some y) (hi : i < 2 ^ 32 - 1) (hj : j < 2 ^ 32 - 1) :
    i ≤ j ↔ subU32 s.markerSeq x ≤ subU32 s.markerSeq y := by
  refine emitted_le_iff (h.bounded x (List.mem_of_getElem? hx))
    (h.bounded y (List.mem_of_getElem? hy)) h.marker_lt (h.spaced i x hx hi)
    (h.spaced j y hy hj) ?_
  rintro rfl
  exact Option.some.inj (hx.symm.trans hy)

theorem Inv.cached_outstanding (h : Inv s) (hs : s.history[n]? = some seqno)
    (hcap : s.capFence = true) (hout : n < s.outstanding) :
    vmwFenceWrap ≤ subU32 s.lastReadSeqno seqno := by
  obtain ⟨i, hi, hlt, hread⟩ := h.cached hcap
  have hle := h.le_iff hread hs (by omega) (by omega)
  have hd := h.distance hread (by omega)
  have hthrough := subU32_through s.markerSeq s.lastReadSeqno seqno
  rw [if_neg (fun hc => absurd (hle.2 hc) (by omega))] at hthrough
  unfold vmwFenceWrap
  omega

/-- A seqno is found passed when the device has completed its marker, if it is `Decided`, and
    only then. -/
theorem seqno_passed_iff {first : UInt32} {capFence : Bool} {as : List Act} {t : Markers}
    (h : Runs step StaysNear (start first capFence) as t) (hs : t.history[n]? = some seqno)
    (hn : n < 2 ^ 32 - 2 ^ 24) (idle : Bool) :
    ((vmwSeqnoPassed idle seqno t).1 = true ↔ t.outstanding ≤ n) ↔ Decided idle n seqno t := by
  have hi := runs_inv h
  have hnear := hi.near
  have hd := hi.distance hi.completed (by omega)
  have hk := hi.distance hs (by omega)
  have hle := hi.le_iff hi.completed hs (by omega) (by omega)
  have hfence := subU32_through t.markerSeq t.fence seqno
  rw [passed_iff]
  by_cases hout : n < t.outstanding
  · rw [if_neg (fun hc => absurd (hle.2 hc) (by omega))] at hfence
    rw [iff_false_right (not_le.2 hout)]
    constructor
    · intro hno
      push Not at hno
      exact ⟨fun _ hcap => ⟨by simpa using hno.2.2.1 hcap, hno.1⟩, fun hzero => by omega⟩
    · rintro ⟨hrest, -⟩ (hcached | hnow | ⟨hcap, hidle⟩ | hstale)
      · cases hcap : t.capFence with
        | true =>
          have := hi.cached_outstanding hs hcap hout
          omega
        | false =>
          have := (hrest hout hcap).2
          omega
      · unfold vmwFenceWrap at hnow
        omega
      · rw [(hrest hout hcap).1] at hidle
        cases hidle
      · unfold vmwFenceWrap at hstale
        omega
  · -- only a distance of exactly `2 ^ 24` is missed, by both the second and the last comparison
    rw [if_pos (hle.1 (by omega))] at hfence
    rw [iff_true_right (not_lt.1 hout)]
    constructor
    · intro hpass
      refine ⟨fun h => absurd h hout, ?_⟩
      rintro ⟨hedge, hzero, hcached, hbusy⟩
      have hsame : t.fence = t.markerSeq := by
        have hcompleted := hi.completed
        rw [hzero, hi.newest] at hcompleted
        exact (Option.some.inj hcompleted).symm
      rw [hsame, subU32_self] at hfence
      rcases hpass with hcached' | hnow | ⟨hcap, hidle⟩ | hstale
      · omega
      · rw [hsame] at hnow
        omega
      · rcases hbusy with hbusy | hbusy
        · rw [hcap] at hbusy
          cases hbusy
        · rw [hidle] at hbusy
          cases hbusy
      · omega
    · rintro ⟨-, hno⟩
      by_contra hnone
      push Not at hnone
      obtain ⟨hcached, hnow, hidle, hstale⟩ := hnone
      refine hno ⟨?_, ?_, hcached, ?_⟩
      · omega
      · unfold vmwFenceWrap at *
        omega
      · cases hcap : t.capFence with
        | true => exact .inl rfl
        | false => exact .inr (by simpa using hidle hcap)

end Decision

section Sample

/-- The markers from `first` on, the newest first. -/
def countdown (first : ℕ) : ℕ → List ℕ
  | 0 => [first]
  | n + 1 => (first + (n + 1)) :: countdown first n

def calmState (first n : ℕ) : Markers where
  markerSeq := first + n
  fence := first + n
  lastReadSeqno := first + n
  capFence := true
  history := countdown first n
  outstanding := 0

theorem countdown_last (first n : ℕ) : (countdown first n)[n]? = some first := by
  induction n with
  | zero => rfl
  | succ n ih => exact ih

theorem calmState_next (first n : ℕ) (h : first + n + 1 < 2 ^ 32) :
    next (calmState first n) (.sendFence 1) = calmState first (n + 1) := by
  have hnext : nextSeqno (first + n) = first + (n + 1) := by
    unfold nextSeqno addU32
    split_ifs <;> omega
  have hemit : emitMarker (calmState first n) = { calmState first (n + 1) with
      fence := first + n, lastReadSeqno := first + n, outstanding := 1 } := by
    unfold emitMarker calmState
    dsimp only
    rw [hnext]
    rfl
  change vmwFifoSendFence 1 (calmState first n) = _
  unfold vmwFifoSendFence
  rw [hemit]
  exact vmwUpdateSeqno_eq _

theorem calmState_run (first : UInt32) (n : ℕ) (h : first.toNat + n < 2 ^ 32) :
    ∃ as, Runs step StaysNear (start first true) as (calmState first.toNat n) := by
  induction n with
  | zero => exact ⟨[], .refl _⟩
  | succ n ih =>
    obtain ⟨as, hrun⟩ := ih (by omega)
    have hnext := calmState_next first.toNat n (by omega)
    refine ⟨as ++ [.sendFence 1], hrun.trans (.next ?_ (congrArg some hnext) (.refl _))⟩
    unfold StaysNear Near
    rw [hnext]
    change subU32 (first.toNat + (n + 1)) (first.toNat + (n + 1)) < vmwFenceWrap
    rw [subU32_self]
    norm_num [vmwFenceWrap]

end Sample

/-- The first marker of a run is `2 ^ 24` behind the newest. -/
theorem edge_not_passed :
    ¬ ∀ (first : UInt32) (capFence : Bool) (as : List Act) (t : Markers) (n seqno : ℕ)
      (idle : Bool), Runs step StaysNear (start first capFence) as t →
        t.history[n]? = some seqno → n < 2 ^ 32 - 2 ^ 24 →
        ((vmwSeqnoPassed idle seqno t).1 = true ↔ t.outstanding ≤ n) := by
  intro h
  obtain ⟨as, hrun⟩ := calmState_run 1 (2 ^ 24) (by decide)
  have hpass := (h 1 true as _ (2 ^ 24) 1 true hrun (countdown_last 1 _) (by norm_num)).2
    (Nat.zero_le _)
  rw [passed_iff] at hpass
  have hdist : subU32 (1 + 2 ^ 24) 1 = 2 ^ 24 := by decide
  change subU32 (1 + 2 ^ 24) 1 < vmwFenceWrap ∨ subU32 (1 + 2 ^ 24) 1 < vmwFenceWrap ∨
    (true = false ∧ true = true) ∨ vmwFenceWrap < subU32 (1 + 2 ^ 24) 1 at hpass
  rw [hdist] at hpass
  unfold vmwFenceWrap at hpass
  simp at hpass

/-- The counter wraps around between the two markers. -/
theorem wrapped_passed : ∃ t,
    Runs step StaysNear (start (2 ^ 32 - 2) true) [.sendFence 0, .sendFence 1] t ∧
      ((vmwSeqnoPassed true (2 ^ 32 - 1) t).1 = true ↔ t.outstanding ≤ 1) ∧
      t.markerSeq = 1 ∧ t.outstanding = 1 := by
  have h : Runs step StaysNear (start (2 ^ 32 - 2) true) [.sendFence 0, .sendFence 1] _ :=
    runs_admitted_getD (d := start 0 true) (by decide)
  exact ⟨_, h, (@seqno_passed_iff 1 (2 ^ 32 - 1) _ true _ _ h (by decide) (by norm_num)
    true).2 (by decide), by decide, by decide⟩

end Vmwgfx.SeqnoPassed
