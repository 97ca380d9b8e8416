import Vmwgfx.FifoMachine

set_option autoImplicit false

/-!
# Waiting for FIFO space

`vmw_fifo_is_full` adds the two ends of the ring. That is the free space while the device is
behind the driver; once the driver has wrapped around and the device has not, the sum is larger
than the ring, nothing is full, and `vmw_local_fifo_reserve` goes round its loop without a
wait.
-/
namespace Vmwgfx.FifoFull
open Word32 RingSpan FifoMachine

/-- From `nextCmd` forward to `stop`, or the whole ring. -/
def freeSpace (s : Fifo) : ℕ :=
  if s.stop = s.nextCmd then s.max - s.min else RingSpan.dist s.min s.max s.nextCmd s.stop

/-- The sum of `vmw_fifo_is_full`. -/
def fullSum (s : Fifo) : ℕ := addU32 (subU32 s.max s.nextCmd) (subU32 s.stop s.min)

/-- How a round of the loop in `vmw_local_fifo_reserve` ends: the function returns, the loop
    starts again after a sleep or without one, or the time to sleep is out. -/
inductive Round where
  | returns (r : Option Buffer × Fifo)
  | again (slept : Bool) (s : Fifo)
  | timedOut (s : Fifo)

def Round.Slept : Round → Prop
  | .again true _ | .timedOut _ => True
  | _ => False

/-- `vmw_fifo_wait`: it sleeps when its first check finds the FIFO full. -/
def waitRound (polls : ℕ) (s : Fifo) (bytes : ℕ) : Round :=
  let first := vmwFifoIsFull s bytes
  if first.1 then
    let w := pollFull polls first.2 bytes
    if w.1 then .again true w.2 else .timedOut w.2
  else .again false first.2

/-- One round of `reserveLoop`. -/
def reserveRound (bytes max min nextCmd : ℕ) (vmalloc : Option (ℕ → UInt8)) (polls : ℕ)
    (s : Fifo) : Round :=
  let s := tick s
  let stop := s.stop
  if stop ≤ nextCmd then
    if addU32 nextCmd bytes < max ∨ (addU32 nextCmd bytes = max ∧ min < stop) then
      .returns (takeInPlace s bytes nextCmd vmalloc)
    else
      let r := vmwFifoIsFull s bytes
      if r.1 then waitRound polls r.2 bytes
      else .returns (takeBounce r.2 bytes vmalloc)
  else if addU32 nextCmd bytes < stop then .returns (takeInPlace s bytes nextCmd vmalloc)
  else waitRound polls s bytes

theorem reserveLoop_cons (bytes max min nextCmd : ℕ) (vmalloc : Option (ℕ → UInt8)) (polls : ℕ)
    (waits : List ℕ) (s : Fifo) :
    reserveLoop bytes max min nextCmd vmalloc (polls :: waits) s =
      match reserveRound bytes max min nextCmd vmalloc polls s with
      | .returns r => some r
      | .again _ t => reserveLoop bytes max min nextCmd vmalloc waits t
      | .timedOut t => some (outErr t) := by
  simp only [reserveLoop, reserveRound, waitRound, vmwFifoWait, pollFull]
  split_ifs <;> simp_all

/-- The device rests until the driver has looked at the ring, and then moves as before. -/
def calm (s : Fifo) : Fifo := { s with sched := 0 :: 0 :: 0 :: s.sched }

section Checks
variable {s : Fifo} {bytes : ℕ}

theorem isFull_rest (l : List ℕ) :
    vmwFifoIsFull { s with sched := 0 :: l } bytes =
      (decide (fullSum s ≤ bytes), { s with sched := l }) := rfl

theorem waitRound_full (h : fullSum s ≤ bytes) (polls : ℕ) (l : List ℕ) :
    (waitRound polls { s with sched := 0 :: l } bytes).Slept := by
  unfold waitRound
  rw [isFull_rest]
  dsimp only
  rw [if_pos (decide_eq_true h)]
  split_ifs <;> trivial

theorem waitRound_room (h : bytes < fullSum s) (polls : ℕ) (l : List ℕ) :
    waitRound polls { s with sched := 0 :: l } bytes = .again false { s with sched := l } := by
  unfold waitRound
  rw [isFull_rest]
  dsimp only
  rw [if_neg (by simpa using h)]

theorem reserveRound_behind (h : s.stop ≤ s.nextCmd) (vmalloc : Option (ℕ → UInt8)) (polls : ℕ) :
    reserveRound bytes s.max s.min s.nextCmd vmalloc polls (calm s) =
      if addU32 s.nextCmd bytes < s.max ∨ (addU32 s.nextCmd bytes = s.max ∧ s.min < s.stop) then
        .returns (takeInPlace { s with sched := 0 :: 0 :: s.sched } bytes s.nextCmd vmalloc)
      else if fullSum s ≤ bytes then
        waitRound polls { s with sched := 0 :: s.sched } bytes
      else .returns (takeBounce { s with sched := 0 :: s.sched } bytes vmalloc) := by
  have htick : tick (calm s) = { s with sched := 0 :: 0 :: s.sched } := rfl
  unfold reserveRound
  rw [htick]
  dsimp only
  rw [if_pos h, isFull_rest]
  simp only [decide_eq_true_eq]

theorem reserveRound_ahead (h : s.nextCmd < s.stop) (vmalloc : Option (ℕ → UInt8)) (polls : ℕ) :
    reserveRound bytes s.max s.min s.nextCmd vmalloc polls (calm s) =
      if addU32 s.nextCmd bytes < s.stop then
        .returns (takeInPlace { s with sched := 0 :: 0 :: s.sched } bytes s.nextCmd vmalloc)
      else waitRound polls { s with sched := 0 :: 0 :: s.sched } bytes := by
  have htick : tick (calm s) = { s with sched := 0 :: 0 :: s.sched } := rfl
  unfold reserveRound
  rw [htick]
  dsimp only
  rw [if_neg (by omega)]

end Checks

structure Pointers (s : Fifo) : Prop where
  next : s.min ≤ s.nextCmd ∧ s.nextCmd < s.max
  stop : s.min ≤ s.stop ∧ s.stop < s.max
  word : s.max < 2 ^ 32

section Sums
variable {s : Fifo} {bytes : ℕ}

theorem freeSpace_behind (h : Pointers s) (hs : s.stop ≤ s.nextCmd) :
    freeSpace s = s.max - s.nextCmd + (s.stop - s.min) := by
  have h₁ := h.next
  have h₂ := h.stop
  unfold freeSpace RingSpan.dist
  split_ifs <;> omega

theorem freeSpace_ahead (hs : s.nextCmd < s.stop) : freeSpace s = s.stop - s.nextCmd := by
  unfold freeSpace RingSpan.dist
  rw [if_neg (by omega), if_pos (by omega)]

theorem fullSum_behind (h : Pointers s) (hs : s.stop ≤ s.nextCmd) : fullSum s = freeSpace s := by
  have h₁ := h.next
  have h₂ := h.stop
  have h₃ := h.word
  rw [freeSpace_behind h hs]
  unfold fullSum
  rw [subU32_of_le h₁.2.le h₃, subU32_of_le h₂.1 (by omega), addU32_of_lt (by omega)]

theorem fullSum_ahead (h : Pointers s) (hs : s.nextCmd < s.stop) :
    fullSum s = (s.max - s.min + (s.stop - s.nextCmd)) % 2 ^ 32 := by
  have h₁ := h.next
  have h₂ := h.stop
  have h₃ := h.word
  unfold fullSum
  rw [subU32_of_le h₁.2.le h₃, subU32_of_le h₂.1 (by omega), addU32]
  congr 1
  omega

end Sums

/-- `vmw_fifo_is_full` tells whether the free space is at most `bytes`; a reservation for which
    there is no room sleeps, and the loop never starts again without a sleep. -/
structure WaitsWhenFull (s : Fifo) (bytes : ℕ) : Prop where
  fullIff : (vmwFifoIsFull (calm s) bytes).1 = true ↔ freeSpace s ≤ bytes
  waits : freeSpace s ≤ bytes → ∀ vmalloc polls,
    (reserveRound bytes s.max s.min s.nextCmd vmalloc polls (calm s)).Slept
  noSpin : ∀ vmalloc polls t,
    reserveRound bytes s.max s.min s.nextCmd vmalloc polls (calm s) ≠ .again false t

/-- The device is level or behind, or the request ends before `stop`. The other alternatives
    are about rings of which two do not fit below `2 ^ 32`, where the sums wrap. -/
def Ordered (s : Fifo) (bytes : ℕ) : Prop :=
  if s.stop ≤ s.nextCmd then bytes < freeSpace s ∨ s.nextCmd + bytes < 2 ^ 32
  else if s.max - s.min + (s.stop - s.nextCmd) < 2 ^ 32 then bytes < s.stop - s.nextCmd
  else bytes + 2 ^ 32 < s.max - s.min + (s.stop - s.nextCmd) ∨
    (s.stop - s.nextCmd ≤ bytes ∧ s.nextCmd + bytes < 2 ^ 32)

instance (s : Fifo) (bytes : ℕ) : Decidable (Ordered s bytes) := by
  unfold Ordered
  infer_instance

section Waits
variable {s : Fifo} {bytes : ℕ}

theorem ordered_iff (h : Pointers s) (hsmall : s.max ≤ 2 ^ 31) (hbytes : bytes < s.max - s.min) :
    Ordered s bytes ↔ s.stop ≤ s.nextCmd ∨ bytes < s.stop - s.nextCmd := by
  have h₁ := h.next
  have h₂ := h.stop
  unfold Ordered
  split_ifs <;> omega

theorem round_behind (bytes : ℕ) (h : Pointers s) (hs : s.stop ≤ s.nextCmd)
    (vmalloc : Option (ℕ → UInt8)) (polls : ℕ) :
    (∃ r, reserveRound bytes s.max s.min s.nextCmd vmalloc polls (calm s) = .returns r) ∧
        (bytes < freeSpace s ∨ 2 ^ 32 ≤ s.nextCmd + bytes) ∨
      (reserveRound bytes s.max s.min s.nextCmd vmalloc polls (calm s)).Slept ∧
        freeSpace s ≤ bytes := by
  have hfree := freeSpace_behind h hs
  have h₁ := h.next
  have h₂ := h.stop
  rw [reserveRound_behind hs, fullSum_behind h hs]
  split_ifs with hin hfull
  · refine .inl ⟨⟨_, rfl⟩, ?_⟩
    by_contra hno
    push Not at hno
    rw [addU32_of_lt hno.2] at hin
    omega
  · exact .inr ⟨waitRound_full (by rwa [fullSum_behind h hs]) polls _, hfull⟩
  · exact .inl ⟨⟨_, rfl⟩, .inl (by omega)⟩

/-- Ahead of the driver a request that ends before `stop` is reserved in place, and any other
    goes to `vmw_fifo_wait`. -/
theorem round_ahead_room (hs : s.nextCmd < s.stop) (hin : addU32 s.nextCmd bytes < s.stop)
    (vmalloc : Option (ℕ → UInt8)) (polls : ℕ) :
    ∃ r, reserveRound bytes s.max s.min s.nextCmd vmalloc polls (calm s) = .returns r := by
  rw [reserveRound_ahead hs, if_pos hin]
  exact ⟨_, rfl⟩

theorem round_ahead_sleep (hs : s.nextCmd < s.stop) (hin : s.stop ≤ addU32 s.nextCmd bytes)
    (hfull : fullSum s ≤ bytes) (vmalloc : Option (ℕ → UInt8)) (polls : ℕ) :
    (reserveRound bytes s.max s.min s.nextCmd vmalloc polls (calm s)).Slept := by
  rw [reserveRound_ahead hs, if_neg (by omega)]
  exact waitRound_full hfull polls _

theorem round_ahead_spin (hs : s.nextCmd < s.stop) (hin : s.stop ≤ addU32 s.nextCmd bytes)
    (hroom : bytes < fullSum s) (vmalloc : Option (ℕ → UInt8)) (polls : ℕ) :
    reserveRound bytes s.max s.min s.nextCmd vmalloc polls (calm s) =
      .again false { s with sched := 0 :: s.sched } := by
  rw [reserveRound_ahead hs, if_neg (by omega)]
  exact waitRound_room hroom polls _

theorem not_slept_returns {r : Option Buffer × Fifo} : ¬ (Round.returns r).Slept := id

theorem not_slept_again {t : Fifo} : ¬ (Round.again false t).Slept := id

theorem isFull_calm : (vmwFifoIsFull (calm s) bytes).1 = true ↔ fullSum s ≤ bytes := by
  unfold calm
  rw [isFull_rest]
  exact decide_eq_true_iff

theorem waits_behind_iff (h : Pointers s) (hbytes : bytes < s.max - s.min)
    (hs : s.stop ≤ s.nextCmd) :
    WaitsWhenFull s bytes ↔ bytes < freeSpace s ∨ s.nextCmd + bytes < 2 ^ 32 := by
  have hround := round_behind bytes h hs
  constructor
  · intro hw
    by_contra hno
    push Not at hno
    have hslept := hw.waits hno.1 none 0
    have hwrapped : addU32 s.nextCmd bytes < s.max := by
      have h₁ := h.next
      have h₂ := h.word
      unfold addU32
      omega
    rw [reserveRound_behind hs, if_pos (.inl hwrapped)] at hslept
    exact hslept
  · intro hfits
    refine ⟨by rw [isFull_calm, fullSum_behind h hs], fun hfull vmalloc polls => ?_,
      fun vmalloc polls t ht => ?_⟩
    · rcases hround vmalloc polls with ⟨-, hroom⟩ | ⟨hslept, -⟩
      · omega
      · exact hslept
    · rcases hround vmalloc polls with ⟨⟨r, hr⟩, -⟩ | ⟨hslept, -⟩
      · rw [hr] at ht
        cases ht
      · rw [ht] at hslept
        exact hslept

theorem waits_ahead_iff (h : Pointers s) (hbytes : bytes < s.max - s.min)
    (hs : s.nextCmd < s.stop) :
    WaitsWhenFull s bytes ↔
      (fullSum s ≤ bytes ↔ freeSpace s ≤ bytes) ∧
        (freeSpace s ≤ bytes → s.nextCmd + bytes < 2 ^ 32) := by
  have hfree := freeSpace_ahead hs
  have h₁ := h.next
  have h₂ := h.stop
  have h₃ := h.word
  constructor
  · intro hw
    refine ⟨isFull_calm.symm.trans hw.fullIff, fun hfull => ?_⟩
    by_contra hwrap
    have hin : addU32 s.nextCmd bytes < s.stop := by
      unfold addU32
      omega
    obtain ⟨r, hr⟩ := round_ahead_room hs hin none 0
    have hslept := hw.waits hfull none 0
    rw [hr] at hslept
    exact hslept
  · rintro ⟨hiff, hfits⟩
    have hround : ∀ vmalloc polls,
        (∃ r, reserveRound bytes s.max s.min s.nextCmd vmalloc polls (calm s) = .returns r) ∧
            bytes < freeSpace s ∨
          (reserveRound bytes s.max s.min s.nextCmd vmalloc polls (calm s)).Slept := by
      intro vmalloc polls
      by_cases hfull : freeSpace s ≤ bytes
      · have hin : s.stop ≤ addU32 s.nextCmd bytes := by
          rw [addU32_of_lt (hfits hfull)]
          omega
        exact .inr (round_ahead_sleep hs hin (hiff.2 hfull) vmalloc polls)
      · have hin : addU32 s.nextCmd bytes < s.stop := by
          rw [addU32_of_lt (by omega)]
          omega
        exact .inl ⟨round_ahead_room hs hin vmalloc polls, by omega⟩
    refine ⟨isFull_calm.trans hiff, fun hfull vmalloc polls => ?_, fun vmalloc polls t ht => ?_⟩
    · rcases hround vmalloc polls with ⟨-, hroom⟩ | hslept
      · omega
      · exact hslept
    · rcases hround vmalloc polls with ⟨⟨r, hr⟩, -⟩ | hslept
      · rw [hr] at ht
        cases ht
      · rw [ht] at hslept
        exact hslept

/-- The FIFO is found full when it is, and the loop sleeps whenever it cannot reserve, for the
    pointers of `Ordered` and for no others. -/
theorem waits_when_full_iff (h : Pointers s) (hbytes : bytes < s.max - s.min) :
    WaitsWhenFull s bytes ↔ Ordered s bytes := by
  have h₁ := h.next
  have h₂ := h.stop
  have h₃ := h.word
  unfold Ordered
  by_cases hs : s.stop ≤ s.nextCmd
  · rw [if_pos hs, waits_behind_iff h hbytes hs]
  · have hahead : s.nextCmd < s.stop := not_le.1 hs
    rw [if_neg hs, waits_ahead_iff h hbytes hahead, fullSum_ahead h hahead,
      freeSpace_ahead hahead]
    -- two rings have room below `2 ^ 32`, or the sum wraps once
    split_ifs with hsum
    · rw [Nat.mod_eq_of_lt hsum]
      omega
    · have hmod : (s.max - s.min + (s.stop - s.nextCmd)) % 2 ^ 32 =
          s.max - s.min + (s.stop - s.nextCmd) - 2 ^ 32 := by omega
      rw [hmod]
      omega

/-- Where the condition fails in a FIFO of real size, no number of rounds ends the loop, unless
    the device moves; and no round sleeps. -/
theorem spins (h : Pointers s) (hsmall : s.max ≤ 2 ^ 31) (hbytes : bytes < s.max - s.min)
    (hrest : s.sched = []) (hno : ¬ Ordered s bytes) (vmalloc : Option (ℕ → UInt8))
    (waits : List ℕ) : reserveLoop bytes s.max s.min s.nextCmd vmalloc waits s = none := by
  rw [ordered_iff h hsmall hbytes] at hno
  push Not at hno
  have h₁ := h.next
  have h₂ := h.stop
  have htick : tick s = s := by
    cases s
    subst hrest
    rfl
  have hin : s.stop ≤ addU32 s.nextCmd bytes := by
    rw [addU32_of_lt (by omega)]
    omega
  have hroom : bytes < fullSum s := by
    rw [fullSum_ahead h hno.1, Nat.mod_eq_of_lt (by omega)]
    omega
  induction waits with
  | nil => rfl
  | cons polls waits ih =>
    have hfull : vmwFifoIsFull s bytes = (false, s) := by
      unfold vmwFifoIsFull
      rw [htick]
      exact Prod.ext (decide_eq_false (not_le.2 hroom)) rfl
    have hround : reserveRound bytes s.max s.min s.nextCmd vmalloc polls s = .again false s := by
      unfold reserveRound waitRound
      rw [htick]
      dsimp only
      rw [if_neg (by omega), if_neg (by omega), hfull]
      rfl
    rw [reserveLoop_cons, hround]
    exact ih

end Waits

/-- A page of commands of which the device has one word left, after the driver started again
    at the beginning of the ring. -/
def wrappedFifo (stop : ℕ) : Fifo :=
  { vmwFifoInit ⟨false, 0, 8192, rfl, by decide, by norm_num⟩ true (fun _ => 0) (fun _ => 0) with
    stop := stop }

theorem wrappedFifo_pointers {stop : ℕ} (h : 4096 ≤ stop ∧ stop < 8192) :
    Pointers (wrappedFifo stop) where
  next := (by decide : fifoMin false 0 ≤ fifoMin false 0 ∧ fifoMin false 0 < 8192)
  stop := h
  word := (by decide : 8192 < 2 ^ 32)

theorem wrapped_spins : ¬ WaitsWhenFull (wrappedFifo 4100) 64 := by
  intro h
  refine h.noSpin none 0 { wrappedFifo 4100 with sched := [0] } ?_
  exact round_ahead_spin (by decide) (by decide) (by decide) none 0

theorem wrapped_waits : WaitsWhenFull (wrappedFifo 4096) 64 :=
  (waits_when_full_iff (wrappedFifo_pointers (by omega)) (by decide)).2 (by decide)

end Vmwgfx.FifoFull
