import Vmwgfx.FifoMachine

set_option autoImplicit false

/-!
# The two copies out of the bounce buffer

`vmw_fifo_res_copy` copies two pieces and leaves `SVGA_FIFO_NEXT_CMD` to the commit;
`vmw_fifo_slow_copy` moves it after every word. Both make the same stores in the same order.
`SVGA_FIFO_RESERVED` is set by the first one only, and the commit clears it then.
-/
namespace Vmwgfx.FifoCopies
open Word32 RingSpan FifoMachine

def storeAddr : Event → Option ℕ
  | .store addr _ _ => some addr
  | .nextCmd _ _ _ => none

def stores (s : Fifo) : List ℕ := s.events.filterMap storeAddr

def put (mem : ℕ → UInt8) (ws : List (ℕ × UInt8)) : ℕ → UInt8 :=
  ws.foldl (fun m w => Function.update m w.1 w.2) mem

/-- From `s` to `t` the bytes `ws` are stored, in their order and no others. -/
structure Wrote (ws : List (ℕ × UInt8)) (s t : Fifo) : Prop where
  mem : t.mem = put s.mem ws
  stores : stores t = stores s ++ ws.map Prod.fst
  bounce : t.usingBounceBuffer = s.usingBounceBuffer
  bounds : t.min = s.min ∧ t.max = s.max

variable {s t u : Fifo} {ws vs : List (ℕ × UInt8)}

theorem Wrote.refl (s : Fifo) : Wrote [] s s := ⟨rfl, (List.append_nil _).symm, rfl, rfl, rfl⟩

theorem Wrote.trans (h : Wrote ws s t) (h' : Wrote vs t u) : Wrote (ws ++ vs) s u where
  mem := by
    rw [h'.mem, h.mem, put, put, put, List.foldl_append]
  stores := by
    rw [h'.stores, h.stores, List.map_append, List.append_assoc]
  bounce := h'.bounce.trans h.bounce
  bounds := ⟨h'.bounds.1.trans h.bounds.1, h'.bounds.2.trans h.bounds.2⟩

theorem put_other {mem : ℕ → UInt8} {a : ℕ} (h : ∀ w ∈ ws, w.1 ≠ a) : put mem ws a = mem a := by
  induction ws generalizing mem with
  | nil => rfl
  | cons w ws ih =>
    have hw := h w List.mem_cons_self
    have hrest : ∀ v ∈ ws, v.1 ≠ a := fun v hv => h v (List.mem_cons_of_mem _ hv)
    calc put mem (w :: ws) a = put (Function.update mem w.1 w.2) ws a := rfl
      _ = Function.update mem w.1 w.2 a := ih hrest
      _ = mem a := Function.update_of_ne hw.symm _ _

theorem put_range {mem : ℕ → UInt8} {place : ℕ → ℕ} {data : ℕ → UInt8} {n i : ℕ} (hi : i < n)
    (hinj : ∀ j < n, ∀ k < n, place j = place k → j = k) :
    put mem ((List.range n).map fun j => (place j, data j)) (place i) = data i := by
  induction n with
  | zero => omega
  | succ n ih =>
    have hsnoc : put mem ((List.range (n + 1)).map fun j => (place j, data j)) =
        Function.update (put mem ((List.range n).map fun j => (place j, data j)))
          (place n) (data n) := by
      rw [List.range_succ, List.map_append, put, put, List.foldl_append]
      rfl
    rw [hsnoc]
    by_cases hn : i = n
    · rw [hn, Function.update_self]
    · have hne : place i ≠ place n := fun he => hn (hinj i hi n (by omega) he)
      rw [Function.update_of_ne hne]
      apply ih (by omega)
      intro j hj k hk he
      exact hinj j (by omega) k (by omega) he

theorem deviceRun_wrote (k : ℕ) (s : Fifo) : Wrote [] s (deviceRun k s) := by
  induction k generalizing s with
  | zero => exact Wrote.refl s
  | succ k ih =>
    have hbyte : Wrote [] s (deviceByte s) := by
      unfold deviceByte
      by_cases hempty : s.stop = s.nextCmd
      · rw [if_pos hempty]
        exact Wrote.refl s
      · rw [if_neg hempty]
        exact ⟨rfl, (List.append_nil _).symm, rfl, rfl, rfl⟩
    exact hbyte.trans (ih (deviceByte s))

theorem tick_wrote (s : Fifo) : Wrote [] s (tick s) :=
  have hsched : Wrote [] s { s with sched := s.sched.tail } := ⟨rfl, (List.append_nil _).symm, rfl, rfl, rfl⟩
  hsched.trans (deviceRun_wrote _ _)

theorem storeByte_wrote (s : Fifo) (addr : ℕ) (v : UInt8) :
    Wrote [(addr, v)] s (storeByte s addr v) := by
  have hstore : Wrote [(addr, v)] (tick s) (storeByte s addr v) := by
    refine ⟨rfl, ?_, rfl, rfl, rfl⟩
    simp [stores, storeByte, storeAddr]
  exact (tick_wrote s).trans hstore

theorem writeNextCmd_wrote (s : Fifo) (v : ℕ) : Wrote [] s (writeNextCmd s v) := by
  have hwrite : Wrote [] (tick s) (writeNextCmd s v) := by
    refine ⟨rfl, ?_, rfl, rfl, rfl⟩
    simp [stores, writeNextCmd, storeAddr]
  exact (tick_wrote s).trans hwrite

theorem memcpy_wrote (buffer : ℕ → UInt8) (n dst src : ℕ) (s : Fifo) :
    Wrote ((List.range n).map fun i => (dst + i, buffer (src + i))) s
      (memcpy buffer n dst src s) := by
  induction n generalizing dst src s with
  | zero => exact Wrote.refl s
  | succ n ih =>
    have hrange : ((List.range (n + 1)).map fun i => (dst + i, buffer (src + i))) =
        [(dst, buffer src)] ++
          (List.range n).map fun i => (dst + 1 + i, buffer (src + 1 + i)) := by
      rw [List.range_succ_eq_map, List.map_cons, List.map_map]
      simp only [List.singleton_append, List.cons.injEq]
      refine ⟨rfl, List.map_congr_left fun i _ => ?_⟩
      simp only [Function.comp_apply, Nat.succ_eq_add_one]
      rw [add_assoc, add_assoc, add_comm 1 i]
    rw [hrange]
    exact (storeByte_wrote s dst (buffer src)).trans (ih (dst + 1) (src + 1) _)

/-- The registers as the commit reads them: word aligned, and a position of the ring. -/
structure Registers (s : Fifo) : Prop where
  minAligned : s.min % 4 = 0
  maxAligned : s.max % 4 = 0
  nextAligned : s.nextCmd % 4 = 0
  next : s.min ≤ s.nextCmd ∧ s.nextCmd < s.max
  word : s.max < 2 ^ 32

/-- The bytes of a buffer from `src` on, at the places from `p` on. -/
def placed (lo hi p : ℕ) (buffer : ℕ → UInt8) (src n : ℕ) : List (ℕ × UInt8) :=
  (List.range n).map fun i => (move lo hi p i, buffer (src + i))

theorem placed_add {lo hi p m n src : ℕ} (buffer : ℕ → UInt8) (hp : lo ≤ p ∧ p < hi)
    (h : m + n < hi - lo) :
    placed lo hi p buffer src (m + n) =
      placed lo hi p buffer src m ++ placed lo hi (move lo hi p m) buffer (src + m) n := by
  unfold placed
  rw [List.range_add, List.map_append, List.map_map]
  congr 1
  refine List.map_congr_left fun i hi' => ?_
  have := List.mem_range.1 hi'
  rw [Function.comp_apply, move_move hp (by omega), add_assoc]

theorem memcpy_placed {lo hi p n dst src from' : ℕ} (buffer : ℕ → UInt8) (s : Fifo)
    (hp : lo ≤ p ∧ p + n ≤ hi) (hdst : dst = p) (hsrc : from' = src) :
    Wrote (placed lo hi p buffer src n) s (memcpy buffer n dst from' s) := by
  subst hdst hsrc
  have hlist : placed lo hi dst buffer from' n =
      (List.range n).map fun i => (dst + i, buffer (from' + i)) := by
    refine List.map_congr_left fun i hi' => ?_
    have := List.mem_range.1 hi'
    rw [move_below lo (by omega)]
  rw [hlist]
  exact memcpy_wrote buffer n dst from' s

section Copies
variable {bytes : ℕ}

theorem vmwFifoResCopy_wrote (h : Registers s) (h4 : bytes % 4 = 0) (hlt : bytes < s.max - s.min) :
    Wrote (placed s.min s.max s.nextCmd (bounceBuffer s) 0 bytes) s
      (vmwFifoResCopy s s.nextCmd s.max s.min bytes) := by
  have h₁ := h.next
  have h₂ := h.minAligned
  have h₃ := h.maxAligned
  have h₄ := h.nextAligned
  have h₅ := h.word
  have hchunk : subU32 s.max s.nextCmd = s.max - s.nextCmd := subU32_of_le (by omega) h₅
  have hreserved : Wrote [] s { s with reserved := bytes } :=
    ⟨rfl, (List.append_nil _).symm, rfl, rfl, rfl⟩
  unfold vmwFifoResCopy
  rw [hchunk]
  by_cases hc : bytes < s.max - s.nextCmd
  · simp only [if_pos hc, subU32_self, ne_eq, not_true_eq_false, if_false]
    exact hreserved.trans (memcpy_placed _ _ ⟨h₁.1, by omega⟩ (by omega) rfl)
  · -- the first piece ends where the ring does, the second one may be empty
    obtain ⟨rest, rfl⟩ : ∃ rest, bytes = s.max - s.nextCmd + rest :=
      ⟨bytes - (s.max - s.nextCmd), by omega⟩
    have hrest : subU32 (s.max - s.nextCmd + rest) (s.max - s.nextCmd) = rest := by
      rw [subU32_of_le (by omega) (by omega), Nat.add_sub_cancel_left]
    have hstart : move s.min s.max s.nextCmd (s.max - s.nextCmd) = s.min := by
      rw [move_beyond h₁ le_rfl, Nat.sub_self, Nat.add_zero]
    have hfirst : Wrote (placed s.min s.max s.nextCmd (bounceBuffer s) 0 (s.max - s.nextCmd)) s
        (memcpy (bounceBuffer s) (s.max - s.nextCmd) (s.nextCmd / 4 * 4) 0
          { s with reserved := s.max - s.nextCmd + rest }) :=
      hreserved.trans (memcpy_placed _ _ ⟨h₁.1, by omega⟩ (by omega) rfl)
    rw [placed_add _ h₁ hlt, hstart]
    simp only [if_neg hc, hrest]
    by_cases hz : rest = 0
    · subst hz
      rw [if_neg (by omega)]
      exact hfirst.trans (Wrote.refl _)
    · rw [if_pos hz]
      exact hfirst.trans (memcpy_placed _ _ ⟨le_rfl, by omega⟩ (by omega) (by omega))

theorem next_word {lo hi p : ℕ} (hp : lo ≤ p ∧ p < hi) (hhi : hi < 2 ^ 32) (h₁ : p % 4 = 0)
    (h₂ : hi % 4 = 0) : (if addU32 p 4 = hi then lo else addU32 p 4) = move lo hi p 4 := by
  unfold move
  by_cases hend : p + 4 = hi
  · have hadd : addU32 p 4 = p + 4 := addU32_of_lt (by omega)
    rw [hadd, if_pos hend, if_neg (by omega)]
    omega
  · rw [addU32_of_lt (by omega), if_neg hend, if_pos (by omega)]

theorem slowLoop_wrote (buffer : ℕ → UInt8) {lo hi p : ℕ} (words src : ℕ) (s : Fifo)
    (hp : lo ≤ p ∧ p < hi) (hhi : hi < 2 ^ 32) (hlo : lo % 4 = 0) (h₁ : p % 4 = 0)
    (h₂ : hi % 4 = 0) (hw : 4 * words < hi - lo) (hnext : s.nextCmd = p) :
    Wrote (placed lo hi p buffer src (4 * words)) s
        (vmwFifoSlowCopy buffer hi lo words p src s) ∧
      (vmwFifoSlowCopy buffer hi lo words p src s).nextCmd = move lo hi p (4 * words) := by
  induction words generalizing p src s with
  | zero => exact ⟨Wrote.refl s, hnext.trans (move_zero hp.2).symm⟩
  | succ words ih =>
    have hsplit : 4 * (words + 1) = 4 + 4 * words := by omega
    have hmem : lo ≤ move lo hi p 4 ∧ move lo hi p 4 < hi := move_mem hp (by omega)
    have haligned : move lo hi p 4 % 4 = 0 := by
      unfold move
      split_ifs <;> omega
    have hcopy : Wrote (placed lo hi p buffer src 4) s (memcpy buffer 4 (p / 4 * 4) src s) :=
      memcpy_placed buffer s ⟨hp.1, by omega⟩ (by omega) rfl
    have hword := hcopy.trans (writeNextCmd_wrote _ (move lo hi p 4))
    rw [List.append_nil] at hword
    obtain ⟨hrest, hend⟩ := ih (src + 4)
      (writeNextCmd (memcpy buffer 4 (p / 4 * 4) src s) (move lo hi p 4)) hmem haligned
      (by omega) rfl
    rw [vmwFifoSlowCopy, next_word hp hhi h₁ h₂, hsplit, placed_add buffer hp (by omega)]
    refine ⟨hword.trans hrest, ?_⟩
    rw [hend, move_move hp (by omega)]

/-- `vmw_fifo_res_copy` and the update of `SVGA_FIFO_NEXT_CMD`. -/
def resCommit (s : Fifo) (bytes : ℕ) : Fifo :=
  publish (vmwFifoResCopy s s.nextCmd s.max s.min bytes) s.nextCmd s.max s.min bytes

/-- `vmw_fifo_slow_copy` and the update of `SVGA_FIFO_NEXT_CMD`. -/
def slowCommit (s : Fifo) (bytes : ℕ) : Fifo :=
  publish (vmwFifoSlowCopy (bounceBuffer s) s.max s.min (bytes / 4) s.nextCmd 0 s)
    s.nextCmd s.max s.min bytes

/-- The value of `SVGA_FIFO_NEXT_CMD` that a commit writes. -/
def published (s : Fifo) (bytes : ℕ) : ℕ :=
  let nextCmd := addU32 s.nextCmd bytes
  if s.max ≤ nextCmd then subU32 nextCmd (subU32 s.max s.min) else nextCmd

theorem publish_wrote (s : Fifo) (bytes : ℕ) (hb : t.usingBounceBuffer = true) :
    Wrote [] t (publish t s.nextCmd s.max s.min bytes) ∧
      (publish t s.nextCmd s.max s.min bytes).nextCmd = published s bytes := by
  have hgo : publish t s.nextCmd s.max s.min bytes = writeNextCmd t (published s bytes) :=
    if_pos (.inl hb)
  rw [hgo]
  exact ⟨writeNextCmd_wrote t _, rfl⟩

theorem published_eq (h : Registers s) (hsum : s.nextCmd + bytes < 2 ^ 32) :
    published s bytes = move s.min s.max s.nextCmd bytes := by
  have h₁ := h.next
  have h₂ := h.word
  have hring : subU32 s.max s.min = s.max - s.min := subU32_of_le (by omega) h₂
  unfold published move
  rw [addU32_of_lt hsum, hring]
  by_cases hwrap : s.max ≤ s.nextCmd + bytes
  · rw [if_pos hwrap, if_neg (by omega), subU32_of_le (by omega) hsum]
  · rw [if_neg hwrap, if_pos (by omega)]

theorem move_injOn {lo hi p n : ℕ} (hn : n < hi - lo) :
    ∀ j < n, ∀ k < n, move lo hi p j = move lo hi p k → j = k := by
  intro j hj k hk he
  unfold move at he
  split_ifs at he <;> omega

/-- The bytes of the bounce buffer are on the ring from `nextCmd` on, and nothing else is
    stored. -/
structure Copied (s t : Fifo) (bytes : ℕ) : Prop where
  stores : stores t = stores s ++ (List.range bytes).map (move s.min s.max s.nextCmd)
  data : ∀ i < bytes, t.mem (move s.min s.max s.nextCmd i) = bounceBuffer s i
  rest : ∀ a, (∀ i < bytes, move s.min s.max s.nextCmd i ≠ a) → t.mem a = s.mem a

theorem Wrote.copied (hlt : bytes < s.max - s.min)
    (hw : Wrote (placed s.min s.max s.nextCmd (bounceBuffer s) 0 bytes) s t) :
    Copied s t bytes where
  stores := by
    rw [hw.stores, placed, List.map_map]
    rfl
  data i hi := by
    rw [hw.mem, placed]
    simp only [zero_add]
    exact put_range hi (move_injOn hlt)
  rest a ha := by
    rw [hw.mem]
    apply put_other
    intro w hmem
    obtain ⟨i, hi, rfl⟩ := List.mem_map.1 hmem
    exact ha i (List.mem_range.1 hi)

theorem slowCopy_spec (h : Registers s) (h4 : bytes % 4 = 0) (hlt : bytes < s.max - s.min) :
    Wrote (placed s.min s.max s.nextCmd (bounceBuffer s) 0 bytes) s
        (vmwFifoSlowCopy (bounceBuffer s) s.max s.min (bytes / 4) s.nextCmd 0 s) ∧
      (vmwFifoSlowCopy (bounceBuffer s) s.max s.min (bytes / 4) s.nextCmd 0 s).nextCmd =
        move s.min s.max s.nextCmd bytes := by
  have hwords : 4 * (bytes / 4) = bytes := by omega
  have hloop := slowLoop_wrote (bounceBuffer s) (bytes / 4) 0 s h.next h.word h.minAligned
    h.nextAligned h.maxAligned (by omega) rfl
  rwa [hwords] at hloop

/-- The two copies, each with the update, store the same and end at the same place. -/
theorem copies_agree (h : Registers s) (h4 : bytes % 4 = 0) (hlt : bytes < s.max - s.min)
    (hb : s.usingBounceBuffer = true) :
    (resCommit s bytes).mem = (slowCommit s bytes).mem ∧
      (resCommit s bytes).nextCmd = (slowCommit s bytes).nextCmd ∧
      Copied s (resCommit s bytes) bytes ∧ Copied s (slowCommit s bytes) bytes ∧
      (s.nextCmd + bytes < 2 ^ 32 →
        (resCommit s bytes).nextCmd = move s.min s.max s.nextCmd bytes) := by
  have hres := vmwFifoResCopy_wrote h h4 hlt
  have hslow := (slowCopy_spec h h4 hlt).1
  obtain ⟨hpub, hend⟩ := publish_wrote s bytes (hres.bounce.trans hb)
  obtain ⟨hpub', hend'⟩ := publish_wrote s bytes (hslow.bounce.trans hb)
  have hall := hres.trans hpub
  have hall' := hslow.trans hpub'
  rw [List.append_nil] at hall hall'
  refine ⟨hall.mem.trans hall'.mem.symm, hend.trans hend'.symm, hall.copied hlt,
    hall'.copied hlt, fun hsum => ?_⟩
  exact hend.trans (published_eq h hsum)

/-- On a ring of 64 bytes eight bytes fill the last word and the first one. -/
def wrapping : Fifo :=
  { vmwFifoInit ⟨false, 0, 4160, by decide, by decide, by decide⟩ false (fun _ => 0)
      (fun i => UInt8.ofNat (i + 1)) with
    nextCmd := 4156, stop := 4156, reservedSize := 8, usingBounceBuffer := true }

theorem wrapping_agrees :
    (resCommit wrapping 8).nextCmd = (slowCommit wrapping 8).nextCmd ∧
      (resCommit wrapping 8).mem 4099 = 8 ∧ (slowCommit wrapping 8).mem 4099 = 8 := by
  have hregs : Registers wrapping := ⟨rfl, rfl, rfl, by decide, by decide⟩
  obtain ⟨-, hnext, hres, hslow, -⟩ := copies_agree hregs (show 8 % 4 = 0 from rfl)
    (by decide) rfl
  exact ⟨hnext, hres.data 7 (by decide), hslow.data 7 (by decide)⟩

theorem commit_copied (h : Registers s) (h4 : bytes % 4 = 0) (hlt : bytes < s.max - s.min)
    (hb : s.usingBounceBuffer = true) (hdx : s.dx = false) (hsize : bytes ≤ s.reservedSize) :
    ∃ t, vmwLocalFifoCommit s bytes = some t ∧ Copied s t bytes ∧
      t.nextCmd = published s bytes := by
  let s₀ : Fifo := { s with dx := false, reservedSize := 0 }
  let copy := if s.reserveable then vmwFifoResCopy s₀ s.nextCmd s.max s.min bytes
    else vmwFifoSlowCopy (bounceBuffer s₀) s.max s.min (bytes / 4) s.nextCmd 0 s₀
  let t : Fifo := { copy with dynamicBuffer := none }
  have h₀ : Registers s₀ := ⟨h.minAligned, h.maxAligned, h.nextAligned, h.next, h.word⟩
  have hcopy : Wrote (placed s.min s.max s.nextCmd (bounceBuffer s) 0 bytes) s₀ copy := by
    unfold copy
    cases s.reserveable with
    | true => exact vmwFifoResCopy_wrote h₀ h4 hlt
    | false => exact (slowCopy_spec h₀ h4 hlt).1
  have hfree : Wrote [] copy t := ⟨rfl, (List.append_nil _).symm, rfl, rfl, rfl⟩
  obtain ⟨hpub, hend⟩ := publish_wrote s bytes
    ((hcopy.trans hfree).bounce.trans hb)
  have hall := (hcopy.trans hfree).trans hpub
  rw [List.append_nil, List.append_nil] at hall
  have hcommit : vmwLocalFifoCommit s bytes =
      some (release (publish t s.nextCmd s.max s.min bytes)) := by
    have hcond : ¬ (bytes % 4 ≠ 0 ∨ s.reservedSize < bytes) := by omega
    have hgo : unbounce s₀ s.nextCmd s.max s.min bytes = t := if_pos hb
    have hrun : vmwLocalFifoCommit s bytes =
        some (release (publish t s.nextCmd t.max t.min bytes)) := by
      unfold vmwLocalFifoCommit
      simp only [hdx, Bool.false_eq_true, if_false]
      rw [if_neg hcond, ← hgo]
    rw [hrun, (hcopy.trans hfree).bounds.1, (hcopy.trans hfree).bounds.2]
  refine ⟨_, hcommit, ?_, hend⟩
  exact Wrote.copied hlt ⟨hall.mem, hall.stores, hall.bounce, hall.bounds⟩

end Copies

end Vmwgfx.FifoCopies
