import Vmwgfx.FifoSpace

set_option autoImplicit false

/-!
# The FIFO calls

One specification for each of the copies and for the reserve and commit calls.
-/
namespace Vmwgfx.FifoCalls
open Word32 RingSpan FifoMachine FifoSpace

/-- The part of the state that the ring's geometry and queue depend on. -/
def ring (s : Fifo) :=
  (s.min, s.max, s.nextCmd, s.stop, s.mem, s.consumed, s.events)

theorem RingStep.of_ring {s s' t t' : Fifo} {k : ℕ} {d : List UInt8} (h : RingStep s t k d)
    (hs : ring s' = ring s) (ht : ring t' = ring t) : RingStep s' t' k d := by
  simp only [ring, Prod.mk.injEq] at hs ht
  obtain ⟨a₁, a₂, a₃, a₄, a₅, a₆, a₇⟩ := hs
  obtain ⟨b₁, b₂, b₃, b₄, b₅, b₆, b₇⟩ := ht
  have hg := h.geo
  refine ⟨by rw [b₁, a₁, h.min_eq], by rw [b₂, a₂, h.max_eq], ?_, ?_, ?_, ?_, ?_⟩
  · exact ⟨b₁ ▸ hg.minAligned, b₂ ▸ hg.maxAligned, b₂ ▸ hg.bounded,
      b₁ ▸ b₂ ▸ b₃ ▸ hg.next, b₃ ▸ hg.nextAligned, b₁ ▸ b₂ ▸ b₄ ▸ hg.stop⟩
  · rw [b₃, h.next_eq, a₁, a₂, a₃]
  · simpa only [used, a₁, a₂, a₃, a₄, b₁, b₂, b₃, b₄] using h.used_le
  · simpa only [queue, a₁, a₂, a₃, a₄, a₅, a₆, b₁, b₂, b₃, b₄, b₅, b₆] using h.queue_eq
  · simpa only [Safe, a₁, a₂, a₇, b₁, b₂, b₇] using h.safe

theorem Geo.of_ring {s t : Fifo} (h : Geo s) (ht : ring t = ring s) : Geo t :=
  (RingStep.of_ring (RingStep.refl h) rfl ht).geo

theorem memcpy_spec (buffer : ℕ → UInt8) (n dst src : ℕ) {s : Fifo} (h : Geo s) {i : ℕ}
    (hd : ∀ j < n, dst + j = move s.min s.max s.nextCmd (i + j))
    (hi : used s + (i + n) ≤ s.max - s.min) :
    RingStep s (memcpy buffer n dst src s) 0 [] ∧ Frame s (memcpy buffer n dst src s) ∧
      ∀ a, (memcpy buffer n dst src s).mem a =
        if dst ≤ a ∧ a < dst + n then buffer (src + (a - dst)) else s.mem a := by
  induction n generalizing dst src s i with
  | zero =>
    refine ⟨RingStep.refl h, Frame.refl s, ?_⟩
    intro a
    rw [if_neg (by omega)]
    rfl
  | succ n ih =>
    obtain ⟨hr, hf, hm⟩ := storeByte_spec h (buffer src) (by simpa using hd 0 (by omega))
      (show used s + i < s.max - s.min by omega)
    have hused := hr.used_le
    have hnext : (storeByte s dst (buffer src)).nextCmd = s.nextCmd := by
      rw [hr.next_eq, move_zero h.next.2]
    obtain ⟨hr', hf', hm'⟩ := ih (dst + 1) (src + 1) (s := storeByte s dst (buffer src))
      (i := i + 1) hr.geo
      (by
        intro j hj
        rw [hr.min_eq, hr.max_eq, hnext, add_assoc, add_assoc, hd (1 + j) (by omega)])
      (by rw [hr.min_eq, hr.max_eq]; omega)
    refine ⟨hr.after h hr' (by have := h.next; omega), hf.trans hf', ?_⟩
    intro a
    refine (hm' a).trans ?_
    rw [hm, Function.update_apply]
    by_cases ha : a = dst
    · subst ha
      simp
    · rw [if_neg ha]
      by_cases hc : dst + 1 ≤ a ∧ a < dst + 1 + n
      · rw [if_pos hc, if_pos (by omega)]
        congr 1
        omega
      · rw [if_neg hc, if_neg (by omega)]

theorem word_places {s : Fifo} (h : Geo s) :
    s.nextCmd + 4 ≤ s.max ∧ (∀ j < 4, s.nextCmd / 4 * 4 + j = move s.min s.max s.nextCmd j) ∧
      (if addU32 s.nextCmd 4 = s.max then s.min else addU32 s.nextCmd 4) =
        move s.min s.max s.nextCmd 4 := by
  have h₁ := h.next
  have h₂ := h.nextAligned
  have h₃ := h.maxAligned
  have h₄ := h.bounded
  have hroom : s.nextCmd + 4 ≤ s.max := by omega
  refine ⟨hroom, ?_, ?_⟩
  · intro j hj
    unfold move
    split_ifs <;> omega
  · rw [addU32_of_lt (by omega)]
    unfold move
    split_ifs <;> omega

theorem vmwFifoSlowCopy_spec (buffer : ℕ → UInt8) (words src : ℕ) {s : Fifo} (h : Geo s)
    (hw : used s + 4 * words < s.max - s.min) :
    RingStep s (vmwFifoSlowCopy buffer s.max s.min words s.nextCmd src s) (4 * words)
        ((List.range (4 * words)).map fun i => buffer (src + i)) ∧
      Frame s (vmwFifoSlowCopy buffer s.max s.min words s.nextCmd src s) := by
  induction words generalizing src s with
  | zero => exact ⟨RingStep.refl h, Frame.refl s⟩
  | succ words ih =>
    obtain ⟨hroom, hplaces, hnext⟩ := word_places h
    obtain ⟨hr, hf, hm⟩ := memcpy_spec buffer 4 (s.nextCmd / 4 * 4) src h (i := 0)
      (by simpa using hplaces) (by omega)
    set u := memcpy buffer 4 (s.nextCmd / 4 * 4) src s with hu
    have hun : u.nextCmd = s.nextCmd := by rw [hr.next_eq, move_zero h.next.2]
    have hused := hr.used_le
    obtain ⟨hr', hf'⟩ := writeNextCmd_spec hr.geo (k := 4) (v := move s.min s.max s.nextCmd 4)
      (by rw [hr.min_eq, hr.max_eq, hun]) (by rw [hr.min_eq, hr.max_eq]; omega) (by norm_num)
    set v := writeNextCmd u (move s.min s.max s.nextCmd 4) with hv
    have hword : ((List.range 4).map fun i => u.mem (move u.min u.max u.nextCmd i)) =
        (List.range 4).map fun i => buffer (src + i) := by
      refine List.map_congr_left ?_
      intro i hi
      have hi' := List.mem_range.1 hi
      rw [hr.min_eq, hr.max_eq, hun, ← hplaces i hi', hm, if_pos (by omega)]
      congr 2
      omega
    rw [hword] at hr'
    have hstep : RingStep s v 4 ((List.range 4).map fun i => buffer (src + i)) :=
      hr.after h hr' (by omega)
    have hused' := hstep.used_le
    obtain ⟨hr'', hf''⟩ := ih (src + 4) (s := v) hstep.geo
      (by rw [hstep.min_eq, hstep.max_eq]; omega)
    have hgo : vmwFifoSlowCopy buffer s.max s.min (words + 1) s.nextCmd src s =
        vmwFifoSlowCopy buffer v.max v.min words v.nextCmd (src + 4) v := by
      rw [vmwFifoSlowCopy, hnext, ← hu, ← hv, hstep.min_eq, hstep.max_eq, hstep.next_eq]
    rw [hgo]
    refine ⟨?_, (hf.trans hf').trans hf''⟩
    have hall := hstep.trans h hr'' (by omega)
    have hlen : 4 * (words + 1) = 4 + 4 * words := by ring
    rw [hlen, List.range_add, List.map_append, List.map_map]
    simpa only [Function.comp_def, add_assoc] using hall

theorem firstPiece_spec {s : Fifo} (h : Geo s) (bytes : ℕ) {n : ℕ} (hn : n ≤ s.max - s.nextCmd)
    (hfree : used s + n ≤ s.max - s.min) {u : Fifo}
    (hu : u = memcpy (bounceBuffer s) n (s.nextCmd / 4 * 4) 0 { s with reserved := bytes }) :
    RingStep s u 0 [] ∧ Frame { s with reserved := bytes } u ∧
      ∀ a, u.mem a =
        if s.nextCmd ≤ a ∧ a < s.nextCmd + n then bounceBuffer s (a - s.nextCmd) else s.mem a := by
  have hnext := h.nextAligned
  have hplace : s.nextCmd / 4 * 4 = s.nextCmd := by omega
  have hgeo : Geo { s with reserved := bytes } :=
    ⟨h.minAligned, h.maxAligned, h.bounded, h.next, h.nextAligned, h.stop⟩
  have hfirst : RingStep s { s with reserved := bytes } 0 [] :=
    RingStep.of_ring (RingStep.refl h) rfl rfl
  obtain ⟨hs, hf, hm⟩ := memcpy_spec (bounceBuffer s) n (s.nextCmd / 4 * 4) 0 hgeo (i := 0)
    (by
      intro j hj
      change _ = move s.min s.max s.nextCmd (0 + j)
      rw [zero_add, move_below s.min (by omega), hplace])
    (by change used s + _ ≤ s.max - s.min; omega)
  rw [hu]
  refine ⟨hfirst.after h hs (by have := h.next; omega), hf, fun a => ?_⟩
  rw [hm, hplace, zero_add]

theorem vmwFifoResCopy_spec {s : Fifo} (h : Geo s) {bytes : ℕ} (h4 : bytes % 4 = 0)
    (hb : used s + bytes < s.max - s.min) :
    RingStep s (vmwFifoResCopy s s.nextCmd s.max s.min bytes) 0 [] ∧
      Frame { s with reserved := bytes } (vmwFifoResCopy s s.nextCmd s.max s.min bytes) ∧
      ∀ i < bytes, (vmwFifoResCopy s s.nextCmd s.max s.min bytes).mem
        (move s.min s.max s.nextCmd i) = bounceBuffer s i := by
  have h₁ := h.next
  have h₂ := h.nextAligned
  have h₃ := h.maxAligned
  have h₄ := h.bounded
  have h₅ := h.minAligned
  have hchunk : subU32 s.max s.nextCmd = s.max - s.nextCmd := subU32_of_le (by omega) (by omega)
  simp only [vmwFifoResCopy, hchunk]
  by_cases hc : bytes < s.max - s.nextCmd
  · obtain ⟨hs, hf, hm⟩ := firstPiece_spec h bytes (n := bytes) (by omega) (by omega) rfl
    simp only [if_pos hc, subU32_self, ne_eq, not_true_eq_false, if_false]
    refine ⟨hs, hf, fun i hi => ?_⟩
    rw [hm, move_below s.min (by omega), if_pos (by omega), Nat.add_sub_cancel_left]
  · have hrest : subU32 bytes (s.max - s.nextCmd) = bytes - (s.max - s.nextCmd) :=
      subU32_of_le (by omega) (by omega)
    simp only [if_neg hc, hrest]
    set u := memcpy (bounceBuffer s) (s.max - s.nextCmd) (s.nextCmd / 4 * 4) 0
      { s with reserved := bytes } with hu
    obtain ⟨hs, hf, hm⟩ := firstPiece_spec h bytes le_rfl (by omega) hu
    by_cases hz : bytes - (s.max - s.nextCmd) = 0
    · rw [if_neg (by omega)]
      refine ⟨hs, hf, fun i hi => ?_⟩
      rw [hm, move_below s.min (by omega), if_pos (by omega), Nat.add_sub_cancel_left]
    · rw [if_pos hz]
      have hun : u.nextCmd = s.nextCmd := by rw [hs.next_eq, move_zero h₁.2]
      have hused := hs.used_le
      obtain ⟨hs', hf', hm'⟩ := memcpy_spec (bounceBuffer s) (bytes - (s.max - s.nextCmd))
        (s.min / 4 * 4) ((s.max - s.nextCmd) / 4 * 4) hs.geo (i := s.max - s.nextCmd)
        (by
          intro j hj
          rw [hs.min_eq, hs.max_eq, hun, move_beyond h₁ (by omega)]
          omega)
        (by rw [hs.min_eq, hs.max_eq]; omega)
      refine ⟨hs.after h hs' (by omega), hf.trans hf', fun i hi => ?_⟩
      rw [hm']
      by_cases hlt : i < s.max - s.nextCmd
      · -- the first piece is not touched again: the span in between is not empty
        have hstop := h.stop
        have hnot : ¬ (s.min / 4 * 4 ≤ s.nextCmd + i ∧
            s.nextCmd + i < s.min / 4 * 4 + (bytes - (s.max - s.nextCmd))) := by
          have := hb
          unfold used RingSpan.dist at this
          split_ifs at this <;> omega
        rw [move_below s.min (by omega), if_neg hnot, hm, if_pos (by omega),
          Nat.add_sub_cancel_left]
      · rw [move_beyond h₁ (by omega), if_pos (by omega)]
        congr 1
        omega

/-- What a caller that holds `p` may rely on; without a pointer nothing is reserved. -/
def Place : Option Buffer → Fifo → Prop
  | none, s => s.reservedSize = 0 ∧ s.dynamicBuffer = none
  | some (.fifo addr), s =>
    used s + s.reservedSize < s.max - s.min ∧ addr = s.nextCmd ∧
      s.nextCmd + s.reservedSize ≤ s.max ∧ s.usingBounceBuffer = false ∧ s.dynamicBuffer = none
  | some .static, s =>
    used s + s.reservedSize < s.max - s.min ∧ s.usingBounceBuffer = true ∧ s.dynamicBuffer = none
  | some .dynamic, s =>
    used s + s.reservedSize < s.max - s.min ∧ s.usingBounceBuffer = true ∧
      s.dynamicBuffer.isSome

theorem Place.congr {p : Option Buffer} {s t : Fifo} (h : Place p s) (hr : ring t = ring s)
    (hd : (t.reservedSize, t.usingBounceBuffer, t.dynamicBuffer) =
      (s.reservedSize, s.usingBounceBuffer, s.dynamicBuffer)) : Place p t := by
  simp only [ring, Prod.mk.injEq] at hr hd
  obtain ⟨hmin, hmax, hnext, hstop, _⟩ := hr
  obtain ⟨hsize, hbounce, hdyn⟩ := hd
  have hused : used t = used s := by simp only [used, hmin, hmax, hnext, hstop]
  rcases p with _ | _ | _ | _ <;>
    simpa only [Place, hmin, hmax, hnext, hused, hsize, hbounce, hdyn] using h

theorem vmwFifoIsFull_spec {s : Fifo} (h : Geo s) (bytes : ℕ) :
    (vmwFifoIsFull s bytes).2 = tick s ∧
      ((vmwFifoIsFull s bytes).1 = true ↔
        s.max - s.nextCmd + ((tick s).stop - s.min) ≤ bytes) := by
  obtain ⟨hr, hf, hm⟩ := tick_spec h
  have h₁ := h.next
  have h₂ := hr.geo.stop
  have h₃ := h.bounded
  have hmin := hr.min_eq
  have hmax := hr.max_eq
  refine ⟨rfl, ?_⟩
  simp only [vmwFifoIsFull, decide_eq_true_eq, tick_next h, hmin, hmax]
  rw [subU32_of_le (by omega) (by omega), subU32_of_le (by omega) (by omega),
    addU32_of_lt (by omega)]

theorem pollFull_spec (n : ℕ) {s : Fifo} (h : Geo s) (bytes : ℕ) :
    RingStep s (pollFull n s bytes).2 0 [] ∧ Frame s (pollFull n s bytes).2 := by
  induction n generalizing s with
  | zero => exact ⟨RingStep.refl h, Frame.refl s⟩
  | succ n ih =>
    obtain ⟨hr, hf, _⟩ := tick_spec h
    have hfull := (vmwFifoIsFull_spec h bytes).1
    simp only [pollFull, hfull]
    split_ifs
    · obtain ⟨hr', hf'⟩ := ih hr.geo
      exact ⟨hr.after h hr' (by have := h.next; omega), hf.trans hf'⟩
    · exact ⟨hr, hf⟩

/-- What is known of a reserve call that returns `r` in state `t`. -/
structure Granted (s : Fifo) (r : Option Buffer) (t : Fifo) : Prop where
  ring : RingStep s t 0 []
  place : Place r t
  dx_eq : t.dx = s.dx
  committed_eq : t.committed = s.committed
  reserveable_eq : t.reserveable = s.reserveable
  lock_eq : t.locked = r.isSome

theorem outErr_granted {s : Fifo} (h : Geo s) (hd : s.dynamicBuffer = none) :
    Granted s (outErr s).1 (outErr s).2 :=
  ⟨RingStep.of_ring (RingStep.refl h) rfl rfl, ⟨rfl, hd⟩, rfl, rfl, rfl, rfl⟩

theorem takeBounce_granted {s : Fifo} (h : Geo s) (vmalloc : Option (ℕ → UInt8))
    (hl : s.locked = true) (hd : s.dynamicBuffer = none)
    (hs : used s + s.reservedSize < s.max - s.min) (bytes : ℕ) :
    Granted s (takeBounce s bytes vmalloc).1 (takeBounce s bytes vmalloc).2 := by
  have hstep : ∀ {t : Fifo}, ring t = ring s → RingStep s t 0 [] := fun ht =>
    RingStep.of_ring (RingStep.refl h) rfl ht
  unfold takeBounce
  by_cases hb : bytes < s.staticBufferSize
  · simp only [hb, if_true]
    exact ⟨hstep rfl, ⟨hs, rfl, hd⟩, rfl, rfl, rfl, hl⟩
  · simp only [hb, if_false]
    cases vmalloc with
    | none => exact ⟨hstep rfl, ⟨rfl, rfl⟩, rfl, rfl, rfl, rfl⟩
    | some m => exact ⟨hstep rfl, ⟨hs, rfl, rfl⟩, rfl, rfl, rfl, hl⟩

theorem takeInPlace_granted {s : Fifo} (h : Geo s) (vmalloc : Option (ℕ → UInt8))
    (hl : s.locked = true) (hd : s.dynamicBuffer = none)
    (hs : used s + s.reservedSize < s.max - s.min) (hm : s.nextCmd + s.reservedSize ≤ s.max) (bytes : ℕ) :
    Granted s (takeInPlace s bytes s.nextCmd vmalloc).1
      (takeInPlace s bytes s.nextCmd vmalloc).2 := by
  unfold takeInPlace
  by_cases hp : s.reserveable ∨ bytes ≤ 4
  · rw [if_pos hp]
    refine ⟨RingStep.of_ring (RingStep.refl h) rfl rfl, ⟨hs, ?_, hm, rfl, hd⟩, rfl, rfl, rfl, hl⟩
    have := h.nextAligned
    change s.nextCmd / 4 * 4 = s.nextCmd
    omega
  · rw [if_neg hp]
    exact takeBounce_granted h vmalloc hl hd hs bytes

theorem Frame.driver {s t : Fifo} (h : Frame s t) :
    t.reservedSize = s.reservedSize ∧ t.dynamicBuffer = s.dynamicBuffer ∧
      t.usingBounceBuffer = s.usingBounceBuffer ∧ t.reserveable = s.reserveable ∧
      t.dx = s.dx ∧ t.committed = s.committed ∧ t.pointer = s.pointer ∧
      t.locked = s.locked := by
  obtain ⟨_, _, _, _, _, _, rfl⟩ := h
  exact ⟨rfl, rfl, rfl, rfl, rfl, rfl, rfl, rfl⟩

theorem Granted.after {s u t : Fifo} {r : Option Buffer} (hs : Geo s) (hr : RingStep s u 0 [])
    (hf : Frame s u) (h : Granted u r t) : Granted s r t := by
  have hroom := hs.next
  obtain ⟨_, _, _, hres, hdx, hcom, _⟩ := Frame.driver hf
  exact ⟨hr.after hs h.ring (by omega), h.place, h.dx_eq.trans hdx, h.committed_eq.trans hcom,
    h.reserveable_eq.trans hres, h.lock_eq⟩

/-- The registers and the request as the reserve loop reads them on entry. -/
structure Asking (bytes max min nextCmd : ℕ) (s : Fifo) : Prop where
  geo : Geo s
  free : s.dynamicBuffer = none
  bytes_eq : s.reservedSize = bytes
  max_eq : s.max = max
  min_eq : s.min = min
  next_eq : s.nextCmd = nextCmd
  small : bytes < max - min
  held : s.locked = true

theorem Asking.after {bytes max min nextCmd : ℕ} {s t : Fifo}
    (h : Asking bytes max min nextCmd s) (hr : RingStep s t 0 []) (hf : Frame s t) :
    Asking bytes max min nextCmd t := by
  obtain ⟨hsize, hdyn, _, _, _, _, _, hlock⟩ := Frame.driver hf
  refine ⟨hr.geo, hdyn.trans h.free, hsize.trans h.bytes_eq, hr.max_eq.trans h.max_eq,
    hr.min_eq.trans h.min_eq, ?_, h.small, hlock.trans h.held⟩
  rw [hr.next_eq, move_zero h.geo.next.2, h.next_eq]

theorem reserveLoop_granted {bytes max min nextCmd : ℕ} (vmalloc : Option (ℕ → UInt8))
    (waits : List ℕ) {s : Fifo} (h : Asking bytes max min nextCmd s) {r : Option Buffer × Fifo}
    (hr : reserveLoop bytes max min nextCmd vmalloc waits s = some r) : Granted s r.1 r.2 := by
  induction waits generalizing s with
  | nil => cases hr
  | cons polls waits ih =>
    obtain ⟨hstep, hframe, _⟩ := tick_spec h.geo
    have hu := h.after hstep hframe
    simp only [reserveLoop] at hr
    set u := tick s with hdef
    refine Granted.after h.geo hstep hframe ?_
    obtain ⟨hgeo, hfree, hbytes, rfl, rfl, rfl, hsmall, hheld⟩ := hu
    have hn := hgeo.next
    have hs := hgeo.stop
    have hbound := hgeo.bounded
    have hsum : addU32 u.nextCmd bytes = u.nextCmd + bytes := addU32_of_lt (by omega)
    have hwait : ∀ {v : Fifo}, RingStep u v 0 [] → Frame u v →
        (if (vmwFifoWait polls v bytes).1 then
            reserveLoop bytes u.max u.min u.nextCmd vmalloc waits (vmwFifoWait polls v bytes).2
          else some (outErr (vmwFifoWait polls v bytes).2)) = some r → Granted u r.1 r.2 := by
      intro v hv hvf hgo
      obtain ⟨hp, hpf⟩ := pollFull_spec (polls + 1) hv.geo bytes
      have hw := hv.after hgeo hp (by omega)
      have hwf := hvf.trans hpf
      refine Granted.after hgeo hw hwf ?_
      have hask := Asking.after ⟨hgeo, hfree, hbytes, rfl, rfl, rfl, hsmall, hheld⟩ hw hwf
      split_ifs at hgo
      · exact ih hask hgo
      · obtain rfl := Option.some.inj hgo
        exact outErr_granted hask.geo hask.free
    rw [hsum] at hr
    by_cases hbefore : u.stop ≤ u.nextCmd
    · rw [if_pos hbefore] at hr
      have hused : used u = u.nextCmd - u.stop := if_pos hbefore
      by_cases hfit : u.nextCmd + bytes < u.max ∨ (u.nextCmd + bytes = u.max ∧ u.min < u.stop)
      · rw [if_pos hfit] at hr
        obtain rfl := Option.some.inj hr
        exact takeInPlace_granted hgeo vmalloc hheld hfree (by omega) (by omega) bytes
      · rw [if_neg hfit] at hr
        obtain ⟨hft, hfull⟩ := vmwFifoIsFull_spec hgeo bytes
        obtain ⟨htick, htf, _⟩ := tick_spec hgeo
        rw [hft] at hr
        by_cases hf : (vmwFifoIsFull u bytes).1 = true
        · rw [if_pos hf] at hr
          exact hwait htick htf hr
        · rw [if_neg hf] at hr
          obtain rfl := Option.some.inj hr
          refine Granted.after hgeo htick htf ?_
          obtain ⟨hsize, hdyn, _, _, _, _, _, hlock⟩ := Frame.driver htf
          refine takeBounce_granted htick.geo vmalloc (hlock.trans hheld) (hdyn.trans hfree) ?_
            bytes
          -- the device has not passed `nextCmd`, so the span still runs upwards
          have hb := deviceRun_before (u.sched.headD 0) (s := { u with sched := u.sched.tail })
            ⟨hgeo.minAligned, hgeo.maxAligned, hgeo.bounded, hgeo.next, hgeo.nextAligned,
              hgeo.stop⟩ hbefore
          change (tick u).stop ≤ (tick u).nextCmd at hb
          have hused' : used (tick u) = (tick u).nextCmd - (tick u).stop := if_pos hb
          have hstop := htick.geo.stop
          have hmin := htick.min_eq
          have hmax := htick.max_eq
          have hnext := tick_next hgeo
          rw [hfull] at hf
          omega
    · rw [if_neg hbefore] at hr
      have hused : used u = u.max - u.stop + (u.nextCmd - u.min) := if_neg hbefore
      by_cases hfit : u.nextCmd + bytes < u.stop
      · rw [if_pos hfit] at hr
        obtain rfl := Option.some.inj hr
        exact takeInPlace_granted hgeo vmalloc hheld hfree (by omega) (by omega) bytes
      · rw [if_neg hfit] at hr
        exact hwait (RingStep.refl hgeo) (Frame.refl u) hr

theorem vmwFifoReserveDx_granted {s : Fifo} (h : Geo s) (hp : Place none s)
    (hl : s.locked = false) {bytes ctxId : ℕ}
    {waits : List ℕ} {vmalloc : Option (ℕ → UInt8)} {r : Option Buffer × Fifo}
    (hr : vmwFifoReserveDx s bytes ctxId waits vmalloc = some r) : Granted s r.1 r.2 := by
  unfold vmwFifoReserveDx at hr
  split_ifs at hr
  · unfold vmwLocalFifoReserve at hr
    have hbound := h.bounded
    have hn := h.next
    have hsub : subU32 s.max s.min = s.max - s.min := subU32_of_le (by omega) (by omega)
    have hlock : ∀ {t : Fifo}, ring t = ring s → RingStep s t 0 [] := fun ht =>
      RingStep.of_ring (RingStep.refl h) rfl ht
    by_cases hbig : s.max - s.min ≤ bytes
    · simp only [hsub, hbig, if_true] at hr
      obtain rfl := Option.some.inj hr
      exact ⟨hlock rfl, ⟨rfl, hp.2⟩, rfl, rfl, rfl, rfl⟩
    · simp only [hsub, hbig, if_false] at hr
      split_ifs at hr
      have hg := reserveLoop_granted vmalloc waits
        (s := { s with locked := true, reservedSize := bytes })
        ⟨Geo.of_ring h rfl, hp.2, rfl, rfl, rfl, rfl, Nat.lt_of_not_le hbig, rfl⟩ hr
      exact ⟨RingStep.of_ring hg.ring rfl rfl, hg.place, hg.dx_eq, hg.committed_eq,
        hg.reserveable_eq, hg.lock_eq⟩
  · obtain rfl := Option.some.inj hr
    exact ⟨RingStep.refl h, hp, rfl, rfl, rfl, hl⟩

/-- The driver's state after the copy out of the bounce buffer. -/
structure Unbounced (s t : Fifo) : Prop where
  size_eq : t.reservedSize = s.reservedSize
  dyn_eq : t.dynamicBuffer = none
  bounce_eq : t.usingBounceBuffer = s.usingBounceBuffer
  reserveable_eq : t.reserveable = s.reserveable
  dx_eq : t.dx = s.dx

theorem Unbounced.of_frame {s t : Fifo} (h : Frame s t) :
    Unbounced s { t with dynamicBuffer := none } := by
  obtain ⟨hsize, _, hbounce, hres, hdx, _⟩ := Frame.driver h
  exact ⟨hsize, rfl, hbounce, hres, hdx⟩

/-- Either the bytes now wait after `nextCmd` to be published, or `nextCmd` is
    already past them. -/
theorem unbounce_spec {s : Fifo} (h : Geo s) {bytes : ℕ} (h4 : bytes % 4 = 0)
    (hb : used s + bytes < s.max - s.min) (hbounce : s.usingBounceBuffer = true) :
    ∃ j k, j + k = bytes ∧ k % 4 = 0 ∧
      RingStep s (unbounce s s.nextCmd s.max s.min bytes) j
        ((List.range j).map (bounceBuffer s)) ∧
      (∀ i < k, (unbounce s s.nextCmd s.max s.min bytes).mem
        (move s.min s.max s.nextCmd (j + i)) = bounceBuffer s (j + i)) ∧
      Unbounced s (unbounce s s.nextCmd s.max s.min bytes) := by
  cases hres : s.reserveable with
  | true =>
    have hgo : unbounce s s.nextCmd s.max s.min bytes =
        { vmwFifoResCopy s s.nextCmd s.max s.min bytes with dynamicBuffer := none } := by
      simp only [unbounce, hbounce, hres, if_true]
    obtain ⟨hr, hf, hm⟩ := vmwFifoResCopy_spec h h4 hb
    rw [hgo]
    refine ⟨0, bytes, zero_add _, h4, RingStep.of_ring hr rfl rfl, ?_, ?_⟩
    · intro i hi
      simpa using hm i hi
    · obtain ⟨hsize, hdyn, hbounce, hres, hdx⟩ := Unbounced.of_frame hf
      exact ⟨hsize, hdyn, hbounce, hres, hdx⟩
  | false =>
    have hgo : unbounce s s.nextCmd s.max s.min bytes =
        { vmwFifoSlowCopy (bounceBuffer s) s.max s.min (bytes / 4) s.nextCmd 0 s with
          dynamicBuffer := none } := by
      simp only [unbounce, hbounce, hres, if_true, Bool.false_eq_true, if_false]
    have hwords : 4 * (bytes / 4) = bytes := by omega
    obtain ⟨hr, hf⟩ := vmwFifoSlowCopy_spec (bounceBuffer s) (bytes / 4) 0 h (by omega)
    simp only [hwords, zero_add] at hr
    rw [hgo]
    refine ⟨bytes, 0, add_zero _, rfl, RingStep.of_ring hr rfl rfl, ?_, Unbounced.of_frame hf⟩
    intro i hi
    omega

theorem publish_spec {s t : Fifo} (hs : Geo s) {bytes j k : ℕ} {data : List UInt8}
    (hjk : j + k = bytes) (h4 : k % 4 = 0) (hb : used s + bytes < s.max - s.min)
    (h : RingStep s t j data) (hp : t.usingBounceBuffer = true ∨ t.reserveable = true) :
    RingStep s (publish t s.nextCmd t.max t.min bytes) bytes
        (data ++ (List.range k).map fun i => t.mem (move s.min s.max s.nextCmd (j + i))) ∧
      Frame t (publish t s.nextCmd t.max t.min bytes) := by
  have hn := hs.next
  have hbound := hs.bounded
  have hused := h.used_le
  have hmin := h.min_eq
  have hmax := h.max_eq
  have hv : (if t.max ≤ addU32 s.nextCmd bytes then
      subU32 (addU32 s.nextCmd bytes) (subU32 t.max t.min) else addU32 s.nextCmd bytes) =
        move t.min t.max t.nextCmd k := by
    rw [h.next_eq, hmin, hmax, move_move hn (by omega), hjk, addU32_of_lt (by omega),
      subU32_of_le (a := s.max) (by omega) (by omega)]
    unfold move
    by_cases hwrap : s.max ≤ s.nextCmd + bytes
    · rw [if_pos hwrap, if_neg (by omega), subU32_of_le (by omega) (by omega)]
    · rw [if_neg hwrap, if_pos (by omega)]
  obtain ⟨hr, hf⟩ := writeNextCmd_spec h.geo hv (by rw [hmin, hmax]; omega) h4
  have hplace : ∀ i < k, move t.min t.max t.nextCmd i = move s.min s.max s.nextCmd (j + i) := by
    intro i hi
    rw [h.next_eq, hmin, hmax, move_move hn (by omega)]
  have hdata : ((List.range k).map fun i => t.mem (move t.min t.max t.nextCmd i)) =
      (List.range k).map fun i => t.mem (move s.min s.max s.nextCmd (j + i)) :=
    List.map_congr_left fun i hi => by rw [hplace i (List.mem_range.1 hi)]
  have hall := h.trans hs hr (by omega)
  rw [hjk, hdata] at hall
  have hgo : publish t s.nextCmd t.max t.min bytes = writeNextCmd t
      (if t.max ≤ addU32 s.nextCmd bytes then
        subU32 (addU32 s.nextCmd bytes) (subU32 t.max t.min) else addU32 s.nextCmd bytes) :=
    if_pos hp
  rw [hgo]
  exact ⟨hall, hf⟩

/-- The bytes committed reach the device's queue, unless they were written in
    place on a device that cannot reserve. -/
structure Committed (s : Fifo) (bytes : ℕ) (t : Fifo) : Prop where
  published : (s.usingBounceBuffer = true ∨ s.reserveable = true) →
    RingStep s t bytes ((List.range bytes).map (callerByte s))
  dropped : ¬ (s.usingBounceBuffer = true ∨ s.reserveable = true) → RingStep s t 0 []
  pointer_eq : t.pointer = none
  place : Place none t
  dx_eq : t.dx = false
  unlocked : t.locked = false

theorem callerByte_bounce {s : Fifo} {p : Buffer} (hp : s.pointer = some p) (h : Place (some p) s)
    (hb : s.usingBounceBuffer = true) (i : ℕ) : callerByte s i = bounceBuffer s i := by
  unfold callerByte bounceBuffer
  rw [hp]
  cases p with
  | fifo addr =>
    have := h.2.2.2.1
    rw [hb] at this
    cases this
  | static =>
    rw [h.2.2]
    rfl
  | dynamic => rfl

theorem callerByte_inPlace {s : Fifo} {p : Buffer} (hp : s.pointer = some p)
    (h : Place (some p) s) (hb : s.usingBounceBuffer = false) {i : ℕ} (hi : i < s.reservedSize) :
    callerByte s i = s.mem (move s.min s.max s.nextCmd i) := by
  unfold callerByte
  rw [hp]
  cases p with
  | fifo addr =>
    obtain ⟨_, rfl, hm, _⟩ := h
    have hmove : move s.min s.max s.nextCmd i = s.nextCmd + i := if_pos (by omega)
    rw [hmove]
  | static =>
    have := h.2.1
    rw [hb] at this
    cases this
  | dynamic =>
    have := h.2.1
    rw [hb] at this
    cases this

theorem Place.space {s : Fifo} {p : Buffer} (h : Place (some p) s) :
    used s + s.reservedSize < s.max - s.min := by
  cases p <;> exact h.1

theorem vmwLocalFifoCommit_eq {s t : Fifo} (hdx : s.dx = false) {bytes : ℕ}
    (hc : vmwLocalFifoCommit s bytes = some t) :
    bytes % 4 = 0 ∧ bytes ≤ s.reservedSize ∧ ∃ r u : Fifo,
      r = { s with dx := false, reservedSize := 0 } ∧ u = unbounce r r.nextCmd r.max r.min bytes ∧
        t = release (publish u r.nextCmd u.max u.min bytes) := by
  unfold vmwLocalFifoCommit at hc
  simp only [hdx, Bool.false_eq_true, if_false] at hc
  by_cases hbug : bytes % 4 ≠ 0 ∨ s.reservedSize < bytes
  · rw [if_pos hbug] at hc
    cases hc
  · rw [if_neg hbug] at hc
    push Not at hbug
    exact ⟨hbug.1, hbug.2, _, _, rfl, rfl, (Option.some.inj hc).symm⟩

theorem vmwLocalFifoCommit_spec {s t : Fifo} (h : Geo s) {p : Buffer} (hp : s.pointer = some p)
    (hplace : Place (some p) s) (hdx : s.dx = false) {bytes : ℕ}
    (hc : vmwLocalFifoCommit s bytes = some t) :
    bytes ≤ s.reservedSize ∧ Committed s bytes t := by
  obtain ⟨h4, hle, r, u, hr, hu, rfl⟩ := vmwLocalFifoCommit_eq hdx hc
  refine ⟨hle, ?_⟩
  have hspace := hplace.space
  have hring : ring r = ring s := by rw [hr]; rfl
  have hgeo : Geo r := Geo.of_ring h hring
  have hfree : used r + bytes < r.max - r.min := by
    rw [hr]
    change used s + bytes < s.max - s.min
    omega
  have hsize : r.reservedSize = 0 := by rw [hr]
  have hrdx : r.dx = false := by rw [hr]
  have hrb : r.usingBounceBuffer = s.usingBounceBuffer := by rw [hr]
  have hrr : r.reserveable = s.reserveable := by rw [hr]
  cases hbounce : s.usingBounceBuffer with
  | true =>
    obtain ⟨j, k, hjk, hk4, hstep, hmem, hun⟩ := unbounce_spec hgeo h4 hfree (hrb.trans hbounce)
    rw [← hu] at hstep hmem hun
    obtain ⟨hpub, hf⟩ := publish_spec hgeo hjk hk4 hfree hstep
      (.inl (hun.bounce_eq.trans (hrb.trans hbounce)))
    obtain ⟨hsz, hdyn, _, _, hdx', _⟩ := Frame.driver hf
    have hbuf : bounceBuffer r = bounceBuffer s := by rw [hr]; rfl
    have hdata : ((List.range j).map (bounceBuffer r) ++ (List.range k).map fun i =>
        u.mem (move r.min r.max r.nextCmd (j + i))) = (List.range bytes).map (callerByte s) := by
      rw [← hjk, List.range_add, List.map_append, List.map_map]
      refine congrArg₂ _ (List.map_congr_left ?_) (List.map_congr_left ?_)
      · intro i _
        rw [callerByte_bounce hp hplace hbounce, hbuf]
      · intro i hi
        rw [hmem i (List.mem_range.1 hi), Function.comp_apply,
          callerByte_bounce hp hplace hbounce, hbuf]
    rw [hdata] at hpub
    exact ⟨fun _ => RingStep.of_ring hpub hring.symm rfl, fun hno => absurd (.inl hbounce) hno, rfl,
      ⟨hsz.trans (hun.size_eq.trans hsize), hdyn.trans hun.dyn_eq⟩,
      hdx'.trans (hun.dx_eq.trans hrdx), rfl⟩
  | false =>
    have hun : u = r := by
      rw [hu, unbounce]
      exact if_neg (by rw [hrb, hbounce]; exact Bool.false_ne_true)
    subst hun
    have hdyn : u.dynamicBuffer = none := by
      rw [hr]
      cases p with
      | fifo addr => exact hplace.2.2.2.2
      | static => exact hplace.2.2
      | dynamic =>
        have := hplace.2.1
        rw [hbounce] at this
        cases this
    cases hres : s.reserveable with
    | true =>
      obtain ⟨hpub, hf⟩ := publish_spec hgeo (zero_add bytes) h4 hfree (RingStep.refl hgeo)
        (.inr (hrr.trans hres))
      obtain ⟨hsz, hdyn', _, _, hdx', _⟩ := Frame.driver hf
      have hdata : ([] ++ (List.range bytes).map fun i =>
          u.mem (move u.min u.max u.nextCmd (0 + i))) = (List.range bytes).map (callerByte s) := by
        rw [List.nil_append]
        refine List.map_congr_left ?_
        intro i hi
        rw [callerByte_inPlace hp hplace hbounce (by have := List.mem_range.1 hi; omega), zero_add,
          hr]
      rw [hdata] at hpub
      exact ⟨fun _ => RingStep.of_ring hpub hring.symm rfl, fun hno => absurd (.inr hres) hno, rfl,
        ⟨hsz.trans hsize, hdyn'.trans hdyn⟩, hdx'.trans hrdx, rfl⟩
    | false =>
      have hpub : publish u u.nextCmd u.max u.min bytes = u := by
        unfold publish
        exact if_neg (by rw [hrb, hrr, hbounce, hres]; simp)
      rw [hpub]
      exact ⟨by simp [hbounce, hres],
        fun _ => RingStep.of_ring (RingStep.refl hgeo) hring.symm rfl, rfl, ⟨hsize, hdyn⟩, hrdx,
        rfl⟩

end Vmwgfx.FifoCalls
