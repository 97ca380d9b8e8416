import Vmwgfx.Overlay

set_option autoImplicit false

/-!
# Whose references and pins the overlay holds

The reference and pin counts that exceed what the streams and the other owners account for
are debts. Every function leaves a debt of its own, which depends only on how it ends; the
calls leave none.
-/
namespace Vmwgfx.Overlay
open ExecbufState (Errno)
open LabelledRuns Shares

def Stream.pinned (v : Stream) : Option ℕ := if v.paused then none else v.buf

section Debts
variable (n : ℕ) (s : OverlayDev)

def refDebt : ℕ → ℤ :=
  s.refs - s.otherRefs - share (Finset.range n) fun i => (s.stream i).buf

def pinDebt : ℕ → ℤ :=
  s.pinCount - s.otherPins - share (Finset.range n) fun i => (s.stream i).pinned

/-- A stream with a buffer has saved a control request for itself. -/
def SavesOwn : Prop := ∀ i, (s.stream i).buf.isSome → (s.stream i).saved.streamId = i

end Debts

/-- No step of a call between `s` and `t` has touched the streams, and the debts have
    grown by `r` and `p`. -/
structure Owes (n : ℕ) (r p : ℕ → ℤ) (s t : OverlayDev) : Prop where
  stream : t.stream = s.stream
  refs : refDebt n t = refDebt n s + r
  pins : pinDebt n t = pinDebt n s + p

/-- A whole call between `s` and `t`. -/
structure Settled (n : ℕ) (s t : OverlayDev) : Prop where
  refs : refDebt n t = refDebt n s
  pins : pinDebt n t = pinDebt n s
  saves : SavesOwn s → SavesOwn t

variable {n : ℕ} {r p r' p' : ℕ → ℤ} {s t u : OverlayDev} {b i : ℕ} {e : Option Errno}

theorem Owes.trans (h : Owes n r p s t) (h' : Owes n r' p' t u) :
    Owes n (r + r') (p + p') s u := by
  constructor
  · exact h'.stream.trans h.stream
  · rw [h'.refs, h.refs, add_assoc]
  · rw [h'.pins, h.pins, add_assoc]

theorem Owes.refl (s : OverlayDev) : Owes n 0 0 s s := ⟨rfl, (add_zero _).symm, (add_zero _).symm⟩

theorem Owes.settled (h : Owes n 0 0 s t) : Settled n s t := by
  constructor
  · rw [h.refs, add_zero]
  · rw [h.pins, add_zero]
  · unfold SavesOwn
    rw [h.stream]
    exact id

theorem Settled.refl (s : OverlayDev) : Settled n s s := ⟨rfl, rfl, id⟩

theorem Settled.trans (h : Settled n s t) (h' : Settled n t u) : Settled n s u :=
  ⟨h'.refs.trans h.refs, h'.pins.trans h.pins, h'.saves ∘ h.saves⟩

theorem owes_addRef (b : ℕ) (k : ℤ) (s : OverlayDev) :
    Owes n (Pi.single b k) 0 s (addRef b k s) := by
  constructor
  · rfl
  · simp only [refDebt, addRef]
    abel
  · simp only [pinDebt, addRef, add_zero]

theorem owes_addPin (b : ℕ) (k : ℤ) (s : OverlayDev) :
    Owes n 0 (Pi.single b k) s (addPin b k s) := by
  constructor
  · rfl
  · simp only [refDebt, addPin, add_zero]
  · simp only [pinDebt, addPin]
    abel

theorem owes_otherRef (b : ℕ) (k : ℤ) (s : OverlayDev) : Owes n 0 0 s (otherRef b k s) := by
  constructor
  · rfl
  · simp only [refDebt, otherRef, addRef]
    abel
  · simp only [pinDebt, otherRef, addRef, add_zero]

theorem owes_otherPin (b : ℕ) (k : ℤ) (s : OverlayDev) : Owes n 0 0 s (otherPin b k s) := by
  constructor
  · rfl
  · simp only [refDebt, otherPin, addPin, add_zero]
  · simp only [pinDebt, otherPin, addPin]
    abel

theorem owes_emit (c : FifoCmd) (s : OverlayDev) : Owes n 0 0 s (emit c s) :=
  ⟨rfl, (add_zero _).symm, (add_zero _).symm⟩

theorem owes_pinnedBo (v : Option ℕ) (s : OverlayDev) : Owes n 0 0 s { s with pinnedBo := v } :=
  ⟨rfl, (add_zero _).symm, (add_zero _).symm⟩

theorem owes_dummyQueryBoPinned (v : Bool) (s : OverlayDev) :
    Owes n 0 0 s { s with dummyQueryBoPinned := v } :=
  ⟨rfl, (add_zero _).symm, (add_zero _).symm⟩

section SetStream
variable {v : Stream}

theorem refDebt_setStream (hi : i < n) :
    refDebt n (setStream i v s) = refDebt n s + mark (s.stream i).buf - mark v.buf := by
  have hshare := share_change (fun j => (s.stream j).buf)
    (fun j => (Function.update s.stream i v j).buf) (Finset.mem_range.2 hi)
    fun j _ hj => by rw [Function.update_of_ne hj]
  simp only [Function.update_self] at hshare
  simp only [refDebt, setStream, hshare]
  abel

theorem pinDebt_setStream (hi : i < n) :
    pinDebt n (setStream i v s) = pinDebt n s + mark (s.stream i).pinned - mark v.pinned := by
  have hshare := share_change (fun j => (s.stream j).pinned)
    (fun j => (Function.update s.stream i v j).pinned) (Finset.mem_range.2 hi)
    fun j _ hj => by rw [Function.update_of_ne hj]
  simp only [Function.update_self] at hshare
  simp only [pinDebt, setStream, hshare]
  abel

theorem savesOwn_setStream (h : SavesOwn s) (hv : v.buf.isSome → v.saved.streamId = i) :
    SavesOwn (setStream i v s) := by
  intro j hj
  by_cases hji : j = i
  · subst hji
    simp only [setStream, Function.update_self] at hj ⊢
    exact hv hj
  · simp only [setStream, Function.update_of_ne hji] at hj ⊢
    exact h j hj

end SetStream

theorem owes_pinReserved {pin stays : Bool} (h : vmwBoPinReserved b pin stays s = some t) :
    Owes n 0 (Pi.single b (if pin then 1 else -1)) s t := by
  have ht : t = addPin b (if pin then 1 else -1) s := by
    unfold vmwBoPinReserved at h
    split_ifs at h <;> simp_all
  rw [ht]
  apply owes_addPin

theorem owes_releasePinnedBo (s : OverlayDev) : Owes n 0 0 s (vmwExecbufReleasePinnedBo s) := by
  unfold vmwExecbufReleasePinnedBo
  cases hb : s.pinnedBo with
  | none => exact Owes.refl s
  | some b =>
    have hdrop := ((owes_pinnedBo (n := n) none s).trans (owes_otherPin b (-1) _)).trans
      (owes_otherRef b (-1) _)
    rw [add_zero, add_zero] at hdrop
    dsimp only
    split_ifs
    · have hunpin := (hdrop.trans (owes_otherPin s.dummyQueryBo (-1) _)).trans
        (owes_dummyQueryBoPinned false _)
      rw [add_zero, add_zero] at hunpin
      exact hunpin
    · exact hdrop

theorem owes_unpin {o : UnpinEnds} (h : vmwBoUnpin o b s = some (e, t)) :
    Owes n 0 (if e = none then Pi.single b (-1) else 0) s t := by
  unfold vmwBoUnpin at h
  split_ifs at h with hlock hreserve
  · obtain ⟨rfl, rfl⟩ : o.readLock = e ∧ s = t := by simpa using h
    rw [if_neg (by rintro he; simp [he] at hlock)]
    exact Owes.refl s
  · obtain ⟨rfl, rfl⟩ : o.boReserve = e ∧ s = t := by simpa using h
    rw [if_neg (by rintro he; simp [he] at hreserve)]
    exact Owes.refl s
  · obtain ⟨u, hu, heq⟩ := Option.map_eq_some_iff.1 h
    obtain ⟨rfl, rfl⟩ : none = e ∧ u = t := by simpa using heq
    rw [if_pos rfl]
    exact owes_pinReserved hu

theorem owes_pinUnless {o : PinEnds} {ret : Option Errno} (h : pinUnless ret o b s = some (e, t)) :
    Owes n 0 (if e = none then Pi.single b 1 else 0) s t := by
  unfold pinUnless at h
  cases ret with
  | some err =>
    obtain ⟨rfl, rfl⟩ : some err = e ∧ s = t := by simpa using h
    exact Owes.refl s
  | none =>
    obtain ⟨u, hu, heq⟩ := Option.map_eq_some_iff.1 h
    obtain ⟨rfl, rfl⟩ : none = e ∧ u = t := by simpa using heq
    exact owes_pinReserved hu

/-- What both functions that pin a buffer have in common: they fail, or they come to the
    pin after the release of the query buffers. -/
theorem owes_afterRelease {o : PinEnds} {x : OverlayDev → Result}
    (hx : ∀ u, x u = some (e, t) → Owes n 0 (if e = none then Pi.single b 1 else 0) u t)
    (h : (if o.writeLock.isSome then some (o.writeLock, s)
      else if o.boReserve.isSome then some (o.boReserve, vmwExecbufReleasePinnedBo s)
      else x (vmwExecbufReleasePinnedBo s)) = some (e, t)) :
    Owes n 0 (if e = none then Pi.single b 1 else 0) s t := by
  have hrel : Owes n 0 0 s (vmwExecbufReleasePinnedBo s) := owes_releasePinnedBo s
  split_ifs at h with hlock hreserve
  · obtain ⟨rfl, rfl⟩ : o.writeLock = e ∧ s = t := by simpa using h
    rw [if_neg (by rintro he; simp [he] at hlock)]
    exact Owes.refl s
  · obtain ⟨rfl, rfl⟩ : o.boReserve = e ∧ vmwExecbufReleasePinnedBo s = t := by simpa using h
    rw [if_neg (by rintro he; simp [he] at hreserve)]
    exact hrel
  · have hpin := hrel.trans (hx _ h)
    rwa [zero_add, zero_add] at hpin

theorem owes_pinBuffer {o : PinEnds} (h : vmwOverlayPinBuffer o b s = some (e, t)) :
    Owes n 0 (if e = none then Pi.single b 1 else 0) s t := by
  unfold vmwOverlayPinBuffer at h
  split_ifs at h
  · apply owes_afterRelease (x := fun u =>
      pinUnless (if 0 < u.pinCount b then memCompat o else o.validate) o b u) _ h
    intro u hu
    exact owes_pinUnless hu
  · apply owes_afterRelease (x := fun u =>
      if 0 < u.pinCount b then pinUnless (memCompat o) o b u
      else if o.validate = none ∨ o.validate = some .erestartsys then pinUnless o.validate o b u
      else pinUnless o.validateVram o b u) _ h
    intro u hu
    split_ifs at hu <;> exact owes_pinUnless hu

theorem owes_sendStop {waits : List (Option Errno)} {interruptible : Bool}
    (h : vmwOverlaySendStop i interruptible waits s = some (e, t)) : Owes n 0 0 s t := by
  induction waits with
  | nil =>
    obtain ⟨-, rfl⟩ : none = e ∧ emit (.stop i) s = t := by simpa [vmwOverlaySendStop] using h
    apply owes_emit
  | cons ret waits ih =>
    unfold vmwOverlaySendStop at h
    split_ifs at h
    · obtain ⟨-, rfl⟩ : ret = e ∧ s = t := by simpa using h
      exact Owes.refl s
    · exact ih h

theorem owes_sendPut {space : Bool} {arg : ControlStreamArg}
    (h : vmwOverlaySendPut space b arg s = (e, t)) : Owes n 0 0 s t := by
  unfold vmwOverlaySendPut at h
  split_ifs at h
  · obtain ⟨-, rfl⟩ := Prod.mk.inj h
    apply owes_emit
  · obtain ⟨-, rfl⟩ := Prod.mk.inj h
    exact Owes.refl s

theorem owes_haltStream {o : StopEnds} {interruptible : Bool}
    (h : haltStream o i b interruptible s = some (e, t)) :
    Owes n 0 (if e = none then Pi.single b (-1) else 0) s t := by
  unfold haltStream at h
  split at h
  · cases h
  · rename_i err u hstop
    obtain ⟨rfl, rfl⟩ : some err = e ∧ u = t := by simpa using h
    exact owes_sendStop hstop
  · rename_i u hstop
    have hsent : Owes n 0 0 s u := owes_sendStop hstop
    have hrest : vmwBoUnpin o.unpin b u = some (e, t) := by
      split at h
      · cases h
      · rename_i v hunpin
        rw [hunpin, ← h]
      · rename_i err v hunpin
        split_ifs at h
        rw [hunpin, ← h]
    have hpin := hsent.trans (owes_unpin hrest)
    rwa [zero_add, zero_add] at hpin

theorem mark_pinned (hb : (s.stream i).buf = some b) :
    mark (s.stream i).pinned = if (s.stream i).paused then 0 else Pi.single b 1 := by
  unfold Stream.pinned
  split_ifs
  · rw [mark_none]
  · rw [hb, mark_some]

theorem detachStream_debts (pause : Bool) (hi : i < n) (hb : (s.stream i).buf = some b) :
    refDebt n (detachStream i b pause s) = refDebt n s ∧
      pinDebt n (detachStream i b pause s) =
        pinDebt n s + if (s.stream i).paused then 0 else Pi.single b 1 := by
  rw [← mark_pinned hb]
  unfold detachStream
  split_ifs
  · rw [refDebt_setStream hi, pinDebt_setStream hi]
    simp only [Stream.pinned, if_true, mark_none]
    constructor <;> abel
  · rw [(owes_addRef b (-1) _).refs, (owes_addRef b (-1) _).pins, refDebt_setStream hi,
      pinDebt_setStream hi, hb, mark_some, Pi.single_neg]
    simp only [Stream.pinned, Bool.false_eq_true, if_false, mark_none]
    constructor <;> abel

theorem detachStream_saves {pause : Bool} (h : SavesOwn s) :
    SavesOwn (detachStream i b pause s) := by
  unfold detachStream
  split_ifs
  · exact savesOwn_setStream h (h i)
  · apply savesOwn_setStream h
    intro hbuf
    cases hbuf

theorem settled_stop {o : StopEnds} {pause interruptible : Bool} (hi : i < n)
    (h : vmwOverlayStop o i pause interruptible s = some (e, t)) : Settled n s t := by
  unfold vmwOverlayStop at h
  cases hb : (s.stream i).buf with
  | none =>
    rw [hb] at h
    obtain ⟨-, rfl⟩ : none = e ∧ s = t := by simpa using h
    exact Settled.refl s
  | some b =>
    rw [hb] at h
    dsimp only at h
    split_ifs at h with hpaused
    · obtain ⟨-, rfl⟩ : none = e ∧ detachStream i b pause s = t := by simpa using h
      obtain ⟨hrefs, hpins⟩ := detachStream_debts pause hi hb
      rw [if_pos hpaused, add_zero] at hpins
      exact ⟨hrefs, hpins, detachStream_saves⟩
    · split at h
      · cases h
      · rename_i err u hhalt
        obtain ⟨-, rfl⟩ : some err = e ∧ u = t := by simpa using h
        exact (owes_haltStream hhalt).settled
      · rename_i u hhalt
        obtain ⟨-, rfl⟩ : none = e ∧ detachStream i b pause u = t := by simpa using h
        have howes := owes_haltStream (n := n) hhalt
        obtain ⟨hrefs, hpins⟩ := detachStream_debts (s := u) pause hi
          (by rw [howes.stream, hb])
        rw [howes.stream, if_neg hpaused] at hpins
        constructor
        · rw [hrefs, howes.refs, add_zero]
        · rw [hpins, howes.pins, if_pos rfl, Pi.single_neg]
          abel
        · intro hsaves
          apply detachStream_saves
          unfold SavesOwn
          rw [howes.stream]
          exact hsaves

theorem detachStream_buf (s : OverlayDev) : ((detachStream i b false s).stream i).buf = none := by
  simp [detachStream, addRef, setStream]

theorem stop_detaches {o : StopEnds} {interruptible : Bool}
    (h : vmwOverlayStop o i false interruptible s = some (none, t)) :
    (t.stream i).buf = none := by
  unfold vmwOverlayStop at h
  cases hb : (s.stream i).buf with
  | none =>
    rw [hb] at h
    obtain rfl : s = t := by simpa using h
    exact hb
  | some b =>
    rw [hb] at h
    dsimp only at h
    split_ifs at h
    · obtain rfl : detachStream i b false s = t := by simpa using h
      apply detachStream_buf
    · split at h
      · cases h
      · cases h
      · rename_i u hhalt
        obtain rfl : detachStream i b false u = t := by simpa using h
        apply detachStream_buf

theorem attachStream_debts {arg : ControlStreamArg} (hi : arg.streamId < n)
    (hb : (s.stream arg.streamId).buf = none ∨ (s.stream arg.streamId).buf = some b)
    (hp : (s.stream arg.streamId).pinned = none) :
    refDebt n (attachStream b arg s) = refDebt n s ∧
      pinDebt n (attachStream b arg s) = pinDebt n s + Pi.single b (-1) := by
  rw [Pi.single_neg]
  unfold attachStream
  rcases hb with hb | hb
  · rw [if_neg (by rw [hb]; simp), (owes_addRef b 1 _).refs, (owes_addRef b 1 _).pins,
      refDebt_setStream hi, pinDebt_setStream hi, hb, hp]
    simp only [Stream.pinned, Bool.false_eq_true, if_false, mark_none, mark_some]
    constructor <;> abel
  · rw [if_pos hb, refDebt_setStream hi, pinDebt_setStream hi, hb, hp]
    simp only [Stream.pinned, Bool.false_eq_true, if_false, mark_none, mark_some]
    constructor <;> abel

theorem attachStream_saves {arg : ControlStreamArg} (h : SavesOwn s) :
    SavesOwn (attachStream b arg s) := by
  have hset : SavesOwn (setStream arg.streamId
      { s.stream arg.streamId with buf := some b, saved := arg, paused := false } s) :=
    savesOwn_setStream h fun _ => rfl
  unfold attachStream
  dsimp only
  split_ifs
  · exact hset
  · exact hset

theorem settled_startStream {o : UpdateEnds} {arg : ControlStreamArg} (hi : arg.streamId < n)
    (hb : (s.stream arg.streamId).buf = none ∨ (s.stream arg.streamId).buf = some b)
    (hp : (s.stream arg.streamId).pinned = none)
    (h : startStream o b arg s = some (e, t)) : Settled n s t := by
  unfold startStream at h
  split at h
  · cases h
  · rename_i err u hpin
    obtain ⟨-, rfl⟩ : some err = e ∧ u = t := by simpa using h
    exact (owes_pinBuffer hpin).settled
  · rename_i u hpin
    have hu : Owes n 0 (Pi.single b 1) s u := owes_pinBuffer hpin
    unfold vmwOverlaySendPut at h
    cases hspace : o.space with
    | true =>
      rw [hspace] at h
      obtain ⟨-, rfl⟩ : none = e ∧ attachStream b arg (emit (.setRegs b arg) u) = t := by
        simpa using h
      have hv : Owes n 0 (Pi.single b 1) s (emit (.setRegs b arg) u) := by
        simpa using hu.trans (owes_emit (.setRegs b arg) u)
      obtain ⟨hrefs, hpins⟩ := attachStream_debts (s := emit (.setRegs b arg) u) (b := b) hi
        (by rw [hv.stream]; exact hb) (by rw [hv.stream]; exact hp)
      constructor
      · rw [hrefs, hv.refs, add_zero]
      · rw [hpins, hv.pins, Pi.single_neg]
        abel
      · intro hsaves
        apply attachStream_saves
        unfold SavesOwn
        rw [hv.stream]
        exact hsaves
    | false =>
      rw [hspace] at h
      simp only [Bool.false_eq_true, if_false] at h
      split at h
      · rename_i v hunpin
        obtain ⟨-, rfl⟩ : some Errno.enomem = e ∧ v = t := by simpa using h
        have hv := hu.trans (owes_unpin hunpin)
        rw [if_pos rfl, Pi.single_neg, add_zero, add_neg_cancel] at hv
        exact hv.settled
      · cases h

theorem settled_saved {arg : ControlStreamArg} (hi : arg.streamId < n) :
    Settled n s (setStream arg.streamId { s.stream arg.streamId with saved := arg } s) := by
  constructor
  · rw [refDebt_setStream hi]
    abel
  · rw [pinDebt_setStream hi]
    simp only [Stream.pinned]
    abel
  · intro hsaves
    exact savesOwn_setStream hsaves fun _ => rfl

theorem settled_claimed (hi : i < n) (claimed : Bool) :
    Settled n s (setStream i { s.stream i with claimed := claimed } s) := by
  constructor
  · rw [refDebt_setStream hi]
    abel
  · rw [pinDebt_setStream hi]
    simp only [Stream.pinned]
    abel
  · intro hsaves
    exact savesOwn_setStream hsaves (hsaves i)

theorem settled_updateStream {o : UpdateEnds} {buf : Option ℕ} {arg : ControlStreamArg}
    {interruptible : Bool} (hi : arg.streamId < n)
    (h : vmwOverlayUpdateStream o buf arg interruptible s = some (e, t)) : Settled n s t := by
  unfold vmwOverlayUpdateStream at h
  cases buf with
  | none =>
    obtain ⟨-, rfl⟩ : some Errno.einval = e ∧ s = t := by simpa using h
    exact Settled.refl s
  | some b =>
    dsimp only at h
    by_cases hother : (s.stream arg.streamId).buf ≠ some b
    · rw [if_pos hother] at h
      split at h
      · rename_i u hstop
        have hstopped : Settled n s u := settled_stop hi hstop
        have hnone := stop_detaches hstop
        apply hstopped.trans (settled_startStream hi (.inl hnone) _ h)
        simp [Stream.pinned, hnone]
      · exact settled_stop hi h
    rw [if_neg hother] at h
    rw [ne_eq, not_not] at hother
    cases hplays : (s.stream arg.streamId).paused with
    | false =>
      rw [hplays, Bool.not_false, if_pos rfl] at h
      split at h
      · rename_i u hput
        obtain ⟨-, rfl⟩ := Prod.mk.inj (Option.some.inj h)
        exact (owes_sendPut hput).settled.trans (settled_saved hi)
      · rename_i err u hput
        split_ifs at h
        obtain ⟨-, rfl⟩ := Prod.mk.inj (Option.some.inj h)
        exact (owes_sendPut hput).settled
    | true =>
      rw [hplays, Bool.not_true, if_neg (by simp)] at h
      apply settled_startStream hi (.inr hother) _ h
      rw [Stream.pinned, if_pos hplays]

theorem settled_forStreams {f : ℕ → OverlayDev → Result} {is : List ℕ}
    (hf : ∀ i ∈ is, ∀ s t e, SavesOwn s → f i s = some (e, t) → Settled n s t)
    (hs : SavesOwn s) (h : forStreams f is s = some t) : Settled n s t := by
  induction is generalizing s with
  | nil =>
    obtain rfl : s = t := by simpa [forStreams] using h
    exact Settled.refl s
  | cons i is ih =>
    unfold forStreams at h
    split at h
    · cases h
    · rename_i err u hu
      have hfirst := hf i List.mem_cons_self s u err hs hu
      apply hfirst.trans
      apply ih _ (hfirst.saves hs) h
      intro j hj
      exact hf j (List.mem_cons_of_mem i hj)

theorem settled_stopStreams {o : ℕ → StopEnds} (hs : SavesOwn s)
    (h : forStreams (fun i s => if (s.stream i).buf.isNone then some (none, s)
      else vmwOverlayStop (o i) i false false s) (List.range n) s = some t) : Settled n s t := by
  apply settled_forStreams _ hs h
  intro i hi u v e _ hstop
  split_ifs at hstop
  · obtain ⟨-, rfl⟩ := Prod.mk.inj (Option.some.inj hstop)
    exact Settled.refl u
  · exact settled_stop (List.mem_range.1 hi) hstop

theorem settled_pauseAll {o : ℕ → StopEnds} (hs : SavesOwn s)
    (h : vmwOverlayPauseAll n o s = some t) : Settled n s t := by
  unfold vmwOverlayPauseAll at h
  split_ifs at h
  · obtain rfl := Option.some.inj h
    exact Settled.refl s
  · apply settled_forStreams _ hs h
    intro i hi u v e _ hstop
    exact settled_stop (List.mem_range.1 hi) hstop

theorem settled_resumeAll {o : ℕ → UpdateEnds} (hs : SavesOwn s)
    (h : vmwOverlayResumeAll n o s = some t) : Settled n s t := by
  unfold vmwOverlayResumeAll at h
  split_ifs at h
  · obtain rfl := Option.some.inj h
    exact Settled.refl s
  · apply settled_forStreams _ hs h
    intro i hi u v e hu hupdate
    split_ifs at hupdate
    · obtain ⟨-, rfl⟩ := Prod.mk.inj (Option.some.inj hupdate)
      exact Settled.refl u
    · cases hb : (u.stream i).buf with
      | none =>
        rw [hb] at hupdate
        obtain ⟨-, rfl⟩ := Prod.mk.inj (Option.some.inj hupdate)
        exact Settled.refl u
      | some b =>
        apply settled_updateStream _ hupdate
        rw [hu i (by simp [hb])]
        exact List.mem_range.1 hi

theorem settled_ioctl {o : UpdateEnds} {stream buf : Except Errno ℕ} {arg : ControlStreamArg}
    (hi : isStream n stream = true) (h : vmwOverlayIoctl o stream buf arg s = some (e, t)) :
    Settled n s t := by
  unfold vmwOverlayIoctl at h
  split_ifs at h
  · obtain ⟨-, rfl⟩ := Prod.mk.inj (Option.some.inj h)
    exact Settled.refl s
  · cases stream with
    | error err =>
      obtain ⟨-, rfl⟩ := Prod.mk.inj (Option.some.inj h)
      exact Settled.refl s
    | ok streamId =>
      have hlt : streamId < n := by simpa [isStream] using hi
      dsimp only at h
      split_ifs at h
      · exact settled_stop hlt h
      · cases buf with
        | error err =>
          obtain ⟨-, rfl⟩ := Prod.mk.inj (Option.some.inj h)
          exact Settled.refl s
        | ok b =>
          -- the reference of the lookup is dropped again
          obtain ⟨⟨err, u⟩, hu, heq⟩ := Option.map_eq_some_iff.1 h
          obtain ⟨-, rfl⟩ := Prod.mk.inj heq
          have htaken : Owes n (Pi.single b 1) 0 s (addRef b 1 s) := owes_addRef b 1 s
          have hdropped : Owes n (Pi.single b (-1)) 0 u (addRef b (-1) u) := owes_addRef b (-1) u
          have hupdate := settled_updateStream (n := n) hlt hu
          constructor
          · rw [hdropped.refs, hupdate.refs, htaken.refs, Pi.single_neg]
            abel
          · rw [hdropped.pins, hupdate.pins, htaken.pins, add_zero, add_zero]
          · intro hs
            have hsaves := hupdate.saves (by unfold SavesOwn; rw [htaken.stream]; exact hs)
            unfold SavesOwn
            rw [hdropped.stream]
            exact hsaves

theorem settled_claim (s : OverlayDev) : Settled n s (vmwOverlayClaim n s).2 := by
  unfold vmwOverlayClaim
  split_ifs
  · exact Settled.refl s
  · split
    · exact Settled.refl s
    · rename_i i hfind
      exact settled_claimed (List.mem_range.1 (List.mem_of_find?_eq_some hfind)) true

theorem settled_unref {o : StopEnds} (h : vmwOverlayUnref n o i s = some t) : Settled n s t := by
  unfold vmwOverlayUnref at h
  split_ifs at h with hi
  · obtain rfl := Option.some.inj h
    exact Settled.refl s
  · split at h
    · cases h
    · rename_i err u hstop
      obtain rfl := Option.some.inj h
      exact (settled_stop (not_le.1 hi) hstop).trans (settled_claimed (not_le.1 hi) false)

theorem settled_step {a : Op} (hs : SavesOwn s) (h : step n s a = some t) : Settled n s t := by
  cases a with
  | ioctl o stream buf arg =>
    simp only [step, Option.ite_none_right_eq_some] at h
    obtain ⟨hi, h⟩ := h
    obtain ⟨⟨err, u⟩, hu, rfl⟩ := Option.map_eq_some_iff.1 h
    exact settled_ioctl hi hu
  | pauseAll o => exact settled_pauseAll hs h
  | resumeAll o => exact settled_resumeAll hs h
  | stopAll o =>
    simp only [step, vmwOverlayStopAll] at h
    split_ifs at h
    · obtain rfl := Option.some.inj h
      exact Settled.refl s
    · exact settled_stopStreams hs h
  | claim =>
    obtain rfl := Option.some.inj h
    apply settled_claim
  | unref o streamId => exact settled_unref h
  | close o =>
    simp only [step, vmwOverlayClose] at h
    split_ifs at h
    · obtain rfl := Option.some.inj h
      exact Settled.refl s
    · obtain ⟨u, hu, rfl⟩ := Option.map_eq_some_iff.1 h
      have hstop := settled_stopStreams hs hu
      exact ⟨hstop.refs, hstop.pins, hstop.saves⟩
  | otherRef b k =>
    simp only [step, Option.ite_none_right_eq_some, Option.some.injEq] at h
    obtain ⟨-, rfl⟩ := h
    exact (owes_otherRef b k s).settled
  | otherPin b k =>
    simp only [step, Option.ite_none_right_eq_some, Option.some.injEq] at h
    obtain ⟨-, rfl⟩ := h
    exact (owes_otherPin b k s).settled
  | queryPin b dummy =>
    simp only [step, Option.ite_none_left_eq_some] at h
    obtain ⟨-, h⟩ := h
    have hpin := ((owes_pinnedBo (n := n) (some b) s).trans (owes_otherPin b 1 _)).trans
      (owes_otherRef b 1 _)
    rw [add_zero, add_zero] at hpin
    split_ifs at h
    · obtain rfl := Option.some.inj h
      have hdummy := (hpin.trans (owes_otherPin s.dummyQueryBo 1 _)).trans
        (owes_dummyQueryBoPinned true _)
      rw [add_zero, add_zero] at hdummy
      exact hdummy.settled
    · obtain rfl := Option.some.inj h
      exact hpin.settled

/-- After `vmw_overlay_init`, with whatever references and pins others hold. -/
structure Start (s : OverlayDev) : Prop where
  stopped : ∀ i, (s.stream i).buf = none
  refs : s.refs = s.otherRefs
  pins : s.pinCount = s.otherPins

theorem runs_settled {as : List Op} (hs : Start s) (h : Runs (step n) anyLabel s as t) :
    SavesOwn t ∧ refDebt n t = 0 ∧ pinDebt n t = 0 := by
  apply Runs.invariant (fun u => SavesOwn u ∧ refDebt n u = 0 ∧ pinDebt n u = 0) h
  · refine ⟨?_, ?_, ?_⟩
    · intro i hi
      rw [hs.stopped i] at hi
      cases hi
    · rw [refDebt, share_eq_zero fun i _ => hs.stopped i, hs.refs]
      abel
    · rw [pinDebt, share_eq_zero fun i _ => by simp [Stream.pinned, hs.stopped i], hs.pins]
      abel
  · rintro u a v ⟨hsaves, hrefs, hpins⟩ - hv
    have hstep := settled_step (n := n) hsaves hv
    exact ⟨hstep.saves hsaves, hstep.refs.trans hrefs, hstep.pins.trans hpins⟩

/-- In every state of a run, whatever has failed in it, each reference and each pin of a
    buffer is that of another owner or of a stream: of a stream with this buffer, and of
    one that is not paused. -/
theorem runs_counted {as : List Op} (hs : Start s) (h : Runs (step n) anyLabel s as t) (b : ℕ) :
    t.refs b = t.otherRefs b +
        ((Finset.range n).filter fun i => (t.stream i).buf = some b).card ∧
      t.pinCount b = t.otherPins b + ((Finset.range n).filter fun i =>
        (t.stream i).buf = some b ∧ (t.stream i).paused = false).card := by
  obtain ⟨-, hrefs, hpins⟩ := runs_settled hs h
  have hpinned : ∀ i, (t.stream i).pinned = some b ↔
      (t.stream i).buf = some b ∧ (t.stream i).paused = false := by
    intro i
    unfold Stream.pinned
    cases (t.stream i).paused <;> simp
  constructor
  · have hb := congrFun hrefs b
    simp only [refDebt, Pi.sub_apply, Pi.zero_apply, share] at hb
    omega
  · have hb := congrFun hpins b
    simp only [pinDebt, Pi.sub_apply, Pi.zero_apply, share, hpinned] at hb
    omega

/-- A stream plays from buffer 7 and is paused; FIFO space runs out when it is resumed, and
    the pin of the buffer that replaces this one is interrupted. -/
def interruptedRun : List Op :=
  let unpin : UnpinEnds := ⟨none, none, true⟩
  let stop : StopEnds := ⟨[none], unpin⟩
  let pin (writeLock : Option Errno) : PinEnds := ⟨writeLock, none, true, none, none, true⟩
  let arg : ControlStreamArg :=
    ⟨0, true, 0, 0, 1, 0, 0, 64, 8, 8, (8, 0, 0), ⟨0, 0, 8, 8⟩, ⟨0, 0, 8, 8⟩⟩
  [.otherRef 7 1, .otherRef 8 1, .claim, .ioctl ⟨stop, pin none, true, unpin⟩ (.ok 0) (.ok 7) arg,
    .pauseAll fun _ => stop, .resumeAll fun _ => ⟨stop, pin none, false, unpin⟩,
    .ioctl ⟨stop, pin (some .erestartsys), true, unpin⟩ (.ok 0) (.ok 8) arg]

def initialised : OverlayDev :=
  ⟨true, true, false, fun _ => ⟨none, false, false, ⟨0, false, 0, 0, 0, 0, 0, 0, 0, 0, (0, 0, 0),
    ⟨0, 0, 0, 0⟩, ⟨0, 0, 0, 0⟩⟩⟩, 0, 0, none, 9, false, [], 0, 0⟩

theorem interruptedRun_counted :
    let t := (exec (step vmwMaxNumStreams) initialised interruptedRun).getD initialised
    t.refs 7 = t.otherRefs 7 +
        ((Finset.range 1).filter fun i => (t.stream i).buf = some 7).card ∧
      t.pinCount 7 = t.otherPins 7 + ((Finset.range 1).filter fun i =>
        (t.stream i).buf = some 7 ∧ (t.stream i).paused = false).card :=
  runs_counted ⟨fun _ => rfl, rfl, rfl⟩ (runs_getD (by decide)) 7

end Vmwgfx.Overlay
