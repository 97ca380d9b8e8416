import Vmwgfx.BindingSync

set_option autoImplicit false

/-!
# Delayed commands that cannot be sent

A slot with a delayed command is noted in bitmaps on up to three levels. `vmw_binding_emit_dirty`
clears them as the commands go out, whatever the reservations do.
-/
namespace Vmwgfx.BindingFailures
open BindingSlots BindingMachine BindingLists BindingDirty BindingSync

/-- What is noted on a level is noted on the level above. -/
structure Nested (b : Cbs) : Prop where
  sr : ∀ sh, ∀ k < 128, b.dirtySr sh k = true → b.dirtyPs sh = true
  ps : ∀ sh, b.dirtyPs sh = true → b.dirty .ps = true
  vb : ∀ k < 32, b.dirtyVb k = true → b.dirty .vb = true

structure Clean (b : Cbs) : Prop where
  dirty : ∀ bit, b.dirty bit = false
  ps : ∀ sh, b.dirtyPs sh = false
  sr : ∀ sh, ∀ k < 128, b.dirtySr sh k = false
  vb : ∀ k < 32, b.dirtyVb k = false

theorem Clean.nested {b : Cbs} (h : Clean b) : Nested b := by
  refine ⟨?_, ?_, ?_⟩
  · intro sh k hk hbit
    rw [h.sr sh k hk] at hbit
    cases hbit
  · intro sh hbit
    rw [h.ps] at hbit
    cases hbit
  · intro k hk hbit
    rw [h.vb k hk] at hbit
    cases hbit

theorem Nested.clean {b : Cbs} (h : Nested b) (hp : ¬ Pending b) : Clean b := by
  have hdirty : ∀ bit, b.dirty bit = false := by
    intro bit
    by_contra hbit
    exact hp ⟨bit, by simpa using hbit⟩
  have hps : ∀ sh, b.dirtyPs sh = false := by
    intro sh
    by_contra hbit
    have hsome := h.ps sh (by simpa using hbit)
    rw [hdirty] at hsome
    cases hsome
  refine ⟨hdirty, hps, ?_, ?_⟩
  · intro sh k hk
    by_contra hbit
    have hsome := h.sr sh k hk (by simpa using hbit)
    rw [hps] at hsome
    cases hsome
  · intro k hk
    by_contra hbit
    have hsome := h.vb k hk (by simpa using hbit)
    rw [hdirty] at hsome
    cases hsome

theorem Nested.mark {b : Cbs} (h : Nested b) {bit : DirtyBit} {l : Loc}
    (hbit : bitOf l = some bit) : Nested (markDirty b bit l) := by
  have hself : ∀ f : DirtyBit → Bool, Function.update f bit true bit = true := fun f =>
    Function.update_self bit true f
  have hset : ∀ {f : DirtyBit → Bool} {x : DirtyBit}, f x = true →
      Function.update f bit true x = true := by
    intro f x hx
    by_cases hxb : x = bit
    · rw [hxb, hself]
    · rwa [Function.update_of_ne hxb]
  cases l with
  | sr sh k =>
    cases hbit
    refine ⟨?_, fun _ _ => hself b.dirty, fun k hk hvb => hset (h.vb k hk hvb)⟩
    intro sh' k' hk hsr
    by_cases hsh : sh' = sh
    · rw [hsh]
      exact Function.update_self ..
    · refine (Function.update_of_ne hsh _ _).trans (h.sr sh' k' hk ?_)
      exact (congrFun (Function.update_of_ne hsh _ _) k').symm.trans hsr
  | vb k =>
    cases hbit
    exact ⟨h.sr, fun sh hps => hset (h.ps sh hps), fun _ _ _ => hself b.dirty⟩
  | rt _ | ds | so _ =>
    cases hbit
    exact ⟨h.sr, fun sh hps => hset (h.ps sh hps), fun k hk hvb => hset (h.vb k hk hvb)⟩
  | shader _ | tex _ | cb _ _ | ib => cases hbit

variable {s : Manager} {i : StateId} {c : ℕ}

section Narrowing

/-- Bits are cleared only, and a bitmap changes only when its summary bit was set. -/
structure Narrows (b b' : Cbs) : Prop where
  dirty : ∀ bit, b.dirty bit = false → b'.dirty bit = false
  ps : b.dirty .ps = false → b'.dirtyPs = b.dirtyPs
  sr : ∀ sh, b.dirtyPs sh = false → b'.dirtyPs sh = false ∧ b'.dirtySr sh = b.dirtySr sh
  vb : b.dirty .vb = false → b'.dirtyVb = b.dirtyVb

theorem Narrows.refl (b : Cbs) : Narrows b b :=
  ⟨fun _ h => h, fun _ => rfl, fun _ h => ⟨h, rfl⟩, fun _ => rfl⟩

theorem Narrows.trans {a b b' : Cbs} (h : Narrows a b) (h' : Narrows b b') : Narrows a b' where
  dirty := fun bit hbit => h'.dirty bit (h.dirty bit hbit)
  ps := fun hbit => (h'.ps (h.dirty .ps hbit)).trans (h.ps hbit)
  sr := by
    intro sh hbit
    obtain ⟨hps, hsr⟩ := h.sr sh hbit
    obtain ⟨hps', hsr'⟩ := h'.sr sh hps
    exact ⟨hps', hsr'.trans hsr⟩
  vb := fun hbit => (h'.vb (h.dirty .vb hbit)).trans (h.vb hbit)

theorem Narrows.nested {b b' : Cbs} (h : Narrows b b') (hb : Nested b') : Nested b := by
  refine ⟨?_, ?_, ?_⟩
  · intro sh k hk hbit
    by_contra hps
    obtain ⟨hps', hsr⟩ := h.sr sh (by simpa using hps)
    have hsome := hb.sr sh k hk (by rw [hsr]; exact hbit)
    rw [hps'] at hsome
    cases hsome
  · intro sh hbit
    by_contra hps
    have hdirty : b.dirty .ps = false := by simpa using hps
    have hsome := hb.ps sh (by rw [h.ps hdirty]; exact hbit)
    rw [h.dirty .ps hdirty] at hsome
    cases hsome
  · intro k hk hbit
    by_contra hvb
    have hdirty : b.dirty .vb = false := by simpa using hvb
    have hsome := hb.vb k hk (by rw [h.vb hdirty]; exact hbit)
    rw [h.dirty .vb hdirty] at hsome
    cases hsome

theorem vmwEmitSetSr_cbs (i : StateId) (sh : Fin 3) (s : Manager) :
    (vmwEmitSetSr i sh s).2.cbs i =
      if (vmwEmitSetSr i sh s).1 then
        { s.cbs i with
          dirtySr := Function.update (s.cbs i).dirtySr sh (bitmapClear ((s.cbs i).dirtySr sh)
            (dirtySpan ((s.cbs i).dirtySr sh) 128)) }
      else s.cbs i := by
  unfold vmwEmitSetSr
  dsimp only
  split
  · exact cbs_setCbs_self.trans (if_pos rfl).symm
  · rw [(sendSome_cbs _ _ _ s).1]

theorem vmwEmitSetVb_cbs (i : StateId) (s : Manager) :
    (vmwEmitSetVb i s).2.cbs i =
      if (vmwEmitSetVb i s).1 then
        { s.cbs i with
          dirtyVb := bitmapClear (s.cbs i).dirtyVb (dirtySpan (s.cbs i).dirtyVb 32) }
      else s.cbs i := by
  unfold vmwEmitSetVb
  dsimp only
  split
  · exact cbs_setCbs_self.trans (if_pos rfl).symm
  · rw [(sendSome_cbs _ _ _ s).1]

theorem emitShaders_narrows (i : StateId) (shs : List (Fin 3)) (s : Manager) :
    ((emitShaders i shs s).cbs i).dirty = (s.cbs i).dirty ∧
      ((emitShaders i shs s).cbs i).dirtyVb = (s.cbs i).dirtyVb ∧
      ∀ sh, (s.cbs i).dirtyPs sh = false →
        ((emitShaders i shs s).cbs i).dirtyPs sh = false ∧
          ((emitShaders i shs s).cbs i).dirtySr sh = (s.cbs i).dirtySr sh := by
  induction shs generalizing s with
  | nil => exact ⟨rfl, rfl, fun _ h => ⟨h, rfl⟩⟩
  | cons sh shs ih =>
    have hcbs := vmwEmitSetSr_cbs i sh s
    unfold emitShaders
    dsimp only
    split_ifs with hps hsent
    · rw [if_pos hsent] at hcbs
      obtain ⟨hdirty, hvb, hrest⟩ := ih ((vmwEmitSetSr i sh s).2.setCbs i
        { (vmwEmitSetSr i sh s).2.cbs i with
          dirtyPs := Function.update ((vmwEmitSetSr i sh s).2.cbs i).dirtyPs sh false })
      rw [cbs_setCbs_self, hcbs] at hdirty hvb hrest
      refine ⟨by rw [hcbs]; exact hdirty, by rw [hcbs]; exact hvb, ?_⟩
      intro sh' hsh'
      have hne : sh' ≠ sh := by
        rintro rfl
        rw [hps] at hsh'
        cases hsh'
      rw [hcbs]
      obtain ⟨hleft, hsame⟩ := hrest sh' ((Function.update_of_ne hne _ _).trans hsh')
      exact ⟨hleft, hsame.trans (Function.update_of_ne hne _ _)⟩
    · rw [if_neg hsent] at hcbs
      rw [hcbs]
      exact ⟨rfl, rfl, fun _ h => ⟨h, rfl⟩⟩
    · exact ih s

theorem update_false {f : DirtyBit → Bool} {bit x : DirtyBit} (h : f x = false) :
    Function.update f bit false x = false := by
  by_cases hne : x = bit
  · rw [hne, Function.update_self]
  · rwa [Function.update_of_ne hne]

theorem emitBit_narrows {bit : DirtyBit} (hbit : (s.cbs i).dirty bit = true) :
    Narrows (s.cbs i) ((emitBit i bit s).2.cbs i) := by
  have hemit : Narrows (s.cbs i) ((emitter i bit
      { s with dispatches := s.dispatches ++ [vmwCbsContext (s.cbs i)] }).2.cbs i) := by
    generalize hnote : ({ s with dispatches := s.dispatches ++ [vmwCbsContext (s.cbs i)] } :
      Manager) = s'
    have hcbs : s'.cbs i = s.cbs i := by rw [← hnote]
    rw [← hcbs] at hbit ⊢
    cases bit with
    | rt =>
      change Narrows _ ((sendLater i _ s').2.cbs i)
      rw [(sendLater_cbs i _ s').1]
      exact .refl _
    | so =>
      change Narrows _ ((sendSome i _ _ s').2.cbs i)
      rw [(sendSome_cbs i _ _ s').1]
      exact .refl _
    | ps =>
      obtain ⟨hdirty, hvb, hrest⟩ := emitShaders_narrows i [0, 1, 2] s'
      refine ⟨fun _ h => (congrFun hdirty _).trans h, ?_, hrest, fun _ => hvb⟩
      intro hps
      rw [hbit] at hps
      cases hps
    | vb =>
      change Narrows _ ((vmwEmitSetVb i s').2.cbs i)
      rw [vmwEmitSetVb_cbs]
      split
      · refine ⟨fun _ h => h, fun _ => rfl, fun _ h => ⟨h, rfl⟩, ?_⟩
        intro hvb
        rw [hbit] at hvb
        cases hvb
      · exact .refl _
  unfold emitBit
  dsimp only
  split
  · rw [cbs_setCbs_self]
    exact hemit.trans ⟨fun _ h => update_false h, fun _ => rfl, fun _ h => ⟨h, rfl⟩, fun _ => rfl⟩
  · exact hemit

theorem emitBits_narrows (i : StateId) (bits : List DirtyBit) (s : Manager) :
    Narrows (s.cbs i) ((emitBits i bits s).2.cbs i) := by
  induction bits generalizing s with
  | nil => exact .refl _
  | cons bit bits ih =>
    unfold emitBits
    dsimp only
    split_ifs with hbit
    · exact (emitBit_narrows hbit).trans (ih _)
    · exact emitBit_narrows hbit
    · exact ih s

theorem emitBit_cleared {bit : DirtyBit} (h : (emitBit i bit s).1 = true) :
    ((emitBit i bit s).2.cbs i).dirty bit = false := by
  unfold emitBit at h ⊢
  dsimp only at h ⊢
  split_ifs at h ⊢ with hsent
  · rw [cbs_setCbs_self]
    exact Function.update_self ..
  · exact absurd h hsent

theorem emitBits_cleared {bits : List DirtyBit} (h : (emitBits i bits s).1 = true) :
    ∀ bit ∈ bits, ((emitBits i bits s).2.cbs i).dirty bit = false := by
  induction bits generalizing s with
  | nil =>
    intro bit hbit
    cases hbit
  | cons bit bits ih =>
    intro bit' hbit'
    unfold emitBits at h ⊢
    dsimp only at h ⊢
    split_ifs at h ⊢ with hdirty hsent
    · have hgone := emitBit_cleared hsent
      cases List.mem_cons.1 hbit' with
      | inl heq =>
        rw [heq]
        exact (emitBits_narrows i bits _).dirty bit hgone
      | inr hmem => exact ih h bit' hmem
    · exact absurd h hsent
    · cases List.mem_cons.1 hbit' with
      | inl heq =>
        rw [heq]
        exact (emitBits_narrows i bits s).dirty bit (by simpa using hdirty)
      | inr hmem => exact ih h bit' hmem

end Narrowing

section Passes

def sent (n : ℕ) (cmd : BindCmd) (dev : Device) : Device := if n = 0 then dev else cmd.exec dev

/-- What an emitter does for one shader type when its reservation succeeds. -/
def srPass (valid : ℕ → Bool) (c : ℕ) (sh : Fin 3) (x : Cbs × Device) : Cbs × Device :=
  if x.1.dirtyPs sh then
    let span := dirtySpan (x.1.dirtySr sh) 128
    ({ x.1 with
        dirtySr := Function.update x.1.dirtySr sh (bitmapClear (x.1.dirtySr sh) span)
        dirtyPs := Function.update x.1.dirtyPs sh false },
      sent span.2 (.shaderResources c sh span.1 (collectDirty valid (srAt x.1 sh) span)) x.2)
  else x

def emitterPass (valid : ℕ → Bool) (c : ℕ) (x : Cbs × Device) : DirtyBit → Cbs × Device
  | .rt =>
    (x.1, (BindCmd.renderTargets c (shown valid (x.1.slots .ds))
      (collectLeading valid (rtAt x.1) 8)).exec x.2)
  | .ps => [0, 1, 2].foldl (fun x sh => srPass valid c sh x) x
  | .so =>
    let xs := collectLeading valid (soAt x.1) 4
    (x.1, sent xs.length (.soTargets c xs) x.2)
  | .vb =>
    let span := dirtySpan x.1.dirtyVb 32
    ({ x.1 with dirtyVb := bitmapClear x.1.dirtyVb span },
      sent span.2 (.vertexBuffers c span.1 (collectDirty valid (vbAt x.1) span)) x.2)

/-- One pass of the loop over the dirty bits, when all its reservations succeed. -/
def pass (valid : ℕ → Bool) (c : ℕ) (x : Cbs × Device) (bit : DirtyBit) : Cbs × Device :=
  if x.1.dirty bit then
    let y := emitterPass valid c x bit
    ({ y.1 with dirty := Function.update y.1.dirty bit false }, y.2)
  else x

def view (i : StateId) (s : Manager) : Cbs × Device := (s.cbs i, s.device)

variable (hctx : vmwCbsContext (s.cbs i) = some c)
include hctx

theorem sendSome_sent {n : ℕ} (h : n = 0 ∨ s.later.headD true = true) (cmd : ℕ → BindCmd) :
    (sendSome i n cmd s).1 = true ∧
      view i (sendSome i n cmd s).2 = (s.cbs i, sent n (cmd c) s.device) ∧
      (sendSome i n cmd s).2.later = if n = 0 then s.later else s.later.tail := by
  unfold sendSome sent
  by_cases hn : n = 0
  · rw [if_pos hn, if_pos hn, if_pos hn]
    exact ⟨rfl, rfl, rfl⟩
  · rw [if_neg hn, if_neg hn, if_neg hn]
    have hhead := h.resolve_left hn
    unfold sendLater
    rw [hctx]
    dsimp only
    rw [if_pos hhead]
    exact ⟨rfl, rfl, rfl⟩

theorem sendSome_refused {n : ℕ} (hn : n ≠ 0) (hhead : s.later.headD true = false)
    (cmd : ℕ → BindCmd) :
    (sendSome i n cmd s).1 = false ∧ view i (sendSome i n cmd s).2 = view i s := by
  unfold sendSome
  rw [if_neg hn]
  unfold sendLater
  rw [hctx]
  dsimp only
  rw [if_neg (by rw [hhead]; decide)]
  exact ⟨rfl, rfl⟩

theorem emitter_passes {bit : DirtyBit} (hbit : bit ≠ .ps) :
    ((emitter i bit s).1 = true ∧
      view i (emitter i bit s).2 = emitterPass s.valid c (view i s) bit) ∨
    ((emitter i bit s).1 = false ∧ view i (emitter i bit s).2 = view i s) := by
  have hsend : ∀ (n : ℕ) (cmd : ℕ → BindCmd), ((sendSome i n cmd s).1 = true ∧
      view i (sendSome i n cmd s).2 = (s.cbs i, sent n (cmd c) s.device)) ∨
      ((sendSome i n cmd s).1 = false ∧ view i (sendSome i n cmd s).2 = view i s) := by
    intro n cmd
    by_cases h : n = 0 ∨ s.later.headD true = true
    · obtain ⟨hret, hview, -⟩ := sendSome_sent hctx h cmd
      exact .inl ⟨hret, hview⟩
    · push Not at h
      exact .inr (sendSome_refused hctx h.1 (by simpa using h.2) cmd)
  cases bit with
  | rt => exact hsend 1 _
  | so => exact hsend _ _
  | ps => exact absurd rfl hbit
  | vb =>
    change ((vmwEmitSetVb i s).1 = true ∧ _) ∨ ((vmwEmitSetVb i s).1 = false ∧ _)
    unfold emitter vmwEmitSetVb
    dsimp only
    rcases hsend (dirtySpan (s.cbs i).dirtyVb 32).2 (fun c => .vertexBuffers c
      (dirtySpan (s.cbs i).dirtyVb 32).1 (collectDirty s.valid (vbAt (s.cbs i))
        (dirtySpan (s.cbs i).dirtyVb 32))) with ⟨hret, hview⟩ | ⟨hret, hview⟩
    · rw [if_pos hret]
      refine .inl ⟨rfl, ?_⟩
      unfold view
      rw [cbs_setCbs_self]
      exact congrArg (Prod.mk _) (congrArg Prod.snd hview)
    · rw [if_neg (by rw [hret]; decide)]
      exact .inr ⟨hret, hview⟩

theorem emitBit_passes {bit : DirtyBit} (hbit : bit ≠ .ps) (hdirty : (s.cbs i).dirty bit = true) :
    ((emitBit i bit s).1 = true ∧ view i (emitBit i bit s).2 = pass s.valid c (view i s) bit) ∨
    ((emitBit i bit s).1 = false ∧ view i (emitBit i bit s).2 = view i s) := by
  have hpass : pass s.valid c (view i s) bit =
      ({ (emitterPass s.valid c (view i s) bit).1 with
        dirty := Function.update (emitterPass s.valid c (view i s) bit).1.dirty bit false },
        (emitterPass s.valid c (view i s) bit).2) := if_pos hdirty
  unfold emitBit
  dsimp only
  rcases emitter_passes (s := { s with dispatches := s.dispatches ++ [vmwCbsContext (s.cbs i)] })
    hctx hbit with ⟨hret, hview⟩ | ⟨hret, hview⟩
  · rw [if_pos hret, hpass]
    refine .inl ⟨rfl, ?_⟩
    unfold view at hview ⊢
    obtain ⟨hcbs, hdevice⟩ := Prod.mk.inj hview
    rw [cbs_setCbs_self, hcbs]
    exact congrArg (Prod.mk _) hdevice
  · rw [if_neg (by rw [hret]; decide)]
    exact .inr ⟨hret, hview⟩

theorem emitBits_passes {bits : List DirtyBit} (hbits : .ps ∉ bits) :
    ∃ done rest, bits = done ++ rest ∧ ((emitBits i bits s).1 = true ↔ rest = []) ∧
      view i (emitBits i bits s).2 = done.foldl (pass s.valid c) (view i s) := by
  induction bits generalizing s with
  | nil => exact ⟨[], [], rfl, by simp [emitBits], rfl⟩
  | cons bit bits ih =>
    obtain ⟨hbit, hbits⟩ := not_or.1 (mt List.mem_cons.2 hbits)
    have hkept := emitBit_kept i bit s
    unfold emitBits
    dsimp only
    by_cases hdirty : (s.cbs i).dirty bit = true
    · rw [if_pos hdirty]
      rcases emitBit_passes hctx (Ne.symm hbit) hdirty with ⟨hret, hview⟩ | ⟨hret, hview⟩
      · obtain ⟨done, rest, happ, hall, hrest⟩ := ih
          (s := (emitBit i bit s).2) (by rw [hkept.vmwCbsContext_eq, hctx]) hbits
        rw [if_pos hret]
        refine ⟨bit :: done, rest, by rw [happ]; rfl, hall, ?_⟩
        rw [hrest, hkept.valid, hview]
        rfl
      · rw [if_neg (by rw [hret]; decide)]
        refine ⟨[], bit :: bits, rfl, ?_, hview⟩
        rw [hret]
        simp
    · rw [if_neg hdirty]
      obtain ⟨done, rest, happ, hall, hrest⟩ := ih hctx hbits
      refine ⟨bit :: done, rest, by rw [happ]; rfl, hall, ?_⟩
      have hskip : pass s.valid c (view i s) bit = view i s := if_neg hdirty
      rw [List.foldl_cons, hskip]
      exact hrest

end Passes

section Shaders

theorem dirtySpan_count {bits : ℕ → Bool} {maxNum : ℕ} :
    (dirtySpan bits maxNum).2 = 0 ↔ (List.range maxNum).any bits = false := by
  constructor
  · intro h
    by_contra hany
    simp only [Bool.not_eq_false, List.any_eq_true, List.mem_range] at hany
    obtain ⟨k, hk, hbit⟩ := hany
    have hspan := mem_dirtySpan hk hbit
    omega
  · intro h
    have hfirst : findNextBit bits maxNum 0 = maxNum := by
      unfold findNextBit
      rw [List.find?_eq_none.2]
      · rfl
      · intro k hk
        have hnone := List.any_eq_false.1 h k (by simpa [List.range_eq_range'] using hk)
        exact hnone
    unfold dirtySpan
    dsimp only
    rw [hfirst, Nat.sub_self]
    rfl

def needed (b : Cbs) (shs : List (Fin 3)) : ℕ :=
  shs.countP fun sh => b.dirtyPs sh && (List.range 128).any (b.dirtySr sh)

def Served (n : ℕ) (later : List Bool) : Prop := ∀ k < n, later.getD k true = true

theorem served_succ {n : ℕ} {later : List Bool} :
    Served (n + 1) later ↔ later.headD true = true ∧ Served n later.tail := by
  cases later with
  | nil => simp [Served]
  | cons x xs =>
    constructor
    · intro h
      exact ⟨h 0 (Nat.succ_pos n), fun k hk => h (k + 1) (Nat.succ_lt_succ hk)⟩
    · rintro ⟨hx, hxs⟩ k hk
      cases k with
      | zero => exact hx
      | succ k => exact hxs k (Nat.lt_of_succ_lt_succ hk)

theorem vmwEmitSetSr_passes (hctx : vmwCbsContext (s.cbs i) = some c) {sh : Fin 3}
    (hps : (s.cbs i).dirtyPs sh = true)
    (h : (dirtySpan ((s.cbs i).dirtySr sh) 128).2 = 0 ∨ s.later.headD true = true) :
    (vmwEmitSetSr i sh s).1 = true ∧
      view i ((vmwEmitSetSr i sh s).2.setCbs i { (vmwEmitSetSr i sh s).2.cbs i with
        dirtyPs := Function.update ((vmwEmitSetSr i sh s).2.cbs i).dirtyPs sh false }) =
          srPass s.valid c sh (view i s) ∧
      (vmwEmitSetSr i sh s).2.later =
        if (dirtySpan ((s.cbs i).dirtySr sh) 128).2 = 0 then s.later else s.later.tail := by
  obtain ⟨hret, hview, hlater⟩ := sendSome_sent hctx h (fun c => .shaderResources c sh
    (dirtySpan ((s.cbs i).dirtySr sh) 128).1
    (collectDirty s.valid (srAt (s.cbs i) sh) (dirtySpan ((s.cbs i).dirtySr sh) 128)))
  have hpass : srPass s.valid c sh (view i s) = _ := if_pos hps
  unfold vmwEmitSetSr
  dsimp only
  rw [if_pos hret, hpass]
  refine ⟨rfl, ?_, hlater⟩
  unfold view
  simp only [cbs_setCbs_self]
  exact congrArg (Prod.mk _) (congrArg Prod.snd hview)

theorem vmwEmitSetSr_refused (hctx : vmwCbsContext (s.cbs i) = some c) {sh : Fin 3}
    (hcount : (dirtySpan ((s.cbs i).dirtySr sh) 128).2 ≠ 0) (hhead : s.later.headD true = false) :
    (vmwEmitSetSr i sh s).1 = false ∧ (vmwEmitSetSr i sh s).2.cbs i = s.cbs i := by
  obtain ⟨hret, hview⟩ := sendSome_refused hctx hcount hhead (fun c => .shaderResources c sh
    (dirtySpan ((s.cbs i).dirtySr sh) 128).1
    (collectDirty s.valid (srAt (s.cbs i) sh) (dirtySpan ((s.cbs i).dirtySr sh) 128)))
  unfold vmwEmitSetSr
  dsimp only
  rw [if_neg (by rw [hret]; decide)]
  exact ⟨hret, congrArg Prod.fst hview⟩

theorem needed_srPass (valid : ℕ → Bool) {sh : Fin 3} {shs : List (Fin 3)} (h : sh ∉ shs)
    (x : Cbs × Device) : needed (srPass valid c sh x).1 shs = needed x.1 shs := by
  unfold srPass
  split
  · apply List.countP_congr
    intro sh' hsh'
    have hne : sh' ≠ sh := by
      rintro rfl
      exact h hsh'
    simp only [Function.update_of_ne hne]
  · rfl

theorem emitShaders_passes (hctx : vmwCbsContext (s.cbs i) = some c) {shs : List (Fin 3)}
    (hnodup : shs.Nodup) :
    (Served (needed (s.cbs i) shs) s.later →
      view i (emitShaders i shs s) = shs.foldl (fun x sh => srPass s.valid c sh x) (view i s)) ∧
    (¬ Served (needed (s.cbs i) shs) s.later →
      ∃ sh, ((emitShaders i shs s).cbs i).dirtyPs sh = true) := by
  induction shs generalizing s with
  | nil => exact ⟨fun _ => rfl, fun h => absurd (fun k hk => absurd hk (Nat.not_lt_zero k)) h⟩
  | cons sh shs ih =>
    obtain ⟨hnot, hnodup⟩ := List.nodup_cons.1 hnodup
    have hcount : needed (s.cbs i) (sh :: shs) = needed (s.cbs i) shs +
        if (s.cbs i).dirtyPs sh && (List.range 128).any ((s.cbs i).dirtySr sh) then 1 else 0 :=
      List.countP_cons
    unfold emitShaders
    dsimp only
    by_cases hps : (s.cbs i).dirtyPs sh = true
    · rw [if_pos hps]
      by_cases hgo : (dirtySpan ((s.cbs i).dirtySr sh) 128).2 = 0 ∨ s.later.headD true = true
      · obtain ⟨hret, hview, hlater⟩ := vmwEmitSetSr_passes hctx hps hgo
        have hkept := (vmwEmitSetSr_kept i sh s).trans (kept_setCbs (i := i)
          (b := { (vmwEmitSetSr i sh s).2.cbs i with
            dirtyPs := Function.update ((vmwEmitSetSr i sh s).2.cbs i).dirtyPs sh false }) rfl rfl)
        have hrest := ih (by rw [hkept.vmwCbsContext_eq, hctx]) hnodup
        rw [if_pos hret]
        have hsame := needed_srPass (c := c) s.valid hnot (view i s)
        rw [← hview] at hsame
        have hserved : Served (needed (s.cbs i) (sh :: shs)) s.later ↔
            Served (needed (s.cbs i) shs) (vmwEmitSetSr i sh s).2.later := by
          rw [hcount, hlater]
          by_cases hcnt : (dirtySpan ((s.cbs i).dirtySr sh) 128).2 = 0
          · rw [if_pos hcnt, dirtySpan_count.1 hcnt, if_neg (by simp)]
            rfl
          · have hany : (List.range 128).any ((s.cbs i).dirtySr sh) = true := by
              simpa using mt dirtySpan_count.2 hcnt
            rw [if_neg hcnt, hany, hps, if_pos (by rfl), served_succ]
            exact and_iff_right (hgo.resolve_left hcnt)
        rw [hserved, List.foldl_cons, ← hview]
        change needed _ shs = needed (s.cbs i) shs at hsame
        rw [← hsame]
        have hvalid : s.valid = (vmwEmitSetSr i sh s).2.valid := (vmwEmitSetSr_kept i sh s).valid.symm
        rw [hvalid]
        exact hrest
      · push Not at hgo
        have hhead : s.later.headD true = false := by simpa using hgo.2
        obtain ⟨hret, hcbs⟩ := vmwEmitSetSr_refused hctx hgo.1 hhead
        have hany : (List.range 128).any ((s.cbs i).dirtySr sh) = true := by
          simpa using mt dirtySpan_count.2 hgo.1
        rw [if_neg (by rw [hret]; decide), hcount, hany, hps, if_pos (by rfl), served_succ]
        refine ⟨fun h => absurd h.1 hgo.2, fun _ => ⟨sh, ?_⟩⟩
        rw [hcbs]
        exact hps
    · rw [if_neg hps]
      have hskip : srPass s.valid c sh (view i s) = view i s := if_neg hps
      rw [hcount, if_neg (by simp [hps]), List.foldl_cons, hskip]
      exact ih hctx hnodup

end Shaders

section Stages

theorem emitBits_cons (i : StateId) (bit : DirtyBit) (bits : List DirtyBit) (s : Manager) :
    emitBits i (bit :: bits) s =
      if (s.cbs i).dirty bit then
        if (emitBit i bit s).1 then emitBits i bits (emitBit i bit s).2 else emitBit i bit s
      else emitBits i bits s := rfl

theorem emitBits_append (i : StateId) (xs ys : List DirtyBit) (s : Manager) :
    emitBits i (xs ++ ys) s =
      if (emitBits i xs s).1 then emitBits i ys (emitBits i xs s).2 else emitBits i xs s := by
  induction xs generalizing s with
  | nil => rfl
  | cons bit xs ih =>
    rw [List.cons_append, emitBits_cons, emitBits_cons]
    by_cases hdirty : (s.cbs i).dirty bit = true
    · rw [if_pos hdirty, if_pos hdirty]
      by_cases hsent : (emitBit i bit s).1 = true
      · rw [if_pos hsent, if_pos hsent]
        exact ih _
      · rw [if_neg hsent, if_neg hsent, if_neg hsent]
    · rw [if_neg hdirty, if_neg hdirty]
      exact ih s

theorem emitBit_rt (hctx : vmwCbsContext (s.cbs i) = some c) :
    (emitBit i .rt s).1 = s.later.headD true ∧ (emitBit i .rt s).2.later = s.later.tail := by
  unfold emitBit emitter vmwEmitSetRt sendLater
  dsimp only
  rw [hctx]
  dsimp only
  cases s.later.headD true <;> exact ⟨rfl, rfl⟩

theorem emitBits_rt (hctx : vmwCbsContext (s.cbs i) = some c) :
    ((emitBits i [.rt] s).1 = true ∧
      view i (emitBits i [.rt] s).2 = pass s.valid c (view i s) .rt ∧
      (emitBits i [.rt] s).2.later = (if (s.cbs i).dirty .rt then s.later.tail else s.later) ∧
      ((s.cbs i).dirty .rt = true → s.later.headD true = true)) ∨
    ((emitBits i [.rt] s).1 = false ∧ view i (emitBits i [.rt] s).2 = view i s ∧
      (s.cbs i).dirty .rt = true ∧ s.later.headD true = false) := by
  rw [emitBits_cons]
  by_cases hdirty : (s.cbs i).dirty .rt = true
  · obtain ⟨hhead, hlater⟩ := emitBit_rt hctx
    rw [if_pos hdirty, if_pos hdirty]
    rcases emitBit_passes hctx (show DirtyBit.rt ≠ .ps by decide) hdirty with ⟨hret, hview⟩ | ⟨hret, hview⟩
    · rw [if_pos hret]
      exact .inl ⟨rfl, hview, hlater, fun _ => hhead.symm.trans hret⟩
    · rw [if_neg (by rw [hret]; decide)]
      exact .inr ⟨hret, hview, hdirty, hhead.symm.trans hret⟩
  · have hpass : pass s.valid c (view i s) .rt = view i s := if_neg hdirty
    rw [if_neg hdirty, if_neg hdirty, hpass]
    exact .inl ⟨rfl, rfl, rfl, fun h => absurd h hdirty⟩

theorem emitBits_ps (hctx : vmwCbsContext (s.cbs i) = some c) :
    (emitBits i [.ps] s).1 = true ∧
      (((s.cbs i).dirty .ps = true → Served (needed (s.cbs i) [0, 1, 2]) s.later) →
        view i (emitBits i [.ps] s).2 = pass s.valid c (view i s) .ps) ∧
      ((s.cbs i).dirty .ps = true → ¬ Served (needed (s.cbs i) [0, 1, 2]) s.later →
        ∃ sh, ((emitBits i [.ps] s).2.cbs i).dirtyPs sh = true) := by
  rw [emitBits_cons]
  by_cases hdirty : (s.cbs i).dirty .ps = true
  · have hret : (emitBit i .ps s).1 = true := rfl
    obtain ⟨hall, hsome⟩ := emitShaders_passes
      (s := { s with dispatches := s.dispatches ++ [vmwCbsContext (s.cbs i)] }) hctx
      (show ([0, 1, 2] : List (Fin 3)).Nodup by decide)
    have hpass : pass s.valid c (view i s) .ps = _ := if_pos hdirty
    rw [if_pos hdirty, if_pos hret, hpass]
    refine ⟨rfl, ?_, ?_⟩
    · intro hserved
      obtain ⟨hcbs, hdevice⟩ := Prod.mk.inj (hall (hserved hdirty))
      refine Prod.ext ?_ hdevice
      exact cbs_setCbs_self.trans (congrArg (fun b : Cbs =>
        { b with dirty := Function.update b.dirty .ps false }) hcbs)
    · intro _ hno
      obtain ⟨sh, hsh⟩ := hsome hno
      exact ⟨sh, (congrArg (fun b : Cbs => b.dirtyPs sh) cbs_setCbs_self).trans hsh⟩
  · have hpass : pass s.valid c (view i s) .ps = view i s := if_neg hdirty
    rw [if_neg hdirty, hpass]
    exact ⟨rfl, fun _ => rfl, fun h => absurd h hdirty⟩

/-- No shader type is refused the reservation that it needs, unless the render targets, which
    come first, have been. -/
def Serves (b : Cbs) (later : List Bool) : Prop :=
  b.dirty .ps = true → (b.dirty .rt = true → later.headD true = true) →
    Served (needed b [0, 1, 2]) (if b.dirty .rt then later.tail else later)

instance (n : ℕ) (later : List Bool) : Decidable (Served n later) := by
  unfold Served
  infer_instance

instance (b : Cbs) (later : List Bool) : Decidable (Serves b later) := by
  unfold Serves
  infer_instance

theorem vmwBindingEmitDirty_stages (i : StateId) (s : Manager) :
    vmwBindingEmitDirty i s =
      if (emitBits i [.rt] s).1 then
        if (emitBits i [.ps] (emitBits i [.rt] s).2).1 then
          emitBits i [.so, .vb] (emitBits i [.ps] (emitBits i [.rt] s).2).2
        else emitBits i [.ps] (emitBits i [.rt] s).2
      else emitBits i [.rt] s := by
  have hbits : ([.rt, .ps, .so, .vb] : List DirtyBit) = [.rt] ++ ([.ps] ++ [.so, .vb]) := rfl
  rw [vmwBindingEmitDirty, hbits, emitBits_append, emitBits_append]

theorem rt_stage (c : ℕ) (valid : ℕ → Bool) (x : Cbs × Device) :
    (pass valid c x .rt).1.dirty .ps = x.1.dirty .ps ∧
      needed (pass valid c x .rt).1 [0, 1, 2] = needed x.1 [0, 1, 2] := by
  unfold pass
  split
  · exact ⟨Function.update_of_ne (show DirtyBit.ps ≠ .rt by decide) false x.1.dirty, rfl⟩
  · exact ⟨rfl, rfl⟩

theorem vmwBindingEmitDirty_served (hctx : vmwCbsContext (s.cbs i) = some c)
    (h : Serves (s.cbs i) s.later) : ∃ done rest, [.rt, .ps, .so, .vb] = done ++ rest ∧
      ((vmwBindingEmitDirty i s).1 = true ↔ rest = []) ∧
      view i (vmwBindingEmitDirty i s).2 = done.foldl (pass s.valid c) (view i s) := by
  have hkept := emitBits_kept i [.rt] s
  rw [vmwBindingEmitDirty_stages]
  rcases emitBits_rt hctx with ⟨hret, hview, hlater, hhead⟩ | ⟨hret, hview, -⟩
  · obtain ⟨hps, hneeded⟩ := rt_stage c s.valid (view i s)
    rw [← hview] at hps hneeded
    have hctx' : vmwCbsContext ((emitBits i [.rt] s).2.cbs i) = some c := by
      rw [hkept.vmwCbsContext_eq, hctx]
    obtain ⟨hret', hview', -⟩ := emitBits_ps hctx'
    have hserved : ((emitBits i [.rt] s).2.cbs i).dirty .ps = true →
        Served (needed ((emitBits i [.rt] s).2.cbs i) [0, 1, 2]) (emitBits i [.rt] s).2.later := by
      intro hdirty
      rw [hlater]
      change Served (needed (view i (emitBits i [.rt] s).2).1 _) _
      rw [hneeded]
      exact h (hps.symm.trans hdirty) hhead
    have hkept' := hkept.trans (emitBits_kept i [.ps] (emitBits i [.rt] s).2)
    obtain ⟨done, rest, happ, hall, hview''⟩ := emitBits_passes
      (s := (emitBits i [.ps] (emitBits i [.rt] s).2).2) (i := i) (c := c)
      (by rw [hkept'.vmwCbsContext_eq, hctx]) (show DirtyBit.ps ∉ [.so, .vb] by decide)
    rw [if_pos hret, if_pos hret']
    refine ⟨.rt :: .ps :: done, rest, by rw [happ]; rfl, hall, ?_⟩
    rw [hview'', hview' hserved, hview, hkept'.valid, hkept.valid]
    rfl
  · rw [if_neg (by rw [hret]; decide)]
    refine ⟨[], [.rt, .ps, .so, .vb], rfl, ?_, hview⟩
    rw [hret]
    simp

theorem vmwBindingEmitDirty_unserved (hctx : vmwCbsContext (s.cbs i) = some c)
    (h : ¬ Serves (s.cbs i) s.later) : ¬ Nested ((vmwBindingEmitDirty i s).2.cbs i) := by
  have hkept := emitBits_kept i [.rt] s
  unfold Serves at h
  push Not at h
  obtain ⟨hdirty, hhead, hserved⟩ := h
  rw [vmwBindingEmitDirty_stages]
  rcases emitBits_rt hctx with ⟨hret, hview, hlater, -⟩ | ⟨-, -, hrt, hno⟩
  · obtain ⟨hps, hneeded⟩ := rt_stage c s.valid (view i s)
    rw [← hview] at hps hneeded
    obtain ⟨hret', -, hleft⟩ := emitBits_ps (s := (emitBits i [.rt] s).2) (i := i) (c := c)
      (by rw [hkept.vmwCbsContext_eq, hctx])
    obtain ⟨sh, hsh⟩ := hleft (hps.trans hdirty) (by
      rw [hlater]
      change ¬ Served (needed (view i (emitBits i [.rt] s).2).1 _) _
      rw [hneeded]
      exact hserved)
    have hgone := emitBits_cleared hret' .ps (List.mem_singleton.2 rfl)
    rw [if_pos hret, if_pos hret']
    intro hnested
    have hback := (emitBits_narrows i [.so, .vb] _).nested hnested
    have hset := hback.ps sh hsh
    rw [hgone] at hset
    cases hset
  · rw [hhead hrt] at hno
    cases hno

end Stages

section Nesting

theorem bitmapClear_span {bits : ℕ → Bool} {maxNum k : ℕ} (hk : k < maxNum) :
    bitmapClear bits (dirtySpan bits maxNum) k = false := by
  unfold bitmapClear
  cases hbit : bits k with
  | false => rfl
  | true =>
    have hspan := mem_dirtySpan hk hbit
    rw [decide_eq_true hspan]
    rfl

theorem srPass_bits (valid : ℕ → Bool) (c : ℕ) (sh : Fin 3) (x : Cbs × Device) :
    (srPass valid c sh x).1.dirty = x.1.dirty ∧ (srPass valid c sh x).1.dirtyVb = x.1.dirtyVb ∧
      (srPass valid c sh x).1.dirtyPs = Function.update x.1.dirtyPs sh false ∧
      ∀ sh', ∀ k < 128, (srPass valid c sh x).1.dirtySr sh' k = true →
        x.1.dirtySr sh' k = true ∧ (sh' = sh → x.1.dirtyPs sh = false) := by
  unfold srPass
  split
  · refine ⟨rfl, rfl, rfl, ?_⟩
    intro sh' k hk hbit
    by_cases hsh : sh' = sh
    · subst hsh
      simp only [Function.update_self] at hbit
      rw [bitmapClear_span hk] at hbit
      cases hbit
    · simp only [Function.update_of_ne hsh] at hbit
      exact ⟨hbit, fun h => absurd h hsh⟩
  · next hps =>
    have hfalse : x.1.dirtyPs sh = false := by simpa using hps
    refine ⟨rfl, rfl, ?_, fun _ _ _ hbit => ⟨hbit, fun _ => hfalse⟩⟩
    rw [← hfalse, Function.update_eq_self]

theorem foldl_srPass_bits (valid : ℕ → Bool) (c : ℕ) (shs : List (Fin 3)) (x : Cbs × Device)
    (h : ∀ sh, ∀ k < 128, x.1.dirtySr sh k = true → x.1.dirtyPs sh = true) :
    let y := shs.foldl (fun x sh => srPass valid c sh x) x
    y.1.dirty = x.1.dirty ∧ y.1.dirtyVb = x.1.dirtyVb ∧
      (∀ sh, y.1.dirtyPs sh = true → x.1.dirtyPs sh = true ∧ sh ∉ shs) ∧
      ∀ sh, ∀ k < 128, y.1.dirtySr sh k = true → y.1.dirtyPs sh = true := by
  induction shs generalizing x with
  | nil => exact ⟨rfl, rfl, fun _ hps => ⟨hps, List.not_mem_nil⟩, h⟩
  | cons sh shs ih =>
    obtain ⟨hdirty, hvb, hps, hsr⟩ := srPass_bits valid c sh x
    have hnext : ∀ sh', ∀ k < 128, (srPass valid c sh x).1.dirtySr sh' k = true →
        (srPass valid c sh x).1.dirtyPs sh' = true := by
      intro sh' k hk hbit
      obtain ⟨hold, hother⟩ := hsr sh' k hk hbit
      have hset := h sh' k hk hold
      have hne : sh' ≠ sh := by
        intro heq
        rw [heq, hother heq] at hset
        cases hset
      rw [hps, Function.update_of_ne hne]
      exact hset
    obtain ⟨hdirty', hvb', hps', hsr'⟩ := ih (srPass valid c sh x) hnext
    refine ⟨hdirty'.trans hdirty, hvb'.trans hvb, ?_, hsr'⟩
    intro sh' hbit
    obtain ⟨hset, hnot⟩ := hps' sh' hbit
    rw [hps] at hset
    by_cases heq : sh' = sh
    · rw [heq, Function.update_self] at hset
      cases hset
    · rw [Function.update_of_ne heq] at hset
      exact ⟨hset, fun hmem => (List.mem_cons.1 hmem).elim heq hnot⟩

theorem Nested.clear {b : Cbs} (h : Nested b) {bit : DirtyBit}
    (hps : bit = .ps → ∀ sh, b.dirtyPs sh = false)
    (hvb : bit = .vb → ∀ k < 32, b.dirtyVb k = false) :
    Nested { b with dirty := Function.update b.dirty bit false } := by
  refine ⟨h.sr, ?_, ?_⟩
  · intro sh hset
    have hne : DirtyBit.ps ≠ bit := by
      intro heq
      rw [hps heq.symm sh] at hset
      cases hset
    exact (Function.update_of_ne hne false b.dirty).trans (h.ps sh hset)
  · intro k hk hset
    have hne : DirtyBit.vb ≠ bit := by
      intro heq
      rw [hvb heq.symm k hk] at hset
      cases hset
    exact (Function.update_of_ne hne false b.dirty).trans (h.vb k hk hset)

theorem pass_nested (valid : ℕ → Bool) (c : ℕ) {x : Cbs × Device} (h : Nested x.1)
    (bit : DirtyBit) : Nested (pass valid c x bit).1 := by
  unfold pass
  split
  · apply Nested.clear
    · cases bit with
      | ps =>
        obtain ⟨hdirty, hvb, hps, hsr⟩ := foldl_srPass_bits valid c [0, 1, 2] x h.sr
        refine ⟨hsr, ?_, ?_⟩
        · intro sh hset
          exact (congrFun hdirty _).trans (h.ps sh (hps sh hset).1)
        · intro k hk hbit
          exact (congrFun hdirty _).trans (h.vb k hk ((congrFun hvb k).symm.trans hbit))
      | vb =>
        refine ⟨h.sr, h.ps, ?_⟩
        intro k hk hbit
        have hclear : bitmapClear x.1.dirtyVb (dirtySpan x.1.dirtyVb 32) k = false :=
          bitmapClear_span hk
        exact absurd (hclear.symm.trans hbit) (by decide)
      | rt | so => exact h
    · rintro rfl sh
      obtain ⟨-, -, hps, -⟩ := foldl_srPass_bits valid c [0, 1, 2] x h.sr
      by_contra hset
      exact (hps sh (eq_true_of_ne_false hset)).2 (by fin_cases sh <;> simp)
    · rintro rfl k hk
      exact bitmapClear_span hk
  · exact h

theorem pass_dirty (valid : ℕ → Bool) (c : ℕ) (x : Cbs × Device) (bit : DirtyBit) :
    (pass valid c x bit).1.dirty bit = false ∧
      ∀ bit', x.1.dirty bit' = false → (pass valid c x bit).1.dirty bit' = false := by
  unfold pass
  split
  · have hsame : (emitterPass valid c x bit).1.dirty = x.1.dirty := by
      cases bit with
      | ps =>
        have hstep : ∀ (shs : List (Fin 3)) (y : Cbs × Device),
            (shs.foldl (fun x sh => srPass valid c sh x) y).1.dirty = y.1.dirty := by
          intro shs
          induction shs with
          | nil => exact fun _ => rfl
          | cons sh shs ih => exact fun y => (ih _).trans (srPass_bits valid c sh y).1
        exact hstep _ x
      | rt | so | vb => rfl
    refine ⟨Function.update_self .., ?_⟩
    intro bit' hbit'
    exact update_false ((congrFun hsame bit').trans hbit')
  · next hbit => exact ⟨by simpa using hbit, fun _ h => h⟩

variable {valid : ℕ → Bool} {x : Cbs × Device}

theorem foldl_pass_nested (valid : ℕ → Bool) (c : ℕ) (h : Nested x.1) (bits : List DirtyBit) :
    Nested (bits.foldl (pass valid c) x).1 := by
  induction bits generalizing x with
  | nil => exact h
  | cons bit bits ih => exact ih (pass_nested valid c h bit)

theorem foldl_pass_dirty (bits : List DirtyBit) : ∀ bit, bit ∈ bits ∨ x.1.dirty bit = false →
    (bits.foldl (pass valid c) x).1.dirty bit = false := by
  induction bits generalizing x with
  | nil => exact fun bit h => h.resolve_left List.not_mem_nil
  | cons b bits ih =>
    intro bit h
    obtain ⟨hself, hold⟩ := pass_dirty valid c x b
    apply ih
    rcases h with hmem | hclear
    · rcases List.mem_cons.1 hmem with heq | hmem
      · exact .inr (heq ▸ hself)
      · exact .inl hmem
    · exact .inr (hold bit hclear)

theorem foldl_pass_clear {bits : List DirtyBit} (h : ∀ bit ∈ bits, x.1.dirty bit = false) :
    bits.foldl (pass valid c) x = x := by
  induction bits with
  | nil => rfl
  | cons bit bits ih =>
    have hskip : pass valid c x bit = x := if_neg (by rw [h bit List.mem_cons_self]; decide)
    rw [List.foldl_cons, hskip]
    exact ih fun b hb => h b (List.mem_cons_of_mem _ hb)

end Nesting

/-- What a call of `vmw_binding_emit_dirty` owes: after 0 nothing is dirty, and after an error
    a later call whose reservations succeed finds what is left, so that the device is in the
    end as if the first call had succeeded. -/
structure Tracks (i : StateId) (s : Manager) : Prop where
  done : (vmwBindingEmitDirty i s).1 = true → Clean ((vmwBindingEmitDirty i s).2.cbs i)
  nested : (vmwBindingEmitDirty i s).1 = false → Nested ((vmwBindingEmitDirty i s).2.cbs i)
  later : (vmwBindingEmitDirty i s).1 = false →
    let t := { (vmwBindingEmitDirty i s).2 with later := [] }
    (vmwBindingEmitDirty i t).1 = true ∧ Clean ((vmwBindingEmitDirty i t).2.cbs i) ∧
      (vmwBindingEmitDirty i t).2.device = (vmwBindingEmitDirty i { s with later := [] }).2.device

theorem served_nil (n : ℕ) : Served n [] := fun _ _ => rfl

theorem serves_nil (b : Cbs) : Serves b [] := by
  intro _ _
  cases b.dirty .rt <;> exact served_nil _

theorem vmwBindingEmitDirty_all (hctx : vmwCbsContext (s.cbs i) = some c) (hlater : s.later = []) :
    (vmwBindingEmitDirty i s).1 = true ∧ view i (vmwBindingEmitDirty i s).2 =
      [.rt, .ps, .so, .vb].foldl (pass s.valid c) (view i s) := by
  have hret := (vmwBindingEmitDirty_fine (i := i) (s := s) (by rw [hctx]; rfl)
    (by rw [Fine, hlater]; simp)).1
  obtain ⟨done, rest, happ, hall, hview⟩ := vmwBindingEmitDirty_served hctx
    (by rw [hlater]; exact serves_nil _)
  have hrest := hall.1 hret
  rw [hrest, List.append_nil] at happ
  exact ⟨hret, happ ▸ hview⟩

theorem not_pending_of_done (h : (vmwBindingEmitDirty i s).1 = true) :
    ¬ Pending ((vmwBindingEmitDirty i s).2.cbs i) := by
  rintro ⟨bit, hbit⟩
  have hclear := emitBits_cleared h bit (by cases bit <;> simp)
  exact absurd (hclear.symm.trans hbit) (by decide)

theorem tracks_of_served (hctx : vmwCbsContext (s.cbs i) = some c) (hnested : Nested (s.cbs i))
    (h : Serves (s.cbs i) s.later) : Tracks i s := by
  obtain ⟨done, rest, happ, -, hview⟩ := vmwBindingEmitDirty_served hctx h
  have hkept := vmwBindingEmitDirty_kept i s
  have hleft : Nested ((vmwBindingEmitDirty i s).2.cbs i) := by
    have hfold := foldl_pass_nested s.valid c (x := view i s) hnested done
    rw [← hview] at hfold
    exact hfold
  refine ⟨fun hret => hleft.clean (not_pending_of_done hret), fun _ => hleft, ?_⟩
  intro _
  obtain ⟨hret, hagain⟩ := vmwBindingEmitDirty_all (i := i) (c := c)
    (s := { (vmwBindingEmitDirty i s).2 with later := [] })
    (by rw [← hctx]; exact hkept.vmwCbsContext_eq) rfl
  obtain ⟨-, hwhole⟩ := vmwBindingEmitDirty_all (i := i) (c := c)
    (s := { s with later := [] }) hctx rfl
  have hnested' : Nested ((vmwBindingEmitDirty i
      { (vmwBindingEmitDirty i s).2 with later := [] }).2.cbs i) := by
    have hfold := foldl_pass_nested (vmwBindingEmitDirty i s).2.valid c
      (x := view i { (vmwBindingEmitDirty i s).2 with later := [] }) hleft [.rt, .ps, .so, .vb]
    rw [← hagain] at hfold
    exact hfold
  refine ⟨hret, hnested'.clean (not_pending_of_done hret), ?_⟩
  have hclear : done.foldl (pass s.valid c) (done.foldl (pass s.valid c) (view i s)) =
      done.foldl (pass s.valid c) (view i s) :=
    foldl_pass_clear fun bit hbit => foldl_pass_dirty done bit (.inl hbit)
  have hsame : view i (vmwBindingEmitDirty i
      { (vmwBindingEmitDirty i s).2 with later := [] }).2 =
        view i (vmwBindingEmitDirty i { s with later := [] }).2 := by
    rw [hagain, hwhole, happ]
    change (done ++ rest).foldl (pass (vmwBindingEmitDirty i s).2.valid c)
      (view i (vmwBindingEmitDirty i s).2) = (done ++ rest).foldl (pass s.valid c) (view i s)
    rw [hkept.valid, hview, List.foldl_append, List.foldl_append, hclear]
  exact congrArg Prod.snd hsame

/-- For every state whose dirty bits stand for bindings and every pattern of refused
    reservations: the call does what it owes if and only if the levels of its bitmaps agree and
    no shader type is refused. -/
theorem emit_dirty_tracks_iff (hctx : Pending (s.cbs i) → (vmwCbsContext (s.cbs i)).isSome) :
    Tracks i s ↔ Nested (s.cbs i) ∧ Serves (s.cbs i) s.later := by
  constructor
  · intro h
    have hleft : Nested ((vmwBindingEmitDirty i s).2.cbs i) := by
      cases hret : (vmwBindingEmitDirty i s).1 with
      | true => exact (h.done hret).nested
      | false => exact h.nested hret
    refine ⟨(emitBits_narrows i [.rt, .ps, .so, .vb] s).nested hleft, ?_⟩
    by_cases hp : Pending (s.cbs i)
    · obtain ⟨c, hc⟩ := Option.isSome_iff_exists.1 (hctx hp)
      by_contra hno
      exact vmwBindingEmitDirty_unserved hc hno hleft
    · exact fun hps => absurd ⟨.ps, hps⟩ hp
  · rintro ⟨hnested, hserves⟩
    by_cases hp : Pending (s.cbs i)
    · obtain ⟨c, hc⟩ := Option.isSome_iff_exists.1 (hctx hp)
      exact tracks_of_served hc hnested hserves
    · have hnone : vmwBindingEmitDirty i s = (true, s) := emitBits_of_not_pending hp _
      refine ⟨fun _ => ?_, fun hret => ?_, fun hret => ?_⟩
      · rw [hnone]
        exact hnested.clean hp
      · rw [hnone] at hret
        cases hret
      · rw [hnone] at hret
        cases hret

/-- A shader resource view is bound, then scrubbed; its command has yet to be sent. -/
def scrubbedView (later : List Bool) : Manager :=
  let s := vmwBindingStateCommit 1 0 (vmwBindingAdd (.staged 0, .sr 0 5) ⟨1, some 5, .sr, []⟩
    emptyManager)
  { scrubAll (s.entries (.persistent 1)) s with later := later }

theorem scrubbedView_nested (later : List Bool) :
    Nested ((scrubbedView later).cbs (.persistent 1)) := by
  change Nested ((scrubbedView []).cbs (.persistent 1))
  refine ⟨?_, ?_, ?_⟩
  · decide +kernel
  · decide +kernel
  · decide +kernel

theorem scrubbedView_context (later : List Bool) :
    vmwCbsContext ((scrubbedView later).cbs (.persistent 1)) = some 1 := by
  change vmwCbsContext ((scrubbedView []).cbs (.persistent 1)) = some 1
  decide +kernel

/-- With the reservation the view is told to the device and nothing is dirty. -/
theorem scrubbedView_tracks : Tracks (.persistent 1) (scrubbedView [true]) :=
  (emit_dirty_tracks_iff fun _ => by rw [scrubbedView_context]; rfl).2
    ⟨scrubbedView_nested _, by decide +kernel⟩

/-- Without it the call returns 0, and the view is dirty below a summary bit that is clear. -/
theorem scrubbedView_forgotten : ¬ ∀ (i : StateId) (s : Manager), Nested (s.cbs i) →
    (vmwCbsContext (s.cbs i)).isSome → (vmwBindingEmitDirty i s).1 = true →
      Clean ((vmwBindingEmitDirty i s).2.cbs i) := by
  intro h
  have hclean := h (.persistent 1) (scrubbedView [false]) (scrubbedView_nested _)
    (by rw [scrubbedView_context]; rfl) (by decide +kernel)
  exact absurd (hclean.sr 0 5 (by decide)) (by decide +kernel)

end Vmwgfx.BindingFailures
