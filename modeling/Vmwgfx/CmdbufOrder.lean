import Vmwgfx.CmdbufLane
import Vmwgfx.CmdbufDx

set_option autoImplicit false

/-!
# Commands are executed in the order they were added

On a device that executes in order, as long as only context 0 fails and the work function
gets its preempt command through, every context executes its commands in order, none
twice, and none before what is left of an earlier buffer.
-/
namespace Vmwgfx.CmdbufOrder
open Word32 LabelledRuns CmdbufMachine CmdbufPlaces CmdbufDx CmdbufLane

/-- A command buffer manager on a device that executes in order. -/
abbrev Manager := Man Device DeviceEvent

variable {s t : Manager} {c : Cb} {m : Mode} {e : List ℕ}

theorem forall_ne_zero {p : Cb → Prop} (h : p .one) : ∀ c, c ≠ .zero → p c := by
  intro c hc
  cases c with
  | zero => exact absurd rfl hc
  | one => exact h

def errsOf (error : List ℕ) : Cb → List ℕ
  | .zero => error
  | .one => []

def held (s : Manager) (c : Cb) : List ℕ :=
  errsOf s.error c ++ s.restartHead c ++ (s.ctx c).preempted ++ (s.ctx c).hwSubmitted ++
    (s.ctx c).submitted

/-- What manager and device hold of a context, when `F` came back. -/
def laneOf (s : Manager) (c : Cb) (F : List ℕ) : Lane where
  cb := c
  errs := (errsOf s.error c).map s.headers
  restart := (s.restartHead c).map s.headers
  preempted := (s.ctx c).preempted.map s.headers
  fin := F.map s.headers
  queued := ((s.dev.queue c).map Entry.id).map s.headers
  queue := s.dev.queue c
  submitted := (s.ctx c).submitted.map s.headers
  running := s.dev.running c
  block := (s.ctx c).blockSubmission
  log := s.dev.log c
  lost := s.dev.lost c
  added := s.added c

/-- What is left to execute for a context, in the order in which it will be: of buffers on
    the error list and on the restart list, of those preempted, of those that came back,
    `F`, and of those with the device, and the buffers that wait. -/
def leftOf (s : Manager) (c : Cb) (F : List ℕ) : List Command :=
  ((s.error.filter fun id => (s.headers id).cbContext = c).map s.headers).flatMap remainder ++
    ((s.restartHead c).map s.headers).flatMap Header.cmds ++
    ((s.ctx c).preempted.map s.headers).flatMap Header.cmds ++
    (F.map s.headers).flatMap finishedRest ++ (s.dev.queue c).flatMap Entry.rest ++
    ((s.ctx c).submitted.map s.headers).flatMap Header.cmds

/-- What was executed, and then what is left, are the commands added, in order; none is
    missing except those that failed and what was given up with them. -/
def ExecutedInOrder (s : Manager) (c : Cb) : Prop := ∃ F,
  (s.ctx c).hwSubmitted = F ++ (s.dev.queue c).map Entry.id ∧
    (s.dev.log c ++ leftOf s c F).Sublist (s.added c) ∧
    (s.dev.log c).length + (leftOf s c F).length + (s.dev.lost c).length = (s.added c).length

def InLane (s : Manager) (c : Cb) (m : Mode) : Prop := ∃ F,
  (s.ctx c).hwSubmitted = F ++ (s.dev.queue c).map Entry.id ∧ (laneOf s c F).Ok m ∧
    (c = .one → (laneOf s c F).hot = 0)

theorem InLane.of_eq {F : List ℕ} {l : Lane}
    (hF : (s.ctx c).hwSubmitted = F ++ (s.dev.queue c).map Entry.id) (hl : laneOf s c F = l)
    (hok : l.Ok m) (hcold : c = .one → l.hot = 0) : InLane s c m := by
  subst hl
  exact ⟨F, hF, hok, hcold⟩

def laneMode (m : Mode) : Cb → Mode
  | .zero => m
  | .one => .calm

structure CurOk (s : Manager) (id : ℕ) : Prop where
  status : (s.headers id).status = .none
  filled : totalSize (s.headers id).cmds = s.curPos
  fits : s.curPos ≤ (s.headers id).size
  reserved : s.curLocked = true → s.curPos + (s.headers id).reserved ≤ (s.headers id).size
  size : (s.headers id).size ≤ poolSize

structure HandOk (h : Header) : Prop where
  status : h.status = .none
  empty : h.cmds = []
  reserved : h.reserved ≤ h.size
  size : h.size ≤ poolSize

def Quiet (sched : List (List DeviceEvent)) : Prop := ∀ es ∈ sched, DeviceEvent.fail .one ∉ es

/-- Every header takes the device to the commands that are left of it. -/
def Aimed (headers : ℕ → Header) : Prop := ∀ id, (headers id).ptr = (headers id).cmd

structure Ord (s : Manager) (m : Mode) (e : List ℕ) : Prop where
  inv : Inv s e
  quiet : Quiet s.sched
  lanes : ∀ c, InLane s c (laneMode m c)
  cur : ∀ id, s.cur = some id → CurOk s id
  noCur : s.cur = none → s.curPos = 0
  hands : ∀ id ∈ s.hands, HandOk (s.headers id)
  aimed : Aimed s.headers

section custody

theorem touched_aimed {f g : ℕ → Header} (h : Aimed f) (ht : Touched f g) : Aimed g := by
  intro id
  obtain ⟨_, _, he⟩ := ht id
  rw [he]
  exact h id

theorem update_aimed {f : ℕ → Header} {id : ℕ} {x : Header} (h : Aimed f) (hx : x.ptr = x.cmd) :
    Aimed (Function.update f id x) := by
  intro i
  by_cases hi : i = id
  · subst hi
    rwa [Function.update_self]
  · rw [Function.update_of_ne hi]
    exact h i

theorem held_count (s : Manager) (id : ℕ) : holders s id = (held s .zero).count id +
    (held s .one).count id + s.cur.toList.count id + s.hands.count id := by
  simp only [holders, held, errsOf, ctxHolds, List.count_append, List.count_nil]
  omega

theorem held_le_one (h : Inv s e) (id : ℕ) : (held s .zero).count id + (held s .one).count id +
    s.cur.toList.count id + s.hands.count id + e.count id ≤ 1 := by
  have := h.placed id
  rw [held_count] at this
  split_ifs at this <;> omega

theorem held_nodup (h : Inv s e) (c : Cb) : (held s c).Nodup := by
  rw [List.nodup_iff_count_le_one]
  intro id
  have := held_le_one h id
  cases c <;> omega

theorem held_elsewhere (h : Inv s e) {id : ℕ} (hid : id ∈ held s c) :
    (∀ c', c' ≠ c → id ∉ held s c') ∧ s.cur ≠ some id ∧ id ∉ s.hands ∧ id ∉ e := by
  have hle := held_le_one h id
  have hpos := List.count_pos_iff.2 hid
  refine ⟨?_, ?_, ?_, ?_⟩
  · intro c' hc hin
    have hpos' := List.count_pos_iff.2 hin
    cases c <;> cases c' <;> first | exact hc rfl | omega
  · intro hcur
    rw [hcur, Option.toList_some, List.count_singleton_self] at hle
    cases c <;> omega
  · intro hin
    have := List.count_pos_iff.2 hin
    cases c <;> omega
  · intro hin
    have := List.count_pos_iff.2 hin
    cases c <;> omega

theorem map_update {l : List ℕ} {f : ℕ → Header} {id : ℕ} {x : Header} (h : id ∉ l) :
    l.map (Function.update f id x) = l.map f := by
  refine List.map_congr_left ?_
  intro i hi
  refine Function.update_of_ne ?_ _ _
  rintro rfl
  exact h hi

end custody

section local_change

structure Local (s t : Manager) (c : Cb) : Prop where
  ctx : ∀ c', c' ≠ c → t.ctx c' = s.ctx c'
  queue : ∀ c', c' ≠ c → t.dev.queue c' = s.dev.queue c' ∧ t.dev.running c' = s.dev.running c'
  log : ∀ c', c' ≠ c → t.dev.log c' = s.dev.log c' ∧ t.dev.lost c' = s.dev.lost c'
  errs : ∀ c', c' ≠ c → errsOf t.error c' = errsOf s.error c'
  restart : ∀ c', c' ≠ c → t.restartHead c' = s.restartHead c'
  added : ∀ c', c' ≠ c → t.added c' = s.added c'
  headers : ∀ id ∉ held s c, t.headers id = s.headers id
  own : t.cur = s.cur ∧ t.curPos = s.curPos ∧ t.curLocked = s.curLocked ∧ t.hands = s.hands

theorem Local.lane (h : Local s t c) (hi : Inv s e) {c' : Cb} (hc : c' ≠ c) {F : List ℕ}
    (hF : (s.ctx c').hwSubmitted = F ++ (s.dev.queue c').map Entry.id) :
    laneOf t c' F = laneOf s c' F := by
  have hh : ∀ l : List ℕ, (∀ id ∈ l, id ∈ held s c') → l.map t.headers = l.map s.headers := by
    intro l hl
    refine List.map_congr_left ?_
    intro id hid
    refine h.headers id ?_
    exact fun hin => (held_elsewhere hi (hl id hid)).1 c hc.symm hin
  have hmem : ∀ id, id ∈ held s c' ↔ ((((id ∈ errsOf s.error c' ∨ id ∈ s.restartHead c') ∨
      id ∈ (s.ctx c').preempted) ∨ id ∈ F ∨ id ∈ (s.dev.queue c').map Entry.id) ∨
      id ∈ (s.ctx c').submitted) := by
    intro id
    simp only [held, hF, List.mem_append]
  unfold laneOf
  rw [h.ctx c' hc, (h.queue c' hc).1, (h.queue c' hc).2, (h.log c' hc).1, (h.log c' hc).2,
    h.errs c' hc, h.restart c' hc, h.added c' hc]
  congr 1
  all_goals
    refine hh _ ?_
    intro id hid
    rw [hmem]
    tauto

theorem Local.inLane (h : Local s t c) (hi : Inv s e) {c' : Cb} (hc : c' ≠ c) (hl : InLane s c' m) :
    InLane t c' m := by
  obtain ⟨F, hF, hok, hcold⟩ := hl
  refine ⟨F, ?_, ?_, ?_⟩
  · rw [h.ctx c' hc, (h.queue c' hc).1, hF]
  · rw [h.lane hi hc hF]
    exact hok
  · rw [h.lane hi hc hF]
    exact hcold

theorem Ord.changed (h : Ord s m e) {m' : Mode} {e' : List ℕ} (hl : Local s t c) (hi : Inv t e')
    (ha : Aimed t.headers) (hm : ∀ c', c' ≠ c → laneMode m' c' = laneMode m c') (hq : Quiet t.sched)
    (hc : InLane t c (laneMode m' c)) : Ord t m' e' := by
  obtain ⟨hcur, hpos, hlocked, hhands⟩ := hl.own
  refine ⟨hi, hq, ?_, ?_, ?_, ?_, ha⟩
  · intro c'
    by_cases hcc : c' = c
    · subst hcc
      exact hc
    · rw [hm c' hcc]
      exact hl.inLane h.inv hcc (h.lanes c')
  · intro id hid
    rw [hcur] at hid
    have heq := hl.headers id fun hin => (held_elsewhere h.inv hin).2.1 hid
    obtain ⟨h₁, h₂, h₃, h₄, h₅⟩ := h.cur id hid
    rw [← heq] at h₁ h₂ h₃ h₄ h₅
    rw [← hpos] at h₂ h₃ h₄
    rw [← hlocked] at h₄
    exact ⟨h₁, h₂, h₃, h₄, h₅⟩
  · intro hnone
    rw [hpos]
    exact h.noCur (hcur ▸ hnone)
  · intro id hid
    rw [hhands] at hid
    rw [hl.headers id fun hin => (held_elsewhere h.inv hin).2.2.1 hid]
    exact h.hands id hid

end local_change

section device

def acted (s : Manager) (ev : DeviceEvent) : Manager :=
  { s with
    dev := (deviceAct s.dev ev).1
    headers := applyWrites s.headers (deviceAct s.dev ev).2 }

/-- What the device does by itself: nothing, execute a command, give a buffer back that is
    done or was not executed, or fail. -/
theorem deviceAct_cases (d : Device) (ev : DeviceEvent) :
    deviceAct d ev = (d, []) ∨
    (∃ c id off x rest q, d.running c = true ∧ d.queue c = ⟨id, off, x :: rest⟩ :: q ∧
      deviceAct d ev =
        ({ d with
            queue := Function.update d.queue c (⟨id, off + x.size, rest⟩ :: q)
            log := Function.update d.log c (d.log c ++ [x]) }, [])) ∨
    (∃ c id off rest q st, d.running c = true ∧ d.queue c = ⟨id, off, rest⟩ :: q ∧
      st ≠ .none ∧ st ≠ .commandError ∧ st ≠ .preempted ∧
      deviceAct d ev =
        ({ d with
            queue := Function.update d.queue c q
            lost := Function.update d.lost c (d.lost c ++ rest) }, [⟨id, st, 0⟩])) ∨
    ∃ c id off x rest q, d.running c = true ∧ d.queue c = ⟨id, off, x :: rest⟩ :: q ∧
      ev = .fail c ∧
      deviceAct d ev =
        ({ d with
            queue := Function.update d.queue c q
            running := Function.update d.running c false
            lost := Function.update d.lost c
              (d.lost c ++ x :: if x.known then [] else rest) }, [⟨id, .commandError, off⟩]) := by
  cases ev with
  | exec c =>
    simp only [deviceAct]
    split
    · rename_i id off x rest q hr hq
      exact .inr (.inl ⟨c, id, off, x, rest, q, hr, hq, rfl⟩)
    · exact .inl rfl
  | complete c =>
    simp only [deviceAct]
    split
    · rename_i id off q hr hq
      refine .inr (.inr (.inl ⟨c, id, off, [], q, .completed, hr, hq, by simp, by simp, by simp, ?_⟩))
      rw [List.append_nil, Function.update_eq_self]
    · exact .inl rfl
  | fail c =>
    simp only [deviceAct]
    split
    · rename_i id off x rest q hr hq
      exact .inr (.inr (.inr ⟨c, id, off, x, rest, q, hr, hq, rfl, rfl⟩))
    · exact .inl rfl
  | headerError c =>
    simp only [deviceAct]
    split
    · rename_i id rest q hr hq
      exact .inr (.inr (.inl ⟨c, id, 0, rest, q, .cbHeaderError, hr, hq, by simp, by simp, by simp,
        rfl⟩))
    · exact .inl rfl

theorem laneOf_back {F : List ℕ} {id off : ℕ} {rest : List Command} {q : List Entry} {f : Header}
    {d : Device} (hi : Inv s e) (hF : (s.ctx c).hwSubmitted = F ++ (s.dev.queue c).map Entry.id)
    (hq : s.dev.queue c = ⟨id, off, rest⟩ :: q) (hd : d.queue c = q) :
    laneOf { s with dev := d, headers := Function.update s.headers id f } c (F ++ [id]) =
      { laneOf s c F with
        fin := (laneOf s c F).fin ++ [f]
        queued := (q.map Entry.id).map s.headers
        queue := q
        running := d.running c
        log := d.log c
        lost := d.lost c } := by
  have hnd := held_nodup hi c
  simp only [held, hF, hq, List.map_cons] at hnd
  have hout : id ∉ (errsOf s.error c ++ s.restartHead c ++ (s.ctx c).preempted ++ F) ++
      (q.map Entry.id ++ (s.ctx c).submitted) := by
    refine (List.nodup_cons.1 (List.nodup_middle.1 ?_)).1
    simpa using hnd
  simp only [List.mem_append, not_or] at hout
  obtain ⟨⟨⟨⟨h₁, h₂⟩, h₃⟩, h₄⟩, h₅, h₆⟩ := hout
  unfold laneOf
  simp only [hd, List.map_append, List.map_singleton, Function.update_self]
  congr 1
  · exact map_update h₁
  · exact map_update h₂
  · exact map_update h₃
  · rw [map_update h₄]
  · exact map_update h₅
  · exact map_update h₆

theorem local_act {d : Device} {headers : ℕ → Header}
    (hq : ∀ c', c' ≠ c → d.queue c' = s.dev.queue c' ∧ d.running c' = s.dev.running c')
    (hl : ∀ c', c' ≠ c → d.log c' = s.dev.log c' ∧ d.lost c' = s.dev.lost c')
    (hh : ∀ id ∉ held s c, headers id = s.headers id) :
    Local s { s with dev := d, headers := headers } c :=
  ⟨fun _ _ => rfl, hq, hl, fun _ _ => rfl, fun _ _ => rfl, fun _ _ => rfl, hh,
    rfl, rfl, rfl, rfl⟩

theorem queue_held {F : List ℕ} {id off : ℕ} {rest : List Command} {q : List Entry}
    (hF : (s.ctx c).hwSubmitted = F ++ (s.dev.queue c).map Entry.id)
    (hq : s.dev.queue c = ⟨id, off, rest⟩ :: q) : id ∈ held s c := by
  simp [held, hF, hq]

theorem back_apart {F : List ℕ} {id off : ℕ} {rest : List Command} {q : List Entry} {f : Header}
    (hF : (s.ctx c).hwSubmitted = F ++ (s.dev.queue c).map Entry.id)
    (hq : s.dev.queue c = ⟨id, off, rest⟩ :: q) (i : ℕ) (hin : i ∉ held s c) :
    Function.update s.headers id f i = s.headers i := by
  refine Function.update_of_ne ?_ _ _
  rintro rfl
  exact hin (queue_held hF hq)

theorem deviceAct_inv (h : Inv s e) (d : Device) (ws : List Write) :
    Inv ({ s with dev := d, headers := applyWrites s.headers ws } : Manager) e :=
  ⟨h.placed, h.counted, h.limit, touched_tagged h.tagged (applyWrites_touched _ _)⟩

theorem acted_ord (h : Ord s m e) {ev : DeviceEvent} (hev : ev ≠ .fail .one) :
    Ord (acted s ev) m e := by
  have hi := deviceAct_inv h.inv (deviceAct s.dev ev).1 (deviceAct s.dev ev).2
  have ha := touched_aimed h.aimed (applyWrites_touched s.headers (deviceAct s.dev ev).2)
  rcases deviceAct_cases s.dev ev with heq | ⟨c, id, off, x, rest, q, hr, hq, heq⟩ |
    ⟨c, id, off, rest, q, st, hr, hq, hst, hc, hp, heq⟩ | ⟨c, id, off, x, rest, q, hr, hq, hfail, heq⟩
  · unfold acted
    rw [heq]
    exact h
  · obtain ⟨F, hF, hok, hcold⟩ := h.lanes c
    have hok' := hok.exec hr hq
    rw [heq] at hi ha
    unfold acted
    rw [heq]
    refine h.changed (c := c) (local_act ?_ ?_ fun _ _ => rfl) hi ha (fun _ _ => rfl) h.quiet
      (InLane.of_eq (F := F) ?_ ?_ hok' fun _ => (hok'.running_calm hr).2)
    · intro c' hcc
      exact ⟨Function.update_of_ne hcc .., rfl⟩
    · intro c' hcc
      exact ⟨Function.update_of_ne hcc .., rfl⟩
    · simp [hF, hq]
    · simp [laneOf, hq, applyWrites]
  · obtain ⟨F, hF, hok, hcold⟩ := h.lanes c
    set f : Header := { s.headers id with status := st, errorOffset := 0 } with hf
    have hok' := hok.finish (f := f) (b := s.headers id) (k := (q.map Entry.id).map s.headers) hr
      (by simp [laneOf, hq]) hq (fun hfr => hfr) hst hc hp
    rw [heq] at hi ha
    unfold acted
    rw [heq]
    refine h.changed (c := c) (local_act ?_ ?_ ?_) hi ha (fun _ _ => rfl) h.quiet
      (InLane.of_eq (F := F ++ [id]) ?_ ?_ hok' fun _ => (hok'.running_calm hr).2)
    · intro c' hcc
      exact ⟨Function.update_of_ne hcc .., rfl⟩
    · intro c' hcc
      exact ⟨rfl, Function.update_of_ne hcc ..⟩
    · exact back_apart hF hq
    · simp [hF, hq]
    · refine (laneOf_back (f := f) h.inv hF hq (Function.update_self c q s.dev.queue)).trans ?_
      simp [laneOf]
  · subst hfail
    obtain rfl : c = .zero := by
      cases c with
      | zero => rfl
      | one => exact absurd rfl hev
    obtain ⟨F, hF, hok, hcold⟩ := h.lanes .zero
    set f : Header := { s.headers id with status := .commandError, errorOffset := off } with hf
    have hok' := hok.fail (f := f) (b := s.headers id) (k := (q.map Entry.id).map s.headers) hr
      (by simp [laneOf, hq]) hq (fun hfr => hfr) rfl rfl rfl
    rw [heq] at hi ha
    unfold acted
    rw [heq]
    refine h.changed (c := .zero) (local_act ?_ ?_ ?_) hi ha (fun _ _ => rfl) h.quiet
      (InLane.of_eq (F := F ++ [id]) ?_ ?_ hok' (by simp))
    · intro c' hcc
      exact ⟨Function.update_of_ne hcc .., Function.update_of_ne hcc ..⟩
    · intro c' hcc
      exact ⟨rfl, Function.update_of_ne hcc ..⟩
    · exact back_apart hF hq
    · simp [hF, hq]
    · refine (laneOf_back (f := f) h.inv hF hq (Function.update_self Cb.zero q s.dev.queue)).trans ?_
      simp [laneOf]

theorem deviceRun_ord (es : List DeviceEvent) (h : Ord s m e) (hes : DeviceEvent.fail .one ∉ es) :
    Ord (deviceRun inOrderHost es s) m e := by
  induction es generalizing s with
  | nil => exact h
  | cons ev es ih =>
    rw [List.mem_cons, not_or] at hes
    exact ih (acted_ord h (Ne.symm hes.1)) hes.2

/-- What no lane depends on: what the device does next, the interrupt, the place of the work
function and the pool. -/
theorem Ord.aside (h : Ord s m e) {sched : List (List DeviceEvent)} (hq : Quiet sched)
    (irqOn : Bool) (phase : Phase) (b mob : Bool) (n : ℕ) :
    Ord { s with
      sched := sched, irqOn := irqOn, phase := phase, hasPool := b, usingMob := mob
      defaultSize := n } m e := by
  refine ⟨⟨h.inv.placed, h.inv.counted, h.inv.limit, h.inv.tagged⟩, hq, h.lanes, ?_, h.noCur,
    h.hands, h.aimed⟩
  intro id hid
  obtain ⟨h₁, h₂, h₃, h₄, h₅⟩ := h.cur id hid
  exact ⟨h₁, h₂, h₃, h₄, h₅⟩

theorem Ord.setSched (h : Ord s m e) {sched : List (List DeviceEvent)} (hq : Quiet sched) :
    Ord { s with sched := sched } m e :=
  h.aside hq s.irqOn s.phase s.hasPool s.usingMob s.defaultSize

theorem tick_ord (h : Ord s m e) : Ord (tick inOrderHost s) m e := by
  have hq : Quiet s.sched.tail := fun es hes => h.quiet es (List.mem_of_mem_tail hes)
  refine deviceRun_ord _ (h.setSched hq) ?_
  cases hs : s.sched with
  | nil => simp
  | cons es sched => exact h.quiet es (by simp [hs])

end device

section process

theorem headerSubmit_cases (ha : Aimed (tick inOrderHost s).headers) (c : Cb) (id : ℕ) :
    (headerSubmit inOrderHost s c id =
      { tick inOrderHost s with
        headers := Function.update (tick inOrderHost s).headers id
          { (tick inOrderHost s).headers id with status := .queueFull, errorOffset := 0 }
        handed := (tick inOrderHost s).handed ++ [(tick inOrderHost s).headers id] }) ∨
    headerSubmit inOrderHost s c id =
      { tick inOrderHost s with
        dev := { (tick inOrderHost s).dev with
          queue := Function.update (tick inOrderHost s).dev.queue c
            ((tick inOrderHost s).dev.queue c ++ [⟨id, 0, ((tick inOrderHost s).headers id).cmds⟩]) }
        handed := (tick inOrderHost s).handed ++ [(tick inOrderHost s).headers id] } := by
  have hfetched : fetched (tick inOrderHost s).dev ((tick inOrderHost s).headers id) =
      ((tick inOrderHost s).headers id).cmds := if_pos (ha id)
  simp only [headerSubmit]
  generalize tick inOrderHost s = u at *
  simp only [inOrderHost, deviceSubmit, hfetched]
  split_ifs
  · exact .inl rfl
  · exact .inr rfl

theorem submitted_out {id : ℕ} {rest : List ℕ} (hi : Inv s e)
    (hl : (s.ctx c).submitted = id :: rest) :
    id ∉ errsOf s.error c ++ s.restartHead c ++ (s.ctx c).preempted ++ (s.ctx c).hwSubmitted ∧
      id ∉ rest := by
  have hnd := held_nodup hi c
  rw [held, hl] at hnd
  have := (List.nodup_cons.1 (List.nodup_middle.1 hnd)).1
  rwa [List.mem_append, not_or] at this

theorem waiting_status {id : ℕ} {rest : List ℕ} (h : Ord s m e)
    (hl : (s.ctx c).submitted = id :: rest) : (s.headers id).status = .none := by
  obtain ⟨F, hF, hok, -⟩ := h.lanes c
  refine hok.resting _ ?_
  simp [laneOf, hl]

theorem tick_ctx (s : Manager) : (tick inOrderHost s).ctx = s.ctx := by
  obtain ⟨_, _, _, he, _⟩ := tick_eq inOrderHost s
  rw [he]

theorem waiting_held {id : ℕ} {rest : List ℕ} (hl : (s.ctx c).submitted = id :: rest) :
    id ∈ held s c := by simp [held, hl]

theorem refused_ord {id : ℕ} {rest : List ℕ} (h : Ord s m e)
    (hl : (s.ctx c).submitted = id :: rest)
    (hfull : ((headerSubmit inOrderHost s c id).headers id).status = .queueFull) :
    Ord (setStatus (headerSubmit inOrderHost s c id) id .none) m e := by
  have ht := tick_ord h
  have hinv : Inv (setStatus (headerSubmit inOrderHost s c id) id .none) e := by
    have hs := headerSubmit_inv (H := inOrderHost) h.inv c id
    exact setHeader_inv hs (hs.tagged id)
  rw [← tick_ctx s] at hl
  rcases headerSubmit_cases ht.aimed c id with heq | heq
  · rw [heq] at hinv ⊢
    generalize tick inOrderHost s = u at *
    set b : Header := { u.headers id with status := .none, errorOffset := 0 } with hb
    have heq : setStatus { u with
        headers := Function.update u.headers id
          { u.headers id with status := .queueFull, errorOffset := 0 }
        handed := u.handed ++ [u.headers id] } id .none =
        { u with
          headers := Function.update u.headers id b, handed := u.handed ++ [u.headers id] } := by
      simp [setStatus, setHeader, Function.update_idem, hb]
    rw [heq] at hinv ⊢
    obtain ⟨F, hF, hok, hcold⟩ := ht.lanes c
    obtain ⟨hout, hrest⟩ := submitted_out ht.inv hl
    simp only [hF, List.mem_append, not_or] at hout
    obtain ⟨⟨⟨h₁, h₂⟩, h₃⟩, h₄, h₅⟩ := hout
    have hlane : laneOf { u with
        headers := Function.update u.headers id b, handed := u.handed ++ [u.headers id] } c F =
        { laneOf u c F with submitted := b :: rest.map u.headers } := by
      simp only [laneOf, hl, List.map_cons, Function.update_self, map_update h₁, map_update h₂,
        map_update h₃, map_update h₄, map_update h₅, map_update hrest]
    have hok' := hok.refuse (b := u.headers id) (d := b) (k := rest.map u.headers)
      (by simp [laneOf, hl]) (fun hfr => hfr) rfl rfl
    refine ht.changed (c := c) ⟨fun _ _ => rfl, fun _ _ => ⟨rfl, rfl⟩, fun _ _ => ⟨rfl, rfl⟩,
      fun _ _ => rfl, fun _ _ => rfl, fun _ _ => rfl, ?_, rfl, rfl, rfl, rfl⟩ hinv
      (update_aimed ht.aimed (ht.aimed id)) (fun _ _ => rfl) ht.quiet
      (InLane.of_eq (F := F) hF hlane hok' hcold)
    intro i hin
    refine Function.update_of_ne ?_ _ _
    rintro rfl
    exact hin (waiting_held hl)
  · rw [heq] at hfull
    have := waiting_status ht hl
    rw [hfull] at this
    cases this

theorem moved_ord {id : ℕ} {rest : List ℕ} (h : Ord s m e)
    (hl : (s.ctx c).submitted = id :: rest) (hlt : (s.ctx c).numHwSubmitted < s.maxHwSubmitted)
    (hblock : (s.ctx c).blockSubmission = false)
    (hnot : ((headerSubmit inOrderHost s c id).headers id).status ≠ .queueFull) :
    Ord (moveToHw (headerSubmit inOrderHost s c id) c id rest) m e := by
  have ht := tick_ord h
  have hinv := (inv_rule inOrderHost e).move hl hlt hblock hnot h.inv
  rw [← tick_ctx s] at hl hblock
  rcases headerSubmit_cases ht.aimed c id with heq | heq
  · rw [heq] at hnot
    exact absurd (by simp) hnot
  · rw [heq] at hinv ⊢
    generalize tick inOrderHost s = u at *
    obtain ⟨F, hF, hok, hcold⟩ := ht.lanes c
    have hok' := hok.submit (b := u.headers id) (k := rest.map u.headers) id
      (by simp [laneOf, hl]) hblock
    refine ht.changed (c := c) ⟨?_, ?_, fun _ _ => ⟨rfl, rfl⟩, fun _ _ => rfl, fun _ _ => rfl,
      fun _ _ => rfl, fun _ _ => rfl, rfl, rfl, rfl, rfl⟩ hinv ht.aimed (fun _ _ => rfl) ht.quiet
      (InLane.of_eq (F := F) ?_ ?_ hok' hcold)
    · intro c' hcc
      exact Function.update_of_ne hcc ..
    · intro c' hcc
      exact ⟨Function.update_of_ne hcc .., rfl⟩
    · simp [moveToHw, setCtx, hF]
    · simp [laneOf, moveToHw, setCtx]

theorem came_back {id : ℕ} {rest : List ℕ} (h : Ord s m e)
    (hl : (s.ctx c).hwSubmitted = id :: rest) (hst : (s.headers id).status ≠ .none) : ∃ F,
    rest = F ++ (s.dev.queue c).map Entry.id ∧ (laneOf s c (id :: F)).Ok (laneMode m c) ∧
      (c = .one → (laneOf s c (id :: F)).hot = 0) := by
  obtain ⟨F, hF, hok, hcold⟩ := h.lanes c
  rw [hl] at hF
  cases F with
  | nil =>
    have hent := hok.entries
    rw [List.nil_append] at hF
    simp only [laneOf, ← hF, List.map_cons] at hent
    obtain ⟨_, _, hx, _⟩ := List.forall₂_cons_left_iff.1 hent
    exact absurd hx.1 hst
  | cons i F =>
    obtain ⟨rfl, rfl⟩ := List.cons.inj hF
    exact ⟨F, rfl, hok, hcold⟩

theorem hw_out {id : ℕ} {F : List ℕ} (hi : Inv s e)
    (hl : (s.ctx c).hwSubmitted = id :: (F ++ (s.dev.queue c).map Entry.id)) :
    (id ∉ errsOf s.error c ∧ id ∉ s.restartHead c ∧ id ∉ (s.ctx c).preempted) ∧
      id ∉ F ∧ id ∉ (s.dev.queue c).map Entry.id ∧ id ∉ (s.ctx c).submitted := by
  have hnd := held_nodup hi c
  rw [held, hl, List.append_assoc _ (id :: _), List.cons_append] at hnd
  have := (List.nodup_cons.1 (List.nodup_middle.1 hnd)).1
  simp only [List.mem_append, not_or] at this
  tauto

theorem settle_default (s : Manager) (c : Cb) (id : ℕ) {st : Status} (hc : st ≠ .commandError)
    (hp : st ≠ .preempted) : settle s c id st = headerFree s id := by
  cases st <;> first | contradiction | rfl

theorem settled_ord {id : ℕ} {rest : List ℕ} (h : Ord s m e)
    (hl : (s.ctx c).hwSubmitted = id :: rest) (hst : (s.headers id).status ≠ .none) :
    Ord (settle (takeHw s c rest) c id (s.headers id).status) m e := by
  have hinv := settle_inv (c := c) (takeHw_inv h.inv hl) (s.headers id).status
  obtain ⟨F, hrest, hok, hcold⟩ := came_back h hl hst
  subst hrest
  obtain ⟨⟨h₁, h₂, h₃⟩, h₄, h₅, h₆⟩ := hw_out h.inv hl
  have hheld : ∀ (x : Header), ∀ i ∉ held s c, Function.update s.headers id x i = s.headers i := by
    intro x i hin
    refine Function.update_of_ne ?_ _ _
    rintro rfl
    exact hin (by simp [held, hl])
  by_cases hc : (s.headers id).status = .commandError
  · have hzero : c = .zero := by
      cases c with
      | zero => rfl
      | one =>
        have := (Lane.cold_iff.1 (hcold rfl)).2 (s.headers id) (by simp [laneOf])
        exact absurd hc this
    subst hzero
    rw [hc] at hinv ⊢
    have hok' := hok.error (f := s.headers id) (k := F.map s.headers) (by simp [laneOf]) hc
    refine h.changed (c := .zero) ⟨?_, fun _ _ => ⟨rfl, rfl⟩, fun _ _ => ⟨rfl, rfl⟩, ?_,
      fun _ _ => rfl, fun _ _ => rfl, hheld _, rfl, rfl, rfl, rfl⟩ hinv
      (update_aimed h.aimed (h.aimed id)) (fun _ _ => rfl) h.quiet (InLane.of_eq (F := F) ?_ ?_ hok' (by simp))
    · intro c' hcc
      exact Function.update_of_ne hcc ..
    · exact forall_ne_zero rfl
    · simp [settle, setStatus, setHeader, takeHw, setCtx]
    · have h₁ : id ∉ s.error := h₁
      simp only [laneOf, settle, setStatus, setHeader, takeHw, setCtx, errsOf, List.map_append,
        List.map_singleton, Function.update_self, map_update h₁, map_update h₂, map_update h₃,
        map_update h₄, map_update h₅, map_update h₆]
  · by_cases hp : (s.headers id).status = .preempted
    · rw [hp] at hinv ⊢
      have hok' := hok.keep (f := s.headers id) (k := F.map s.headers) (by simp [laneOf]) hp
      refine h.changed (c := c) ⟨?_, fun _ _ => ⟨rfl, rfl⟩, fun _ _ => ⟨rfl, rfl⟩,
        fun _ _ => rfl, fun _ _ => rfl, fun _ _ => rfl, hheld _, rfl, rfl, rfl, rfl⟩ hinv
        (update_aimed h.aimed (h.aimed id)) (fun _ _ => rfl) h.quiet (InLane.of_eq (F := F) ?_ ?_ hok' ?_)
      · intro c' hcc
        exact (Function.update_of_ne hcc ..).trans (Function.update_of_ne hcc ..)
      · simp [settle, setStatus, setHeader, takeHw, setCtx]
      · simp only [laneOf, settle, setStatus, setHeader, takeHw, setCtx, List.map_append,
          List.map_singleton, Function.update_self, map_update h₁, map_update h₂, map_update h₃,
          map_update h₄, map_update h₅, map_update h₆]
      · intro hone
        exact Lane.cold_of_subset (hcold hone) rfl (List.subset_cons_self _ _)
    · rw [settle_default _ _ _ hc hp] at hinv ⊢
      have hok' := hok.free (f := s.headers id) (k := F.map s.headers) (by simp [laneOf]) hc hp
      refine h.changed (c := c) ⟨?_, fun _ _ => ⟨rfl, rfl⟩, fun _ _ => ⟨rfl, rfl⟩,
        fun _ _ => rfl, fun _ _ => rfl, fun _ _ => rfl, fun _ _ => rfl, rfl, rfl, rfl, rfl⟩ hinv
        h.aimed (fun _ _ => rfl) h.quiet (InLane.of_eq (F := F) ?_ ?_ hok' ?_)
      · intro c' hcc
        exact Function.update_of_ne hcc ..
      · simp [headerFree, takeHw, setCtx]
      · simp [laneOf, headerFree, takeHw, setCtx]
      · intro hone
        exact Lane.cold_of_subset (hcold hone) rfl (List.subset_cons_self _ _)

theorem ord_rule (m : Mode) (e : List ℕ) :
    ProcessRule inOrderHost fun s t : Manager => Ord s m e → Ord t m e where
  refl := fun _ h => h
  trans := fun h h' hs => h' (h hs)
  tick := fun _ h => tick_ord h
  full := fun hl _ hfull h => refused_ord h hl hfull
  move := fun hl hlt hblock hnot h => moved_ord h hl hlt hblock hnot
  settle := fun hl hst h => settled_ord h hl hst
  irq := fun s b h => h.aside h.quiet b s.phase s.hasPool s.usingMob s.defaultSize

end process

section submission

theorem InLane.frame (h : InLane s c m) (hctx : t.ctx = s.ctx) (hdev : t.dev = s.dev)
    (herr : t.error = s.error) (hrestart : t.restartHead = s.restartHead)
    (hadded : t.added = s.added) (hh : ∀ id ∈ held s c, t.headers id = s.headers id) :
    InLane t c m := by
  obtain ⟨F, hF, hok, hcold⟩ := h
  have hmap : ∀ l : List ℕ, (∀ id ∈ l, id ∈ held s c) → l.map t.headers = l.map s.headers :=
    fun l hl => List.map_congr_left fun id hid => hh id (hl id hid)
  refine InLane.of_eq (F := F) (by rw [hctx, hdev, hF]) ?_ hok hcold
  unfold laneOf
  rw [hctx, hdev, herr, hrestart, hadded]
  congr 1
  all_goals
    refine hmap _ ?_
    intro id hid
    simp only [held, hF, List.mem_append]
    tauto

theorem extra_out {id : ℕ} (h : Inv s (id :: e)) :
    (∀ c, id ∉ held s c) ∧ s.cur ≠ some id ∧ id ∉ s.hands := by
  refine ⟨?_, ?_, ?_⟩
  · intro c hin
    exact (held_elsewhere h hin).2.2.2 (by simp)
  · exact (inv_absent h).2
  · exact (inv_absent h).1

theorem setExtra_ord {id : ℕ} {x : Header} (h : Ord s m (id :: e))
    (hx : x.cbContext ∈ contexts s) (ha : x.ptr = x.cmd) : Ord (setHeader s id x) m (id :: e) := by
  obtain ⟨hheld, hcur, hhands⟩ := extra_out h.inv
  have hsame : ∀ i, i ≠ id → (setHeader s id x).headers i = s.headers i :=
    fun i hi => Function.update_of_ne hi ..
  refine ⟨setHeader_inv h.inv hx, h.quiet, ?_, ?_, h.noCur, ?_, update_aimed h.aimed ha⟩
  · intro c
    refine (h.lanes c).frame rfl rfl rfl rfl rfl ?_
    intro i hi
    refine hsame i ?_
    rintro rfl
    exact hheld c hi
  · intro i hi
    have heq := hsame i (by rintro rfl; exact hcur hi)
    obtain ⟨h₁, h₂, h₃, h₄, h₅⟩ := h.cur i hi
    rw [← heq] at h₁ h₂ h₃ h₄ h₅
    exact ⟨h₁, h₂, h₃, h₄, h₅⟩
  · intro i hi
    rw [hsame i (by rintro rfl; exact hhands hi)]
    exact h.hands i hi

theorem freeExtra_ord {id : ℕ} (h : Ord s m (id :: e)) : Ord (headerFree s id) m e := by
  refine ⟨headerFree_inv h.inv, h.quiet, h.lanes, ?_, h.noCur, h.hands, h.aimed⟩
  intro i hi
  obtain ⟨h₁, h₂, h₃, h₄, h₅⟩ := h.cur i hi
  exact ⟨h₁, h₂, h₃, h₄, h₅⟩

theorem enqueue_ord {id : ℕ} (h : Ord s m (id :: e)) (hc : c ∈ contexts s)
    (hst : (s.headers id).status = .none)
    (hlen : totalSize (s.headers id).cmds = (s.headers id).length)
    (hlt : (s.headers id).length < 2 ^ 32) : Ord (enqueue s id c) m e := by
  set b : Header := { s.headers id with
    dxContext := if (s.headers id).dxFlag then (s.headers id).dxContext else 0, cbContext := c }
    with hb
  have hset := setExtra_ord (x := b) h hc (h.aimed id)
  have heq : enqueue s id c = { setHeader s id b with
      ctx := Function.update s.ctx c
        { s.ctx c with submitted := (s.ctx c).submitted ++ [id] }
      added := Function.update s.added c (s.added c ++ (s.headers id).cmds) } := rfl
  have hinv := enqueue_inv h.inv hc
  rw [heq] at hinv ⊢
  obtain ⟨F, hF, hok, hcold⟩ := hset.lanes c
  have hok' := hok.add (b := b) ⟨hlen, hlt, rfl⟩ hst
  refine hset.changed (c := c) ⟨?_, fun _ _ => ⟨rfl, rfl⟩, fun _ _ => ⟨rfl, rfl⟩,
    fun _ _ => rfl, fun _ _ => rfl, ?_, fun _ _ => rfl, rfl, rfl, rfl, rfl⟩ hinv
    hset.aimed (fun _ _ => rfl) hset.quiet (InLane.of_eq (F := F) ?_ ?_ hok' hcold)
  · intro c' hcc
    exact Function.update_of_ne hcc ..
  · intro c' hcc
    exact Function.update_of_ne hcc ..
  · simpa [setHeader] using hF
  · simp [laneOf, setHeader, hb]

theorem curOut_ord {id : ℕ} (h : Ord s m e) (hcur : s.cur = some id) :
    Ord { s with cur := none, curPos := 0 } m (id :: e) := by
  refine ⟨curOut_inv h.inv hcur, h.quiet, h.lanes, ?_, fun _ => rfl, h.hands, h.aimed⟩
  intro i hi
  cases hi

theorem flush_ord {id : ℕ} (hcur : s.cur = some id)
    (hout : Ord { s with cur := none, curPos := 0 } m (id :: e))
    (hst : (s.headers id).status = .none) (hfill : totalSize (s.headers id).cmds = s.curPos)
    (hlt : s.curPos ≤ poolSize) : Ord (vmwCmdbufCurFlush inOrderHost s) m e := by
  have hlt : s.curPos < 2 ^ 32 := by
    unfold poolSize at hlt
    omega
  unfold vmwCmdbufCurFlush
  rw [hcur]
  dsimp only
  split_ifs with hpos
  · exact freeExtra_ord hout
  · have hset := setExtra_ord (x := { s.headers id with length := s.curPos % 2 ^ 32 }) hout
      (hout.inv.tagged id) (hout.aimed id)
    refine (ord_rule m e).manProcess _ (enqueue_ord hset (zero_mem_contexts _) ?_ ?_ ?_)
    · simpa [setHeader] using hst
    · simp only [setHeader, Function.update_self]
      rw [Nat.mod_eq_of_lt hlt]
      exact hfill
    · simpa [setHeader] using Nat.mod_lt s.curPos (by norm_num)

theorem vmwCmdbufCurFlush_ord (h : Ord s m e) : Ord (vmwCmdbufCurFlush inOrderHost s) m e := by
  cases hcur : s.cur with
  | none =>
    unfold vmwCmdbufCurFlush
    rw [hcur]
    exact h
  | some id =>
    obtain ⟨hst, hfill, hfits, -, hsize⟩ := h.cur id hcur
    exact flush_ord hcur (curOut_ord h hcur) hst hfill (hfits.trans hsize)

theorem newHeader_ord (h : Ord s m e) (plan : Plan) (size : ℕ) (inl mob : Bool) :
    let r := newHeader s plan (freshHeader size plan.ptr inl mob)
    Ord r.2 m (r.1.toList ++ e) ∧
      ∀ id, r.1 = some id → r.2.headers id = freshHeader size plan.ptr inl mob := by
  have hinv := newHeader_inv h.inv plan size inl mob
  unfold newHeader at hinv ⊢
  dsimp only at hinv ⊢
  by_cases hno : plan.ok = false ∨ plan.id ∈ s.live
  · rw [if_pos hno]
    exact ⟨h, by simp⟩
  · rw [if_neg hno] at hinv ⊢
    push Not at hno
    have hzero : (held s .zero).count plan.id + (held s .one).count plan.id +
        s.cur.toList.count plan.id + s.hands.count plan.id = 0 := by
      have := h.inv.placed plan.id
      rw [if_neg hno.2, held_count] at this
      omega
    have hsame : ∀ i, i ≠ plan.id → Function.update s.headers plan.id
        (freshHeader size plan.ptr inl mob) i = s.headers i := fun i hi => Function.update_of_ne hi ..
    refine ⟨⟨hinv, h.quiet, ?_, ?_, h.noCur, ?_, update_aimed h.aimed rfl⟩, ?_⟩
    · intro c
      refine (h.lanes c).frame rfl rfl rfl rfl rfl ?_
      intro i hi
      refine hsame i ?_
      rintro rfl
      have := List.count_pos_iff.2 hi
      cases c <;> omega
    · intro i hi
      have hne : i ≠ plan.id := by
        rintro rfl
        have hi : s.cur = some plan.id := hi
        rw [hi] at hzero
        simp at hzero
      obtain ⟨h₁, h₂, h₃, h₄, h₅⟩ := h.cur i hi
      rw [← hsame i hne] at h₁ h₂ h₃ h₄ h₅
      exact ⟨h₁, h₂, h₃, h₄, h₅⟩
    · intro i hi
      have hne : i ≠ plan.id := by
        rintro rfl
        have := List.count_pos_iff.2 hi
        change 0 < s.hands.count plan.id at this
        omega
      have := h.hands i hi
      rw [← hsame i hne] at this
      exact this
    · rintro id hid
      obtain rfl := Option.some.inj hid
      exact Function.update_self ..

theorem le_pageAlign (size : ℕ) : size ≤ pageAlign size := by
  unfold pageAlign
  omega

theorem vmwCmdbufAlloc_ord (h : Ord s m e) (size : ℕ) (plan : Plan) :
    let r := vmwCmdbufAlloc inOrderHost s size plan
    Ord r.2 m (r.1.toList ++ e) ∧ ∀ id, r.1 = some id →
      HandOk (r.2.headers id) ∧ size ≤ (r.2.headers id).size := by
  have hfresh : ∀ {n : ℕ} (inl mob : Bool), n ≤ poolSize →
      HandOk (freshHeader n plan.ptr inl mob) := fun _ _ hn => ⟨rfl, rfl, Nat.zero_le _, hn⟩
  have hpolls := (ord_rule m e).iterate plan.polls s h
  unfold vmwCmdbufAlloc
  dsimp only
  split_ifs with hinl hpool hbig
  · obtain ⟨ho, hnew⟩ := newHeader_ord h plan vmwCmdbufInlineSize true false
    refine ⟨ho, ?_⟩
    intro id hid
    rw [hnew id hid]
    exact ⟨hfresh true false (by decide), hinl⟩
  · exact ⟨h, by simp⟩
  · exact ⟨hpolls, by simp⟩
  · obtain ⟨ho, hnew⟩ := newHeader_ord hpolls plan (pageAlign size) false _
    refine ⟨ho, ?_⟩
    intro id hid
    rw [hnew id hid]
    exact ⟨hfresh false _ (by omega), le_pageAlign size⟩

theorem setCur_ord {id : ℕ} {p : ℕ} (h : Ord s m (id :: e)) (hc : s.cur = none)
    (hok : CurOk { s with cur := some id, curPos := p } id) :
    Ord { s with cur := some id, curPos := p } m e := by
  refine ⟨setCur_inv (o := some id) h.inv hc p, h.quiet, h.lanes, ?_, ?_, h.hands, h.aimed⟩
  · intro i hi
    obtain rfl := Option.some.inj hi
    exact hok
  · intro hn
    cases hn

theorem setCurHeader_ord {id : ℕ} {x : Header} {p : ℕ} {locked : Bool} (h : Ord s m e)
    (hcur : s.cur = some id) (hx : x.cbContext = (s.headers id).cbContext) (ha : x.ptr = x.cmd)
    (hok : CurOk { setHeader s id x with curPos := p, curLocked := locked } id) :
    Ord { setHeader s id x with curPos := p, curLocked := locked } m e := by
  have hout := setExtra_ord (x := x) (curOut_ord h hcur) (hx ▸ h.inv.tagged id) ha
  have hin : Inv ({ setHeader s id x with curPos := p, curLocked := locked } : Manager) e :=
    ⟨h.inv.placed, h.inv.counted, h.inv.limit, update_tagged h.inv.tagged id (hx ▸ h.inv.tagged id)⟩
  refine ⟨hin, h.quiet, hout.lanes, ?_, ?_, hout.hands, hout.aimed⟩
  · intro i hi
    obtain rfl : id = i := Option.some.inj (hcur.symm.trans hi)
    exact hok
  · intro hn
    exact absurd (hcur.symm.trans hn) (by simp)

theorem ensureCur_ord (h : Ord s m e) (size : ℕ) (plan : Plan)
    (hfits : ∀ id, s.cur = some id → size + s.curPos ≤ (s.headers id).size) :
    let r := ensureCur inOrderHost s size plan
    Ord r.2 m e ∧ r.2.cur = r.1 ∧
      ∀ id, r.1 = some id → size + r.2.curPos ≤ (r.2.headers id).size := by
  unfold ensureCur
  cases hcur : s.cur with
  | some id =>
    refine ⟨h, hcur, ?_⟩
    intro i hi
    obtain rfl := Option.some.inj hi
    exact hfits id hcur
  | none =>
    obtain ⟨ho, hnew⟩ := vmwCmdbufAlloc_ord h (Nat.max size s.defaultSize) plan
    have hp := (vmwCmdbufAlloc_processed inOrderHost s (Nat.max size s.defaultSize) plan).hands
    generalize vmwCmdbufAlloc inOrderHost s (Nat.max size s.defaultSize) plan = r at *
    obtain ⟨o, u⟩ := r
    dsimp only at *
    have hu : u.cur = none := hp.2.1.trans hcur
    have hpos := ho.noCur hu
    cases o with
    | none =>
      refine ⟨?_, rfl, by simp⟩
      have heq : ({ u with cur := none } : Manager) = u := by rw [← hu]
      rw [heq]
      exact ho
    | some id =>
      obtain ⟨⟨h₁, h₂, h₃, h₄⟩, hsize⟩ := hnew id rfl
      have hle : size ≤ (u.headers id).size := (Nat.le_max_left ..).trans hsize
      refine ⟨setCur_ord (p := u.curPos) ho hu ⟨h₁, ?_, ?_, ?_, h₄⟩, rfl, ?_⟩
      · change totalSize (u.headers id).cmds = u.curPos
        rw [h₂, hpos]
        rfl
      · change u.curPos ≤ (u.headers id).size
        omega
      · intro _
        change u.curPos + (u.headers id).reserved ≤ (u.headers id).size
        omega
      · intro i hi
        obtain rfl := Option.some.inj hi
        omega

theorem curFlush_cur (s : Manager) : (vmwCmdbufCurFlush inOrderHost s).cur = none := by
  obtain ⟨_, _, hp⟩ := vmwCmdbufCurFlush_processed inOrderHost s
  exact hp.hands.2.1

theorem vmwCmdbufReserveCur_ord (h : Ord s m e) (size ctxId : ℕ) (plan : Plan) :
    Ord (vmwCmdbufReserveCur inOrderHost s size ctxId plan) m e := by
  unfold vmwCmdbufReserveCur
  have hflush : Ord (if mustFlush s size ctxId then vmwCmdbufCurFlush inOrderHost s else s) m e ∧
      ∀ id, (if mustFlush s size ctxId then vmwCmdbufCurFlush inOrderHost s else s).cur = some id →
        size + (if mustFlush s size ctxId then vmwCmdbufCurFlush inOrderHost s else s).curPos ≤
          ((if mustFlush s size ctxId then vmwCmdbufCurFlush inOrderHost s
            else s).headers id).size := by
    by_cases hf : mustFlush s size ctxId = true
    · simp only [hf, if_true]
      refine ⟨vmwCmdbufCurFlush_ord h, ?_⟩
      intro id hid
      rw [curFlush_cur] at hid
      cases hid
    · simp only [hf]
      refine ⟨h, ?_⟩
      intro id hid
      change s.cur = some id at hid
      simp only [mustFlush, hid, Bool.or_eq_true, decide_eq_true_eq, not_or] at hf
      change size + s.curPos ≤ (s.headers id).size
      omega
  dsimp only
  generalize (if mustFlush s size ctxId then vmwCmdbufCurFlush inOrderHost s else s) = u at *
  obtain ⟨ho, hcur, hfits⟩ := ensureCur_ord hflush.1 size plan hflush.2
  generalize ensureCur inOrderHost u size plan = r at *
  obtain ⟨o, v⟩ := r
  dsimp only at *
  cases o with
  | none => exact ho
  | some id =>
    obtain ⟨h₁, h₂, h₃, h₄, h₅⟩ := ho.cur id hcur
    have hle := hfits id rfl
    refine setCurHeader_ord (p := v.curPos) ho hcur rfl (ho.aimed id) ⟨?_, ?_, ?_, ?_, ?_⟩
    · simpa [setHeader, reserveIn] using h₁
    · simpa [setHeader, reserveIn] using h₂
    · simpa [setHeader, reserveIn] using h₃
    · intro _
      simp only [setHeader, reserveIn, Function.update_self]
      omega
    · simpa [setHeader, reserveIn] using h₅

theorem commitIn_size (h : Header) (cmds : List Command) :
    totalSize (commitIn h cmds).cmds = totalSize h.cmds + totalSize cmds := by
  simp [commitIn, totalSize, Function.comp_def]

theorem unlock_ord (h : Ord s m e) : Ord { s with curLocked := false } m e := by
  refine ⟨⟨h.inv.placed, h.inv.counted, h.inv.limit, h.inv.tagged⟩, h.quiet, h.lanes, ?_, h.noCur,
    h.hands, h.aimed⟩
  intro id hid
  obtain ⟨h₁, h₂, h₃, -, h₅⟩ := h.cur id hid
  refine ⟨h₁, h₂, h₃, ?_, h₅⟩
  intro hn
  cases hn

theorem vmwCmdbufCommitCur_ord {id : ℕ} {cmds : List Command} (h : Ord s m e)
    (hcur : s.cur = some id) (hlocked : s.curLocked = true)
    (hle : totalSize cmds ≤ (s.headers id).reserved) (flush : Bool) :
    Ord (vmwCmdbufCommitCur inOrderHost s id cmds flush) m e := by
  obtain ⟨h₁, h₂, h₃, h₄, h₅⟩ := h.cur id hcur
  have hres := h₄ hlocked
  cases flush with
  | false =>
    change Ord { setHeader s id (commitIn (s.headers id) cmds) with
      curPos := s.curPos + totalSize cmds, curLocked := false } m e
    refine setCurHeader_ord h hcur rfl (h.aimed id) ⟨?_, ?_, ?_, ?_, ?_⟩
    · simpa [setHeader, commitIn] using h₁
    · simp only [setHeader, Function.update_self, commitIn_size]
      omega
    · simp only [setHeader, Function.update_self, commitIn]
      omega
    · intro hn
      cases hn
    · simpa [setHeader, commitIn] using h₅
  | true =>
    refine unlock_ord (flush_ord (s := setHeader
      { s with curPos := s.curPos + totalSize cmds } id (commitIn (s.headers id) cmds)) hcur
      (setExtra_ord (curOut_ord h hcur) (h.inv.tagged id) (h.aimed id)) ?_ ?_ ?_)
    · simpa [setHeader, commitIn] using h₁
    · simp only [setHeader, Function.update_self, commitIn_size]
      omega
    · change s.curPos + totalSize cmds ≤ poolSize
      omega

theorem handsOut_ord {id : ℕ} (h : Ord s m e) (hid : id ∈ s.hands) :
    Ord { s with hands := s.hands.filter (· ≠ id) } m (id :: e) := by
  refine ⟨hands_inv h.inv hid, h.quiet, h.lanes, ?_, h.noCur,
    fun i hi => h.hands i (List.mem_of_mem_filter hi), h.aimed⟩
  intro i hi
  obtain ⟨h₁, h₂, h₃, h₄, h₅⟩ := h.cur i hi
  exact ⟨h₁, h₂, h₃, h₄, h₅⟩

theorem curFlush_reserved (s : Manager) (i : ℕ) :
    ((vmwCmdbufCurFlush inOrderHost s).headers i).reserved = (s.headers i).reserved := by
  unfold vmwCmdbufCurFlush
  split
  · rfl
  · dsimp only
    split_ifs
    · rfl
    · rename_i id _ _
      obtain ⟨st, off, hh⟩ := ((relayed_rule inOrderHost).manProcess (enqueue (setHeader
        { s with cur := none, curPos := 0 } id
        { s.headers id with length := s.curPos % 2 ^ 32 }) id .zero)).1 i
      unfold vmwCmdbufCtxAdd
      rw [hh]
      by_cases hi : i = id
      · subst hi
        simp [enqueue, setHeader]
      · simp [enqueue, setHeader, Function.update_of_ne hi]

theorem vmwCmdbufCommit_ord {id : ℕ} {cmds : List Command} (h : Ord s m e) (hid : id ∈ s.hands)
    (hlocked : s.curLocked = false) (hle : totalSize cmds ≤ (s.headers id).reserved)
    (flush : Bool) : Ord (vmwCmdbufCommit inOrderHost s id cmds flush) m e := by
  have hf := vmwCmdbufCurFlush_ord h
  have hres := curFlush_reserved s id
  obtain ⟨_, _, hp⟩ := vmwCmdbufCurFlush_processed inOrderHost s
  obtain ⟨hhands, hcur, hl⟩ := hp.hands
  unfold vmwCmdbufCommit
  generalize vmwCmdbufCurFlush inOrderHost s = u at *
  have hid : id ∈ u.hands := by
    rw [hhands]
    exact hid
  have hul : u.curLocked = false := hl.trans hlocked
  obtain ⟨h₁, h₂, h₃, h₄⟩ := hf.hands id hid
  have hout := setExtra_ord (x := commitIn (u.headers id) cmds) (handsOut_ord hf hid)
    (hf.inv.tagged id) (hf.aimed id)
  have hfill : totalSize (commitIn (u.headers id) cmds).cmds = totalSize cmds := by
    rw [commitIn_size, h₂]
    simp [totalSize]
  have hset := setCur_ord (p := totalSize cmds) hout hcur ⟨by simpa [setHeader, commitIn] using h₁,
    by simpa [setHeader] using hfill, by
      simp only [setHeader, Function.update_self, commitIn]
      omega, by
      intro hn
      exact absurd (hul.symm.trans hn) (by simp), by simpa [setHeader, commitIn] using h₄⟩
  dsimp only
  split_ifs
  · exact vmwCmdbufCurFlush_ord hset
  · exact hset

end submission

section recovery
variable (stray : ℕ → ℕ → Option ℕ)

/-- The work function moves the half of `ptr` that says where the buffer is, if anything of
    it is left. -/
def Movable (s : Manager) (id : ℕ) : Prop :=
  (s.headers id).mobFlag = s.usingMob ∨ remainder (s.headers id) = []

/-- What the work function makes of a buffer that failed at one of its commands: it is
    freed with nothing left, or kept with what is behind that command. -/
theorem restartEntry_cases (id : ℕ) (hfr : Framed c (s.headers id))
    (hfail : Failed (s.headers id)) (ha : (s.headers id).ptr = (s.headers id).cmd)
    (hmov : Movable s id) :
    (restartEntry stray s id = { headerFree s id with sendFence := true } ∧
      remainder (s.headers id) = []) ∨
    ∃ r : Header, restartEntry stray s id =
        { setHeader s id r with
          restartHead := Function.update s.restartHead c (s.restartHead c ++ [id]) } ∧
      r.cmds = remainder (s.headers id) ∧ Framed c r ∧ r.status = (s.headers id).status ∧
      r.ptr = r.cmd := by
  obtain ⟨hlen, hlt, rfl⟩ := hfr
  obtain ⟨x, rest, hdrop⟩ := hfail
  have hrem : remainder (s.headers id) = if x.known then rest else [] := by
    simp only [remainder, hdrop]
  have hsize := dropBytes_size hdrop
  rw [totalSize_cons, hlen] at hsize
  have hnext := dropBytes_next hdrop
  unfold restartEntry
  simp only [vmwCmdDescribe, hdrop]
  cases hk : x.known with
  | false => exact .inl ⟨rfl, by simp [hrem, hk]⟩
  | true =>
    simp only [if_true]
    rw [addU32_of_lt (by omega)]
    by_cases hall : (s.headers id).length ≤ (s.headers id).errorOffset + x.size
    · rw [if_pos hall]
      refine .inl ⟨rfl, ?_⟩
      simp only [hrem, hk, if_true]
      exact totalSize_eq_zero (by omega)
    · rw [if_neg hall]
      have hkind : (s.headers id).mobFlag = s.usingMob := by
        refine hmov.resolve_right fun hnil => ?_
        rw [hrem, hk, if_pos rfl] at hnil
        rw [hnil] at hsize
        exact hall (by simpa [totalSize] using hsize.le)
      refine .inr ⟨_, rfl, ?_, ⟨?_, ?_, rfl⟩, rfl, ?_⟩
      · simp [hnext, hrem, hk]
      · simp only [hnext, Option.getD_some]
        rw [subU32_of_le (by omega) (by omega)]
        omega
      · dsimp only
        rw [subU32_of_le (by omega) (by omega)]
        omega
      · dsimp only
        rw [ha, hkind]

theorem blockAll_ord (h : Ord s .calm e) : Ord (blockAll s) .calm e := by
  have hcalm : ∀ c, laneMode .calm c = .calm := by intro c; cases c <;> rfl
  have hinv : Inv (blockAll s) e := by
    refine ⟨?_, ?_, h.inv.limit, h.inv.tagged⟩
    · intro x
      refine Eq.trans ?_ (h.inv.placed x)
      simp only [blockAll, holders]
      congr 6 <;> (split_ifs <;> rfl)
    · intro c
      have := h.inv.counted c
      simp only [blockAll]
      split_ifs <;> exact this
  refine ⟨hinv, h.quiet, ?_, ?_, h.noCur, h.hands, h.aimed⟩
  · intro c
    obtain ⟨F, hF, hok, hcold⟩ := h.lanes c
    rw [hcalm] at hok ⊢
    by_cases hin : c ∈ contexts s
    · refine InLane.of_eq (F := F) ?_ ?_ (hok.setBlock true) hcold
      · simpa [blockAll, hin] using hF
      · simp [laneOf, blockAll, hin]
    · refine InLane.of_eq (F := F) ?_ ?_ hok hcold
      · simpa [blockAll, hin] using hF
      · simp [laneOf, blockAll, hin]
  · intro id hid
    obtain ⟨h₁, h₂, h₃, h₄, h₅⟩ := h.cur id hid
    exact ⟨h₁, h₂, h₃, h₄, h₅⟩

/-- How far the work function is with the errors of context 0. -/
def modeAt (globalBlock : Bool) : Phase → Mode
  | .idle => .calm
  | .collected => if globalBlock then .collected else .calm
  | .preempted => if globalBlock then .preempted else .calm
  | .restarted => if globalBlock then .restarted else .calm

def modeOf (s : Manager) : Mode := modeAt s.globalBlock s.phase

theorem calm_restart (h : Ord s .calm e) (c : Cb) : s.restartHead c = [] := by
  obtain ⟨F, hF, hok, -⟩ := h.lanes c
  cases c <;> exact List.map_eq_nil_iff.1 hok.mode.1

theorem error_le_one (h : Ord s m e) : s.error.length ≤ 1 := by
  obtain ⟨F, hF, hok, -⟩ := h.lanes .zero
  have := hok.single
  simp only [Lane.hot, laneOf, errsOf, List.length_map] at this
  omega

theorem taken_ord {id : ℕ} {k : List ℕ} {f : ℕ → Header} (h : Ord s .calm [])
    (herr : s.error = [id]) (hblock : (s.ctx .zero).blockSubmission = true)
    (hh : ∀ i, i ≠ id → f i = s.headers i) (hrs : ∀ i ∈ k, i = id)
    (hcmds : k.flatMap (fun i => (f i).cmds) = remainder (s.headers id))
    (hok : ∀ i ∈ k, (f i).status = .none ∧ Framed .zero (f i)) (ha : Aimed f)
    (hctx : t.ctx = s.ctx) (hdev : t.dev = s.dev) (hheaders : t.headers = f)
    (herror : t.error = [])
    (hrestart : t.restartHead = Function.update s.restartHead .zero k)
    (hadded : t.added = s.added)
    (hown : t.cur = s.cur ∧ t.curPos = s.curPos ∧ t.curLocked = s.curLocked ∧ t.hands = s.hands)
    (hsched : t.sched = s.sched) (hinv : Inv t []) : Ord t .collected [] := by
  obtain ⟨F, hF, hlane, -⟩ := h.lanes .zero
  have hheld : id ∈ held s .zero := by simp [held, errsOf, herr]
  have hnd := held_nodup h.inv .zero
  simp only [held, errsOf, herr, List.cons_append, List.nil_append, hF] at hnd
  have hout := (List.nodup_cons.1 hnd).1
  simp only [List.mem_append, not_or] at hout
  obtain ⟨⟨⟨h₁, h₂⟩, h₃, h₄⟩, h₅⟩ := hout
  have hmap : ∀ l : List ℕ, id ∉ l → l.map f = l.map s.headers := by
    intro l hl
    refine List.map_congr_left ?_
    intro i hi
    exact hh i (by rintro rfl; exact hl hi)
  have hok' := hlane.collect (f := s.headers id) (k := k.map f) (by simp [laneOf, errsOf, herr])
    (by rw [List.flatMap_map]; exact hcmds) (by
      intro r hr
      obtain ⟨i, hi, rfl⟩ := List.mem_map.1 hr
      exact hok i hi)
  refine h.changed (c := .zero) ⟨fun _ _ => by rw [hctx], fun _ _ => by rw [hdev]; exact ⟨rfl, rfl⟩,
    fun _ _ => by rw [hdev]; exact ⟨rfl, rfl⟩, ?_, ?_, fun _ _ => by rw [hadded], ?_, hown⟩ hinv
    (by rw [hheaders]; exact ha) ?_ (by rw [hsched]; exact h.quiet)
    (InLane.of_eq (F := F) (by rw [hctx, hdev]; exact hF) ?_ hok' (by simp))
  · exact forall_ne_zero rfl
  · intro c' hc
    rw [hrestart, Function.update_of_ne hc]
  · intro i hi
    rw [hheaders]
    exact hh i (by rintro rfl; exact hi hheld)
  · exact forall_ne_zero rfl
  · simp only [laneOf, hctx, hdev, hheaders, herror, hrestart, hadded, errsOf, List.map_nil,
      Function.update_self, hmap _ h₂, hmap _ h₃, hmap _ h₄, hmap _ h₅, hblock]

theorem workCollect_ord (h : Ord s .calm []) (hmov : ∀ id ∈ s.error, Movable s id) :
    Ord (workCollect stray s) (modeOf (workCollect stray s)) [] := by
  have hrestart : s.restartHead = fun _ => [] := funext (calm_restart h)
  have hinv := workCollect_inv stray h.inv (calm_restart h)
  have hb := blockAll_ord h
  have hle := error_le_one h
  obtain ⟨F, hF, hlane, -⟩ := h.lanes .zero
  cases herr : s.error with
  | nil =>
    unfold workCollect at hinv ⊢
    simp only [herr, List.foldl_nil] at hinv ⊢
    refine ⟨hinv, h.quiet, ?_, ?_, h.noCur, h.hands, h.aimed⟩
    · intro c
      exact (hb.lanes c).frame rfl rfl herr.symm hrestart.symm rfl fun _ _ => rfl
    · intro id hid
      obtain ⟨h₁, h₂, h₃, h₄, h₅⟩ := h.cur id hid
      exact ⟨h₁, h₂, h₃, h₄, h₅⟩
  | cons id errors =>
    obtain rfl : errors = [] := by
      rw [herr, List.length_cons] at hle
      exact List.length_eq_zero_iff.1 (by omega)
    have hmem : s.headers id ∈ (laneOf s .zero F).errs := by simp [laneOf, errsOf, herr]
    have hfr : Framed .zero (s.headers id) :=
      hlane.framed _ (by simp only [Lane.headers, List.mem_append]; tauto)
    have hfail := hlane.failed _ (List.mem_append_left _ hmem)
    have hst := hlane.resting _ (by simp only [List.mem_append]; tauto)
    unfold workCollect at hinv ⊢
    simp only [herr, List.foldl_cons, List.foldl_nil] at hinv ⊢
    rcases restartEntry_cases stray (c := .zero) id (s := { s with
        error := [], workScheduled := false, sendFence := false
        globalBlock := !([id] : List ℕ).isEmpty, restartHead := fun _ => [] }) hfr hfail
        (h.aimed id) (hmov id (by simp [herr])) with
      ⟨heq, hrem⟩ | ⟨r, heq, hcmds, hframed, hstatus, haimed⟩
    · rw [heq] at hinv ⊢
      refine taken_ord (k := []) (f := s.headers) hb herr ?_ (fun _ _ => rfl) (by simp)
        hrem.symm (by simp) h.aimed rfl rfl rfl rfl ?_ rfl ⟨rfl, rfl, rfl, rfl⟩ rfl hinv
      · simp [blockAll, zero_mem_contexts]
      · funext c
        cases c <;> simp [headerFree, blockAll, hrestart]
    · rw [heq] at hinv ⊢
      refine taken_ord (k := [id]) (f := Function.update s.headers id r) hb herr ?_
        (fun i hi => Function.update_of_ne hi ..) (by simp) ?_ ?_ (update_aimed h.aimed haimed)
        rfl rfl rfl rfl ?_ rfl
        ⟨rfl, rfl, rfl, rfl⟩ rfl hinv
      · simp [blockAll, zero_mem_contexts]
      · simpa [blockAll] using hcmds
      · intro i hi
        obtain rfl := List.mem_singleton.1 hi
        rw [Function.update_self]
        exact ⟨hstatus.trans hst, hframed⟩
      · funext c
        cases c <;> simp [setHeader, blockAll, hrestart, Function.update]

theorem applyWrites_preempted (q : List Entry) (f : ℕ → Header) (i : ℕ) :
    applyWrites f (q.map fun x => ⟨x.id, .preempted, 0⟩) i =
      if i ∈ q.map Entry.id then { f i with status := .preempted, errorOffset := 0 } else f i := by
  induction q generalizing f with
  | nil => rfl
  | cons x q ih =>
    simp only [List.map_cons, applyWrites, ih, List.mem_cons]
    by_cases hi : i = x.id
    · subst hi
      simp
    · simp [hi]

/-- The device gives back its whole queue as preempted. -/
theorem laneOf_preempted {F : List ℕ} {d : Device} (hi : Inv s e)
    (hF : (s.ctx c).hwSubmitted = F ++ (s.dev.queue c).map Entry.id) (hd : d.queue c = [])
    (hrunning : d.running = s.dev.running) (hlog : d.log = s.dev.log) (hlost : d.lost = s.dev.lost) :
    laneOf { s with
        dev := d
        headers := applyWrites s.headers ((s.dev.queue c).map fun x => ⟨x.id, .preempted, 0⟩) } c
        (F ++ (s.dev.queue c).map Entry.id) =
      { laneOf s c F with
        fin := (laneOf s c F).fin ++ (laneOf s c F).queued.map fun x =>
          { x with status := .preempted, errorOffset := 0 }
        queued := []
        queue := [] } := by
  have hnd := held_nodup hi c
  simp only [held, hF] at hnd
  have hdisj : ∀ {i}, i ∈ (s.dev.queue c).map Entry.id → i ∉ errsOf s.error c ∧
      i ∉ s.restartHead c ∧ i ∉ (s.ctx c).preempted ∧ i ∉ F ∧ i ∉ (s.ctx c).submitted := by
    intro i hi
    have hone := List.nodup_iff_count_le_one.1 hnd i
    have hpos := List.count_pos_iff.2 hi
    simp only [List.count_append] at hone
    exact ⟨List.count_eq_zero.1 (by omega), List.count_eq_zero.1 (by omega),
      List.count_eq_zero.1 (by omega), List.count_eq_zero.1 (by omega),
      List.count_eq_zero.1 (by omega)⟩
  have hsame : ∀ l : List ℕ, (∀ i ∈ l, i ∉ (s.dev.queue c).map Entry.id) →
      l.map (applyWrites s.headers ((s.dev.queue c).map fun x => ⟨x.id, .preempted, 0⟩)) =
        l.map s.headers := by
    intro l hl
    refine List.map_congr_left ?_
    intro i hi
    rw [applyWrites_preempted, if_neg (hl i hi)]
  have hqueue : ((s.dev.queue c).map Entry.id).map (applyWrites s.headers
      ((s.dev.queue c).map fun x => ⟨x.id, .preempted, 0⟩)) =
      (((s.dev.queue c).map Entry.id).map s.headers).map fun x =>
        { x with status := .preempted, errorOffset := 0 } := by
    rw [List.map_map (l := (s.dev.queue c).map Entry.id)]
    refine List.map_congr_left ?_
    intro i hi
    rw [applyWrites_preempted, if_pos hi]
    rfl
  simp only [laneOf, hd, hrunning, hlog, hlost, List.map_append, List.map_nil, hqueue,
    hsame _ fun i hi hin => (hdisj hin).1 hi, hsame _ fun i hi hin => (hdisj hin).2.1 hi,
    hsame _ fun i hi hin => (hdisj hin).2.2.1 hi, hsame _ fun i hi hin => (hdisj hin).2.2.2.1 hi,
    hsame _ fun i hi hin => (hdisj hin).2.2.2.2 hi]

theorem preempt_ord (h : Ord s .collected e) :
    Ord (sendDeviceCommand inOrderHost s true .preempt).2 .preempted e := by
  have ht := tick_ord h
  have hinv := sendDeviceCommand_inv (H := inOrderHost) h.inv true .preempt
  unfold sendDeviceCommand at hinv ⊢
  simp only [if_true] at hinv ⊢
  generalize tick inOrderHost s = u at *
  obtain ⟨F, hF, hlane, -⟩ := ht.lanes .zero
  obtain ⟨-, -, -, -, -, hzero⟩ := hlane.mode
  have hq : (u.dev.queue .zero).filter (fun x => decide (x.offset ≠ 0)) = [] := by
    rw [List.filter_eq_nil_iff]
    intro x hx
    simpa using hzero x hx
  have hall : (u.dev.queue .zero).filter (fun x => decide (x.offset = 0)) = u.dev.queue .zero := by
    rw [List.filter_eq_self]
    intro x hx
    simpa using hzero x hx
  have hcmd : inOrderHost.command u.dev .preempt =
      ({ u.dev with queue := Function.update u.dev.queue .zero [] },
        (u.dev.queue .zero).map fun x => ⟨x.id, .preempted, 0⟩, .completed) := by
    simp only [inOrderHost, deviceCommand]
    rw [hq, hall]
  rw [hcmd] at hinv ⊢
  have hok' := hlane.preempt (g := fun x => { x with status := .preempted, errorOffset := 0 })
    (fun _ hx => hx) (fun _ => rfl) (fun _ => rfl)
  refine ht.changed (c := .zero) ⟨fun _ _ => rfl, ?_, fun _ _ => ⟨rfl, rfl⟩, fun _ _ => rfl,
    fun _ _ => rfl, fun _ _ => rfl, ?_, rfl, rfl, rfl, rfl⟩ hinv
    (touched_aimed ht.aimed (applyWrites_touched _ _)) ?_ ht.quiet
    (InLane.of_eq (F := F ++ (u.dev.queue .zero).map Entry.id) (by simpa using hF) ?_ hok' (by simp))
  · intro c' hc
    exact ⟨Function.update_of_ne hc .., rfl⟩
  · intro i hi
    dsimp only
    rw [applyWrites_preempted, if_neg]
    intro hin
    exact hi (by simp only [held, hF, List.mem_append]; tauto)
  · exact forall_ne_zero rfl
  · exact laneOf_preempted ht.inv hF (Function.update_self Cb.zero [] u.dev.queue) rfl rfl rfl

theorem ctxSubmit_blocked (hb : (s.ctx c).blockSubmission = true) :
    vmwCmdbufCtxSubmit inOrderHost c s = s := by
  unfold vmwCmdbufCtxSubmit
  cases (s.ctx c).submitted with
  | nil => rfl
  | cons id rest =>
    unfold ctxSubmit
    rw [if_neg]
    simp [hb]

theorem preempted_blocked (h : Ord s .preempted e) : (s.ctx .zero).blockSubmission = true := by
  obtain ⟨F, hF, hlane, -⟩ := h.lanes .zero
  exact hlane.mode.2.2.1

theorem preempted_back (h : Ord s .preempted e) (id : ℕ) (hid : id ∈ (s.ctx .zero).hwSubmitted) :
    (s.headers id).status ≠ .none := by
  obtain ⟨F, hF, hlane, -⟩ := h.lanes .zero
  have hq : s.dev.queue .zero = [] := hlane.mode.2.2.2
  rw [hF, hq, List.map_nil, List.append_nil] at hid
  exact hlane.done _ (List.mem_map_of_mem hid)

theorem processLoop_empties (l : List ℕ) (h : Ord s .preempted e)
    (hl : (s.ctx .zero).hwSubmitted = l) :
    ((processLoop inOrderHost .zero l s).ctx .zero).hwSubmitted = [] := by
  induction l generalizing s with
  | nil => exact hl
  | cons id rest ih =>
    have ht := tick_ord h
    rw [← tick_ctx s] at hl
    have hst := preempted_back ht id (by simp [hl])
    unfold processLoop
    dsimp only
    rw [if_neg hst]
    refine ih (settled_ord ht hl hst) ?_
    rw [settle_hw]
    simp [takeHw, setCtx]

theorem ctxProcess_empties (h : Ord s .preempted e) :
    ((vmwCmdbufCtxProcess inOrderHost s .zero).ctx .zero).hwSubmitted = [] := by
  have hloop := (ord_rule .preempted e).processLoop .zero _ rfl h
  unfold vmwCmdbufCtxProcess
  rw [ctxSubmit_blocked (preempted_blocked h), ctxSubmit_blocked (preempted_blocked hloop)]
  exact processLoop_empties _ h rfl

/-- The manager after one context of the second critical section, with its queues
    processed. -/
theorem spliced_local (u : Manager) (c : Cb) : Local u
    { setCtx u c
        { u.ctx c with
          preempted := []
          blockSubmission := false
          submitted := u.restartHead c ++ (u.ctx c).preempted ++ (u.ctx c).submitted } with
      restartHead := Function.update u.restartHead c [] } c := by
  refine ⟨?_, fun _ _ => ⟨rfl, rfl⟩, fun _ _ => ⟨rfl, rfl⟩, fun _ _ => rfl, ?_, fun _ _ => rfl,
    fun _ _ => rfl, rfl, rfl, rfl, rfl⟩
  · intro c' hc
    exact Function.update_of_ne hc ..
  · intro c' hc
    exact Function.update_of_ne hc ..

theorem restartCtx_preempted (h : Ord s .preempted e) :
    Ord (restartCtx inOrderHost s .zero) .restarted e := by
  have hinv := restartCtx_inv (H := inOrderHost) h.inv .zero
  have hp := (ord_rule .preempted e).ctxProcess s .zero h
  have hempty := ctxProcess_empties h
  unfold restartCtx at hinv ⊢
  generalize vmwCmdbufCtxProcess inOrderHost s .zero = u at *
  obtain ⟨F, hF, hlane, -⟩ := hp.lanes .zero
  rw [hempty] at hF
  obtain ⟨rfl, hq⟩ := List.append_eq_nil_iff.1 hF.symm
  refine hp.changed (spliced_local u .zero) hinv hp.aimed ?_ hp.quiet
    (InLane.of_eq (F := []) ?_ ?_ (hlane.splice rfl) (by simp))
  · exact forall_ne_zero rfl
  · simpa [setCtx, hempty] using hq
  · simp [laneOf, setCtx]

theorem restartCtx_calm (h : Ord s m e) (hm : laneMode m c = .calm) :
    Ord (restartCtx inOrderHost s c) m e := by
  have hinv := restartCtx_inv (H := inOrderHost) h.inv c
  have hp := (ord_rule m e).ctxProcess s c h
  unfold restartCtx at hinv ⊢
  generalize vmwCmdbufCtxProcess inOrderHost s c = u at *
  obtain ⟨F, hF, hlane, hcold⟩ := hp.lanes c
  rw [hm] at hlane
  obtain ⟨hr, hpre, -⟩ := hlane.mode
  have hr := List.map_eq_nil_iff.1 hr
  have hpre := List.map_eq_nil_iff.1 hpre
  have hok := hlane.setBlock false
  rw [← hm] at hok
  refine hp.changed (spliced_local u c) hinv hp.aimed (fun _ _ => rfl) hp.quiet
    (InLane.of_eq (F := F) ?_ ?_ hok hcold)
  · simpa [setCtx] using hF
  · simp [laneOf, setCtx, hr, hpre]

theorem setPhase_ord (h : Ord s m e) (phase : Phase) : Ord { s with phase := phase } m e :=
  h.aside h.quiet s.irqOn phase s.hasPool s.usingMob s.defaultSize

theorem Ord.phased (h : Ord s m e) {phase : Phase} (hm : modeAt s.globalBlock phase = m) :
    Ord { s with phase := phase } (modeOf { s with phase := phase }) e := by
  subst hm
  exact setPhase_ord h phase

theorem foldl_restartCtx_ord (l : List Cb) (h : Ord s m e) (hm : ∀ c ∈ l, laneMode m c = .calm) :
    Ord (l.foldl (restartCtx inOrderHost) s) m e := by
  induction l generalizing s with
  | nil => exact h
  | cons c l ih =>
    exact ih (restartCtx_calm h (hm c (by simp))) fun c' hc => hm c' (List.mem_cons_of_mem c hc)

theorem foldl_restartCtx_globalBlock (l : List Cb) (s : Manager) :
    (l.foldl (restartCtx inOrderHost) s).globalBlock = s.globalBlock := by
  induction l generalizing s with
  | nil => rfl
  | cons c l ih =>
    rw [List.foldl_cons, ih]
    exact ((processed_rule inOrderHost).ctxProcess s c).sameWork.2.2.1

theorem workRestart_ord (h : Ord s (modeAt s.globalBlock .preempted) e) :
    Ord (workRestart inOrderHost s) (modeOf (workRestart inOrderHost s)) e := by
  have hfold : Ord ((contexts s).foldl (restartCtx inOrderHost) s)
      (modeAt s.globalBlock .restarted) e := by
    cases hb : s.globalBlock with
    | false =>
      rw [hb] at h
      refine foldl_restartCtx_ord _ h ?_
      intro c _
      cases c <;> rfl
    | true =>
      rw [hb] at h
      have hzero := restartCtx_preempted h
      unfold contexts
      split_ifs
      · exact foldl_restartCtx_ord [.one] hzero (by simp [laneMode])
      · exact hzero
  have hblock : (workRestart inOrderHost s).globalBlock = s.globalBlock :=
    (vmwCmdbufManProcess_processed _ _).sameWork.2.2.1.trans (foldl_restartCtx_globalBlock _ s)
  have hphase : (workRestart inOrderHost s).phase = .restarted := rfl
  rw [modeOf, hblock, hphase]
  exact setPhase_ord ((ord_rule _ e).manProcess _ hfold) .restarted

theorem startStop_ord {m' : Mode} (enable : Bool) (h : Ord s m e)
    (hm : ∀ c F, (laneOf s c F).Ok (laneMode m c) → (c = .one → (laneOf s c F).hot = 0) →
      ({ laneOf s c F with running := enable } : Lane).Ok (laneMode m' c)) :
    Ord { s with dev := { s.dev with running := fun _ => enable } } m' e := by
  refine ⟨⟨h.inv.placed, h.inv.counted, h.inv.limit, h.inv.tagged⟩, h.quiet, ?_, ?_, h.noCur,
    h.hands, h.aimed⟩
  · intro c
    obtain ⟨F, hF, hlane, hcold⟩ := h.lanes c
    exact InLane.of_eq (F := F) hF rfl (hm c F hlane hcold) hcold
  · intro id hid
    obtain ⟨h₁, h₂, h₃, h₄, h₅⟩ := h.cur id hid
    exact ⟨h₁, h₂, h₃, h₄, h₅⟩

theorem sendStop_ord (h : Ord s m e) (ok : Bool) :
    Ord (sendDeviceCommand inOrderHost s ok (.startStop false)).2 m e := by
  cases ok with
  | false => exact h
  | true => exact startStop_ord false (tick_ord h) fun _ _ hlane _ => hlane.stop

theorem Ord.calmed (h : Ord s .restarted e) : Ord s .calm e := by
  refine ⟨h.inv, h.quiet, ?_, h.cur, h.noCur, h.hands, h.aimed⟩
  intro c
  obtain ⟨F, hF, hlane, hcold⟩ := h.lanes c
  cases c with
  | zero => exact ⟨F, hF, hlane.calmed, hcold⟩
  | one => exact ⟨F, hF, hlane, hcold⟩

theorem sendStart_ord (h : Ord s .restarted e) (ok : Bool) :
    Ord (sendDeviceCommand inOrderHost s ok (.startStop true)).2 .calm e := by
  cases ok with
  | false => exact h.calmed
  | true =>
    refine startStop_ord true (tick_ord h) ?_
    intro c F hlane hcold
    cases c with
    | zero => exact hlane.calmed.start hlane.mode.2.1
    | one => exact hlane.start (hcold rfl)

end recovery

section runs
variable (stray : ℕ → ℕ → Option ℕ)

/-- No command error on context 1, and a work function that has an error to handle gets
    its preempt command through; what it then restarts is a buffer in the pool, or one with
    inline space where the pool is no MOB. -/
def Admits (s : Manager) : Act DeviceEvent → Prop
  | .reserve _ _ _ sched => Quiet sched
  | .commit _ _ sched => Quiet sched
  | .alloc _ _ sched => Quiet sched
  | .commitHeader _ _ _ sched => Quiet sched
  | .ctxAdd _ _ _ sched => Quiet sched
  | .curFlush sched => Quiet sched
  | .irqthread sched => Quiet sched
  | .workCollect => ∀ id ∈ s.error, Movable s id
  | .workPreempt ok sched => Quiet sched ∧ (s.globalBlock = true → ok = true)
  | .workRestart sched => Quiet sched
  | .workStart _ sched => Quiet sched
  | .stop _ sched => Quiet sched
  | .device es => DeviceEvent.fail .one ∉ es
  | _ => True

instance (sched : List (List DeviceEvent)) : Decidable (Quiet sched) :=
  inferInstanceAs (Decidable (∀ es ∈ sched, _))

instance (s : Manager) (id : ℕ) : Decidable (Movable s id) := inferInstanceAs (Decidable (_ ∨ _))

instance (s : Manager) (a : Act DeviceEvent) : Decidable (Admits s a) :=
  match a with
  | .reserve _ _ _ sched | .commit _ _ sched | .alloc _ _ sched | .commitHeader _ _ _ sched
  | .ctxAdd _ _ _ sched | .curFlush sched | .irqthread sched | .workRestart sched
  | .workStart _ sched | .stop _ sched => inferInstanceAs (Decidable (Quiet sched))
  | .workCollect => inferInstanceAs (Decidable (∀ id ∈ s.error, Movable s id))
  | .workPreempt _ sched => inferInstanceAs (Decidable (Quiet sched ∧ (_ → _)))
  | .device es => inferInstanceAs (Decidable (DeviceEvent.fail .one ∉ es))
  | .reserveHeader .. | .headerFree .. | .setPool .. | .removePool => .isTrue trivial

structure RunOrd (s : Manager) : Prop where
  places : RunInv s
  ord : Ord s (modeOf s) []

theorem modeOf_same {s t : Manager} (h : SameWork s t) : modeOf t = modeOf s := by
  obtain ⟨hphase, -, hblock, -⟩ := h
  unfold modeOf
  rw [hphase, hblock]

theorem handsIn_ord {o : Option ℕ} (h : Ord s m (o.toList ++ e))
    (ho : ∀ id, o = some id → HandOk (s.headers id)) :
    Ord { s with hands := o.toList ++ s.hands } m e := by
  refine ⟨⟨?_, h.inv.counted, h.inv.limit, h.inv.tagged⟩, h.quiet, h.lanes, ?_, h.noCur, ?_,
    h.aimed⟩
  · intro id
    refine Eq.trans ?_ (h.inv.placed id)
    simp only [holders, List.count_append]
    omega
  · intro id hid
    obtain ⟨h₁, h₂, h₃, h₄, h₅⟩ := h.cur id hid
    exact ⟨h₁, h₂, h₃, h₄, h₅⟩
  · intro id hid
    rcases List.mem_append.1 hid with hid | hid
    · exact ho id (Option.mem_toList.1 hid)
    · exact h.hands id hid

theorem setHand_ord {id : ℕ} {x : Header} (h : Ord s m e) (hid : id ∈ s.hands)
    (hx : x.cbContext = (s.headers id).cbContext) (ha : x.ptr = x.cmd) (hok : HandOk x) :
    Ord (setHeader s id x) m e := by
  have hout := setExtra_ord (x := x) (handsOut_ord h hid) (hx ▸ h.inv.tagged id) ha
  refine ⟨setHeader_inv h.inv (hx ▸ h.inv.tagged id), h.quiet, hout.lanes, ?_, h.noCur, ?_,
    hout.aimed⟩
  · intro i hi
    obtain ⟨h₁, h₂, h₃, h₄, h₅⟩ := hout.cur i hi
    exact ⟨h₁, h₂, h₃, h₄, h₅⟩
  · intro i hi
    by_cases hid : i = id
    · subst hid
      simpa [setHeader] using hok
    · have := h.hands i hi
      simpa [setHeader, Function.update_of_ne hid] using this

theorem setPool_ord (h : Ord s m e) (b mob : Bool) (n : ℕ) :
    Ord { s with hasPool := b, usingMob := mob, defaultSize := n } m e :=
  h.aside h.quiet s.irqOn s.phase b mob n

theorem ctxAdd_ord {id : ℕ} {cmds : List Command} (h : Ord s m []) (hid : id ∈ s.hands)
    (hc : c ∈ contexts s) (hle : totalSize cmds ≤ (s.headers id).reserved)
    {sched : List (List DeviceEvent)} (hq : Quiet sched) :
    Ord (vmwCmdbufCtxAdd inOrderHost
      { setHeader s id { commitIn (s.headers id) cmds with length := totalSize cmds } with
        hands := s.hands.filter (· ≠ id), sched := sched } id c) m [] := by
  obtain ⟨h₁, h₂, h₃, h₄⟩ := h.hands id hid
  have hout := (setExtra_ord (x := { commitIn (s.headers id) cmds with length := totalSize cmds })
    (handsOut_ord h hid) (h.inv.tagged id) (h.aimed id)).setSched hq
  refine (ord_rule m []).manProcess _ (enqueue_ord hout hc ?_ ?_ ?_)
  · simpa [setHeader, commitIn] using h₁
  · simp only [setHeader, Function.update_self]
    rw [commitIn_size, h₂]
    simp [totalSize]
  · simp only [setHeader, Function.update_self]
    unfold poolSize at h₄
    omega

theorem step_runOrd {s t : Manager} {a : Act DeviceEvent} (h : RunOrd s) (ha : Admits s a)
    (hs : step inOrderHost stray s a = some t) : RunOrd t := by
  refine ⟨step_runInv stray h.places hs, ?_⟩
  have ho := h.ord
  cases step_took inOrderHost stray hs with
  | reserve =>
    rw [modeOf_same (vmwCmdbufReserveCur_sameWork ..)]
    exact vmwCmdbufReserveCur_ord (ho.setSched ha) _ _ _
  | commit hcur hlocked hfits =>
    rw [modeOf_same (vmwCmdbufCommitCur_sameWork ..)]
    exact vmwCmdbufCommitCur_ord (ho.setSched ha) hcur hlocked hfits _
  | @alloc size plan sched =>
    obtain ⟨hord, hnew⟩ := vmwCmdbufAlloc_ord (ho.setSched ha) size plan
    have hw := (vmwCmdbufAlloc_processed inOrderHost { s with sched := sched } size plan).sameWork
    have hmode : modeOf s = _ := (modeOf_same hw).symm
    rw [hmode] at hord
    exact handsIn_ord (e := []) hord fun id hid => (hnew id hid).1
  | reserveFails => exact ho
  | @reserveHeader id size ctxId hin hfits =>
    obtain ⟨h₁, h₂, h₃, h₄⟩ := ho.hands id hin
    exact setHand_ord ho hin rfl (ho.aimed id) ⟨h₁, h₂, by simpa [reserveIn] using hfits, h₄⟩
  | commitHeader hfree hid hfits =>
    rw [modeOf_same (vmwCmdbufCommit_sameWork ..)]
    exact vmwCmdbufCommit_ord (ho.setSched ha) hid hfree hfits _
  | headerFree hid => exact freeExtra_ord (handsOut_ord ho hid)
  | ctxAdd hid hc hfits =>
    rw [modeOf_same (vmwCmdbufCtxAdd_sameWork ..)]
    exact ctxAdd_ord ho hid hc hfits ha
  | curFlush =>
    rw [modeOf_same (vmwCmdbufCurFlush_sameWork ..)]
    exact vmwCmdbufCurFlush_ord (ho.setSched ha)
  | irqthread =>
    rw [modeOf_same (vmwCmdbufManProcess_processed ..).sameWork]
    exact (ord_rule _ []).manProcess _ (ho.setSched ha)
  | workCollect hidle =>
    rw [modeOf, hidle] at ho
    exact workCollect_ord stray ho ha
  | @preempt ok sched hphase hblock =>
    obtain rfl := ha.2 hblock
    have hw := (sendDeviceCommand_sameWork inOrderHost { s with sched := sched } true .preempt).2.2.1
    rw [modeOf, hphase, hblock] at ho
    refine (preempt_ord (ho.setSched ha.1)).phased ?_
    rw [hw, hblock]
    rfl
  | noPreempt hphase hblock =>
    rw [modeOf, hphase, hblock] at ho
    refine ho.phased ?_
    rw [hblock]
    rfl
  | workRestart hphase =>
    rw [modeOf, hphase] at ho
    exact workRestart_ord (ho.setSched ha)
  | start hphase hblock =>
    rw [modeOf, hphase, hblock] at ho
    exact (sendStart_ord (ho.setSched ha) _).phased rfl
  | noStart hphase hblock =>
    rw [modeOf, hphase, hblock] at ho
    exact ho.phased rfl
  | stop =>
    rw [modeOf_same (sendDeviceCommand_sameWork ..)]
    exact sendStop_ord (ho.setSched ha) _
  | poolKept => exact ho
  | setPool => exact setPool_ord ho _ _ _
  | removePool => exact setPool_ord ho false _ _
  | @device es =>
    have hrun := deviceRun_ord es ho ha
    obtain ⟨_, _, he, _⟩ := deviceRun_eq inOrderHost es s
    rw [he] at hrun ⊢
    exact hrun

theorem create_runOrd (memory : Bool → ℕ → List Command) (hpQueue usingMob : Bool) :
    RunOrd (vmwCmdbufManCreate inOrderHost (resetDevice memory) hpQueue usingMob) := by
  have hinv := create_inv inOrderHost (resetDevice memory) hpQueue usingMob
  refine ⟨⟨hinv, fun _ _ => rfl, fun _ _ => rfl⟩, hinv, ?_, ?_, ?_, fun _ => rfl, ?_,
    touched_aimed (fun _ => rfl) (applyWrites_touched _ _)⟩
  · intro es hes
    cases hes
  · intro c
    refine InLane.of_eq (F := []) rfl (l := ⟨c, [], [], [], [], [], [], [], true, false, [], [], []⟩)
      ?_ ?_ fun _ => rfl
    · cases c <;> rfl
    · have hok : ∀ m, Lane.ModeOk ⟨c, [], [], [], [], [], [], [], true, false, [], [], []⟩ m →
          Lane.Ok ⟨c, [], [], [], [], [], [], [], true, false, [], [], []⟩ m := by
        intro m hm
        exact ⟨.nil, by simp, by simp, by simp, by simp, by simp [Lane.headers],
          ⟨List.nil_sublist _, rfl⟩, by simp [Lane.hot], by simp [Lane.hot], hm⟩
      refine hok _ ?_
      cases c <;> exact ⟨rfl, rfl, by simp⟩
  · intro id hid
    cases hid
  · intro id hid
    cases hid

theorem errors_of (h : Ord s m e) (c : Cb) :
    (s.error.filter fun id => (s.headers id).cbContext = c) = errsOf s.error c := by
  obtain ⟨F, hF, hlane, -⟩ := h.lanes .zero
  have hcb : ∀ id ∈ s.error, (s.headers id).cbContext = .zero := by
    intro id hid
    refine (hlane.framed (s.headers id) ?_).2.2
    simp only [Lane.headers, laneOf, errsOf, List.mem_append]
    have := List.mem_map_of_mem (f := s.headers) hid
    tauto
  cases c with
  | zero =>
    rw [List.filter_eq_self.2]
    · rfl
    · intro id hid
      simpa using hcb id hid
  | one =>
    rw [List.filter_eq_nil_iff.2]
    · rfl
    · intro id hid
      simp [hcb id hid]

/-- In every run in which command errors are on context 0 only, the work function gets its
    preempt commands through and moves the right half of `ptr`, every context executes its
    commands in order. -/
theorem admitted_runs_in_order {memory : Bool → ℕ → List Command} {hpQueue usingMob : Bool}
    {as : List (Act DeviceEvent)} {s : Manager} (h : Runs (step inOrderHost stray) Admits
      (vmwCmdbufManCreate inOrderHost (resetDevice memory) hpQueue usingMob) as s) (c : Cb) :
    ExecutedInOrder s c := by
  have hi := h.invariant RunOrd (create_runOrd memory hpQueue usingMob)
    fun _ _ _ hi ha hs => step_runOrd stray hi ha hs
  obtain ⟨F, hF, hlane, -⟩ := hi.ord.lanes c
  have hleft : leftOf s c F = (laneOf s c F).pending := by
    unfold leftOf
    rw [errors_of hi.ord]
    rfl
  refine ⟨F, hF, ?_⟩
  rw [hleft]
  exact hlane.inOrder

/-- A manager on a device that finds one command, of tag 9, wherever no buffer is. -/
def sampleManager : Manager := vmwCmdbufManCreate inOrderHost
  (resetDevice fun _ _ => [⟨9, 8, true, 0, by decide⟩]) true false

/-- The tags of the commands executed and added on context `c` after a run. -/
def outcome (as : List (Act DeviceEvent)) (c : Cb) : Option (List ℕ × List ℕ) :=
  (exec (step inOrderHost fun _ _ => none) sampleManager as).map fun s =>
    ((s.dev.log c).map Command.tag, (s.added c).map Command.tag)

theorem outcome_run (as : List (Act DeviceEvent)) (c : Cb) (log added : List ℕ)
    (h : outcome as c = some (log, added)) : ∃ s : Manager,
    exec (step inOrderHost fun _ _ => none) sampleManager as = some s ∧
      (s.dev.log c).map Command.tag = log ∧ (s.added c).map Command.tag = added := by
  obtain ⟨s, hs, heq⟩ := Option.map_eq_some_iff.1 h
  obtain ⟨rfl, rfl⟩ := Prod.mk.inj heq
  exact ⟨s, hs, rfl, rfl⟩

/-- Two commands in a buffer of context 0, and one behind it. -/
def twoBuffers : List (Act DeviceEvent) :=
  [.reserve 16 (2 ^ 32 - 1) ⟨5, 0, true, 2 ^ 33⟩ [],
    .commit [⟨1, 8, true, 0, by decide⟩, ⟨2, 8, true, 0, by decide⟩] true [],
    .reserve 8 (2 ^ 32 - 1) ⟨6, 0, true, 2 ^ 34⟩ [], .commit [⟨3, 8, true, 0, by decide⟩] true []]

def twoBuffersHp : List (Act DeviceEvent) :=
  [.alloc 16 ⟨5, 0, true, 2 ^ 33⟩ [], .reserveHeader 5 16 (2 ^ 32 - 1),
    .ctxAdd 5 .one [⟨1, 8, true, 0, by decide⟩, ⟨2, 8, true, 0, by decide⟩] [],
    .alloc 8 ⟨6, 0, true, 2 ^ 34⟩ [], .reserveHeader 6 8 (2 ^ 32 - 1),
    .ctxAdd 6 .one [⟨3, 8, true, 0, by decide⟩] []]

/-- The first command of a context fails, and the work function runs. -/
def recovery (c : Cb) (ok : Bool) : List (Act DeviceEvent) :=
  [.device [.fail c], .irqthread [], .workCollect, .workPreempt ok [], .workRestart [],
    .workStart true [], .device [.exec c, .complete c, .exec c, .complete c], .irqthread []]

/-- After an error the rest of its buffer is executed first. -/
theorem error_recovered : ∃ s : Manager,
    Runs (step inOrderHost fun _ _ => none) Admits sampleManager
        (twoBuffers ++ recovery .zero true) s ∧
      ExecutedInOrder s .zero ∧ (s.dev.log .zero).map Command.tag = [2, 3] := by
  have hlog : (execAdmitted (step inOrderHost fun _ _ => none) Admits sampleManager
      (twoBuffers ++ recovery .zero true)).map (fun s => (s.dev.log .zero).map Command.tag) =
        some [2, 3] := by decide +kernel
  obtain ⟨s, hs, hlog⟩ := Option.map_eq_some_iff.1 hlog
  have hr := runs_of_execAdmitted hs
  exact ⟨s, hr, admitted_runs_in_order _ hr .zero, hlog⟩

/-- When the preempt command fails, or when the error is on context 1, the buffer behind
    the failed one is executed before what is left of that one. With a pool in a MOB, the device
    executes something else instead of what is left of inline space. -/
theorem recovery_reorders :
    (¬ ∀ (as : List (Act DeviceEvent)) (s : Manager),
      Runs (step inOrderHost fun _ _ => none) anyLabel sampleManager as s →
        ∀ c, ExecutedInOrder s c) ∧
    (∃ s : Manager, Runs (step inOrderHost fun _ _ => none) anyLabel sampleManager
        (twoBuffers ++ recovery .zero false) s ∧ ¬ ExecutedInOrder s .zero) ∧
    (∃ s : Manager, Runs (step inOrderHost fun _ _ => none) anyLabel sampleManager
        (twoBuffersHp ++ recovery .one true) s ∧ ¬ ExecutedInOrder s .one) ∧
    ∃ s : Manager, Runs (step inOrderHost fun _ _ => none) anyLabel sampleManager
        (.setPool true true :: twoBuffers ++ recovery .zero true) s ∧
      (s.dev.log .zero).map Command.tag = [9, 3] ∧ ¬ ExecutedInOrder s .zero := by
  have hlog : ∀ {s : Manager} {c : Cb} {log : List ℕ}, (s.dev.log c).map Command.tag = log →
      (s.added c).map Command.tag = [1, 2, 3] → ¬ log.Sublist [1, 2, 3] →
        ¬ ExecutedInOrder s c := by
    intro s c log hl ha hlog h
    obtain ⟨F, -, hsub, -⟩ := h
    have := ((List.sublist_append_left _ _).trans hsub).map Command.tag
    rw [hl, ha] at this
    exact hlog this
  obtain ⟨s, hs, hl, ha⟩ := outcome_run (twoBuffers ++ recovery .zero false) .zero [3, 2]
    [1, 2, 3] (by decide +kernel)
  obtain ⟨t, ht, hlt, hat⟩ := outcome_run (twoBuffersHp ++ recovery .one true) .one [3, 2]
    [1, 2, 3] (by decide +kernel)
  obtain ⟨u, hu, hlu, hau⟩ := outcome_run
    (.setPool true true :: twoBuffers ++ recovery .zero true) .zero [9, 3] [1, 2, 3]
    (by decide +kernel)
  have hbad := hlog hl ha (by decide)
  refine ⟨?_, ⟨s, runs_of_exec hs, hbad⟩, ⟨t, runs_of_exec ht, hlog hlt hat (by decide)⟩,
    u, runs_of_exec hu, hlu, hlog hlu hau (by decide)⟩
  intro h
  exact hbad (h _ s (runs_of_exec hs) .zero)

end runs

end Vmwgfx.CmdbufOrder
