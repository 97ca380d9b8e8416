import Vmwgfx.CmdbufMachine

set_option autoImplicit false

/-!
# A device that executes in order, and one context as a lane

The device executes each context's queue in order, stops a context at its first command
error and gives the other queued buffers back when told to preempt. A lane is what driver
and device hold of one context, from the failed buffer to the last one queued.
-/
namespace Vmwgfx.CmdbufLane
open Word32 CmdbufMachine

/-- A buffer in the device's queue: the bytes executed and the commands left. -/
structure Entry where
  id : ℕ
  offset : ℕ
  rest : List Command
  deriving DecidableEq

structure Device where
  queue : Cb → List Entry
  running : Cb → Bool
  /-- The commands executed, in order. -/
  log : Cb → List Command
  /-- Commands at which a buffer failed, what follows an unknown one, and the
      commands of buffers with a bad header. -/
  lost : Cb → List Command
  /-- What the device finds at an address that is not the one of the buffer's commands, in a
      MOB or in the guest's memory. -/
  memory : Bool → ℕ → List Command

inductive DeviceEvent where
  | exec (c : Cb)
  | complete (c : Cb)
  | fail (c : Cb)
  | headerError (c : Cb)
  deriving DecidableEq, Repr

def deviceAct (d : Device) : DeviceEvent → Device × List Write
  | .exec c =>
    match d.running c, d.queue c with
    | true, ⟨id, off, x :: rest⟩ :: q =>
      ({ d with
          queue := Function.update d.queue c (⟨id, off + x.size, rest⟩ :: q)
          log := Function.update d.log c (d.log c ++ [x]) }, [])
    | _, _ => (d, [])
  | .complete c =>
    match d.running c, d.queue c with
    | true, ⟨id, _, []⟩ :: q =>
      ({ d with queue := Function.update d.queue c q }, [⟨id, .completed, 0⟩])
    | _, _ => (d, [])
  | .fail c =>
    match d.running c, d.queue c with
    | true, ⟨id, off, x :: rest⟩ :: q =>
      ({ d with
          queue := Function.update d.queue c q
          running := Function.update d.running c false
          lost := Function.update d.lost c
            (d.lost c ++ x :: if x.known then [] else rest) },
        [⟨id, .commandError, off⟩])
    | _, _ => (d, [])
  | .headerError c =>
    match d.running c, d.queue c with
    | true, ⟨id, 0, rest⟩ :: q =>
      ({ d with
          queue := Function.update d.queue c q
          lost := Function.update d.lost c (d.lost c ++ rest) },
        [⟨id, .cbHeaderError, 0⟩])
    | _, _ => (d, [])

/-- What the device fetches for a header: the commands, if `ptr` leads there. -/
def fetched (d : Device) (h : Header) : List Command :=
  if h.ptr = h.cmd then h.cmds else d.memory h.mobFlag h.ptr

def deviceSubmit (d : Device) (c : Cb) (id : ℕ) (h : Header) : Device × List Write :=
  if 32 ≤ (d.queue c).length then (d, [⟨id, .queueFull, 0⟩])
  else ({ d with queue := Function.update d.queue c (d.queue c ++ [⟨id, 0, fetched d h⟩]) }, [])

/-- A preempt command is about context 0 and gives back the buffers that were not
    started; start and stop are about both contexts. -/
def deviceCommand (d : Device) : DeviceCommand → Device × List Write × Status
  | .preempt =>
    let q := d.queue .zero
    ({ d with queue := Function.update d.queue .zero (q.filter (·.offset ≠ 0)) },
      (q.filter (·.offset = 0)).map fun e => ⟨e.id, .preempted, 0⟩, .completed)
  | .startStop enable => ({ d with running := fun _ => enable }, [], .completed)

def inOrderHost : Host Device DeviceEvent where
  act := deviceAct
  submit := deviceSubmit
  command := deviceCommand

def resetDevice (memory : Bool → ℕ → List Command) : Device :=
  ⟨fun _ => [], fun _ => false, fun _ => [], fun _ => [], memory⟩

/-- What the work function leaves of a buffer that failed at a command. -/
def remainder (h : Header) : List Command :=
  match dropBytes h.errorOffset h.cmds with
  | some (x :: rest) => if x.known then rest else []
  | _ => []

/-- What is left to execute of a buffer that came back from the device. -/
def finishedRest (h : Header) : List Command :=
  match h.status with
  | .commandError => remainder h
  | .preempted => h.cmds
  | _ => []

/-- One context: the buffers on the error list, on the restart list and preempted, those
    of `hw_submitted` that came back and those still with the device, and those queued. -/
structure Lane where
  cb : Cb
  errs : List Header
  restart : List Header
  preempted : List Header
  fin : List Header
  queued : List Header
  queue : List Entry
  submitted : List Header
  running : Bool
  block : Bool
  log : List Command
  lost : List Command
  added : List Command

def Lane.pending (l : Lane) : List Command :=
  l.errs.flatMap remainder ++ l.restart.flatMap Header.cmds ++ l.preempted.flatMap Header.cmds ++
    l.fin.flatMap finishedRest ++ l.queue.flatMap Entry.rest ++ l.submitted.flatMap Header.cmds

/-- What was executed and then what is left, in the order it will be executed, are the
    commands added, in order and without those lost. -/
def Lane.InOrder (l : Lane) : Prop :=
  (l.log ++ l.pending).Sublist l.added ∧
    l.log.length + l.pending.length + l.lost.length = l.added.length

/-- Buffers that failed and that the work function has not seen. -/
def Lane.hot (l : Lane) : ℕ := l.errs.length + l.fin.countP (·.status = .commandError)

/-- The work function's progress with an error: none, the error taken over, the
    others preempted, all queued again. -/
inductive Mode where
  | calm
  | collected
  | preempted
  | restarted
  deriving DecidableEq, Repr

def Lane.ModeOk (l : Lane) : Mode → Prop
  | .calm => l.restart = [] ∧ l.preempted = [] ∧ ∀ h ∈ l.fin, h.status ≠ .preempted
  | .collected => l.running = false ∧ l.hot = 0 ∧ l.preempted = [] ∧ l.block = true ∧
      (∀ h ∈ l.fin, h.status ≠ .preempted) ∧ ∀ e ∈ l.queue, e.offset = 0
  | .preempted => l.running = false ∧ l.hot = 0 ∧ l.block = true ∧ l.queue = []
  | .restarted => l.running = false ∧ l.hot = 0 ∧ l.restart = [] ∧ l.preempted = [] ∧
      ∀ h ∈ l.fin, h.status ≠ .preempted

def Lane.headers (l : Lane) : List Header :=
  l.errs ++ l.restart ++ l.preempted ++ l.fin ++ l.queued ++ l.submitted

/-- A buffer of a context whose length is that of its commands. -/
def Framed (c : Cb) (h : Header) : Prop :=
  totalSize h.cmds = h.length ∧ h.length < 2 ^ 32 ∧ h.cbContext = c

def Failed (h : Header) : Prop := ∃ x rest, dropBytes h.errorOffset h.cmds = some (x :: rest)

structure Lane.Ok (l : Lane) (m : Mode) : Prop where
  entries : List.Forall₂ (fun h e => h.status = .none ∧ dropBytes e.offset h.cmds = some e.rest)
    l.queued l.queue
  tail : ∀ e ∈ l.queue.tail, e.offset = 0
  done : ∀ h ∈ l.fin, h.status ≠ .none
  resting : ∀ h ∈ l.errs ++ l.restart ++ l.preempted ++ l.submitted, h.status = .none
  failed : ∀ h ∈ l.errs ++ l.fin.filter (·.status = .commandError), Failed h
  framed : ∀ h ∈ l.headers, Framed l.cb h
  inOrder : l.InOrder
  single : l.hot ≤ 1
  halted : l.hot ≠ 0 → l.running = false ∧ ∀ e ∈ l.queue, e.offset = 0
  mode : l.ModeOk m

theorem totalSize_cons (x : Command) (cmds : List Command) :
    totalSize (x :: cmds) = x.size + totalSize cmds := by
  simp [totalSize]

theorem dropBytes_zero (cmds : List Command) : dropBytes 0 cmds = some cmds := by
  cases cmds <;> rfl

theorem dropBytes_size {off : ℕ} {cmds rest : List Command} (h : dropBytes off cmds = some rest) :
    totalSize cmds = off + totalSize rest := by
  induction cmds generalizing off with
  | nil =>
    cases off with
    | zero =>
      obtain rfl := Option.some.inj h
      simp
    | succ off => cases h
  | cons x cmds ih =>
    cases off with
    | zero =>
      obtain rfl := Option.some.inj h
      simp
    | succ off =>
      simp only [dropBytes] at h
      split_ifs at h with hle
      have := ih h
      rw [totalSize_cons]
      omega

theorem dropBytes_next {off : ℕ} {x : Command} {cmds rest : List Command}
    (h : dropBytes off cmds = some (x :: rest)) : dropBytes (off + x.size) cmds = some rest := by
  induction cmds generalizing off with
  | nil =>
    cases off with
    | zero => cases h
    | succ off => cases h
  | cons y cmds ih =>
    cases off with
    | zero =>
      obtain ⟨rfl, rfl⟩ := List.cons.inj (Option.some.inj h)
      have hpos := y.pos
      obtain ⟨n, hn⟩ := Nat.exists_eq_succ_of_ne_zero (Nat.ne_of_gt hpos)
      rw [zero_add, hn, dropBytes, if_pos (by omega), hn, Nat.sub_self]
      exact dropBytes_zero _
    | succ off =>
      simp only [dropBytes] at h
      split_ifs at h with hle
      have hnext := ih h
      rw [show off + 1 + x.size = (off + x.size) + 1 by omega, dropBytes, if_pos (by omega),
        show off + x.size + 1 - y.size = off + 1 - y.size + x.size by omega]
      exact hnext

section inOrder
variable {l l' : Lane}

theorem Lane.InOrder.drop (h : l.InOrder) {a d b : List Command}
    (hp : l.log ++ l.pending = a ++ d ++ b) (hp' : l'.log ++ l'.pending = a ++ b)
    (hl : l'.lost.length = l.lost.length + d.length) (ha : l'.added = l.added) : l'.InOrder := by
  obtain ⟨hsub, hlen⟩ := h
  have hp₁ := congrArg List.length hp
  have hp₂ := congrArg List.length hp'
  simp only [List.length_append] at hp₁ hp₂
  refine ⟨?_, by rw [ha]; omega⟩
  rw [hp', ha]
  rw [hp, List.append_assoc] at hsub
  exact (List.Sublist.append_left (List.sublist_append_right d b) a).trans hsub

theorem Lane.InOrder.same (h : l.InOrder) (hp : l'.log ++ l'.pending = l.log ++ l.pending)
    (hl : l'.lost = l.lost) (ha : l'.added = l.added) : l'.InOrder :=
  h.drop (a := l.log ++ l.pending) (d := []) (b := []) (by simp) (by simpa using hp)
    (by simp [hl]) ha

end inOrder

section ops
variable {l : Lane} {m : Mode}

theorem finishedRest_eq_nil {h : Header} (hc : h.status ≠ .commandError)
    (hp : h.status ≠ .preempted) : finishedRest h = [] := by
  unfold finishedRest
  split
  · contradiction
  · contradiction
  · rfl

theorem Lane.cold_iff : l.hot = 0 ↔ l.errs = [] ∧ ∀ h ∈ l.fin, h.status ≠ .commandError := by
  unfold Lane.hot
  rw [Nat.add_eq_zero_iff, List.length_eq_zero_iff, List.countP_eq_zero]
  simp

theorem Lane.cold_of_subset {l' : Lane} (hc : l.hot = 0) (he : l'.errs = l.errs)
    (hf : l'.fin ⊆ l.fin) : l'.hot = 0 := by
  obtain ⟨herrs, hfin⟩ := Lane.cold_iff.1 hc
  exact Lane.cold_iff.2 ⟨he.trans herrs, fun h hh => hfin h (hf hh)⟩

theorem Lane.front_eq_nil (hc : l.hot = 0) (hf : ∀ h ∈ l.fin, h.status ≠ .preempted) :
    l.errs = [] ∧ l.fin.flatMap finishedRest = [] := by
  obtain ⟨he, hn⟩ := Lane.cold_iff.1 hc
  refine ⟨he, List.flatMap_eq_nil_iff.2 ?_⟩
  intro h hh
  exact finishedRest_eq_nil (hn h hh) (hf h hh)

theorem Lane.Ok.running_calm (h : l.Ok m) (hr : l.running = true) :
    m = .calm ∧ l.hot = 0 := by
  have hcold : l.hot = 0 := by
    by_contra hne
    have := (h.halted hne).1
    rw [hr] at this
    cases this
  refine ⟨?_, hcold⟩
  have hm := h.mode
  cases m with
  | calm => rfl
  | collected =>
    have := hm.1
    rw [hr] at this
    cases this
  | preempted =>
    have := hm.1
    rw [hr] at this
    cases this
  | restarted =>
    have := hm.1
    rw [hr] at this
    cases this

theorem Lane.Ok.exec {id off : ℕ} {x : Command} {rest : List Command} {q : List Entry}
    (h : l.Ok m) (hr : l.running = true) (hq : l.queue = ⟨id, off, x :: rest⟩ :: q) :
    ({ l with queue := ⟨id, off + x.size, rest⟩ :: q, log := l.log ++ [x] } : Lane).Ok m := by
  obtain ⟨rfl, hcold⟩ := h.running_calm hr
  obtain ⟨hrestart, hpre, hfin⟩ := h.mode
  obtain ⟨herrs, hnil⟩ := Lane.front_eq_nil hcold hfin
  have hent := h.entries
  rw [hq] at hent
  obtain ⟨b, bs, hb, hbs, hqueued⟩ := List.forall₂_cons_right_iff.1 hent
  refine ⟨?_, ?_, h.done, h.resting, h.failed, h.framed, ?_, h.single, ?_, ⟨hrestart, hpre, hfin⟩⟩
  · change List.Forall₂ _ l.queued _
    rw [hqueued]
    exact .cons ⟨hb.1, dropBytes_next hb.2⟩ hbs
  · have := h.tail
    rw [hq] at this
    exact this
  · refine h.inOrder.same ?_ rfl rfl
    simp [Lane.pending, herrs, hrestart, hpre, hnil, hq]
  · intro hne
    exact absurd hcold hne

theorem Lane.Ok.finish {b f : Header} {k : List Header} {e : Entry} {q : List Entry}
    (h : l.Ok m) (hr : l.running = true) (hb : l.queued = b :: k) (hq : l.queue = e :: q)
    (hf : Framed l.cb b → Framed l.cb f) (hst : f.status ≠ .none) (hc : f.status ≠ .commandError)
    (hp : f.status ≠ .preempted) :
    ({ l with
      fin := l.fin ++ [f], queued := k, queue := q, lost := l.lost ++ e.rest } : Lane).Ok m := by
  obtain ⟨rfl, hcold⟩ := h.running_calm hr
  obtain ⟨hrestart, hpre, hfin⟩ := h.mode
  obtain ⟨herrs, hnil⟩ := Lane.front_eq_nil hcold hfin
  obtain ⟨-, hnone⟩ := Lane.cold_iff.1 hcold
  have hent := h.entries
  rw [hb, hq] at hent
  have hall : ∀ {p : Header → Prop}, (∀ x ∈ l.fin, p x) → p f → ∀ x ∈ l.fin ++ [f], p x := by
    intro p hl hpf x hx
    rcases List.mem_append.1 hx with hx | hx
    · exact hl x hx
    · exact List.mem_singleton.1 hx ▸ hpf
  have hcold' : ({ l with
      fin := l.fin ++ [f], queued := k, queue := q, lost := l.lost ++ e.rest } : Lane).hot = 0 :=
    Lane.cold_iff.2 ⟨herrs, hall hnone hc⟩
  refine ⟨(List.forall₂_cons.1 hent).2, ?_, hall h.done hst, h.resting, ?_, ?_, ?_,
    hcold'.le.trans zero_le_one, fun hne => absurd hcold' hne, hrestart, hpre, hall hfin hp⟩
  · intro x hx
    refine h.tail x ?_
    rw [hq]
    exact List.mem_of_mem_tail hx
  · intro x hx
    refine h.failed x ?_
    simpa [List.filter_append, hc] using hx
  · have hframed := h.framed
    simp only [Lane.headers, hb] at hframed ⊢
    grind
  · refine h.inOrder.drop (a := l.log) (d := e.rest)
      (b := q.flatMap Entry.rest ++ l.submitted.flatMap Header.cmds) ?_ ?_ (by simp) rfl
    · simp [Lane.pending, herrs, hrestart, hpre, hnil, hq]
    · simp [Lane.pending, herrs, hrestart, hpre, hnil, finishedRest_eq_nil hc hp]

theorem Lane.Ok.fail {b f : Header} {k : List Header} {id off : ℕ} {x : Command}
    {rest : List Command} {q : List Entry} (h : l.Ok m) (hr : l.running = true)
    (hb : l.queued = b :: k) (hq : l.queue = ⟨id, off, x :: rest⟩ :: q)
    (hf : Framed l.cb b → Framed l.cb f) (hst : f.status = .commandError)
    (hoff : f.errorOffset = off) (hcmds : f.cmds = b.cmds) :
    ({ l with
      fin := l.fin ++ [f], queued := k, queue := q, running := false
      lost := l.lost ++ x :: if x.known then [] else rest } : Lane).Ok m := by
  obtain ⟨rfl, hcold⟩ := h.running_calm hr
  obtain ⟨hrestart, hpre, hfin⟩ := h.mode
  obtain ⟨herrs, hnil⟩ := Lane.front_eq_nil hcold hfin
  obtain ⟨-, hnone⟩ := Lane.cold_iff.1 hcold
  have hent := h.entries
  rw [hb, hq] at hent
  obtain ⟨hbe, hbs⟩ := List.forall₂_cons.1 hent
  have hdrop : dropBytes f.errorOffset f.cmds = some (x :: rest) := by
    rw [hoff, hcmds]
    exact hbe.2
  have hrem : finishedRest f = if x.known then rest else [] := by
    simp only [finishedRest, hst, remainder, hdrop]
  have hfilter : l.fin.filter (·.status = .commandError) = [] := by
    simpa [List.filter_eq_nil_iff] using hnone
  have hqueue : ∀ e ∈ q, e.offset = 0 := by
    have := h.tail
    rw [hq] at this
    exact this
  refine ⟨hbs, fun e he => hqueue e (List.mem_of_mem_tail he), ?_, h.resting, ?_, ?_, ?_, ?_,
    fun _ => ⟨rfl, hqueue⟩, hrestart, hpre, ?_⟩
  · intro y hy
    rcases List.mem_append.1 hy with hy | hy
    · exact h.done y hy
    · obtain rfl := List.mem_singleton.1 hy
      simp [hst]
  · intro y hy
    have hy : y = f := by simpa [herrs, List.filter_append, hfilter, hst] using hy
    exact ⟨x, rest, hy ▸ hdrop⟩
  · have hframed := h.framed
    simp only [Lane.headers, hb] at hframed ⊢
    grind
  · refine h.inOrder.drop (a := l.log) (d := x :: if x.known then [] else rest)
      (b := (if x.known then rest else []) ++ q.flatMap Entry.rest ++
        l.submitted.flatMap Header.cmds) ?_ ?_ (by simp) rfl
    · cases hk : x.known <;> simp [Lane.pending, herrs, hrestart, hpre, hnil, hq]
    · simp [Lane.pending, herrs, hrestart, hpre, hnil, hrem]
  · simp only [Lane.hot, herrs, List.countP_append, List.length_nil, zero_add]
    rw [List.countP_eq_length_filter, hfilter]
    simp [hst]
  · intro y hy
    rcases List.mem_append.1 hy with hy | hy
    · exact hfin y hy
    · obtain rfl := List.mem_singleton.1 hy
      simp [hst]

theorem Lane.Ok.submit {b : Header} {k : List Header} (id : ℕ) (h : l.Ok m)
    (hb : l.submitted = b :: k) (hblock : l.block = false) :
    ({ l with
      queued := l.queued ++ [b], queue := l.queue ++ [⟨id, 0, b.cmds⟩]
      submitted := k } : Lane).Ok m := by
  have hoff : ∀ {q : List Entry}, (∀ e ∈ q, e.offset = 0) →
      ∀ e ∈ q ++ [(⟨id, 0, b.cmds⟩ : Entry)], e.offset = 0 := by
    intro q hq e he
    rcases List.mem_append.1 he with he | he
    · exact hq e he
    · rw [List.mem_singleton.1 he]
  have hrest := h.resting
  have hframed := h.framed
  simp only [Lane.headers, hb] at hrest hframed
  refine ⟨?_, ?_, h.done, ?_, h.failed, ?_, ?_, h.single, ?_, ?_⟩
  · refine List.rel_append h.entries (.cons ⟨?_, dropBytes_zero _⟩ .nil)
    exact hrest b (by simp)
  · cases hq : l.queue with
    | nil => simp
    | cons e q =>
      have := h.tail
      rw [hq] at this
      exact hoff this
  · intro x hx
    refine hrest x ?_
    simp only [List.mem_append, List.mem_cons] at hx ⊢
    tauto
  · intro x hx
    refine hframed x ?_
    simp only [Lane.headers, List.mem_append, List.mem_cons, List.not_mem_nil, or_false] at hx ⊢
    tauto
  · refine h.inOrder.same ?_ rfl rfl
    simp [Lane.pending, hb]
  · intro hne
    exact ⟨(h.halted hne).1, hoff (h.halted hne).2⟩
  · have hm := h.mode
    cases m with
    | calm => exact hm
    | collected => 
      have := hm.2.2.2.1
      rw [hblock] at this
      cases this
    | preempted =>
      have := hm.2.2.1
      rw [hblock] at this
      cases this
    | restarted => exact hm

theorem Lane.Ok.free {f : Header} {k : List Header} (h : l.Ok m) (hf : l.fin = f :: k)
    (hc : f.status ≠ .commandError) (hp : f.status ≠ .preempted) :
    ({ l with fin := k } : Lane).Ok m := by
  have hhot : ({ l with fin := k } : Lane).hot = l.hot := by simp [Lane.hot, hf, hc]
  have hmem : ∀ x ∈ k, x ∈ l.fin := fun x hx => by rw [hf]; exact List.mem_cons_of_mem f hx
  have hfilter : k.filter (·.status = .commandError) =
      l.fin.filter (·.status = .commandError) := by simp [hf, hc]
  refine ⟨h.entries, h.tail, fun x hx => h.done x (hmem x hx), h.resting, ?_, ?_, ?_,
    hhot.le.trans h.single, fun hne => h.halted (hhot ▸ hne), ?_⟩
  · intro x hx
    refine h.failed x ?_
    rw [← hfilter]
    exact hx
  · intro x hx
    refine h.framed x ?_
    simp only [Lane.headers, List.mem_append] at hx ⊢
    have := hmem x
    tauto
  · refine h.inOrder.same ?_ rfl rfl
    simp [Lane.pending, hf, finishedRest_eq_nil hc hp]
  · have hm := h.mode
    cases m with
    | calm => exact ⟨hm.1, hm.2.1, fun x hx => hm.2.2 x (hmem x hx)⟩
    | collected =>
      obtain ⟨hr, hh, hpre, hb, hfin, hq⟩ := hm
      exact ⟨hr, hhot.trans hh, hpre, hb, fun x hx => hfin x (hmem x hx), hq⟩
    | preempted =>
      obtain ⟨hr, hh, hb, hq⟩ := hm
      exact ⟨hr, hhot.trans hh, hb, hq⟩
    | restarted =>
      obtain ⟨hr, hh, hrs, hpre, hfin⟩ := hm
      exact ⟨hr, hhot.trans hh, hrs, hpre, fun x hx => hfin x (hmem x hx)⟩

theorem Lane.Ok.hot_calm (h : l.Ok m) (hhot : l.hot ≠ 0) : m = .calm := by
  have hm := h.mode
  cases m with
  | calm => rfl
  | collected => exact absurd hm.2.1 hhot
  | preempted => exact absurd hm.2.1 hhot
  | restarted => exact absurd hm.2.1 hhot

theorem framed_status {c : Cb} {h : Header} (st : Status) (hf : Framed c h) :
    Framed c { h with status := st } := hf

theorem Lane.Ok.framed_taken {f x : Header} (h : l.Ok m) (hf : f ∈ l.fin)
    (hx : x = { f with status := .none } ∨ x ∈ l.headers) : Framed l.cb x := by
  rcases hx with rfl | hx
  · exact framed_status .none (h.framed f (by simp [Lane.headers, hf]))
  · exact h.framed x hx

theorem Lane.Ok.error {f : Header} {k : List Header} (h : l.Ok m) (hf : l.fin = f :: k)
    (hc : f.status = .commandError) :
    ({ l with errs := l.errs ++ [{ f with status := .none }], fin := k } : Lane).Ok m := by
  have hne : l.hot ≠ 0 := by simp [Lane.hot, hf, hc]
  obtain rfl := h.hot_calm hne
  obtain ⟨hrestart, hpre, hfin⟩ := h.mode
  have hhot : ({ l with
      errs := l.errs ++ [{ f with status := .none }], fin := k } : Lane).hot = l.hot := by
    simp only [Lane.hot, hf, List.length_append, List.length_singleton, List.countP_cons, hc,
      decide_true, if_true]
    omega
  have hmem : ∀ x ∈ k, x ∈ l.fin := fun x hx => by rw [hf]; exact List.mem_cons_of_mem f hx
  have hin : f ∈ l.fin := by simp [hf]
  refine ⟨h.entries, h.tail, fun x hx => h.done x (hmem x hx), ?_, ?_, ?_, ?_,
    hhot.le.trans h.single, fun _ => h.halted hne, hrestart, hpre, fun x hx => hfin x (hmem x hx)⟩
  · have hrest := h.resting
    grind
  · have hfail := h.failed
    have hff := hfail f (by simp [hf, hc])
    rw [hf, List.filter_cons_of_pos (by simpa using hc)] at hfail
    intro x hx
    rcases List.mem_append.1 hx with hx | hx
    · rcases List.mem_append.1 hx with hx | hx
      · exact hfail x (List.mem_append_left _ hx)
      · rw [List.mem_singleton.1 hx]
        exact hff
    · exact hfail x (List.mem_append_right _ (List.mem_cons_of_mem f hx))
  · intro x hx
    have hx : x = { f with status := .none } ∨ x ∈ l.headers := by
      simp only [Lane.headers, List.mem_append, List.mem_singleton] at hx ⊢
      have := hmem x
      tauto
    exact h.framed_taken hin hx
  · refine h.inOrder.same ?_ rfl rfl
    simp [Lane.pending, hf, hrestart, hpre, finishedRest, hc, remainder]

theorem Lane.Ok.keep {f : Header} {k : List Header} (h : l.Ok m) (hf : l.fin = f :: k)
    (hp : f.status = .preempted) :
    ({ l with preempted := l.preempted ++ [{ f with status := .none }], fin := k } : Lane).Ok m := by
  have hin : f ∈ l.fin := by simp [hf]
  have hm : m = .preempted := by
    have hm := h.mode
    cases m with
    | calm => exact absurd hp (hm.2.2 f hin)
    | collected => exact absurd hp (hm.2.2.2.2.1 f hin)
    | preempted => rfl
    | restarted => exact absurd hp (hm.2.2.2.2 f hin)
  subst hm
  obtain ⟨hr, hh, hb, hq⟩ := h.mode
  have hhot : ({ l with
      preempted := l.preempted ++ [{ f with status := .none }], fin := k } : Lane).hot = l.hot := by
    simp [Lane.hot, hf, hp]
  have hmem : ∀ x ∈ k, x ∈ l.fin := fun x hx => by rw [hf]; exact List.mem_cons_of_mem f hx
  refine ⟨h.entries, h.tail, fun x hx => h.done x (hmem x hx), ?_, ?_, ?_, ?_,
    hhot.le.trans h.single, fun hne => absurd (hhot.trans hh) hne, hr, hhot.trans hh, hb, hq⟩
  · have hrest := h.resting
    grind
  · have hfail := h.failed
    rw [hf, List.filter_cons_of_neg (by simp [hp])] at hfail
    exact hfail
  · intro x hx
    have hx : x = { f with status := .none } ∨ x ∈ l.headers := by
      simp only [Lane.headers, List.mem_append, List.mem_singleton] at hx ⊢
      have := hmem x
      tauto
    exact h.framed_taken hin hx
  · refine h.inOrder.same ?_ rfl rfl
    simp [Lane.pending, hf, finishedRest, hp]

theorem Lane.Ok.add {b : Header} (h : l.Ok m) (hb : Framed l.cb b) (hst : b.status = .none) :
    ({ l with submitted := l.submitted ++ [b], added := l.added ++ b.cmds } : Lane).Ok m := by
  refine ⟨h.entries, h.tail, h.done, ?_, h.failed, ?_, ?_, h.single, h.halted, h.mode⟩
  · have hrest := h.resting
    grind
  · have hframed := h.framed
    simp only [Lane.headers] at hframed ⊢
    grind
  · obtain ⟨hsub, hlen⟩ := h.inOrder
    simp only [Lane.InOrder, Lane.pending, List.length_append, List.flatMap_append,
      List.flatMap_singleton] at hsub hlen ⊢
    refine ⟨?_, by omega⟩
    rw [← List.append_assoc, ← List.append_assoc]
    exact List.Sublist.append_right (by simpa using hsub) b.cmds

theorem Lane.Ok.refuse {b d : Header} {k : List Header} (h : l.Ok m)
    (hb : l.submitted = b :: k) (hf : Framed l.cb b → Framed l.cb d) (hst : d.status = .none)
    (hcmds : d.cmds = b.cmds) : ({ l with submitted := d :: k } : Lane).Ok m := by
  have hrest := h.resting
  have hframed := h.framed
  simp only [Lane.headers, hb] at hrest hframed
  refine ⟨h.entries, h.tail, h.done, ?_, h.failed, ?_, ?_, h.single, h.halted, h.mode⟩
  · grind
  · simp only [Lane.headers]
    grind
  · refine h.inOrder.same ?_ rfl rfl
    simp [Lane.pending, hb, hcmds]

theorem Lane.Ok.collect {f : Header} {k : List Header} (h : l.Ok .calm) (he : l.errs = [f])
    (hrs : k.flatMap Header.cmds = remainder f)
    (hr : ∀ r ∈ k, r.status = .none ∧ Framed l.cb r) :
    ({ l with errs := [], restart := k, block := true } : Lane).Ok .collected := by
  obtain ⟨hrestart, hpre, hfin⟩ := h.mode
  have hsingle := h.single
  have hne : l.hot ≠ 0 := by simp [Lane.hot, he]
  obtain ⟨hstop, hqueue⟩ := h.halted hne
  have hcold : ({ l with errs := [], restart := k, block := true } : Lane).hot = 0 := by
    simp only [Lane.hot, he, List.length_singleton, List.length_nil] at hsingle ⊢
    omega
  refine ⟨h.entries, h.tail, h.done, ?_, ?_, ?_, ?_, hcold.le.trans zero_le_one,
    fun hn => absurd hcold hn, hstop, hcold, hpre, rfl, hfin, hqueue⟩
  · have hrest := h.resting
    grind
  · intro x hx
    exact h.failed x (List.mem_append_right _ (by simpa using hx))
  · have hframed := h.framed
    simp only [Lane.headers] at hframed ⊢
    grind
  · refine h.inOrder.same ?_ rfl rfl
    simp [Lane.pending, he, hrs, hrestart]

theorem Lane.Ok.setBlock (h : l.Ok .calm) (b : Bool) : ({ l with block := b } : Lane).Ok .calm :=
  ⟨h.entries, h.tail, h.done, h.resting, h.failed, h.framed, h.inOrder, h.single, h.halted, h.mode⟩

theorem unstarted_rest {g : Header → Header} (hst : ∀ x, (g x).status = .preempted)
    (hcmds : ∀ x, (g x).cmds = x.cmds) {hs : List Header} {q : List Entry}
    (hall : List.Forall₂ (fun h e => h.status = .none ∧ dropBytes e.offset h.cmds = some e.rest)
      hs q) (h0 : ∀ e ∈ q, e.offset = 0) :
    (hs.map g).flatMap finishedRest = q.flatMap Entry.rest := by
  induction hall with
  | nil => rfl
  | @cons x e hs q hx _ ih =>
    have hx := hx.2
    rw [h0 e (by simp), dropBytes_zero] at hx
    simp only [List.map_cons, List.flatMap_cons, finishedRest, hst, hcmds, Option.some.inj hx]
    congr 1
    exact ih fun e he => h0 e (List.mem_cons_of_mem _ he)

theorem Lane.Ok.preempt {g : Header → Header} (h : l.Ok .collected)
    (hf : ∀ x, Framed l.cb x → Framed l.cb (g x)) (hst : ∀ x, (g x).status = .preempted)
    (hcmds : ∀ x, (g x).cmds = x.cmds) :
    ({ l with fin := l.fin ++ l.queued.map g, queued := [], queue := [] } : Lane).Ok
      .preempted := by
  obtain ⟨hstop, hcold, hpre, hblock, hfin, hqueue⟩ := h.mode
  obtain ⟨herrs, hnone⟩ := Lane.cold_iff.1 hcold
  have hmem : ∀ x ∈ l.queued.map g, x.status = .preempted := by
    intro x hx
    obtain ⟨y, -, rfl⟩ := List.mem_map.1 hx
    exact hst y
  have hfilter : (l.queued.map g).filter (·.status = .commandError) = [] := by
    rw [List.filter_eq_nil_iff]
    intro x hx
    simp [hmem x hx]
  have hcold' : ({ l with
      fin := l.fin ++ l.queued.map g, queued := [], queue := [] } : Lane).hot = 0 := by
    rw [← hcold]
    simp only [Lane.hot, List.countP_eq_length_filter, List.filter_append, hfilter,
      List.append_nil]
  refine ⟨.nil, by simp, ?_, h.resting, ?_, ?_, ?_, hcold'.le.trans zero_le_one,
    fun hn => absurd hcold' hn, hstop, hcold', hblock, rfl⟩
  · intro x hx
    rcases List.mem_append.1 hx with hx | hx
    · exact h.done x hx
    · simp [hmem x hx]
  · intro x hx
    refine h.failed x ?_
    rw [List.filter_append, hfilter, List.append_nil] at hx
    exact hx
  · have hframed := h.framed
    simp only [Lane.headers] at hframed ⊢
    grind
  · refine h.inOrder.same ?_ rfl rfl
    simp only [Lane.pending, List.flatMap_append, unstarted_rest hst hcmds h.entries hqueue,
      (Lane.front_eq_nil hcold hfin).2]
    simp

theorem Lane.Ok.splice (h : l.Ok .preempted) (hfin : l.fin = []) :
    ({ l with
      restart := [], preempted := [], block := false
      submitted := l.restart ++ l.preempted ++ l.submitted } : Lane).Ok .restarted := by
  obtain ⟨hstop, hcold, -, hqueue⟩ := h.mode
  have hcold' : ({ l with
      restart := [], preempted := [], block := false
      submitted := l.restart ++ l.preempted ++ l.submitted } : Lane).hot = 0 := hcold
  refine ⟨h.entries, h.tail, h.done, ?_, h.failed, ?_, ?_, h.single, h.halted, hstop, hcold', rfl,
    rfl, by simp [hfin]⟩
  · have hrest := h.resting
    grind
  · have hframed := h.framed
    simp only [Lane.headers] at hframed ⊢
    grind
  · refine h.inOrder.same ?_ rfl rfl
    simp [Lane.pending, hfin, hqueue, (Lane.cold_iff.1 hcold).1]

theorem Lane.Ok.calmed (h : l.Ok .restarted) : l.Ok .calm :=
  ⟨h.entries, h.tail, h.done, h.resting, h.failed, h.framed, h.inOrder, h.single, h.halted,
    h.mode.2.2⟩

theorem Lane.Ok.start (h : l.Ok .calm) (hcold : l.hot = 0) :
    ({ l with running := true } : Lane).Ok .calm :=
  ⟨h.entries, h.tail, h.done, h.resting, h.failed, h.framed, h.inOrder, h.single,
    fun hn => absurd hcold hn, h.mode⟩

theorem Lane.Ok.stop (h : l.Ok m) : ({ l with running := false } : Lane).Ok m := by
  refine ⟨h.entries, h.tail, h.done, h.resting, h.failed, h.framed, h.inOrder, h.single,
    fun hn => ⟨rfl, (h.halted hn).2⟩, ?_⟩
  have hm := h.mode
  cases m with
  | calm => exact hm
  | collected => exact ⟨rfl, hm.2⟩
  | preempted => exact ⟨rfl, hm.2⟩
  | restarted => exact ⟨rfl, hm.2⟩

end ops

end Vmwgfx.CmdbufLane
