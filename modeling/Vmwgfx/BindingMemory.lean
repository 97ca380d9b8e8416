import Vmwgfx.BindingLayout
import Vmwgfx.BindingLists

set_option autoImplicit false

/-!
# Bindings that are copied and linked in memory

`vmw_binding_add`, `vmw_binding_transfer` and `vmw_binding_state_commit` with the addresses
that they compute. Each does to the memory what the functions on slots and lists say.
-/
namespace Vmwgfx.BindingMemory
open BindingSlots BindingMachine BindingLists BindingLayout KernelLists

section Functions

/-- `size` bytes of what `buf` points to. -/
def copyIn (dst : ℕ) (buf : ℕ → ℕ) (size : ℕ) (m : Mem) : Mem := fun w =>
  if dst ≤ w ∧ w < dst + size then buf (w - dst) else m w

def memcpy (dst src size : ℕ) (m : Mem) : Mem := copyIn dst (fun k => m (src + k)) size m

def vmwBindingDrop (bi : ℕ) (m : Mem) : Mem :=
  let m := listDel bi m
  let m := if listEmpty (bi + offResList) m then m else listDel (bi + offResList) m
  write (bi + offCtx) 0 m

/-- The test `loc->ctx != NULL` before a drop. -/
def dropLive (loc : ℕ) (m : Mem) : Mem := if m (loc + offCtx) ≠ 0 then vmwBindingDrop loc m else m

def vmwBindingAdd (cbs : ℕ) (bi : ℕ → ℕ) (shaderSlot slot : ℕ) (m : Mem) : Mem :=
  let loc := vmwBindingLoc cbs (bi offBt) shaderSlot slot
  let m := copyIn loc bi (bindingInfo (bi offBt)).size (dropLive loc m)
  let m := write (loc + offScrubbed) 0 m
  initListHead (loc + offResList) (listAdd loc (cbs + offList) m)

def vmwBindingTransfer (cbs source bi : ℕ) (m : Mem) : Mem :=
  let loc := cbs + (bi - source)
  let m := dropLive loc m
  if m (bi + offRes) ≠ 0 then
    let m := memcpy loc bi (bindingInfo (m (bi + offBt))).size m
    let m := listAddTail loc (cbs + offList) m
    listAddTail (loc + offResList) (m (loc + offRes) + offBindingHead) m
  else m

/-- `list_for_each_entry_safe`: the next entry is known before the body runs. -/
def commitLoop (cbs source : ℕ) : ℕ → ℕ → ℕ → Mem → Option Mem
  | 0, _, _, _ => none
  | fuel + 1, entry, next, m =>
    if entry = source + offList then some m
    else
      let m := vmwBindingDrop entry (vmwBindingTransfer cbs source entry m)
      commitLoop cbs source fuel next (m next) m

def vmwBindingStateCommit (cbs source : ℕ) (m : Mem) : Option Mem :=
  let entry := m (source + offList)
  commitLoop cbs source sizeofCbs entry (m entry) m

end Functions

/-- Binding states and resources that do not overlap, and the pointers to contexts. -/
structure Placement where
  cbs : StateId → ℕ
  res : ℕ → ℕ
  ctx : ℕ → ℕ
  cbs_apart : ∀ i j, i ≠ j → cbs i + sizeofCbs ≤ cbs j ∨ cbs j + sizeofCbs ≤ cbs i
  res_apart : ∀ r q, r ≠ q → res r + sizeofResource ≤ res q ∨ res q + sizeofResource ≤ res r
  cbs_res : ∀ i r, cbs i + sizeofCbs ≤ res r ∨ res r + sizeofResource ≤ cbs i
  res_pos : ∀ r, res r ≠ 0
  ctx_pos : ∀ c, ctx c ≠ 0

inductive Node where
  | ctxHead (i : StateId)
  | resHead (r : ℕ)
  | ctxNode (p : SlotRef)
  | resNode (p : SlotRef)
  deriving DecidableEq

namespace Placement
variable (P : Placement)

def addr (p : SlotRef) : ℕ := P.cbs p.1 + slotOffset p.2

def place : Node → ℕ
  | .ctxHead i => P.cbs i + offList
  | .resHead r => P.res r + offBindingHead
  | .ctxNode p => P.addr p
  | .resNode p => P.addr p + offResList

def ctxPtr : Option ℕ → ℕ
  | none => 0
  | some c => P.ctx c

def resPtr : Option ℕ → ℕ
  | none => 0
  | some r => P.res r

variable {P}

theorem addr_apart {p q : SlotRef} (h : p ≠ q) :
    P.addr p + slotSize p.2 ≤ P.addr q ∨ P.addr q + slotSize q.2 ≤ P.addr p := by
  obtain ⟨i, l⟩ := p
  obtain ⟨j, k⟩ := q
  unfold addr
  by_cases hij : i = j
  · subst hij
    have hlk : l ≠ k := fun hlk => h (hlk ▸ rfl)
    have := slots_apart hlk
    dsimp only
    omega
  · have := P.cbs_apart i j hij
    have := slot_inside l
    have := slot_inside k
    dsimp only
    omega

theorem addr_inside (p : SlotRef) :
    P.cbs p.1 + offList + 16 ≤ P.addr p ∧ P.addr p + slotSize p.2 ≤ P.cbs p.1 + sizeofCbs ∧
      sizeofBindinfo ≤ slotSize p.2 := by
  have := slot_inside p.2
  unfold addr
  omega

theorem head_apart (i : StateId) (p : SlotRef) :
    P.cbs i + offList + 16 ≤ P.addr p ∨ P.addr p + slotSize p.2 ≤ P.cbs i + offList := by
  have hin := addr_inside (P := P) p
  by_cases hi : i = p.1
  · subst hi
    exact .inl hin.1
  · have := P.cbs_apart i p.1 hi
    omega

theorem resHead_apart (r : ℕ) (p : SlotRef) :
    P.res r + offBindingHead + 16 ≤ P.addr p ∨ P.addr p + slotSize p.2 ≤ P.res r + offBindingHead := by
  have hin := addr_inside (P := P) p
  have := P.cbs_res p.1 r
  have hoff : offBindingHead = 104 ∧ sizeofResource = 136 := ⟨rfl, rfl⟩
  omega

theorem slots_apart_or (p q : SlotRef) :
    p = q ∨ P.addr p + slotSize p.2 ≤ P.addr q ∨ P.addr q + slotSize q.2 ≤ P.addr p := by
  by_cases h : p = q
  · exact .inl h
  · exact .inr (addr_apart h)

theorem placed : Placed P.place where
  apart a b h := by
    have hoff : offList = 8 ∧ offResList = 16 ∧ offBindingHead = 104 ∧ sizeofResource = 136 ∧
      sizeofBindinfo = 56 := ⟨rfl, rfl, rfl, rfl, rfl⟩
    have hin := addr_inside (P := P)
    cases a with
    | ctxHead i =>
      cases b with
      | ctxHead j =>
        have := P.cbs_apart i j fun hij => h (hij ▸ rfl)
        have := slot_inside .ib
        simp only [place]
        omega
      | resHead r =>
        have := P.cbs_res i r
        have := slot_inside .ib
        simp only [place]
        omega
      | ctxNode q | resNode q =>
        have := head_apart (P := P) i q
        have := hin q
        simp only [place]
        omega
    | resHead r =>
      cases b with
      | ctxHead j =>
        have := P.cbs_res j r
        have := slot_inside .ib
        simp only [place]
        omega
      | resHead r' =>
        have := P.res_apart r r' fun hrr => h (hrr ▸ rfl)
        simp only [place]
        omega
      | ctxNode q | resNode q =>
        have := resHead_apart (P := P) r q
        have := hin q
        simp only [place]
        omega
    | ctxNode p =>
      have := hin p
      cases b with
      | ctxHead j =>
        have := head_apart (P := P) j p
        simp only [place]
        omega
      | resHead r =>
        have := resHead_apart (P := P) r p
        simp only [place]
        omega
      | ctxNode q =>
        have := addr_apart (P := P) fun hpq : p = q => h (hpq ▸ rfl)
        have := hin q
        simp only [place]
        omega
      | resNode q =>
        have := hin q
        simp only [place]
        obtain rfl | hpq := slots_apart_or (P := P) p q <;> omega
    | resNode p =>
      have := hin p
      cases b with
      | ctxHead j =>
        have := head_apart (P := P) j p
        simp only [place]
        omega
      | resHead r =>
        have := resHead_apart (P := P) r p
        simp only [place]
        omega
      | ctxNode q =>
        have := hin q
        simp only [place]
        obtain rfl | hpq := slots_apart_or (P := P) p q <;> omega
      | resNode q =>
        have := addr_apart (P := P) fun hpq : p = q => h (hpq ▸ rfl)
        have := hin q
        simp only [place]
        omega

theorem payload_off {p : SlotRef} {k : ℕ} (hk : offCtx ≤ k) (hlt : k < slotSize p.2) (n : Node) :
    P.addr p + k ≠ P.place n ∧ P.addr p + k ≠ P.place n + 8 := by
  have hoff : offList = 8 ∧ offResList = 16 ∧ offCtx = 32 ∧ sizeofBindinfo = 56 :=
    ⟨rfl, rfl, rfl, rfl⟩
  have hin := addr_inside (P := P) p
  cases n with
  | ctxHead i =>
    have := head_apart (P := P) i p
    simp only [place]
    omega
  | resHead r =>
    have := resHead_apart (P := P) r p
    simp only [place]
    omega
  | ctxNode q | resNode q =>
    have := addr_inside (P := P) q
    simp only [place]
    obtain rfl | hpq := slots_apart_or (P := P) p q <;> omega

end Placement

section Rings
variable {P : Placement} {m t : Mem} {L : StateId → List Loc} {H : ℕ → List SlotRef}
  {S : SlotRef → Prop} {p : SlotRef} {i : StateId} {l : Loc} {r : ℕ}

/-- The lists in memory: those of the states, those of the resources, and the nodes of their
    own. A slot is in at most one of the latter two. -/
structure Rings (P : Placement) (m : Mem) (L : StateId → List Loc) (H : ℕ → List SlotRef)
    (S : SlotRef → Prop) : Prop where
  list : ∀ i, Ring P.place m (.ctxHead i :: (L i).map fun l => .ctxNode (i, l) : List Node)
  heads : ∀ r, Ring P.place m (.resHead r :: (H r).map .resNode : List Node)
  alone : ∀ p, S p → Ring P.place m ([.resNode p] : List Node)
  once : ∀ p r q, p ∈ H r → p ∈ H q → r = q
  apart : ∀ p r, S p → p ∉ H r

def PayloadSame (P : Placement) (m t : Mem) : Prop :=
  ∀ (p : SlotRef) k, offCtx ≤ k → k < slotSize p.2 → t (P.addr p + k) = m (P.addr p + k)

theorem payload_of_sameOff {ns : List Node} (h : SameOff P.place ns m t) : PayloadSame P m t :=
  fun _ _ hk hlt => h _ fun n _ => Placement.payload_off hk hlt n

theorem Rings.frame (h : Rings P m L H S)
    (hsame : ∀ n, (∀ q, n = .ctxNode q → q.2 ∈ L q.1) → (∀ q, n = .resNode q → S q ∨ ∃ r, q ∈ H r) →
      t (P.place n) = m (P.place n) ∧ t (P.place n + 8) = m (P.place n + 8)) : Rings P t L H S where
  list i := (h.list i).frame fun n hn => hsame n
    (fun q hq => by
      subst hq
      simp only [Cycle.mem_coe_iff, List.mem_cons, reduceCtorEq, List.mem_map, Node.ctxNode.injEq,
        false_or] at hn
      obtain ⟨l, hl, rfl⟩ := hn
      exact hl)
    (fun q hq => by
      subst hq
      simp at hn)
  heads r := (h.heads r).frame fun n hn => hsame n
    (fun q hq => by
      subst hq
      simp at hn)
    (fun q hq => by
      subst hq
      simp only [Cycle.mem_coe_iff, List.mem_cons, reduceCtorEq, List.mem_map, Node.resNode.injEq,
        exists_eq_right, false_or] at hn
      exact .inr ⟨r, hn⟩)
  alone p hp := (h.alone p hp).frame fun n hn => by
    simp only [Cycle.mem_coe_iff, List.mem_singleton] at hn
    subst hn
    exact hsame _ (fun q hq => by cases hq) fun q hq => by
      cases hq
      exact .inl hp
  once := h.once
  apart := h.apart

theorem Rings.payload (h : Rings P m L H S) {k v : ℕ} (hk : offCtx ≤ k) (hlt : k < slotSize p.2) :
    Rings P (write (P.addr p + k) v m) L H S :=
  h.frame fun n _ _ => by
    have hoff := Placement.payload_off (P := P) hk hlt n
    simp only [write, Function.update_apply, hoff.1.symm, hoff.2.symm, if_false, and_self]

theorem copyIn_other {dst size : ℕ} {buf : ℕ → ℕ} {w : ℕ} (h : w < dst ∨ dst + size ≤ w) :
    copyIn dst buf size m w = m w := by
  unfold copyIn
  rw [if_neg (by omega)]

theorem copyIn_inside {dst size k : ℕ} {buf : ℕ → ℕ} (h : k < size) :
    copyIn dst buf size m (dst + k) = buf k := by
  unfold copyIn
  rw [if_pos (by omega), Nat.add_sub_cancel_left]

theorem Rings.copyIn (h : Rings P m L H S) {buf : ℕ → ℕ} (hL : p.2 ∉ L p.1) (hH : ∀ r, p ∉ H r)
    (hS : ¬ S p) : Rings P (copyIn (P.addr p) buf (slotSize p.2) m) L H S :=
  h.frame fun n hctx hres => by
    have hoff : offList = 8 ∧ offResList = 16 ∧ sizeofBindinfo = 56 := ⟨rfl, rfl, rfl⟩
    have hother : P.place n + 16 ≤ P.addr p ∨ P.addr p + slotSize p.2 ≤ P.place n := by
      cases n with
      | ctxHead i => exact Placement.head_apart i p
      | resHead r => exact Placement.resHead_apart r p
      | ctxNode q | resNode q =>
        have hne : p ≠ q := by
          rintro rfl
          first
          | exact hL (hctx p rfl)
          | exact (hres p rfl).elim hS fun ⟨r, hr⟩ => hH r hr
        have := Placement.addr_apart (P := P) hne
        have := Placement.addr_inside (P := P) q
        simp only [Placement.place]
        omega
    exact ⟨copyIn_other (by omega), copyIn_other (by omega)⟩

theorem Rings.setList (h : Rings P m L H S) {xs : List Loc} {ns : List Node}
    (hring : Ring P.place t (.ctxHead i :: xs.map fun l => .ctxNode (i, l) : List Node))
    (hsame : SameOff P.place ns m t)
    (hns : ∀ n ∈ ns, n = .ctxHead i ∨ ∃ l, n = .ctxNode (i, l)) :
    Rings P t (Function.update L i xs) H S where
  list j := by
    by_cases hj : j = i
    · subst hj
      rw [Function.update_self]
      exact hring
    · rw [Function.update_of_ne hj]
      refine (h.list j).frame_off Placement.placed hsame fun n hn => ?_
      obtain rfl | ⟨l, rfl⟩ := hns n hn <;> simp [hj, Ne.symm hj]
  heads r := (h.heads r).frame_off Placement.placed hsame fun n hn => by
    obtain rfl | ⟨l, rfl⟩ := hns n hn <;> simp
  alone p hp := (h.alone p hp).frame_off Placement.placed hsame fun n hn => by
    obtain rfl | ⟨l, rfl⟩ := hns n hn <;> simp
  once := h.once
  apart := h.apart

theorem ctxNode_injective (i : StateId) : Function.Injective fun l => Node.ctxNode (i, l) := by
  intro l k h
  simpa using h

theorem mem_ctxNodes {xs : List Loc} :
    Node.ctxNode (i, l) ∈ xs.map (fun l => Node.ctxNode (i, l)) ↔ l ∈ xs := by
  simp

theorem Rings.ctxDel (h : Rings P m L H S) (hl : l ∈ L i) :
    Rings P (listDel (P.addr (i, l)) m) (Function.update L i ((L i).erase l)) H S ∧
      PayloadSame P m (listDel (P.addr (i, l)) m) := by
  obtain ⟨hring, hsame⟩ := (h.list i).del Placement.placed (mem_ctxNodes.2 hl)
  refine ⟨h.setList ?_ hsame fun n hn => ?_, payload_of_sameOff hsame⟩
  · rw [List.map_erase (ctxNode_injective i)]
    exact hring
  · simp only [List.mem_cons, List.mem_map] at hn
    obtain rfl | ⟨k, -, rfl⟩ := hn
    · exact .inl rfl
    · exact .inr ⟨k, rfl⟩

theorem Rings.ctxAdd (h : Rings P m L H S) (hl : l ∉ L i) :
    Rings P (listAdd (P.addr (i, l)) (P.cbs i + offList) m) (Function.update L i (l :: L i)) H S ∧
      PayloadSame P m (listAdd (P.addr (i, l)) (P.cbs i + offList) m) := by
  obtain ⟨hring, hsame⟩ := (h.list i).add Placement.placed (x := .ctxNode (i, l))
    (by simpa using hl)
  refine ⟨h.setList hring hsame fun n hn => ?_, payload_of_sameOff hsame⟩
  simp only [List.mem_cons, List.mem_map] at hn
  obtain rfl | rfl | ⟨k, -, rfl⟩ := hn
  · exact .inr ⟨l, rfl⟩
  · exact .inl rfl
  · exact .inr ⟨k, rfl⟩

theorem Rings.ctxAddTail (h : Rings P m L H S) (hl : l ∉ L i) :
    Rings P (listAddTail (P.addr (i, l)) (P.cbs i + offList) m) (Function.update L i (L i ++ [l]))
        H S ∧
      PayloadSame P m (listAddTail (P.addr (i, l)) (P.cbs i + offList) m) := by
  obtain ⟨hring, hsame⟩ := (h.list i).addTail Placement.placed (x := .ctxNode (i, l))
    (by simpa using hl)
  refine ⟨h.setList ?_ hsame fun n hn => ?_, payload_of_sameOff hsame⟩
  · rw [List.map_append]
    exact hring
  · simp only [List.mem_cons, List.mem_map] at hn
    obtain rfl | rfl | ⟨k, -, rfl⟩ := hn
    · exact .inr ⟨l, rfl⟩
    · exact .inl rfl
    · exact .inr ⟨k, rfl⟩

theorem resNode_injective : Function.Injective Node.resNode := fun _ _ h => Node.resNode.inj h

theorem Rings.setHead (h : Rings P m L H S) {xs : List SlotRef} {ns : List Node}
    (hring : Ring P.place t (.resHead r :: xs.map .resNode : List Node))
    (hsame : SameOff P.place ns m t)
    (hns : ∀ n ∈ ns, n = .resHead r ∨ ∃ q, n = .resNode q ∧ (q ∈ H r ∨ q = p))
    (hxs : ∀ q ∈ xs, q ∈ H r ∨ q = p) (hp : ∀ q, q ≠ r → p ∉ H q) (hS : ¬ S p) :
    Rings P t L (Function.update H r xs) S := by
  have hone : ∀ q k, k ≠ r → q ∈ H r ∨ q = p → q ∉ H k := by
    rintro q k hk (hq | rfl) hmem
    · exact hk (h.once q k r hmem hq)
    · exact hp k hk hmem
  have hmem : ∀ q k, q ∈ Function.update H r xs k →
      (k = r ∧ (q ∈ H r ∨ q = p)) ∨ (k ≠ r ∧ q ∈ H k) := by
    intro q k hq
    by_cases hk : k = r
    · subst hk
      rw [Function.update_self] at hq
      exact .inl ⟨rfl, hxs q hq⟩
    · rw [Function.update_of_ne hk] at hq
      exact .inr ⟨hk, hq⟩
  constructor
  · refine fun i => (h.list i).frame_off Placement.placed hsame fun n hn => ?_
    obtain rfl | ⟨q, rfl, -⟩ := hns n hn <;> simp
  · intro k
    by_cases hk : k = r
    · subst hk
      rw [Function.update_self]
      exact hring
    · rw [Function.update_of_ne hk]
      refine (h.heads k).frame_off Placement.placed hsame fun n hn => ?_
      obtain rfl | ⟨q, rfl, hq⟩ := hns n hn
      · simp [Ne.symm hk]
      · simpa using hone q k hk hq
  · intro q hq
    refine (h.alone q hq).frame_off Placement.placed hsame fun n hn => ?_
    obtain rfl | ⟨k, rfl, hk⟩ := hns n hn
    · simp
    · simp only [Cycle.mem_coe_iff, List.mem_singleton, Node.resNode.injEq]
      rintro rfl
      exact hk.elim (h.apart k r hq) fun hkp => hS (hkp ▸ hq)
  · intro q k k' hk hk'
    obtain ⟨rfl, hq⟩ | ⟨hne, hq⟩ := hmem q k hk <;> obtain ⟨rfl, hq'⟩ | ⟨hne', hq'⟩ := hmem q k' hk'
    · rfl
    · exact absurd hq' (hone q k' hne' hq)
    · exact absurd hq (hone q k hne hq')
    · exact h.once q k k' hq hq'
  · intro q k hq hmemq
    obtain ⟨rfl, hqr | rfl⟩ | ⟨-, hqk⟩ := hmem q k hmemq
    · exact h.apart q k hq hqr
    · exact hS hq
    · exact h.apart q k hq hqk

theorem Rings.resDel (h : Rings P m L H S) (hp : p ∈ H r) :
    Rings P (listDel (P.addr p + offResList) m) L (Function.update H r ((H r).erase p)) S ∧
      PayloadSame P m (listDel (P.addr p + offResList) m) := by
  obtain ⟨hring, hsame⟩ := (h.heads r).del Placement.placed (List.mem_map_of_mem (f := Node.resNode) hp)
  refine ⟨h.setHead (p := p) ?_ hsame (fun n hn => ?_) (fun q hq => .inl (List.mem_of_mem_erase hq))
    (fun q hq hmem => hq (h.once p q r hmem hp)) (fun hS => h.apart p r hS hp),
    payload_of_sameOff hsame⟩
  · rw [List.map_erase resNode_injective]
    exact hring
  · simp only [List.mem_cons, List.mem_map] at hn
    obtain rfl | ⟨q, hq, rfl⟩ := hn
    · exact .inl rfl
    · exact .inr ⟨q, rfl, .inl hq⟩

theorem Rings.resAddTail (h : Rings P m L H S) (hp : ∀ r, p ∉ H r) (hS : ¬ S p) :
    Rings P (listAddTail (P.addr p + offResList) (P.res r + offBindingHead) m) L
        (Function.update H r (H r ++ [p])) S ∧
      PayloadSame P m (listAddTail (P.addr p + offResList) (P.res r + offBindingHead) m) := by
  obtain ⟨hring, hsame⟩ := (h.heads r).addTail Placement.placed (x := .resNode p)
    (by simpa using hp r)
  refine ⟨h.setHead (p := p) ?_ hsame (fun n hn => ?_) (fun q hq => ?_) (fun q _ => hp q) hS,
    payload_of_sameOff hsame⟩
  · rw [List.map_append]
    exact hring
  · simp only [List.mem_cons, List.mem_map] at hn
    obtain rfl | rfl | ⟨q, hq, rfl⟩ := hn
    · exact .inr ⟨p, rfl, .inr rfl⟩
    · exact .inl rfl
    · exact .inr ⟨q, rfl, .inl hq⟩
  · simpa [or_comm] using hq

theorem Rings.resInit (h : Rings P m L H S) (hp : ∀ r, p ∉ H r) :
    Rings P (initListHead (P.addr p + offResList) m) L H (fun q => q = p ∨ S q) ∧
      PayloadSame P m (initListHead (P.addr p + offResList) m) := by
  have hsame : SameOff P.place [.resNode p] m (initListHead (P.addr p + offResList) m) :=
    sameOff_init
  refine ⟨⟨fun i => (h.list i).frame_off Placement.placed hsame (by simp),
    fun r => (h.heads r).frame_off Placement.placed hsame ?_, fun q hq => ?_,
    h.once, fun q r hq => ?_⟩, payload_of_sameOff hsame⟩
  · intro n hn hmem
    rw [List.mem_singleton.1 hn] at hmem
    simp only [Cycle.mem_coe_iff, List.mem_cons, reduceCtorEq, List.mem_map, Node.resNode.injEq,
      exists_eq_right, false_or] at hmem
    exact hp r hmem
  · by_cases hqp : q = p
    · subst hqp
      exact (ring_init : Ring P.place (initListHead (P.place (.resNode q)) m)
        ([.resNode q] : List Node))
    · exact (h.alone q (hq.resolve_left hqp)).frame_off Placement.placed hsame
        (by simpa using Ne.symm hqp)
  · obtain rfl | hq := hq
    · exact hp r
    · exact h.apart q r hq

end Rings

end Vmwgfx.BindingMemory
