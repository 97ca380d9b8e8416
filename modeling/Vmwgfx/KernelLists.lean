import Mathlib.Data.List.Cycle
import Mathlib.Tactic

set_option autoImplicit false

/-!
# Circular lists in memory

Doubly linked lists whose nodes, the heads among them, are two words each: the address of
the next node, and eight bytes further that of the previous one. A memory tells the scalar
at each address. The nodes are named by a type of their own, and their names are placed at
addresses that do not overlap.
-/
namespace Vmwgfx.KernelLists

abbrev Mem := ℕ → ℕ

def write (a v : ℕ) (m : Mem) : Mem := Function.update m a v

section Operations

def initListHead (head : ℕ) (m : Mem) : Mem := write (head + 8) head (write head head m)

/-- `__list_add`. -/
def listAddBetween (new prev next : ℕ) (m : Mem) : Mem :=
  write prev new (write (new + 8) prev (write new next (write (next + 8) new m)))

def listAdd (new head : ℕ) (m : Mem) : Mem := listAddBetween new head (m head) m

def listAddTail (new head : ℕ) (m : Mem) : Mem := listAddBetween new (m (head + 8)) head m

def listPoison1 : ℕ := 0xdead000000000100

def listPoison2 : ℕ := 0xdead000000000200

def listDel (entry : ℕ) (m : Mem) : Mem :=
  write (entry + 8) listPoison2 (write entry listPoison1
    (write (m (entry + 8)) (m entry) (write (m entry + 8) (m (entry + 8)) m)))

def listEmpty (head : ℕ) (m : Mem) : Bool := m head == head

end Operations

structure Placed {ν : Type*} (place : ν → ℕ) : Prop where
  apart : ∀ a b, a ≠ b → place a + 16 ≤ place b ∨ place b + 16 ≤ place a

section Rings
variable {ν : Type*} {place : ν → ℕ} {m t : Mem} {a b h q x : ν} {xs ys zs : List ν}

/-- `b` is the next node after `a`. -/
def Linked (place : ν → ℕ) (m : Mem) (a b : ν) : Prop :=
  m (place a) = place b ∧ m (place b + 8) = place a

structure Ring (place : ν → ℕ) (m : Mem) (c : Cycle ν) : Prop where
  chain : c.Chain (Linked place m)
  nodup : c.Nodup

def SameOff (place : ν → ℕ) (ns : List ν) (m t : Mem) : Prop :=
  ∀ w, (∀ n ∈ ns, w ≠ place n ∧ w ≠ place n + 8) → t w = m w

theorem Placed.injective (hp : Placed place) : Function.Injective place := by
  intro a b hab
  by_contra hne
  have := hp.apart a b hne
  omega

theorem Placed.ne_back (hp : Placed place) (a b : ν) : place a ≠ place b + 8 := by
  by_cases hab : a = b
  · subst hab
    omega
  · have := hp.apart a b hab
    omega

theorem ring_iff : Ring place m (h :: xs : List ν) ↔
    (h :: xs).IsChain (Linked place m) ∧ Linked place m ((h :: xs).getLast (List.cons_ne_nil h xs)) h ∧
      (h :: xs).Nodup := by
  have hchain : Cycle.Chain (Linked place m) (h :: xs : List ν) ↔
      (h :: xs).IsChain (Linked place m) ∧
        Linked place m ((h :: xs).getLast (List.cons_ne_nil h xs)) h := by
    rw [Cycle.chain_coe_cons, ← List.cons_append, List.isChain_append]
    simp [List.getLast?_eq_some_getLast]
  rw [← and_assoc, ← hchain, ← Cycle.nodup_coe_iff]
  exact ⟨fun hr => ⟨hr.1, hr.2⟩, fun hr => ⟨hr.1, hr.2⟩⟩

theorem ring_rotate (xs ys : List ν) :
    Ring place m (xs ++ ys : List ν) ↔ Ring place m (ys ++ xs : List ν) := by
  rw [Cycle.coe_eq_coe.2 List.isRotated_append]

theorem Ring.frame {c : Cycle ν} (hr : Ring place m c)
    (hsame : ∀ n ∈ c, t (place n) = m (place n) ∧ t (place n + 8) = m (place n + 8)) :
    Ring place t c := by
  refine ⟨?_, hr.nodup⟩
  have hchain := hr.chain
  induction c using Cycle.induction_on with
  | nil => trivial
  | cons a l _ =>
    rw [Cycle.chain_coe_cons] at hchain ⊢
    refine hchain.imp_of_mem_imp fun x y hx hy hxy => ?_
    have hmem : ∀ z ∈ a :: (l ++ [a]), z ∈ (↑(a :: l) : Cycle ν) := by
      intro z hz
      simp only [List.mem_cons, List.mem_append, List.not_mem_nil, or_false] at hz
      rw [Cycle.mem_coe_iff, List.mem_cons]
      tauto
    exact ⟨(hsame x (hmem x hx)).1.trans hxy.1, (hsame y (hmem y hy)).2.trans hxy.2⟩

theorem Ring.frame_off (hp : Placed place) {c : Cycle ν} {ns : List ν} (hr : Ring place m c)
    (hsame : SameOff place ns m t) (hns : ∀ n ∈ ns, n ∉ c) : Ring place t c := by
  refine hr.frame fun n hn => ⟨hsame _ fun k hk => ?_, hsame _ fun k hk => ?_⟩
  · exact ⟨fun heq => hns k hk (hp.injective heq ▸ hn), hp.ne_back n k⟩
  · refine ⟨(hp.ne_back k n).symm, fun heq => hns k hk ?_⟩
    rw [← hp.injective (Nat.add_right_cancel heq)]
    exact hn

section Words
variable {new prev next n : ν}
open Classical in
theorem next_addBetween (hp : Placed place) :
    listAddBetween (place new) (place prev) (place next) m (place n) =
      if n = prev then place new else if n = new then place next else m (place n) := by
  simp only [listAddBetween, write, Function.update_apply, hp.ne_back, hp.injective.eq_iff, if_false]

open Classical in
theorem prev_addBetween (hp : Placed place) :
    listAddBetween (place new) (place prev) (place next) m (place n + 8) =
      if n = new then place prev else if n = next then place new else m (place n + 8) := by
  simp only [listAddBetween, write, Function.update_apply, (hp.ne_back _ _).symm,
    Nat.add_right_cancel_iff, hp.injective.eq_iff, if_false]

theorem sameOff_addBetween :
    SameOff place [new, prev, next] m (listAddBetween (place new) (place prev) (place next) m) := by
  intro w hw
  simp only [List.mem_cons, List.not_mem_nil, or_false, forall_eq_or_imp, forall_eq] at hw
  simp only [listAddBetween, write, Function.update_apply, hw, if_false]

open Classical in
theorem next_del (hp : Placed place) (hprev : m (place x + 8) = place prev)
    (hnext : m (place x) = place next) (hn : n ≠ x) :
    listDel (place x) m (place n) = if n = prev then place next else m (place n) := by
  simp only [listDel, hprev, hnext, write, Function.update_apply, hp.ne_back, hp.injective.eq_iff,
    hn, if_false]

open Classical in
theorem prev_del (hp : Placed place) (hprev : m (place x + 8) = place prev)
    (hnext : m (place x) = place next) (hn : n ≠ x) :
    listDel (place x) m (place n + 8) = if n = next then place prev else m (place n + 8) := by
  simp only [listDel, hprev, hnext, write, Function.update_apply, (hp.ne_back _ _).symm,
    Nat.add_right_cancel_iff, hp.injective.eq_iff, hn, if_false]

theorem sameOff_del (hprev : m (place x + 8) = place prev) (hnext : m (place x) = place next) :
    SameOff place [x, prev, next] m (listDel (place x) m) := by
  intro w hw
  simp only [List.mem_cons, List.not_mem_nil, or_false, forall_eq_or_imp, forall_eq] at hw
  simp only [listDel, hprev, hnext, write, Function.update_apply, hw, if_false]

end Words

theorem isChain_frame {l : List ν}
    (hnext : ∀ n ∈ l.dropLast, t (place n) = m (place n))
    (hprev : ∀ n ∈ l.tail, t (place n + 8) = m (place n + 8)) (hl : l.IsChain (Linked place m)) :
    l.IsChain (Linked place t) := by
  induction l with
  | nil => exact .nil
  | cons a l ih =>
    cases l with
    | nil => exact .singleton a
    | cons b l =>
      rw [List.isChain_cons_cons] at hl ⊢
      refine ⟨⟨(hnext a (by simp)).trans hl.1.1, (hprev b (by simp)).trans hl.1.2⟩,
        ih (fun n hn => hnext n ?_) (fun n hn => hprev n ?_) hl.2⟩
      · rw [List.dropLast_cons_cons]
        exact List.mem_cons_of_mem _ hn
      · exact List.mem_of_mem_tail hn

theorem Ring.addBetween (hp : Placed place) (hr : Ring place m (q :: ys : List ν)) {prev : ν}
    (hprev : (q :: ys).getLast (List.cons_ne_nil q ys) = prev) (hnew : x ∉ q :: ys) :
    Ring place (listAddBetween (place x) (place prev) (place q) m) (x :: q :: ys : List ν) := by
  subst hprev
  rw [ring_iff] at hr ⊢
  obtain ⟨hchain, -, hnodup⟩ := hr
  have hmem : ∀ n ∈ q :: ys, n ≠ x := fun n hn h => hnew (h ▸ hn)
  have hqx : q ≠ x := hmem q List.mem_cons_self
  have hlast := hmem _ (List.getLast_mem (List.cons_ne_nil q ys))
  refine ⟨List.isChain_cons_cons.2 ⟨⟨?_, ?_⟩, isChain_frame (fun n hn => ?_) (fun n hn => ?_) hchain⟩,
    ⟨?_, ?_⟩, List.nodup_cons.2 ⟨hnew, hnodup⟩⟩
  · rw [next_addBetween hp, if_neg hlast.symm, if_pos rfl]
  · rw [prev_addBetween hp, if_neg hqx, if_pos rfl]
  · rw [next_addBetween hp, if_neg (hnodup.rel_dropLast_getLast hn),
      if_neg (hmem n (List.mem_of_mem_dropLast hn))]
  · rw [prev_addBetween hp, if_neg (hmem n (List.mem_cons_of_mem q hn)),
      if_neg fun (h : n = q) => (List.nodup_cons.1 hnodup).1 (h ▸ hn)]
  · rw [List.getLast_cons (List.cons_ne_nil q ys), next_addBetween hp, if_pos rfl]
  · rw [List.getLast_cons (List.cons_ne_nil q ys), prev_addBetween hp, if_pos rfl]

theorem Ring.around (hr : Ring place m (x :: q :: ys : List ν)) :
    m (place x) = place q ∧
      m (place x + 8) = place ((q :: ys).getLast (List.cons_ne_nil q ys)) := by
  obtain ⟨hchain, hclosed, -⟩ := ring_iff.1 hr
  rw [List.getLast_cons (List.cons_ne_nil q ys)] at hclosed
  exact ⟨(List.isChain_cons_cons.1 hchain).1.1, hclosed.2⟩

theorem Ring.del_first (hp : Placed place) (hr : Ring place m (x :: q :: ys : List ν)) :
    Ring place (listDel (place x) m) (q :: ys : List ν) := by
  obtain ⟨hnext, hprev⟩ := hr.around
  obtain ⟨hchain, -, hnodup⟩ := ring_iff.1 hr
  obtain ⟨hx, hnodup⟩ := List.nodup_cons.1 hnodup
  have hmem : ∀ n ∈ q :: ys, n ≠ x := fun n hn h => hx (h ▸ hn)
  rw [ring_iff]
  refine ⟨isChain_frame (fun n hn => ?_) (fun n hn => ?_) (List.isChain_cons_cons.1 hchain).2,
    ⟨?_, ?_⟩, hnodup⟩
  · rw [next_del hp hprev hnext (hmem n (List.mem_of_mem_dropLast hn)),
      if_neg (hnodup.rel_dropLast_getLast hn)]
  · rw [prev_del hp hprev hnext (hmem n (List.mem_cons_of_mem q hn)),
      if_neg fun (h : n = q) => (List.nodup_cons.1 hnodup).1 (h ▸ hn)]
  · rw [next_del hp hprev hnext (hmem _ (List.getLast_mem _)), if_pos rfl]
  · rw [prev_del hp hprev hnext (hmem q List.mem_cons_self), if_pos rfl]

section Heads

theorem SameOff.mono {ns ks : List ν} (hsame : SameOff place ns m t) (hsub : ns ⊆ ks) :
    SameOff place ks m t := fun w hw => hsame w fun n hn => hw n (hsub hn)

theorem Ring.next_head (hr : Ring place m (h :: xs : List ν)) :
    m (place h) = place (xs.headD h) := by
  obtain ⟨hchain, hclosed, -⟩ := ring_iff.1 hr
  cases xs with
  | nil => exact hclosed.1
  | cons y ys => exact (List.isChain_cons_cons.1 hchain).1.1

theorem Ring.next_first (hr : Ring place m (h :: x :: xs : List ν)) :
    m (place x) = place (xs.headD h) := by
  have hrot : Ring place m (x :: (xs ++ [h]) : List ν) := (ring_rotate [h] (x :: xs)).1 hr
  rw [hrot.next_head]
  cases xs <;> rfl

theorem Ring.prev_head (hr : Ring place m (h :: xs : List ν)) :
    m (place h + 8) = place ((h :: xs).getLast (List.cons_ne_nil h xs)) :=
  (ring_iff.1 hr).2.1.2

theorem ring_init : Ring place (initListHead (place h) m) ([h] : List ν) := by
  rw [ring_iff]
  refine ⟨.singleton h, ⟨?_, ?_⟩, List.nodup_singleton h⟩
  · simp [initListHead, write]
  · simp [initListHead, write]

theorem sameOff_init : SameOff place [h] m (initListHead (place h) m) := by
  intro w hw
  simp only [List.mem_singleton, forall_eq] at hw
  simp only [initListHead, write, Function.update_apply, hw, if_false]

theorem Ring.add (hp : Placed place) (hr : Ring place m (h :: xs : List ν)) (hx : x ∉ h :: xs) :
    Ring place (listAdd (place x) (place h) m) (h :: x :: xs : List ν) ∧
      SameOff place (x :: h :: xs) m (listAdd (place x) (place h) m) := by
  unfold listAdd
  rw [hr.next_head]
  have hrot : Ring place m (xs ++ [h] : List ν) := (ring_rotate [h] xs).1 hr
  refine ⟨(ring_rotate [h] (x :: xs)).2 ?_, sameOff_addBetween.mono fun n hn => ?_⟩
  · cases xs with
    | nil => exact Ring.addBetween hp hrot rfl hx
    | cons y ys =>
      refine Ring.addBetween hp hrot (by simp) fun hmem => hx ?_
      simp only [List.mem_cons, List.mem_append, List.append_eq, List.not_mem_nil] at hmem ⊢
      tauto
  · cases xs <;> simp at hn ⊢ <;> tauto

theorem Ring.addTail (hp : Placed place) (hr : Ring place m (h :: xs : List ν))
    (hx : x ∉ h :: xs) :
    Ring place (listAddTail (place x) (place h) m) (h :: (xs ++ [x]) : List ν) ∧
      SameOff place (x :: h :: xs) m (listAddTail (place x) (place h) m) := by
  unfold listAddTail
  rw [hr.prev_head]
  refine ⟨(ring_rotate (h :: xs) [x]).2 (Ring.addBetween hp hr rfl hx),
    sameOff_addBetween.mono fun n hn => ?_⟩
  have hlast := List.getLast_mem (List.cons_ne_nil h xs)
  simp only [List.mem_cons, List.not_mem_nil, or_false] at hn hlast ⊢
  rcases hn with rfl | rfl | rfl
  · exact .inl rfl
  · exact .inr hlast
  · exact .inr (.inl rfl)

theorem Ring.del [DecidableEq ν] (hp : Placed place) (hr : Ring place m (h :: xs : List ν)) (hx : x ∈ xs) :
    Ring place (listDel (place x) m) (h :: xs.erase x : List ν) ∧
      SameOff place (h :: xs) m (listDel (place x) m) := by
  obtain ⟨ys, zs, -, rfl, herase⟩ := List.exists_erase_eq hx
  rw [herase]
  have hrot : Ring place m (x :: (zs ++ h :: ys) : List ν) :=
    (ring_rotate (h :: ys) (x :: zs)).1 hr
  obtain ⟨q, qs, hqs⟩ := List.exists_cons_of_ne_nil (l := zs ++ h :: ys) (by simp)
  rw [hqs] at hrot
  refine ⟨(ring_rotate (h :: ys) zs).2 ?_,
    (sameOff_del hrot.around.2 hrot.around.1).mono fun n hn => ?_⟩
  · rw [hqs]
    exact hrot.del_first hp
  · have hmem : n ∈ x :: (zs ++ h :: ys) := by
      rw [hqs]
      have hlast := List.getLast_mem (List.cons_ne_nil q qs)
      simp only [List.mem_cons, List.not_mem_nil, or_false] at hn hlast ⊢
      rcases hn with rfl | rfl | rfl
      · exact .inl rfl
      · exact .inr hlast
      · exact .inr (.inl rfl)
    simp only [List.mem_cons, List.mem_append] at hmem ⊢
    tauto

theorem Ring.empty (hr : Ring place m ([x] : List ν)) : listEmpty (place x) m = true :=
  beq_iff_eq.2 hr.next_head

theorem Ring.not_empty (hp : Placed place) (hr : Ring place m (h :: xs : List ν)) (hx : x ∈ xs) :
    listEmpty (place x) m = false := by
  obtain ⟨ys, zs, rfl⟩ := List.append_of_mem hx
  have hrot : Ring place m (x :: (zs ++ h :: ys) : List ν) :=
    (ring_rotate (h :: ys) (x :: zs)).1 hr
  obtain ⟨q, qs, hqs⟩ := List.exists_cons_of_ne_nil (l := zs ++ h :: ys) (by simp)
  rw [hqs] at hrot
  have hne : q ≠ x := fun heq => (List.nodup_cons.1 (ring_iff.1 hrot).2.2).1 (heq ▸ List.mem_cons_self)
  simp only [listEmpty, hrot.around.1, beq_eq_false_iff_ne, ne_eq, hp.injective.eq_iff]
  exact hne

end Heads

end Rings

end Vmwgfx.KernelLists
