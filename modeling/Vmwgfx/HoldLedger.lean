import Mathlib.Tactic

set_option autoImplicit false

/-!
# Logs of takes and drops

What is still held after a log in which things are taken (`true`) and dropped. A drop of
something that is not held has no result, so a log that has one balances.
-/
namespace Vmwgfx.HoldLedger

variable {α : Type*} [DecidableEq α] {m n : Multiset α} {log log' : List (α × Bool)}

def hold (m : Multiset α) (e : α × Bool) : Option (Multiset α) :=
  if e.2 then some (e.1 ::ₘ m)
  else if e.1 ∈ m then some (m.erase e.1)
  else none

def held (log : List (α × Bool)) : Option (Multiset α) := log.foldlM hold 0

theorem held_append : held (log ++ log') = (held log).bind fun m => log'.foldlM hold m := by
  simp only [held, List.foldlM_append]
  rfl

theorem held_concat (e : α × Bool) : held (log ++ [e]) = (held log).bind fun m => hold m e := by
  rw [held_append]
  congr
  funext m
  simp

theorem held_take (x : α) (h : held log = some m) : held (log ++ [(x, true)]) = some (x ::ₘ m) := by
  rw [held_concat, h]
  rfl

theorem held_drop {x : α} (h : held log = some (x ::ₘ m)) :
    held (log ++ [(x, false)]) = some m := by
  rw [held_concat, h]
  simp [hold]

theorem hold_count (x : α) {e : α × Bool} (h : hold m e = some n) :
    n.count x + (if e = (x, false) then 1 else 0) =
      m.count x + if e = (x, true) then 1 else 0 := by
  obtain ⟨y, b⟩ := e
  cases b with
  | true =>
    simp only [hold, if_true, Option.some.injEq] at h
    subst h
    by_cases hxy : x = y
    · subst hxy
      simp
    · simp [hxy, Ne.symm hxy]
  | false =>
    simp only [hold, Bool.false_eq_true, if_false, Option.ite_none_right_eq_some,
      Option.some.injEq] at h
    obtain ⟨hy, rfl⟩ := h
    by_cases hxy : x = y
    · subst hxy
      have := Multiset.one_le_count_iff_mem.2 hy
      simp only [Multiset.count_erase_self, if_true, Prod.mk.injEq, reduceCtorEq, and_false,
        if_false]
      omega
    · simp [hxy, Ne.symm hxy]

theorem count_held (x : α) (h : held log = some m) :
    log.count (x, true) = log.count (x, false) + m.count x := by
  induction log using List.reverseRecOn generalizing m with
  | nil =>
    obtain rfl : (0 : Multiset α) = m := by simpa [held] using h
    simp
  | append_singleton log e ih =>
    rw [held_concat, Option.bind_eq_some_iff] at h
    obtain ⟨k, hk, he⟩ := h
    have hcount := hold_count x he
    have := ih hk
    simp only [List.count_append, List.count_singleton, beq_iff_eq]
    omega

theorem drop_matched {x : α} {pre post : List (α × Bool)}
    (h : held (pre ++ (x, false) :: post) = some m) :
    pre.count (x, false) < pre.count (x, true) := by
  rw [List.append_cons, held_append, Option.bind_eq_some_iff] at h
  obtain ⟨k, hk, -⟩ := h
  rw [held_concat, Option.bind_eq_some_iff] at hk
  obtain ⟨j, hj, hx⟩ := hk
  have hmem : x ∈ j := by
    by_contra hn
    simp [hold, hn] at hx
  have := Multiset.one_le_count_iff_mem.2 hmem
  have := count_held x hj
  omega

end Vmwgfx.HoldLedger
