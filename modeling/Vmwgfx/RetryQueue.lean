import Mathlib.Tactic

set_option autoImplicit false

/-!
# Queues whose failures come again

The head of a queue is tried. If that fails it goes to the tail; otherwise it is gone.
-/
namespace Vmwgfx.RetryQueue

variable {α : Type*} {x : α} {q q' : List α} {es : List (α × Bool)}

/-- From `q` to `q'` by the attempts `es`, each with whether it was successful. -/
inductive Served : List α → List (α × Bool) → List α → Prop where
  | nil (q : List α) : Served q [] q
  | done {x : α} {q q' : List α} {es : List (α × Bool)} (h : Served q es q') :
      Served (x :: q) ((x, true) :: es) q'
  | failed {x : α} {q q' : List α} {es : List (α × Bool)} (h : Served (q ++ [x]) es q') :
      Served (x :: q) ((x, false) :: es) q'

/-- The failures, in the order in which they come again. -/
def failures (es : List (α × Bool)) : List α := (es.filter fun e => !e.2).map Prod.fst

def successes (es : List (α × Bool)) : List α := (es.filter fun e => e.2).map Prod.fst

theorem Served.order (h : Served q es q') : es.map Prod.fst ++ q' = q ++ failures es := by
  induction h with
  | nil q => simp [failures]
  | done h ih =>
    simp only [List.map_cons, List.cons_append, ih]
    rfl
  | @failed x q q' es h ih =>
    have hfail : failures ((x, false) :: es) = x :: failures es := rfl
    simp only [List.map_cons, List.cons_append, ih, hfail, List.append_assoc, List.nil_append]

theorem Served.perm (h : Served q es q') : q.Perm (successes es ++ q') := by
  induction h with
  | nil q => exact List.Perm.refl q
  | done h ih => exact ih.cons _
  | @failed x q q' es h ih =>
    have hmove : (x :: q).Perm (q ++ [x]) := (List.perm_append_singleton x q).symm
    exact hmove.trans ih

theorem Served.nodup (h : Served q es q') (hq : q.Nodup) : q'.Nodup :=
  (List.nodup_append.1 (h.perm.nodup hq)).2.1

theorem Served.kept (h : Served q es q') (hx : x ∈ q) : x ∈ q' ∨ (x, true) ∈ es := by
  rcases List.mem_append.1 (h.perm.subset hx) with hs | hq
  · obtain ⟨e, he, rfl⟩ := List.mem_map.1 hs
    obtain ⟨hmem, htrue⟩ := List.mem_filter.1 he
    obtain ⟨y, b⟩ := e
    obtain rfl : b = true := htrue
    exact .inr hmem
  · exact .inl hq

end Vmwgfx.RetryQueue
