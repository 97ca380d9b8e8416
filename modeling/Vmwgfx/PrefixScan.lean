import Mathlib.Tactic

set_option autoImplicit false

/-!
# Scans that stop at the first failure

A scan over a list that stops at the first element failing a test sees every
element that passes exactly when no failing element precedes a passing one.
-/
namespace Vmwgfx.PrefixScan

variable {α : Type*}

/-- An element that passes is preceded by passing elements only. -/
def PassedFirst (p : α → Bool) (l : List α) : Prop := l.Pairwise fun a b => p b = true → p a = true

theorem passedFirst_tail {p : α → Bool} {a : α} {l : List α} (h : PassedFirst p (a :: l)) :
    PassedFirst p l :=
  (List.pairwise_cons.1 h).2

theorem filter_eq_nil_of_head {p : α → Bool} {a : α} {l : List α} (h : PassedFirst p (a :: l))
    (ha : p a = false) : (a :: l).filter p = [] := by
  rw [List.filter_eq_nil_iff]
  intro b hb hp
  rcases List.mem_cons.1 hb with rfl | hb
  · simp [ha] at hp
  · have := (List.pairwise_cons.1 h).1 b hb hp
    simp [ha] at this

theorem takeWhile_eq_filter {p : α → Bool} {l : List α} (h : PassedFirst p l) :
    l.takeWhile p = l.filter p := by
  induction l with
  | nil => rfl
  | cons a l ih =>
    cases ha : p a with
    | true => simp [List.takeWhile, ha, ih (passedFirst_tail h)]
    | false => rw [filter_eq_nil_of_head h ha]; simp [List.takeWhile, ha]

theorem dropWhile_eq_filter {p : α → Bool} {l : List α} (h : PassedFirst p l) :
    l.dropWhile p = l.filter fun a => !p a := by
  induction l with
  | nil => rfl
  | cons a l ih =>
    cases ha : p a with
    | true => simp [ha, ih (passedFirst_tail h)]
    | false =>
      have hall : (a :: l).filter (fun b => !p b) = a :: l := by
        rw [List.filter_eq_self]
        intro b hb
        have hnil := filter_eq_nil_of_head h ha
        rw [List.filter_eq_nil_iff] at hnil
        simpa using hnil b hb
      rw [hall]
      simp [ha]

end Vmwgfx.PrefixScan
