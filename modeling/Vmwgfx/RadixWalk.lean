import Mathlib.Tactic

set_option autoImplicit false

/-!
# Walks through tables of tables

Pages hold a fixed number of entries, which name other pages. A walk of a given depth takes
an index to what the entries on its way name in the end.
-/
namespace Vmwgfx.RadixWalk

variable {α : Type*} {mem : α → Option (ℕ → α)} {fanout : ℕ}

/-- `depth` pages are read from `root` on. -/
def walk (mem : α → Option (ℕ → α)) (fanout : ℕ) : ℕ → α → ℕ → Option α
  | 0, root, _ => some root
  | depth + 1, root, i =>
    (mem root).bind fun page =>
      walk mem fanout depth (page (i / fanout ^ depth)) (i % fanout ^ depth)

/-- The page at `root` lists `n` targets. -/
def Lists (mem : α → Option (ℕ → α)) (root : α) (target : ℕ → α) (n : ℕ) : Prop :=
  ∃ page, mem root = some page ∧ ∀ i < n, page i = target i

theorem walk_one {root : α} {target : ℕ → α} {n i : ℕ} (h : Lists mem root target n) (hi : i < n) :
    walk mem fanout 1 root i = some (target i) := by
  obtain ⟨page, hpage, hlist⟩ := h
  simp only [walk, hpage, Option.bind_some, pow_zero, Nat.div_one]
  rw [hlist i hi]

theorem walk_two {root : α} {pages : ℕ → α} {k n i : ℕ} (target : ℕ → α)
    (hroot : Lists mem root pages k)
    (hshare : ∀ p < k, Lists mem (pages p) (fun j => target (p * fanout + j))
      (min fanout (n - p * fanout)))
    (hpos : 0 < fanout) (hi : i < n) (hk : i / fanout < k) :
    walk mem fanout 2 root i = some (target i) := by
  obtain ⟨page, hpage, hlist⟩ := hroot
  have hmod : i % fanout < min fanout (n - i / fanout * fanout) := by
    have hdiv := Nat.div_add_mod' i fanout
    have := Nat.mod_lt i hpos
    omega
  have hone : walk mem fanout 1 _ _ = _ := walk_one (hshare _ hk) hmod
  rw [Nat.div_add_mod'] at hone
  simp only [walk, hpage, Option.bind_some, pow_one]
  rw [hlist _ hk]
  exact hone

end Vmwgfx.RadixWalk
