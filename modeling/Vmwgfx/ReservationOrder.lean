import Vmwgfx.Reservations

set_option autoImplicit false

/-!
# The order in which resources are reserved and validated

Both loops go through the list of the validation context from its head and stop at the first
resource that fails.
-/
namespace Vmwgfx.Reservations
open ExecbufState (Errno)
open Resources

variable {s : ResDev} {i : ℕ} {vs : List ResNode} {x y : ℕ}

/-- The resources whose `vmw_resource_reserve` is called, in turn. -/
def reserveTrace (o : ℕ → ReserveOut) : ℕ → List ResNode → ResDev → List ℕ
  | _, [], _ => []
  | i, v :: vs, s =>
    v.res :: match reserveNode (o i) v s with
      | (some _, _, _) => []
      | (none, _, t) => reserveTrace o (i + 1) vs t

/-- The resources whose `vmw_resource_validate` is called, in turn. -/
def validateTrace (o : ℕ → NodeOut) : ℕ → List ResNode → ResDev → List ℕ
  | _, [], _ => []
  | i, v :: vs, s =>
    v.res :: match vmwResourceValidate (o i).rounds v.res (moveOuts (o i).moved s) with
      | none => []
      | some (some _, _) => []
      | some (none, t) =>
        if (backupAt v.res s).isSome && (backupAt v.res t).isSome &&
            backupAt v.res s ≠ backupAt v.res t && (o i).addBo.isSome then []
        else validateTrace o (i + 1) vs t

theorem reserveTrace_prefix (o : ℕ → ReserveOut) :
    reserveTrace o i vs s <+: vs.map ResNode.res := by
  induction vs generalizing i s with
  | nil => exact List.prefix_rfl
  | cons v vs ih =>
    rw [reserveTrace, List.map_cons]
    apply (List.prefix_cons_inj v.res).2
    rcases reserveNode (o i) v s with ⟨e | -, w, t⟩
    · exact ih
    · exact List.nil_prefix

theorem validateTrace_prefix (o : ℕ → NodeOut) :
    validateTrace o i vs s <+: vs.map ResNode.res := by
  induction vs generalizing i s with
  | nil => exact List.prefix_rfl
  | cons v vs ih =>
    rw [validateTrace, List.map_cons]
    apply (List.prefix_cons_inj v.res).2
    rcases vmwResourceValidate (o i).rounds v.res (moveOuts (o i).moved s) with - | ⟨e | -, t⟩
    · exact List.nil_prefix
    · simp only
      split_ifs
      · exact List.nil_prefix
      · exact ih
    · exact List.nil_prefix

theorem pair_of_prefix {p l : List ℕ} (hp : p <+: l) (hl : l.Nodup) (hxy : [x, y].Sublist l)
    (hy : y ∈ p) : [x, y].Sublist p := by
  obtain ⟨q, rfl⟩ := hp
  obtain ⟨a, b, hab, ha, hb⟩ := List.sublist_append_iff.1 hxy
  have hnot : y ∉ b := fun hyb => (List.nodup_append.1 hl).2.2 y hy y (hb.subset hyb) rfl
  rcases List.eq_nil_or_concat b with rfl | ⟨b, z, rfl⟩
  · rw [List.append_nil] at hab
    exact hab ▸ ha
  · have hlast : y = z := by
      have := congrArg List.getLast? hab
      simpa using this
    exact absurd (by simp [hlast]) hnot

end Vmwgfx.Reservations
