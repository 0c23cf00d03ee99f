-- A pool of objects: each object is free, or taken, and in one of the two places once.
-- An object that is given back is free again.
import Mathlib.Data.List.Nodup
import Mathlib.Data.List.Perm.Basic

namespace Pools

variable {κ : Type*} {objects free taken : List κ} {x : κ}

/-- The objects of the pool are those that are free and those that are taken. -/
structure Pool (objects free taken : List κ) : Prop where
  perm : (free ++ taken).Perm objects
  nodup : objects.Nodup

theorem pool_full (h : objects.Nodup) : Pool objects objects [] :=
  ⟨by rw [List.append_nil], h⟩

theorem Pool.places_nodup (h : Pool objects free taken) : (free ++ taken).Nodup :=
  h.perm.nodup_iff.mpr h.nodup

theorem Pool.length (h : Pool objects free taken) :
    free.length + taken.length = objects.length := by
  rw [← List.length_append]
  exact h.perm.length_eq

theorem Pool.mem_of_free (h : Pool objects free taken) (hx : x ∈ free) : x ∈ objects :=
  h.perm.mem_iff.mp (List.mem_append_left _ hx)

theorem Pool.mem_of_taken (h : Pool objects free taken) (hx : x ∈ taken) : x ∈ objects :=
  h.perm.mem_iff.mp (List.mem_append_right _ hx)

theorem Pool.not_taken (h : Pool objects free taken) (hx : x ∈ free) : x ∉ taken :=
  fun hx' => List.disjoint_of_nodup_append h.places_nodup hx hx'

theorem Pool.take (h : Pool objects (x :: free) taken) : Pool objects free (taken ++ [x]) := by
  refine ⟨?_, h.nodup⟩
  rw [← List.append_assoc]
  exact (List.perm_append_singleton x (free ++ taken)).trans h.perm

theorem Pool.give [DecidableEq κ] (h : Pool objects free taken) (hx : x ∈ taken) :
    Pool objects (free ++ [x]) (taken.erase x) := by
  refine ⟨?_, h.nodup⟩
  rw [List.append_assoc, List.singleton_append]
  exact ((List.perm_cons_erase hx).symm.append_left free).trans h.perm

end Pools
