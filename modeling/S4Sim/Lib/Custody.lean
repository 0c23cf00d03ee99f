-- Items that come in one by one, are held for a while, and are done: each item that
-- came in is done or held, and as often as it came in. When no item comes in twice, each
-- is in exactly one of the two places, once.
import Mathlib.Data.List.Nodup
import Mathlib.Data.List.Perm.Basic

namespace Custody

variable {κ : Type*} {incoming done held held' : List κ} {k : κ}

/-- The items that came in are those that are done and those that are held. -/
def Balanced (incoming done held : List κ) : Prop := (done ++ held).Perm incoming

/-- A new item is held. -/
theorem Balanced.take (h : Balanced incoming done held) (k : κ) :
    Balanced (incoming ++ [k]) done (k :: held) :=
  List.perm_middle.trans ((h.cons k).trans (List.perm_append_singleton k incoming).symm)

/-- A new item is done at once. -/
theorem Balanced.answer (h : Balanced incoming done held) (k : κ) :
    Balanced (incoming ++ [k]) (done ++ [k]) held := by
  have htake := h.take k
  unfold Balanced at htake ⊢
  rwa [List.append_assoc, List.singleton_append]

/-- A held item is done. -/
theorem Balanced.finish (h : Balanced incoming done (k :: held)) :
    Balanced incoming (done ++ [k]) held := by
  unfold Balanced at h ⊢
  rwa [List.append_assoc, List.singleton_append]

/-- The order of the held items does not matter. -/
theorem Balanced.reorder (h : Balanced incoming done held) (hp : held'.Perm held) :
    Balanced incoming done held' := (hp.append_left done).trans h

theorem Balanced.nodup (h : Balanced incoming done held) (hnodup : incoming.Nodup) :
    done.Nodup ∧ held.Nodup := by
  have hplaces : (done ++ held).Nodup := h.nodup_iff.mpr hnodup
  exact ⟨hplaces.of_append_left, hplaces.of_append_right⟩

end Custody
