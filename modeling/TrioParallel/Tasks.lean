import Mathlib.Data.List.Perm.Basic
import Mathlib.Tactic.Ring
/-!
# Callers as a list of positions

The concurrent models keep one program position per caller in a list, and a step of caller `i`
replaces its entry with `List.set`. What the callers hold is read off that list with a
`filterMap`. `filterMap_perm_at` and `filterMap_set_perm` split the reading into caller
`i`'s part and `others`, before and after the step, so that an invariant over what all callers
hold is proved one caller at a time. The `flatMap` forms do the same for what each entry holds a
list of, such as the frames in each worker's pipe.
-/

namespace TrioParallel

variable {α β : Type}

/-- What the callers other than `i` hold, read through `f`. -/
def others (f : α → Option β) (l : List α) (i : Nat) : List β :=
  (l.take i).filterMap f ++ (l.drop (i + 1)).filterMap f

theorem filterMap_middle_perm (f : α → Option β) (A B : List α) (c : α) :
    ((A ++ c :: B).filterMap f).Perm ((f c).toList ++ (A.filterMap f ++ B.filterMap f)) := by
  rw [List.filterMap_append, List.filterMap_cons]
  cases f c with
  | none => exact List.Perm.refl _
  | some p => exact List.perm_middle

/-- Caller `i`'s part first, then the others'. -/
theorem filterMap_perm_at (f : α → Option β) {l : List α} {i : Nat} {c : α}
    (hc : l[i]? = some c) : (l.filterMap f).Perm ((f c).toList ++ others f l i) := by
  obtain ⟨hi, rfl⟩ := List.getElem?_eq_some_iff.mp hc
  conv_lhs => rw [← List.take_append_drop i l, List.drop_eq_getElem_cons hi]
  exact filterMap_middle_perm f _ _ _

/-- After caller `i` moves to `c`: its new part first, then the others', which did not change. -/
theorem filterMap_set_perm (f : α → Option β) {l : List α} {i : Nat} (hi : i < l.length) (c : α) :
    ((l.set i c).filterMap f).Perm ((f c).toList ++ others f l i) := by
  rw [List.set_eq_take_append_cons_drop, if_pos hi]
  exact filterMap_middle_perm f _ _ _

theorem mem_others (f : α → Option β) {l : List α} {i j : Nat} {c : α} {b : β} (hc : l[j]? = some c)
    (hij : j ≠ i) (hb : f c = some b) : b ∈ others f l i := by
  rcases Nat.lt_or_gt_of_ne hij with hlt | hgt
  · have h : (l.take i)[j]? = some c := by rw [List.getElem?_take_of_lt hlt, hc]
    exact List.mem_append_left _ (List.mem_filterMap.mpr ⟨c, List.getElem?_mem h, hb⟩)
  · have h : (l.drop (i + 1))[j - (i + 1)]? = some c := by rw [List.getElem?_drop, Nat.add_sub_cancel' hgt, hc]
    exact List.mem_append_right _ (List.mem_filterMap.mpr ⟨c, List.getElem?_mem h, hb⟩)

/-- A property of every entry and its index survives replacing entry `i` by one that has it, when
the other entries keep it. -/
theorem forall_getElem?_set {P : Nat → α → Prop} {l : List α} {i : Nat} {c : α}
    (hl : ∀ j a, j ≠ i → l[j]? = some a → P j a) (hc : P i c) : ∀ j a, (l.set i c)[j]? = some a → P j a := by
  intro j a h
  rw [List.getElem?_set] at h
  split at h
  · rename_i hij
    subst hij
    split at h <;> cases h
    exact hc
  · exact hl j a (Ne.symm ‹_›) h

theorem set_eq_of_getElem? {l : List α} {i : Nat} {c : α} (hc : l[i]? = some c) : l.set i c = l := by
  apply List.ext_getElem?
  intro j
  rw [List.getElem?_set]
  split
  · rename_i hij
    subst hij
    rw [if_pos (List.getElem?_eq_some_iff.mp hc).1, hc]
  · rfl

/-- Replacing entry `i` changes a sum over the entries by the difference of the two entries. -/
theorem sum_map_set (f : α → Nat) : ∀ {l : List α} {i : Nat} {c : α}, l[i]? = some c → ∀ c' : α,
    ((l.set i c').map f).sum + f c = (l.map f).sum + f c'
  | _ :: _, 0, _, h, _ => by
    obtain rfl : _ = _ := Option.some.inj (List.getElem?_cons_zero.symm.trans h)
    simp only [List.set_cons_zero, List.map_cons, List.sum_cons]
    omega
  | _ :: _, _ + 1, _, h, c' => by
    have := sum_map_set f (by simpa using h) c'
    simp only [List.set_cons_succ, List.map_cons, List.sum_cons]
    omega

/-- What the entries other than `i` hold, collected through `f`. -/
def othersFlat (f : α → List β) (l : List α) (i : Nat) : List β :=
  (l.take i).flatMap f ++ (l.drop (i + 1)).flatMap f

theorem flatMap_middle_perm (f : α → List β) (A B : List α) (c : α) :
    ((A ++ c :: B).flatMap f).Perm (f c ++ (A.flatMap f ++ B.flatMap f)) := by
  rw [List.flatMap_append, List.flatMap_cons, ← List.append_assoc, ← List.append_assoc]
  exact List.perm_append_comm.append_right _

theorem flatMap_perm_at (f : α → List β) {l : List α} {i : Nat} {c : α}
    (hc : l[i]? = some c) : (l.flatMap f).Perm (f c ++ othersFlat f l i) := by
  obtain ⟨hi, rfl⟩ := List.getElem?_eq_some_iff.mp hc
  conv_lhs => rw [← List.take_append_drop i l, List.drop_eq_getElem_cons hi]
  exact flatMap_middle_perm f _ _ _

theorem flatMap_set_perm (f : α → List β) {l : List α} {i : Nat} (hi : i < l.length) (c : α) :
    ((l.set i c).flatMap f).Perm (f c ++ othersFlat f l i) := by
  rw [List.set_eq_take_append_cons_drop, if_pos hi]
  exact flatMap_middle_perm f _ _ _

end TrioParallel
