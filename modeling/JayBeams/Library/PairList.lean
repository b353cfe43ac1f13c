import Mathlib.Data.List.Nodup

/-!
# Lists of pairs

A list of pairs of a key and a value is read with `List.lookup`, which finds the first pair of a key.
When no key occurs twice, lookups and pairs are the same thing (`lookup_eq_some_iff`), and the order
of the pairs does not matter (`lookup_perm`).
-/

set_option autoImplicit false

namespace Containers

universe u v w

namespace PairList

variable {κ : Type u} {υ : Type v} {ω : Type w} {l l' : List (κ × υ)} {k : κ} {x : υ}

theorem nodup_perm (hkeys : (l.map Prod.fst).Nodup) (h : l'.Perm l) : (l'.map Prod.fst).Nodup :=
  (h.map Prod.fst).nodup_iff.2 hkeys

theorem lookup_map [BEq κ] (f : υ → ω) (l : List (κ × υ)) (k : κ) :
    (l.map fun p => (p.1, f p.2)).lookup k = (l.lookup k).map f := by
  induction l with
  | nil => rfl
  | cons p l ih =>
      rw [List.map_cons, List.lookup_cons, List.lookup_cons, ih]
      cases k == p.1 <;> rfl

variable [BEq κ] [LawfulBEq κ]

theorem mem_of_lookup (h : l.lookup k = some x) : (k, x) ∈ l := by
  obtain ⟨before, after, rfl, -⟩ := List.lookup_eq_some_iff.1 h
  simp

theorem lookup_of_mem (hkeys : (l.map Prod.fst).Nodup) (h : (k, x) ∈ l) : l.lookup k = some x := by
  induction l with
  | nil => cases h
  | cons p l ih =>
      obtain ⟨hp, hl⟩ := List.nodup_cons.1 hkeys
      rcases List.mem_cons.1 h with rfl | h
      · exact List.lookup_cons_self
      · have hne : (k == p.1) = false := by
          rw [beq_eq_false_iff_ne]
          intro hk
          subst hk
          exact hp (List.mem_map.2 ⟨(p.1, x), h, rfl⟩)
        rw [List.lookup_cons, hne]
        exact ih hl h

theorem lookup_eq_some_iff (hkeys : (l.map Prod.fst).Nodup) : l.lookup k = some x ↔ (k, x) ∈ l :=
  ⟨mem_of_lookup, lookup_of_mem hkeys⟩

/-- The order of pairs with distinct keys does not matter. -/
theorem lookup_perm (hkeys : (l.map Prod.fst).Nodup) (h : l'.Perm l) (k : κ) :
    l'.lookup k = l.lookup k := by
  apply Option.ext
  intro x
  rw [lookup_eq_some_iff (nodup_perm hkeys h), lookup_eq_some_iff hkeys]
  exact h.mem_iff

/-- The pairs with some values say what the list says, where it has one of these. -/
theorem lookup_filter (hkeys : (l.map Prod.fst).Nodup) (p : υ → Bool) (k : κ) :
    (l.filter fun e => p e.2).lookup k = (l.lookup k).filter p := by
  have hsub : ((l.filter fun e => p e.2).map Prod.fst).Nodup :=
    hkeys.sublist (List.filter_sublist.map Prod.fst)
  apply Option.ext
  intro x
  rw [lookup_eq_some_iff hsub, List.mem_filter, Option.filter_eq_some_iff,
    lookup_eq_some_iff hkeys]

theorem lookup_concat_self (h : l.lookup k = none) (x : υ) :
    (l ++ [(k, x)]).lookup k = some x := by
  rw [List.lookup_append, h, Option.none_or, List.lookup_cons_self]

theorem lookup_concat_of_ne {j : κ} (h : j ≠ k) (l : List (κ × υ)) (x : υ) :
    (l ++ [(k, x)]).lookup j = l.lookup j := by
  rw [List.lookup_append, List.lookup_cons, beq_eq_false_iff_ne.2 h, List.lookup_nil, Option.or_none]

/-- A key that was not found is not one of the old ones. -/
theorem nodup_concat (hkeys : (l.map Prod.fst).Nodup) (h : l.lookup k = none) (x : υ) :
    ((l ++ [(k, x)]).map Prod.fst).Nodup := by
  rw [List.map_append, List.map_singleton, ← List.concat_eq_append]
  apply hkeys.concat
  intro hk
  obtain ⟨p, hp, rfl⟩ := List.mem_map.1 hk
  have hne := List.lookup_eq_none_iff.1 h p hp
  simp at hne

end PairList

end Containers
