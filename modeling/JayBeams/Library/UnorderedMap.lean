import Mathlib.Algebra.Order.BigOperators.Group.List
import Mathlib.Data.List.Basic
import Mathlib.Data.List.Find
import Mathlib.Tactic.Ring

/-!
# Hash maps

A hash map kept as the list of its entries. The map stores its hash function, and a lookup finds an
entry whose key has the same hash code as the key looked up and compares equal to it; nothing here
requires equal keys to have equal hash codes. Whatever the hash function, no two entries have keys
that the container itself identifies (`distinct`).

When key equality is lawful, the map is a finite map: entries and lookups are the same thing
(`find?_eq_some_iff`), and the sum of a weight over all entries moves with each operation by the
weight of the entry concerned (`total_emplace`, `total_modify`, `total_erase`).
-/

set_option autoImplicit false

namespace Containers

universe u v

/-- Two keys that a container with this hash function identifies. -/
def sameKey {κ : Type u} [BEq κ] (hash : κ → UInt64) (a b : κ) : Bool :=
  hash a == hash b && a == b

/-- A hash map: its hash function and its entries, in no particular order. -/
structure UnorderedMap (κ : Type u) (υ : Type v) [BEq κ] where
  hash : κ → UInt64
  entries : List (κ × υ)
  distinct : entries.Pairwise fun a b => sameKey hash a.1 b.1 = false

namespace UnorderedMap

variable {κ : Type u} {υ : Type v} [BEq κ]

/-- The empty map with the given hash function. -/
def empty (hash : κ → UInt64) : UnorderedMap κ υ := ⟨hash, [], List.Pairwise.nil⟩

/-- The value stored under a key. -/
def find? (m : UnorderedMap κ υ) (k : κ) : Option υ :=
  (m.entries.find? fun e => sameKey m.hash e.1 k).map Prod.snd

/-- The keys, one for each entry. -/
def keys (m : UnorderedMap κ υ) : List κ := m.entries.map Prod.fst

theorem find?_eq_none {m : UnorderedMap κ υ} {k : κ} (h : m.find? k = none) :
    ∀ e ∈ m.entries, sameKey m.hash e.1 k = false := by
  simpa [find?] using h

/-- Insert an entry unless the container already has the key. -/
def emplace (m : UnorderedMap κ υ) (k : κ) (x : υ) : UnorderedMap κ υ :=
  match h : m.find? k with
  | some _ => m
  | none =>
      { hash := m.hash
        entries := m.entries ++ [(k, x)]
        distinct := by
          refine List.pairwise_append.2 ⟨m.distinct, List.pairwise_singleton _ _, ?_⟩
          intro a ha b hb
          rw [List.mem_singleton.1 hb]
          exact find?_eq_none h a ha }

/-- Apply `f` to the value stored under a key, if any. -/
def modify (m : UnorderedMap κ υ) (k : κ) (f : υ → υ) : UnorderedMap κ υ where
  hash := m.hash
  entries := m.entries.map fun e => if sameKey m.hash e.1 k then (e.1, f e.2) else e
  distinct := by
    refine List.pairwise_map.2 (m.distinct.imp fun {a b} h => ?_)
    have hkey : ∀ e : κ × υ, (if sameKey m.hash e.1 k then (e.1, f e.2) else e).1 = e.1 :=
      fun e => by split <;> rfl
    rwa [hkey, hkey]

/-- Erase a key. -/
def erase (m : UnorderedMap κ υ) (k : κ) : UnorderedMap κ υ where
  hash := m.hash
  entries := m.entries.filter fun e => !sameKey m.hash e.1 k
  distinct := m.distinct.sublist List.filter_sublist

/-- The sum over all entries of a weight. -/
def total (m : UnorderedMap κ υ) (weight : κ → υ → Int) : Int :=
  (m.entries.map fun e => weight e.1 e.2).sum

/-- The container identifies no two of its keys. -/
theorem pairwise_keys (m : UnorderedMap κ υ) :
    m.keys.Pairwise fun a b => sameKey m.hash a b = false := by
  rw [keys, List.pairwise_map]
  exact m.distinct

@[simp] theorem find?_empty (hash : κ → UInt64) (k : κ) :
    (empty hash : UnorderedMap κ υ).find? k = none := rfl

@[simp] theorem hash_emplace (m : UnorderedMap κ υ) (k : κ) (x : υ) :
    (m.emplace k x).hash = m.hash := by
  unfold emplace
  split <;> rfl

theorem emplace_of_find? {m : UnorderedMap κ υ} {k : κ} {y : υ} (h : m.find? k = some y) (x : υ) :
    m.emplace k x = m := by
  unfold emplace
  split
  · rfl
  · next hn => simp [h] at hn

theorem entries_emplace {m : UnorderedMap κ υ} {k : κ} (h : m.find? k = none) (x : υ) :
    (m.emplace k x).entries = m.entries ++ [(k, x)] := by
  unfold emplace
  split
  · next hn => simp [h] at hn
  · rfl

@[simp] theorem keys_modify (m : UnorderedMap κ υ) (k : κ) (f : υ → υ) :
    (m.modify k f).keys = m.keys := by
  simp only [keys, modify, List.map_map]
  refine List.map_congr_left fun e _ => ?_
  simp only [Function.comp_apply]
  split <;> rfl

theorem total_emplace {m : UnorderedMap κ υ} {k : κ} (h : m.find? k = none) (x : υ)
    (weight : κ → υ → Int) : (m.emplace k x).total weight = m.total weight + weight k x := by
  simp [total, entries_emplace h]

section Lawful

variable [LawfulBEq κ]

theorem sameKey_iff (hash : κ → UInt64) (a b : κ) : sameKey hash a b = true ↔ a = b := by
  simp only [sameKey, Bool.and_eq_true, beq_iff_eq]
  exact ⟨fun h => h.2, fun h => ⟨by rw [h], h⟩⟩

theorem sameKey_eq_false_iff (hash : κ → UInt64) (a b : κ) :
    sameKey hash a b = false ↔ a ≠ b := by
  rw [← Bool.not_eq_true, sameKey_iff]

theorem keys_ne (m : UnorderedMap κ υ) : m.entries.Pairwise fun a b => a.1 ≠ b.1 :=
  m.distinct.imp fun {a b} h => (sameKey_eq_false_iff m.hash a.1 b.1).1 h

/-- Entries and lookups are the same thing. -/
theorem find?_eq_some_iff {m : UnorderedMap κ υ} {k : κ} {x : υ} :
    m.find? k = some x ↔ (k, x) ∈ m.entries := by
  have key : ∀ es : List (κ × υ), (es.Pairwise fun a b => a.1 ≠ b.1) →
      ((es.find? fun e => sameKey m.hash e.1 k).map Prod.snd = some x ↔ (k, x) ∈ es) := by
    intro es hes
    induction es with
    | nil => simp
    | cons a es ih =>
        rw [List.pairwise_cons] at hes
        by_cases hak : a.1 = k
        · have hs : sameKey m.hash a.1 k = true := (sameKey_iff _ _ _).2 hak
          have hnot : (k, x) ∉ es := fun h => hes.1 _ h hak
          simp only [List.find?_cons, hs, Option.map_some, Option.some.injEq, List.mem_cons, hnot,
            or_false]
          exact ⟨fun h => by rw [← h, ← hak], fun h => by rw [← h]⟩
        · have hs : sameKey m.hash a.1 k = false := (sameKey_eq_false_iff _ _ _).2 hak
          have hne : (k, x) ≠ a := fun h => hak (by rw [← h])
          simp only [List.find?_cons, hs, List.mem_cons, hne, false_or]
          exact ih hes.2
  exact key m.entries m.keys_ne

theorem find?_eq_none_iff {m : UnorderedMap κ υ} {k : κ} :
    m.find? k = none ↔ ∀ e ∈ m.entries, e.1 ≠ k := by
  constructor
  · exact fun h e he => (sameKey_eq_false_iff m.hash e.1 k).1 (find?_eq_none h e he)
  · intro h
    cases hf : m.find? k with
    | none => rfl
    | some x => exact absurd rfl (h (k, x) (find?_eq_some_iff.1 hf))

theorem find?_eq_none_iff_keys {m : UnorderedMap κ υ} {k : κ} : m.find? k = none ↔ k ∉ m.keys := by
  rw [find?_eq_none_iff, keys, List.mem_map]
  constructor
  · rintro h ⟨e, he, rfl⟩
    exact h e he rfl
  · exact fun h e he hk => h ⟨e, he, hk⟩

/-- Maps with the same keys have the same keys after the insertion of one key in both. -/
theorem keys_emplace_congr {ω : Type v} {m : UnorderedMap κ υ} {n : UnorderedMap κ ω}
    (h : m.keys = n.keys) (k : κ) (x : υ) (y : ω) : (m.emplace k x).keys = (n.emplace k y).keys := by
  cases hm : m.find? k with
  | none =>
      have hn : n.find? k = none := by
        rw [find?_eq_none_iff_keys, ← h]
        exact find?_eq_none_iff_keys.1 hm
      rw [keys, entries_emplace hm, List.map_append, keys, entries_emplace hn, List.map_append]
      exact congrArg (· ++ [k]) h
  | some z =>
      cases hn : n.find? k with
      | none =>
          rw [find?_eq_none_iff_keys, ← h, ← find?_eq_none_iff_keys, hm] at hn
          cases hn
      | some w => rw [emplace_of_find? hm, emplace_of_find? hn, h]

/-- An insertion keeps the value of a key that is already there. -/
theorem find?_emplace [DecidableEq κ] (m : UnorderedMap κ υ) (k j : κ) (x : υ) :
    (m.emplace k x).find? j = if j = k then some ((m.find? k).getD x) else m.find? j := by
  cases hk : m.find? k with
  | some y =>
      rw [emplace_of_find? hk]
      split
      · next hjk => simp [hjk, hk]
      · rfl
  | none =>
      split
      · next hjk =>
          rw [hjk, find?_eq_some_iff, entries_emplace hk]
          simp
      · next hjk =>
          ext y
          rw [find?_eq_some_iff, find?_eq_some_iff, entries_emplace hk]
          simp [hjk]

/-- Modifying a value changes no other lookup. -/
theorem find?_modify [DecidableEq κ] (m : UnorderedMap κ υ) (k j : κ) (f : υ → υ) :
    (m.modify k f).find? j = if j = k then (m.find? k).map f else m.find? j := by
  have hmem : ∀ y, (j, y) ∈ (m.modify k f).entries ↔
      ∃ x, (j, x) ∈ m.entries ∧ y = if j = k then f x else x := by
    intro y
    simp only [modify, List.mem_map, sameKey_iff]
    constructor
    · rintro ⟨e, he, heq⟩
      split at heq
      · next hek =>
          obtain ⟨hj, hy⟩ := Prod.mk.inj heq
          exact ⟨e.2, by rw [← hj]; exact he, by rw [if_pos (hj.symm.trans hek), hy]⟩
      · next hek =>
          subst heq
          exact ⟨y, he, by rw [if_neg hek]⟩
    · rintro ⟨x, hx, rfl⟩
      exact ⟨(j, x), hx, by split <;> simp_all⟩
  ext y
  rw [find?_eq_some_iff, hmem]
  split
  · next hjk =>
      rw [hjk, Option.map_eq_some_iff]
      exact exists_congr fun x => by rw [find?_eq_some_iff, eq_comm (a := y)]
  · simp [find?_eq_some_iff]

/-- Erasing a key changes no other lookup. -/
theorem find?_erase [DecidableEq κ] (m : UnorderedMap κ υ) (k j : κ) :
    (m.erase k).find? j = if j = k then none else m.find? j := by
  split
  · next hjk =>
      rw [find?_eq_none_iff]
      intro e he
      have := (List.mem_filter.1 he).2
      simpa [hjk, sameKey_eq_false_iff] using this
  · next hjk =>
      ext x
      rw [find?_eq_some_iff, find?_eq_some_iff]
      simp [erase, sameKey_eq_false_iff, hjk]

/-- A stored entry splits the entry list, and no other entry has its key. -/
theorem entries_split {m : UnorderedMap κ υ} {k : κ} {x : υ} (h : m.find? k = some x) :
    ∃ l₁ l₂, m.entries = l₁ ++ (k, x) :: l₂ ∧ (∀ e ∈ l₁, e.1 ≠ k) ∧ ∀ e ∈ l₂, e.1 ≠ k := by
  obtain ⟨l₁, l₂, heq⟩ := List.append_of_mem (find?_eq_some_iff.1 h)
  have hne := m.keys_ne
  rw [heq, List.pairwise_append, List.pairwise_cons] at hne
  obtain ⟨-, ⟨hl₂, -⟩, hl₁⟩ := hne
  exact ⟨l₁, l₂, heq, fun e he => hl₁ e he (k, x) (by simp), fun e he => (hl₂ e he).symm⟩

theorem total_modify {m : UnorderedMap κ υ} {k : κ} {x : υ} (h : m.find? k = some x) (f : υ → υ)
    (weight : κ → υ → Int) :
    (m.modify k f).total weight = m.total weight - weight k x + weight k (f x) := by
  obtain ⟨l₁, l₂, heq, h₁, h₂⟩ := entries_split h
  have hrest : ∀ l : List (κ × υ), (∀ e ∈ l, e.1 ≠ k) →
      (l.map fun e => if sameKey m.hash e.1 k then (e.1, f e.2) else e) = l := by
    intro l hl
    refine (List.map_congr_left fun e he => ?_).trans (List.map_id l)
    rw [(sameKey_eq_false_iff m.hash e.1 k).2 (hl e he)]
    rfl
  have hk : sameKey m.hash k k = true := (sameKey_iff _ _ _).2 rfl
  simp only [total, modify, heq, List.map_append, List.map_cons, hrest l₁ h₁, hrest l₂ h₂, hk,
    if_true, List.sum_append, List.sum_cons]
  ring

theorem total_erase {m : UnorderedMap κ υ} {k : κ} {x : υ} (h : m.find? k = some x)
    (weight : κ → υ → Int) : (m.erase k).total weight = m.total weight - weight k x := by
  obtain ⟨l₁, l₂, heq, h₁, h₂⟩ := entries_split h
  have hrest : ∀ l : List (κ × υ), (∀ e ∈ l, e.1 ≠ k) →
      (l.filter fun e => !sameKey m.hash e.1 k) = l := by
    intro l hl
    refine List.filter_eq_self.2 fun e he => ?_
    simpa using (sameKey_eq_false_iff m.hash e.1 k).2 (hl e he)
  have hk : sameKey m.hash k k = true := (sameKey_iff _ _ _).2 rfl
  simp only [total, erase, heq, List.filter_append, List.filter_cons, hrest l₁ h₁, hrest l₂ h₂, hk,
    Bool.not_true, List.map_append, List.map_cons, List.sum_append, List.sum_cons]
  simp only [Bool.false_eq_true, if_false]
  ring

/-- Entries that all weigh nothing or more sum to at least the weight of one of them. -/
theorem weight_le_total {m : UnorderedMap κ υ} {k : κ} {x : υ} (h : m.find? k = some x)
    (weight : κ → υ → Int) (hpos : ∀ e ∈ m.entries, 0 ≤ weight e.1 e.2) :
    weight k x ≤ m.total weight := by
  have hmem := find?_eq_some_iff.1 h
  have key : ∀ es : List (κ × υ), (∀ e ∈ es, 0 ≤ weight e.1 e.2) → (k, x) ∈ es →
      weight k x ≤ (es.map fun e => weight e.1 e.2).sum := by
    intro es hes hx
    have hnonneg : ∀ w ∈ es.map fun e => weight e.1 e.2, (0 : Int) ≤ w := by
      intro w hw
      obtain ⟨e, he, rfl⟩ := List.mem_map.1 hw
      exact hes e he
    exact List.single_le_sum hnonneg _ (List.mem_map.2 ⟨(k, x), hx, rfl⟩)
  exact key m.entries hpos hmem

end Lawful

/-! ## Renamed maps -/

/-- The second map is the first one with its keys renamed by `f` and its values translated by `g`. The
two containers identify the same keys among those that satisfy `S`, and these are all that they hold. -/
structure Renamed {κ μ : Type u} {υ ω : Type v} [BEq κ] [BEq μ] (f : κ → μ) (g : υ → ω) (S : κ → Prop)
    (m : UnorderedMap κ υ) (n : UnorderedMap μ ω) : Prop where
  entries : n.entries = m.entries.map fun e => (f e.1, g e.2)
  same : ∀ a b, S a → S b → sameKey n.hash (f a) (f b) = sameKey m.hash a b
  holds : ∀ e ∈ m.entries, S e.1

namespace Renamed

variable {κ μ : Type u} {υ ω : Type v} [BEq κ] [BEq μ] {f : κ → μ} {g : υ → ω} {S : κ → Prop}
  {m : UnorderedMap κ υ} {n : UnorderedMap μ ω}

theorem empty {hash : κ → UInt64} {hash' : μ → UInt64}
    (h : ∀ a b, S a → S b → sameKey hash' (f a) (f b) = sameKey hash a b) :
    Renamed f g S (UnorderedMap.empty hash) (UnorderedMap.empty hash') :=
  ⟨rfl, h, fun _ he => absurd he List.not_mem_nil⟩

theorem keys (h : Renamed f g S m n) : n.keys = m.keys.map f := by
  rw [UnorderedMap.keys, UnorderedMap.keys, h.entries, List.map_map, List.map_map]
  rfl

theorem find? (h : Renamed f g S m n) {k : κ} (hk : S k) : n.find? (f k) = (m.find? k).map g := by
  rw [UnorderedMap.find?, UnorderedMap.find?, h.entries, List.find?_map, Option.map_map,
    Option.map_map]
  have hpred : m.entries.find? ((fun e => sameKey n.hash e.1 (f k)) ∘ fun e => (f e.1, g e.2)) =
      m.entries.find? fun e => sameKey m.hash e.1 k :=
    List.find?_congr fun e he => h.same e.1 k (h.holds e he) hk
  rw [hpred]
  rfl

theorem emplace (h : Renamed f g S m n) {k : κ} (hk : S k) {x : υ} {y : ω} (hy : y = g x) :
    Renamed f g S (m.emplace k x) (n.emplace (f k) y) := by
  have hfind := h.find? hk
  cases hm : m.find? k with
  | some z =>
      rw [hm] at hfind
      rw [emplace_of_find? hm, emplace_of_find? hfind]
      exact h
  | none =>
      rw [hm] at hfind
      refine ⟨?_, fun a b ha hb => ?_, fun e he => ?_⟩
      · rw [entries_emplace hfind, entries_emplace hm, h.entries, List.map_append, hy]
        rfl
      · rw [hash_emplace, hash_emplace]
        exact h.same a b ha hb
      · rw [entries_emplace hm, List.mem_append, List.mem_singleton] at he
        rcases he with he | rfl
        · exact h.holds e he
        · exact hk

theorem modify (h : Renamed f g S m n) {k : κ} (hk : S k) {u : υ → υ} {u' : ω → ω}
    (hu : ∀ x, u' (g x) = g (u x)) : Renamed f g S (m.modify k u) (n.modify (f k) u') := by
  refine ⟨?_, h.same, fun e he => ?_⟩
  · simp only [UnorderedMap.modify, h.entries, List.map_map]
    refine List.map_congr_left fun e he => ?_
    simp only [Function.comp_apply, h.same e.1 k (h.holds e he) hk]
    split
    · rw [hu]
    · rfl
  · obtain ⟨e', he', rfl⟩ := List.mem_map.1 he
    have hkey : (if sameKey m.hash e'.1 k then (e'.1, u e'.2) else e').1 = e'.1 := by split <;> rfl
    rw [hkey]
    exact h.holds e' he'

theorem erase (h : Renamed f g S m n) {k : κ} (hk : S k) :
    Renamed f g S (m.erase k) (n.erase (f k)) := by
  refine ⟨?_, h.same, fun e he => h.holds e (List.mem_of_mem_filter he)⟩
  simp only [UnorderedMap.erase, h.entries, List.filter_map]
  congr 1
  refine List.filter_congr fun e he => ?_
  simp only [Function.comp_apply, h.same e.1 k (h.holds e he) hk]

end Renamed

end UnorderedMap

end Containers
