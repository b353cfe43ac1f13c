import Mathlib.Data.List.Sort
import Mathlib.Order.Defs.Unbundled

/-!
# Ordered maps

A map from keys to values kept as the list of its entries in iteration order. The order is an
arbitrary strict total order `r` on the keys, given as a parameter of the type, and the structure
carries the proof that its entries are strictly sorted: no key occurs twice and the first entry has
the least key.

The operations are those of an ordered associative container: `emplace` inserts when the key is
new, `modify` updates a value in place, `erase` removes a key, `dropFirst` erases a range from the
beginning. Each is characterized by what `find?` returns afterwards, and a map is determined by
`find?` (`ext_find?`). The first and the last entry are characterized by `first?_eq_some_iff` and
`last?_eq_some_iff`.
-/

set_option autoImplicit false

namespace Containers

universe u v

/-- Entries sorted strictly by the relation `r` on keys. -/
structure OrderedMap (κ : Type u) (υ : Type v) (r : κ → κ → Prop) where
  entries : List (κ × υ)
  sorted : entries.Pairwise fun a b => r a.1 b.1

namespace OrderedMap

variable {κ : Type u} {υ : Type v} {r : κ → κ → Prop}

/-- The empty map. -/
def empty : OrderedMap κ υ r := ⟨[], List.Pairwise.nil⟩

instance : Inhabited (OrderedMap κ υ r) := ⟨empty⟩

theorem ext_entries {m n : OrderedMap κ υ r} (h : m.entries = n.entries) : m = n := by
  cases m
  cases n
  simp only at h
  subst h
  rfl

/-- The first entry in iteration order. -/
def first? (m : OrderedMap κ υ r) : Option (κ × υ) := m.entries.head?

/-- The last entry in iteration order. -/
def last? (m : OrderedMap κ υ r) : Option (κ × υ) := m.entries.getLast?

/-- The number of entries. -/
def size (m : OrderedMap κ υ r) : Nat := m.entries.length

def isEmpty (m : OrderedMap κ υ r) : Bool := m.entries.isEmpty

/-- The value stored under a key. -/
def find? [DecidableEq κ] (m : OrderedMap κ υ r) (k : κ) : Option υ := m.entries.lookup k

/-- Erase the first `n` entries in iteration order. -/
def dropFirst (m : OrderedMap κ υ r) (n : Nat) : OrderedMap κ υ r :=
  ⟨m.entries.drop n, m.sorted.sublist (List.drop_sublist n m.entries)⟩

/-- Erase a key. -/
def erase [DecidableEq κ] (m : OrderedMap κ υ r) (k : κ) : OrderedMap κ υ r :=
  ⟨m.entries.filter fun e => e.1 ≠ k, m.sorted.sublist List.filter_sublist⟩

/-- Apply `f` to the value stored under a key, if any. -/
def modify [DecidableEq κ] (m : OrderedMap κ υ r) (k : κ) (f : υ → υ) : OrderedMap κ υ r where
  entries := m.entries.map fun e => if e.1 = k then (e.1, f e.2) else e
  sorted := by
    refine List.pairwise_map.2 (m.sorted.imp fun {a b} h => ?_)
    have ha : (if a.1 = k then (a.1, f a.2) else a).1 = a.1 := by split <;> rfl
    have hb : (if b.1 = k then (b.1, f b.2) else b).1 = b.1 := by split <;> rfl
    rwa [ha, hb]

/-- Insert an entry at its place in a sorted list, unless the key is already there. -/
def insertEntry [DecidableRel r] (k : κ) (x : υ) : List (κ × υ) → List (κ × υ)
  | [] => [(k, x)]
  | e :: es =>
      if r k e.1 then (k, x) :: e :: es
      else if r e.1 k then e :: insertEntry k x es
      else e :: es

theorem mem_insertEntry [DecidableRel r] {k : κ} {x : υ} {es : List (κ × υ)} {e : κ × υ}
    (h : e ∈ insertEntry (r := r) k x es) : e = (k, x) ∨ e ∈ es := by
  induction es with
  | nil => exact Or.inl (by simpa [insertEntry] using h)
  | cons a es ih =>
      rw [insertEntry] at h
      split at h
      · simpa using h
      · split at h
        · rcases List.mem_cons.1 h with rfl | h
          · exact Or.inr (by simp)
          · exact (ih h).imp_right (List.mem_cons_of_mem a)
        · exact Or.inr h

theorem pairwise_insertEntry [DecidableRel r] [IsTrans κ r] (k : κ) (x : υ) {es : List (κ × υ)}
    (h : es.Pairwise fun a b => r a.1 b.1) :
    (insertEntry (r := r) k x es).Pairwise fun a b => r a.1 b.1 := by
  induction es with
  | nil => simp [insertEntry]
  | cons a es ih =>
      rw [List.pairwise_cons] at h
      rw [insertEntry]
      split
      · next hka =>
          refine List.pairwise_cons.2 ⟨fun b hb => ?_, List.pairwise_cons.2 h⟩
          rcases List.mem_cons.1 hb with rfl | hb
          · exact hka
          · exact trans_of r hka (h.1 b hb)
      · split
        · next hak =>
            refine List.pairwise_cons.2 ⟨fun b hb => ?_, ih h.2⟩
            rcases mem_insertEntry hb with rfl | hb
            · exact hak
            · exact h.1 b hb
        · exact List.pairwise_cons.2 h

/-- Insert an entry unless the key is already there. -/
def emplace [DecidableRel r] [IsTrans κ r] (m : OrderedMap κ υ r) (k : κ) (x : υ) :
    OrderedMap κ υ r :=
  ⟨insertEntry (r := r) k x m.entries, pairwise_insertEntry k x m.sorted⟩

theorem keys_ne [Std.Irrefl r] (m : OrderedMap κ υ r) :
    m.entries.Pairwise fun a b => a.1 ≠ b.1 :=
  m.sorted.imp fun {a b} h (he : a.1 = b.1) => irrefl_of r b.1 (he ▸ h)

/-- When a property of keys holds up to some entry and fails from there on, the entries where it
fails are those after the first ones. -/
theorem mem_dropWhile_iff {es : List (κ × υ)} (hes : es.Pairwise fun a b => r a.1 b.1)
    {p : κ → Bool} (hp : ∀ a b, r a b → p b = true → p a = true) (e : κ × υ) :
    e ∈ es.dropWhile (fun e => p e.1) ↔ e ∈ es ∧ p e.1 = false := by
  induction es with
  | nil => simp
  | cons a es ih =>
      rw [List.pairwise_cons] at hes
      cases ha : p a.1 with
      | true =>
          rw [List.dropWhile_cons, if_pos ha, ih hes.2]
          constructor
          · rintro ⟨he, hpe⟩
            exact ⟨List.mem_cons_of_mem a he, hpe⟩
          · rintro ⟨he, hpe⟩
            rcases List.mem_cons.1 he with rfl | he
            · exact absurd ha (by simp [hpe])
            · exact ⟨he, hpe⟩
      | false =>
          rw [List.dropWhile_cons, if_neg (by simp [ha])]
          refine ⟨fun he => ⟨he, ?_⟩, fun he => he.1⟩
          rcases List.mem_cons.1 he with rfl | he
          · exact ha
          · cases hpe : p e.1 with
            | false => rfl
            | true => exact absurd (hp a.1 e.1 (hes.1 e he) hpe) (by simp [ha])

section Lookup

variable [DecidableEq κ]

@[simp] theorem find?_empty (k : κ) : (empty : OrderedMap κ υ r).find? k = none := rfl

theorem find?_eq_none_iff {m : OrderedMap κ υ r} {k : κ} :
    m.find? k = none ↔ ∀ e ∈ m.entries, e.1 ≠ k := by
  rw [find?, List.lookup_eq_none_iff]
  exact forall₂_congr fun e _ => by simpa using ne_comm

theorem mem_of_find? {m : OrderedMap κ υ r} {k : κ} {x : υ} (h : m.find? k = some x) :
    (k, x) ∈ m.entries := by
  obtain ⟨l₁, l₂, heq, -⟩ := List.lookup_eq_some_iff.1 h
  rw [heq]
  simp

theorem lookup_of_mem {es : List (κ × υ)} (hne : es.Pairwise fun a b => a.1 ≠ b.1) {k : κ} {x : υ}
    (h : (k, x) ∈ es) : es.lookup k = some x := by
  induction es with
  | nil => simp at h
  | cons a es ih =>
      rw [List.pairwise_cons] at hne
      rcases List.mem_cons.1 h with rfl | h
      · simp
      · have hak : k ≠ a.1 := fun he => hne.1 (k, x) h he.symm
        have hkb : (k == a.1) = false := by simpa using hak
        rw [List.lookup_cons, hkb]
        exact ih hne.2 h

/-- Entries and lookups are the same thing. -/
theorem find?_eq_some_iff [Std.Irrefl r] {m : OrderedMap κ υ r} {k : κ} {x : υ} :
    m.find? k = some x ↔ (k, x) ∈ m.entries :=
  ⟨mem_of_find?, lookup_of_mem m.keys_ne⟩

/-- A map is determined by its lookups. -/
theorem ext_find? [IsStrictOrder κ r] {m n : OrderedMap κ υ r}
    (h : ∀ k, m.find? k = n.find? k) : m = n := by
  have hmem : ∀ e : κ × υ, e ∈ m.entries ↔ e ∈ n.entries := fun e => by
    rw [← find?_eq_some_iff, ← find?_eq_some_iff, h]
  have hnodup : ∀ p : OrderedMap κ υ r, p.entries.Nodup := fun p =>
    p.keys_ne.imp fun {a b} hab (he : a = b) => hab (he ▸ rfl)
  have hperm : m.entries.Perm n.entries :=
    (List.perm_ext_iff_of_nodup (hnodup m) (hnodup n)).2 hmem
  refine ext_entries (hperm.eq_of_pairwise (fun a b _ _ hab hba => ?_) m.sorted n.sorted)
  exact absurd (trans_of r hab hba) (irrefl_of r a.1)

/-- Erasing a key changes no other lookup. -/
theorem find?_erase [Std.Irrefl r] (m : OrderedMap κ υ r) (k j : κ) :
    (m.erase k).find? j = if j = k then none else m.find? j := by
  split
  · next hjk =>
      rw [find?_eq_none_iff]
      intro e he
      have := (List.mem_filter.1 he).2
      simpa [hjk] using this
  · next hjk =>
      ext x
      rw [find?_eq_some_iff, find?_eq_some_iff]
      simp [erase, hjk]

/-- Modifying a value changes no other lookup. -/
theorem find?_modify [Std.Irrefl r] (m : OrderedMap κ υ r) (k j : κ) (f : υ → υ) :
    (m.modify k f).find? j = if j = k then (m.find? k).map f else m.find? j := by
  have key : ∀ es : List (κ × υ),
      (es.map fun e => if e.1 = k then (e.1, f e.2) else e).lookup j =
        if j = k then (es.lookup k).map f else es.lookup j := by
    intro es
    induction es with
    | nil => simp
    | cons a es ih =>
        obtain ⟨a₁, a₂⟩ := a
        by_cases hjk : j = k
        · subst hjk
          by_cases haj : a₁ = j
          · simp [haj]
          · have hb : (j == a₁) = false := by simpa using fun h => haj h.symm
            simpa [List.lookup_cons, haj, hb] using ih
        · by_cases hak : a₁ = k
          · have hb : (j == k) = false := by simpa using hjk
            have hb' : (j == a₁) = false := by simpa [hak] using hjk
            simpa [List.lookup_cons, hak, hb, hb', hjk] using ih
          · simp only [List.map_cons, hak, if_false, List.lookup_cons, hjk] at ih ⊢
            rw [ih]
  exact key m.entries

/-- Erasing the first entries, as long as a property holds of their keys. -/
theorem find?_dropFirst [Std.Irrefl r] (m : OrderedMap κ υ r) {p : κ → Bool}
    (hp : ∀ a b, r a b → p b = true → p a = true) (k : κ) :
    (m.dropFirst (m.entries.takeWhile fun e => p e.1).length).find? k =
      if p k = true then none else m.find? k := by
  have hdrop : m.entries.drop (m.entries.takeWhile fun e => p e.1).length =
      m.entries.dropWhile fun e => p e.1 :=
    calc
      _ = ((m.entries.takeWhile fun e => p e.1) ++ m.entries.dropWhile fun e => p e.1).drop
            (m.entries.takeWhile fun e => p e.1).length := by rw [List.takeWhile_append_dropWhile]
      _ = _ := List.drop_left
  have hmem : ∀ x, (m.dropFirst (m.entries.takeWhile fun e => p e.1).length).find? k = some x ↔
      (k, x) ∈ m.entries ∧ p k = false := by
    intro x
    rw [find?_eq_some_iff, dropFirst]
    simp only [hdrop]
    exact mem_dropWhile_iff m.sorted hp (k, x)
  ext x
  rw [hmem]
  cases hk : p k with
  | true => simp
  | false => simp [find?_eq_some_iff]

theorem lookup_eq_none_of_lt [IsStrictOrder κ r] {e : κ × υ} {es : List (κ × υ)} {k : κ}
    (h : (e :: es).Pairwise fun a b => r a.1 b.1) (hk : r k e.1) : (e :: es).lookup k = none := by
  rw [List.lookup_eq_none_iff]
  rw [List.pairwise_cons] at h
  intro a ha
  have hka : r k a.1 := by
    rcases List.mem_cons.1 ha with rfl | ha
    · exact hk
    · exact trans_of r hk (h.1 a ha)
  simpa using fun he : k = a.1 => irrefl_of r a.1 (he ▸ hka)

/-- An insertion keeps the value of a key that is already there. -/
theorem find?_emplace [DecidableRel r] [IsStrictTotalOrder κ r] (m : OrderedMap κ υ r) (k j : κ)
    (x : υ) :
    (m.emplace k x).find? j = if j = k then some ((m.find? k).getD x) else m.find? j := by
  have key : ∀ es : List (κ × υ), (es.Pairwise fun a b => r a.1 b.1) →
      (insertEntry (r := r) k x es).lookup j =
        if j = k then some ((es.lookup k).getD x) else es.lookup j := by
    intro es hes
    induction es with
    | nil =>
        by_cases hjk : j = k
        · simp [insertEntry, hjk]
        · have hb : (j == k) = false := by simpa using hjk
          simp [insertEntry, List.lookup_cons, hb, hjk]
    | cons a es ih =>
        obtain ⟨a₁, a₂⟩ := a
        rw [insertEntry]
        split
        · next hka =>
            -- The new entry comes before all the others, which do not have the key.
            rw [lookup_eq_none_of_lt hes hka]
            by_cases hjk : j = k
            · simp [hjk]
            · have hb : (j == k) = false := by simpa using hjk
              rw [List.lookup_cons, hb, if_neg hjk]
        · next hka =>
            split
            · next hak =>
                -- The new entry belongs behind the first one.
                have hne : k ≠ a₁ := fun he => irrefl_of r a₁ (by simpa [he] using hak)
                have hb : (k == a₁) = false := by simpa using hne
                have ih' := ih (List.pairwise_cons.1 hes).2
                rw [List.lookup_cons, List.lookup_cons, List.lookup_cons, hb, ih']
                by_cases hja : j = a₁
                · have hjk : j ≠ k := fun he => hne (he ▸ hja)
                  simp [hja, Ne.symm hne]
                · have hb' : (j == a₁) = false := by simpa using hja
                  simp [hb']
            · next hak =>
                -- The key is there, and its entry stays.
                have heq : k = a₁ := by
                  rcases trichotomous_of r k a₁ with h | h | h
                  · exact absurd h hka
                  · exact h
                  · exact absurd h hak
                subst heq
                by_cases hjk : j = k
                · simp [hjk]
                · simp [hjk]
  exact key m.entries m.sorted

end Lookup

section Ends

variable [DecidableEq κ]

theorem first?_eq_none_iff {m : OrderedMap κ υ r} : m.first? = none ↔ ∀ k, m.find? k = none := by
  constructor
  · intro h k
    have : m.entries = [] := by simpa [first?] using h
    simp [find?, this]
  · intro h
    rcases hm : m.entries with _ | ⟨a, es⟩
    · simp [first?, hm]
    · have := find?_eq_none_iff.1 (h a.1) a (by simp [hm])
      exact absurd rfl this

/-- The first entry is the one whose key precedes every other key. -/
theorem first?_eq_some_iff [IsStrictOrder κ r] {m : OrderedMap κ υ r} {k : κ} {x : υ} :
    m.first? = some (k, x) ↔
      m.find? k = some x ∧ ∀ j, j ≠ k → m.find? j ≠ none → r k j := by
  constructor
  · intro h
    obtain ⟨es, hes⟩ : ∃ es, m.entries = (k, x) :: es := by
      rcases hm : m.entries with _ | ⟨a, es⟩
      · simp [first?, hm] at h
      · have : a = (k, x) := by simpa [first?, hm] using h
        exact ⟨es, by rw [this]⟩
    refine ⟨by simp [find?, hes], fun j hjk hj => ?_⟩
    obtain ⟨y, hy⟩ := Option.ne_none_iff_exists'.1 hj
    have hmem := mem_of_find? hy
    have hsort := m.sorted
    rw [hes] at hmem hsort
    rcases List.mem_cons.1 hmem with he | hmem
    · exact absurd (by simpa using congrArg Prod.fst he) hjk
    · exact (List.pairwise_cons.1 hsort).1 _ hmem
  · rintro ⟨hk, hmin⟩
    rcases hm : m.entries with _ | ⟨a, es⟩
    · simp [find?, hm] at hk
    · have ha : m.find? a.1 = some a.2 := find?_eq_some_iff.2 (by simp [hm])
      by_cases hak : a.1 = k
      · rw [hak] at ha
        have hx : a.2 = x := Option.some.inj (ha.symm.trans hk)
        have : a = (k, x) := Prod.ext hak hx
        simp [first?, hm, this]
      · have hlt : r k a.1 := hmin a.1 hak (by simp [ha])
        have hsort := m.sorted
        rw [hm] at hsort
        have := lookup_eq_none_of_lt hsort hlt
        rw [find?, hm, this] at hk
        exact absurd hk (by simp)

/-- The last entry is the one whose key is preceded by every other key. -/
theorem last?_eq_some_iff [IsStrictOrder κ r] {m : OrderedMap κ υ r} {k : κ} {x : υ} :
    m.last? = some (k, x) ↔
      m.find? k = some x ∧ ∀ j, j ≠ k → m.find? j ≠ none → r j k := by
  have hend : ∀ (es : List (κ × υ)) (a : κ × υ), m.entries = es ++ [a] →
      m.find? a.1 = some a.2 ∧ ∀ j, j ≠ a.1 → m.find? j ≠ none → r j a.1 := by
    intro es a hm
    refine ⟨find?_eq_some_iff.2 (by simp [hm]), fun j hja hj => ?_⟩
    obtain ⟨y, hy⟩ := Option.ne_none_iff_exists'.1 hj
    have hmem := mem_of_find? hy
    have hsort := m.sorted
    rw [hm] at hmem hsort
    rcases List.mem_append.1 hmem with hmem | hmem
    · exact (List.pairwise_append.1 hsort).2.2 _ hmem a (by simp)
    · have : (j, y) = a := by simpa using hmem
      exact absurd (congrArg Prod.fst this) hja
  constructor
  · intro h
    obtain ⟨es, hes⟩ := List.getLast?_eq_some_iff.1 h
    exact hend es (k, x) hes
  · rintro ⟨hk, hmax⟩
    rcases List.eq_nil_or_concat' m.entries with hm | ⟨es, a, hm⟩
    · simp [find?, hm] at hk
    · obtain ⟨ha, hamax⟩ := hend es a hm
      by_cases hak : a.1 = k
      · rw [hak] at ha
        have hx : a.2 = x := Option.some.inj (ha.symm.trans hk)
        have : a = (k, x) := Prod.ext hak hx
        simp [last?, hm, this]
      · have h₁ := hmax a.1 hak (by simp [ha])
        have h₂ := hamax k (Ne.symm hak) (by simp [hk])
        exact absurd (trans_of r h₁ h₂) (irrefl_of r a.1)

theorem last?_eq_none_iff {m : OrderedMap κ υ r} : m.last? = none ↔ ∀ k, m.find? k = none := by
  rw [← first?_eq_none_iff, last?, first?, List.getLast?_eq_none_iff, List.head?_eq_none_iff]

/-- A list of entries without duplicate keys that has the same entries as a map has its size. -/
theorem size_eq_length [Std.Irrefl r] {m : OrderedMap κ υ r} {es : List (κ × υ)}
    (hne : es.Pairwise fun a b => a.1 ≠ b.1) (h : ∀ k x, m.find? k = some x ↔ (k, x) ∈ es) :
    m.size = es.length := by
  have hmem : ∀ e : κ × υ, e ∈ m.entries ↔ e ∈ es := fun e => by
    rw [← h e.1 e.2, find?_eq_some_iff]
  have hnodup : ∀ l : List (κ × υ), (l.Pairwise fun a b => a.1 ≠ b.1) → l.Nodup := fun l hl =>
    hl.imp fun {a b} hab (he : a = b) => hab (he ▸ rfl)
  exact ((List.perm_ext_iff_of_nodup (hnodup _ m.keys_ne) (hnodup _ hne)).2 hmem).length_eq

end Ends

section MapKeys

variable {κ' : Type u} {r' : κ' → κ' → Prop} {f : κ → κ'}

/-- Rename the keys by a function that keeps their order. -/
def mapKeys (f : κ → κ') (hf : ∀ a b, r a b → r' (f a) (f b)) (m : OrderedMap κ υ r) :
    OrderedMap κ' υ r' where
  entries := m.entries.map fun e => (f e.1, e.2)
  sorted := List.pairwise_map.2 (m.sorted.imp fun {a b} h => hf a.1 b.1 h)

variable {hf : ∀ a b, r a b → r' (f a) (f b)}

theorem first?_mapKeys (m : OrderedMap κ υ r) :
    (m.mapKeys f hf).first? = m.first?.map fun e => (f e.1, e.2) :=
  List.head?_map

theorem last?_mapKeys (m : OrderedMap κ υ r) :
    (m.mapKeys f hf).last? = m.last?.map fun e => (f e.1, e.2) :=
  List.getLast?_map

theorem size_mapKeys (m : OrderedMap κ υ r) : (m.mapKeys f hf).size = m.size :=
  List.length_map _

variable [DecidableEq κ] [DecidableEq κ'] [Std.Irrefl r] [Std.Irrefl r']

theorem find?_mapKeys_eq_some_iff {m : OrderedMap κ υ r} {k : κ'} {x : υ} :
    (m.mapKeys f hf).find? k = some x ↔ ∃ j, m.find? j = some x ∧ f j = k := by
  rw [find?_eq_some_iff, mapKeys, List.mem_map]
  constructor
  · rintro ⟨e, he, heq⟩
    obtain ⟨h₁, h₂⟩ := Prod.mk.inj heq
    exact ⟨e.1, h₂ ▸ find?_eq_some_iff.2 he, h₁⟩
  · rintro ⟨j, hj, rfl⟩
    exact ⟨(j, x), find?_eq_some_iff.1 hj, rfl⟩

/-- A renamed key has the value of the original. -/
theorem find?_mapKeys (hinj : Function.Injective f) (m : OrderedMap κ υ r) (k : κ) :
    (m.mapKeys f hf).find? (f k) = m.find? k := by
  ext x
  rw [find?_mapKeys_eq_some_iff]
  constructor
  · rintro ⟨j, hj, he⟩
    exact hinj he ▸ hj
  · exact fun h => ⟨k, h, rfl⟩

/-- A key that is not a renamed one is not there. -/
theorem find?_mapKeys_of_forall_ne (m : OrderedMap κ υ r) {k : κ'} (h : ∀ j, f j ≠ k) :
    (m.mapKeys f hf).find? k = none := by
  cases hk : (m.mapKeys f hf).find? k with
  | none => rfl
  | some x =>
      obtain ⟨j, -, he⟩ := find?_mapKeys_eq_some_iff.1 hk
      exact absurd he (h j)

end MapKeys

end OrderedMap

end Containers
