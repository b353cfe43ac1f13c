import Mathlib.Logic.Function.Basic
import Mathlib.Data.List.Nodup

/-!
# Overlaying trees

A tree has values in its leaves and two kinds of branches. A record finds its children by name, a
list by position. `merge t u` overlays the tree `u` on `t`: the leaves of `u` win, and a child that
only one of the two trees has is kept.

The kinds of branches differ in how they take a child that they lack (`graft`). A list takes it as
it is. A record starts from nothing and merges the child into that, and nothing stands for a branch
in which no child is there: a record that only holds empty branches leaves no trace (`bundle`).

On trees that have the same kind of node at every path that both have (`Compatible`), a merge reads
the leaf of the overlay where it has one and the leaf below otherwise (`leafAt_merge`), a second
merge of the same tree changes nothing (`merge_merge_self`), and merges can be bracketed in any way
(`merge_assoc`). `foldl_mergeAt` is the merge of a branch one child after the other.
-/

set_option autoImplicit false

namespace Containers

universe u v

/-- How a branch takes a child that it lacks: a list as it is, a record by a merge. -/
inductive Branching where
  | list
  | record
  deriving DecidableEq, Repr

/-- A tree with the children of its branches under steps `κ`. -/
inductive OverlayTree (κ : Type u) (α : Type v) where
  | absent
  | leaf (x : α)
  | branch (k : Branching) (children : κ → OverlayTree κ α)

namespace OverlayTree

variable {κ : Type u} {α : Type v}

/-- What a node is, apart from its children. -/
inductive Label (α : Type v) where
  | leaf (x : α)
  | branch (k : Branching)
  deriving DecidableEq, Repr

/-- The kind of a node: that of its branch, or none for a leaf. -/
def Label.kind : Label α → Option Branching
  | .leaf _ => none
  | .branch k => some k

def Label.leaf? : Label α → Option α
  | .leaf x => some x
  | .branch _ => none

def label? : OverlayTree κ α → Option (Label α)
  | absent => none
  | leaf x => some (.leaf x)
  | branch k _ => some (.branch k)

def child : OverlayTree κ α → κ → OverlayTree κ α
  | branch _ children, c => children c
  | _, _ => absent

/-- The label of the node at the end of a path. -/
def labelAt : OverlayTree κ α → List κ → Option (Label α)
  | t, [] => t.label?
  | t, c :: p => (t.child c).labelAt p

/-- The value of the leaf at the end of a path. -/
def leafAt (t : OverlayTree κ α) (p : List κ) : Option α := (t.labelAt p).bind Label.leaf?

/-- A path that both trees have holds the same kind of node in both. -/
def Compatible (t u : OverlayTree κ α) : Prop :=
  ∀ p l m, t.labelAt p = some l → u.labelAt p = some m → l.kind = m.kind

/-- A tree that can be read as a branch of a kind: it is one, or it is not there. -/
def Fits (k : Branching) : OverlayTree κ α → Prop
  | absent => True
  | leaf _ => False
  | branch k' _ => k' = k

open Classical in
/-- A branch with some children. It is there when it was before, or when some child is. -/
noncomputable def bundle (k : Branching) (held : Prop) (children : κ → OverlayTree κ α) :
    OverlayTree κ α :=
  if held ∨ ∃ c, children c ≠ absent then branch k children else absent

open Classical in
/-- Overlay the second tree on the first. -/
noncomputable def merge : OverlayTree κ α → OverlayTree κ α → OverlayTree κ α
  | t, absent => t
  | _, leaf x => leaf x
  | t, branch k w =>
      if t.Fits k then
        bundle k (t ≠ absent) fun c =>
          if k = .list ∧ t.child c = absent then w c else merge (t.child c) (w c)
      else t

open Classical in
/-- Overlay a child on the child of a branch. -/
noncomputable def graft (k : Branching) (t u : OverlayTree κ α) : OverlayTree κ α :=
  if k = .list ∧ t = absent then u else t.merge u

variable {k : Branching} {t u a b : OverlayTree κ α}

@[simp] theorem child_absent (c : κ) : (absent : OverlayTree κ α).child c = absent := rfl

@[simp] theorem child_leaf (x : α) (c : κ) : (leaf x : OverlayTree κ α).child c = absent := rfl

@[simp] theorem child_branch (w : κ → OverlayTree κ α) (c : κ) : (branch k w).child c = w c := rfl

@[simp] theorem fits_branch (w : κ → OverlayTree κ α) : (branch k w).Fits k := rfl

/-! ## Bundles -/

section Bundle

variable {held held' : Prop} {r : κ → OverlayTree κ α}

theorem bundle_of_held (h : held) : bundle k held r = branch k r := if_pos (Or.inl h)

theorem bundle_of_child {c : κ} (h : r c ≠ absent) : bundle k held r = branch k r :=
  if_pos (Or.inr ⟨c, h⟩)

theorem bundle_ne_absent_iff : bundle k held r ≠ absent ↔ held ∨ ∃ c, r c ≠ absent := by
  rw [bundle]
  split
  · rename_i h
    exact ⟨fun _ => h, fun _ => nofun⟩
  · rename_i h
    exact ⟨fun hne => absurd rfl hne, fun h' => absurd h' h⟩

@[simp] theorem child_bundle (c : κ) : (bundle k held r).child c = r c := by
  rw [bundle]
  split
  · rfl
  · rename_i h
    -- Nothing is bundled, so the child is not there either.
    by_contra hne
    exact h (Or.inr ⟨c, fun hr => hne hr.symm⟩)

@[simp] theorem fits_bundle : (bundle k held r).Fits k := by
  rw [bundle]
  split
  · exact rfl
  · exact True.intro

theorem bundle_congr (h : (held ∨ ∃ c, r c ≠ absent) ↔ (held' ∨ ∃ c, r c ≠ absent)) :
    bundle k held r = bundle k held' r := by
  rw [bundle, bundle]
  by_cases hl : held ∨ ∃ c, r c ≠ absent
  · rw [if_pos hl, if_pos (h.1 hl)]
  · rw [if_neg hl, if_neg (mt h.2 hl)]

theorem bundle_child (h : t.Fits k) : bundle k (t ≠ absent) t.child = t := by
  cases t with
  -- Nothing is held, and nothing is bundled.
  | absent => simp [bundle]
  | leaf x => exact h.elim
  | branch k' children =>
      obtain rfl : k' = k := h
      exact bundle_of_held nofun

end Bundle

/-! ## Merging branches -/

@[simp] theorem merge_absent : t.merge absent = t := by rw [merge]

@[simp] theorem merge_leaf (x : α) : t.merge (leaf x) = leaf x := by rw [merge]

theorem merge_branch (h : t.Fits k) (w : κ → OverlayTree κ α) :
    t.merge (branch k w) = bundle k (t ≠ absent) fun c => graft k (t.child c) (w c) := by
  rw [merge, if_pos h]
  rfl

@[simp] theorem graft_absent : graft k t absent = t := by
  rw [graft]
  split
  · rename_i h
    exact h.2.symm
  · exact merge_absent

theorem merge_eq_bundle (ht : t.Fits k) (hu : u.Fits k) :
    t.merge u = bundle k (t ≠ absent) fun c => graft k (t.child c) (u.child c) := by
  cases u with
  | absent =>
      -- Nothing is grafted, and the tree is the bundle of its own children.
      simp only [merge_absent, child_absent, graft_absent]
      exact (bundle_child ht).symm
  | leaf x => exact hu.elim
  | branch k' w =>
      obtain rfl : k' = k := hu
      exact merge_branch ht w

/-- What is there stays there. -/
theorem merge_ne_absent (h : t ≠ absent) : t.merge u ≠ absent := by
  cases u with
  | absent => exact h
  | leaf x => rw [merge_leaf]; nofun
  | branch k w =>
      by_cases hf : t.Fits k
      · rw [merge_branch hf]
        exact bundle_ne_absent_iff.2 (Or.inl h)
      · rw [merge, if_neg hf]
        exact h

theorem graft_of_ne_absent (h : t ≠ absent) : graft k t u = t.merge u :=
  if_neg fun hl => h hl.2

theorem graft_list_absent : graft .list absent u = u := if_pos ⟨rfl, rfl⟩

theorem graft_record : graft .record t u = t.merge u := if_neg nofun

theorem graft_ne_absent (h : t ≠ absent) : graft k t u ≠ absent := by
  rw [graft_of_ne_absent h]
  exact merge_ne_absent h

theorem fits_merge (ht : t.Fits k) (hu : u.Fits k) : (t.merge u).Fits k := by
  rw [merge_eq_bundle ht hu]
  exact fits_bundle

/-! ## Compatible trees -/

theorem Compatible.refl (t : OverlayTree κ α) : t.Compatible t := by
  intro p l m hl hm
  rw [Option.some.inj (hl.symm.trans hm)]

theorem Compatible.symm (h : t.Compatible u) : u.Compatible t :=
  fun p l m hl hm => (h p m l hm hl).symm

theorem Compatible.child (h : t.Compatible u) (c : κ) : (t.child c).Compatible (u.child c) :=
  fun p l m hl hm => h (c :: p) l m hl hm

/-- A tree that is compatible with a branch can be read as a branch of its kind. -/
theorem Compatible.fits {w : κ → OverlayTree κ α} (h : t.Compatible (branch k w)) : t.Fits k := by
  cases t with
  | absent => exact True.intro
  | leaf x => exact absurd (h [] _ _ rfl rfl) nofun
  | branch k' v => exact Option.some.inj (h [] _ _ rfl rfl)

theorem Compatible.child_of_leaf {x : α} (h : t.Compatible (leaf x)) (c : κ) :
    t.child c = absent := by
  cases t with
  | absent => rfl
  | leaf y => rfl
  | branch k v => exact absurd (h [] _ _ rfl rfl) nofun

/-! ## The laws of merging -/

@[simp] theorem labelAt_absent (p : List κ) : (absent : OverlayTree κ α).labelAt p = none := by
  induction p with
  | nil => rfl
  | cons c p ih => exact ih

@[simp] theorem leafAt_absent (p : List κ) : (absent : OverlayTree κ α).leafAt p = none := by
  rw [leafAt, labelAt_absent]
  rfl

theorem leafAt_cons (t : OverlayTree κ α) (c : κ) (p : List κ) :
    t.leafAt (c :: p) = (t.child c).leafAt p := rfl

theorem leafAt_bundle_nil {held : Prop} {r : κ → OverlayTree κ α} :
    (bundle k held r).leafAt [] = none := by
  rw [bundle]
  split <;> rfl

theorem Fits.leafAt_nil (h : t.Fits k) : t.leafAt [] = none := by
  rw [← bundle_child h]
  exact leafAt_bundle_nil

/-- After a merge a path holds the leaf of the overlay, or the leaf below where it has none. -/
theorem leafAt_merge (h : t.Compatible u) (p : List κ) :
    (t.merge u).leafAt p = (u.leafAt p).or (t.leafAt p) := by
  induction u generalizing t p with
  | absent => simp
  | leaf x =>
      cases p with
      | nil => rfl
      | cons c p =>
          rw [merge_leaf, leafAt_cons, leafAt_cons, h.child_of_leaf c]
          simp
  | branch k w ih =>
      have ht : t.Fits k := h.fits
      rw [merge_branch ht]
      cases p with
      | nil => rw [leafAt_bundle_nil, ht.leafAt_nil]; rfl
      | cons c p =>
          rw [leafAt_cons, leafAt_cons, leafAt_cons, child_bundle, graft]
          split
          · -- The list lacks the child and takes it from the overlay.
            rename_i hl
            simp [hl.2]
          · exact ih c (h.child c) p

/-- A tree merged into itself is the tree. -/
theorem merge_self (u : OverlayTree κ α) : u.merge u = u := by
  induction u with
  | absent => exact merge_absent
  | leaf x => exact merge_leaf x
  | branch k w ih =>
      rw [merge_branch (fits_branch w), bundle_of_held nofun]
      congr 1
      funext c
      show graft k (w c) (w c) = w c
      rw [graft]
      split
      · rfl
      · exact ih c

/-- Grafts can be bracketed in any way when the merges of the same trees can. -/
theorem graft_assoc (h : (t.merge a).merge b = t.merge (a.merge b)) :
    graft k (graft k t a) b = graft k t (graft k a b) := by
  cases k with
  | record => rw [graft_record, graft_record, graft_record, graft_record, h]
  | list =>
      by_cases ht : t = absent
      · rw [ht, graft_list_absent, graft_list_absent]
      · rw [graft_of_ne_absent ht, graft_of_ne_absent ht, graft_of_ne_absent (merge_ne_absent ht)]
        -- The first tree has the child, so only a missing child of the second one matters.
        by_cases ha : a = absent
        · rw [ha, merge_absent, graft_list_absent]
        · rw [graft_of_ne_absent ha, h]

/-- Merging one tree and then another is merging the second one over the first. -/
theorem merge_assoc (hta : t.Compatible a) (htb : t.Compatible b) (hab : a.Compatible b) :
    (t.merge a).merge b = t.merge (a.merge b) := by
  induction b generalizing t a with
  | absent => rw [merge_absent, merge_absent]
  | leaf x => rw [merge_leaf, merge_leaf, merge_leaf]
  | branch k w ih =>
      have ht : t.Fits k := htb.fits
      have ha : a.Fits k := hab.fits
      have hb : (branch k w).Fits k := fits_branch w
      have hchild : ∀ c, graft k (graft k (t.child c) (a.child c)) (w c) =
          graft k (t.child c) (graft k (a.child c) (w c)) := fun c =>
        graft_assoc (ih c (hta.child c) (htb.child c) (hab.child c))
      rw [merge_eq_bundle (fits_merge ht ha) hb, merge_eq_bundle ht (fits_merge ha hb),
        merge_eq_bundle ht ha, merge_eq_bundle ha hb]
      simp only [child_bundle, child_branch, ← hchild]
      -- A child that the first merge puts there is still there after the second one.
      apply bundle_congr
      rw [bundle_ne_absent_iff]
      constructor
      · rintro ((h | ⟨c, hc⟩) | h)
        · exact Or.inl h
        · exact Or.inr ⟨c, graft_ne_absent hc⟩
        · exact Or.inr h
      · rintro (h | h)
        · exact Or.inl (Or.inl h)
        · exact Or.inr h

/-- A second merge of the same tree changes nothing. -/
theorem merge_merge_self (h : t.Compatible u) : (t.merge u).merge u = t.merge u := by
  rw [merge_assoc h h (Compatible.refl u), merge_self]

/-! ## Merging one child after the other -/

section Children

variable [DecidableEq κ] (w : κ → OverlayTree κ α)

/-- Graft the child under one step. -/
noncomputable def mergeAt (k : Branching) (t : OverlayTree κ α) (c : κ) : OverlayTree κ α :=
  bundle k (t ≠ absent) (Function.update t.child c (graft k (t.child c) (w c)))

/-- A graft may as well ask what its branch was held by: the branch was there when it was held or had a
child, and the child is there still. -/
theorem mergeAt_of_eq_bundle {held : Prop} (ht : t = bundle k held t.child) (c : κ) :
    mergeAt w k t c = bundle k held (Function.update t.child c (graft k (t.child c) (w c))) := by
  have hthere : t ≠ absent ↔ held ∨ ∃ j, t.child j ≠ absent := by
    rw [← bundle_ne_absent_iff (k := k), ← ht]
  rw [mergeAt]
  apply bundle_congr
  constructor
  · rintro (h | h)
    · rcases hthere.1 h with h | ⟨j, hj⟩
      · exact Or.inl h
      · refine Or.inr ⟨j, ?_⟩
        by_cases hjc : j = c
        · subst hjc
          rw [Function.update_self]
          exact graft_ne_absent hj
        · rwa [Function.update_of_ne hjc]
    · exact Or.inr h
  · rintro (h | h)
    · exact Or.inl (hthere.2 (Or.inl h))
    · exact Or.inr h

theorem foldl_mergeAt_eq_bundle (ht : t.Fits k) {cs : List κ} (hnodup : cs.Nodup) :
    cs.foldl (mergeAt w k) t = bundle k (t ≠ absent) fun j =>
      if j ∈ cs then graft k (t.child j) (w j) else t.child j := by
  induction cs generalizing t with
  | nil => simp only [List.foldl_nil, List.not_mem_nil, if_false]; exact (bundle_child ht).symm
  | cons c cs ih =>
      obtain ⟨hc, hcs⟩ := List.nodup_cons.1 hnodup
      -- The child grafted first is not among the rest, so it is grafted once.
      have hchildren : ∀ j, (if j ∈ cs then graft k ((mergeAt w k t c).child j) (w j)
          else (mergeAt w k t c).child j) =
          if j ∈ c :: cs then graft k (t.child j) (w j) else t.child j := by
        intro j
        simp only [mergeAt, child_bundle]
        by_cases hj : j = c
        · subst hj
          simp [hc]
        · simp [hj]
      have hfits : (mergeAt w k t c).Fits k := fits_bundle
      rw [List.foldl_cons, ih hfits hcs]
      simp only [hchildren]
      apply bundle_congr
      rw [mergeAt, bundle_ne_absent_iff]
      constructor
      · rintro ((h | ⟨j, hj⟩) | h)
        · exact Or.inl h
        · -- The child grafted first is among the children of the result.
          refine Or.inr ⟨j, ?_⟩
          by_cases hjc : j = c
          · subst hjc
            simpa using hj
          · rw [Function.update_of_ne hjc] at hj
            split
            · exact graft_ne_absent hj
            · exact hj
        · exact Or.inr h
      · rintro (h | h)
        · exact Or.inl (Or.inl h)
        · exact Or.inr h

/-- A branch is merged by grafting its children one after the other. -/
theorem foldl_mergeAt (ht : t.Fits k) {cs : List κ} (hnodup : cs.Nodup)
    (hw : ∀ c, c ∉ cs → w c = absent) : cs.foldl (mergeAt w k) t = t.merge (branch k w) := by
  rw [foldl_mergeAt_eq_bundle w ht hnodup, merge_branch ht]
  congr 1
  funext c
  split
  · rfl
  · rename_i hc
    -- The overlay has nothing under this step.
    rw [hw c hc, graft_absent]

end Children

end OverlayTree

end Containers
