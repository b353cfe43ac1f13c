import JayBeams.OpenCL.GenericReduce

/-!
# The size of a workgroup

The constructor of `generic_reduce` takes as many threads in a workgroup as the device allows and as
have room in its local memory. Nothing makes this a power of two, or more than one.

`reduce_scratch` combines every entry of the scratch buffer once exactly for the powers of two whose
size is a `uint` (`combinesOnce_iff`). A workgroup of a single thread leaves as many values as it
finds, so that the passes of `execute` never end. These are the only ways in which a schedule of
passes is not sound (`soundSchedule_iff`).
-/

set_option autoImplicit false

namespace JayBeams.OpenCL

open Finset ParallelReduction

/-! ## The schedule of the passes -/

/-- `scratch_size_`, from the bytes of local memory, the bytes of an output element and the threads that
the device allows in a workgroup -/
def scratchSize (localMemSize sizeofOutputType maxWorkgroupSize : Nat) : Nat :=
  min (localMemSize / sizeofOutputType) maxWorkgroupSize

/-- `effective_workgroup_size_` -/
def effectiveWorkgroupSize (localMemSize sizeofOutputType maxWorkgroupSize : Nat) : Nat :=
  min (scratchSize localMemSize sizeofOutputType maxWorkgroupSize) maxWorkgroupSize

/-- The workgroups of the initial pass of `execute` -/
def initialWorkgroups (size workgroupSize : Nat) : Nat :=
  if size / workgroupSize = 0 then 1 else size / workgroupSize

/-- The workgroup size of a pass of `execute` -/
def passWorkgroupSize (passOutputSize workgroupSize : Nat) : Nat :=
  if passOutputSize < workgroupSize then (p2ceil (UInt64.ofNat passOutputSize)).toNat / 2
  else workgroupSize

/-- The values of `pass_output_size` and `workgroup_size` at the head of the loop of `execute`. -/
inductive AtLoop (workgroupSize size : Nat) : Nat → Nat → Prop
  | initial : AtLoop workgroupSize size (initialWorkgroups size workgroupSize) workgroupSize
  | pass {n w : Nat} (h : AtLoop workgroupSize size n w) (hn : n > 1) :
      AtLoop workgroupSize size (n / passWorkgroupSize n w) (passWorkgroupSize n w)

/-- An iteration of the loop of `execute` is a pass of the schedule. -/
theorem runPasses_succ {β α : Type} (r : Reducer α β) (memory : Nat → β) (fuel n w : Nat)
    (ping pong : List β) :
    runPasses r memory (fuel + 1) n w ping pong =
      if n > 1 then do
        if ¬ n / passWorkgroupSize n w > 0 then throw (.assertion "workgroups > 0")
        let pong ← genericTransformReduceIntermediate r memory (n / passWorkgroupSize n w)
          (valuesPerThread n (n / passWorkgroupSize n w * passWorkgroupSize n w))
          (passWorkgroupSize n w) n ping pong
        runPasses r memory fuel (n / passWorkgroupSize n w) (passWorkgroupSize n w) pong ping
      else .ok ping :=
  rfl

/-- A scratch buffer of `tpb` entries, each of them the place where it is -/
def scratchPlaces (tpb : Nat) : List (Multiset Nat) := (List.range tpb).map fun j => {j}

/-- `reduce_scratch` leaves every entry of a scratch buffer of `tpb` threads once in the first one. -/
def CombinesOnce (tpb : Nat) : Prop :=
  ∃ scratch, reduceScratch (collectPlaces Unit) tpb (uint tpb) (scratchPlaces tpb) = .ok scratch ∧
    load scratch 0 = .ok (Multiset.range tpb)

/-- Every pass combines its scratch entries once, the passes leave fewer and fewer values, and they
end. -/
structure SoundSchedule (workgroupSize size : Nat) : Prop where
  initial : CombinesOnce workgroupSize
  combines : ∀ n w, AtLoop workgroupSize size n w → n > 1 → CombinesOnce (passWorkgroupSize n w)
  decreases : ∀ n w, AtLoop workgroupSize size n w → n > 1 → n / passWorkgroupSize n w < n
  ends : ∃ n w, AtLoop workgroupSize size n w ∧ ¬ n > 1

/-! ## The tree of a scratch buffer -/

section Tree

variable {α M : Type} [CommMonoid M] {r : Reducer α M}

/-- Halving any stride combines a power of two of values, all of which count the same. -/
theorem reduceScratchFrom_size (hr : r.Multiplies) (size : M → Nat)
    (hsize : ∀ a b, size (a * b) = size a + size b) (i : Nat) {c : Nat} {scratch : List M}
    (hi : 2 * i ≤ scratch.length) (hsmall : i ≤ 4294967296)
    (hc : ∀ j, j < max 1 (2 * i) → size (valueAt scratch j) = c) :
    ∃ next m, reduceScratchFrom r scratch.length i scratch = .ok next ∧
      next.length = scratch.length ∧ size (valueAt next 0) = c * 2 ^ m := by
  induction i using Nat.strong_induction_on generalizing c scratch with
  | _ i ih =>
      by_cases hone : 1 ≤ i
      · obtain ⟨next, hrun, hlength, hvalue⟩ := halveScratch_run hr hi hsmall
        -- the first half counts twice as much, and holds all that the next stride reaches
        have hdouble : ∀ j, j < max 1 (2 * (i / 2)) → size (valueAt next j) = 2 * c := by
          intro j hj
          have hji : j < i := by omega
          rw [hvalue j hji, hsize, hc j (by omega), hc (j + i) (by omega), Nat.two_mul]
        obtain ⟨last, m, hlast, hlength', hm⟩ := ih (i / 2) (by omega)
          (show 2 * (i / 2) ≤ next.length by omega) (by omega) hdouble
        refine ⟨last, m + 1, ?_, hlength'.trans hlength, ?_⟩
        · rw [reduceScratchFrom, dif_pos hone, hrun]
          rwa [hlength] at hlast
        · rw [hm, Nat.pow_succ, Nat.mul_comm 2 c, Nat.mul_assoc, Nat.mul_comm 2 (2 ^ m)]
      · refine ⟨scratch, 0, ?_, rfl, ?_⟩
        · rw [reduceScratchFrom, dif_neg hone]
          rfl
        · rw [hc 0 (by omega), Nat.pow_zero, Nat.mul_one]

end Tree

theorem length_scratchPlaces (tpb : Nat) : (scratchPlaces tpb).length = tpb := by
  simp [scratchPlaces]

section Places

/-- The union of multisets as a monoid -/
@[reducible] def placesMonoid : CommMonoid (Multiset Nat) :=
  (collectPlaces_lawful (α := Unit)).commMonoid

attribute [local instance] placesMonoid

theorem collectPlaces_multiplies : (collectPlaces Unit).Multiplies := ⟨rfl, fun _ _ => rfl⟩

theorem valueAt_scratchPlaces {tpb j : Nat} (hj : j < tpb) :
    valueAt (scratchPlaces tpb) j = {j} := by
  rw [valueAt, List.getD_eq_getElem _ _ (by rwa [length_scratchPlaces])]
  simp [scratchPlaces]

theorem prod_places (n : Nat) : ∏ j ∈ range n, ({j} : Multiset Nat) = Multiset.range n := by
  induction n with
  | zero => rfl
  | succ n ih =>
      rw [prod_range_succ, ih, Multiset.range_succ, ← Multiset.singleton_add, Multiset.add_comm]
      rfl

/-- A power of two of threads whose size is a `uint` is halved down to one. -/
theorem combinesOnce_two_pow {k : Nat} (hk : k ≤ 31) : CombinesOnce (2 ^ k) := by
  have hlength := length_scratchPlaces (2 ^ k)
  have hwide : 2 ^ k ≤ 2147483648 := Nat.pow_le_pow_right Nat.two_pos hk
  have huint : uint (2 ^ k) = 2 ^ k := uint_of_lt (by omega)
  rw [CombinesOnce, reduceScratch, huint]
  cases k with
  | zero =>
      refine ⟨scratchPlaces 1, ?_, rfl⟩
      show reduceScratchFrom (collectPlaces Unit) 1 0 (scratchPlaces 1) = _
      rw [reduceScratchFrom, dif_neg (by decide)]
      rfl
  | succ m =>
      have hhalf : 2 ^ (m + 1) / 2 = 2 ^ m := by
        rw [Nat.pow_succ, Nat.mul_div_cancel _ Nat.two_pos]
      have hdouble : 2 * 2 ^ m = 2 ^ (m + 1) := by rw [Nat.pow_succ, Nat.mul_comm]
      -- The strides start at one half of the threads, and reach all of them.
      obtain ⟨next, hrun, hlength', hvalue⟩ := reduceScratchFrom_run collectPlaces_multiplies m
        (show 2 * 2 ^ m ≤ (scratchPlaces (2 ^ (m + 1))).length by omega) (by omega)
      rw [hlength] at hrun
      refine ⟨next, by rw [hhalf, hrun], ?_⟩
      have hpos : 0 < next.length := by
        have htwo := Nat.two_pow_pos (m + 1)
        omega
      rw [load_of_lt hpos, hvalue, hdouble, ← prod_places]
      refine congrArg Except.ok (prod_congr rfl fun j hj => ?_)
      exact valueAt_scratchPlaces (mem_range.1 hj)

/-- Whatever the number of threads, a power of two of the entries is combined. -/
theorem two_pow_of_combinesOnce {tpb : Nat} (hpos : 0 < tpb) (h : CombinesOnce tpb) :
    ∃ k, k ≤ 31 ∧ tpb = 2 ^ k := by
  obtain ⟨scratch, hrun, hload⟩ := h
  have hlength := length_scratchPlaces tpb
  have huint : uint tpb ≤ tpb := Nat.mod_le _ _
  have huint' : uint tpb < 4294967296 := Nat.mod_lt _ (by decide)
  have hcount : ∀ j, j < max 1 (2 * (uint tpb / 2)) →
      Multiset.card (valueAt (scratchPlaces tpb) j) = 1 := by
    intro j hj
    rw [valueAt_scratchPlaces (by omega), Multiset.card_singleton]
  -- Each stride doubles the number of places that were combined, from one on.
  obtain ⟨next, m, hnext, hlength', hm⟩ := reduceScratchFrom_size collectPlaces_multiplies
    Multiset.card Multiset.card_add (uint tpb / 2)
    (show 2 * (uint tpb / 2) ≤ (scratchPlaces tpb).length by omega) (by omega) hcount
  rw [hlength] at hnext
  cases hnext.symm.trans hrun
  rw [load_of_lt (by omega), Except.ok.injEq] at hload
  rw [hload, Multiset.card_range, Nat.one_mul] at hm
  refine ⟨m, ?_, hm⟩
  by_contra hbig
  -- that many threads are none as a `uint`
  have hzero : uint tpb = 0 := by
    obtain ⟨d, rfl⟩ := Nat.exists_eq_add_of_le (show 32 ≤ m by omega)
    rw [uint, hm, Nat.pow_add]
    exact Nat.mul_mod_right _ _
  rw [hzero, reduceScratch, reduceScratchFrom, dif_neg (by decide)] at hrun
  cases hrun
  rw [valueAt_scratchPlaces hpos] at hload
  have hcard := congrArg Multiset.card hload
  rw [Multiset.card_singleton, Multiset.card_range] at hcard
  have htwo : 2 ^ 1 ≤ 2 ^ m := Nat.pow_le_pow_right Nat.two_pos (by omega)
  omega

end Places

theorem combinesOnce_iff {tpb : Nat} (hpos : 0 < tpb) :
    CombinesOnce tpb ↔ ∃ k, k ≤ 31 ∧ tpb = 2 ^ k := by
  constructor
  · exact two_pow_of_combinesOnce hpos
  · rintro ⟨k, hk, rfl⟩
    exact combinesOnce_two_pow hk

/-! ## The passes -/

/-- The workgroup of a pass stays a power of two of at least two threads, that the values fill. -/
theorem passWorkgroupSize_two_pow {n k : Nat} (hk : k < 31) (hn : 1 < n) :
    ∃ k', k' < 31 ∧ 2 ^ (k' + 1) ≤ n ∧ passWorkgroupSize n (2 ^ (k + 1)) = 2 ^ (k' + 1) := by
  by_cases hlt : n < 2 ^ (k + 1)
  · have hwide : 2 ^ (k + 1) ≤ 2147483648 :=
      Nat.pow_le_pow_right Nat.two_pos (by omega : k + 1 ≤ 31)
    exact passWorkgroup hk hn (by omega)
  · exact ⟨k, hk, not_lt.1 hlt, if_neg hlt⟩

section TwoPow

variable {k size n w : Nat}

theorem AtLoop.two_pow (hk : k < 31) (h : AtLoop (2 ^ (k + 1)) size n w) :
    ∃ k', k' < 31 ∧ w = 2 ^ (k' + 1) := by
  induction h with
  | initial => exact ⟨k, hk, rfl⟩
  | pass h hn ih =>
      obtain ⟨k₁, hk₁, rfl⟩ := ih
      obtain ⟨k₂, hk₂, -, hw⟩ := passWorkgroupSize_two_pow hk₁ hn
      exact ⟨k₂, hk₂, hw⟩

/-- A pass of two threads or more in a workgroup leaves fewer values. -/
theorem AtLoop.decreases (hk : k < 31) (h : AtLoop (2 ^ (k + 1)) size n w) (hn : n > 1) :
    n / passWorkgroupSize n w < n := by
  obtain ⟨k₁, hk₁, rfl⟩ := h.two_pow hk
  obtain ⟨k₂, -, -, hw⟩ := passWorkgroupSize_two_pow hk₁ hn
  rw [hw]
  apply Nat.div_lt_self (by omega)
  exact Nat.one_lt_two_pow (Nat.succ_ne_zero k₂)

/-- From everywhere in the loop its end is reached. -/
theorem AtLoop.ends (hk : k < 31) (n : Nat) {w : Nat} (h : AtLoop (2 ^ (k + 1)) size n w) :
    ∃ n' w', AtLoop (2 ^ (k + 1)) size n' w' ∧ ¬ n' > 1 := by
  induction n using Nat.strong_induction_on generalizing w with
  | _ n ih =>
      by_cases hn : n > 1
      · exact ih _ (h.decreases hk hn) (h.pass hn)
      · exact ⟨n, w, h, hn⟩

theorem soundSchedule_two_pow (hk : k < 31) (size : Nat) :
    SoundSchedule (2 ^ (k + 1)) size := by
  constructor
  case initial => exact combinesOnce_two_pow (by omega)
  case combines =>
    intro n w h hn
    obtain ⟨k₁, hk₁, rfl⟩ := h.two_pow hk
    obtain ⟨k₂, hk₂, -, hw⟩ := passWorkgroupSize_two_pow hk₁ hn
    rw [hw]
    exact combinesOnce_two_pow (by omega)
  case decreases => exact fun n w h hn => h.decreases hk hn
  case ends => exact AtLoop.ends hk _ .initial

end TwoPow

/-- With one thread in a workgroup there is a pass only for two values or more. -/
theorem AtLoop.le_one {size n w : Nat} (hsize : size ≤ 1) (h : AtLoop 1 size n w) : n ≤ 1 := by
  induction h with
  | initial =>
      rw [initialWorkgroups, Nat.div_one]
      split_ifs
      · exact le_rfl
      · exact hsize
  | pass h hn ih => exact absurd ih (not_le.2 hn)

theorem soundSchedule_one {size : Nat} (hsize : size ≤ 1) : SoundSchedule 1 size := by
  constructor
  case initial => exact combinesOnce_two_pow (Nat.zero_le 31)
  case combines => exact fun n w h hn => absurd (h.le_one hsize) (not_le.2 hn)
  case decreases => exact fun n w h hn => absurd (h.le_one hsize) (not_le.2 hn)
  case ends => exact ⟨_, _, .initial, not_lt.2 (AtLoop.initial.le_one hsize)⟩

/-- That pass leaves as many values as it finds. -/
theorem size_le_of_soundSchedule_one {size : Nat} (h : SoundSchedule 1 size) : size ≤ 1 := by
  by_contra hsize
  have hinitial : initialWorkgroups size 1 = size := by
    rw [initialWorkgroups, Nat.div_one, if_neg (by omega)]
  have hloop : AtLoop 1 size (initialWorkgroups size 1) 1 := .initial
  rw [hinitial] at hloop
  have hless := h.decreases size 1 hloop (by omega)
  rw [passWorkgroupSize, if_neg (by omega), Nat.div_one] at hless
  exact Nat.lt_irrefl _ hless

/-- The schedule is sound exactly when the elements that fit in local memory, up to the threads that the
device allows, are a power of two from two to 2^31, or one with at most one input. -/
theorem soundSchedule_iff (localMemSize sizeofOutputType maxWorkgroupSize size : Nat)
    (hmax : 1 ≤ maxWorkgroupSize) (hsizeof : 1 ≤ sizeofOutputType)
    (hlocal : sizeofOutputType ≤ localMemSize) :
    SoundSchedule (effectiveWorkgroupSize localMemSize sizeofOutputType maxWorkgroupSize) size ↔
      (∃ k, 1 ≤ k ∧ k ≤ 31 ∧ min (localMemSize / sizeofOutputType) maxWorkgroupSize = 2 ^ k) ∨
      min (localMemSize / sizeofOutputType) maxWorkgroupSize = 1 ∧ size ≤ 1 := by
  have heffective : effectiveWorkgroupSize localMemSize sizeofOutputType maxWorkgroupSize =
      min (localMemSize / sizeofOutputType) maxWorkgroupSize := by
    rw [effectiveWorkgroupSize, scratchSize, min_assoc, min_self]
  have hpos : 0 < min (localMemSize / sizeofOutputType) maxWorkgroupSize := by
    have hfits : 0 < localMemSize / sizeofOutputType := Nat.div_pos hlocal hsizeof
    omega
  rw [heffective]
  generalize min (localMemSize / sizeofOutputType) maxWorkgroupSize = w at *
  constructor
  · intro h
    -- One thread combines its place with none, so that the passes do not get smaller.
    obtain ⟨k, hk, rfl⟩ := (combinesOnce_iff hpos).1 h.initial
    cases k with
    | zero => exact Or.inr ⟨rfl, size_le_of_soundSchedule_one h⟩
    | succ k => exact Or.inl ⟨k + 1, by omega, hk, rfl⟩
  · rintro (⟨k, hk₁, hk₂, rfl⟩ | ⟨rfl, hsize⟩)
    · obtain ⟨k, rfl⟩ := Nat.exists_eq_add_of_le' hk₁
      exact soundSchedule_two_pow (by omega) size
    · exact soundSchedule_one hsize

/-- Local memory for 512 elements of eight bytes, on a device that allows 256 threads. -/
theorem soundSchedule_power : SoundSchedule (effectiveWorkgroupSize 4096 8 256) 1000000 :=
  (soundSchedule_iff 4096 8 256 1000000 (by decide) (by decide) (by decide)).2
    (Or.inl ⟨8, by decide, by decide, by decide⟩)

/-- Local memory for three elements only: the third entry of the scratch buffer is lost. And for one
element: two values stay two values. -/
theorem unsoundSchedule_small :
    (effectiveWorkgroupSize 24 8 256 = 3 ∧
      (∃ scratch, reduceScratch (collectPlaces Unit) 3 3 (scratchPlaces 3) = .ok scratch ∧
        load scratch 0 = .ok {0, 1}) ∧ ¬ SoundSchedule (effectiveWorkgroupSize 24 8 256) 3) ∧
      effectiveWorkgroupSize 8 8 256 = 1 ∧ AtLoop 1 2 2 1 ∧ passWorkgroupSize 2 1 = 1 ∧
        2 / passWorkgroupSize 2 1 = 2 ∧ ¬ SoundSchedule (effectiveWorkgroupSize 8 8 256) 2 := by
  have hthree : effectiveWorkgroupSize 24 8 256 = 3 := by decide
  have hone : effectiveWorkgroupSize 8 8 256 = 1 := by decide
  have hhalved : halveScratch (collectPlaces Unit) 3 1 (scratchPlaces 3) =
      .ok [{0} + {1}, {1}, {2}] := rfl
  refine ⟨⟨hthree, ⟨[{0} + {1}, {1}, {2}], ?_, rfl⟩, ?_⟩, hone, .initial, by decide, by decide, ?_⟩
  · rw [reduceScratch, reduceScratchFrom, dif_pos (by decide)]
    show (halveScratch (collectPlaces Unit) 3 1 (scratchPlaces 3) >>= _) = _
    rw [hhalved]
    show reduceScratchFrom (collectPlaces Unit) 3 0 _ = _
    rw [reduceScratchFrom, dif_neg (by decide)]
    rfl
  · rw [hthree]
    intro h
    obtain ⟨k, -, hk⟩ := two_pow_of_combinesOnce (by decide) h.initial
    -- three is not a power of two
    cases k with
    | zero => exact absurd hk (by decide)
    | succ m =>
        rw [Nat.pow_succ] at hk
        omega
  · rw [hone]
    intro h
    exact absurd (size_le_of_soundSchedule_one h) (by decide)

end JayBeams.OpenCL
