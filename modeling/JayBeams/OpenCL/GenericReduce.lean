import JayBeams.Common
import JayBeams.P2Ceil
import JayBeams.Library.ParallelReduction
import Mathlib.Data.List.GetD

/-!
# The generic reduction

`execute` reduces a vector on a device in passes. In a pass the threads of each workgroup combine the
values that fall to them into a scratch buffer, the workgroup halves the scratch buffer until one
value is left, and that value goes into an output buffer, from which the next pass reads.

Buffers are lists whose bounds are checked, and start with whatever is in the memory of the device.
The threads of a workgroup run in lock-step between barriers: what a thread reads of the scratch
buffer was written before the last barrier.

`Holds` is the invariant of the passes: the values at the start of a buffer have the product of all
inputs. A pass keeps it (`reducePass_run`), and the passes end with one value (`execute_run`).
-/

set_option autoImplicit false

universe u v

namespace JayBeams.OpenCL

open Finset ParallelReduction

/-! ## The device -/

/-- Conversion to `uint` -/
def uint (x : Nat) : Nat := x % 4294967296

/-- Conversion to `ulong` -/
def ulong (x : Nat) : Nat := x % 18446744073709551616

/-- Read an element of a buffer. -/
def load {γ : Type u} (buf : List γ) (i : Nat) : Except Failure γ :=
  match buf[i]? with
  | some x => .ok x
  | none => .error (.outOfRange i buf.length)

/-- Write an element of a buffer. -/
def store {γ : Type u} (buf : List γ) (i : Nat) (x : γ) : Except Failure (List γ) :=
  if i < buf.length then .ok (buf.set i x) else .error (.outOfRange i buf.length)

/-- A new buffer holds what is in memory. -/
def allocate {γ : Type u} (memory : Nat → γ) (n : Nat) : List γ := (List.range n).map memory

/-- The functions that a reducer supplies, as values of their results -/
structure Reducer (α : Type u) (β : Type v) where
  reduceInitialize : β
  reduceTransform : α → Nat → β
  reduceCombine : β → β → β

section Kernels

variable {α β : Type} (r : Reducer α β) (memory : Nat → β)

/-- One iteration of the loop of `reduce_scratch`, for all threads of a workgroup -/
def halveScratch (threads i : Nat) (scratch : List β) : Except Failure (List β) :=
  (List.range threads).foldlM (fun next t => do
    let lid := uint t
    if lid < i then
      let tmp ← load scratch (lid + i)
      let acc ← load scratch lid
      store next lid (r.reduceCombine acc tmp)
    else return next) scratch

/-- The loop of `reduce_scratch` from an index on -/
def reduceScratchFrom (threads i : Nat) (scratch : List β) : Except Failure (List β) :=
  if h : 1 ≤ i then do
    let scratch ← halveScratch r threads i scratch
    reduceScratchFrom threads (i / 2) scratch
  else return scratch
termination_by i
decreasing_by omega

/-- `reduce_scratch` -/
def reduceScratch (threads size : Nat) (scratch : List β) : Except Failure (List β) :=
  reduceScratchFrom r threads (size / 2) scratch

/-- What one workgroup does in both kernels, with the body of the loop of its threads. `VPT` and `TPB`
are the values per thread and the threads in the workgroup. -/
def reduceGroup (vpt tpb group : Nat) (body : (lid : Nat) → β → (i : Nat) → Except Failure β)
    (dst : List β) : Except Failure (List β) := do
  let scratch ← (List.range tpb).foldlM (fun scratch t => do
    let lid := uint t
    let p ← (List.range vpt).foldlM (body lid) r.reduceInitialize
    store scratch lid p) (allocate memory tpb)
  let scratch ← reduceScratch r tpb (uint tpb) scratch
  let result ← load scratch 0
  store dst group result

/-- The body of the loop of `generic_transform_reduce_initial` -/
def takeInput (n : Nat) (src : List α) (globalSize offset lid : Nat) (p : β) (i : Nat) :
    Except Failure β := do
  let loc := ulong (uint (offset + lid) + ulong (uint i * globalSize))
  if loc < n then
    let val ← load src loc
    return r.reduceCombine p (r.reduceTransform val loc)
  else return p

/-- `generic_transform_reduce_initial`, for all workgroups -/
def genericTransformReduceInitial (groups vpt tpb n : Nat) (src : List α) (dst : List β) :
    Except Failure (List β) :=
  (List.range groups).foldlM (fun dst group =>
    let offset := uint (ulong (group * tpb))
    reduceGroup r memory vpt tpb group (takeInput r n src (groups * tpb) offset) dst) dst

/-- The body of the loop of `generic_transform_reduce_intermediate`, where the location is a `uint` -/
def takeValue (n : Nat) (src : List β) (globalSize offset lid : Nat) (p : β) (i : Nat) :
    Except Failure β := do
  let loc := uint (ulong (uint (offset + lid) + ulong (uint i * globalSize)))
  if loc < n then
    let tmp ← load src loc
    return r.reduceCombine p tmp
  else return p

/-- `generic_transform_reduce_intermediate`, for all workgroups -/
def genericTransformReduceIntermediate (groups vpt tpb n : Nat) (src dst : List β) :
    Except Failure (List β) :=
  (List.range groups).foldlM (fun dst group =>
    let offset := uint (ulong (group * tpb))
    reduceGroup r memory vpt tpb group (takeValue r n src (groups * tpb) offset) dst) dst

/-! ## The host -/

/-- `VPT`: the number of values for each thread, rounded up -/
def valuesPerThread (size threads : Nat) : Nat :=
  size / threads + if size % threads ≠ 0 then 1 else 0

/-- The loop of `execute`; the result is the buffer that `ping_` ends with. An iteration leaves fewer
values than it finds, so as many iterations as there are values are enough. -/
def runPasses : (fuel passOutputSize workgroupSize : Nat) → (ping pong : List β) →
    Except Failure (List β)
  | 0, passOutputSize, _, ping, _ => if passOutputSize > 1 then .error .outOfFuel else .ok ping
  | fuel + 1, passOutputSize, workgroupSize, ping, pong =>
    if passOutputSize > 1 then do
      let workgroupSize :=
        if passOutputSize < workgroupSize then (p2ceil (UInt64.ofNat passOutputSize)).toNat / 2
        else workgroupSize
      let workgroups := passOutputSize / workgroupSize
      if ¬ workgroups > 0 then throw (.assertion "workgroups > 0")
      let vpt := valuesPerThread passOutputSize (workgroups * workgroupSize)
      let pong ← genericTransformReduceIntermediate r memory workgroups vpt workgroupSize
        passOutputSize ping pong
      runPasses fuel workgroups workgroupSize pong ping
    else .ok ping

/-- `execute`, for an effective workgroup size and a vector; the result is the value that the future
points to. -/
def execute (effectiveWorkgroupSize : Nat) (input : List α) : Except Failure β := do
  let size := input.length
  let workgroupSize := effectiveWorkgroupSize
  let workgroups := if size / workgroupSize = 0 then 1 else size / workgroupSize
  let ping := allocate memory workgroups
  let pong := allocate memory workgroups
  let vpt := valuesPerThread size (workgroups * workgroupSize)
  let ping ← genericTransformReduceInitial r memory workgroups vpt workgroupSize size input ping
  let ping ← runPasses r memory workgroups workgroups workgroupSize ping pong
  load ping 0

/-- The values of the input combined one after the other -/
def sequentialFold (input : List α) : β :=
  input.zipIdx.foldl (fun acc x => r.reduceCombine acc (r.reduceTransform x.1 x.2)) r.reduceInitialize

end Kernels

/-! ## Buffers and conversions -/

theorem uint_of_lt {x : Nat} (h : x < 4294967296) : uint x = x := Nat.mod_eq_of_lt h

theorem ulong_of_lt {x : Nat} (h : x < 18446744073709551616) : ulong x = x := Nat.mod_eq_of_lt h

theorem uint_ulong (x : Nat) : uint (ulong x) = uint x :=
  Nat.mod_mod_of_dvd x (by decide)

theorem store_of_lt {γ : Type u} {buf : List γ} {i : Nat} (h : i < buf.length) (x : γ) :
    store buf i x = .ok (buf.set i x) := if_pos h

@[simp] theorem length_allocate {γ : Type u} (memory : Nat → γ) (n : Nat) :
    (allocate memory n).length = n := by simp [allocate]

section Reduction

variable {α M : Type} [CommMonoid M]

/-- The value at a place of a buffer -/
def valueAt (buf : List M) (i : Nat) : M := buf.getD i 1

theorem load_of_lt {buf : List M} {i : Nat} (h : i < buf.length) :
    load buf i = .ok (valueAt buf i) := by
  rw [load, valueAt, List.getElem?_eq_getElem h, List.getD_eq_getElem _ _ h]

theorem valueAt_set_self {buf : List M} {i : Nat} (h : i < buf.length) (x : M) :
    valueAt (buf.set i x) i = x := by
  rw [valueAt, List.getD_eq_getElem?_getD, List.getElem?_set_self h, Option.getD_some]

theorem valueAt_set_ne {buf : List M} {i j : Nat} (h : i ≠ j) (x : M) :
    valueAt (buf.set i x) j = valueAt buf j := by
  rw [valueAt, valueAt, List.getD_eq_getElem?_getD, List.getElem?_set_ne h,
    List.getD_eq_getElem?_getD]

/-- The reducer combines by the multiplication of a commutative monoid. -/
structure Reducer.Multiplies (r : Reducer α M) : Prop where
  one : r.reduceInitialize = 1
  mul : ∀ a b, r.reduceCombine a b = a * b

variable {r : Reducer α M} (memory : Nat → M)

/-! ## A workgroup -/

/-- A halving leaves in each place of the first half the product with its partner. After `t` threads
the places before `t` have theirs: a thread writes its own place, and none outside the first half.
Threads beyond the range of a `uint` repeat what an earlier thread does. -/
theorem halveScratch_run (hr : r.Multiplies) {i : Nat} {scratch : List M}
    (hi : 2 * i ≤ scratch.length) (hsmall : i ≤ 4294967296) :
    ∃ next, halveScratch r scratch.length i scratch = .ok next ∧ next.length = scratch.length ∧
      ∀ j, j < i → valueAt next j = valueAt scratch j * valueAt scratch (j + i) := by
  have hinit : scratch.length = scratch.length ∧ ∀ j, j < i → j < 0 →
      valueAt scratch j = valueAt scratch j * valueAt scratch (j + i) :=
    ⟨rfl, fun j _ hj => absurd hj (Nat.not_lt_zero j)⟩
  obtain ⟨next, hrun, hlength, hvalue⟩ : ∃ next, halveScratch r scratch.length i scratch = .ok next ∧
      next.length = scratch.length ∧ ∀ j, j < i → j < scratch.length →
        valueAt next j = valueAt scratch j * valueAt scratch (j + i) := by
    apply foldlM_range (fun t (next : List M) => next.length = scratch.length ∧ ∀ j, j < i → j < t →
      valueAt next j = valueAt scratch j * valueAt scratch (j + i)) hinit
    rintro t ht next ⟨hlength, hvalue⟩
    have hself : t < i → uint t = t := fun hti => uint_of_lt (by omega)
    by_cases hlid : uint t < i
    · refine ⟨next.set (uint t) (valueAt scratch (uint t) * valueAt scratch (uint t + i)), ?_, ?_,
        ?_⟩
      · simp only [if_pos hlid, load_of_lt (show uint t + i < scratch.length by omega),
          load_of_lt (show uint t < scratch.length by omega), bind, Except.bind, hr.mul]
        exact store_of_lt (by omega) _
      · rw [List.length_set, hlength]
      · intro j hj hjt
        by_cases hwritten : uint t = j
        · rw [hwritten]
          exact valueAt_set_self (by omega) _
        · have hne : j ≠ t := by
            rintro rfl
            exact hwritten (hself hj)
          rw [valueAt_set_ne hwritten, hvalue j hj (by omega)]
    · refine ⟨next, ?_, hlength, fun j hj hjt => hvalue j hj ?_⟩
      · simp only [if_neg hlid]
        rfl
      · rcases Nat.lt_succ_iff_lt_or_eq.1 hjt with hlt | rfl
        · exact hlt
        · exact absurd hj (hself hj ▸ hlid)
  exact ⟨next, hrun, hlength, fun j hj => hvalue j hj (by omega)⟩

/-- The tree leaves the product of twice as many values as it starts with threads. A halving leaves
half as many values with the same product, and the last one is at distance one. -/
theorem reduceScratchFrom_run (hr : r.Multiplies) (k : Nat) {scratch : List M}
    (hk : 2 * 2 ^ k ≤ scratch.length) (hlen : scratch.length ≤ 4294967296) :
    ∃ next, reduceScratchFrom r scratch.length (2 ^ k) scratch = .ok next ∧
      next.length = scratch.length ∧
      valueAt next 0 = ∏ j ∈ range (2 * 2 ^ k), valueAt scratch j := by
  induction k generalizing scratch with
  | zero =>
      obtain ⟨next, hrun, hlength, hvalue⟩ := halveScratch_run hr hk (by omega)
      refine ⟨next, ?_, hlength, ?_⟩
      · rw [reduceScratchFrom, dif_pos Nat.one_le_two_pow, hrun]
        change reduceScratchFrom r scratch.length (1 / 2) next = .ok next
        rw [reduceScratchFrom, dif_neg (by decide)]
        rfl
      · rw [hvalue 0 Nat.one_pos, ← prod_halved, Nat.pow_zero, prod_range_one]
  | succ k ih =>
      obtain ⟨next, hrun, hlength, hvalue⟩ := halveScratch_run hr hk (by omega)
      have hhalf : 2 ^ (k + 1) / 2 = 2 ^ k := by rw [Nat.pow_succ, Nat.mul_div_cancel _ Nat.two_pos]
      have hdouble : 2 * 2 ^ k = 2 ^ (k + 1) := by rw [Nat.pow_succ, Nat.mul_comm]
      obtain ⟨last, hlast, hlength', hvalue'⟩ := ih (show 2 * 2 ^ k ≤ next.length by omega)
        (by omega)
      refine ⟨last, ?_, hlength'.trans hlength, ?_⟩
      · rw [reduceScratchFrom, dif_pos Nat.one_le_two_pow, hrun, hhalf]
        rwa [hlength] at hlast
      · rw [hvalue', hdouble, ← prod_halved]
        apply prod_congr rfl
        intro j hj
        exact hvalue j (mem_range.1 hj)

/-- The threads of a workgroup leave their products in the scratch buffer. Each starts from the
identity and multiplies what it takes. -/
theorem accumulate_run (hr : r.Multiplies) {vpt tpb : Nat}
    {body : Nat → M → Nat → Except Failure M} {F : Nat → Nat → M} (htpb : tpb ≤ 4294967296)
    (hbody : ∀ lid, lid < tpb → ∀ i, i < vpt → ∀ p, body lid p i = .ok (p * F lid i)) :
    ∃ scratch, (List.range tpb).foldlM (fun scratch t => do
        let lid := uint t
        let p ← (List.range vpt).foldlM (body lid) r.reduceInitialize
        store scratch lid p) (allocate memory tpb) = .ok scratch ∧ scratch.length = tpb ∧
      ∀ j, j < tpb → valueAt scratch j = ∏ i ∈ range vpt, F j i := by
  have hinit : (allocate memory tpb).length = tpb ∧
      ∀ j, j < 0 → valueAt (allocate memory tpb) j = ∏ i ∈ range vpt, F j i :=
    ⟨length_allocate memory tpb, fun j hj => absurd hj (Nat.not_lt_zero j)⟩
  apply foldlM_range (fun t (scratch : List M) => scratch.length = tpb ∧
    ∀ j, j < t → valueAt scratch j = ∏ i ∈ range vpt, F j i) hinit
  rintro t ht scratch ⟨hlength, hvalue⟩
  have hlid : uint t = t := uint_of_lt (by omega)
  have hproduct : (List.range vpt).foldlM (body t) r.reduceInitialize =
      .ok (∏ i ∈ range vpt, F t i) := by
    rw [foldlM_range_mul _ (hbody t ht), hr.one, one_mul]
  refine ⟨scratch.set t (∏ i ∈ range vpt, F t i), ?_, ?_, ?_⟩
  · simp only [hlid, hproduct, bind, Except.bind]
    exact store_of_lt (by omega) _
  · rw [List.length_set, hlength]
  · intro j hj
    rcases Nat.lt_succ_iff_lt_or_eq.1 hj with hlt | rfl
    · rw [valueAt_set_ne (by omega), hvalue j hlt]
    · exact valueAt_set_self (by omega) _

/-- A workgroup writes the product of all that its threads take, which ends in the first place of the
scratch buffer. -/
theorem reduceGroup_run (hr : r.Multiplies) {vpt k group : Nat} (hk : k < 31)
    {body : Nat → M → Nat → Except Failure M} {F : Nat → Nat → M} {dst : List M}
    (hgroup : group < dst.length)
    (hbody : ∀ lid, lid < 2 ^ (k + 1) → ∀ i, i < vpt → ∀ p, body lid p i = .ok (p * F lid i)) :
    reduceGroup r memory vpt (2 ^ (k + 1)) group body dst =
      .ok (dst.set group (∏ l ∈ range (2 ^ (k + 1)), ∏ i ∈ range vpt, F l i)) := by
  have hlt : 2 ^ (k + 1) < 4294967296 :=
    Nat.lt_of_le_of_lt (Nat.pow_le_pow_right Nat.two_pos (by omega)) (by decide : 2 ^ 31 < 4294967296)
  have hhalf : 2 ^ (k + 1) / 2 = 2 ^ k := by rw [Nat.pow_succ, Nat.mul_div_cancel _ Nat.two_pos]
  have hdouble : 2 * 2 ^ k = 2 ^ (k + 1) := by rw [Nat.pow_succ, Nat.mul_comm]
  obtain ⟨scratch, hrun, hlength, hvalue⟩ := accumulate_run memory hr hlt.le hbody
  obtain ⟨last, hlast, hlength', hproduct⟩ := reduceScratchFrom_run hr k
    (show 2 * 2 ^ k ≤ scratch.length by omega) (by omega)
  rw [hlength] at hlast hlength'
  have hpos : 0 < last.length := by rw [hlength']; exact Nat.two_pow_pos _
  have hall : valueAt last 0 = ∏ l ∈ range (2 ^ (k + 1)), ∏ i ∈ range vpt, F l i := by
    rw [hproduct, hdouble]
    apply prod_congr rfl
    intro j hj
    exact hvalue j (mem_range.1 hj)
  rw [reduceGroup, hrun]
  simp only [bind, Except.bind, reduceScratch, uint_of_lt hlt, hhalf, hlast, load_of_lt hpos, hall]
  exact store_of_lt hgroup _

/-! ## A pass -/

/-- The place of a thread among those of all workgroups. -/
theorem thread_lt {groups tpb group lid : Nat} (hgroup : group < groups) (hlid : lid < tpb) :
    group * tpb + lid < groups * tpb := by
  calc group * tpb + lid < group * tpb + tpb := Nat.add_lt_add_left hlid _
    _ = (group + 1) * tpb := (Nat.succ_mul _ _).symm
    _ ≤ groups * tpb := Nat.mul_le_mul_right tpb hgroup

/-- Where the conversions of the kernels do not cut anything off, a location is what it should be. -/
theorem location_eq {groups tpb vpt group lid i : Nat} (hthreads : groups * tpb ≤ 4294967296)
    (hvpt : vpt ≤ 4294967296) (htotal : vpt * (groups * tpb) ≤ 9223372036854775808)
    (hgroup : group < groups) (hlid : lid < tpb) (hi : i < vpt) :
    uint (uint (ulong (group * tpb)) + lid) + ulong (uint i * (groups * tpb)) =
        group * tpb + lid + i * (groups * tpb) ∧
      group * tpb + lid + i * (groups * tpb) < vpt * (groups * tpb) := by
  have hthread := thread_lt hgroup hlid
  have hstride := thread_lt hi hthread
  have hle : i * (groups * tpb) ≤ vpt * (groups * tpb) := Nat.mul_le_mul_right _ hi.le
  rw [uint_ulong, uint_of_lt (show group * tpb < 4294967296 by omega), uint_of_lt (by omega),
    uint_of_lt (show i < 4294967296 by omega), ulong_of_lt (by omega)]
  exact ⟨rfl, by omega⟩

/-- When each workgroup writes its product, the products of all workgroups are that of all values that
their threads take. -/
theorem groups_run {groups tpb vpt n : Nat} {x : Nat → M}
    {run : List M → Nat → Except Failure (List M)} {dst : List M} (hgroups : groups ≤ dst.length)
    (hall : n ≤ vpt * (groups * tpb))
    (hrun : ∀ g, g < groups → ∀ dst' : List M, dst'.length = dst.length → run dst' g =
      .ok (dst'.set g (∏ l ∈ range tpb, ∏ i ∈ range vpt,
        if g * tpb + l + i * (groups * tpb) < n then x (g * tpb + l + i * (groups * tpb)) else 1))) :
    ∃ dst', (List.range groups).foldlM run dst = .ok dst' ∧ dst'.length = dst.length ∧
      ∏ g ∈ range groups, valueAt dst' g = ∏ j ∈ range n, x j := by
  have hinit : dst.length = dst.length ∧ ∀ g, g < 0 → valueAt dst g =
      ∏ l ∈ range tpb, ∏ i ∈ range vpt,
        if g * tpb + l + i * (groups * tpb) < n then x (g * tpb + l + i * (groups * tpb)) else 1 :=
    ⟨rfl, fun g hg => absurd hg (Nat.not_lt_zero g)⟩
  have hloop := foldlM_range (fun t (dst' : List M) => dst'.length = dst.length ∧
    ∀ g, g < t → valueAt dst' g = ∏ l ∈ range tpb, ∏ i ∈ range vpt,
      if g * tpb + l + i * (groups * tpb) < n then x (g * tpb + l + i * (groups * tpb)) else 1) hinit
    fun t ht dst' hdst => by
      obtain ⟨hlength, hvalue⟩ := hdst
      refine ⟨_, hrun t ht dst' hlength, by rw [List.length_set, hlength], ?_⟩
      intro g hg
      rcases Nat.lt_succ_iff_lt_or_eq.1 hg with hlt | rfl
      · rw [valueAt_set_ne (by omega), hvalue g hlt]
      · exact valueAt_set_self (by omega) _
  obtain ⟨dst', hfold, hlength, hvalue⟩ := hloop
  refine ⟨dst', hfold, hlength, ?_⟩
  calc ∏ g ∈ range groups, valueAt dst' g
      = ∏ g ∈ range groups, ∏ l ∈ range tpb, ∏ i ∈ range vpt,
          if g * tpb + l + i * (groups * tpb) < n then x (g * tpb + l + i * (groups * tpb)) else 1 :=
        prod_congr rfl fun g hg => hvalue g (mem_range.1 hg)
    _ = ∏ j ∈ range (vpt * (groups * tpb)), if j < n then x j else 1 :=
        prod_strided (fun j => if j < n then x j else 1) groups tpb vpt
    _ = ∏ j ∈ range n, x j := prod_padded x hall

/-- The value of an input at its place -/
def inputAt (r : Reducer α M) (input : List α) (i : Nat) : M :=
  (input[i]?.map (r.reduceTransform · i)).getD 1

/-- A thread of the initial kernel takes the input at its location, if there is one. -/
theorem takeInput_run (hr : r.Multiplies) {groups tpb vpt group lid i : Nat} {src : List α}
    (hthreads : groups * tpb ≤ 4294967296) (hvpt : vpt ≤ 4294967296)
    (htotal : vpt * (groups * tpb) ≤ 9223372036854775808) (hgroup : group < groups)
    (hlid : lid < tpb) (hi : i < vpt) (p : M) :
    takeInput r src.length src (groups * tpb) (uint (ulong (group * tpb))) lid p i =
      .ok (p * if group * tpb + lid + i * (groups * tpb) < src.length then
        inputAt r src (group * tpb + lid + i * (groups * tpb)) else 1) := by
  obtain ⟨hloc, hlt⟩ := location_eq hthreads hvpt htotal hgroup hlid hi
  have hulong : ulong (group * tpb + lid + i * (groups * tpb)) =
      group * tpb + lid + i * (groups * tpb) := ulong_of_lt (by omega)
  simp only [takeInput, hloc, hulong]
  by_cases hin : group * tpb + lid + i * (groups * tpb) < src.length
  · rw [if_pos hin, if_pos hin, load, List.getElem?_eq_getElem hin, inputAt,
      List.getElem?_eq_getElem hin]
    exact congrArg Except.ok (hr.mul _ _)
  · rw [if_neg hin, if_neg hin, mul_one]
    rfl

/-- A thread of the intermediate kernel takes the value at its location, if there is one. -/
theorem takeValue_run (hr : r.Multiplies) {groups tpb vpt group lid i n : Nat} {src : List M}
    (htotal : vpt * (groups * tpb) ≤ 4294967296) (hgroup : group < groups) (hlid : lid < tpb)
    (hi : i < vpt) (hn : n ≤ src.length) (p : M) :
    takeValue r n src (groups * tpb) (uint (ulong (group * tpb))) lid p i =
      .ok (p * if group * tpb + lid + i * (groups * tpb) < n then
        valueAt src (group * tpb + lid + i * (groups * tpb)) else 1) := by
  have hthreads : groups * tpb ≤ vpt * (groups * tpb) := Nat.le_mul_of_pos_left _ (by omega)
  have hsteps : vpt ≤ vpt * (groups * tpb) :=
    Nat.le_mul_of_pos_right _ (Nat.mul_pos (by omega) (by omega))
  obtain ⟨hloc, hlt⟩ := location_eq (hthreads.trans htotal) (hsteps.trans htotal) (by omega) hgroup
    hlid hi
  have hulong : ulong (group * tpb + lid + i * (groups * tpb)) =
      group * tpb + lid + i * (groups * tpb) := ulong_of_lt (by omega)
  have huint : uint (group * tpb + lid + i * (groups * tpb)) =
      group * tpb + lid + i * (groups * tpb) := uint_of_lt (by omega)
  simp only [takeValue, hloc, hulong, huint]
  by_cases hin : group * tpb + lid + i * (groups * tpb) < n
  · rw [if_pos hin, if_pos hin, load_of_lt (by omega)]
    exact congrArg Except.ok (hr.mul _ _)
  · rw [if_neg hin, if_neg hin, mul_one]
    rfl

/-- The initial kernel leaves the product of the transformed inputs. -/
theorem genericTransformReduceInitial_run (hr : r.Multiplies) {groups vpt k : Nat} {src : List α}
    {dst : List M} (hk : k < 31) (hgroups : groups ≤ dst.length)
    (hthreads : groups * 2 ^ (k + 1) ≤ 4294967296) (hvpt : vpt ≤ 4294967296)
    (htotal : vpt * (groups * 2 ^ (k + 1)) ≤ 9223372036854775808)
    (hall : src.length ≤ vpt * (groups * 2 ^ (k + 1))) :
    ∃ dst', genericTransformReduceInitial r memory groups vpt (2 ^ (k + 1)) src.length src dst =
        .ok dst' ∧ dst'.length = dst.length ∧
      ∏ g ∈ range groups, valueAt dst' g = ∏ j ∈ range src.length, inputAt r src j := by
  apply groups_run hgroups hall
  intro g hg dst' hlength
  apply reduceGroup_run memory hr hk (by omega)
  intro lid hlid i hi p
  exact takeInput_run hr hthreads hvpt htotal hg hlid hi p

/-- The intermediate kernel leaves the product of the values that it reads. -/
theorem genericTransformReduceIntermediate_run (hr : r.Multiplies) {groups vpt k n : Nat}
    {src dst : List M} (hk : k < 31) (hgroups : groups ≤ dst.length) (hn : n ≤ src.length)
    (htotal : vpt * (groups * 2 ^ (k + 1)) ≤ 4294967296)
    (hall : n ≤ vpt * (groups * 2 ^ (k + 1))) :
    ∃ dst', genericTransformReduceIntermediate r memory groups vpt (2 ^ (k + 1)) n src dst =
        .ok dst' ∧ dst'.length = dst.length ∧
      ∏ g ∈ range groups, valueAt dst' g = ∏ j ∈ range n, valueAt src j := by
  apply groups_run hgroups hall
  intro g hg dst' hlength
  apply reduceGroup_run memory hr hk (by omega)
  intro lid hlid i hi p
  exact takeValue_run hr htotal hg hlid hi hn p

/-! ## The host -/

/-- The threads take all values, and less than one round more than there are. -/
theorem valuesPerThread_spec (size : Nat) {threads : Nat} (h : 0 < threads) :
    size ≤ valuesPerThread size threads * threads ∧
      valuesPerThread size threads * threads < size + threads := by
  have hdiv := Nat.div_add_mod size threads
  have hmod := Nat.mod_lt size h
  rw [Nat.mul_comm] at hdiv
  rw [valuesPerThread, Nat.add_mul]
  split_ifs with hrem
  · omega
  · rw [not_not.1 hrem] at hdiv
    omega

theorem valuesPerThread_le (size threads : Nat) : valuesPerThread size threads ≤ size + 1 := by
  have hle := Nat.div_le_self size threads
  rw [valuesPerThread]
  split_ifs <;> omega

/-- The workgroup of a pass is a power of two, of at least two threads, that the values fill: half of
the next power of two is the largest one up to the number of values. -/
theorem passWorkgroup {n k : Nat} (hk : k < 31) (hn : 1 < n) (hsmall : n < 2147483648) :
    ∃ k', k' < 31 ∧ 2 ^ (k' + 1) ≤ n ∧
      (if n < 2 ^ (k + 1) then (p2ceil (UInt64.ofNat n)).toNat / 2 else 2 ^ (k + 1)) = 2 ^ (k' + 1) := by
  by_cases hlt : n < 2 ^ (k + 1)
  · have hofNat : (UInt64.ofNat n).toNat = n :=
      UInt64.toNat_ofNat_of_lt (hsmall.trans (by decide))
    have hne : UInt64.ofNat n ≠ 0 := by
      intro h0
      rw [h0, UInt64.toNat_zero] at hofNat
      omega
    have hlog : 1 ≤ n.log2 := (Nat.le_log2 (by omega)).2 (by omega)
    have hlog' : n.log2 < 31 := (Nat.log2_lt (by omega)).2 hsmall
    refine ⟨n.log2 - 1, by omega, ?_, ?_⟩
    · rw [Nat.sub_add_cancel hlog]
      exact Nat.log2_self_le (by omega)
    · rw [if_pos hlt, p2ceil_toNat hne (by rw [hofNat]; omega), hofNat, Nat.pow_succ,
        Nat.mul_div_cancel _ Nat.two_pos, Nat.sub_add_cancel hlog]
  · exact ⟨k, hk, not_lt.1 hlt, if_neg hlt⟩

/-- The passes end with the product of the values at the start of the buffer. A pass at least halves
the values, which is what the fuel pays for. -/
theorem runPasses_run (hr : r.Multiplies) (fuel : Nat) {n k : Nat} {ping pong : List M} (hk : k < 31)
    (hfuel : n ≤ fuel) (hn : 1 ≤ n) (hsmall : n < 2147483648) (hping : n ≤ ping.length)
    (hpong : pong.length = ping.length) :
    ∃ last, runPasses r memory fuel n (2 ^ (k + 1)) ping pong = .ok last ∧ 0 < last.length ∧
      valueAt last 0 = ∏ j ∈ range n, valueAt ping j := by
  induction fuel generalizing n k ping pong with
  | zero => omega
  | succ fuel ih =>
      rcases Nat.eq_or_lt_of_le hn with rfl | hmore
      · exact ⟨ping, by rw [runPasses, if_neg (by decide)], by omega, by rw [prod_range_one]⟩
      · obtain ⟨k', hk', hle, hsize⟩ := passWorkgroup hk hmore hsmall
        have htwo : 2 ≤ 2 ^ (k' + 1) := by
          calc 2 = 2 ^ 1 := rfl
            _ ≤ 2 ^ (k' + 1) := Nat.pow_le_pow_right Nat.two_pos (by omega)
        have hpos : 0 < n / 2 ^ (k' + 1) := Nat.div_pos hle (Nat.two_pow_pos _)
        have hfewer : n / 2 ^ (k' + 1) ≤ n / 2 := Nat.div_le_div_left htwo Nat.two_pos
        have hthreads : n / 2 ^ (k' + 1) * 2 ^ (k' + 1) ≤ n := Nat.div_mul_le_self n _
        obtain ⟨hall, hround⟩ := valuesPerThread_spec n
          (Nat.mul_pos hpos (Nat.two_pow_pos (k' + 1)))
        obtain ⟨dst, hrun, hlength, hproduct⟩ := genericTransformReduceIntermediate_run memory hr hk'
          (show n / 2 ^ (k' + 1) ≤ pong.length by omega) hping (by omega) hall
        obtain ⟨last, hlast, hlength', hvalue⟩ := ih hk' (by omega) hpos (by omega)
          (show n / 2 ^ (k' + 1) ≤ dst.length by omega) (show ping.length = dst.length by omega)
        refine ⟨last, ?_, hlength', by rw [hvalue, hproduct]⟩
        rw [runPasses, if_pos hmore]
        simp only [hsize, if_neg (not_not.2 hpos), bind, Except.bind, hrun]
        exact hlast

/-- The reduction of a vector is the product of its transformed values: first in the workgroups of the
initial pass, then over these. -/
theorem execute_run (hr : r.Multiplies) {k : Nat} (hk : k < 31) {input : List α}
    (hsmall : input.length < 4294967296) :
    execute r memory (2 ^ (k + 1)) input = .ok (∏ j ∈ range input.length, inputAt r input j) := by
  have htwo : 2 ≤ 2 ^ (k + 1) := by
    calc 2 = 2 ^ 1 := rfl
      _ ≤ 2 ^ (k + 1) := Nat.pow_le_pow_right Nat.two_pos (by omega)
  have hwide : 2 ^ (k + 1) ≤ 2147483648 := Nat.pow_le_pow_right Nat.two_pos (by omega : k + 1 ≤ 31)
  have hfewer : input.length / 2 ^ (k + 1) ≤ input.length / 2 := Nat.div_le_div_left htwo Nat.two_pos
  have hle : input.length / 2 ^ (k + 1) * 2 ^ (k + 1) ≤ input.length := Nat.div_mul_le_self _ _
  obtain ⟨groups, hgroups, hpos, hcount, hthreads⟩ : ∃ groups,
      (if input.length / 2 ^ (k + 1) = 0 then 1 else input.length / 2 ^ (k + 1)) = groups ∧
        1 ≤ groups ∧ groups < 2147483648 ∧ groups * 2 ^ (k + 1) ≤ 4294967296 := by
    by_cases hfull : input.length / 2 ^ (k + 1) = 0
    · exact ⟨1, if_pos hfull, le_refl 1, by decide, by omega⟩
    · exact ⟨_, if_neg hfull, Nat.pos_of_ne_zero hfull, by omega, by omega⟩
  obtain ⟨hall, hround⟩ := valuesPerThread_spec input.length
    (Nat.mul_pos hpos (Nat.two_pow_pos (k + 1)))
  have hvpt := valuesPerThread_le input.length (groups * 2 ^ (k + 1))
  obtain ⟨ping, hinitial, hlength, hproduct⟩ := genericTransformReduceInitial_run memory hr hk
    (length_allocate memory groups).ge hthreads (by omega) (by omega) hall
  rw [length_allocate] at hlength
  obtain ⟨last, hlast, hne, hvalue⟩ := runPasses_run memory hr groups hk (le_refl groups) hpos hcount
    hlength.ge ((length_allocate memory groups).trans hlength.symm)
  simp only [execute, hgroups, bind, Except.bind, hinitial, hlast, load_of_lt hne, hvalue, hproduct]

/-- The size of the scratch buffer is a `uint`, to which 2^32 converts as zero. A workgroup of that
many threads starts its halving at distance zero, so that nothing is halved and only its first value
counts. -/
theorem execute_wide (hr : r.Multiplies) {threads : Nat} (hthreads : threads = 4294967296)
    {input : List α} (hpos : 0 < input.length) (hlt : input.length < threads) :
    execute r memory threads input = .ok (inputAt r input 0) := by
  have hwide : 1 * threads = threads := Nat.one_mul _
  have hgroups : input.length / threads = 0 := Nat.div_eq_of_lt hlt
  have hvpt : valuesPerThread input.length (1 * threads) = 1 := by
    rw [hwide, valuesPerThread, hgroups, Nat.mod_eq_of_lt hlt, if_pos hpos.ne']
  have hsize : uint threads = 0 := by
    rw [uint, hthreads]
  have hbody : ∀ lid, lid < threads → ∀ i, i < 1 → ∀ p,
      takeInput r input.length input (1 * threads) (uint (ulong (0 * threads))) lid p i =
        .ok (p * if 0 * threads + lid + i * (1 * threads) < input.length then
          inputAt r input (0 * threads + lid + i * (1 * threads)) else 1) := by
    intro lid hlid i hi p
    exact takeInput_run hr (by omega) (by decide) (by omega) Nat.one_pos hlid hi p
  obtain ⟨scratch, hrun, hlength, hvalue⟩ := accumulate_run memory hr hthreads.le hbody
  have hscratch : reduceScratchFrom r threads (0 / 2) scratch = .ok scratch := by
    rw [reduceScratchFrom, dif_neg (by decide)]
    rfl
  have hfirst : valueAt scratch 0 = inputAt r input 0 := by
    rw [hvalue 0 (by omega), prod_range_one]
    simp [hpos]
  have hinitial : genericTransformReduceInitial r memory 1 1 threads input.length input
      (allocate memory 1) = .ok [inputAt r input 0] := by
    have hload : load scratch 0 = .ok (inputAt r input 0) := by
      rw [load_of_lt (by omega), hfirst]
    simp only [genericTransformReduceInitial, List.range_one, List.foldlM_cons, List.foldlM_nil]
    rw [reduceGroup, hrun, hsize]
    simp only [bind, Except.bind, reduceScratch, hscratch, hload]
    rfl
  have hpasses : runPasses r memory 1 1 threads [inputAt r input 0] (allocate memory 1) =
      .ok [inputAt r input 0] := by
    rw [runPasses, if_neg (by decide)]
  simp only [execute, hgroups, if_true, hvpt, bind, Except.bind, hinitial, hpasses]
  rfl

/-- The combination of the values one after the other is their product. The last input is transformed
at its own place, and the others stay where they are. -/
theorem sequentialFold_eq (hr : r.Multiplies) (input : List α) :
    sequentialFold r input = ∏ j ∈ range input.length, inputAt r input j := by
  induction input using List.reverseRecOn with
  | nil => exact hr.one
  | append_singleton input x ih =>
      have hlast : inputAt r (input ++ [x]) input.length = r.reduceTransform x input.length := by
        rw [inputAt, List.getElem?_concat_length]
        rfl
      have hrest : ∀ j, j < input.length → inputAt r (input ++ [x]) j = inputAt r input j := by
        intro j hj
        rw [inputAt, List.getElem?_append_left hj, inputAt]
      rw [List.length_append, List.length_singleton, prod_range_succ, hlast,
        prod_congr rfl fun j hj => hrest j (mem_range.1 hj), ← ih, sequentialFold,
        List.zipIdx_append, List.foldl_append]
      simp only [Nat.zero_add, List.zipIdx_cons, List.zipIdx_nil, List.foldl_cons, List.foldl_nil]
      exact hr.mul _ _

end Reduction

/-! ## Reductions -/

section Lawful

variable {α β : Type}

/-- The combination is commutative and associative, and starts from its identity. -/
structure Reducer.Lawful (r : Reducer α β) : Prop where
  assoc : ∀ a b c, r.reduceCombine (r.reduceCombine a b) c = r.reduceCombine a (r.reduceCombine b c)
  comm : ∀ a b, r.reduceCombine a b = r.reduceCombine b a
  identity : ∀ a, r.reduceCombine r.reduceInitialize a = a

/-- The commutative monoid of a reducer -/
@[reducible] def Reducer.Lawful.commMonoid {r : Reducer α β} (hr : r.Lawful) : CommMonoid β where
  mul := r.reduceCombine
  one := r.reduceInitialize
  mul_assoc := hr.assoc
  mul_comm := hr.comm
  one_mul := hr.identity
  mul_one a := (hr.comm a _).trans (hr.identity a)

/-- A reducer that collects the places of its inputs -/
def collectPlaces (α : Type) : Reducer α (Multiset Nat) :=
  ⟨0, fun _ i => {i}, (· + ·)⟩

theorem execute_eq_of_lawful {r : Reducer α β} (hr : r.Lawful) (memory : Nat → β) {k : Nat}
    (hk : k < 31) {input : List α} (hn : input.length < 4294967296) :
    execute r memory (2 ^ (k + 1)) input = .ok (sequentialFold r input) := by
  let _ : CommMonoid β := hr.commMonoid
  have hmul : r.Multiplies := ⟨rfl, fun _ _ => rfl⟩
  rw [execute_run memory hmul hk hn, sequentialFold_eq hmul]

theorem collectPlaces_lawful : (collectPlaces α).Lawful :=
  ⟨Multiset.add_assoc, Multiset.add_comm, Multiset.zero_add⟩

/-- The places of all inputs, each of them once. -/
theorem sequentialFold_collectPlaces (input : List α) :
    sequentialFold (collectPlaces α) input = Multiset.range input.length := by
  induction input using List.reverseRecOn with
  | nil => rfl
  | append_singleton input x ih =>
      rw [List.length_append, List.length_singleton, Multiset.range_succ, ← Multiset.singleton_add,
        Multiset.add_comm, ← ih, sequentialFold, List.zipIdx_append, List.foldl_append]
      simp only [Nat.zero_add, List.zipIdx_cons, List.zipIdx_nil, List.foldl_cons, List.foldl_nil]
      rfl

/-- For workgroups of up to 2^31 threads a reduction is the fold of the transformed inputs, whatever
the memory of the device held before, and takes each input once. -/
theorem execute_eq_sequentialFold (r : Reducer α β) (hr : r.Lawful) (memory : Nat → β)
    (places : Nat → Multiset Nat) (k : Nat) (hk₁ : 1 ≤ k) (hk₂ : k ≤ 31) (input : List α)
    (hn : input.length < 4294967296) :
    execute r memory (2 ^ k) input = .ok (sequentialFold r input) ∧
      execute (collectPlaces α) places (2 ^ k) input = .ok (Multiset.range input.length) := by
  obtain ⟨k, rfl⟩ := Nat.exists_eq_add_of_le' hk₁
  refine ⟨execute_eq_of_lawful hr memory (by omega) hn, ?_⟩
  rw [execute_eq_of_lawful collectPlaces_lawful places (by omega) hn, sequentialFold_collectPlaces]

end Lawful

/-- The product of numbers -/
def productReducer : Reducer Nat Nat := ⟨1, fun x _ => x, (· * ·)⟩

theorem productReducer_lawful : productReducer.Lawful := ⟨Nat.mul_assoc, Nat.mul_comm, Nat.one_mul⟩

/-- Eight factors in workgroups of two, which leave four partial products for the passes that follow -/
theorem execute_eq_sequentialFold_product :
    execute productReducer (fun _ => 0) (2 ^ 1) [2, 3, 5, 7, 11, 13, 17, 19] = .ok 9699690 ∧
      execute (collectPlaces Nat) (fun _ => 0) (2 ^ 1) [2, 3, 5, 7, 11, 13, 17, 19] =
        .ok (Multiset.range 8) :=
  execute_eq_sequentialFold productReducer productReducer_lawful (fun _ => 0) (fun _ => 0) 1
    (by decide) (by decide) [2, 3, 5, 7, 11, 13, 17, 19] (by decide)

/-- With 2^32 threads in a workgroup the second factor is lost. -/
theorem execute_wide_product : productReducer.Lawful ∧
    execute productReducer (fun _ => 0) (2 ^ 32) [2, 3] = .ok 2 ∧
      sequentialFold productReducer [2, 3] = 6 := by
  have hr : productReducer.Multiplies := ⟨rfl, fun _ _ => rfl⟩
  have hwide : 2 ^ 32 = 4294967296 := by decide
  refine ⟨productReducer_lawful, ?_, rfl⟩
  exact execute_wide (fun _ => 0) hr hwide (by decide) (by rw [hwide]; decide)

end JayBeams.OpenCL
