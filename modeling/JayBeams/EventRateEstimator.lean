import JayBeams.Common
import JayBeams.Library.TrailingCount
import Mathlib.Data.Int.Interval

/-!
# The event rate estimator

`EventRateEstimator` keeps one counter for each of the last sampling periods in a circular buffer,
and the total of all of them. A sample in a new sampling period first emits one update for each
period that has ended, and one update with a repeat count for the periods in which the buffer is
empty; the position in the buffer then starts again at zero.

`Tracks` is the invariant: the slot `k` places before the position counts the samples `k` periods
before the last one. It says nothing about the position itself, so the reset at the end of an empty
stretch keeps it. Every update is then the number of samples in the trailing window
(`sampleAll_emits_trailing_counts`).
-/

set_option autoImplicit false

namespace JayBeams

/-- What the functor `update` is called with. -/
structure RateUpdate where
  value : UInt64
  repeats : Nat
  deriving DecidableEq, Repr

structure EventRateEstimator where
  buckets : List Nat
  samplingPeriod : Int
  runningTotal : UInt64
  lastBucket : Int
  endPos : Nat
  deriving DecidableEq, Repr

namespace EventRateEstimator

open EStateM

/-! ## Construction -/

/-- `bucket_count`; the size of the buffer is a 64-bit `std::size_t`. -/
def bucketCount (measurementPeriod samplingPeriod : Int) : Except Failure Nat := do
  if samplingPeriod ≤ 0 then
    throw (.invalidArgument (s!"jb::event_rate_estimate - sampling period ({samplingPeriod})" ++
      " must be a positive number"))
  if samplingPeriod > measurementPeriod then
    throw (.invalidArgument (s!"jb::event_rate_estimate - measurement period ({measurementPeriod})" ++
      s!" is smaller than sampling period ({samplingPeriod})"))
  if measurementPeriod.tmod samplingPeriod ≠ 0 then
    throw (.invalidArgument (s!"jb::event_rate_estimate - measurement period ({measurementPeriod})" ++
      s!" must be a multiple of the sampling period ({samplingPeriod})"))
  let n := (measurementPeriod.tdiv samplingPeriod).toNat
  if n ≥ 18446744073709551615 then
    throw (.invalidArgument (s!"jb::event_rate_estimate - measurement period ({measurementPeriod})" ++
      s!" is too large for sampling period ({samplingPeriod})"))
  return n

/-- The constructor -/
def make (measurementPeriod samplingPeriod : Int) : Except Failure EventRateEstimator := do
  let n ← bucketCount measurementPeriod samplingPeriod
  return {
    buckets := List.replicate n 0
    samplingPeriod := samplingPeriod
    runningTotal := 0
    lastBucket := 0
    endPos := n }

/-! ## Samples -/

/-- `buckets_[end_pos_]` -/
def readBucket : EStateM Failure EventRateEstimator Nat := do
  let e ← get
  match e.buckets[e.endPos]? with
  | some n => return n
  | none => throw (.outOfRange e.endPos e.buckets.length)

/-- Assign to `buckets_[end_pos_]`. -/
def writeBucket (n : Nat) : EStateM Failure EventRateEstimator Unit := do
  let e ← get
  if e.endPos < e.buckets.length then set { e with buckets := e.buckets.set e.endPos n }
  else throw (.outOfRange e.endPos e.buckets.length)

/-- `init` -/
def init (ts : Int) : EStateM Failure EventRateEstimator Unit := do
  modify fun e => { e with endPos := 0, runningTotal := 1 }
  writeBucket 1
  modify fun e => { e with lastBucket := ts.tdiv e.samplingPeriod }

/-- `rotate` -/
def rotate : EStateM Failure EventRateEstimator Unit := do
  modify fun e => { e with endPos := Ring.next e.buckets.length e.endPos }
  let n ← readBucket
  modify fun e => { e with runningTotal := e.runningTotal - UInt64.ofNat n }
  writeBucket 0
  modify fun e => { e with lastBucket := e.lastBucket + 1 }

/-- The loop of `sample`. A rotation moves the last bucket by one, so as many iterations as there are
buckets up to `bucket` are enough. -/
def rotateWhile (bucket : Int) : Nat → EStateM Failure EventRateEstimator (List RateUpdate)
  | 0 => return []
  | fuel + 1 => do
    let e ← get
    if e.lastBucket < bucket ∧ e.runningTotal > 0 then
      rotate
      let updates ← rotateWhile bucket fuel
      return ⟨e.runningTotal, 1⟩ :: updates
    else return []

/-- What `sample` does to reach a later bucket: the loop, and one update for what is left when the
buffer has become empty. -/
def advance (bucket : Int) : EStateM Failure EventRateEstimator (List RateUpdate) := do
  let start ← get
  let updates ← rotateWhile bucket (bucket - start.lastBucket).toNat
  let e ← get
  if e.lastBucket < bucket then
    let repeats := (bucket - e.lastBucket).toNat
    set { e with endPos := 0, lastBucket := bucket }
    return updates ++ [⟨0, repeats⟩]
  else return updates

/-- `running_total_++` and `buckets_[end_pos_]++`, for a `counter_t` that counts up to
`counterSize - 1` -/
def increment (counterSize : Nat) : EStateM Failure EventRateEstimator Unit := do
  modify fun e => { e with runningTotal := e.runningTotal + 1 }
  let n ← readBucket
  writeBucket ((n + 1) % counterSize)

/-- `sample`, on top of a way to reach a later bucket -/
def sampleWith (advance : Int → EStateM Failure EventRateEstimator (List RateUpdate))
    (counterSize : Nat) (ts : Int) : EStateM Failure EventRateEstimator (List RateUpdate) := do
  let e ← get
  if e.endPos ≥ e.buckets.length then
    init ts
    return []
  let bucket := ts.tdiv e.samplingPeriod
  if e.lastBucket = bucket then
    increment counterSize
    return []
  let updates ← advance bucket
  increment counterSize
  return updates

/-- `sample`; the result is what `update` is called with, in order. -/
def sample (counterSize : Nat) (ts : Int) : EStateM Failure EventRateEstimator (List RateUpdate) :=
  sampleWith advance counterSize ts

/-- The calls of `sample` for a sequence of timestamps -/
def sampleAll (sample : Int → EStateM Failure EventRateEstimator (List RateUpdate)) :
    List Int → EStateM Failure EventRateEstimator (List RateUpdate)
  | [] => return []
  | ts :: rest => do
    let updates ← sample ts
    let later ← sampleAll sample rest
    return updates ++ later

/-- `advance` without the early exit: one update and one rotation for each period. -/
def rotateEach (bucket : Int) : Nat → EStateM Failure EventRateEstimator (List RateUpdate)
  | 0 => return []
  | fuel + 1 => do
    let e ← get
    if e.lastBucket < bucket then
      rotate
      let updates ← rotateEach bucket fuel
      return ⟨e.runningTotal, 1⟩ :: updates
    else return []

/-- Reach a later bucket step by step. -/
def advanceStepwise (bucket : Int) : EStateM Failure EventRateEstimator (List RateUpdate) := do
  let e ← get
  rotateEach bucket (bucket - e.lastBucket).toNat

/-! ## Estimates -/

/-- The estimates that a list of updates stands for, each update repeated as often as it says. -/
def estimates (updates : List RateUpdate) : List Nat :=
  updates.flatMap fun u => List.replicate u.repeats u.value.toNat

/-- The sampling periods from `first` on, up to but excluding `last`. -/
def periodsUpTo (first last : Int) : List Int :=
  (List.range (last - first).toNat).map fun i : Nat => first + i

/-- The sampling periods from the bucket of the first sample up to but excluding that of the last
one. -/
def periods : List Int → List Int
  | [] => []
  | first :: rest => periodsUpTo first (rest.getLastD first)

/-- No counter overflows on samples in these buckets: neither the one of a single bucket nor the
running total. -/
def CountersFit (counterSize n : Nat) (xs : List Int) : Prop :=
  ∀ p, xs.count p < counterSize ∧ trailingCount n xs p < UInt64.size

section Estimates

variable {first mid last p : Int} {n counterSize : Nat} {xs ys : List Int}

@[simp] theorem estimates_nil : estimates [] = [] := rfl

@[simp] theorem estimates_append (us vs : List RateUpdate) :
    estimates (us ++ vs) = estimates us ++ estimates vs :=
  List.flatMap_append

theorem estimates_cons_once (value : UInt64) (us : List RateUpdate) :
    estimates (⟨value, 1⟩ :: us) = value.toNat :: estimates us := rfl

@[simp] theorem periodsUpTo_self : periodsUpTo first first = [] := by simp [periodsUpTo]

theorem mem_periodsUpTo : p ∈ periodsUpTo first last ↔ first ≤ p ∧ p < last := by
  simp only [periodsUpTo, List.mem_map, List.mem_range]
  constructor
  · rintro ⟨i, hi, rfl⟩
    omega
  · rintro ⟨h, h'⟩
    exact ⟨(p - first).toNat, by omega, by omega⟩

theorem periodsUpTo_append (h : first ≤ mid) (h' : mid ≤ last) :
    periodsUpTo first mid ++ periodsUpTo mid last = periodsUpTo first last := by
  have hlen : (last - first).toNat = (mid - first).toNat + (last - mid).toNat := by omega
  rw [periodsUpTo, periodsUpTo, periodsUpTo, hlen, List.range_add, List.map_append, List.map_map]
  congr 1
  apply List.map_congr_left
  intro i _
  simp only [Function.comp_apply, Nat.cast_add]
  omega

theorem periodsUpTo_cons (h : first < last) :
    periodsUpTo first last = first :: periodsUpTo (first + 1) last := by
  -- The first period is split off as a range of its own.
  have hone : periodsUpTo first (first + 1) = [first] := by
    rw [periodsUpTo, show (first + 1 - first).toNat = 1 by omega]
    simp
  rw [← periodsUpTo_append (show first ≤ first + 1 by omega) (show first + 1 ≤ last by omega), hone]
  rfl

theorem CountersFit.of_append (h : CountersFit counterSize n (xs ++ ys)) :
    CountersFit counterSize n xs := by
  intro p
  obtain ⟨hcount, htotal⟩ := h p
  rw [List.count_append] at hcount
  rw [trailingCount_append] at htotal
  exact ⟨by omega, by omega⟩

theorem countersFit_of_length (h : xs.length < counterSize) (h' : xs.length < UInt64.size) :
    CountersFit counterSize n xs := fun _ =>
  ⟨lt_of_le_of_lt List.count_le_length h, lt_of_le_of_lt List.countP_le_length h'⟩

end Estimates

/-! ## The invariant -/

/-- The estimator has recorded samples in the buckets `xs`: each slot counts the samples of one of the
last `n` sampling periods, the running total counts those of all of them. -/
structure Tracks (n : Nat) (period : Int) (xs : List Int) (e : EventRateEstimator) : Prop where
  size : e.buckets.length = n
  period : e.samplingPeriod = period
  position : e.endPos < n
  slots : ∀ k, k < n → e.buckets[Ring.back n e.endPos k]? = some (xs.count (e.lastBucket - k))
  total : e.runningTotal.toNat = trailingCount n xs e.lastBucket
  latest : ∀ x ∈ xs, x ≤ e.lastBucket

section Steps

variable {e : EventRateEstimator} {n : Nat}

theorem readBucket_run (h : e.buckets[e.endPos]? = some n) : readBucket.run e = .ok n e := by
  simp only [readBucket, EStateM.run_bind, EStateM.run_get, h, EStateM.run_pure]

theorem writeBucket_run (n : Nat) (h : e.endPos < e.buckets.length) :
    (writeBucket n).run e = .ok () { e with buckets := e.buckets.set e.endPos n } := by
  simp only [writeBucket, EStateM.run_bind, EStateM.run_get, if_pos h, EStateM.run_set]

end Steps

section Invariant

variable {e : EventRateEstimator} {n counterSize : Nat} {period bucket : Int} {xs : List Int}

theorem Tracks.slot_self (h : Tracks n period xs e) :
    e.buckets[e.endPos]? = some (xs.count e.lastBucket) := by
  have hslot := h.slots 0 (Nat.zero_lt_of_lt h.position)
  rwa [Ring.back_zero, Nat.cast_zero, Int.sub_zero] at hslot

/-- The slot that a rotation reuses holds the count of the period that leaves the window. -/
theorem Tracks.slot_oldest (h : Tracks n period xs e) :
    e.buckets[Ring.next n e.endPos]? = some (xs.count (e.lastBucket + 1 - n)) := by
  have hpos := h.position
  have hslot := h.slots (n - 1) (by omega)
  rw [Ring.back_oldest hpos] at hslot
  rw [hslot, show e.lastBucket - ((n - 1 : Nat) : Int) = e.lastBucket + 1 - n by omega]

/-- The count of the period that leaves the window is taken off the total. -/
theorem Tracks.total_rotated (h : Tracks n period xs e) :
    (e.runningTotal - UInt64.ofNat (xs.count (e.lastBucket + 1 - n))).toNat =
      trailingCount n xs (e.lastBucket + 1) := by
  have hpos := h.position
  have hlt := e.runningTotal.toNat_lt_size
  have hnone : xs.count (e.lastBucket + 1) = 0 := count_eq_zero_of_lt h.latest (by omega)
  have hmoved : trailingCount n xs (e.lastBucket + 1) + xs.count (e.lastBucket + 1 - n) =
      trailingCount n xs e.lastBucket + xs.count (e.lastBucket + 1) :=
    trailingCount_succ (Nat.zero_lt_of_lt hpos)
  -- The count taken off is part of the total, so the subtraction does not wrap.
  have hold : xs.count (e.lastBucket + 1 - n) ≤ trailingCount n xs e.lastBucket :=
    count_le_trailingCount (by omega) (by omega)
  rw [← h.total] at hmoved hold
  have hofNat : (UInt64.ofNat (xs.count (e.lastBucket + 1 - n))).toNat =
      xs.count (e.lastBucket + 1 - n) :=
    UInt64.toNat_ofNat_of_lt (Nat.lt_of_le_of_lt hold hlt)
  rw [UInt64.toNat_sub_of_le _ _ (UInt64.le_iff_toNat_le.2 (by rw [hofNat]; exact hold)), hofNat]
  omega

/-- A rotation moves the window by one period, in which there is no sample yet. -/
theorem Tracks.rotate_run (h : Tracks n period xs e) :
    ∃ e', rotate.run e = .ok () e' ∧ Tracks n period xs e' ∧ e'.lastBucket = e.lastBucket + 1 := by
  have hpos := h.position
  have hnext : Ring.next n e.endPos < e.buckets.length := by
    rw [h.size]
    exact Ring.next_lt hpos
  -- The position moves before the old count is read and cleared.
  have hread := readBucket_run (e := { e with endPos := Ring.next n e.endPos }) h.slot_oldest
  refine ⟨{ e with
    endPos := Ring.next n e.endPos
    runningTotal := e.runningTotal - UInt64.ofNat (xs.count (e.lastBucket + 1 - n))
    buckets := e.buckets.set (Ring.next n e.endPos) 0
    lastBucket := e.lastBucket + 1 }, ?_, ?_, rfl⟩
  · simp only [rotate, EStateM.run_bind, EStateM.run_modify, h.size, hread]
    rw [writeBucket_run 0 hnext]
  · refine ⟨by rw [List.length_set, h.size], h.period, Ring.next_lt hpos, ?_, h.total_rotated, ?_⟩
    · intro k hk
      cases k with
      | zero =>
          have hnone : xs.count (e.lastBucket + 1) = 0 := count_eq_zero_of_lt h.latest (by omega)
          rw [Ring.back_zero, List.getElem?_set_self hnext, Nat.cast_zero, Int.sub_zero, hnone]
      | succ k =>
          have hne : Ring.back n (Ring.next n e.endPos) (k + 1) ≠ Ring.next n e.endPos :=
            Ring.back_ne_self hk
          rw [List.getElem?_set_ne hne.symm, Ring.back_next hk, h.slots k (by omega),
            show e.lastBucket + 1 - ((k + 1 : Nat) : Int) = e.lastBucket - k by omega]
    · intro x hx
      have hle := h.latest x hx
      change x ≤ e.lastBucket + 1
      omega

/-- When the total is zero the estimator can stand at any later bucket, and at any position. -/
theorem Tracks.restart (h : Tracks n period xs e) (hzero : e.runningTotal = 0)
    (hlast : e.lastBucket ≤ bucket) :
    Tracks n period xs { e with endPos := 0, lastBucket := bucket } := by
  have hpos := h.position
  have hempty : trailingCount n xs e.lastBucket = 0 := by rw [← h.total, hzero]; rfl
  -- No period after the start of the window has a sample.
  have hnone : ∀ q, e.lastBucket - n < q → xs.count q = 0 := by
    intro q hq
    rcases lt_or_ge e.lastBucket q with hlt | hge
    · exact count_eq_zero_of_lt h.latest hlt
    · exact Nat.le_zero.1 (hempty ▸ count_le_trailingCount hq hge)
  refine ⟨h.size, h.period, Nat.zero_lt_of_lt hpos, ?_, ?_, ?_⟩
  · intro k hk
    -- every slot is some place before the old position, so it holds zero
    obtain ⟨j, hj, hback⟩ := Ring.exists_back hpos (Ring.back_lt (Nat.zero_lt_of_lt hpos) hk)
    change e.buckets[Ring.back n 0 k]? = some (xs.count (bucket - k))
    rw [← hback, h.slots j hj, hnone _ (by omega), hnone _ (by omega)]
  · have hle : trailingCount n xs bucket ≤ trailingCount n xs e.lastBucket :=
      trailingCount_le_of_le h.latest hlast
    rw [hempty] at hle
    change e.runningTotal.toNat = trailingCount n xs bucket
    rw [hzero, Nat.le_zero.1 hle]
    rfl
  · intro x hx
    exact Int.le_trans (h.latest x hx) hlast

/-- A sample in the current bucket. -/
theorem Tracks.increment_run (h : Tracks n period xs e)
    (hfit : CountersFit counterSize n (xs ++ [e.lastBucket])) :
    ∃ e', (increment counterSize).run e = .ok () e' ∧
      Tracks n period (xs ++ [e.lastBucket]) e' ∧ e'.lastBucket = e.lastBucket := by
  have hpos := h.position
  obtain ⟨hcount, htotal⟩ := hfit e.lastBucket
  have hone : trailingCount n [e.lastBucket] e.lastBucket = 1 := by
    simp [trailingCount]
    omega
  have hread := readBucket_run (e := { e with runningTotal := e.runningTotal + 1 }) h.slot_self
  -- The new sample is counted in the slot at the position and in no other.
  have hself : xs.count e.lastBucket + 1 = (xs ++ [e.lastBucket]).count e.lastBucket := by simp
  refine ⟨{ e with
    runningTotal := e.runningTotal + 1
    buckets := e.buckets.set e.endPos (xs.count e.lastBucket + 1) }, ?_, ?_, rfl⟩
  · simp only [increment, EStateM.run_bind, EStateM.run_modify, hread]
    rw [Nat.mod_eq_of_lt (hself ▸ hcount), writeBucket_run _ (by rw [h.size]; exact hpos)]
  · refine ⟨by rw [List.length_set, h.size], h.period, hpos, ?_, ?_, ?_⟩
    · intro k hk
      cases k with
      | zero =>
          rw [Ring.back_zero, List.getElem?_set_self (by rw [h.size]; exact hpos), Nat.cast_zero,
            Int.sub_zero, hself]
      | succ k =>
          have hother : [e.lastBucket].count (e.lastBucket - ((k + 1 : Nat) : Int)) = 0 := by
            apply List.count_eq_zero.2
            intro hk
            have heq := List.mem_singleton.1 hk
            omega
          rw [List.getElem?_set_ne (Ring.back_ne_self hk).symm, h.slots _ hk, List.count_append,
            hother]
          rfl
    · rw [trailingCount_append, hone] at htotal ⊢
      rw [UInt64.toNat_add, h.total]
      exact Nat.mod_eq_of_lt htotal
    · intro x hx
      rcases List.mem_append.1 hx with hx | hx
      · exact h.latest x hx
      · exact (List.mem_singleton.1 hx).le

end Invariant

/-! ## Reaching a later bucket -/

/-- A way to reach a later bucket that makes one estimate for each period on the way. -/
def Advances (advance : Int → EStateM Failure EventRateEstimator (List RateUpdate)) : Prop :=
  ∀ {n : Nat} {period bucket : Int} {xs : List Int} {e : EventRateEstimator},
    Tracks n period xs e → e.lastBucket ≤ bucket →
      ∃ us e', (advance bucket).run e = .ok us e' ∧ Tracks n period xs e' ∧
        e'.lastBucket = bucket ∧
        estimates us = (periodsUpTo e.lastBucket bucket).map (trailingCount n xs)

section Advance

variable {e : EventRateEstimator} {n : Nat} {period bucket : Int} {xs : List Int}

/-- The loop ends at the bucket or with an empty window, and has made the estimates so far. -/
theorem Tracks.rotateWhile_run (fuel : Nat) (h : Tracks n period xs e)
    (hfuel : (bucket - e.lastBucket).toNat = fuel) (hle : e.lastBucket ≤ bucket) :
    ∃ us e', (rotateWhile bucket fuel).run e = .ok us e' ∧ Tracks n period xs e' ∧
      e.lastBucket ≤ e'.lastBucket ∧ e'.lastBucket ≤ bucket ∧
      (e'.lastBucket < bucket → e'.runningTotal = 0) ∧
      estimates us = (periodsUpTo e.lastBucket e'.lastBucket).map (trailingCount n xs) := by
  induction fuel generalizing e with
  | zero =>
      refine ⟨[], e, rfl, h, le_refl _, hle, fun hlt => absurd hlt (by omega), ?_⟩
      rw [periodsUpTo_self]
      rfl
  | succ fuel ih =>
      by_cases hloop : e.lastBucket < bucket ∧ e.runningTotal > 0
      · obtain ⟨e₁, hrotate, h₁, hlast⟩ := h.rotate_run
        obtain ⟨us, e', hrun, h', hfrom, hto, hexit, hest⟩ := ih h₁ (by omega) (by omega)
        refine ⟨⟨e.runningTotal, 1⟩ :: us, e', ?_, h', by omega, hto, hexit, ?_⟩
        · simp only [rotateWhile, EStateM.run_bind, EStateM.run_get, if_pos hloop, hrotate, hrun,
            EStateM.run_pure]
        · have hlt : e.lastBucket < e'.lastBucket := by omega
          rw [estimates_cons_once, hest, hlast, periodsUpTo_cons hlt, List.map_cons, h.total]
      · refine ⟨[], e, ?_, h, le_refl _, hle, ?_, ?_⟩
        · simp only [rotateWhile, EStateM.run_bind, EStateM.run_get, if_neg hloop, EStateM.run_pure]
        · intro hlt
          -- The loop ended before the bucket, so its other condition failed.
          exact UInt64.le_zero_iff.1 (UInt64.not_lt.1 fun hgt => hloop ⟨hlt, hgt⟩)
        · rw [periodsUpTo_self]
          rfl

/-- While the window stays empty every estimate is zero. -/
theorem Tracks.estimates_of_zero (h : Tracks n period xs e) (hzero : e.runningTotal = 0) :
    (periodsUpTo e.lastBucket bucket).map (trailingCount n xs) =
      List.replicate (bucket - e.lastBucket).toNat 0 := by
  have hempty : trailingCount n xs e.lastBucket = 0 := by rw [← h.total, hzero]; rfl
  apply List.eq_replicate_iff.2
  refine ⟨by simp [periodsUpTo], ?_⟩
  intro m hm
  obtain ⟨p, hp, rfl⟩ := List.mem_map.1 hm
  have hle : trailingCount n xs p ≤ trailingCount n xs e.lastBucket :=
    trailingCount_le_of_le h.latest (mem_periodsUpTo.1 hp).1
  exact Nat.le_zero.1 (hempty ▸ hle)

theorem advances_advance : Advances advance := by
  intro n period bucket xs e h hle
  obtain ⟨us, e₁, hrun, h₁, hfrom, hto, hexit, hest⟩ := h.rotateWhile_run _ rfl hle
  by_cases hlt : e₁.lastBucket < bucket
  · -- the window is empty before the bucket is reached: one update for all that is left
    have hzero := hexit hlt
    refine ⟨us ++ [⟨0, (bucket - e₁.lastBucket).toNat⟩], { e₁ with endPos := 0, lastBucket := bucket },
      ?_, h₁.restart hzero hto, rfl, ?_⟩
    · simp only [advance, EStateM.run_bind, EStateM.run_get, hrun, if_pos hlt, EStateM.run_set,
        EStateM.run_pure]
    · rw [estimates_append, hest, ← periodsUpTo_append hfrom hto, List.map_append,
        h₁.estimates_of_zero hzero]
      simp [estimates]
  · have hlast : e₁.lastBucket = bucket := by omega
    refine ⟨us, e₁, ?_, h₁, hlast, hlast ▸ hest⟩
    simp only [advance, EStateM.run_bind, EStateM.run_get, hrun, if_neg hlt, EStateM.run_pure]

theorem Tracks.rotateEach_run (fuel : Nat) (h : Tracks n period xs e)
    (hfuel : (bucket - e.lastBucket).toNat = fuel) (hle : e.lastBucket ≤ bucket) :
    ∃ us e', (rotateEach bucket fuel).run e = .ok us e' ∧ Tracks n period xs e' ∧
      e'.lastBucket = bucket ∧
      estimates us = (periodsUpTo e.lastBucket bucket).map (trailingCount n xs) := by
  induction fuel generalizing e with
  | zero =>
      have hlast : e.lastBucket = bucket := by omega
      refine ⟨[], e, rfl, h, hlast, ?_⟩
      rw [hlast, periodsUpTo_self]
      rfl
  | succ fuel ih =>
      have hlt : e.lastBucket < bucket := by omega
      obtain ⟨e₁, hrotate, h₁, hlast⟩ := h.rotate_run
      obtain ⟨us, e', hrun, h', hto, hest⟩ := ih h₁ (by omega) (by omega)
      refine ⟨⟨e.runningTotal, 1⟩ :: us, e', ?_, h', hto, ?_⟩
      · simp only [rotateEach, EStateM.run_bind, EStateM.run_get, if_pos hlt, hrotate, hrun,
          EStateM.run_pure]
      · rw [estimates_cons_once, hest, hlast, periodsUpTo_cons hlt, List.map_cons, h.total]

theorem advances_advanceStepwise : Advances advanceStepwise := fun h hle =>
  h.rotateEach_run _ rfl hle

end Advance

/-! ## Samples -/

section Samples

variable {advance : Int → EStateM Failure EventRateEstimator (List RateUpdate)}
  {e : EventRateEstimator} {n counterSize : Nat} {period : Int} {xs : List Int}

/-- A sample makes one estimate for each period since the last one. -/
theorem Tracks.sampleWith_run (hadv : Advances advance) (h : Tracks n period xs e) {ts : Int}
    (hle : e.lastBucket ≤ ts.tdiv period)
    (hfit : CountersFit counterSize n (xs ++ [ts.tdiv period])) :
    ∃ us e', (sampleWith advance counterSize ts).run e = .ok us e' ∧
      Tracks n period (xs ++ [ts.tdiv period]) e' ∧ e'.lastBucket = ts.tdiv period ∧
      estimates us = (periodsUpTo e.lastBucket (ts.tdiv period)).map (trailingCount n xs) := by
  -- The first sample was recorded, so the estimator is not initialized again.
  have hstarted : ¬ e.endPos ≥ e.buckets.length := by
    rw [h.size]
    exact Nat.not_le.2 h.position
  by_cases hsame : e.lastBucket = ts.tdiv period
  · rw [← hsame] at hfit ⊢
    obtain ⟨e', hrun, h', hlast⟩ := h.increment_run hfit
    refine ⟨[], e', ?_, h', hlast, ?_⟩
    · simp only [sampleWith, EStateM.run_bind, EStateM.run_get, if_neg hstarted, h.period,
        if_pos hsame, hrun, EStateM.run_pure]
    · rw [periodsUpTo_self]
      rfl
  · obtain ⟨us, e₁, hadvance, h₁, hlast₁, hest⟩ := hadv h hle
    rw [← hlast₁] at hfit
    obtain ⟨e', hrun, h', hlast⟩ := h₁.increment_run hfit
    rw [hlast₁] at h' hlast
    refine ⟨us, e', ?_, h', hlast, hest⟩
    simp only [sampleWith, EStateM.run_bind, EStateM.run_get, if_neg hstarted, h.period,
      if_neg hsame, hadvance, hrun, EStateM.run_pure]

/-- What later samples make of the estimator: every estimate counts the samples of the whole run, as
those that come after it lie beyond its window. -/
theorem Tracks.sampleAll_run (hadv : Advances advance) (h : Tracks n period xs e) (hperiod : 0 < period)
    {timestamps : List Int} (hfrom : ∀ ts ∈ timestamps, e.lastBucket ≤ ts.tdiv period)
    (hsorted : timestamps.Pairwise (· ≤ ·))
    (hfit : CountersFit counterSize n (xs ++ timestamps.map (·.tdiv period))) :
    ∃ us e', (sampleAll (sampleWith advance counterSize) timestamps).run e = .ok us e' ∧
      estimates us =
        (periodsUpTo e.lastBucket ((timestamps.map (·.tdiv period)).getLastD e.lastBucket)).map
          (trailingCount n (xs ++ timestamps.map (·.tdiv period))) := by
  induction timestamps generalizing xs e with
  | nil =>
      refine ⟨[], e, rfl, ?_⟩
      rw [List.map_nil, List.getLastD_nil, periodsUpTo_self]
      rfl
  | cons ts rest ih =>
      obtain ⟨hts, hrest⟩ := List.pairwise_cons.1 hsorted
      rw [List.map_cons, List.append_cons] at hfit ⊢
      have hle := hfrom ts List.mem_cons_self
      have hmono : ∀ t ∈ rest, ts.tdiv period ≤ t.tdiv period := fun t ht =>
        Int.tdiv_le_tdiv hperiod (hts t ht)
      obtain ⟨us, e₁, hsample, h₁, hlast, hest⟩ := h.sampleWith_run hadv hle hfit.of_append
      obtain ⟨vs, e', hrun, hlater⟩ := ih h₁ (hlast ▸ hmono) hrest hfit
      refine ⟨us ++ vs, e', ?_, ?_⟩
      · simp only [sampleAll, EStateM.run_bind, hsample, hrun, EStateM.run_pure]
      -- The estimates made now lie before the later samples, which do not change their counts.
      · have hnow : (periodsUpTo e.lastBucket (ts.tdiv period)).map (trailingCount n xs) =
            (periodsUpTo e.lastBucket (ts.tdiv period)).map
              (trailingCount n (xs ++ [ts.tdiv period] ++ rest.map (·.tdiv period))) := by
          apply List.map_congr_left
          intro p hp
          rw [List.append_assoc, trailingCount_append_of_lt]
          intro y hy
          have hlt := (mem_periodsUpTo.1 hp).2
          rcases List.mem_append.1 hy with hy | hy
          · exact (List.mem_singleton.1 hy).symm ▸ hlt
          · obtain ⟨t, ht, rfl⟩ := List.mem_map.1 hy
            exact lt_of_lt_of_le hlt (hmono t ht)
        -- The timestamps do not decrease, so the last bucket is no earlier than this one.
        have hend : ts.tdiv period ≤ (rest.map (·.tdiv period)).getLastD (ts.tdiv period) := by
          rw [List.getLastD_eq_getLast?]
          cases hl : (rest.map (·.tdiv period)).getLast? with
          | none => exact le_refl _
          | some y =>
              obtain ⟨t, ht, rfl⟩ := List.mem_map.1 (List.mem_of_getLast? hl)
              exact hmono t ht
        rw [estimates_append, hest, hnow, hlater, hlast, ← List.map_append,
          periodsUpTo_append hle hend, List.getLastD_cons]

end Samples

/-! ## From the construction on -/

section FromStart

variable {measurementPeriod samplingPeriod : Int} {e : EventRateEstimator}

/-- The periods that are accepted, and the number of slots for them. -/
theorem bucketCount_eq_ok_iff {n : Nat} :
    bucketCount measurementPeriod samplingPeriod = .ok n ↔
      0 < samplingPeriod ∧ samplingPeriod ≤ measurementPeriod ∧ samplingPeriod ∣ measurementPeriod ∧
        (measurementPeriod.tdiv samplingPeriod).toNat < 18446744073709551615 ∧
        (measurementPeriod.tdiv samplingPeriod).toNat = n := by
  simp only [bucketCount, bind, Except.bind, throw, throwThe, MonadExceptOf.throw, pure, Except.pure]
  constructor
  · intro h
    split_ifs at h with hpos hle hmod hmax
    exact ⟨not_le.1 hpos, not_lt.1 hle, Int.dvd_of_tmod_eq_zero (not_ne_iff.1 hmod), not_le.1 hmax,
      Except.ok.inj h⟩
  · rintro ⟨hpos, hle, hdvd, hmax, rfl⟩
    rw [if_neg (not_le.2 hpos), if_neg (not_lt.2 hle),
      if_neg (not_ne_iff.2 (Int.tmod_eq_zero_of_dvd hdvd)), if_neg (not_le.2 hmax)]

/-- A new estimator has at least one slot, all slots empty, and its position past the end. -/
theorem make_spec (h : make measurementPeriod samplingPeriod = .ok e) :
    0 < samplingPeriod ∧ 0 < (measurementPeriod.tdiv samplingPeriod).toNat ∧
      e = ⟨List.replicate (measurementPeriod.tdiv samplingPeriod).toNat 0, samplingPeriod, 0, 0,
        (measurementPeriod.tdiv samplingPeriod).toNat⟩ := by
  cases hn : bucketCount measurementPeriod samplingPeriod with
  | error f => simp [make, hn, bind, Except.bind] at h
  | ok n =>
      simp only [make, hn, bind, Except.bind, pure, Except.pure, Except.ok.injEq] at h
      obtain ⟨hpos, hle, hdvd, hmax, rfl⟩ := bucketCount_eq_ok_iff.1 hn
      refine ⟨hpos, ?_, h.symm⟩
      -- The measurement period holds at least one sampling period.
      have hone : samplingPeriod.tdiv samplingPeriod ≤ measurementPeriod.tdiv samplingPeriod :=
        Int.tdiv_le_tdiv hpos hle
      rw [Int.tdiv_self hpos.ne'] at hone
      omega

/-- The first sample starts the estimator. -/
theorem init_run {n : Nat} (hn : 0 < n) (period ts : Int) :
    ∃ e', (init ts).run ⟨List.replicate n 0, period, 0, 0, n⟩ = .ok () e' ∧
      Tracks n period [ts.tdiv period] e' ∧ e'.lastBucket = ts.tdiv period := by
  have hwrite := writeBucket_run 1
    (e := ⟨List.replicate n 0, period, 1, 0, 0⟩) (by simpa using hn)
  refine ⟨⟨(List.replicate n 0).set 0 1, period, 1, ts.tdiv period, 0⟩, ?_, ?_, rfl⟩
  · simp only [init, EStateM.run_bind, EStateM.run_modify, hwrite]
  · refine ⟨by simp, rfl, hn, ?_, ?_, by simp⟩
    · intro k hk
      cases k with
      | zero => simp [hn]
      | succ k =>
          have hne : Ring.back n 0 (k + 1) ≠ 0 := Ring.back_ne_self hk
          have hback := Ring.back_lt hn hk
          have hnone : [ts.tdiv period].count (ts.tdiv period - ((k + 1 : Nat) : Int)) = 0 := by
            apply List.count_eq_zero.2
            intro hk
            have heq := List.mem_singleton.1 hk
            omega
          rw [List.getElem?_set_ne hne.symm, List.getElem?_replicate_of_lt hback, hnone]
    · simp [trailingCount, hn]

/-- The estimates of a whole run. -/
theorem sampleAll_run {advance : Int → EStateM Failure EventRateEstimator (List RateUpdate)}
    (hadv : Advances advance) {counterSize n : Nat} {period : Int} (hn : 0 < n) (hperiod : 0 < period)
    {timestamps : List Int} (hsorted : timestamps.Pairwise (· ≤ ·))
    (hfit : CountersFit counterSize n (timestamps.map (·.tdiv period))) :
    ∃ us e', (sampleAll (sampleWith advance counterSize) timestamps).run
        ⟨List.replicate n 0, period, 0, 0, n⟩ = .ok us e' ∧
      estimates us = (periods (timestamps.map (·.tdiv period))).map
        (trailingCount n (timestamps.map (·.tdiv period))) := by
  cases timestamps with
  | nil => exact ⟨[], _, rfl, rfl⟩
  | cons ts rest =>
      obtain ⟨hts, hrest⟩ := List.pairwise_cons.1 hsorted
      obtain ⟨e₁, hinit, h₁, hlast⟩ := init_run hn period ts
      have hmono : ∀ t ∈ rest, e₁.lastBucket ≤ t.tdiv period := by
        intro t ht
        rw [hlast]
        exact Int.tdiv_le_tdiv hperiod (hts t ht)
      obtain ⟨us, e', hrun, hest⟩ := h₁.sampleAll_run hadv hperiod hmono hrest hfit
      have hnew : n ≥ (List.replicate n 0).length := by rw [List.length_replicate]
      refine ⟨us, e', ?_, ?_⟩
      · simp only [sampleAll, sampleWith, EStateM.run_bind, EStateM.run_get, if_pos hnew, hinit,
          EStateM.run_pure, hrun, List.nil_append]
      · rw [hest, hlast]
        rfl

/-- For every sequence of nondecreasing timestamps the updates stand for one estimate for each
sampling period from the first sample up to the last one, and the estimate is the number of samples
in the trailing window of the measurement period. Rotating step by step makes the same estimates. -/
theorem sampleAll_emits_trailing_counts (counterSize : Nat)
    (h : make measurementPeriod samplingPeriod = .ok e) (timestamps : List Int)
    (hsorted : timestamps.Pairwise (· ≤ ·))
    (hfit : CountersFit counterSize (measurementPeriod.tdiv samplingPeriod).toNat
      (timestamps.map (·.tdiv samplingPeriod))) :
    ∃ us e', (sampleAll (sample counterSize) timestamps).run e = .ok us e' ∧
      estimates us = (periods (timestamps.map (·.tdiv samplingPeriod))).map
        (trailingCount (measurementPeriod.tdiv samplingPeriod).toNat
          (timestamps.map (·.tdiv samplingPeriod))) ∧
      ∃ vs e'', (sampleAll (sampleWith advanceStepwise counterSize) timestamps).run e = .ok vs e'' ∧
        estimates vs = estimates us := by
  obtain ⟨hperiod, hn, rfl⟩ := make_spec h
  obtain ⟨us, e', hrun, hus⟩ := sampleAll_run advances_advance hn hperiod hsorted hfit
  obtain ⟨vs, e'', hstep, hvs⟩ := sampleAll_run advances_advanceStepwise hn hperiod hsorted hfit
  exact ⟨us, e', hrun, hus, vs, e'', hstep, hvs.trans hus.symm⟩

theorem sampleAll_emits_trailing_counts_jump :
    ∃ e us e', make 2 1 = .ok e ∧ (sampleAll (sample 128) [0, 1, 5]).run e = .ok us e' ∧
      estimates us = [1, 2, 1, 0, 0] := by
  have hmake : make 2 1 = .ok ⟨[0, 0], 1, 0, 0, 2⟩ := rfl
  obtain ⟨us, e', hrun, hest, -⟩ := sampleAll_emits_trailing_counts 128 hmake [0, 1, 5] (by decide)
    (countersFit_of_length (by decide) (by decide))
  exact ⟨_, us, e', hmake, hrun, hest⟩

end FromStart

end EventRateEstimator

end JayBeams
