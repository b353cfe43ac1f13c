import JayBeams.CpuSet

/-!
# Ranges of CPUs

The check of a range looks at its two ends one by one, so that a range whose end lies before its start
is accepted. With the end right before the start there is nothing to do and the loop does nothing. With
the end further down the counter never meets it (`rangeLoop_overflows`): every CPU from the start on is
changed, and the counter runs past the largest `int`.

The law of `set` and `clear` therefore holds exactly of the ranges that are not `Reversed`, and that of
`parse` of the strings of which no element that is read is a reversed range (`range_loops_iff`).
-/

set_option autoImplicit false

namespace JayBeams

namespace CpuSet

open Machines.Machine

/-! ## The loop -/

/-- A loop that starts at its end or before it puts the CPUs of the range. -/
theorem rangeLoop_ok (member : Bool) {cpuhi : Int} (hhi : cpuhi < 2147483647) (n : Nat) {i : Int}
    (hn : n = (2147483648 - i).toNat) (hi : i ≤ cpuhi + 1) (r : CpuSetRun) :
    ∃ r', (rangeLoop member cpuhi n i).run r = .ok () r' ∧
      (∀ k : Nat, r'.set.bits k =
        if i ≤ k ∧ (k : Int) ≤ cpuhi ∧ k < cpuSetSize then member else r.set.bits k) ∧
      ∀ cpu ∈ r'.touched, cpu ∈ r.touched ∨ i ≤ cpu ∧ cpu ≤ cpuhi := by
  induction n generalizing i r with
  | zero => omega
  | succ n ih =>
      rw [rangeLoop]
      by_cases hend : i = cpuhi + 1
      · rw [if_pos hend]
        refine ⟨r, rfl, fun k => ?_, fun cpu hcpu => Or.inl hcpu⟩
        have hout : ¬ (i ≤ k ∧ (k : Int) ≤ cpuhi ∧ k < cpuSetSize) := by omega
        rw [if_neg hout]
      · rw [if_neg hend]
        -- The first CPU is put, and the rest of the range by the loop from the next one on.
        obtain ⟨r', hrun, hbits, htouched⟩ := ih (i := i + 1) (by omega) (by omega)
          ⟨r.set.put member i, r.touched ++ [i]⟩
        refine ⟨r', ?_, fun k => ?_, fun cpu hcpu => ?_⟩
        · rw [EStateM.run_bind]
          exact hrun
        · rw [hbits]
          change (if i + 1 ≤ k ∧ (k : Int) ≤ cpuhi ∧ k < cpuSetSize then member
            else if (k : Int) = i ∧ k < cpuSetSize then member else r.set.bits k) = _
          split_ifs <;> first | rfl | omega
        · rcases htouched cpu hcpu with hcpu | hcpu
          · rcases List.mem_append.1 hcpu with hcpu | hcpu
            · exact Or.inl hcpu
            · have hfirst := List.mem_singleton.1 hcpu
              omega
          · omega

/-- A loop that starts behind its end puts all the CPUs that follow, and its counter runs past the
largest `int`. -/
theorem rangeLoop_overflows (member : Bool) {cpuhi : Int} (n : Nat) {i : Int}
    (hn : n = (2147483648 - i).toNat) (hlo : cpuhi + 1 < i) (hi : i ≤ 2147483648) (r : CpuSetRun) :
    ∃ r', (rangeLoop member cpuhi n i).run r = .error .signedOverflow r' ∧
      (∀ k : Nat, k < cpuSetSize → i ≤ k → r'.set.bits k = member) ∧
      (∀ k : Nat, (k : Int) < i → r'.set.bits k = r.set.bits k) := by
  induction n generalizing i r with
  | zero =>
      refine ⟨r, rfl, fun k hk hik => ?_, fun k _ => rfl⟩
      rw [cpuSetSize] at hk
      omega
  | succ n ih =>
      -- The counter is behind the end and grows.
      rw [rangeLoop, if_neg (by omega)]
      obtain ⟨r', hrun, habove, hbelow⟩ := ih (i := i + 1) (by omega) (by omega) (by omega)
        ⟨r.set.put member i, r.touched ++ [i]⟩
      refine ⟨r', ?_, fun k hk hik => ?_, fun k hk => ?_⟩
      · rw [EStateM.run_bind]
        exact hrun
      · rcases Int.lt_or_eq_of_le hik with hlt | heq
        · exact habove k hk (by omega)
        · rw [hbelow k (by omega)]
          -- The later steps leave the CPU that was put first.
          exact if_pos ⟨heq.symm, hk⟩
      · rw [hbelow k (by omega)]
        exact if_neg fun h => Int.ne_of_lt hk h.1

/-! ## The check -/

theorem sizeT_lt_iff {x : Int} (h : FitsInt x) : sizeT x < capacity ↔ 0 ≤ x ∧ x < cpuSetSize := by
  obtain ⟨hlo, hhi⟩ := h
  rw [sizeT, capacity, cpuSetSize]
  omega

/-- The check accepts a range by its two ends. -/
theorem checkRanges_run (cpulo : Int) {cpuhi : Int} (hfits : FitsInt cpuhi) (op : String)
    (r : CpuSetRun) :
    (0 ≤ cpulo ∧ 0 ≤ cpuhi ∧ cpuhi < cpuSetSize ∧ (checkRanges cpulo cpuhi op).run r = .ok () r) ∨
      (cpulo < 0 ∨ cpuhi < 0 ∨ cpuSetSize ≤ cpuhi) ∧
        ∃ what, (checkRanges cpulo cpuhi op).run r = .error (.outOfRange what) r := by
  have hsize := sizeT_lt_iff hfits
  rw [checkRanges]
  split_ifs with hout
  · right
    exact ⟨by omega, _, rfl⟩
  · left
    have hin : sizeT cpuhi < capacity := by omega
    obtain ⟨h0, hlt⟩ := hsize.1 hin
    exact ⟨by omega, h0, hlt, rfl⟩

/-- A CPU within the capacity is set. -/
theorem set_ok {cpu : Int} (h0 : 0 ≤ cpu) (hlt : cpu < cpuSetSize) (r : CpuSetRun) :
    (set cpu).run r = .ok () ⟨r.set.put true cpu, r.touched ++ [cpu]⟩ := by
  have hsize : cpuSetSize = 1024 := rfl
  have hin : sizeT cpu < capacity := (sizeT_lt_iff ⟨by omega, by omega⟩).2 ⟨h0, hlt⟩
  rw [set, checkRange, if_pos ⟨h0, hin⟩]
  rfl

/-! ## Ranges -/

/-- The check accepts the range, and the end lies before the start with a CPU between them. -/
def Reversed (cpulo cpuhi : Int) : Prop := 0 ≤ cpuhi ∧ cpuhi < cpuSetSize ∧ cpuhi + 1 < cpulo

instance (cpulo cpuhi : Int) : Decidable (Reversed cpulo cpuhi) :=
  inferInstanceAs (Decidable (_ ∧ _ ∧ _))

/-- What a call for a range should do: it returns with exactly the CPUs of the range changed, or it
raises an exception and leaves the set. -/
def ChangesRange (member : Bool) (cpulo cpuhi : Int) (r : CpuSetRun) :
    EStateM.Result CpuSetError CpuSetRun Unit → Prop
  | .ok _ r' => ∀ k : Nat, r'.set.bits k =
      if cpulo ≤ k ∧ (k : Int) ≤ cpuhi then member else r.set.bits k
  | .error e r' => e ≠ .signedOverflow ∧ r'.set = r.set

section Ranges

variable (member : Bool) (op : String) {cpulo cpuhi : Int} (r : CpuSetRun)

/-- A range that is refused leaves everything as it was. -/
theorem putRange_refused (hfits : FitsInt cpuhi)
    (h : cpulo < 0 ∨ cpuhi < 0 ∨ cpuSetSize ≤ cpuhi) :
    ∃ what, (putRange member op cpulo cpuhi).run r = .error (.outOfRange what) r := by
  rcases checkRanges_run cpulo hfits op r with ⟨hlo, h0, hlt, -⟩ | ⟨-, what, hrun⟩
  · omega
  · refine ⟨what, ?_⟩
    rw [putRange, EStateM.run_bind, hrun]

/-- A range within the capacity whose end is not further down than right before its start. -/
theorem putRange_ok (hlo : 0 ≤ cpulo) (h0 : 0 ≤ cpuhi) (hlt : cpuhi < cpuSetSize)
    (hle : cpulo ≤ cpuhi + 1) :
    ∃ r', (putRange member op cpulo cpuhi).run r = .ok () r' ∧
      (∀ k : Nat, r'.set.bits k =
        if cpulo ≤ k ∧ (k : Int) ≤ cpuhi then member else r.set.bits k) ∧
      ∀ cpu ∈ r'.touched, cpu ∈ r.touched ∨ cpulo ≤ cpu ∧ cpu ≤ cpuhi := by
  have hsize : cpuSetSize = 1024 := rfl
  have hfits : FitsInt cpuhi := ⟨by omega, by omega⟩
  rcases checkRanges_run cpulo hfits op r with ⟨-, -, -, hcheck⟩ | ⟨hout, -⟩
  · obtain ⟨r', hrun, hbits, htouched⟩ := rangeLoop_ok member (by omega) _ rfl hle r
    refine ⟨r', ?_, fun k => ?_, htouched⟩
    · rw [putRange, EStateM.run_bind, hcheck]
      exact hrun
    · rw [hbits]
      exact if_congr (by omega) rfl rfl
  · omega

/-- A reversed range changes every CPU from its start on, and the counter runs past the largest `int`. -/
theorem putRange_reversed (hfits : FitsInt cpulo) (h : Reversed cpulo cpuhi) :
    ∃ r', (putRange member op cpulo cpuhi).run r = .error .signedOverflow r' ∧
      ∀ k : Nat, k < cpuSetSize → cpulo ≤ k → r'.set.bits k = member := by
  obtain ⟨h0, hlt, hgap⟩ := h
  have hsize : cpuSetSize = 1024 := rfl
  have hfits' : FitsInt cpuhi := ⟨by omega, by omega⟩
  rcases checkRanges_run cpulo hfits' op r with ⟨-, -, -, hcheck⟩ | ⟨hout, -⟩
  · obtain ⟨r', hrun, habove, -⟩ := rangeLoop_overflows member _ rfl hgap
      (Int.le_of_lt hfits.2) r
    refine ⟨r', ?_, habove⟩
    rw [putRange, EStateM.run_bind, hcheck]
    exact hrun
  · omega

/-- The law holds of the ranges that are not reversed. -/
theorem changesRange_iff (hlo : FitsInt cpulo) (hhi : FitsInt cpuhi) :
    ChangesRange member cpulo cpuhi r ((putRange member op cpulo cpuhi).run r) ↔
      ¬ Reversed cpulo cpuhi := by
  by_cases hout : cpulo < 0 ∨ cpuhi < 0 ∨ cpuSetSize ≤ cpuhi
  · obtain ⟨what, hrun⟩ := putRange_refused member op r hhi hout
    rw [hrun]
    refine iff_of_true ⟨fun h => ?_, rfl⟩ fun h => ?_
    · cases h
    · obtain ⟨h0, hlt, hgap⟩ := h
      omega
  · by_cases hle : cpulo ≤ cpuhi + 1
    · obtain ⟨r', hrun, hbits, -⟩ := putRange_ok member op r (by omega) (by omega) (by omega) hle
      rw [hrun]
      refine iff_of_true hbits fun h => ?_
      exact Int.not_le.2 h.2.2 hle
    · have hreversed : Reversed cpulo cpuhi := ⟨by omega, by omega, by omega⟩
      obtain ⟨r', hrun, -⟩ := putRange_reversed member op r hlo hreversed
      rw [hrun]
      exact iff_of_false (fun h => h.1 rfl) (not_not_intro hreversed)

end Ranges

/-! ## Reading a list -/

/-- What an element of a list is read as. -/
inductive Element where
  | cpu (n : Int)
  | range (lo hi : Int)
  deriving DecidableEq

/-- The element that a string of `parse` is read as, none when the string is no element. -/
def element? (element : List Char) : Option Element :=
  let (lo, rest, eof) := (getline '-' element).getD ([], [], true)
  if eof then (strtonum lo).map .cpu
  else
    match getline '-' rest with
    | some (hi, _, true) =>
        match strtonum lo, strtonum hi with
        | some cpulo, some cpuhi => some (.range cpulo cpuhi)
        | _, _ => none
    | _ => none

/-- The body of the loop reads an element and puts it. -/
theorem parseElement_eq (value element : List Char) :
    parseElement value element =
      match element? element with
      | none => parseError value
      | some (.cpu n) => set n
      | some (.range lo hi) => setRange lo hi := by
  simp only [parseElement, element?]
  generalize (getline '-' element).getD ([], [], true) = first
  obtain ⟨lo, rest, eof⟩ := first
  cases eof with
  -- Without a dash the string is a number, else it is two of them.
  | true =>
      simp only [if_true]
      cases strtonum lo <;> rfl
  | false =>
      simp only [Bool.false_eq_true, if_false]
      rcases getline '-' rest with _ | ⟨hi, rest', _ | _⟩
      · rfl
      · rfl
      · dsimp only
        cases strtonum lo with
        | none => rfl
        | some cpulo => cases strtonum hi <;> rfl

/-- A number that is read is an `int`. -/
theorem fitsInt_of_strtonum {s : List Char} {x : Int} (h : strtonum s = some x) : FitsInt x := by
  rw [strtonum] at h
  split_ifs at h
  rcases hstoi : stoi s with _ | ⟨value, stop⟩
  · rw [hstoi] at h
    cases h
  · rw [hstoi] at h
    have hvalue : value = x := by
      simp only at h
      split_ifs at h
      exact Option.some.inj h
    subst hvalue
    simp only [stoi] at hstoi
    split_ifs at hstoi with hbad
    cases hstoi
    exact Classical.byContradiction fun hnot => hbad (Or.inr hnot)

namespace Element

/-- The numbers of the element are `int`s. -/
def Fits : Element → Prop
  | .cpu n => FitsInt n
  | .range lo hi => FitsInt lo ∧ FitsInt hi

/-- The element is put: its CPUs are within the capacity, and a range does not end before its start but
right there. -/
def Accepted : Element → Prop
  | .cpu n => 0 ≤ n ∧ n < cpuSetSize
  | .range lo hi => 0 ≤ lo ∧ 0 ≤ hi ∧ hi < cpuSetSize ∧ lo ≤ hi + 1

/-- The element is a reversed range. -/
def IsReversed : Element → Prop
  | .cpu _ => False
  | .range lo hi => Reversed lo hi

end Element

/-- The numbers of an element that is read are `int`s. -/
theorem fits_of_element? {element : List Char} {e : Element} (h : element? element = some e) :
    e.Fits := by
  simp only [element?] at h
  generalize (getline '-' element).getD ([], [], true) = first at h
  obtain ⟨lo, rest, eof⟩ := first
  cases eof with
  | true =>
      obtain ⟨n, hn, rfl⟩ := Option.map_eq_some_iff.1 h
      exact fitsInt_of_strtonum hn
  | false =>
      simp only [Bool.false_eq_true, if_false] at h
      split at h
      · split at h
        · next hlo hhi =>
            cases h
            exact ⟨fitsInt_of_strtonum hlo, fitsInt_of_strtonum hhi⟩
        · cases h
      · cases h

/-- None of the strings that are read is a reversed range. Those after one that is refused are not
read. -/
def NoneReversed : List (List Char) → Prop
  | [] => True
  | element :: elements =>
      (∀ e ∈ element? element, ¬ e.IsReversed) ∧
        ((∃ e ∈ element? element, e.Accepted) → NoneReversed elements)

/-- All the CPUs that were touched lie within the capacity. -/
def TouchesInside (r : CpuSetRun) : Prop := ∀ cpu ∈ r.touched, 0 ≤ cpu ∧ cpu < cpuSetSize

/-- What reading a list should do: it returns or raises an exception, and never touches a CPU outside of
the capacity. -/
def StaysInside : EStateM.Result CpuSetError CpuSetRun Unit → Prop
  | .ok _ r => TouchesInside r
  | .error e r => e ≠ .signedOverflow ∧ TouchesInside r

section Parse

variable (value : List Char) {element : List Char} {r : CpuSetRun}

/-- An element that is put. -/
theorem parseElement_accepted (h : TouchesInside r) {e : Element} (he : element? element = some e)
    (haccepted : e.Accepted) :
    ∃ r', (parseElement value element).run r = .ok () r' ∧ TouchesInside r' := by
  rw [parseElement_eq, he]
  cases e with
  | cpu n =>
      obtain ⟨h0, hlt⟩ := haccepted
      refine ⟨_, set_ok h0 hlt r, fun cpu hcpu => ?_⟩
      rcases List.mem_append.1 hcpu with hcpu | hcpu
      · exact h cpu hcpu
      · rw [List.mem_singleton.1 hcpu]
        exact ⟨h0, hlt⟩
  | range lo hi =>
      obtain ⟨hlo, h0, hlt, hle⟩ := haccepted
      obtain ⟨r', hrun, -, htouched⟩ := putRange_ok true "set" r hlo h0 hlt hle
      refine ⟨r', hrun, fun cpu hcpu => ?_⟩
      rcases htouched cpu hcpu with hcpu | hcpu
      · exact h cpu hcpu
      · omega

/-- A reversed range. -/
theorem parseElement_reversed {e : Element} (he : element? element = some e) (h : e.IsReversed) :
    ∃ r', (parseElement value element).run r = .error .signedOverflow r' := by
  rw [parseElement_eq, he]
  cases e with
  | cpu n => cases h
  | range lo hi =>
      obtain ⟨r', hrun, -⟩ := putRange_reversed true "set" r (fits_of_element? he).1 h
      exact ⟨r', hrun⟩

/-- Anything else is refused. -/
theorem parseElement_refused (hreversed : ∀ e ∈ element? element, ¬ e.IsReversed)
    (haccepted : ¬ ∃ e ∈ element? element, e.Accepted) :
    ∃ error, (parseElement value element).run r = .error error r ∧ error ≠ .signedOverflow := by
  rw [parseElement_eq]
  rcases he : element? element with _ | e
  · exact ⟨_, rfl, fun h => by cases h⟩
  · have haccepted : ¬ e.Accepted := fun h => haccepted ⟨e, he, h⟩
    have hreversed := hreversed e he
    have hfits := fits_of_element? he
    cases e with
    | cpu n =>
        refine ⟨.outOfRange (s!"cpu_set::set({n}) - argument out of range " ++
          s!"[0,{capacity - 1}]"), ?_, fun h => by cases h⟩
        have hcheck : ¬ (0 ≤ n ∧ sizeT n < capacity) := by
          rintro ⟨h0, hlt⟩
          exact haccepted ((sizeT_lt_iff hfits).1 hlt)
        simp only [set, checkRange, if_neg hcheck]
        rfl
    | range lo hi =>
        obtain ⟨hlo, hhi⟩ := hfits
        have hout : lo < 0 ∨ hi < 0 ∨ cpuSetSize ≤ hi := by
          simp only [Element.Accepted, Element.IsReversed, Reversed] at haccepted hreversed
          omega
        obtain ⟨what, hrun⟩ := putRange_refused true "set" r hhi hout
        exact ⟨_, hrun, fun h => by cases h⟩

/-- A loop over elements of which none is reversed stays within the capacity, and only such a loop. -/
theorem parseElements_staysInside_iff (elements : List (List Char)) (h : TouchesInside r) :
    StaysInside ((parseElements value elements).run r) ↔ NoneReversed elements := by
  induction elements generalizing r with
  | nil => exact iff_of_true h trivial
  | cons element elements ih =>
      rw [parseElements, EStateM.run_bind, NoneReversed]
      by_cases hreversed : ∀ e ∈ element? element, ¬ e.IsReversed
      · by_cases haccepted : ∃ e ∈ element? element, e.Accepted
        · obtain ⟨e, he, hok⟩ := haccepted
          obtain ⟨r', hrun, hinside⟩ := parseElement_accepted value h he hok
          rw [hrun]
          have hrest : ((∃ e ∈ element? element, e.Accepted) → NoneReversed elements) ↔
              NoneReversed elements := imp_iff_right ⟨e, he, hok⟩
          rw [hrest, and_iff_right hreversed]
          exact ih hinside
        · -- The loop ends here, and what follows is not read.
          obtain ⟨error, hrun, herror⟩ := parseElement_refused value (r := r) hreversed haccepted
          rw [hrun]
          exact iff_of_true ⟨herror, h⟩ ⟨hreversed, fun hok => absurd hok haccepted⟩
      · rw [not_forall] at hreversed
        obtain ⟨e, hreversed⟩ := hreversed
        rw [Classical.not_imp, not_not] at hreversed
        obtain ⟨he, hreversed⟩ := hreversed
        -- A reversed range is read.
        obtain ⟨r', hrun⟩ := parseElement_reversed value (r := r) he hreversed
        rw [hrun]
        exact iff_of_false (fun hstays => hstays.1 rfl) fun hnone => hnone.1 e he hreversed

end Parse

/-! ## The law -/

/-- `set` and `clear` raise or change exactly the CPUs of a range if and only if the range is not
reversed, and `parse` ends without touching a CPU outside of the capacity if and only if none of the
elements that it reads is a reversed range. -/
theorem range_loops_iff (r : CpuSetRun) {lo hi : Int} (hlo : FitsInt lo) (hhi : FitsInt hi)
    (value : List Char) :
    (ChangesRange true lo hi r ((setRange lo hi).run r) ↔ ¬ Reversed lo hi) ∧
      (ChangesRange false lo hi r ((clearRange lo hi).run r) ↔ ¬ Reversed lo hi) ∧
      (StaysInside (parseRun value) ↔ NoneReversed (elements value)) := by
  refine ⟨?_, ?_, ?_⟩
  · exact changesRange_iff true "set" r hlo hhi
  · exact changesRange_iff false "clear" r hlo hhi
  · apply parseElements_staysInside_iff
    exact List.forall_mem_nil _

/-- The range of three CPUs. -/
theorem range_loops_three :
    ChangesRange true 3 5 ⟨empty, []⟩ ((setRange 3 5).run ⟨empty, []⟩) ∧
      StaysInside (parseRun "3-5".toList) := by
  have hin : ¬ Reversed 3 5 := by decide
  have hlo : FitsInt 3 := by decide
  have hhi : FitsInt 5 := by decide
  obtain ⟨hset, -, hparse⟩ := range_loops_iff ⟨empty, []⟩ hlo hhi "3-5".toList
  refine ⟨hset.2 hin, hparse.2 ?_⟩
  -- the one element that is read is the range
  have hone : elements "3-5".toList = ["3-5".toList] := by decide +kernel
  have hrange : element? "3-5".toList = some (.range 3 5) := by decide +kernel
  rw [hone, NoneReversed, hrange]
  refine ⟨fun e he => ?_, fun _ => trivial⟩
  rw [← Option.mem_some.1 he]
  exact hin

/-- `set(5, 3)` is accepted. It sets CPU 1000 on its way and never meets its end, and so does
`parse("5-3")`. -/
theorem five_three_overflows :
    ¬ ChangesRange true 5 3 ⟨empty, []⟩ ((setRange 5 3).run ⟨empty, []⟩) ∧
      (∃ r, (setRange 5 3).run ⟨empty, []⟩ = .error .signedOverflow r ∧ r.set.status 1000 = true) ∧
      ¬ StaysInside (parseRun "5-3".toList) := by
  have hreversed : Reversed 5 3 := by decide
  have hlo : FitsInt 5 := by decide
  have hhi : FitsInt 3 := by decide
  refine ⟨?_, ?_, ?_⟩
  · have hlaw := changesRange_iff true "set" ⟨empty, []⟩ hlo hhi
    rw [setRange, hlaw]
    exact not_not_intro hreversed
  · obtain ⟨r, hrun, habove⟩ := putRange_reversed true "set" ⟨empty, []⟩ hlo hreversed
    have hlt : 1000 < cpuSetSize := by rw [cpuSetSize]; omega
    exact ⟨r, hrun, habove 1000 hlt (by omega)⟩
  · have hone : elements "5-3".toList = ["5-3".toList] := by decide +kernel
    have hrange : element? "5-3".toList = some (.range 5 3) := by decide +kernel
    have hnone := parseElements_staysInside_iff "5-3".toList (r := ⟨empty, []⟩)
      (elements "5-3".toList) (List.forall_mem_nil _)
    rw [hone] at hnone
    rw [parseRun, hone, hnone]
    exact fun h => h.1 _ hrange hreversed

end CpuSet

end JayBeams
