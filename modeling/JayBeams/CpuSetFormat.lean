import JayBeams.CpuSetRanges
import JayBeams.Library.CommaLines
import JayBeams.Library.NatRanges
import Mathlib.Data.List.TakeWhile

/-!
# The list format of a set of CPUs

`as_list_format` scans the set for its maximal runs, and what it writes is the list of their ranges
(`asListFormat_lists`): they follow one another with a CPU between each two, and cover exactly the
members. A run of one CPU is written as a number, except at the last CPU, where it is written as a range
(`rangeText`).

Reading back, the commas separate the texts of the ranges (`elements_joinFrom`), as no text is empty or
contains a comma; each text is read as a number (`element?_number`) or a range (`element?_range`), and
the loop of `parse` puts them all (`parseElements_rangeTexts`). So `parse` gives back the set that was
written (`list_format`).
-/

set_option autoImplicit false

namespace JayBeams

namespace CpuSet

open NatRange

/-! ## Writing -/

/-- The CPUs of the set. -/
def members (s : CpuSet) : Set Nat := { cpu | s.status cpu = true }

theorem lt_of_mem_members {s : CpuSet} {cpu : Nat} (h : cpu ∈ s.members) : cpu < capacity :=
  s.lt_of_bits cpu h

/-- How a range is written. -/
def rangeText (r : NatRange) : List Char :=
  if r.lo = r.hi ∧ r.hi + 1 ≠ capacity then Nat.toDigits 10 r.lo
  else Nat.toDigits 10 r.lo ++ '-' :: Nat.toDigits 10 r.hi

/-- Texts in a row: the first one comes after `sep`, the others after a comma. -/
def joinFrom : List Char → List (List Char) → List Char
  | _, [] => []
  | sep, text :: texts => sep ++ text ++ joinFrom [','] texts

theorem joinFrom_cons_cons (text next : List Char) (texts : List (List Char)) :
    joinFrom [] (text :: next :: texts) = text ++ ',' :: joinFrom [] (next :: texts) := by
  simp only [joinFrom, List.nil_append, List.cons_append]

theorem joinFrom_nil (texts : List (List Char)) : joinFrom [] texts = [','].intercalate texts := by
  induction texts with
  | nil => rfl
  | cons text texts ih =>
      cases texts with
      | nil => simp only [joinFrom, List.nil_append, List.append_nil, List.intercalate_singleton]
      | cons next texts =>
          rw [joinFrom_cons_cons, ih, List.intercalate_cons_cons, List.append_assoc,
            List.singleton_append]

/-- The inner loop stops behind the members that it starts in front of. -/
theorem runEnd_spec (s : CpuSet) (n : Nat) {i : Nat} (hn : n + i = capacity) :
    i ≤ runEnd s n i ∧ runEnd s n i ≤ capacity ∧ runEnd s n i ∉ s.members ∧
      ∀ k, i ≤ k → k < runEnd s n i → k ∈ s.members := by
  induction n generalizing i with
  | zero =>
      rw [runEnd]
      refine ⟨le_rfl, by omega, fun h => ?_, fun k hik hki => absurd hki (Nat.not_lt.2 hik)⟩
      have hlt := lt_of_mem_members h
      omega
  | succ n ih =>
      rw [runEnd]
      split_ifs with hmember
      · -- The CPU is a member of the run, which goes on.
        obtain ⟨hle, hcapacity, hend, hrun⟩ := ih (i := i + 1) (by omega)
        refine ⟨Nat.le_of_succ_le hle, hcapacity, hend, fun k hik hki => ?_⟩
        rcases Nat.lt_or_eq_of_le hik with hlt | heq
        · exact hrun k hlt hki
        · exact heq ▸ hmember.2
      · refine ⟨le_rfl, by omega, fun h => ?_, fun k hik hki => absurd hki (Nat.not_lt.2 hik)⟩
        exact hmember ⟨by omega, h⟩

/-- The outer loop writes the ranges of the members from a CPU on. -/
theorem formatFrom_lists (s : CpuSet) (n : Nat) {i : Nat} (hn : capacity ≤ n + i) (sep : List Char) :
    ∃ rs, formatFrom s n i sep = joinFrom sep (rs.map rangeText) ∧ ListsFrom s.members i rs := by
  induction n generalizing i sep with
  | zero =>
      refine ⟨[], rfl, ListsFrom.nil fun k hk => ?_⟩
      have hlt := lt_of_mem_members hk
      omega
  | succ n ih =>
      rw [formatFrom]
      by_cases hi : i < capacity
      · rw [if_neg (not_not_intro hi)]
        by_cases hmember : s.status i = false
        · rw [if_pos hmember]
          obtain ⟨rs, htext, hlists⟩ := ih (i := i + 1) (by omega) sep
          refine ⟨rs, htext, (listsFrom_succ_iff fun h => ?_).1 hlists⟩
          exact Bool.false_ne_true (hmember.symm.trans h)
        · rw [if_neg hmember]
          obtain ⟨hle, -, hend, hrun⟩ := runEnd_spec s (capacity - i) (i := i) (by omega)
          generalize runEnd s (capacity - i) i = stop at hle hend hrun ⊢
          dsimp only
          have hstart : i ∈ s.members := Bool.of_not_eq_false hmember
          have hlt : i < stop := Nat.lt_of_le_of_ne hle fun h => hend (h ▸ hstart)
          obtain ⟨last, rfl⟩ := Nat.exists_eq_add_one_of_ne_zero (Nat.ne_zero_of_lt hlt)
          let r : NatRange := ⟨i, last, Nat.lt_succ_iff.1 hlt⟩
          have hmembers : r.toSet ⊆ s.members := fun k hk => hrun k hk.1 (Nat.lt_succ_iff.2 hk.2)
          by_cases hrange : last + 1 ≠ i + 1 ∨ last + 1 = capacity
          · -- The run is written as a range, and the scan goes on behind the CPU that ends it.
            obtain ⟨rs, htext, hlists⟩ := ih (i := last + 1 + 1) (by omega) [',']
            refine ⟨r :: rs, ?_, ListsFrom.cons hmembers hend ((listsFrom_succ_iff hend).1 hlists)⟩
            have hmany : ¬ (i = last ∧ last + 1 ≠ capacity) := by omega
            have hr : rangeText r = Nat.toDigits 10 i ++ '-' :: Nat.toDigits 10 last := if_neg hmany
            rw [if_pos hrange, htext, List.map_cons, joinFrom, hr, Nat.add_sub_cancel]
            simp only [List.append_assoc, List.cons_append]
          · -- The run is one CPU, and the scan goes on at the CPU that ends it.
            obtain ⟨rs, htext, hlists⟩ := ih (i := i + 1) (by omega) [',']
            have hlast : last = i := by omega
            subst hlast
            refine ⟨r :: rs, ?_, ListsFrom.cons hmembers hend hlists⟩
            have hone : last = last ∧ last + 1 ≠ capacity := by omega
            have hr : rangeText r = Nat.toDigits 10 last := if_pos hone
            rw [if_neg hrange, htext, List.map_cons, joinFrom, hr]
      · rw [if_pos hi]
        refine ⟨[], rfl, ListsFrom.nil fun k hk => ?_⟩
        have hlt := lt_of_mem_members hk
        omega

/-- What is written are the ranges of the set. -/
theorem asListFormat_lists (s : CpuSet) :
    ∃ rs, asListFormat s = joinFrom [] (rs.map rangeText) ∧ ListsFrom s.members 0 rs :=
  formatFrom_lists s capacity le_rfl []

/-! ## Reading numbers -/

theorem isSpace_eq_false {c : Char} (h : c.isDigit) : isSpace c = false := by
  obtain ⟨hlo, hhi⟩ := Char.isDigit_iff_toNat.1 h
  have h0 : '0'.toNat = 48 := rfl
  have h9 : '9'.toNat = 57 := rfl
  simp only [isSpace, Bool.or_eq_false_iff, beq_eq_false_iff_ne, Bool.and_eq_false_iff,
    decide_eq_false_iff_not]
  omega

/-- `stoi` reads the digits of a number to their end. -/
theorem stoi_toDigits {n : Nat} (h : FitsInt n) :
    stoi (Nat.toDigits 10 n) = some ((n : Int), (Nat.toDigits 10 n).length) := by
  have hne : Nat.toDigits 10 n ≠ [] := Nat.toDigits_ne_nil
  have hdigit : ∀ c ∈ Nat.toDigits 10 n, c.isDigit := fun c hc =>
    Nat.isDigit_of_mem_toDigits (by omega) (by omega) hc
  have hvalue : Nat.ofDigitChars 10 (Nat.toDigits 10 n) 0 = n := Nat.ofDigitChars_ten_toDigits
  generalize Nat.toDigits 10 n = digits at hne hdigit hvalue ⊢
  have htake : digits.takeWhile Char.isDigit = digits := List.takeWhile_eq_self_iff.2 hdigit
  have hdrop : digits.dropWhile Char.isDigit = [] := List.dropWhile_eq_nil_iff.2 hdigit
  obtain ⟨c, cs, rfl⟩ := List.exists_cons_of_ne_nil hne
  have hfirst : c.isDigit := hdigit c List.mem_cons_self
  have hspace : (c :: cs).dropWhile isSpace = c :: cs := by
    rw [List.dropWhile_cons_of_neg]
    rw [isSpace_eq_false hfirst]
    exact Bool.false_ne_true
  rw [stoi, hspace]
  split
  next sign unsigned hsign =>
      -- A digit is neither of the two signs.
      have hplain : ((1 : Int), c :: cs) = (sign, unsigned) := by
        split at hsign
        · next heq =>
            cases heq
            exact absurd hfirst (by decide)
        · next heq =>
            cases heq
            exact absurd hfirst (by decide)
        · exact hsign
      cases hplain
      dsimp only
      rw [htake, hdrop, hvalue, Int.one_mul, if_neg]
      · rfl
      · rintro (hnil | hbad)
        · exact hne hnil
        · exact hbad h

theorem strtonum_toDigits {n : Nat} (h : FitsInt n) :
    strtonum (Nat.toDigits 10 n) = some (n : Int) := by
  rw [strtonum, if_neg Nat.toDigits_ne_nil, stoi_toDigits h]
  exact if_pos rfl

/-! ## Splitting at a character -/

section Getline

variable {delim : Char} {line : List Char}

/-- A line without the delimiter is met with the end of the stream. -/
theorem getline_of_notMem (hne : line ≠ []) (h : delim ∉ line) :
    getline delim line = some (line, [], true) := by
  have hdrop : line.dropWhile (· != delim) = [] := by
    rw [List.dropWhile_eq_nil_iff]
    intro c hc
    exact bne_iff_ne.2 fun heq => h (heq ▸ hc)
  rw [getline, if_neg hne, hdrop]

/-- A line with the delimiter behind it. -/
theorem getline_append (h : delim ∉ line) (rest : List Char) :
    getline delim (line ++ delim :: rest) = some (line, rest, false) := by
  have hpos : ∀ c ∈ line, (c != delim) = true := fun c hc => bne_iff_ne.2 fun heq => h (heq ▸ hc)
  have htake : (line ++ delim :: rest).takeWhile (· != delim) = line := by
    rw [List.takeWhile_append_of_pos hpos, List.takeWhile_cons_of_neg (by simp), List.append_nil]
  have hdrop : (line ++ delim :: rest).dropWhile (· != delim) = delim :: rest := by
    rw [List.dropWhile_append_of_pos hpos, List.dropWhile_cons_of_neg (by simp)]
  have hne : line ++ delim :: rest ≠ [] := List.append_ne_nil_of_right_ne_nil _ (List.cons_ne_nil _ _)
  rw [getline, if_neg hne, hdrop]
  dsimp only
  rw [htake]

end Getline

/-- The commas separate the texts that were joined. -/
theorem elementsUpTo_joinFrom {texts : List (List Char)} (h : ∀ text ∈ texts, text ≠ [] ∧ ',' ∉ text)
    (n : Nat) (hn : (joinFrom [] texts).length ≤ n) : elementsUpTo n (joinFrom [] texts) = texts := by
  induction texts generalizing n with
  | nil => cases n <;> rfl
  | cons text texts ih =>
      obtain ⟨⟨hne, hcomma⟩, hrest⟩ := List.forall_mem_cons.1 h
      cases texts with
      | nil =>
          have hjoin : joinFrom [] [text] = text := by
            rw [joinFrom_nil, List.intercalate_singleton]
          rw [hjoin] at hn ⊢
          cases n with
          | zero => exact absurd (List.eq_nil_of_length_eq_zero (Nat.le_zero.1 hn)) hne
          | succ n =>
              -- The last text ends with the stream.
              rw [elementsUpTo, getline_of_notMem hne hcomma]
              rfl
      | cons next texts =>
          rw [joinFrom_cons_cons] at hn ⊢
          rw [List.length_append, List.length_cons] at hn
          cases n with
          | zero => omega
          | succ n =>
              -- The others end at a comma.
              rw [elementsUpTo, getline_append hcomma]
              simp only [Bool.false_eq_true, if_false]
              rw [ih hrest n (by omega)]

/-- The strings that `parse` reads are the texts that were joined. -/
theorem elements_joinFrom {texts : List (List Char)} (h : ∀ text ∈ texts, text ≠ [] ∧ ',' ∉ text) :
    elements (joinFrom [] texts) = texts :=
  elementsUpTo_joinFrom h _ le_rfl

/-! ## Reading ranges -/

/-- A text is not empty, and has no comma. -/
theorem rangeText_facts (r : NatRange) : rangeText r ≠ [] ∧ ',' ∉ rangeText r := by
  have hcomma := CommaLines.notMem_toDigits (c := ',') rfl
  rw [rangeText]
  split_ifs
  · exact ⟨Nat.toDigits_ne_nil, hcomma r.lo⟩
  · refine ⟨List.append_ne_nil_of_right_ne_nil _ (List.cons_ne_nil _ _), fun h => ?_⟩
    rcases List.mem_append.1 h with h | h
    · exact hcomma r.lo h
    · rcases List.mem_cons.1 h with h | h
      · exact absurd h (by decide)
      · exact hcomma r.hi h

section Element

variable {lo hi : Nat}

theorem element?_number (h : FitsInt lo) : element? (Nat.toDigits 10 lo) = some (.cpu lo) := by
  have hdash := CommaLines.notMem_toDigits (c := '-') rfl
  rw [element?, getline_of_notMem Nat.toDigits_ne_nil (hdash lo)]
  simp only [Option.getD_some, if_true, strtonum_toDigits h, Option.map_some]

theorem element?_range (hlo : FitsInt lo) (hhi : FitsInt hi) :
    element? (Nat.toDigits 10 lo ++ '-' :: Nat.toDigits 10 hi) = some (.range lo hi) := by
  have hdash := CommaLines.notMem_toDigits (c := '-') rfl
  rw [element?, getline_append (hdash lo)]
  simp only [Option.getD_some, Bool.false_eq_true, if_false,
    getline_of_notMem Nat.toDigits_ne_nil (hdash hi), strtonum_toDigits hlo, strtonum_toDigits hhi]

end Element

/-- The loop puts the CPUs of a range that was written. -/
theorem parseElement_rangeText (value : List Char) {r : NatRange} (h : r.hi < capacity) (w : CpuSetRun) :
    ∃ w', (parseElement value (rangeText r)).run w = .ok () w' ∧
      ∀ k, w'.set.bits k = true ↔ k ∈ r.toSet ∨ w.set.bits k = true := by
  have hle := r.le
  have hcapacity : capacity = 1024 := rfl
  have hsize : cpuSetSize = 1024 := rfl
  have hlo : FitsInt r.lo := ⟨by omega, by omega⟩
  have hhi : FitsInt r.hi := ⟨by omega, by omega⟩
  rw [parseElement_eq, rangeText]
  split_ifs with hone
  · rw [element?_number hlo]
    refine ⟨_, set_ok (by omega) (by omega) w, fun k => ?_⟩
    have hk : k ∈ r.toSet ↔ (k : Int) = r.lo ∧ k < cpuSetSize := by
      rw [toSet, Set.mem_Icc]
      omega
    rw [hk]
    change (if (k : Int) = r.lo ∧ k < cpuSetSize then true else w.set.bits k) = true ↔ _
    split_ifs with hin
    · exact iff_of_true rfl (Or.inl hin)
    · exact (or_iff_right hin).symm
  · rw [element?_range hlo hhi]
    have h0 : (0 : Int) ≤ r.lo := Int.natCast_nonneg r.lo
    have h0' : (0 : Int) ≤ r.hi := Int.natCast_nonneg r.hi
    obtain ⟨w', hrun, hbits, -⟩ := putRange_ok true "set" w h0 h0' (by omega) (by omega)
    refine ⟨w', hrun, fun k => ?_⟩
    have hk : k ∈ r.toSet ↔ (r.lo : Int) ≤ k ∧ (k : Int) ≤ r.hi := by
      rw [toSet, Set.mem_Icc]
      omega
    rw [hbits, hk]
    split_ifs with hin
    · exact iff_of_true rfl (Or.inl hin)
    · exact (or_iff_right hin).symm

/-- The loop puts the CPUs of all the ranges that were written. -/
theorem parseElements_rangeTexts (value : List Char) {rs : List NatRange}
    (h : ∀ r ∈ rs, r.hi < capacity) (w : CpuSetRun) :
    ∃ w', (parseElements value (rs.map rangeText)).run w = .ok () w' ∧
      ∀ k, w'.set.bits k = true ↔ (∃ r ∈ rs, k ∈ r.toSet) ∨ w.set.bits k = true := by
  induction rs generalizing w with
  | nil =>
      refine ⟨w, rfl, fun k => (or_iff_right ?_).symm⟩
      rintro ⟨r, hr, -⟩
      cases hr
  | cons r rs ih =>
      -- The CPUs put are those of the first range and then those of the others.
      obtain ⟨hr, hrs⟩ := List.forall_mem_cons.1 h
      obtain ⟨w₁, hrun₁, hbits₁⟩ := parseElement_rangeText value hr w
      obtain ⟨w₂, hrun₂, hbits₂⟩ := ih hrs w₁
      refine ⟨w₂, ?_, fun k => ?_⟩
      · rw [List.map_cons, parseElements, EStateM.run_bind, hrun₁]
        exact hrun₂
      · rw [hbits₂, hbits₁, List.exists_mem_cons_iff, or_assoc]
        exact or_left_comm

/-! ## The round trip -/

/-- `parse` gives back a set from its list format. The format lists ranges in increasing order, of which
no two overlap or touch, and which cover exactly the members of the set. -/
theorem list_format (s : CpuSet) :
    parse (asListFormat s) = .ok s ∧
      ∃ rs : List NatRange, asListFormat s = [','].intercalate (rs.map rangeText) ∧
        (rs.Pairwise fun r r' => r.hi + 1 < r'.lo) ∧
        ∀ cpu, s.status cpu = true ↔ ∃ r ∈ rs, r.lo ≤ cpu ∧ cpu ≤ r.hi := by
  obtain ⟨rs, htext, hlists⟩ := asListFormat_lists s
  have hmembers : ∀ cpu, (∃ r ∈ rs, cpu ∈ r.toSet) ↔ cpu ∈ s.members := fun cpu =>
    (hlists.mem_iff cpu).trans (and_iff_right (Nat.zero_le cpu))
  refine ⟨?_, rs, htext.trans (joinFrom_nil _), hlists.separated.pairwise, fun cpu => ?_⟩
  · have hinside : ∀ r ∈ rs, r.hi < capacity := fun r hr =>
      lt_of_mem_members ((hmembers r.hi).1 ⟨r, hr, r.le, le_rfl⟩)
    have helements : elements (asListFormat s) = rs.map rangeText := by
      rw [htext]
      exact elements_joinFrom (List.forall_mem_map.2 fun r _ => rangeText_facts r)
    obtain ⟨w, hrun, hbits⟩ := parseElements_rangeTexts (asListFormat s) hinside ⟨empty, []⟩
    -- The loop started with an empty set, and put just the members.
    have hset : w.set = s := by
      ext cpu
      rw [Bool.eq_iff_iff, hbits, hmembers]
      exact or_iff_left Bool.false_ne_true
    rw [parse, parseRun, helements, hrun]
    exact congrArg Except.ok hset
  · exact (hmembers cpu).symm

end CpuSet

end JayBeams
