import JayBeams.Itch5.PriceField
import Mathlib.Tactic.ByContra

/-!
# Price levels and prices

A price field counts fractions of a dollar, ten thousand or a multiple of it. `tickPrice` is the price
of a level for any of these fields: a mill for each level up to one dollar, a penny for each one above.
`price_levels` counts the levels between prices of that form (`priceLevels_tickPrice`), for every
field.

`level_to_price` is its inverse for `price4_t` only. It takes the fractions that the field counts for
mills, and goes through an `int`. For `price8_t` no level but 0 comes back (`levelRoundTrip_price8`).
-/

set_option autoImplicit false

namespace JayBeams.Itch5

/-! ## Prices on a tick -/

/-- A price at which an order can be quoted: a whole number of mills below one dollar, of pennies from
one dollar on. -/
def OnTick (t : PriceType) (px : Nat) : Prop :=
  if px < dollarPrice t then px % (t.denom / 100 / 100) = 0 else px % (t.denom / 100) = 0

/-- The price of a level. -/
def tickPrice (t : PriceType) (l : Nat) : Nat :=
  if l ≤ 10000 then l * (t.denom / 100 / 100) else dollarPrice t + (l - 10000) * (t.denom / 100)

section Ticks

variable {t : PriceType} {k : Nat} (ht : t.denom = 10000 * k)
include ht

theorem penny_eq : t.denom / 100 = 100 * k := by omega

theorem mill_eq : t.denom / 100 / 100 = k := by omega

theorem tickPrice_of_le {l : Nat} (h : l ≤ 10000) : tickPrice t l = l * k := by
  rw [tickPrice, if_pos h, mill_eq ht]

theorem tickPrice_of_ge {l : Nat} (h : 10000 ≤ l) :
    tickPrice t l = 10000 * k + (l - 10000) * (100 * k) := by
  rcases Nat.eq_or_lt_of_le h with rfl | h
  · rw [tickPrice_of_le ht (Nat.le_refl _), Nat.sub_self, Nat.zero_mul, Nat.add_zero]
  · rw [tickPrice, if_neg (Nat.not_le.2 h), penny_eq ht, dollarPrice, ht]

theorem dollarPrice_eq : dollarPrice t = tickPrice t 10000 := by
  rw [tickPrice_of_le ht (Nat.le_refl _), dollarPrice, ht]

variable (hk : 0 < k)
include hk

/-- A higher level has a higher price. -/
theorem tickPrice_lt {l m : Nat} (h : l < m) : tickPrice t l < tickPrice t m := by
  rcases Nat.lt_or_ge 10000 m with hm | hm
  · rw [tickPrice_of_ge ht (Nat.le_of_lt hm)]
    rcases Nat.lt_or_ge 10000 l with hl | hl
    · rw [tickPrice_of_ge ht (Nat.le_of_lt hl)]
      have hgap : l - 10000 < m - 10000 := by omega
      exact Nat.add_lt_add_left (Nat.mul_lt_mul_of_pos_right hgap (by omega)) _
    · rw [tickPrice_of_le ht hl]
      have hle : l * k ≤ 10000 * k := Nat.mul_le_mul_right k hl
      have hpos : 0 < (m - 10000) * (100 * k) := Nat.mul_pos (by omega) (by omega)
      omega
  · rw [tickPrice_of_le ht hm, tickPrice_of_le ht (by omega)]
    exact Nat.mul_lt_mul_of_pos_right h hk

theorem tickPrice_le_iff {l m : Nat} : tickPrice t l ≤ tickPrice t m ↔ l ≤ m := by
  constructor
  · intro h
    by_contra hlt
    exact Nat.not_lt.2 h (tickPrice_lt ht hk (Nat.not_le.1 hlt))
  · intro h
    rcases Nat.eq_or_lt_of_le h with rfl | h
    · exact Nat.le_refl _
    · exact Nat.le_of_lt (tickPrice_lt ht hk h)

/-- The prices on a tick are those of the levels. -/
theorem onTick_iff {px : Nat} : OnTick t px ↔ ∃ l, px = tickPrice t l := by
  rw [OnTick, mill_eq ht, penny_eq ht, dollarPrice, ht]
  split_ifs with hbelow
  · constructor
    · intro h
      -- Below a dollar the ticks are mills.
      have hle : px / k ≤ 10000 := Nat.div_le_of_le_mul (by rw [Nat.mul_comm]; omega)
      refine ⟨px / k, ?_⟩
      rw [tickPrice_of_le ht hle, Nat.div_mul_cancel (Nat.dvd_of_mod_eq_zero h)]
    · rintro ⟨l, rfl⟩
      have hlt : l < 10000 := by
        by_contra hge
        rw [tickPrice_of_ge ht (Nat.not_lt.1 hge)] at hbelow
        omega
      rw [tickPrice_of_le ht (Nat.le_of_lt hlt), Nat.mul_mod_left]
  · constructor
    · intro h
      obtain ⟨n, rfl⟩ := Nat.dvd_of_mod_eq_zero h
      -- From a dollar on they are pennies.
      have hn : 100 ≤ n := by
        by_contra hlt
        have hmul : 100 * k * n ≤ 100 * k * 99 := Nat.mul_le_mul_left _ (by omega)
        omega
      refine ⟨10000 + (n - 100), ?_⟩
      rw [tickPrice_of_ge ht (by omega), Nat.add_sub_cancel_left, Nat.mul_comm (n - 100),
        Nat.mul_sub]
      have hmul : 100 * k * 100 ≤ 100 * k * n := Nat.mul_le_mul_left _ hn
      omega
    · rintro ⟨l, rfl⟩
      have hge : 10000 ≤ l := by
        by_contra hlt
        apply hbelow
        rw [tickPrice_of_le ht (by omega)]
        exact Nat.mul_lt_mul_of_pos_right (by omega) hk
      have hdollar : 10000 * k = 100 * (100 * k) := by omega
      rw [tickPrice_of_ge ht hge, hdollar, ← Nat.add_mul, Nat.mul_mod_left]

/-- Between the prices of two levels lie as many levels as between the levels. -/
theorem priceLevels_tickPrice {l m : Nat} (h : l ≤ m) :
    priceLevels t (tickPrice t l) (tickPrice t m) = .ok (m - l) := by
  have habove : ∀ {l m : Nat}, 10000 ≤ l → l ≤ m →
      (tickPrice t m - tickPrice t l) / (100 * k) = m - l := by
    intro l m hl hlm
    rw [tickPrice_of_ge ht hl, tickPrice_of_ge ht (by omega), Nat.add_sub_add_left,
      ← Nat.sub_mul, Nat.mul_div_cancel _ (by omega)]
    omega
  have hbelow : ∀ {l m : Nat}, m ≤ 10000 → l ≤ m → (tickPrice t m - tickPrice t l) / k = m - l := by
    intro l m hm hlm
    rw [tickPrice_of_le ht hm, tickPrice_of_le ht (by omega), ← Nat.sub_mul,
      Nat.mul_div_cancel _ hk]
  -- a range on one side of a dollar is counted without a recursive call
  have hone : ∀ (depth : Nat) {l m : Nat}, l ≤ m → 10000 ≤ l ∨ m ≤ 10000 →
      priceLevelsRec t (depth + 1) (tickPrice t l) (tickPrice t m) = .ok (m - l) := by
    intro depth l m hlm hside
    rw [priceLevelsRec, dollarPrice_eq ht, if_neg (Nat.not_lt.2 ((tickPrice_le_iff ht hk).2 hlm)),
      penny_eq ht, Nat.mul_div_cancel_left k (by decide)]
    by_cases hl : 10000 ≤ l
    · rw [if_pos ((tickPrice_le_iff ht hk).2 hl), habove hl hlm]
    · have hm : m ≤ 10000 := by omega
      rw [if_neg (fun hle => hl ((tickPrice_le_iff ht hk).1 hle)),
        if_pos ((tickPrice_le_iff ht hk).2 hm), hbelow hm hlm]
  by_cases hside : 10000 ≤ l ∨ m ≤ 10000
  · exact hone 1 h hside
  · -- A range across a dollar is counted as its two parts.
    have hl : ¬ 10000 ≤ l := fun hle => hside (Or.inl hle)
    have hm : ¬ m ≤ 10000 := fun hle => hside (Or.inr hle)
    change priceLevelsRec t (1 + 1) _ _ = _
    rw [priceLevelsRec, dollarPrice_eq ht, if_neg (Nat.not_lt.2 ((tickPrice_le_iff ht hk).2 h)),
      if_neg (fun hle => hl ((tickPrice_le_iff ht hk).1 hle)),
      if_neg (fun hle => hm ((tickPrice_le_iff ht hk).1 hle)), penny_eq ht]
    split_ifs with hzero
    · -- the shortcut for a range from zero on
      have hl0 : l = 0 := by
        rw [tickPrice_of_le ht (by omega)] at hzero
        exact (Nat.mul_eq_zero.1 hzero).resolve_right (by omega)
      have hsum : 10000 + (m - 10000) = m - l := by omega
      rw [habove (Nat.le_refl _) (by omega), hsum]
    · rw [hone 0 (by omega) (Or.inr (Nat.le_refl _)), hone 0 (by omega) (Or.inl (Nat.le_refl _))]
      have hsum : 10000 - l + (m - 10000) = m - l := by omega
      change Except.ok (10000 - l + (m - 10000)) = Except.ok (m - l)
      rw [hsum]

end Ticks

/-! ## The laws of levels and prices -/

/-- The level is at most that of the maximum price. -/
def IsLevel (t : PriceType) (l : Nat) : Prop :=
  ∃ top, priceLevels t 0 (maxPriceFieldValue t) = .ok top ∧ l ≤ top

/-- The level of a price has that price. -/
def PriceRoundTrip (t : PriceType) (px : Nat) : Prop :=
  (do levelToPrice t (← priceLevels t 0 px)) = .ok px

/-- The price of a level has that level. -/
def LevelRoundTrip (t : PriceType) (l : Nat) : Prop :=
  (do priceLevels t 0 (← levelToPrice t l)) = .ok l

/-- A higher price has a higher level. -/
def LevelsIncrease (t : PriceType) : Prop :=
  ∀ p q, q ≤ maxPriceFieldValue t → OnTick t p → OnTick t q → p < q →
    ∃ l m, priceLevels t 0 p = .ok l ∧ priceLevels t 0 q = .ok m ∧ l < m

/-- A higher level has a higher price. -/
def PricesIncrease (t : PriceType) : Prop :=
  ∀ l m, IsLevel t m → l < m → ∃ p q, levelToPrice t l = .ok p ∧ levelToPrice t m = .ok q ∧ p < q

/-- The levels of two ranges next to each other add up. -/
def LevelsAdd (t : PriceType) : Prop :=
  ∀ lo mid hi, OnTick t lo → OnTick t mid → OnTick t hi → lo ≤ mid → mid ≤ hi →
    ∃ l m, priceLevels t lo mid = .ok l ∧ priceLevels t mid hi = .ok m ∧
      priceLevels t lo hi = .ok (l + m)

/-- The two maps are inverse to each other and increase, and levels add up. -/
structure PriceLaws (t : PriceType) : Prop where
  priceRoundTrip : ∀ px, px ≤ maxPriceFieldValue t → OnTick t px → PriceRoundTrip t px
  levelRoundTrip : ∀ l, IsLevel t l → LevelRoundTrip t l
  levelsIncrease : LevelsIncrease t
  pricesIncrease : PricesIncrease t
  levelsAdd : LevelsAdd t

section Laws

variable {t : PriceType} {k : Nat} (ht : t.denom = 10000 * k) (hk : 0 < k)
include ht hk

/-- A price on a tick has as many levels below it as its level says. -/
theorem priceLevels_zero (l : Nat) : priceLevels t 0 (tickPrice t l) = .ok l := by
  have hzero : tickPrice t 0 = 0 := by rw [tickPrice_of_le ht (Nat.zero_le _), Nat.zero_mul]
  have hcount := priceLevels_tickPrice ht hk (Nat.zero_le l)
  rwa [hzero, Nat.sub_zero] at hcount

theorem levelsIncrease : LevelsIncrease t := by
  intro p q _ hp hq hlt
  obtain ⟨l, rfl⟩ := (onTick_iff ht hk).1 hp
  obtain ⟨m, rfl⟩ := (onTick_iff ht hk).1 hq
  refine ⟨l, m, priceLevels_zero ht hk l, priceLevels_zero ht hk m, ?_⟩
  by_contra hge
  exact Nat.not_le.2 hlt ((tickPrice_le_iff ht hk).2 (Nat.not_lt.1 hge))

theorem levelsAdd : LevelsAdd t := by
  intro lo mid hi hlo hmid hhi hlm hmh
  obtain ⟨a, rfl⟩ := (onTick_iff ht hk).1 hlo
  obtain ⟨b, rfl⟩ := (onTick_iff ht hk).1 hmid
  obtain ⟨c, rfl⟩ := (onTick_iff ht hk).1 hhi
  have hab := (tickPrice_le_iff ht hk).1 hlm
  have hbc := (tickPrice_le_iff ht hk).1 hmh
  have hsum : c - a = b - a + (c - b) := by omega
  refine ⟨b - a, c - b, priceLevels_tickPrice ht hk hab, priceLevels_tickPrice ht hk hbc, ?_⟩
  rw [← hsum]
  exact priceLevels_tickPrice ht hk (Nat.le_trans hab hbc)

/-- A price that comes back has a level that comes back. -/
theorem levelRoundTrip_of_price {l : Nat} (h : PriceRoundTrip t (tickPrice t l)) :
    LevelRoundTrip t l := by
  have hlevel := priceLevels_zero ht hk l
  rw [PriceRoundTrip, hlevel] at h
  change levelToPrice t l = .ok (tickPrice t l) at h
  rw [LevelRoundTrip, h]
  exact hlevel

end Laws

/-! ## The two price fields -/

theorem denom_price4 : price4.denom = 10000 * 1 := rfl

theorem denom_price8 : price8.denom = 10000 * 10000 := rfl

theorem levelPrice_eq (l : Nat) : levelPrice l = tickPrice price4 l := by
  rcases Nat.lt_or_ge 10000 l with h | h
  · rw [tickPrice_of_ge denom_price4 (Nat.le_of_lt h), levelPrice, if_neg (Nat.not_le.2 h)]
    omega
  · rw [tickPrice_of_le denom_price4 h, levelPrice, if_pos h, Nat.mul_one]

theorem isLevel_price4_iff (l : Nat) : IsLevel price4 l ↔ l ≤ levelMax := by
  rw [IsLevel, priceLevels_price4, level_maxPrice]
  simp

/-- The laws hold of `price4_t`. -/
theorem priceLaws_price4 : PriceLaws price4 where
  priceRoundTrip := by
    intro px hle htick
    obtain ⟨l, rfl⟩ := (onTick_iff denom_price4 Nat.one_pos).1 htick
    have hmax : l ≤ levelMax := by
      rw [← levelPrice_eq] at hle
      have hlevel := level_mono hle
      rwa [level_levelPrice, level_maxPrice] at hlevel
    rw [PriceRoundTrip, priceLevels_zero denom_price4 Nat.one_pos]
    change levelToPrice price4 l = _
    rw [levelToPrice_price4 hmax, levelPrice_eq]
  levelRoundTrip := by
    intro l hl
    rw [LevelRoundTrip, levelToPrice_price4 ((isLevel_price4_iff l).1 hl)]
    change priceLevels price4 0 (levelPrice l) = _
    rw [priceLevels_price4, level_levelPrice]
  levelsIncrease := levelsIncrease denom_price4 Nat.one_pos
  pricesIncrease := by
    intro l m hm hlt
    have hmax := (isLevel_price4_iff m).1 hm
    exact ⟨_, _, levelToPrice_price4 (Nat.le_trans (Nat.le_of_lt hlt) hmax),
      levelToPrice_price4 hmax, levelPrice_lt_iff.2 hlt⟩
  levelsAdd := levelsAdd denom_price4 Nat.one_pos

theorem priceLevels_price8 (px : Nat) :
    priceLevels price8 0 px = .ok (if px ≤ 100000000 then px / 10000
      else 10000 + (px - 100000000) / 1000000) := by
  change priceLevelsRec price8 (1 + 1) 0 px = _
  have hneg : ¬ px < 0 := Nat.not_lt_zero px
  have hunit : ¬ dollarPrice price8 ≤ 0 := by decide
  rw [priceLevelsRec]
  simp only [if_neg hneg, if_neg hunit, if_true]
  by_cases h : px ≤ dollarPrice price8
  · have h' : px ≤ 100000000 := h
    rw [if_pos h, if_pos h']
    rfl
  · have h' : ¬ px ≤ 100000000 := h
    rw [if_neg h, if_neg h']
    rfl

theorem isLevel_price8_iff (l : Nat) : IsLevel price8 l ↔ l ≤ 18446744083600 := by
  have hmax : maxPriceFieldValue price8 = 18446744073700000000 := by decide
  rw [IsLevel, priceLevels_price8, hmax]
  simp

/-- What `level_to_price` computes above a dollar, from an `int`. -/
theorem levelToPrice_price8 {l : Nat} (h : l ≤ 18446744083600) :
    levelToPrice price8 l = .ok (if l ≤ 100000000 then l
      else (int32 ((l : Int) * 100 - 9900000000) % 18446744073709551616).toNat) := by
  have hmax : maxPriceFieldValue price8 = 18446744073700000000 := by decide
  have hle : ¬ l > 18446744083600 := Nat.not_lt.2 h
  simp only [levelToPrice, priceLevels_price8, hmax]
  change (if l > 18446744083600 then Except.error Failure.rangeError
    else if l ≤ 100000000 then Except.ok l else _) = _
  rw [if_neg hle]
  split_ifs with hbelow
  · rfl
  · have hrem : ((((l - price8.denom) * 100 + price8.denom) % 2 ^ 64 : Nat) : Int) =
        (l : Int) * 100 - 9900000000 := by
      change ((((l - 100000000) * 100 + 100000000) % 18446744073709551616 : Nat) : Int) = _
      omega
    rw [hrem]
    rfl

/-- An `int` becomes a number below 2^31 or among the last 2^31 of 64 bits. -/
theorem toNat_int32_emod (x : Int) :
    (int32 x % 18446744073709551616).toNat < 2147483648 ∨
      int32 x < 0 ∧ 18446744071562067968 ≤ (int32 x % 18446744073709551616).toNat := by
  have hfits : -2147483648 ≤ int32 x ∧ int32 x < 2147483648 := by
    unfold int32
    omega
  omega

/-- No level of `price8_t` but 0 comes back. -/
theorem levelRoundTrip_price8 {l : Nat} (h : l ≤ 18446744083600) :
    LevelRoundTrip price8 l ↔ l = 0 := by
  rw [LevelRoundTrip, levelToPrice_price8 h]
  change priceLevels price8 0 _ = _ ↔ _
  rw [priceLevels_price8, Except.ok.injEq]
  rcases Nat.lt_or_ge 100000000 l with hhigh | hlow
  · rw [if_neg (Nat.not_le.2 hhigh)]
    refine iff_of_false ?_ (by omega)
    intro heq
    rcases toNat_int32_emod ((l : Int) * 100 - 9900000000) with hsmall | ⟨hneg, hlast⟩
    · -- a price below 2^31 has a level of at most five digits
      generalize (int32 ((l : Int) * 100 - 9900000000) % 18446744073709551616).toNat = px
        at heq hsmall
      split_ifs at heq <;> omega
    · -- the last prices have levels whose own prices are not among them
      have hwindow : 18446744080000 ≤ l := by
        rw [if_neg (by omega)] at heq
        omega
      have hquotient : ((l : Int) * 100 - 9900000000 + 2147483648) / 4294967296 = 429494 := by omega
      have hpos : 0 ≤ int32 ((l : Int) * 100 - 9900000000) := by
        unfold int32
        omega
      omega
  · rw [if_pos hlow, if_pos hlow]
    omega

/-- No price of `price8_t` on a tick but 0 comes back. -/
theorem priceRoundTrip_price8 {px : Nat} (hle : px ≤ maxPriceFieldValue price8)
    (htick : OnTick price8 px) : PriceRoundTrip price8 px ↔ px = 0 := by
  have hpos : 0 < 10000 := by decide
  obtain ⟨l, rfl⟩ := (onTick_iff denom_price8 hpos).1 htick
  have hmax : maxPriceFieldValue price8 = tickPrice price8 18446744083600 := by decide
  rw [hmax, tickPrice_le_iff denom_price8 hpos] at hle
  constructor
  · intro h
    have hlevel := (levelRoundTrip_price8 hle).1 (levelRoundTrip_of_price denom_price8 hpos h)
    rw [hlevel]
    rfl
  · intro h
    rw [h]
    rfl

/-- The laws hold of `price4_t` and not of `price8_t`, of which only the level 0 and its price come back.
Levels of prices increase and add up for both. -/
theorem priceLaws_iff {t : PriceType} (ht : t = price4 ∨ t = price8) :
    (PriceLaws t ↔ t = price4) ∧
      (∀ px, px ≤ maxPriceFieldValue t → OnTick t px →
        (PriceRoundTrip t px ↔ t = price4 ∨ px = 0)) ∧
      (∀ l, IsLevel t l → (LevelRoundTrip t l ↔ t = price4 ∨ l = 0)) ∧
      LevelsIncrease t ∧ LevelsAdd t := by
  have hpos : 0 < 10000 := by decide
  rcases ht with rfl | rfl
  · have hlaws := priceLaws_price4
    exact ⟨iff_of_true hlaws rfl,
      fun px hle htick => iff_of_true (hlaws.priceRoundTrip px hle htick) (Or.inl rfl),
      fun l hl => iff_of_true (hlaws.levelRoundTrip l hl) (Or.inl rfl),
      hlaws.levelsIncrease, hlaws.levelsAdd⟩
  · have hne : price8 ≠ price4 := by decide
    refine ⟨iff_of_false ?_ hne, ?_, ?_, levelsIncrease denom_price8 hpos,
      levelsAdd denom_price8 hpos⟩
    · intro hlaws
      -- Level 1 of a `price8` does not come back from its price.
      have hone := hlaws.levelRoundTrip 1 ((isLevel_price8_iff 1).2 (by decide))
      exact Nat.one_ne_zero ((levelRoundTrip_price8 (by decide)).1 hone)
    · intro px hle htick
      rw [priceRoundTrip_price8 hle htick, or_iff_right hne]
    · intro l hl
      rw [levelRoundTrip_price8 ((isLevel_price8_iff l).1 hl), or_iff_right hne]

/-- The laws of `price4_t`. -/
theorem priceLaws_iff_price4 : PriceLaws price4 := (priceLaws_iff (Or.inl rfl)).1.2 rfl

/-- The price of a hundredth of a cent has the level 1, which has the price of a hundred-millionth of a
dollar and then the level 0. -/
theorem price8_mill :
    OnTick price8 10000 ∧ priceLevels price8 0 10000 = .ok 1 ∧ levelToPrice price8 1 = .ok 1 ∧
      priceLevels price8 0 1 = .ok 0 ∧ ¬ PriceLaws price8 := by
  have htick : OnTick price8 10000 := rfl
  refine ⟨htick, rfl, rfl, rfl, ?_⟩
  intro hlaws
  have hprice : (Except.ok 1 : Except Failure Nat) = .ok 10000 :=
    hlaws.priceRoundTrip 10000 (by decide) htick
  cases hprice

end JayBeams.Itch5
