import Loglib.App.HistogramCounts
import Loglib.Table.TimestampFormats

/-! The automatic bucket size: when it keeps the budget of visible buckets, and that its
arithmetic fits. -/

namespace Loglib

section Reading

variable {text : Bytes} {ts : Int64}

/-- A digit is less than ten. -/
theorem digitValue_lt {byte : Byte} {value : Nat} (read : digitValue byte = some value) :
    value < 10 := by
  unfold digitValue at read
  -- A digit is at most nine above the zero.
  split at read
  · rename_i digit
    obtain rfl := Option.some.inj read
    have upper := UInt8.le_iff_toNat_le.mp digit.2
    simp [ascii] at upper
    omega
  · cases read

/-- A number of digits is less than that power of ten. -/
theorem parseFixedDigits_lt {offset count value : Nat}
    (read : parseFixedDigits text offset count = some value) :
    value < 10 ^ count := by
  -- Each digit multiplies by ten and adds less than ten.
  have digits : ∀ (bytes : Bytes) (start result : Nat),
      bytes.foldlM (fun value byte => (digitValue byte).map (value * 10 + ·)) start = some result →
        result < (start + 1) * 10 ^ bytes.length := by
    intro bytes
    induction bytes with
    | nil =>
      intro start result read
      obtain rfl := Option.some.inj read
      simp
    | cons byte bytes ih =>
      intro start result read
      rw [List.foldlM_cons, Option.bind_eq_bind, Option.bind_eq_some_iff] at read
      obtain ⟨next, first, rest⟩ := read
      obtain ⟨digit, isDigit, rfl⟩ := Option.map_eq_some_iff.mp first
      have below := digitValue_lt isDigit
      have bound := ih _ _ rest
      rw [List.length_cons, pow_succ]
      calc result < (start * 10 + digit + 1) * 10 ^ bytes.length := bound
        _ ≤ ((start + 1) * 10) * 10 ^ bytes.length := Nat.mul_le_mul_right _ (by omega)
        _ = (start + 1) * (10 ^ bytes.length * 10) := by ring
  -- No more than `count` bytes are digits.
  have bound := digits _ _ _ read
  rw [Nat.zero_add, Nat.one_mul] at bound
  exact bound.trans_le (Nat.pow_le_pow_right (by decide) (List.length_take_le count _))

/-- A fraction is less than a second. -/
theorem parseIsoFraction_lt {value : Nat} (read : parseIsoFraction text = some value) :
    value < 1000000 := by
  unfold parseIsoFraction at read
  split at read
  · obtain rfl := Option.some.inj read
    decide
  · rename_i mark more
    -- The digits that are there are scaled to microseconds.
    dsimp only at read
    split at read
    · split at read
      · cases read
      · split at read
        · obtain ⟨number, digits, rfl⟩ := Option.map_eq_some_iff.mp read
          generalize count : ((more.take 6).takeWhile fun byte => (digitValue byte).isSome).length =
            length at digits ⊢
          -- No more than six digits are read.
          have short : length ≤ 6 := by
            rw [← count]
            exact (List.takeWhile_sublist _).length_le.trans (List.length_take_le 6 more)
          have bound := parseFixedDigits_lt digits
          calc number * 10 ^ (6 - length) < 10 ^ length * 10 ^ (6 - length) :=
                Nat.mul_lt_mul_of_pos_right bound (by positivity)
            _ = 10 ^ 6 := by rw [← pow_add, Nat.add_sub_cancel' short]
        · cases read
    · split at read
      · obtain rfl := Option.some.inj read
        decide
      · cases read

/-- `date::year` has 16 bits, and a year has at most 366 days. -/
def farthestInstant : Int := 34738 * 366 * 86400 * 1000000

/-- An instant that a date with a 16-bit year can have. -/
def WithinYears (instant : Int) : Prop := -farthestInstant ≤ instant ∧ instant ≤ farthestInstant

/-- An instant of a date is within the years. -/
theorem timeStampOf_within {year month day hour minute second fraction : Nat} (years : year ≤ 32767)
    (date : isDate year month day = true) (time : isTimeOfDay hour minute second = true)
    (part : fraction < 1000000) :
    WithinYears (timeStampOf year month day hour minute second fraction).toInt := by
  simp only [isTimeOfDay, Bool.and_eq_true, decide_eq_true_eq] at time
  simp only [isDate, Bool.and_eq_true, decide_eq_true_eq] at date
  obtain ⟨⟨⟨first, twelfth⟩, dayFirst⟩, dayLast⟩ := date
  -- A date has a month, and no month has more than 31 days.
  have month_ : day ≤ 31 := by
    refine dayLast.trans ?_
    unfold daysInMonth
    interval_cases month <;> simp
    split <;> decide
  -- The days stay far from the bounds of 64 bits.
  have days : -720000 ≤ sysDays year month day ∧ sysDays year month day ≤ 11993088 := by
    unfold sysDays
    dsimp only
    constructor <;> split <;> split <;> omega
  unfold timeStampOf WithinYears farthestInstant
  rw [Int64.toInt_ofInt_of_le (by omega) (by omega)]
  omega

/-- What the parser reads is within the years, if what the date library reads is. -/
theorem tryParseTimestamp_within {nowYear nowMonth : Nat} {generic : TimestampParser}
    {format : Bytes}
    (now : nowYear ≤ 32767) (library : ∀ format text ts, generic format text = some ts →
    WithinYears ts.toInt)
    (read : tryParseTimestamp nowYear nowMonth generic format text = some ts) :
    WithinYears ts.toInt := by
  -- The ISO formats check the date and the time and bound the year by its four digits.
  have iso : ∀ separator, tryParseIsoTimestamp text separator = some ts → WithinYears ts.toInt := by
    intro separator read
    simp only [tryParseIsoTimestamp, Option.bind_eq_bind, Option.bind_eq_some_iff,
      Option.guard_eq_some'] at read
    obtain ⟨_, _, year, isYear, _, _, month, _, _, _, day, _, _, _, hour, _, _, _, minute, _, _,
      _, second, _,
      fraction, isFraction, _, time, _, date, same⟩ := read
    obtain rfl := Option.some.inj same
    have years := parseFixedDigits_lt isYear
    exact timeStampOf_within (by omega) date time (parseIsoFraction_lt isFraction)
  unfold tryParseTimestamp at read
  split at read
  · exact iso _ read
  · exact iso _ read
  · -- The syslog format takes the year from the clock and has no fraction.
    simp only [tryParseSyslogRfc3164Timestamp, Option.bind_eq_bind, Option.bind_eq_some_iff,
      Option.guard_eq_some'] at read
    obtain ⟨_, _, month, _, _, _, ⟨day, rest⟩, _, _, _, _, _, _, _, hour, _, _, _, minute, _, _,
      _, second, _,
      _, time, _, date, same⟩ := read
    obtain rfl := Option.some.inj same
    exact timeStampOf_within (by split <;> omega) date time (by decide)
  · exact library _ _ _ read

end Reading

namespace HistogramBucketIndex

section Budget

variable {min max budget : Int} {size : HistogramBucketSize}

/-- Rows from one instant to another have at most as many buckets as the budget allows. -/
def KeepsBudget (min max budget : Int) (size : HistogramBucketSize) : Prop :=
  ∀ rows : List (Int × LogLevel), (∀ row ∈ rows, min ≤ row.1 ∧ row.1 ≤ max) →
    (((ofSize size).addRows rows).buckets.length : Int) ≤ budget

/-- An instant that the parser reads from some text, with what the date library reads
within its years. -/
def Parsed (instant : Int) : Prop :=
  ∃ nowYear ≤ 32767, ∃ nowMonth generic format text ts,
    (∀ format text ts, generic format text = some ts → WithinYears ts.toInt) ∧
      tryParseTimestamp nowYear nowMonth generic format text = some ts ∧ ts.toInt = instant

/-- The value fits into a signed number of 64 bits. -/
def Fits64 (value : Int) : Prop := -2 ^ 63 ≤ value ∧ value < 2 ^ 63

/-- What is asked of a bucket size: it keeps the budget or is the coarsest, no finer one
keeps it, and the differences that are computed fit: that of the ends, and that of a row
and the first bucket. -/
structure Suits (min max budget : Int) (size : HistogramBucketSize) : Prop where
  keeps : size = .oneDay ∨ KeepsBudget min max budget size
  finest : ∀ finer : HistogramBucketSize, finer.width < size.width →
    ¬KeepsBudget min max budget finer
  span : Parsed min → Parsed max → Fits64 (max - min)
  rows : Parsed min → Parsed max → ∀ rows : List (Int × LogLevel), rows ≠ [] →
    (∀ row ∈ rows, min ≤ row.1 ∧ row.1 ≤ max) → ∀ ts, min ≤ ts → ts ≤ max →
      Fits64 (ts - ((ofSize size).addRows rows).origin)

/-- Rows within the ends touch the buckets from the first to the last, and rows at the ends touch
all of them. -/
theorem keepsBudget_iff (ordered : min ≤ max) :
    KeepsBudget min max budget size ↔ max / size.width - min / size.width + 1 ≤ budget := by
  constructor
  · intro keeps
    -- The two ends of the range fill the buckets from end to end.
    have counts := addRows_counts size (List.cons_ne_nil (min, LogLevel.unknown) [(max, .unknown)])
    have bound := keeps [(min, .unknown), (max, .unknown)] (by simp [ordered])
    have sized := addRows_bucketSize (ofSize size) [(min, .unknown), (max, .unknown)]
    generalize (ofSize size).addRows [(min, .unknown), (max, .unknown)] =
      index at counts bound sized
    have ends : ∀ ts, ts ∈ ((([(min, .unknown), (max, .unknown)] : List (Int × LogLevel)) :
        Multiset (Int × LogLevel))).map Prod.fst ↔ ts = min ∨ ts = max := by
      simp
    -- They are the first and the last instant that the index has seen.
    have first : index.minTimestamp = min := by
      have atEnd := (ends _).mp counts.least.1
      have low := counts.least.2 ((ends min).mpr (.inl rfl))
      omega
    have last : index.maxTimestamp = max := by
      have atEnd := (ends _).mp counts.greatest.1
      have high := counts.greatest.2 ((ends max).mpr (.inr rfl))
      omega
    have length := counts.length
    rw [first, last, sized] at length
    exact length ▸ bound
  · -- Any rows lie between the two ends, and so do their buckets.
    intro fits rows within
    have least := number_le size ordered
    rcases eq_or_ne rows [] with rfl | some_
    · have none_ : ((ofSize size).addRows []).buckets.length = 0 := rfl
      omega
    · have counts := addRows_counts size some_
      have inside : ∀ ts ∈ (rows : Multiset (Int × LogLevel)).map Prod.fst, min ≤ ts ∧
          ts ≤ max := by
        intro ts member
        obtain ⟨row, held, rfl⟩ := Multiset.mem_map.mp member
        exact within row (Multiset.mem_coe.mp held)
      have first := number_le size (inside _ counts.least.1).1
      have last := number_le size (inside _ counts.greatest.1).2
      have length := counts.length
      rw [addRows_bucketSize] at length
      change (_ : Int) = _ / size.width - _ / size.width + 1 at length
      omega

/-- An end that lies off the boundaries can touch one bucket more than the span has widths. -/
theorem touched_eq (size : HistogramBucketSize) (min max : Int) :
    max / size.width - min / size.width =
      (max - min) / size.width + if size.width ≤ min % size.width + (max - min) % size.width then 1
        else 0 := by
  have positive := size.width_pos
  -- Start and span are written as quotient and remainder, and the remainders add up to one more
  -- bucket at most.
  have start := Int.mul_ediv_add_emod min size.width
  have span := Int.mul_ediv_add_emod (max - min) size.width
  have startLow := Int.emod_nonneg min positive.ne'
  have spanLow := Int.emod_nonneg (max - min) positive.ne'
  have startHigh := Int.emod_lt_of_pos min positive
  have spanHigh := Int.emod_lt_of_pos (max - min) positive
  suffices touched : max / size.width = min / size.width + ((max - min) / size.width +
      if size.width ≤ min % size.width + (max - min) % size.width then 1 else 0) by omega
  rw [Int.ediv_eq_iff_of_pos positive]
  split <;> constructor <;> nlinarith

/-- A wider bucket is made of narrower ones. -/
theorem width_dvd {finer : HistogramBucketSize} (le : finer.width ≤ size.width) :
    finer.width ∣ size.width := by
  cases finer <;> cases size <;> revert le <;> decide

/-- Narrower buckets are touched at least as often. -/
theorem touched_mono {finer : HistogramBucketSize} (le : finer.width ≤ size.width)
    (ordered : min ≤ max) :
    max / size.width - min / size.width ≤ max / finer.width - min / finer.width := by
  -- A wider bucket is a whole number of finer ones.
  obtain ⟨times, wide⟩ := width_dvd le
  have positive : 0 < times := by
    have := size.width_pos
    have := finer.width_pos
    nlinarith
  have within : ∀ instant : Int, instant / size.width = instant / finer.width / times := by
    intro instant
    rw [wide, Int.ediv_ediv_of_nonneg finer.width_pos.le]
  have numbers := number_le finer ordered
  rw [within, within]
  generalize max / finer.width = last at numbers ⊢
  generalize min / finer.width = first at numbers ⊢
  -- Rounding down twice loses nothing, so it is enough to compare quotients by this number.
  have up := Int.mul_ediv_add_emod last times
  have low := Int.mul_ediv_add_emod first times
  have upLow := Int.emod_nonneg last positive.ne'
  have lowHigh := Int.emod_lt_of_pos first positive
  -- If the finer range had fewer buckets, the wider one would span more instants than there are.
  by_contra more
  have spread := mul_nonneg (show 0 ≤ times - 1 by omega) (show 0 ≤ last / times - first / times -
    1 by omega)
  nlinarith

/-- Of items in order, the ones before the first that is found are not. -/
theorem find?_least {α : Type*} (rank : α → Int) {items : List α} {found : α → Bool} {item : α}
    (sorted : items.Pairwise fun first second => rank first < rank second)
    (first : items.find? found = some item) :
    ∀ other ∈ items, rank other < rank item → found other = false := by
  obtain ⟨-, before, after, rfl, earlier⟩ := List.find?_eq_some_iff_append.mp first
  -- An item of lower rank stands in front, and there nothing was found.
  intro other member below
  rcases List.mem_append.mp member with front | back
  · simpa using earlier other front
  · rcases List.mem_cons.mp back with rfl | behind
    · omega
    · have above := List.rel_of_pairwise_cons (List.pairwise_append.mp sorted).2.1 behind
      omega

/-- The size is the finest whose quotient fits the budget, or the coarsest. -/
theorem autoBucketSize_spec (ordered : min ≤ max) (positive : 0 < budget) :
    (autoBucketSize min max budget = .oneDay ∨
        (max - min) / (autoBucketSize min max budget).width + 1 ≤ budget) ∧
      ∀ finer : HistogramBucketSize, finer.width < (autoBucketSize min max budget).width →
        budget < (max - min) / finer.width + 1 := by
  -- The search goes through every size.
  have every : ∀ finer : HistogramBucketSize,
      finer ∈ [HistogramBucketSize.oneSecond, .tenSeconds, .oneMinute, .tenMinutes, .oneHour,
      .oneDay] := by
    intro finer
    cases finer <;> decide
  unfold autoBucketSize
  simp only [if_neg (not_lt.mpr ordered), if_neg (not_le.mpr positive)]
  split
  · -- One instant needs one bucket of the finest size.
    rename_i same
    refine ⟨.inr ?_, ?_⟩
    · rw [same, sub_self, Int.zero_ediv]
      omega
    · intro finer narrower
      cases finer <;> exact absurd narrower (by decide)
  · generalize search : List.find? _ _ = chosen
    cases chosen with
    -- No size fits, so the coarsest is taken.
    | none =>
      refine ⟨.inl rfl, fun finer _ => ?_⟩
      have unfit := List.find?_eq_none.mp search finer (every finer)
      simpa using unfit
    -- The first size that fits is the finest, and every finer one has been refused.
    | some chosen =>
      refine ⟨.inr (by simpa using List.find?_some search), fun finer narrower => ?_⟩
      have unfit := find?_least HistogramBucketSize.width (by decide) search finer
        (every finer) narrower
      simpa using unfit

/-- The first bucket starts below one of the rows. -/
theorem origin_eq (size : HistogramBucketSize) {rows : List (Int × LogLevel)} (some_ : rows ≠ []) :
    ∃ row ∈ rows, ((ofSize size).addRows rows).origin = row.1 / size.width * size.width := by
  have counts := addRows_counts size some_
  have earliest : ((ofSize size).addRows rows).minTimestamp ∈ (rows : Multiset (Int × LogLevel)).map
      Prod.fst :=
    counts.least.1
  -- The origin is the start of the bucket of the least timestamp.
  obtain ⟨row, held, least⟩ := Multiset.mem_map.mp earliest
  refine ⟨row, Multiset.mem_coe.mp held, ?_⟩
  rw [counts.origin, least, addRows_bucketSize]
  rfl

/-- What was parsed is within the years. -/
theorem Parsed.within {instant : Int} (parsed : Parsed instant) : WithinYears instant := by
  obtain ⟨nowYear, now, nowMonth, generic, format, text, ts, library, read, rfl⟩ := parsed
  exact tryParseTimestamp_within now library read

/-- What exceeds the span of two instants by less than a day fits. -/
theorem fits64_of_within {first last value : Int} (start : WithinYears first)
    (stop : WithinYears last)
    (low : first - last - 86400000000 ≤ value) (high : value ≤ last - first + 86400000000) :
    Fits64 value := by
  unfold WithinYears farthestInstant at start stop
  unfold Fits64
  omega

/-- A bucket is at most a day wide. -/
theorem width_le_day (size : HistogramBucketSize) : size.width ≤ 86400000000 := by
  cases size <;> decide

/-- The automatic size suits its ends exactly if no size below a day fits the budget with nothing to
spare while the ends lie so that they touch one bucket more. -/
theorem autoBucketSize_suits_iff (ordered : min ≤ max) (positive : 0 < budget) :
    Suits min max budget (autoBucketSize min max budget) ↔ ∀ size : HistogramBucketSize,
      size ≠ .oneDay →
      (max - min) / size.width + 1 = budget →
        min % size.width + (max - min) % size.width < size.width := by
  obtain ⟨fits, finest⟩ := autoBucketSize_spec ordered positive
  constructor
  · intro suits size notDay exact_
    by_contra off
    have touched := touched_eq size min max
    rw [if_pos (not_lt.mp off)] at touched
    -- The chosen size is not coarser, so it touches at least as many buckets.
    have narrow : (autoBucketSize min max budget).width ≤ size.width := by
      by_contra wider
      have := finest size (not_le.mp wider)
      omega
    have more := touched_mono narrow ordered
    rcases suits.keeps with day | keeps
    · rw [day] at narrow
      cases size <;> first | exact absurd rfl notDay | exact absurd narrow (by decide)
    · have bound := (keepsBudget_iff ordered).mp keeps
      omega
  · intro spare
    refine ⟨?_, ?_, ?_, ?_⟩
    · rcases fits with day | fits
      · exact .inl day
      · by_cases day : autoBucketSize min max budget = .oneDay
        · exact .inl day
        · refine .inr ((keepsBudget_iff ordered).mpr ?_)
          have touched := touched_eq (autoBucketSize min max budget) min max
          rcases fits.lt_or_eq with below | exact_
          · split at touched <;> omega
          · rw [if_neg (not_le.mpr (spare _ day exact_))] at touched
            omega
    · intro finer narrower keeps
      have bound := (keepsBudget_iff ordered).mp keeps
      have touched := touched_eq finer min max
      have above := finest finer narrower
      split at touched <;> omega
    · exact fun first last => fits64_of_within first.within last.within (by omega) (by omega)
    · intro first last rows some_ inside ts low high
      obtain ⟨least, held, origin⟩ := origin_eq (autoBucketSize min max budget) some_
      have ends := inside _ held
      have width := width_le_day (autoBucketSize min max budget)
      have positive := (autoBucketSize min max budget).width_pos
      have start := Int.mul_ediv_add_emod least.1 (autoBucketSize min max budget).width
      have startLow := Int.emod_nonneg least.1 positive.ne'
      have startHigh := Int.emod_lt_of_pos least.1 positive
      rw [mul_comm] at start
      exact fits64_of_within first.within last.within (by omega) (by omega)

/-- An hour and a budget of 500 buckets. -/
theorem autoBucketSize_suits_hour : (0 : Int) ≤ 3600000000 ∧ (0 : Int) < 500 ∧
    (Suits 0 3600000000 500 (autoBucketSize 0 3600000000 500) ↔ ∀ size : HistogramBucketSize,
      size ≠ .oneDay →
      (3600000000 - 0) / size.width + 1 = 500 →
        0 % size.width + (3600000000 - 0) % size.width < size.width) :=
  ⟨by decide, by decide, autoBucketSize_suits_iff (by decide) (by decide)⟩

/-- Half a second off the boundaries, 499.9 seconds touch 501 buckets. -/
theorem autoBucketSize_misses_boundary :
    ¬Suits 500000 500400000 defaultVisibleBucketBudget
      (autoBucketSize 500000 500400000 defaultVisibleBucketBudget) := by
  intro suits
  -- The span touches one bucket more than the budget.
  have chosen : autoBucketSize 500000 500400000 defaultVisibleBucketBudget = .oneSecond := by decide
  rcases suits.keeps with day | keeps
  · rw [chosen] at day
    cases day
  · rw [chosen, keepsBudget_iff (by decide)] at keeps
    exact absurd keeps (by decide)

end Budget

end HistogramBucketIndex

end Loglib
