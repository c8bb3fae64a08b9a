import AtlasFlow.Data.Calendar
import AtlasFlow.Persistence.SqlValues

/-!
# Moments in the database, by both programs

`SqlValues.Text` writes the UTC instant of a moment with seven digits of a second, Python's `isoformat` with six or
none. Rows are put in order by the bytes of such texts: `Stored.lt` says that this is the order of the instants,
whoever wrote them, since what follows a shorter fraction comes before every digit, and before a point.
-/

namespace AtlasFlow

namespace StoredMoments

open Moments
open SqlValues (toUniversalTime)

/-! ## Texts -/

/-- `DateTime.MaxValue.Ticks`. -/
def maxTicks : Nat := 3155378975999999999

/-- `yyyy-MM-ddTHH:mm:ss`, and what follows it. -/
def spelled (year month day hour minute second : Nat) (tail : List Char) : List Char :=
  digits 4 year ++ '-' :: (digits 2 month ++ '-' :: (digits 2 day ++
    'T' :: (digits 2 hour ++ ':' :: (digits 2 minute ++ ':' :: (digits 2 second ++ tail)))))

/-- `zzz`. -/
def offsetText (minutes : Int) : List Char :=
  (if minutes < 0 then '-' else '+') :: (digits 2 (minutes.natAbs / 60) ++ ':' :: digits 2 (minutes.natAbs % 60))

/-- `ToString("O", CultureInfo.InvariantCulture)`: the time at the offset, and the offset. -/
def roundtrip (moment : DateTimeOffset) : List Char :=
  let clock := (moment.utcTicks + moment.offsetMinutes * 600000000 : Int).toNat
  let seconds := clock / 10000000
  let date := dateOf (seconds / 86400)
  spelled date.1 date.2.1 date.2.2 (seconds / 3600 % 24) (seconds / 60 % 60) (seconds % 60)
    ('.' :: (digits 7 (clock % 10000000) ++ offsetText moment.offsetMinutes))

/-- `SqlValues.Text`. -/
def text (moment : DateTimeOffset) : String := String.ofList (roundtrip (toUniversalTime moment))

/-- `SqlValues.MomentOf`. -/
def momentOf (text : String) : Option DateTimeOffset := (parse text).map fun read => ⟨read.1, read.2⟩

/-- The bytes of a text, which is what SQLite compares. -/
def bytes (text : String) : List UInt8 := text.toList.flatMap String.utf8EncodeChar

/-! ## The order of bytes -/

theorem utf8EncodeChar_ascii {c : Char} (h : c.toNat < 128) : String.utf8EncodeChar c = [c.val.toUInt8] :=
  String.utf8EncodeChar_eq_singleton (Char.utf8Size_eq_one_iff.mpr (UInt32.le_iff_toNat_le.mpr (by
    show c.toNat ≤ 127
    omega)))

/-- ASCII texts are in the order of their bytes. -/
theorem bytes_lt {a b : List Char} (ha : ∀ c ∈ a, c.toNat < 128) (hb : ∀ c ∈ b, c.toNat < 128) (h : a < b) :
    bytes (String.ofList a) < bytes (String.ofList b) := by
  unfold bytes
  rw [String.toList_ofList, String.toList_ofList]
  induction a generalizing b with
  | nil =>
      cases b with
      | nil => exact absurd h (List.not_lt_nil _)
      | cons d b =>
          rw [List.flatMap_cons, utf8EncodeChar_ascii (hb d List.mem_cons_self)]
          exact List.nil_lt_cons _ _
  | cons c a ih =>
      cases b with
      | nil => exact absurd h (List.not_lt_nil _)
      | cons d b =>
          obtain ⟨hc, ha'⟩ := List.forall_mem_cons.mp ha
          obtain ⟨hd, hb'⟩ := List.forall_mem_cons.mp hb
          rw [List.flatMap_cons, List.flatMap_cons, utf8EncodeChar_ascii hc, utf8EncodeChar_ascii hd,
            List.singleton_append, List.singleton_append, List.cons_lt_cons_iff]
          rcases List.cons_lt_cons_iff.mp h with hlt | ⟨rfl, hlt⟩
          · left
            have hlt' : c.toNat < d.toNat := hlt
            rw [UInt8.lt_iff_toNat_lt]
            show c.val.toNat % 256 < d.val.toNat % 256
            have hc' : c.val.toNat = c.toNat := rfl
            have hd' : d.val.toNat = d.toNat := rfl
            omega
          · exact .inr ⟨rfl, ih ha' hb' hlt⟩

/-! ## Times of the clock -/

/-- A date and a time of day that exist. -/
structure IsTime (year month day hour minute second : Nat) : Prop extends IsDate year month day where
  year_le : year ≤ 9999
  hour_lt : hour < 24
  minute_lt : minute < 60
  second_lt : second < 60

def secondsOf (year month day hour minute second : Nat) : Nat :=
  ((dayNumber year month day * 24 + hour) * 60 + minute) * 60 + second

variable {year month day hour minute second year' month' day' hour' minute' second' : Nat} {tail tail' : List Char}

theorem ticksOf_eq (fraction : Nat) : ticksOf year month day hour minute second fraction =
    secondsOf year month day hour minute second * 10000000 + fraction := rfl

theorem IsTime.exists (h : IsTime year month day hour minute second) :
    Moments.Exists year month day hour minute second = true := by
  simp only [Moments.Exists, Bool.and_eq_true, decide_eq_true_eq]
  exact ⟨⟨⟨⟨⟨⟨⟨⟨h.year_pos, h.year_le⟩, h.month_pos⟩, h.month_le⟩, h.day_pos⟩, h.day_le⟩, h.hour_lt⟩, h.minute_lt⟩,
    h.second_lt⟩

theorem IsTime.of_exists (h : Moments.Exists year month day hour minute second = true) :
    IsTime year month day hour minute second := by
  simp only [Moments.Exists, Bool.and_eq_true, decide_eq_true_eq] at h
  obtain ⟨⟨⟨⟨⟨⟨⟨⟨hyear, hyear'⟩, hmonth⟩, hmonth'⟩, hday⟩, hday'⟩, hhour⟩, hminute⟩, hsecond⟩ := h
  exact ⟨⟨hyear, hmonth, hmonth', hday, hday'⟩, hyear', hhour, hminute, hsecond⟩

theorem IsTime.day_lt (h : IsTime year month day hour minute second) : day < 10 ^ 2 := by
  have hday := h.day_le
  have hmost := daysInMonth_le year month
  omega

theorem IsTime.month_lt (h : IsTime year month day hour minute second) : month < 10 ^ 2 := by
  have hmonth := h.month_le
  omega

/-- What a number decides, or what follows the character after it. -/
theorem digits_cons_lt {width n m : Nat} {rest rest' : List Char} (c : Char) (hm : m < 10 ^ width)
    (h : n < m ∨ n = m ∧ rest < rest') : digits width n ++ c :: rest < digits width m ++ c :: rest' :=
  digits_append_lt hm (h.imp_right fun h => ⟨h.1, List.cons_lt_cons_iff.mpr (.inr ⟨rfl, h.2⟩)⟩)

/-- Of two times the first field that differs says which is later. -/
theorem fields_lt (h : IsTime year month day hour minute second) (h' : IsTime year' month' day' hour' minute' second')
    (hlt : secondsOf year month day hour minute second < secondsOf year' month' day' hour' minute' second') :
    year < year' ∨ year = year' ∧ (month < month' ∨ month = month' ∧ (day < day' ∨ day = day' ∧
      (hour < hour' ∨ hour = hour' ∧ (minute < minute' ∨ minute = minute' ∧ second < second')))) := by
  have hhour := h.hour_lt
  have hminute := h.minute_lt
  have hsecond := h.second_lt
  have hhour' := h'.hour_lt
  have hminute' := h'.minute_lt
  have hsecond' := h'.second_lt
  unfold secondsOf at hlt
  rcases Nat.lt_trichotomy (dayNumber year month day) (dayNumber year' month' day') with hday | hday | hday
  · rcases date_lt_of_dayNumber h.toIsDate h'.toIsDate hday with hyear | ⟨rfl, hmonth | ⟨rfl, hlater⟩⟩
    · exact .inl hyear
    · exact .inr ⟨rfl, .inl hmonth⟩
    · exact .inr ⟨rfl, .inr ⟨rfl, .inl hlater⟩⟩
  · obtain ⟨rfl, rfl, rfl⟩ := date_eq_of_dayNumber h.toIsDate h'.toIsDate hday
    refine .inr ⟨rfl, .inr ⟨rfl, .inr ⟨rfl, ?_⟩⟩⟩
    omega
  · omega

/-- A later second is spelled by a greater text, whatever follows. -/
theorem spelled_lt (h : IsTime year month day hour minute second) (h' : IsTime year' month' day' hour' minute' second')
    (hlt : secondsOf year month day hour minute second < secondsOf year' month' day' hour' minute' second') :
    spelled year month day hour minute second tail < spelled year' month' day' hour' minute' second' tail' := by
  have hyear' := h'.year_le
  have hhour' := h'.hour_lt
  have hminute' := h'.minute_lt
  have hsecond' := h'.second_lt
  refine digits_cons_lt '-' (by omega) ((fields_lt h h' hlt).imp_right fun h₁ => ⟨h₁.1, ?_⟩)
  refine digits_cons_lt '-' h'.month_lt (h₁.2.imp_right fun h₂ => ⟨h₂.1, ?_⟩)
  refine digits_cons_lt 'T' h'.day_lt (h₂.2.imp_right fun h₃ => ⟨h₃.1, ?_⟩)
  refine digits_cons_lt ':' (by omega) (h₃.2.imp_right fun h₄ => ⟨h₄.1, ?_⟩)
  refine digits_cons_lt ':' (by omega) (h₄.2.imp_right fun h₅ => ⟨h₅.1, ?_⟩)
  exact digits_append_lt (by omega) (.inl h₅.2)

/-- Of the texts of one second what follows decides. -/
theorem spelled_tail_lt (h : tail < tail') :
    spelled year month day hour minute second tail < spelled year month day hour minute second tail' := by
  have hcons : ∀ (c : Char) {a b : List Char}, a < b → c :: a < c :: b :=
    fun c _ _ h => List.cons_lt_cons_iff.mpr (.inr ⟨rfl, h⟩)
  exact List.append_left_lt (hcons _ (List.append_left_lt (hcons _ (List.append_left_lt (hcons _
    (List.append_left_lt (hcons _ (List.append_left_lt (hcons _ (List.append_left_lt h))))))))))

/-- **Texts are in the order of the seconds they spell**, and of what follows where the seconds are the same. -/
theorem spelled_lt_of (h : IsTime year month day hour minute second)
    (h' : IsTime year' month' day' hour' minute' second')
    (hlt : secondsOf year month day hour minute second < secondsOf year' month' day' hour' minute' second' ∨
      secondsOf year month day hour minute second = secondsOf year' month' day' hour' minute' second' ∧ tail < tail') :
    spelled year month day hour minute second tail < spelled year' month' day' hour' minute' second' tail' := by
  rcases hlt with hlt | ⟨heq, hlt⟩
  · exact spelled_lt h h' hlt
  · have hhour := h.hour_lt
    have hminute := h.minute_lt
    have hsecond := h.second_lt
    have hhour' := h'.hour_lt
    have hminute' := h'.minute_lt
    have hsecond' := h'.second_lt
    unfold secondsOf at heq
    obtain ⟨rfl, rfl, rfl⟩ := date_eq_of_dayNumber h.toIsDate h'.toIsDate (by omega)
    obtain ⟨rfl, rfl, rfl⟩ : hour = hour' ∧ minute = minute' ∧ second = second' := by omega
    exact spelled_tail_lt hlt

/-! ## Fractions of a second -/

/-- The offset of every moment that is stored. -/
def utc : List Char := ['+', '0', '0', ':', '0', '0']

/-- What follows the seconds: nothing where there is no fraction, six digits where a seventh would be zero, or
seven. -/
def Tail (tail : List Char) (fraction : Nat) : Prop :=
  tail = utc ∧ fraction = 0 ∨ ∃ rest, tail = '.' :: (digits 6 (fraction / 10) ++ rest) ∧
    (rest = utc ∧ fraction % 10 = 0 ∨ rest = Nat.digitChar (fraction % 10) :: utc)

theorem plus_lt_digitChar : ∀ d < 10, '+' < Nat.digitChar d := by decide

/-- What follows a shorter fraction comes before every digit, and before a point. -/
theorem Tail.lt {fraction fraction' : Nat} (h : Tail tail fraction) (h' : Tail tail' fraction')
    (hfraction' : fraction' < 10000000) (hlt : fraction < fraction') : tail < tail' := by
  obtain ⟨-, hzero⟩ | ⟨rest', rfl, hrest'⟩ := h'
  · omega
  obtain ⟨rfl, -⟩ | ⟨rest, rfl, hrest⟩ := h
  · exact List.cons_lt_cons_iff.mpr (.inl (by decide))
  refine List.cons_lt_cons_iff.mpr (.inr ⟨rfl, digits_append_lt (by omega) ?_⟩)
  by_cases hsix : fraction / 10 < fraction' / 10
  · exact .inl hsix
  refine .inr ⟨by omega, ?_⟩
  have hdigit : fraction % 10 < fraction' % 10 := by omega
  obtain ⟨-, hzero⟩ | rfl := hrest'
  · omega
  obtain ⟨rfl, -⟩ | rfl := hrest
  · exact List.cons_lt_cons_iff.mpr (.inl (plus_lt_digitChar _ (Nat.mod_lt _ (by decide))))
  · exact List.cons_lt_cons_iff.mpr (.inl (digitChar_lt _ (Nat.mod_lt _ (by decide)) _ hdigit))

/-! ## What is stored -/

/-- A text in a column of moments, and the instant it was written for. -/
inductive Stored : String → Nat → Prop
  | csharp {moment : DateTimeOffset} (h : moment.utcTicks ≤ maxTicks) : Stored (text moment) moment.utcTicks
  | python (d : DateTime) : Stored d.isoformat d.ticks

/-- A text spells the fields of its instant. -/
inductive Spells : String → Nat → Prop
  | mk {year month day hour minute second instant : Nat} {tail : List Char}
      (isTime : IsTime year month day hour minute second)
      (seconds : secondsOf year month day hour minute second = instant / 10000000)
      (isTail : Tail tail (instant % 10000000)) :
      Spells (String.ofList (spelled year month day hour minute second tail)) instant

theorem isTime_dateOf {seconds : Nat} (h : seconds ≤ maxTicks / 10000000) :
    IsTime (dateOf (seconds / 86400)).1 (dateOf (seconds / 86400)).2.1 (dateOf (seconds / 86400)).2.2
      (seconds / 3600 % 24) (seconds / 60 % 60) (seconds % 60) := by
  refine ⟨isDate_dateOf _, ?_, Nat.mod_lt _ (by decide), Nat.mod_lt _ (by decide), Nat.mod_lt _ (by decide)⟩
  have hdays : seconds / 86400 < daysOfYears 9999 := by
    have hmax : maxTicks / 10000000 = 315537897599 := by decide
    have hlast : daysOfYears 9999 = 3652059 := by decide
    omega
  by_contra hyear
  have hbefore : daysOfYears 9999 ≤ daysOfYears ((dateOf (seconds / 86400)).1 - 1) := daysOfYears_mono (by omega)
  have hnumber := dayNumber_dateOf (seconds / 86400)
  rw [dayNumber_eq] at hnumber
  omega

theorem secondsOf_dateOf (seconds : Nat) :
    secondsOf (dateOf (seconds / 86400)).1 (dateOf (seconds / 86400)).2.1 (dateOf (seconds / 86400)).2.2
      (seconds / 3600 % 24) (seconds / 60 % 60) (seconds % 60) = seconds := by
  rw [secondsOf, dayNumber_dateOf]
  omega

/-- What C# writes for an instant. -/
theorem text_eq (moment : DateTimeOffset) :
    text moment = String.ofList (spelled (dateOf (moment.utcTicks / 10000000 / 86400)).1
      (dateOf (moment.utcTicks / 10000000 / 86400)).2.1 (dateOf (moment.utcTicks / 10000000 / 86400)).2.2
      (moment.utcTicks / 10000000 / 3600 % 24) (moment.utcTicks / 10000000 / 60 % 60)
      (moment.utcTicks / 10000000 % 60) ('.' :: (digits 7 (moment.utcTicks % 10000000) ++ utc))) := by
  have hclock : ((moment.utcTicks : Int) + 0 * 600000000).toNat = moment.utcTicks := by simp
  have hoffset : offsetText 0 = utc := by decide
  unfold text roundtrip toUniversalTime
  dsimp only
  rw [hclock, hoffset]

theorem digits_succ (width n : Nat) (rest : List Char) :
    digits (width + 1) n ++ rest = digits width (n / 10) ++ Nat.digitChar (n % 10) :: rest := by
  rw [digits, List.append_assoc, List.singleton_append]

theorem Stored.spells {stored : String} {instant : Nat} (h : Stored stored instant) : Spells stored instant := by
  cases h with
  | @csharp moment h =>
      rw [text_eq]
      refine .mk (isTime_dateOf (Nat.div_le_div_right h)) (secondsOf_dateOf _) (.inr ⟨_, ?_, .inr rfl⟩)
      rw [digits_succ]
  | python d =>
      have hmicrosecond := d.microsecond_lt
      have hticks : d.ticks = secondsOf d.year d.month d.day d.hour d.minute d.second * 10000000 + d.microsecond * 10 :=
        rfl
      refine .mk (.of_exists d.valid) (by omega) ?_
      have hfraction : d.ticks % 10000000 = d.microsecond * 10 := by omega
      rw [hfraction]
      by_cases hzero : d.microsecond = 0
      · rw [if_pos hzero, hzero]
        exact .inl ⟨rfl, rfl⟩
      · rw [if_neg hzero]
        refine .inr ⟨utc, ?_, .inl ⟨rfl, Nat.mul_mod_left _ _⟩⟩
        rw [Nat.mul_div_cancel _ (by decide)]
        rfl

theorem ascii_of_mem_digits {width n : Nat} {c : Char} (h : c ∈ digits width n) : c.toNat < 128 := by
  have hdigit := isDigit_of_mem_digits h
  simp only [Char.isDigit, Bool.and_eq_true, decide_eq_true_eq] at hdigit
  have hle := UInt32.le_iff_toNat_le.mp hdigit.2
  exact Nat.lt_of_le_of_lt hle (by decide)

theorem Tail.ascii {fraction : Nat} (h : Tail tail fraction) : ∀ c ∈ tail, c.toNat < 128 := by
  have hutc : ∀ c ∈ utc, c.toNat < 128 := by
    unfold utc
    simp
  have hdigit : ∀ d < 10, (Nat.digitChar d).toNat < 128 := by decide
  obtain ⟨rfl, -⟩ | ⟨rest, rfl, hrest⟩ := h
  · exact hutc
  · intro c hc
    rcases List.mem_cons.mp hc with rfl | hc
    · decide
    rcases List.mem_append.mp hc with hc | hc
    · exact ascii_of_mem_digits hc
    obtain ⟨rfl, -⟩ | rfl := hrest
    · exact hutc c hc
    · rcases List.mem_cons.mp hc with rfl | hc
      · exact hdigit _ (Nat.mod_lt _ (by decide))
      · exact hutc c hc

theorem ascii_spelled (h : ∀ c ∈ tail, c.toNat < 128) :
    ∀ c ∈ spelled year month day hour minute second tail, c.toNat < 128 := by
  intro c hc
  simp only [spelled, List.mem_append, List.mem_cons] at hc
  rcases hc with hc | rfl | hc | rfl | hc | rfl | hc | rfl | hc | rfl | hc | hc
  all_goals first | decide | exact ascii_of_mem_digits hc | exact h c hc

/-- **What is stored for an earlier instant comes first**, whoever stored it. -/
theorem Stored.lt {stored stored' : String} {instant instant' : Nat} (h : Stored stored instant)
    (h' : Stored stored' instant') (hlt : instant < instant') : bytes stored < bytes stored' := by
  obtain ⟨isTime, seconds, isTail⟩ := h.spells
  obtain ⟨isTime', seconds', isTail'⟩ := h'.spells
  refine bytes_lt (ascii_spelled isTail.ascii) (ascii_spelled isTail'.ascii) (spelled_lt_of isTime isTime' ?_)
  rw [seconds, seconds']
  by_cases hsecond : instant / 10000000 < instant' / 10000000
  · exact .inl hsecond
  · refine .inr ⟨by omega, isTail.lt isTail' (Nat.mod_lt _ (by decide)) (by omega)⟩

theorem Stored.lt_iff {stored stored' : String} {instant instant' : Nat} (h : Stored stored instant)
    (h' : Stored stored' instant') (hne : instant ≠ instant') : bytes stored < bytes stored' ↔ instant < instant' := by
  constructor
  · intro hlt
    by_contra hnot
    exact List.lt_asymm hlt (h'.lt h (by omega))
  · exact h.lt h'

/-! ## What is read back -/

/-- What is read of a text with seven digits of a second. -/
theorem parse_spelled (h : IsTime year month day hour minute second) {fraction : Nat} (hfraction : fraction < 10 ^ 7) :
    parse (String.ofList (spelled year month day hour minute second ('.' :: (digits 7 fraction ++ utc)))) =
      some (ticksOf year month day hour minute second fraction, 0) := by
  have hyear : year < 10 ^ 4 := Nat.lt_of_le_of_lt h.year_le (by decide)
  have hhour : hour < 10 ^ 2 := h.hour_lt.trans (by decide)
  have hminute : minute < 10 ^ 2 := h.minute_lt.trans (by decide)
  have hsecond : second < 10 ^ 2 := h.second_lt.trans (by decide)
  have hoffset : offset utc = some 0 := by decide
  have hticks : Moments.fraction ('.' :: (digits 7 fraction ++ utc)) = some (fraction * 10 ^ (7 - 7), utc) :=
    fraction_digits (by decide) (by decide) hfraction '+' ['0', '0', ':', '0', '0'] (by decide)
  have hinstant : instant? year month day hour minute second (fraction * 10 ^ (7 - 7)) 0 =
      some (ticksOf year month day hour minute second fraction, 0) := by
    simp [instant?, h.exists]
  rw [parse, String.toList_ofList, spelled, number_digits hyear]
  simp only [Option.bind_eq_bind, Option.bind_some, expect_cons]
  rw [pair_digits h.month_lt h.day_lt, Option.bind_some, expect_cons, Option.bind_some, pair_digits hhour hminute,
    Option.bind_some, expect_cons, Option.bind_some, number_digits hsecond, Option.bind_some, hticks,
    Option.bind_some, hoffset, Option.bind_some, hinstant]

/-- **What C# writes it reads back**, as the same instant in UTC. -/
theorem momentOf_text {moment : DateTimeOffset} (h : moment.utcTicks ≤ maxTicks) :
    momentOf (text moment) = some (toUniversalTime moment) := by
  have htime := isTime_dateOf (Nat.div_le_div_right h : moment.utcTicks / 10000000 ≤ maxTicks / 10000000)
  have hfraction : moment.utcTicks % 10000000 < 10 ^ 7 := Nat.mod_lt _ (by decide)
  rw [momentOf, text_eq, parse_spelled htime hfraction, ticksOf_eq, secondsOf_dateOf, Option.map_some,
    Nat.div_add_mod']
  rfl

theorem text_inj {a b : DateTimeOffset} (ha : a.utcTicks ≤ maxTicks) (hb : b.utcTicks ≤ maxTicks) :
    text a = text b ↔ a.utcTicks = b.utcTicks := by
  constructor
  · intro h
    have hread : some (toUniversalTime a) = some (toUniversalTime b) := by
      rw [← momentOf_text ha, ← momentOf_text hb, h]
    have hsame : toUniversalTime a = toUniversalTime b := Option.some.inj hread
    have hticks := congrArg DateTimeOffset.utcTicks hsame
    exact hticks
  · intro h
    rw [text_eq, text_eq, h]

/-! ## Rows in order -/

/-- `ORDER BY` a column of texts. -/
def Ascending {α : Type} (column : α → String) (rows : List α) : Prop :=
  rows.Pairwise fun row later => ¬bytes (column later) < bytes (column row)

/-- `ORDER BY … DESC`. -/
def Descending {α : Type} (column : α → String) (rows : List α) : Prop :=
  rows.Pairwise fun row later => ¬bytes (column row) < bytes (column later)

theorem Ascending.instants {α : Type} {column : α → String} {instant : α → Nat} {rows : List α}
    (hstored : ∀ row ∈ rows, Stored (column row) (instant row)) (h : Ascending column rows) :
    rows.Pairwise fun row later => instant row ≤ instant later :=
  h.imp_of_mem fun hrow hlater hle => by
    by_contra hnot
    exact hle ((hstored _ hlater).lt (hstored _ hrow) (by omega))

theorem Descending.instants {α : Type} {column : α → String} {instant : α → Nat} {rows : List α}
    (hstored : ∀ row ∈ rows, Stored (column row) (instant row)) (h : Descending column rows) :
    rows.Pairwise fun row later => instant later ≤ instant row :=
  h.imp_of_mem fun hrow hlater hle => by
    by_contra hnot
    exact hle ((hstored _ hrow).lt (hstored _ hlater) (by omega))

/-- **Stored timestamps sort like time.** Of two moments whose instants are in range, C# writes texts in the order of
the instants, the same for the same instant, and reads each back; of two instants that differ the texts are in their
order, whichever program wrote each; and rows in the order of such a column are in the order of time. -/
theorem stored_moments_sort_like_time :
    (∀ a b : DateTimeOffset, a.utcTicks ≤ maxTicks → b.utcTicks ≤ maxTicks →
      (bytes (text a) < bytes (text b) ↔ a.utcTicks < b.utcTicks) ∧ (text a = text b ↔ a.utcTicks = b.utcTicks) ∧
        ∃ read, momentOf (text a) = some read ∧ read.utcTicks = a.utcTicks) ∧
    (∀ stored stored' instant instant', Stored stored instant → Stored stored' instant' → instant ≠ instant' →
      (bytes stored < bytes stored' ↔ instant < instant')) ∧
    ∀ (α : Type) (column : α → String) (instant : α → Nat) (rows : List α),
      (∀ row ∈ rows, Stored (column row) (instant row)) →
        (Ascending column rows → rows.Pairwise fun row later => instant row ≤ instant later) ∧
        (Descending column rows → rows.Pairwise fun row later => instant later ≤ instant row) := by
  refine ⟨fun a b ha hb => ⟨?_, text_inj ha hb, _, momentOf_text ha, rfl⟩, fun _ _ _ _ h h' hne => h.lt_iff h' hne,
    fun α column instant rows hstored => ⟨Ascending.instants hstored, Descending.instants hstored⟩⟩
  by_cases heq : a.utcTicks = b.utcTicks
  · rw [(text_inj ha hb).mpr heq, heq]
    exact iff_of_false (List.lt_irrefl _) (Nat.lt_irrefl _)
  · exact (Stored.csharp ha).lt_iff (.csharp hb) heq

/-! ### A tick after a second, and a second that Python writes -/

def onTheSecond : DateTime := ⟨2026, 8, 11, 9, 15, 0, 0, by decide, by decide⟩

def aTickAfter : DateTimeOffset := ⟨onTheSecond.ticks + 1, 120⟩

theorem stored_moments_sort_like_time_tick :
    bytes onTheSecond.isoformat < bytes (text aTickAfter) ∧ ¬text aTickAfter = text ⟨onTheSecond.ticks, 0⟩ := by
  have hafter : aTickAfter.utcTicks ≤ maxTicks := by decide +kernel
  have hon : onTheSecond.ticks ≤ maxTicks := by decide +kernel
  obtain ⟨hboth, hmixed, -⟩ := stored_moments_sort_like_time
  refine ⟨(hmixed _ _ _ _ (.python onTheSecond) (.csharp hafter) (Nat.ne_of_lt (Nat.lt_succ_self _))).mpr
    (Nat.lt_succ_self _), fun h => ?_⟩
  exact Nat.succ_ne_self _ ((hboth aTickAfter ⟨onTheSecond.ticks, 0⟩ hafter hon).2.1.mp h)

end StoredMoments

end AtlasFlow
