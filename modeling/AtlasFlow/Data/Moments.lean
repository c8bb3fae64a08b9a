import Mathlib.Tactic

/-!
# Moments and their ISO texts

Dates of the proleptic Gregorian calendar with a time of day to the microsecond, as Python's `datetime`
keeps them, the text `isoformat` writes for one in UTC, and the reader of such texts: a date, a time
of day, up to seven digits of a second, and an offset.

    DateTime ──isoformat──▶ text ──parse──▶ (instant, offset)

`parse_isoformat` is the round trip: what is written for a moment is read as its instant, with no offset.
-/

namespace Moments

/-! ## Decimal numbers of a fixed width -/

/-- `f"{n:0{width}d}"` for a number that fits. -/
def digits : (width n : Nat) → List Char
  | 0, _ => []
  | width + 1, n => digits width (n / 10) ++ [Nat.digitChar (n % 10)]

def digit? (c : Char) : Option Nat := if c.isDigit then some (c.toNat - 48) else none

/-- The number that `width` digits spell, after what has been read of it, and what follows them. -/
def number : (width read : Nat) → List Char → Option (Nat × List Char)
  | 0, read, cs => some (read, cs)
  | _ + 1, _, [] => none
  | width + 1, read, c :: cs => (digit? c).bind fun d => number width (10 * read + d) cs

/-- One given character. -/
def expect (c : Char) : List Char → Option (List Char)
  | [] => none
  | first :: cs => if first = c then some cs else none

@[simp] theorem expect_cons (c : Char) (cs : List Char) : expect c (c :: cs) = some cs := by
  simp [expect]

theorem digit?_digitChar : ∀ d < 10, digit? (Nat.digitChar d) = some d := by decide

theorem isDigit_digitChar : ∀ d < 10, (Nat.digitChar d).isDigit = true := by decide

@[simp] theorem length_digits (width n : Nat) : (digits width n).length = width := by
  induction width generalizing n with
  | zero => rfl
  | succ width ih => simp [digits, ih]

theorem isDigit_of_mem_digits {width n : Nat} {c : Char} (hc : c ∈ digits width n) : c.isDigit = true := by
  induction width generalizing n with
  | zero => cases hc
  | succ width ih =>
      rw [digits, List.mem_append, List.mem_singleton] at hc
      rcases hc with hc | rfl
      · exact ih hc
      · exact isDigit_digitChar _ (Nat.mod_lt n (by decide))

/-- The digits of a number are read one after the other. -/
theorem number_add (a b read : Nat) (cs : List Char) :
    number (a + b) read cs = (number a read cs).bind fun p => number b p.1 p.2 := by
  induction a generalizing read cs with
  | zero => simp [number]
  | succ a ih =>
      cases cs with
      | nil => simp [number, Nat.succ_add]
      | cons c cs =>
          simp only [Nat.succ_add, number]
          cases digit? c with
          | none => rfl
          | some d => simp only [Option.bind_some, ih]

theorem number_digits' (width n read : Nat) (rest : List Char) (hn : n < 10 ^ width) :
    number width read (digits width n ++ rest) = some (read * 10 ^ width + n, rest) := by
  induction width generalizing n rest with
  | zero =>
      have hzero : n = 0 := by simpa using hn
      simp [number, digits, hzero]
  | succ width ih =>
      have hlast : n % 10 < 10 := Nat.mod_lt n (by decide)
      have hfirst : n / 10 < 10 ^ width := by rw [pow_succ] at hn; omega
      have hvalue : 10 * (read * 10 ^ width + n / 10) + n % 10 = read * 10 ^ (width + 1) + n := by
        rw [pow_succ]
        have hn := Nat.div_add_mod n 10
        calc 10 * (read * 10 ^ width + n / 10) + n % 10
            = read * (10 ^ width * 10) + (10 * (n / 10) + n % 10) := by ring
          _ = read * (10 ^ width * 10) + n := by rw [hn]
      rw [number_add, digits, List.append_assoc, ih (n / 10) _ hfirst]
      simp [number, digit?_digitChar _ hlast, hvalue]

/-- **A number that was written is read back**, up to the characters that follow it. -/
theorem number_digits {width n : Nat} (hn : n < 10 ^ width) (rest : List Char) :
    number width 0 (digits width n ++ rest) = some (n, rest) := by
  rw [number_digits' width n 0 rest hn, Nat.zero_mul, Nat.zero_add]

/-! ## The calendar -/

def isLeap (year : Nat) : Bool := year % 4 = 0 && (year % 100 ≠ 0 || year % 400 = 0)

def daysInMonth (year month : Nat) : Nat :=
  if month = 2 then (if isLeap year then 29 else 28)
  else if month ∈ [4, 6, 9, 11] then 30 else 31

theorem daysInMonth_le (year month : Nat) : daysInMonth year month ≤ 31 := by
  unfold daysInMonth
  split
  · split <;> decide
  · split <;> decide

/-- The days of the months before a month. -/
def daysBeforeMonth (year month : Nat) : Nat := ((List.range' 1 (month - 1)).map (daysInMonth year)).sum

/-- The days since 0001-01-01. -/
def dayNumber (year month day : Nat) : Nat :=
  let past := year - 1
  past * 365 + past / 4 - past / 100 + past / 400 + daysBeforeMonth year month + (day - 1)

/-- A date and a time of day that exist. -/
def Exists (year month day hour minute second : Nat) : Bool :=
  1 ≤ year && year ≤ 9999 && 1 ≤ month && month ≤ 12 && 1 ≤ day && day ≤ daysInMonth year month &&
    hour < 24 && minute < 60 && second < 60

/-- Ticks of 100 nanoseconds since the first moment there is. -/
def ticksOf (year month day hour minute second fraction : Nat) : Nat :=
  (((dayNumber year month day * 24 + hour) * 60 + minute) * 60 + second) * 10000000 + fraction

/-- `datetime`, in UTC. -/
structure DateTime where
  year : Nat
  month : Nat
  day : Nat
  hour : Nat
  minute : Nat
  second : Nat
  microsecond : Nat
  valid : Exists year month day hour minute second
  microsecond_lt : microsecond < 1000000
  deriving DecidableEq, Repr

namespace DateTime

/-- The instant, in ticks of 100 nanoseconds. -/
def ticks (d : DateTime) : Nat :=
  ticksOf d.year d.month d.day d.hour d.minute d.second (d.microsecond * 10)

/-- `isoformat`: the microseconds are left out when there are none. -/
def isoformat (d : DateTime) : String :=
  String.ofList (digits 4 d.year ++ '-' :: (digits 2 d.month ++ '-' :: (digits 2 d.day ++
    'T' :: (digits 2 d.hour ++ ':' :: (digits 2 d.minute ++ ':' :: (digits 2 d.second ++
    ((if d.microsecond = 0 then [] else '.' :: digits 6 d.microsecond) ++
    ['+', '0', '0', ':', '0', '0'])))))))

end DateTime

/-! ## Reading a text -/

/-- The digits after the point, in ticks; seven of them are kept at most. -/
def fraction : List Char → Option (Nat × List Char)
  | '.' :: cs =>
      let width := (cs.takeWhile Char.isDigit).length
      if width = 0 ∨ 7 < width then none
      else (number width 0 cs).map fun (n, rest) => (n * 10 ^ (7 - width), rest)
  | cs => some (0, cs)

/-- `Z`, or a signed number of hours and minutes: the offset in minutes. -/
def offset : List Char → Option Int
  | ['Z'] => some 0
  | sign :: cs => do
      let (hours, cs) ← number 2 0 cs
      let cs ← expect ':' cs
      let (minutes, cs) ← number 2 0 cs
      if cs = [] ∧ minutes < 60 then
        if sign = '+' then some (hours * 60 + minutes)
        else if sign = '-' then some (-(hours * 60 + minutes))
        else none
      else none
  | [] => none

/-- Two numbers of two digits with a character between them. -/
def pair (separator : Char) (cs : List Char) : Option ((Nat × Nat) × List Char) := do
  let (first, cs) ← number 2 0 cs
  let cs ← expect separator cs
  let (second, cs) ← number 2 0 cs
  return ((first, second), cs)

/-- The instant of a date and a time of day at an offset; there is none before the first moment. -/
def instant? (year month day hour minute second ticks : Nat) (away : Int) : Option (Nat × Int) :=
  if Exists year month day hour minute second then
    let instant : Int := ticksOf year month day hour minute second ticks - away * 600000000
    if 0 ≤ instant then some (instant.toNat, away) else none
  else none

/-- `yyyy-MM-ddTHH:mm:ss`, a fraction of the second if there is one, and the offset: the instant a text
names and the offset it is written with, if it names one. -/
def parse (text : String) : Option (Nat × Int) := do
  let (year, cs) ← number 4 0 text.toList
  let cs ← expect '-' cs
  let ((month, day), cs) ← pair '-' cs
  let cs ← expect 'T' cs
  let ((hour, minute), cs) ← pair ':' cs
  let cs ← expect ':' cs
  let (second, cs) ← number 2 0 cs
  let (ticks, cs) ← fraction cs
  let away ← offset cs
  instant? year month day hour minute second ticks away

theorem pair_digits {first second : Nat} (hfirst : first < 10 ^ 2) (hsecond : second < 10 ^ 2) (separator : Char)
    (rest : List Char) :
    pair separator (digits 2 first ++ separator :: (digits 2 second ++ rest)) = some ((first, second), rest) := by
  rw [pair, number_digits hfirst]
  simp only [Option.bind_eq_bind, Option.bind_some, expect_cons]
  rw [number_digits hsecond]
  rfl

theorem fraction_digits {width n : Nat} (hwidth : 0 < width) (hmost : width ≤ 7) (hn : n < 10 ^ width)
    (c : Char) (rest : List Char) (hc : c.isDigit = false) :
    fraction ('.' :: (digits width n ++ c :: rest)) = some (n * 10 ^ (7 - width), c :: rest) := by
  have hdigits : ((digits width n ++ c :: rest).takeWhile Char.isDigit) = digits width n := by
    rw [List.takeWhile_append_of_pos fun x hx => isDigit_of_mem_digits hx, List.takeWhile_cons, hc]
    simp
  have hbound : ¬ (width = 0 ∨ 7 < width) := by omega
  simp only [fraction, hdigits, length_digits, if_neg hbound, number_digits hn, Option.map_some]

/-- The microseconds of a moment are read as ticks, written or left out. -/
theorem fraction_microsecond {n : Nat} (hn : n < 1000000) (rest : List Char) :
    fraction ((if n = 0 then [] else '.' :: digits 6 n) ++ '+' :: rest) = some (n * 10, '+' :: rest) := by
  split
  · next hzero => simp [fraction, hzero]
  · exact fraction_digits (by decide) (by decide) hn '+' rest (by decide)

/-- **What `isoformat` writes is read as the same instant.** -/
theorem parse_isoformat (d : DateTime) : parse d.isoformat = some (d.ticks, 0) := by
  have hvalid := d.valid
  have hdays := daysInMonth_le d.year d.month
  simp only [Exists, Bool.and_eq_true, decide_eq_true_eq] at hvalid
  obtain ⟨⟨⟨⟨⟨⟨⟨⟨_, hyear⟩, _⟩, hmonth⟩, _⟩, hday⟩, hhour⟩, hminute⟩, hsecond⟩ := hvalid
  have hoffset : offset ['+', '0', '0', ':', '0', '0'] = some 0 := by decide
  have hy : d.year < 10 ^ 4 := by omega
  have hm : d.month < 10 ^ 2 := by omega
  have hd : d.day < 10 ^ 2 := by omega
  have hh : d.hour < 10 ^ 2 := by omega
  have hmin : d.minute < 10 ^ 2 := by omega
  have hs : d.second < 10 ^ 2 := by omega
  have hfraction := fraction_microsecond d.microsecond_lt ['0', '0', ':', '0', '0']
  have hinstant : instant? d.year d.month d.day d.hour d.minute d.second (d.microsecond * 10) 0 =
      some (d.ticks, 0) := by
    simp only [instant?, if_pos d.valid, zero_mul, sub_zero, Int.natCast_nonneg, if_true, Int.toNat_natCast]
    rfl
  rw [parse, DateTime.isoformat, String.toList_ofList, number_digits hy]
  simp only [Option.bind_eq_bind, Option.bind_some, expect_cons]
  rw [pair_digits hm hd, Option.bind_some, expect_cons, Option.bind_some, pair_digits hh hmin, Option.bind_some,
    expect_cons, Option.bind_some, number_digits hs, Option.bind_some, hfraction, Option.bind_some, hoffset,
    Option.bind_some, hinstant]

end Moments
