import Mathlib.Data.List.TakeWhile
import Mathlib.Tactic.IntervalCases
import WotAv.Xml.Temporal

/-!
# The lexical space of dates and times

`Lexical` is the lexical space of XML Schema 1.0, which the truncated types
take from `dateTime` piece by piece; the first edition writes a month
`--MM--`, the second `--MM`. What the expressions and the splicing of
`validTemporal` accept is that space, but for the year's bound and for what
`trim` takes for white space.
-/

namespace WotAv.Xml

open WotAv.Binding
open WotAv.Media (isSpace)

-- The lexical space

def TwoDigits (t : List Char) : Prop := ∃ a b : Char, t = [a, b] ∧ a.isDigit ∧ b.isDigit

/-- A sign and four digits or more, the first of which is not 0 if there are
more; not the year 0. -/
def IsYear (t : List Char) : Prop :=
  ∃ sign digits : List Char, t = sign ++ digits ∧ (sign = [] ∨ sign = ['-']) ∧ (∀ c ∈ digits, c.isDigit) ∧
    4 ≤ digits.length ∧ (4 < digits.length → digits.head? ≠ some '0') ∧ decimal digits ≠ 0

/-- The days of a month of the proleptic Gregorian calendar. -/
def monthDays (year : Int) (month : ℕ) : ℕ :=
  if month = 2 then if 4 ∣ year ∧ (¬100 ∣ year ∨ 400 ∣ year) then 29 else 28
  else if month ∈ [4, 6, 9, 11] then 30 else 31

def IsMonth (t : List Char) : Prop := TwoDigits t ∧ 1 ≤ decimal t ∧ decimal t ≤ 12

def IsDay (last : ℕ) (t : List Char) : Prop := TwoDigits t ∧ 1 ≤ decimal t ∧ decimal t ≤ last

structure DateValues (year month day : List Char) : Prop where
  isYear : IsYear year
  isMonth : IsMonth month
  isDay : IsDay (monthDays (bigInt year) (decimal month)) day

def IsFraction (t : List Char) : Prop := t = [] ∨ ∃ digits, digits ≠ [] ∧ (∀ c ∈ digits, Char.isDigit c) ∧ t = '.' :: digits

/-- A time of the day, or its end. -/
structure TimeValues (hour minute second fraction : List Char) : Prop where
  isHour : TwoDigits hour
  isMinute : TwoDigits minute
  isSecond : TwoDigits second
  isFraction : IsFraction fraction
  values : decimal hour ≤ 23 ∧ decimal minute ≤ 59 ∧ decimal second ≤ 59 ∨
    decimal hour = 24 ∧ decimal minute = 0 ∧ decimal second = 0 ∧ ∀ c ∈ fraction, c = '.' ∨ c = '0'

def IsTime (t : List Char) : Prop :=
  ∃ hour minute second fraction, TimeValues hour minute second fraction ∧
    t = hour ++ ':' :: (minute ++ ':' :: (second ++ fraction))

/-- No zone, UTC, or at most 14 hours from it. -/
def IsTimezone (t : List Char) : Prop :=
  t = [] ∨ t = ['Z'] ∨ ∃ sign hours minutes, t = sign :: (hours ++ ':' :: minutes) ∧ (sign = '+' ∨ sign = '-') ∧
    TwoDigits hours ∧ TwoDigits minutes ∧
    (decimal hours ≤ 13 ∧ decimal minutes ≤ 59 ∨ decimal hours = 14 ∧ decimal minutes = 0)

/-- The lexical space without zones. -/
def Local (type : TemporalType) (t : List Char) : Prop :=
  match type with
  | .dateTime => ∃ year month day time, DateValues year month day ∧ IsTime time ∧
      t = year ++ '-' :: (month ++ '-' :: (day ++ 'T' :: time))
  | .date => ∃ year month day, DateValues year month day ∧ t = year ++ '-' :: (month ++ '-' :: day)
  | .time => IsTime t
  | .gYearMonth => ∃ year month, IsYear year ∧ IsMonth month ∧ t = year ++ '-' :: month
  | .gYear => IsYear t
  | .gMonthDay => ∃ month day, IsMonth month ∧ IsDay (monthDays 2000 (decimal month)) day ∧
      t = '-' :: '-' :: (month ++ '-' :: day)
  | .gDay => ∃ day, IsDay 31 day ∧ t = '-' :: '-' :: '-' :: day
  | .gMonth => ∃ month, IsMonth month ∧ (t = '-' :: '-' :: month ∨ t = '-' :: '-' :: (month ++ ['-', '-']))

def Lexical (type : TemporalType) (t : List Char) : Prop :=
  ∃ value zone, Local type value ∧ IsTimezone zone ∧ t = value ++ zone

-- What the expression of `validDateTime` matches

theorem literal_some : literal c s = some r ↔ s = c :: r := by
  cases s with
  | nil => simp [literal]
  | cons d s => simp [literal]

theorem twoDigits_some : twoDigits s = some (p, r) ↔ TwoDigits p ∧ s = p ++ r := by
  constructor
  · intro h
    unfold twoDigits at h
    split at h
    · rename_i a b s
      split at h
      · rename_i hab
        obtain ⟨rfl, rfl⟩ := Prod.mk.inj (Option.some.inj h)
        exact ⟨⟨a, b, rfl, hab⟩, rfl⟩
      · cases h
    · cases h
  · rintro ⟨⟨a, b, rfl, hab⟩, rfl⟩
    simp [twoDigits, hab]

theorem span_digits {digits rest : List Char} (hd : ∀ c ∈ digits, c.isDigit) (hr : ∀ c ∈ rest.head?, c.isDigit = false) :
    (digits ++ rest).takeWhile Char.isDigit = digits ∧ (digits ++ rest).dropWhile Char.isDigit = rest := by
  have hrest : rest.takeWhile Char.isDigit = [] ∧ rest.dropWhile Char.isDigit = rest := by
    cases rest with
    | nil => simp
    | cons c cs => simp [hr c rfl]
  rw [List.takeWhile_append_of_pos hd, List.dropWhile_append_of_pos hd]
  simp [hrest]

theorem digits_ne {digits : List Char} (hd : ∀ c ∈ digits, c.isDigit) (hx : x.isDigit = false) : x ∉ digits := by
  intro hmem
  rw [hd x hmem] at hx
  cases hx

def YearShape (t : List Char) : Prop :=
  ∃ sign digits : List Char, t = sign ++ digits ∧ (sign = [] ∨ sign = ['-']) ∧ (∀ c ∈ digits, c.isDigit) ∧ 4 ≤ digits.length

theorem signGroup_sound (s : List Char) :
    ((signGroup s).1 = [] ∨ (signGroup s).1 = ['-']) ∧ (signGroup s).1 ++ (signGroup s).2 = s := by
  unfold signGroup
  split <;> simp

theorem signGroup_digits {digits : List Char} (hd : ∀ c ∈ digits, c.isDigit) (hne : digits ≠ []) (r : List Char) :
    signGroup (digits ++ r) = ([], digits ++ r) := by
  cases digits with
  | nil => exact absurd rfl hne
  | cons c cs =>
    unfold signGroup
    split
    · rename_i heq
      have hc := hd c List.mem_cons_self
      rw [(List.cons.inj heq).1] at hc
      exact absurd hc (by decide)
    · rfl

theorem yearGroup_sound (h : yearGroup s = some (y, r)) : YearShape y ∧ s = y ++ r := by
  unfold yearGroup at h
  obtain ⟨hsign, happ⟩ := signGroup_sound s
  generalize signGroup s = group at h hsign happ
  dsimp only at h
  split at h
  · rename_i hlen
    obtain ⟨rfl, rfl⟩ := Prod.mk.inj (Option.some.inj h)
    refine ⟨⟨_, _, rfl, hsign, fun c hc => List.mem_takeWhile_imp hc, hlen⟩, ?_⟩
    rw [List.append_assoc, List.takeWhile_append_dropWhile, happ]
  · cases h

theorem yearGroup_complete (hy : YearShape y) (hr : ∀ c ∈ r.head?, Char.isDigit c = false) :
    yearGroup (y ++ r) = some (y, r) := by
  obtain ⟨sign, digits, rfl, hsign, hd, hlen⟩ := hy
  obtain ⟨htake, hdrop⟩ := span_digits hd hr
  have hgroup : signGroup (sign ++ (digits ++ r)) = (sign, digits ++ r) := by
    rcases hsign with rfl | rfl
    · exact signGroup_digits hd (by rintro rfl; simp at hlen) r
    · rfl
  simp [yearGroup, hgroup, htake, hdrop, hlen]

def ZoneShape (z : List Char) : Prop := z = [] ∨ isZone z

theorem isZone_cases (h : isZone z) : z = ['Z'] ∨ ∃ sign a b c d, z = [sign, a, b, ':', c, d] ∧ (sign = '+' ∨ sign = '-') ∧
    a.isDigit ∧ b.isDigit ∧ c.isDigit ∧ d.isDigit := by
  unfold isZone at h
  split at h
  · exact .inl rfl
  · rename_i sign a b c d
    simp only [Bool.and_eq_true, Bool.or_eq_true, decide_eq_true_eq] at h
    exact .inr ⟨sign, a, b, c, d, rfl, h.1.1.1.1, h.1.1.1.2, h.1.1.2, h.1.2, h.2⟩
  · cases h

theorem zone_head (h : ZoneShape z) : ∀ c ∈ z.head?, c = 'Z' ∨ c = '+' ∨ c = '-' := by
  rcases h with rfl | h
  · simp
  · rcases isZone_cases h with rfl | ⟨sign, a, b, c, d, rfl, hs, -⟩
    · simp
    · simpa using .inr hs

theorem fraction_sound (s : List Char) : IsFraction ((fractionGroup s).1.getD []) ∧
    s = (fractionGroup s).1.getD [] ++ (fractionGroup s).2 := by
  unfold fractionGroup
  split
  · rename_i s
    split
    · exact ⟨.inl rfl, rfl⟩
    · rename_i hne
      exact ⟨.inr ⟨_, hne, fun c hc => List.mem_takeWhile_imp hc, rfl⟩, by simp⟩
  · exact ⟨.inl rfl, rfl⟩

theorem fraction_complete (hf : IsFraction f) (hz : ZoneShape z) :
    (fractionGroup (f ++ z)).1.getD [] = f ∧ (fractionGroup (f ++ z)).2 = z := by
  have hhead := zone_head hz
  rcases hf with rfl | ⟨digits, hne, hd, rfl⟩
  · unfold fractionGroup
    split
    · rename_i s heq
      rw [List.nil_append] at heq
      rw [heq] at hhead
      exact absurd (hhead '.' rfl) (by decide)
    · exact ⟨rfl, rfl⟩
  · have hz' : ∀ c ∈ z.head?, c.isDigit = false := by
      intro c hc
      rcases hhead c hc with rfl | rfl | rfl <;> decide
    obtain ⟨htake, hdrop⟩ := span_digits hd hz'
    simp [fractionGroup, htake, hdrop, hne]

theorem zoneGroup_some : zoneGroup s = some z ↔ ZoneShape s ∧ z = if s = [] then none else some s := by
  unfold zoneGroup ZoneShape
  split
  · rename_i hs
    exact ⟨fun h => ⟨.inl hs, (Option.some.inj h).symm⟩, fun h => congrArg some h.2.symm⟩
  · rename_i hs
    split
    · rename_i hz
      exact ⟨fun h => ⟨.inr hz, (Option.some.inj h).symm⟩, fun h => congrArg some h.2.symm⟩
    · rename_i hz
      exact ⟨nofun, fun h => absurd (h.1.resolve_left hs) hz⟩

/-- The groups that the text falls into. -/
structure DateTimeMatch.Shape (m : DateTimeMatch) (zone : List Char) : Prop where
  isYear : YearShape m.year
  isMonth : TwoDigits m.month
  isDay : TwoDigits m.day
  isHour : TwoDigits m.hour
  isMinute : TwoDigits m.minute
  isSecond : TwoDigits m.second
  isFraction : IsFraction (m.fraction.getD [])
  isZone : ZoneShape zone
  zones : m.zone = if zone = [] then none else some zone

def DateTimeMatch.chars (m : DateTimeMatch) (zone : List Char) : List Char :=
  m.year ++ '-' :: (m.month ++ '-' :: (m.day ++ 'T' :: (m.hour ++ ':' :: (m.minute ++ ':' :: (m.second ++
    (m.fraction.getD [] ++ zone))))))

theorem dateTimeMatch_sound (h : dateTimeMatch t = some m) : ∃ zone, m.Shape zone ∧ t = m.chars zone := by
  simp only [dateTimeMatch, Option.bind_eq_bind, Option.bind_eq_some_iff, Prod.exists] at h
  obtain ⟨year, s₁, h₁, s₂, h₂, month, s₃, h₃, s₄, h₄, day, s₅, h₅, s₆, h₆, hour, s₇, h₇, s₈, h₈, minute, s₉, h₉, s₁₀, h₁₀,
    second, s₁₁, h₁₁, zone, h₁₂, hm⟩ := h
  obtain ⟨hyear, rfl⟩ := yearGroup_sound h₁
  obtain rfl := literal_some.mp h₂
  obtain ⟨hmonth, rfl⟩ := twoDigits_some.mp h₃
  obtain rfl := literal_some.mp h₄
  obtain ⟨hday, rfl⟩ := twoDigits_some.mp h₅
  obtain rfl := literal_some.mp h₆
  obtain ⟨hhour, rfl⟩ := twoDigits_some.mp h₇
  obtain rfl := literal_some.mp h₈
  obtain ⟨hminute, rfl⟩ := twoDigits_some.mp h₉
  obtain rfl := literal_some.mp h₁₀
  obtain ⟨hsecond, rfl⟩ := twoDigits_some.mp h₁₁
  obtain ⟨hzone, rfl⟩ := zoneGroup_some.mp h₁₂
  obtain ⟨hfraction, hs⟩ := fraction_sound s₁₁
  obtain rfl := Option.some.inj hm
  refine ⟨_, ⟨hyear, hmonth, hday, hhour, hminute, hsecond, hfraction, hzone, rfl⟩, ?_⟩
  simp only [DateTimeMatch.chars]
  rw [← hs]

theorem dateTimeMatch_complete {m : DateTimeMatch} {zone : List Char} (h : m.Shape zone) :
    ∃ m' : DateTimeMatch, dateTimeMatch (m.chars zone) = some m' ∧ m'.Shape zone ∧ m'.year = m.year ∧ m'.month = m.month ∧
      m'.day = m.day ∧ m'.hour = m.hour ∧ m'.minute = m.minute ∧ m'.second = m.second ∧
      m'.fraction.getD [] = m.fraction.getD [] ∧ m'.zone = m.zone := by
  obtain ⟨hf, hz⟩ := fraction_complete h.isFraction h.isZone
  refine ⟨{ m with fraction := (fractionGroup (m.fraction.getD [] ++ zone)).1 }, ?_, ?_, rfl, rfl, rfl, rfl, rfl, rfl, hf, rfl⟩
  · have hyear := yearGroup_complete h.isYear (r := '-' :: (m.month ++ '-' :: (m.day ++ 'T' :: (m.hour ++ ':' ::
      (m.minute ++ ':' :: (m.second ++ (m.fraction.getD [] ++ zone))))))) (by simp)
    have htwo {p r : List Char} (hp : TwoDigits p) : twoDigits (p ++ r) = some (p, r) := twoDigits_some.mpr ⟨hp, rfl⟩
    have hlit (c : Char) (r : List Char) : literal c (c :: r) = some r := literal_some.mpr rfl
    have hzone : zoneGroup zone = some m.zone := zoneGroup_some.mpr ⟨h.isZone, h.zones⟩
    simp only [dateTimeMatch, DateTimeMatch.chars, Option.bind_eq_bind, hyear, Option.bind_some, hlit, htwo h.isMonth,
      htwo h.isDay, htwo h.isHour, htwo h.isMinute, htwo h.isSecond, hz, hzone]
    rfl
  · exact { h with isFraction := hf.symm ▸ h.isFraction }

-- What `validDateTime` checks

theorem year_parts {sign digits : List Char} (hsign : sign = [] ∨ sign = ['-']) (hd : ∀ c ∈ digits, c.isDigit)
    (hne : digits ≠ []) : (sign ++ digits).erase '-' = digits ∧ (bigInt (sign ++ digits) = 0 ↔ decimal digits = 0) := by
  have hminus : '-' ∉ digits := digits_ne hd (by decide)
  rcases hsign with rfl | rfl
  · refine ⟨List.erase_of_not_mem hminus, ?_⟩
    cases digits with
    | nil => exact absurd rfl hne
    | cons c cs =>
      have hc : c ≠ '-' := fun h => hminus (h ▸ List.mem_cons_self)
      rw [List.nil_append, bigInt]
      · exact Int.natCast_eq_zero
      · exact fun digits h => hc (List.cons.inj h).1
  · exact ⟨by simp, by simp [bigInt]⟩

theorem year_iff (hy : YearShape y) :
    ¬(bigInt y = 0 ∨ (y.erase '-').length > 4 ∧ (y.erase '-').head? = some '0') ↔ IsYear y := by
  constructor
  · intro h
    obtain ⟨sign, digits, rfl, hsign, hd, hlen⟩ := hy
    obtain ⟨herase, hzero⟩ := year_parts hsign hd (by rintro rfl; simp at hlen)
    rw [herase, hzero] at h
    exact ⟨sign, digits, rfl, hsign, hd, hlen, fun hl hh => h (.inr ⟨hl, hh⟩), fun hz => h (.inl hz)⟩
  · rintro ⟨sign, digits, rfl, hsign, hd, hlen, hlead, hz⟩ h
    obtain ⟨herase, hzero⟩ := year_parts hsign hd (by rintro rfl; simp at hlen)
    rw [herase, hzero] at h
    exact h.elim hz fun h => hlead h.1 h.2

theorem isLeap_iff (year : Int) : isLeap year ↔ 4 ∣ year ∧ (¬100 ∣ year ∨ 400 ∣ year) := by
  simp [isLeap, ← Int.dvd_iff_tmod_eq_zero]

theorem monthDays_eq (year : Int) {month : ℕ} (h₁ : 1 ≤ month) (h₂ : month ≤ 12) :
    [31, if isLeap year then 29 else 28, 31, 30, 31, 30, 31, 31, 30, 31, 30, 31].getD (month - 1) 0 = monthDays year month := by
  have hleap := isLeap_iff year
  interval_cases month <;> simp [monthDays, hleap]

theorem digit_cases {c : Char} (hc : c.isDigit) : c = '0' ∨ ('1' ≤ c ∧ c ≤ '9') := by
  have hdigit : 48 ≤ c.toNat ∧ c.toNat ≤ 57 := by simpa [Char.isDigit, UInt32.le_iff_toNat_le] using hc
  by_cases hz : c.toNat = 48
  · exact .inl (Char.ext (UInt32.toNat_inj.mp hz))
  · have h₁ : '1' ≤ c := UInt32.le_iff_toNat_le.mpr (show 49 ≤ c.toNat by omega)
    have h₂ : c ≤ '9' := UInt32.le_iff_toNat_le.mpr (show c.toNat ≤ 57 by omega)
    exact .inr ⟨h₁, h₂⟩

theorem fraction_iff (hf : IsFraction f) :
    ¬(f.any fun c => '1' ≤ c && c ≤ '9') = true ↔ ∀ c ∈ f, c = '.' ∨ c = '0' := by
  simp only [List.any_eq_true, Bool.and_eq_true, decide_eq_true_eq, not_exists, not_and]
  rcases hf with rfl | ⟨digits, -, hd, rfl⟩
  · simp
  · constructor
    · intro h c hc
      rcases List.mem_cons.mp hc with rfl | hmem
      · exact .inl rfl
      · exact .inr ((digit_cases (hd c hmem)).resolve_right fun h' => h c hc h'.1 h'.2)
    · intro h c hc h₁ h₂
      rcases h c hc with rfl | rfl
      · exact absurd h₁ (by decide)
      · exact absurd h₁ (by decide)

theorem zone_iff (hz : ZoneShape z) : (z = [] ∨ z = ['Z'] ∨ validZone z) ↔ IsTimezone z := by
  rcases hz with rfl | hz
  · simp [IsTimezone]
  · rcases isZone_cases hz with rfl | ⟨sign, a, b, c, d, rfl, hs, ha, hb, hc, hd⟩
    · simp [IsTimezone]
    · have hvalid : validZone [sign, a, b, ':', c, d] ↔
          decimal [a, b] ≤ 13 ∧ decimal [c, d] ≤ 59 ∨ decimal [a, b] = 14 ∧ decimal [c, d] = 0 := by
        simp only [validZone, List.drop_succ_cons, List.drop_zero, List.take_succ_cons, List.take_zero, Bool.not_eq_true',
          Bool.or_eq_false_iff, Bool.and_eq_false_iff, decide_eq_false_iff_not]
        omega
      constructor
      · intro h
        have hv := hvalid.mp ((h.resolve_left (by simp)).resolve_left (by simp))
        exact .inr (.inr ⟨sign, [a, b], [c, d], rfl, hs, ⟨a, b, rfl, ha, hb⟩, ⟨c, d, rfl, hc, hd⟩, hv⟩)
      · rintro (h | h | ⟨sign', hours, minutes, h, -, ⟨a', b', rfl, -⟩, ⟨c', d', rfl, -⟩, hv⟩)
        · simp at h
        · simp at h
        · simp only [List.cons_append, List.nil_append, List.cons.injEq, and_true] at h
          obtain ⟨-, rfl, rfl, -, rfl, rfl⟩ := h
          exact .inr (.inr (hvalid.mpr hv))

theorem validMatch_iff {m : DateTimeMatch} {zone : List Char} (h : m.Shape zone) : validMatch m ↔
    m.year.length ≤ 4096 ∧ DateValues m.year m.month m.day ∧
      TimeValues m.hour m.minute m.second (m.fraction.getD []) ∧ IsTimezone zone := by
  have hyear := year_iff h.isYear
  have hfraction := fraction_iff h.isFraction
  have hzone := zone_iff h.isZone
  have hany : (m.fraction.any fun f => f.any fun c => '1' ≤ c && c ≤ '9') =
      (m.fraction.getD []).any fun c => '1' ≤ c && c ≤ '9' := by cases m.fraction <;> rfl
  have hmatch : validSuffix m.zone ↔ zone = [] ∨ zone = ['Z'] ∨ validZone zone := by
    rw [h.zones]
    by_cases hz : zone = [] <;> simp [hz, validSuffix]
  have hdays (h₁ : 1 ≤ decimal m.month) (h₂ : decimal m.month ≤ 12) := monthDays_eq (bigInt m.year) h₁ h₂
  simp only [validMatch, hany]
  generalize List.getD _ (decimal m.month - 1) 0 = last at hdays ⊢
  split
  · rename_i hlen
    exact ⟨nofun, fun h => absurd h.1 (Nat.not_le.mpr hlen)⟩
  · rename_i hlen
    have hlen : m.year.length ≤ 4096 := Nat.not_lt.mp hlen
    split
    · rename_i hy
      exact ⟨nofun, fun h => absurd hy (hyear.mpr h.2.1.isYear)⟩
    · rename_i hy
      split
      · rename_i hr
        refine ⟨nofun, fun ⟨_, hd, ht, _⟩ => ?_⟩
        have hm := hd.isMonth.2
        have hday := hd.isDay.2
        rw [← hdays hm.1 hm.2] at hday
        have htime := ht.values
        omega
      · rename_i hr
        have hm : 1 ≤ decimal m.month ∧ decimal m.month ≤ 12 := by omega
        rw [hdays hm.1 hm.2] at hr
        have hdate : DateValues m.year m.month m.day :=
          ⟨hyear.mp hy, ⟨h.isMonth, hm⟩, ⟨h.isDay, by omega⟩⟩
        split
        · rename_i hend
          refine ⟨nofun, fun ⟨_, _, ht, _⟩ => ?_⟩
          obtain ⟨h24, hrest⟩ := hend
          rcases ht.values with hv | ⟨-, hm0, hs0, hf⟩
          · omega
          · exact absurd (hrest.resolve_left (by omega)) (by simpa [hs0] using hfraction.mpr hf)
        · rename_i hend
          rw [hmatch, hzone]
          refine ⟨fun hz => ⟨hlen, hdate, ⟨h.isHour, h.isMinute, h.isSecond, h.isFraction, ?_⟩, hz⟩, fun h => h.2.2.2⟩
          by_cases h24 : decimal m.hour = 24
          · have hnone := not_and.mp hend h24
            simp only [not_or, not_not] at hnone
            exact .inr ⟨h24, hnone.1, hnone.2.1, hfraction.mp hnone.2.2⟩
          · exact .inl (by omega)

theorem validDateTime_iff : validDateTime t ↔ ∃ year month day time zone, year.length ≤ 4096 ∧ DateValues year month day ∧
    IsTime time ∧ IsTimezone zone ∧ t = year ++ '-' :: (month ++ '-' :: (day ++ 'T' :: (time ++ zone))) := by
  rw [validDateTime, Option.any_eq_true]
  constructor
  · rintro ⟨m, hm, hvalid⟩
    obtain ⟨zone, hshape, rfl⟩ := dateTimeMatch_sound hm
    obtain ⟨hlen, hdate, htime, hzone⟩ := (validMatch_iff hshape).mp hvalid
    exact ⟨_, _, _, _, zone, hlen, hdate, ⟨_, _, _, _, htime, rfl⟩, hzone, by simp [DateTimeMatch.chars]⟩
  · rintro ⟨year, month, day, _, zone, hlen, hdate, ⟨hour, minute, second, fraction, htime, rfl⟩, hzone, rfl⟩
    have hyear : YearShape year := by
      obtain ⟨sign, digits, hy, hs, hd, hl, -⟩ := hdate.isYear
      exact ⟨sign, digits, hy, hs, hd, hl⟩
    have hshape : ZoneShape zone := by
      rcases hzone with rfl | rfl | ⟨sign, _, _, rfl, hs, ⟨a, b, rfl, ha, hb⟩, ⟨c, d, rfl, hc, hd⟩, -⟩
      · exact .inl rfl
      · exact .inr rfl
      · exact .inr (by simp [isZone, hs, ha, hb, hc, hd])
    have hm : DateTimeMatch.Shape ⟨year, month, day, hour, minute, second, some fraction,
        if zone = [] then none else some zone⟩ zone :=
      ⟨hyear, hdate.isMonth.1, hdate.isDay.1, htime.isHour, htime.isMinute, htime.isSecond, htime.isFraction, hshape, rfl⟩
    obtain ⟨m, hmatch, hms, hy, hmo, hd, hh, hmi, hs, hf, -⟩ := dateTimeMatch_complete hm
    refine ⟨m, by simpa [DateTimeMatch.chars] using hmatch, (validMatch_iff hms).mpr ?_⟩
    rw [hy, hmo, hd, hh, hmi, hs, hf]
    exact ⟨hlen, hdate, htime, hzone⟩

-- Splicing

theorem cut_unique {α : Type} {x : α} {a b c d : List α} (ha : x ∉ a) (hb : x ∉ b) (h : c ++ x :: d = a ++ x :: b) :
    c = a ∧ d = b := by
  rcases List.append_eq_append_iff.mp h with ⟨u, rfl, hu⟩ | ⟨u, rfl, hu⟩
  · cases u with
    | nil => simpa using hu
    | cons y u =>
      obtain ⟨rfl, -⟩ := List.cons.inj hu
      exact absurd (by simp) ha
  · cases u with
    | nil => simpa using hu.symm
    | cons y u =>
      obtain ⟨rfl, rfl⟩ := List.cons.inj hu
      exact absurd (by simp) hb

theorem TwoDigits.length (h : TwoDigits t) : t.length = 2 := by
  obtain ⟨a, b, rfl, -⟩ := h
  rfl

theorem TwoDigits.digits (h : TwoDigits t) : ∀ c ∈ t, c.isDigit := by
  obtain ⟨a, b, rfl, ha, hb⟩ := h
  simp [ha, hb]

theorem IsYear.chars (h : IsYear t) : ∀ c ∈ t, c.isDigit ∨ c = '-' := by
  obtain ⟨sign, digits, rfl, hs, hd, -⟩ := h
  intro c hc
  rcases List.mem_append.mp hc with hc | hc
  · rcases hs with rfl | rfl
    · simp at hc
    · exact .inr (by simpa using hc)
  · exact .inl (hd c hc)

theorem IsFraction.chars (h : IsFraction t) : ∀ c ∈ t, c.isDigit ∨ c = '.' := by
  rcases h with rfl | ⟨digits, -, hd, rfl⟩
  · simp
  · intro c hc
    exact (List.mem_cons.mp hc).symm.imp (hd c) id

theorem IsTime.chars (h : IsTime t) : ∀ c ∈ t, c.isDigit ∨ c = ':' ∨ c = '.' := by
  obtain ⟨hour, minute, second, fraction, ht, rfl⟩ := h
  intro c hc
  simp only [List.mem_append, List.mem_cons] at hc
  rcases hc with hc | rfl | hc | rfl | hc | hc
  · exact .inl (ht.isHour.digits c hc)
  · simp
  · exact .inl (ht.isMinute.digits c hc)
  · simp
  · exact .inl (ht.isSecond.digits c hc)
  · exact (ht.isFraction.chars c hc).imp id .inr

theorem DateValues.chars (h : DateValues year month day) :
    ∀ c ∈ year ++ '-' :: (month ++ '-' :: day), c.isDigit ∨ c = '-' := by
  intro c hc
  simp only [List.mem_append, List.mem_cons] at hc
  rcases hc with hc | rfl | hc | rfl | hc
  · exact h.isYear.chars c hc
  · simp
  · exact .inl (h.isMonth.1.digits c hc)
  · simp
  · exact .inl (h.isDay.1.digits c hc)

theorem IsTimezone.shape (h : IsTimezone z) : ZoneShape z := by
  rcases h with rfl | rfl | ⟨sign, _, _, rfl, hs, ⟨a, b, rfl, ha, hb⟩, ⟨c, d, rfl, hc, hd⟩, -⟩
  · exact .inl rfl
  · exact .inr rfl
  · exact .inr (by simp [isZone, hs, ha, hb, hc, hd])

theorem zone_chars (h : ZoneShape z) : 'T' ∉ z := by
  rcases h with rfl | h
  · simp
  · rcases isZone_cases h with rfl | ⟨sign, a, b, c, d, rfl, hs, ha, hb, hc, hd⟩
    · decide
    · have hne {x : Char} (hx : x.isDigit) : 'T' ≠ x := by
        rintro rfl
        exact absurd hx (by decide)
      have hsign : 'T' ≠ sign := by
        rintro rfl
        exact absurd hs (by decide)
      simp [hne ha, hne hb, hne hc, hne hd, hsign]

theorem validDateTime_splice : validDateTime (v ++ 'T' :: w) ↔
    (∃ year month day, year.length ≤ 4096 ∧ DateValues year month day ∧ v = year ++ '-' :: (month ++ '-' :: day)) ∧
      ∃ time zone, IsTime time ∧ IsTimezone zone ∧ w = time ++ zone := by
  rw [validDateTime_iff]
  constructor
  · rintro ⟨year, month, day, time, zone, hlen, hdate, htime, hzone, h⟩
    have hleft : 'T' ∉ year ++ '-' :: (month ++ '-' :: day) := fun hT => absurd (hdate.chars 'T' hT) (by decide)
    have hright : 'T' ∉ time ++ zone := by
      intro hT
      rcases List.mem_append.mp hT with hT | hT
      · exact absurd (htime.chars 'T' hT) (by decide)
      · exact zone_chars hzone.shape hT
    obtain ⟨rfl, rfl⟩ := cut_unique hleft hright (c := v) (d := w) (by simpa using h)
    exact ⟨⟨year, month, day, hlen, hdate, rfl⟩, time, zone, htime, hzone, rfl⟩
  · rintro ⟨⟨year, month, day, hlen, hdate, rfl⟩, time, zone, htime, hzone, rfl⟩
    exact ⟨year, month, day, time, zone, hlen, hdate, htime, hzone, by simp⟩

theorem midnight : TimeValues ['0', '0'] ['0', '0'] ['0', '0'] [] :=
  ⟨⟨_, _, rfl, rfl, rfl⟩, ⟨_, _, rfl, rfl, rfl⟩, ⟨_, _, rfl, rfl, rfl⟩, .inl rfl, .inl (by decide)⟩

theorem midnight_zone (hz : ZoneShape z) :
    (∃ time zone, IsTime time ∧ IsTimezone zone ∧ "00:00:00".toList ++ z = time ++ zone) ↔ IsTimezone z := by
  constructor
  · rintro ⟨_, zone, ⟨hour, minute, second, fraction, ht, rfl⟩, hzone, h⟩
    obtain ⟨a, b, rfl, -⟩ := ht.isHour
    obtain ⟨c, d, rfl, -⟩ := ht.isMinute
    obtain ⟨e, f, rfl, -⟩ := ht.isSecond
    have hrest : z = fraction ++ zone := by
      have htext : "00:00:00".toList = ['0', '0', ':', '0', '0', ':', '0', '0'] := by decide
      rw [htext] at h
      simp only [List.cons_append, List.nil_append, List.cons.injEq] at h
      exact h.2.2.2.2.2.2.2.2
    rcases ht.isFraction with rfl | ⟨digits, -, -, rfl⟩
    · rw [hrest]
      exact hzone
    · exact absurd (zone_head hz '.' (by simp [hrest])) (by decide)
  · exact fun h => ⟨_, z, ⟨_, _, _, _, midnight, rfl⟩, h, rfl⟩

-- The zone of a truncated type

theorem temporalMatch_sound (h : temporalMatch t = some (v, z)) : t = v ++ z ∧ ZoneShape z := by
  obtain ⟨n, -, hn⟩ := List.exists_of_findSome?_eq_some h
  split at hn
  · rename_i hcond
    obtain ⟨rfl, rfl⟩ := Prod.mk.inj (Option.some.inj hn)
    simp only [Bool.and_eq_true, Bool.or_eq_true, decide_eq_true_eq] at hcond
    exact ⟨(List.take_append_drop n t).symm, hcond.2⟩
  · cases hn

theorem isZone_append (hu : u ≠ []) (hz : ZoneShape z) (hne : z ≠ []) : isZone (u ++ z) = false := by
  refine Bool.eq_false_iff.mpr fun h => ?_
  have hlen : ∀ {z}, isZone z → z.length = 1 ∧ z = ['Z'] ∨ z.length = 6 ∧ ∃ d, z.getLast? = some d ∧ d.isDigit := by
    intro z hz
    rcases isZone_cases hz with rfl | ⟨sign, a, b, c, d, rfl, -, -, -, -, hd⟩
    · exact .inl ⟨rfl, rfl⟩
    · exact .inr ⟨rfl, d, rfl, hd⟩
  have hpos : 0 < u.length := List.length_pos_iff.mpr hu
  have hz := hlen (hz.resolve_left hne)
  rcases hlen h with ⟨h₁, -⟩ | ⟨h₁, d, hlast, hd⟩
  · rw [List.length_append] at h₁
    omega
  · rw [List.length_append] at h₁
    rcases hz with ⟨-, rfl⟩ | ⟨h₂, -⟩
    · rw [List.getLast?_append] at hlast
      obtain rfl : 'Z' = d := by simpa using hlast
      exact absurd hd (by decide)
    · omega

theorem temporalMatch_complete (hne : v ≠ []) (hdot : ∀ c ∈ v, isDot c) (hv : ∀ s, s <:+ v → isZone s = false)
    (hz : ZoneShape z) : temporalMatch (v ++ z) = some (v, z) := by
  have hpos : 0 < v.length := List.length_pos_iff.mpr hne
  have hrange : List.range' 1 (v ++ z).length = List.range' 1 (v.length - 1) ++ v.length :: List.range' (v.length + 1) z.length := by
    rw [← List.range'_succ, List.length_append]
    have h : List.range' 1 (v.length - 1) ++ List.range' (1 + (v.length - 1)) (z.length + 1) =
        List.range' 1 (v.length - 1 + (z.length + 1)) := List.range'_append_1
    rw [show 1 + (v.length - 1) = v.length by omega, show v.length - 1 + (z.length + 1) = v.length + z.length by omega] at h
    exact h.symm
  rw [temporalMatch, hrange, List.findSome?_append]
  have hearlier : (List.range' 1 (v.length - 1)).findSome? (fun n => if ((v ++ z).take n).all isDot &&
      ((v ++ z).drop n = [] || isZone ((v ++ z).drop n)) then some ((v ++ z).take n, (v ++ z).drop n) else none) = none := by
    refine List.findSome?_eq_none_iff.mpr fun n hn => if_neg ?_
    have hn := List.mem_range'_1.mp hn
    have hdrop : (v ++ z).drop n = v.drop n ++ z := List.drop_append_of_le_length (by omega)
    have hrest : v.drop n ≠ [] := by
      intro h
      have := List.drop_eq_nil_iff.mp h
      omega
    have hzone : isZone (v.drop n ++ z) = false := by
      by_cases hnil : z = []
      · rw [hnil, List.append_nil]
        exact hv _ (List.drop_suffix _ _)
      · exact isZone_append hrest hz hnil
    simp [hdrop, hrest, hzone]
  rw [hearlier, Option.none_or]
  have hcond : (((v ++ z).take v.length).all isDot && ((v ++ z).drop v.length = [] || isZone ((v ++ z).drop v.length))) = true := by
    rw [List.take_left, List.drop_left]
    simpa [List.all_eq_true] using ⟨hdot, hz⟩
  simp only [List.findSome?_cons]
  rw [if_pos hcond, List.take_left, List.drop_left]

theorem zone_members (h : isZone z) : 'Z' ∈ z ∨ ':' ∈ z ∧ ('+' ∈ z ∨ '-' ∈ z) := by
  rcases isZone_cases h with rfl | ⟨sign, a, b, c, d, rfl, hs, -⟩
  · simp
  · refine .inr ⟨by simp, ?_⟩
    rcases hs with rfl | rfl <;> simp

theorem digit_isDot (h : c.isDigit) : isDot c := by
  have hdigit : 48 ≤ c.toNat ∧ c.toNat ≤ 57 := by simpa [Char.isDigit, UInt32.le_iff_toNat_le] using h
  simp only [isDot, Bool.not_eq_true', List.contains_eq_mem, List.mem_cons, List.not_mem_nil, or_false,
    decide_eq_false_iff_not]
  omega

def Plain (v : List Char) : Prop :=
  v ≠ [] ∧ ((∀ c ∈ v, c.isDigit ∨ c = '-') ∨ ∀ c ∈ v, c.isDigit ∨ c = ':' ∨ c = '.')

theorem temporalMatch_plain (hv : Plain v) (hz : ZoneShape z) : temporalMatch (v ++ z) = some (v, z) := by
  obtain ⟨hne, hchars⟩ := hv
  refine temporalMatch_complete hne (fun c hc => ?_) (fun s hs => ?_) hz
  · rcases hchars with h | h
    · rcases h c hc with h | rfl
      · exact digit_isDot h
      · decide
    · rcases h c hc with h | rfl | rfl
      · exact digit_isDot h
      · decide
      · decide
  · refine Bool.eq_false_iff.mpr fun hzone => ?_
    have hmem := zone_members hzone
    have hsub := hs.subset
    rcases hchars with h | h
    · rcases hmem with hm | ⟨hm, -⟩
      · exact absurd (h _ (hsub hm)) (by decide)
      · exact absurd (h _ (hsub hm)) (by decide)
    · rcases hmem with hm | ⟨-, hm | hm⟩
      · exact absurd (h _ (hsub hm)) (by decide)
      · exact absurd (h _ (hsub hm)) (by decide)
      · exact absurd (h _ (hsub hm)) (by decide)

-- The truncated types

def TemporalType.hasYear : TemporalType → Bool
  | .dateTime | .date | .gYearMonth | .gYear => true
  | _ => false

def yearDigits (t : List Char) : ℕ := ((signGroup t).2.takeWhile Char.isDigit).length

def yearLength (t : List Char) : ℕ := (signGroup t).1.length + yearDigits t

theorem IsYear.shape (h : IsYear t) : YearShape t := by
  obtain ⟨sign, digits, rfl, hs, hd, hl, -⟩ := h
  exact ⟨sign, digits, rfl, hs, hd, hl⟩

theorem yearLength_eq (hy : YearShape y) (hr : ∀ c ∈ r.head?, Char.isDigit c = false) : yearLength (y ++ r) = y.length := by
  have h := yearGroup_complete hy hr
  unfold yearGroup at h
  dsimp only at h
  split at h
  · obtain ⟨hy, -⟩ := Prod.mk.inj (Option.some.inj h)
    rw [yearLength, yearDigits, ← List.length_append, hy]
  · cases h

theorem Local.plain (h : Local type v) (ht : type ≠ .dateTime) : Plain v := by
  have htwo {t : List Char} (h : TwoDigits t) (c : Char) (hc : c ∈ t) : c.isDigit ∨ c = '-' := .inl (h.digits c hc)
  cases type with
  | dateTime => exact absurd rfl ht
  | date =>
    obtain ⟨year, month, day, hd, rfl⟩ := h
    exact ⟨by simp, .inl hd.chars⟩
  | time =>
    refine ⟨?_, .inr h.chars⟩
    obtain ⟨_, _, _, _, -, rfl⟩ := h
    simp
  | gYearMonth =>
    obtain ⟨year, month, hy, hm, rfl⟩ := h
    refine ⟨by simp, .inl fun c hc => ?_⟩
    simp only [List.mem_append, List.mem_cons] at hc
    rcases hc with hc | rfl | hc
    · exact hy.chars c hc
    · exact .inr rfl
    · exact htwo hm.1 c hc
  | gYear =>
    refine ⟨?_, .inl h.chars⟩
    rintro rfl
    obtain ⟨sign, digits, h, -, -, hl, -⟩ := h
    simp [(List.append_eq_nil_iff.mp h.symm).2] at hl
  | gMonthDay =>
    obtain ⟨month, day, hm, hd, rfl⟩ := h
    refine ⟨by simp, .inl fun c hc => ?_⟩
    simp only [List.mem_append, List.mem_cons] at hc
    rcases hc with rfl | rfl | hc | rfl | hc
    · exact .inr rfl
    · exact .inr rfl
    · exact htwo hm.1 c hc
    · exact .inr rfl
    · exact htwo hd.1 c hc
  | gDay =>
    obtain ⟨day, hd, rfl⟩ := h
    refine ⟨by simp, .inl fun c hc => ?_⟩
    simp only [List.mem_cons] at hc
    rcases hc with rfl | rfl | rfl | hc
    · exact .inr rfl
    · exact .inr rfl
    · exact .inr rfl
    · exact htwo hd.1 c hc
  | gMonth =>
    obtain ⟨month, hm, rfl | rfl⟩ := h
    · refine ⟨by simp, .inl fun c hc => ?_⟩
      simp only [List.mem_cons] at hc
      rcases hc with rfl | rfl | hc
      · exact .inr rfl
      · exact .inr rfl
      · exact htwo hm.1 c hc
    · refine ⟨by simp, .inl fun c hc => ?_⟩
      simp only [List.mem_append, List.mem_cons, List.not_mem_nil, or_false] at hc
      rcases hc with rfl | rfl | hc | rfl | rfl
      · exact .inr rfl
      · exact .inr rfl
      · exact htwo hm.1 c hc
      · exact .inr rfl
      · exact .inr rfl

theorem monthDays_ge (year : Int) (month : ℕ) : 28 ≤ monthDays year month := by
  unfold monthDays
  split
  · split <;> simp
  · split <;> simp

theorem date_inj {y y' m m' d d' : List Char} (hm : m.length = m'.length) (hd : d.length = d'.length)
    (h : y ++ '-' :: (m ++ '-' :: d) = y' ++ '-' :: (m' ++ '-' :: d')) : y = y' ∧ m = m' ∧ d = d' := by
  obtain ⟨rfl, h₁⟩ := List.append_inj' h (by simp [hm, hd])
  obtain ⟨rfl, h₂⟩ := List.append_inj (List.cons.inj h₁).2 hm
  exact ⟨rfl, rfl, (List.cons.inj h₂).2⟩

theorem isDay_one (hn : 28 ≤ n) : IsDay n ['0', '1'] := ⟨⟨_, _, rfl, rfl, rfl⟩, by decide, Nat.le_trans (by decide) hn⟩

theorem isMonth_one : IsMonth ['0', '1'] := ⟨⟨_, _, rfl, rfl, rfl⟩, by decide, by decide⟩

theorem isYear_2000 : IsYear "2000".toList :=
  ⟨[], "2000".toList, rfl, .inl rfl, by decide, by decide, by decide, by decide⟩

theorem spliced_date {y m d : List Char} (hm : TwoDigits m) (hd : TwoDigits d) :
    (∃ year month day, year.length ≤ 4096 ∧ DateValues year month day ∧
      y ++ '-' :: (m ++ '-' :: d) = year ++ '-' :: (month ++ '-' :: day)) ↔ y.length ≤ 4096 ∧ DateValues y m d := by
  constructor
  · rintro ⟨year, month, day, hlen, hdate, h⟩
    obtain ⟨rfl, rfl, rfl⟩ := date_inj (hm.length.trans hdate.isMonth.1.length.symm)
      (hd.length.trans hdate.isDay.1.length.symm) h
    exact ⟨hlen, hdate⟩
  · rintro ⟨hlen, hdate⟩
    exact ⟨y, m, d, hlen, hdate, rfl⟩

theorem validDateTime_midnight (hz : ZoneShape z) : validDateTime (v ++ 'T' :: ("00:00:00".toList ++ z)) ↔
    (∃ year month day, year.length ≤ 4096 ∧ DateValues year month day ∧ v = year ++ '-' :: (month ++ '-' :: day)) ∧
      IsTimezone z := by
  rw [validDateTime_splice, midnight_zone hz]

theorem yearLength_dash (hy : YearShape y) : yearLength (y ++ '-' :: r ++ z) = y.length := by
  rw [List.append_assoc]
  exact yearLength_eq hy (by simp)

theorem zone_not_digit (hz : ZoneShape z) : ∀ c ∈ z.head?, Char.isDigit c = false := by
  intro c hc
  rcases zone_head hz c hc with rfl | rfl | rfl <;> decide

theorem spliced_date_iff (hz : ZoneShape z) : spliced .date v z ↔ Local .date v ∧ IsTimezone z ∧ yearLength (v ++ z) ≤ 4096 := by
  have htext : v ++ "T00:00:00".toList ++ z = v ++ 'T' :: ("00:00:00".toList ++ z) := by simp [String.toList]; rfl
  rw [spliced, htext, validDateTime_midnight hz]
  constructor
  · rintro ⟨⟨year, month, day, hlen, hdate, rfl⟩, hzone⟩
    refine ⟨⟨year, month, day, hdate, rfl⟩, hzone, ?_⟩
    rw [yearLength_dash hdate.isYear.shape]
    exact hlen
  · rintro ⟨⟨year, month, day, hdate, rfl⟩, hzone, hlen⟩
    rw [yearLength_dash hdate.isYear.shape] at hlen
    exact ⟨⟨year, month, day, hlen, hdate, rfl⟩, hzone⟩

theorem spliced_gYearMonth_iff (hz : ZoneShape z) :
    spliced .gYearMonth v z ↔ Local .gYearMonth v ∧ IsTimezone z ∧ yearLength (v ++ z) ≤ 4096 := by
  have htext : v ++ "-01T00:00:00".toList ++ z = (v ++ ['-', '0', '1']) ++ 'T' :: ("00:00:00".toList ++ z) := by
    simp [String.toList]; rfl
  rw [spliced, htext, validDateTime_midnight hz]
  constructor
  · rintro ⟨⟨year, month, day, hlen, hdate, h⟩, hzone⟩
    obtain ⟨rfl, hday⟩ := List.append_inj' (h.trans (List.append_assoc year ('-' :: month) ('-' :: day)).symm)
      (by simp [hdate.isDay.1.length])
    refine ⟨⟨year, month, hdate.isYear, hdate.isMonth, rfl⟩, hzone, ?_⟩
    rw [yearLength_dash hdate.isYear.shape]
    exact hlen
  · rintro ⟨⟨year, month, hy, hm, rfl⟩, hzone, hlen⟩
    rw [yearLength_dash hy.shape] at hlen
    exact ⟨⟨year, month, ['0', '1'], hlen, ⟨hy, hm, isDay_one (monthDays_ge _ _)⟩, by simp⟩, hzone⟩

theorem spliced_gYear_iff (hz : ZoneShape z) :
    spliced .gYear v z ↔ Local .gYear v ∧ IsTimezone z ∧ yearLength (v ++ z) ≤ 4096 := by
  have htext : v ++ "-01-01T00:00:00".toList ++ z =
      (v ++ '-' :: (['0', '1'] ++ '-' :: ['0', '1'])) ++ 'T' :: ("00:00:00".toList ++ z) := by
    simp [String.toList]; rfl
  rw [spliced, htext, validDateTime_midnight hz, spliced_date ⟨_, _, rfl, rfl, rfl⟩ ⟨_, _, rfl, rfl, rfl⟩]
  constructor
  · rintro ⟨⟨hlen, hdate⟩, hzone⟩
    exact ⟨hdate.isYear, hzone, (yearLength_eq hdate.isYear.shape (zone_not_digit hz)).symm ▸ hlen⟩
  · rintro ⟨hy, hzone, hlen⟩
    rw [yearLength_eq (IsYear.shape hy) (zone_not_digit hz)] at hlen
    exact ⟨⟨hlen, hy, isMonth_one, isDay_one (monthDays_ge _ _)⟩, hzone⟩

theorem spliced_time_iff (hm : temporalMatch (v ++ z) = some (v, z)) :
    spliced .time v z ↔ Local .time v ∧ IsTimezone z := by
  have htext : "2000-01-01T".toList ++ v ++ z =
      ("2000".toList ++ '-' :: (['0', '1'] ++ '-' :: ['0', '1'])) ++ 'T' :: (v ++ z) := by
    simp [String.toList]; rfl
  rw [spliced, htext, validDateTime_splice, spliced_date ⟨_, _, rfl, rfl, rfl⟩ ⟨_, _, rfl, rfl, rfl⟩]
  constructor
  · rintro ⟨-, time, zone, htime, hzone, h⟩
    have hlocal : Local .time time := htime
    have hmatch := temporalMatch_plain (hlocal.plain (by simp)) hzone.shape
    rw [← h, hm] at hmatch
    obtain ⟨rfl, rfl⟩ := Prod.mk.inj (Option.some.inj hmatch)
    exact ⟨htime, hzone⟩
  · rintro ⟨htime, hzone⟩
    exact ⟨⟨by decide, isYear_2000, isMonth_one, isDay_one (monthDays_ge _ _)⟩, v, z, htime, hzone, rfl⟩

theorem bigInt_2000 : bigInt "2000".toList = 2000 := by decide

theorem validDateTime_2000 {m d : List Char} (hm : TwoDigits m) (hd : TwoDigits d) (hz : ZoneShape z) :
    validDateTime (("2000".toList ++ '-' :: (m ++ '-' :: d)) ++ 'T' :: ("00:00:00".toList ++ z)) ↔
      (IsMonth m ∧ IsDay (monthDays 2000 (decimal m)) d) ∧ IsTimezone z := by
  rw [validDateTime_midnight hz, spliced_date hm hd]
  refine and_congr_left fun _ => ⟨fun h => ⟨h.2.isMonth, ?_⟩, fun h => ⟨by decide, isYear_2000, h.1, ?_⟩⟩
  · exact bigInt_2000 ▸ h.2.isDay
  · rw [bigInt_2000]
    exact h.2

theorem spliced_gMonthDay_iff (hz : ZoneShape z) : spliced .gMonthDay v z ↔ Local .gMonthDay v ∧ IsTimezone z := by
  have hval {a b c d : Char} (hab : a.isDigit ∧ b.isDigit) (hcd : c.isDigit ∧ d.isDigit) :
      validDateTime ("2000".toList ++ ['-', a, b, '-', c, d] ++ "T00:00:00".toList ++ z) ↔
        (IsMonth [a, b] ∧ IsDay (monthDays 2000 (decimal [a, b])) [c, d]) ∧ IsTimezone z := by
    rw [← validDateTime_2000 ⟨a, b, rfl, hab⟩ ⟨c, d, rfl, hcd⟩ hz]
    simp [String.toList]; rfl
  constructor
  · intro h
    simp only [spliced] at h
    split at h
    · rename_i a b c d
      simp only [Bool.and_eq_true] at h
      obtain ⟨⟨hm, hd⟩, hzone⟩ := (hval ⟨h.1.1.1.1, h.1.1.1.2⟩ ⟨h.1.1.2, h.1.2⟩).mp h.2
      exact ⟨⟨[a, b], [c, d], hm, hd, rfl⟩, hzone⟩
    · cases h
  · rintro ⟨⟨_, _, ⟨⟨a, b, rfl, hab⟩, hm⟩, ⟨⟨c, d, rfl, hcd⟩, hd⟩, rfl⟩, hzone⟩
    have h := (hval hab hcd).mpr ⟨⟨⟨⟨a, b, rfl, hab⟩, hm⟩, ⟨c, d, rfl, hcd⟩, hd⟩, hzone⟩
    simpa [spliced, hab, hcd] using h

theorem spliced_gDay_iff (hz : ZoneShape z) : spliced .gDay v z ↔ Local .gDay v ∧ IsTimezone z := by
  have hval {a b : Char} (hab : a.isDigit ∧ b.isDigit) :
      validDateTime ("2000-01-".toList ++ [a, b] ++ "T00:00:00".toList ++ z) ↔ IsDay 31 [a, b] ∧ IsTimezone z := by
    refine Iff.trans ?_ ((validDateTime_2000 ⟨_, _, rfl, rfl, rfl⟩ ⟨a, b, rfl, hab⟩ hz).trans
      (and_congr_left fun _ => and_iff_right isMonth_one))
    simp [String.toList]; rfl
  constructor
  · intro h
    simp only [spliced] at h
    split at h
    · rename_i a b
      simp only [Bool.and_eq_true] at h
      obtain ⟨hd, hzone⟩ := (hval h.1).mp h.2
      exact ⟨⟨[a, b], hd, rfl⟩, hzone⟩
    · cases h
  · rintro ⟨⟨_, ⟨⟨a, b, rfl, hab⟩, hd⟩, rfl⟩, hzone⟩
    have h := (hval hab).mpr ⟨⟨⟨a, b, rfl, hab⟩, hd⟩, hzone⟩
    simpa [spliced, hab] using h

theorem spliced_gMonth_iff (hz : ZoneShape z) : spliced .gMonth v z ↔ Local .gMonth v ∧ IsTimezone z := by
  have hval {a b : Char} (hab : a.isDigit ∧ b.isDigit) :
      validDateTime ("2000-".toList ++ [a, b] ++ "-01T00:00:00".toList ++ z) ↔ IsMonth [a, b] ∧ IsTimezone z := by
    refine Iff.trans ?_ ((validDateTime_2000 ⟨a, b, rfl, hab⟩ ⟨_, _, rfl, rfl, rfl⟩ hz).trans
      (and_congr_left fun _ => and_iff_left (isDay_one (monthDays_ge _ _))))
    simp [String.toList]; rfl
  constructor
  · intro h
    simp only [spliced] at h
    split at h
    · rename_i a b
      simp only [Bool.and_eq_true] at h
      obtain ⟨hm, hzone⟩ := (hval h.1).mp h.2
      exact ⟨⟨[a, b], hm, .inl rfl⟩, hzone⟩
    · rename_i a b
      simp only [Bool.and_eq_true] at h
      obtain ⟨hm, hzone⟩ := (hval h.1).mp h.2
      exact ⟨⟨[a, b], hm, .inr rfl⟩, hzone⟩
    · cases h
  · rintro ⟨⟨_, ⟨⟨a, b, rfl, hab⟩, hm⟩, rfl | rfl⟩, hzone⟩
    · have h := (hval hab).mpr ⟨⟨⟨a, b, rfl, hab⟩, hm⟩, hzone⟩
      simpa [spliced, hab] using h
    · have h := (hval hab).mpr ⟨⟨⟨a, b, rfl, hab⟩, hm⟩, hzone⟩
      simpa [spliced, hab] using h

theorem spliced_iff (ht : type ≠ .dateTime) (hm : temporalMatch (v ++ z) = some (v, z)) (hz : ZoneShape z) :
    spliced type v z ↔ (Local type v ∧ IsTimezone z) ∧ (type.hasYear → yearLength (v ++ z) ≤ 4096) := by
  cases type with
  | dateTime => exact absurd rfl ht
  | date => simp [spliced_date_iff hz, TemporalType.hasYear, and_assoc]
  | time => simp [spliced_time_iff hm, TemporalType.hasYear]
  | gYearMonth => simp [spliced_gYearMonth_iff hz, TemporalType.hasYear, and_assoc]
  | gYear => simp [spliced_gYear_iff hz, TemporalType.hasYear, and_assoc]
  | gMonthDay => simp [spliced_gMonthDay_iff hz, TemporalType.hasYear]
  | gDay => simp [spliced_gDay_iff hz, TemporalType.hasYear]
  | gMonth => simp [spliced_gMonth_iff hz, TemporalType.hasYear]

/-- The lexical space, with the bound that the code puts on the year. -/
theorem accepted_iff {type : TemporalType} {t : List Char} :
    accepted type t ↔ Lexical type t ∧ (type.hasYear → yearLength t ≤ 4096) := by
  unfold accepted
  split
  · rename_i ht
    subst ht
    rw [validDateTime_iff]
    constructor
    · rintro ⟨year, month, day, time, zone, hlen, hdate, htime, hzone, rfl⟩
      refine ⟨⟨_, zone, ⟨year, month, day, time, hdate, htime, rfl⟩, hzone, by simp⟩, fun _ => ?_⟩
      rw [yearLength_eq hdate.isYear.shape (by simp)]
      exact hlen
    · rintro ⟨⟨_, zone, ⟨year, month, day, time, hdate, htime, rfl⟩, hzone, rfl⟩, hlen⟩
      refine ⟨year, month, day, time, zone, ?_, hdate, htime, hzone, by simp⟩
      have h := hlen rfl
      rwa [yearLength_dash hdate.isYear.shape] at h
  · rename_i ht
    rw [validTemporal, Option.any_eq_true]
    constructor
    · rintro ⟨⟨v, z⟩, hm, h⟩
      obtain ⟨rfl, hz⟩ := temporalMatch_sound hm
      obtain ⟨⟨hlocal, hzone⟩, hlen⟩ := (spliced_iff ht hm hz).mp h
      exact ⟨⟨v, z, hlocal, hzone, rfl⟩, hlen⟩
    · rintro ⟨⟨v, z, hlocal, hzone, rfl⟩, hlen⟩
      have hm := temporalMatch_plain (hlocal.plain ht) hzone.shape
      exact ⟨(v, z), hm, (spliced_iff ht hm hzone.shape).mpr ⟨⟨hlocal, hzone⟩, hlen⟩⟩

-- White space

/-- The white space of XML. -/
def isXmlSpace (c : Char) : Bool := c = ' ' || c = '\t' || c = '\r' || c = '\n'

/-- The facet `whiteSpace`, its value being `collapse`. -/
def xmlCollapsed (input : List Char) : List Char :=
  squeeze (((replaced input).dropWhile (· = ' ')).reverse.dropWhile (· = ' ')).reverse

/-- The text with nothing but such characters around it. -/
def Padded (p : Char → Bool) (t input : List Char) : Prop :=
  ∃ before after, input = before ++ t ++ after ∧ ∀ c ∈ before ++ after, p c

theorem mem_squeeze (s : List Char) : ' ' ∈ squeeze s ↔ ' ' ∈ s := by
  induction s with
  | nil => simp [squeeze]
  | cons c s ih =>
    rw [squeeze]
    split
    · rename_i h
      rw [ih, List.mem_cons]
      cases s with
      | nil => simp at h
      | cons d s => simp_all
    · simp [ih]

theorem squeeze_eq (h : ' ' ∉ s) : squeeze s = s := by
  induction s with
  | nil => rfl
  | cons c s ih =>
    rw [List.mem_cons, not_or] at h
    rw [squeeze, if_neg fun hc => h.1 hc.1.symm, ih h.2]

section
variable {p : Char → Bool}

theorem trimmed_padded (p : Char → Bool) (s : List Char) : Padded p ((s.dropWhile p).reverse.dropWhile p).reverse s := by
  refine ⟨s.takeWhile p, ((s.dropWhile p).reverse.takeWhile p).reverse, ?_, fun c hc => ?_⟩
  · rw [List.append_assoc, ← List.reverse_append, List.takeWhile_append_dropWhile, List.reverse_reverse,
      List.takeWhile_append_dropWhile]
  · rcases List.mem_append.mp hc with hc | hc
    · exact List.mem_takeWhile_imp hc
    · exact List.mem_takeWhile_imp (List.mem_reverse.mp hc)

theorem dropWhile_padding {before t : List Char} (hb : ∀ c ∈ before, p c) (ht : ∀ c ∈ t.head?, p c = false) :
    (before ++ t).dropWhile p = t := by
  rw [List.dropWhile_append_of_pos hb]
  cases t with
  | nil => rfl
  | cons c t => simp [ht c rfl]

theorem trimmed_eq (hne : t ≠ []) (ht : ∀ c ∈ t, p c = false) (h : Padded p t s) :
    ((s.dropWhile p).reverse.dropWhile p).reverse = t := by
  obtain ⟨before, after, rfl, hp⟩ := h
  have hhead (l : List Char) : ∀ c ∈ (t ++ l).head?, p c = false := by
    intro c hc
    rw [List.head?_append_of_ne_nil _ hne] at hc
    exact ht c (List.mem_of_mem_head? hc)
  rw [List.append_assoc, dropWhile_padding (fun c hc => hp c (List.mem_append_left _ hc)) (hhead after), List.reverse_append]
  rw [dropWhile_padding (fun c hc => hp c (List.mem_append_right _ (List.mem_reverse.mp hc))), List.reverse_reverse]
  intro c hc
  exact ht c (List.mem_reverse.mp (List.mem_of_mem_head? hc))

def replaceSpace (c : Char) : Char := if c = '\t' ∨ c = '\r' ∨ c = '\n' then ' ' else c

theorem replaceSpace_ne (h : replaceSpace c ≠ ' ') : replaceSpace c = c := by
  unfold replaceSpace at h ⊢
  split
  · rename_i hc
    rw [if_pos hc] at h
    exact absurd rfl h
  · rfl

theorem collapse_iff (hp : p ' ') (hne : t ≠ []) (ht : ∀ c ∈ t, p (replaceSpace c) = false) :
    squeeze (((replaced s).dropWhile p).reverse.dropWhile p).reverse = t ↔ Padded (fun c => p (replaceSpace c)) t s := by
  have hkeep : ∀ c ∈ t, replaceSpace c = c := fun c hc => replaceSpace_ne fun h => by
    have h' := ht c hc
    rw [h, hp] at h'
    cases h'
  have hself : t.map replaceSpace = t := (List.map_congr_left hkeep).trans (List.map_id t)
  have htp : ∀ c ∈ t, p c = false := fun c hc => hkeep c hc ▸ ht c hc
  have hblank : ' ' ∉ t := by
    intro h
    rw [htp ' ' h] at hp
    cases hp
  have hrep : replaced s = s.map replaceSpace := rfl
  constructor
  · intro h
    have hnone : ' ' ∉ (((replaced s).dropWhile p).reverse.dropWhile p).reverse := by
      rw [← mem_squeeze, h]
      exact hblank
    rw [squeeze_eq hnone] at h
    obtain ⟨before, after, hs, hpad⟩ := trimmed_padded p (replaced s)
    rw [h, hrep] at hs
    obtain ⟨front, last, rfl, hf, hl⟩ := List.map_eq_append_iff.mp hs
    obtain ⟨first, middle, rfl, hfirst, hm⟩ := List.map_eq_append_iff.mp hf
    have hmiddle : middle = t := by
      have hid : ∀ c ∈ middle, replaceSpace c = c := by
        intro c hc
        refine replaceSpace_ne fun h => hblank ?_
        rw [← hm, ← h]
        exact List.mem_map_of_mem hc
      rw [← hm]
      exact ((List.map_congr_left hid).trans (List.map_id _)).symm
    subst hmiddle
    refine ⟨first, last, rfl, fun c hc => hpad (replaceSpace c) ?_⟩
    rw [← hfirst, ← hl, ← List.map_append]
    exact List.mem_map_of_mem hc
  · rintro ⟨before, after, rfl, hpad⟩
    have hpadded : Padded p t (replaced (before ++ t ++ after)) := by
      refine ⟨before.map replaceSpace, after.map replaceSpace, ?_, fun c hc => ?_⟩
      · rw [show replaced (before ++ t ++ after) = (before ++ t ++ after).map replaceSpace from rfl]
        rw [List.map_append, List.map_append, hself]
      · rw [← List.map_append] at hc
        obtain ⟨d, hd, rfl⟩ := List.mem_map.mp hc
        exact hpad d hd
    rw [trimmed_eq hne htp hpadded, squeeze_eq hblank]

end

theorem isSpace_replace (c : Char) : isSpace (replaceSpace c) = isSpace c := by
  unfold replaceSpace
  split
  · rename_i h
    rcases h with rfl | rfl | rfl <;> decide
  · rfl

theorem isXmlSpace_replace (c : Char) : decide (replaceSpace c = ' ') = isXmlSpace c := by
  unfold replaceSpace isXmlSpace
  split
  · rename_i h
    rcases h with rfl | rfl | rfl <;> decide
  · rename_i h
    simp only [not_or] at h
    simp [h]

theorem isSpace_of_xml (h : isXmlSpace c) : isSpace c := by
  simp only [isXmlSpace, Bool.or_eq_true, decide_eq_true_eq] at h
  rcases h with ((rfl | rfl) | rfl) | rfl <;> decide

theorem lexical_chars (h : Lexical type t) : t ≠ [] ∧ ∀ c ∈ t, isSpace (replaceSpace c) = false := by
  obtain ⟨v, z, hlocal, hzone, rfl⟩ := h
  have hv : v ≠ [] ∧ ∀ c ∈ v, c.isDigit ∨ c = '-' ∨ c = ':' ∨ c = '.' ∨ c = 'T' := by
    by_cases ht : type = .dateTime
    · subst ht
      obtain ⟨year, month, day, time, hdate, htime, rfl⟩ := hlocal
      refine ⟨by simp, fun c hc => ?_⟩
      have hsplit : c ∈ (year ++ '-' :: (month ++ '-' :: day)) ∨ c = 'T' ∨ c ∈ time := by
        simp only [List.mem_append, List.mem_cons] at hc ⊢
        tauto
      rcases hsplit with hc | rfl | hc
      · exact (hdate.chars c hc).imp id .inl
      · simp
      · rcases htime.chars c hc with h | h | h <;> simp [h]
    · obtain ⟨hne, hchars⟩ := hlocal.plain ht
      refine ⟨hne, fun c hc => ?_⟩
      rcases hchars with h | h
      · exact (h c hc).imp id .inl
      · rcases h c hc with h | h | h <;> simp [h]
  refine ⟨by simp [hv.1], fun c hc => ?_⟩
  rw [isSpace_replace]
  have hdigit {c : Char} (h : c.isDigit) : isSpace c = false := by
    have hrange : 48 ≤ c.toNat ∧ c.toNat ≤ 57 := by simpa [Char.isDigit, UInt32.le_iff_toNat_le] using h
    simp only [isSpace, List.contains_eq_mem, List.mem_cons, List.not_mem_nil, or_false, Bool.or_eq_false_iff,
      Bool.and_eq_false_iff, decide_eq_false_iff_not]
    omega
  rcases List.mem_append.mp hc with hc | hc
  · rcases hv.2 c hc with h | rfl | rfl | rfl | rfl
    · exact hdigit h
    all_goals decide
  · rcases hzone.shape with rfl | hz
    · simp at hc
    · rcases isZone_cases hz with rfl | ⟨sign, a, b, e, d, rfl, hs, ha, hb, he, hd⟩
      · rw [List.mem_singleton.mp hc]
        decide
      · simp only [List.mem_cons, List.not_mem_nil, or_false] at hc
        rcases hc with rfl | rfl | rfl | rfl | rfl | rfl
        · rcases hs with rfl | rfl <;> decide
        · exact hdigit ha
        · exact hdigit hb
        · decide
        · exact hdigit he
        · exact hdigit hd

theorem collapsed_iff (h : Lexical type t) : collapsed s = t ↔ Padded isSpace t s := by
  have hchars := lexical_chars h
  rw [show isSpace = fun c => isSpace (replaceSpace c) from funext fun c => (isSpace_replace c).symm]
  exact collapse_iff (p := isSpace) (by decide) hchars.1 hchars.2

theorem xmlCollapsed_iff (h : Lexical type t) : xmlCollapsed s = t ↔ Padded isXmlSpace t s := by
  have hchars := lexical_chars h
  rw [show isXmlSpace = fun c => decide (replaceSpace c = ' ') from funext fun c => (isXmlSpace_replace c).symm]
  refine collapse_iff (p := fun c => decide (c = ' ')) (by decide) hchars.1 fun c hc => ?_
  rw [isXmlSpace_replace]
  refine Bool.eq_false_iff.mpr fun hx => ?_
  have hs := hchars.2 c hc
  rw [isSpace_replace, isSpace_of_xml hx] at hs
  cases hs

-- The decoder and the lexical space

/-- The decoder accepts the lexical space, with years of up to 4096 digits. -/
def Agrees (type : TemporalType) (input : List Char) : Prop :=
  decodeTemporal type input = .ok (collapsed input) ↔
    Lexical type (xmlCollapsed input) ∧ (type.hasYear → yearDigits (xmlCollapsed input) ≤ 4096)

/-- A form within the code's bound, in white space that is not all XML's. -/
def Foreign (type : TemporalType) (input : List Char) : Prop :=
  ∃ t before after, Lexical type t ∧ (type.hasYear → yearLength t ≤ 4096) ∧ input = before ++ t ++ after ∧
    (∀ c ∈ before ++ after, isSpace c) ∧ ∃ c ∈ before ++ after, ¬isXmlSpace c

def SignedLimit (type : TemporalType) (input : List Char) : Prop :=
  Lexical type (xmlCollapsed input) ∧ type.hasYear ∧ (xmlCollapsed input).head? = some '-' ∧
    yearDigits (xmlCollapsed input) = 4096

theorem decodeTemporal_ok : decodeTemporal type input = .ok (collapsed input) ↔ accepted type (collapsed input) := by
  rw [decodeTemporal, require_bind_ok]
  exact ⟨fun h => h.1, fun h => ⟨h, rfl⟩⟩

theorem yearLength_signed (t : List Char) : yearLength t = yearDigits t + if t.head? = some '-' then 1 else 0 := by
  unfold yearLength
  rw [Nat.add_comm]
  congr 1
  unfold signGroup
  split
  · rfl
  · rename_i hne
    cases t with
    | nil => rfl
    | cons c t =>
      have hc : c ≠ '-' := fun h => hne t (by rw [h])
      simp [hc]

theorem padding_unique (h : Lexical type t) (hb : ∀ c ∈ before ++ after, isSpace c)
    (hb' : ∀ c ∈ before' ++ after', isSpace c) (heq : before ++ t ++ after = before' ++ t ++ after') :
    before ++ after = before' ++ after' := by
  have hchars := lexical_chars h
  have hfirst {before after : List Char} (hb : ∀ c ∈ before ++ after, isSpace c) :
      (before ++ t ++ after).dropWhile isSpace = t ++ after := by
    rw [List.append_assoc]
    refine dropWhile_padding (fun c hc => hb c (List.mem_append_left _ hc)) fun c hc => ?_
    rw [List.head?_append_of_ne_nil _ hchars.1] at hc
    exact isSpace_replace c ▸ hchars.2 c (List.mem_of_mem_head? hc)
  have hrest := congrArg (List.dropWhile isSpace) heq
  rw [hfirst hb, hfirst hb'] at hrest
  obtain rfl := List.append_cancel_left hrest
  rw [List.append_assoc, List.append_assoc] at heq
  rw [List.append_cancel_right heq]

/-- Nothing but foreign white space, and the sign of a year at the limit,
tells the decoder from the lexical space. -/
theorem decodeTemporal_lexical (type : TemporalType) (input : List Char) :
    Agrees type input ↔ ¬Foreign type input ∧ ¬SignedLimit type input := by
  rw [Agrees, decodeTemporal_ok, accepted_iff]
  constructor
  · intro h
    constructor
    · rintro ⟨t, before, after, ht, hlen, rfl, hpad, c, hc, hx⟩
      have hcol := (collapsed_iff ht).mpr ⟨before, after, rfl, hpad⟩
      rw [hcol] at h
      have hlex := (h.mp ⟨ht, hlen⟩).1
      obtain ⟨before', after', heq, hpad'⟩ := (xmlCollapsed_iff hlex).mp rfl
      have hspace : ∀ c ∈ before' ++ after', isSpace c := fun c hc => isSpace_of_xml (hpad' c hc)
      have hsame := (collapsed_iff hlex).mpr ⟨before', after', heq, hspace⟩
      rw [hcol] at hsame
      rw [← hsame] at heq
      rw [padding_unique ht hpad hspace heq] at hc
      exact hx (hpad' c hc)
    · rintro ⟨ht, hyear, hsign, hlen⟩
      obtain ⟨before, after, heq, hpad⟩ := (xmlCollapsed_iff ht).mp rfl
      have hcol := (collapsed_iff ht).mpr ⟨before, after, heq, fun c hc => isSpace_of_xml (hpad c hc)⟩
      have hlim := (h.mpr ⟨ht, fun _ => Nat.le_of_eq hlen⟩).2 hyear
      rw [hcol, yearLength_signed, if_pos hsign, hlen] at hlim
      omega
  · rintro ⟨hforeign, hsigned⟩
    constructor
    · rintro ⟨ht, hlen⟩
      obtain ⟨before, after, heq, hpad⟩ := (collapsed_iff ht).mp rfl
      have hxml : ∀ c ∈ before ++ after, isXmlSpace c := by
        intro c hc
        by_contra hx
        exact hforeign ⟨_, before, after, ht, hlen, heq, hpad, c, hc, hx⟩
      have hcol := (xmlCollapsed_iff ht).mpr ⟨before, after, heq, hxml⟩
      rw [hcol]
      exact ⟨ht, fun hy => Nat.le_trans (Nat.le_add_left _ _) (hlen hy)⟩
    · rintro ⟨ht, hlen⟩
      obtain ⟨before, after, heq, hpad⟩ := (xmlCollapsed_iff ht).mp rfl
      have hcol := (collapsed_iff ht).mpr ⟨before, after, heq, fun c hc => isSpace_of_xml (hpad c hc)⟩
      rw [hcol]
      refine ⟨ht, fun hy => ?_⟩
      have hle := hlen hy
      rw [yearLength_signed]
      split
      · rename_i hsign
        have hne : yearDigits (xmlCollapsed input) ≠ 4096 := fun h => hsigned ⟨ht, hy, hsign, h⟩
        omega
      · exact hle

/-- A no-break space before a date. -/
theorem decodeTemporal_nbsp : ¬∀ type input, Agrees type input := by
  intro h
  have hagrees := h .date ('\u00a0' :: "2000-01-01".toList)
  have hok : decodeTemporal .date ('\u00a0' :: "2000-01-01".toList) = .ok (collapsed ('\u00a0' :: "2000-01-01".toList)) := by
    decide +kernel
  have hcol : xmlCollapsed ('\u00a0' :: "2000-01-01".toList) = '\u00a0' :: "2000-01-01".toList := by decide +kernel
  have hlex := (hagrees.mp hok).1
  rw [hcol] at hlex
  exact absurd ((lexical_chars hlex).2 '\u00a0' List.mem_cons_self) (by decide)

end WotAv.Xml
