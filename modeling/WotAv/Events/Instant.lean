import Mathlib.Algebra.Order.Field.Rat
import Mathlib.Data.List.Induction
import Mathlib.Tactic.FieldSimp
import Mathlib.Tactic.Ring
import WotAv.Lib.Calendar
import WotAv.Lib.Throwing
import WotAv.Xml.TemporalLaws

/-!
# Instants (`instantMilliseconds` of `src/events/time.ts`)

The expression of `instantMilliseconds` is that of `validDateTime` but for a
zone that must take part and a dot that its group leaves out. A year has too
many digits for a number only where the date is invalid anyway. Years are
those of ISO 8601, in which -1 precedes 0.
-/

namespace WotAv.Events

open WotAv.Binding WotAv.Lib WotAv.Xml

def zoneOffset (zone : List Char) : Int :=
  if zone = ['Z'] then 0
  else (decimal ((zone.drop 1).take 2) * 60 + decimal ((zone.drop 4).take 2)) * 60000 * if zone.head? = some '-' then -1 else 1

def milliseconds (fraction : List Char) : ℕ := decimal ((fraction ++ ['0', '0', '0']).take 3)

def MAX_SAFE_INTEGER : Int := 9007199254740991

def instantMilliseconds (value : List Char) : Except OnvifError Int := do
  let _ ← decodeTemporal .dateTime value
  match (dateTimeMatch value).bind fun m => m.zone.map fun zone => (m, zone) with
  | none =>
    throw ⟨.unsupportedCapability,
      "Lease scheduling requires an explicit native timezone; the codec still preserves timezone absence", .notSent⟩
  | some (m, zone) =>
    let date := setUTCHours (setUTCFullYear 0 (bigInt m.year) (decimal m.month - 1) (decimal m.day))
      (decimal m.hour) (decimal m.minute) (decimal m.second) (milliseconds ((m.fraction.getD []).drop 1))
    match date.map (· - zoneOffset zone) with
    | some result =>
      if -MAX_SAFE_INTEGER ≤ result ∧ result ≤ MAX_SAFE_INTEGER then pure result
      else throw ⟨.xmlLimit, "Native lease time is outside the scheduler's finite instant range", .notSent⟩
    | none => throw ⟨.xmlLimit, "Native lease time is outside the scheduler's finite instant range", .notSent⟩

-- The exact instant

def fractionValue (fraction : List Char) : ℚ := decimal (fraction.drop 1) / 10 ^ (fraction.drop 1).length

def zoneMinutes : List Char → ℤ
  | [sign, a, b, ':', c, d] => (if sign = '-' then -1 else 1) * (60 * decimal [a, b] + decimal [c, d])
  | _ => 0

/-- The text is a `dateTime` with a zone, and `x` is its instant, in
milliseconds from the beginning of 1970. -/
def Instant (c : Calendar) (value : List Char) (x : ℚ) : Prop :=
  ∃ year month day hour minute second fraction zone, DateValues year month day ∧ TimeValues hour minute second fraction ∧
    IsTimezone zone ∧ zone ≠ [] ∧
    value = year ++ '-' :: (month ++ '-' :: (day ++ 'T' :: (hour ++ ':' :: (minute ++ ':' :: (second ++ (fraction ++ zone)))))) ∧
    x = 86400000 * c.day (bigInt year) (decimal month) (decimal day) + 3600000 * decimal hour + 60000 * decimal minute +
      1000 * (decimal second + fractionValue fraction) - 60000 * zoneMinutes zone

-- Fractions and zones

theorem decimal_append (a b : List Char) : decimal (a ++ b) = decimal a * 10 ^ b.length + decimal b := by
  have hfold (b : List Char) (n : ℕ) :
      b.foldl (fun n c => 10 * n + (c.toNat - '0'.toNat)) n = n * 10 ^ b.length + decimal b := by
    induction b generalizing n with
    | nil => simp [decimal]
    | cons c b ih =>
      have hcons : decimal (c :: b) = (c.toNat - '0'.toNat) * 10 ^ b.length + decimal b := by
        rw [← ih]
        change b.foldl _ (10 * 0 + (c.toNat - '0'.toNat)) = _
        rw [Nat.mul_zero, Nat.zero_add]
      rw [List.foldl_cons, ih, hcons, List.length_cons]
      ring
  rw [decimal, List.foldl_append, hfold]
  rfl

theorem decimal_lt {digits : List Char} (h : ∀ c ∈ digits, Char.isDigit c) : decimal digits < 10 ^ digits.length := by
  induction digits using List.reverseRecOn with
  | nil => decide
  | append_singleton digits c ih =>
    have hc := h c (by simp)
    have hbefore := ih fun c hc => h c (by simp [hc])
    have hdigit : decimal [c] ≤ 9 := by
      rw [decimal, List.foldl_cons, List.foldl_nil]
      simp only [Char.isDigit, Bool.and_eq_true, decide_eq_true_eq] at hc
      have := hc.2
      have h9 : c.toNat ≤ 57 := hc.2
      change 10 * 0 + (c.toNat - 48) ≤ 9
      omega
    have hsucc : 10 ^ (digits.length + 1) = 10 ^ digits.length * 10 := pow_succ 10 digits.length
    rw [decimal_append, List.length_append, List.length_singleton, hsucc, pow_one]
    omega

theorem milliseconds_floor {fraction : List Char} (h : IsFraction fraction) :
    (milliseconds (fraction.drop 1) : ℚ) ≤ 1000 * fractionValue fraction ∧
      1000 * fractionValue fraction < milliseconds (fraction.drop 1) + 1 := by
  have hdigits : ∀ c ∈ fraction.drop 1, Char.isDigit c := by
    rcases h with rfl | ⟨digits, _, hd, rfl⟩
    · nofun
    · exact hd
  unfold fractionValue milliseconds
  generalize fraction.drop 1 = digits at hdigits
  have hpadded : ∀ c ∈ digits ++ ['0', '0', '0'], Char.isDigit c := by
    intro c hc
    rcases List.mem_append.mp hc with hc | hc
    · exact hdigits c hc
    · simp only [List.mem_cons, List.not_mem_nil, or_false, or_self] at hc
      rw [hc]
      rfl
  -- The padded digits are the first three and the rest.
  have hsplit := decimal_append ((digits ++ ['0', '0', '0']).take 3) ((digits ++ ['0', '0', '0']).drop 3)
  have hrest := decimal_lt
    (fun c hc => hpadded c (List.mem_of_mem_drop hc) : ∀ c ∈ (digits ++ ['0', '0', '0']).drop 3, Char.isDigit c)
  have hlength : ((digits ++ ['0', '0', '0']).drop 3).length = digits.length := by simp
  have hzeros : decimal ['0', '0', '0'] = 0 := rfl
  rw [List.take_append_drop, decimal_append, hlength, hzeros] at hsplit
  rw [hlength] at hrest
  have hthousand : ['0', '0', '0'].length = 3 := rfl
  rw [hthousand] at hsplit
  generalize decimal ((digits ++ ['0', '0', '0']).take 3) = ms at hsplit ⊢
  generalize decimal ((digits ++ ['0', '0', '0']).drop 3) = rest at hsplit hrest
  have hpos : (0 : ℚ) < 10 ^ digits.length := by positivity
  have hsplit' : (decimal digits : ℚ) * 1000 = ms * 10 ^ digits.length + rest := by
    have := congrArg (Nat.cast : ℕ → ℚ) hsplit
    push_cast at this
    linarith
  have hrest' : (rest : ℚ) < 10 ^ digits.length := by exact_mod_cast hrest
  have hrest0 : (0 : ℚ) ≤ rest := by positivity
  constructor
  · rw [← mul_div_assoc, le_div_iff₀ hpos]
    linarith
  · rw [← mul_div_assoc, div_lt_iff₀ hpos]
    linarith

theorem zoneOffset_eq {zone : List Char} (h : IsTimezone zone) (hne : zone ≠ []) :
    zoneOffset zone = 60000 * zoneMinutes zone := by
  rcases h with rfl | rfl | ⟨sign, hours, minutes, rfl, hsign, ⟨a, b, rfl, _, _⟩, ⟨c, d, rfl, _, _⟩, _⟩
  · exact absurd rfl hne
  · rfl
  · have hz : sign :: ([a, b] ++ ':' :: [c, d]) ≠ ['Z'] := by simp
    rw [zoneOffset, if_neg hz]
    change (decimal [a, b] * 60 + decimal [c, d] : ℤ) * 60000 * (if some sign = some '-' then -1 else 1) =
      60000 * ((if sign = '-' then -1 else 1) * (60 * decimal [a, b] + decimal [c, d]))
    rcases hsign with rfl | rfl <;> simp <;> ring

theorem leapYear_iff (year : Int) : leapYear year ↔ 4 ∣ year ∧ (¬100 ∣ year ∨ 400 ∣ year) := by
  unfold leapYear
  simp only [Bool.and_eq_true, Bool.or_eq_true, decide_eq_true_eq, Int.dvd_iff_emod_eq_zero]

theorem monthLength_eq (year : Int) (month : ℕ) : monthLength year month = monthDays year month := by
  unfold monthLength monthDays
  simp only [leapYear_iff]

-- Truncation

theorem instantMilliseconds_ok {value : List Char} {n : Int} (h : instantMilliseconds value = .ok n) :
    accepted .dateTime (collapsed value) ∧ ∃ m zone, dateTimeMatch value = some m ∧ m.zone = some zone ∧
      n = makeDay (bigInt m.year) (decimal m.month - 1) (decimal m.day) * msPerDay + makeTime (decimal m.hour) (decimal m.minute)
        (decimal m.second) (milliseconds ((m.fraction.getD []).drop 1)) - zoneOffset zone := by
  obtain ⟨text, hdecoded, h⟩ := except_bind_ok h
  have haccepted : accepted .dateTime (collapsed value) := by
    unfold decodeTemporal at hdecoded
    obtain ⟨_, hrequire, _⟩ := except_bind_ok hdecoded
    by_contra hnot
    rw [require, if_neg hnot] at hrequire
    cases hrequire
  refine ⟨haccepted, ?_⟩
  split at h
  · cases h
  · rename_i m zone hmatch
    obtain ⟨m', hm', hzone⟩ := Option.bind_eq_some_iff.mp hmatch
    obtain ⟨zone', hz, heq⟩ := Option.map_eq_some_iff.mp hzone
    obtain ⟨rfl, rfl⟩ := Prod.mk.inj heq
    refine ⟨m', zone', hm', hz, ?_⟩
    dsimp only at h
    split at h
    · rename_i result hresult
      obtain ⟨v, hv, rfl⟩ := Option.map_eq_some_iff.mp hresult
      split at h
      · rw [← Except.ok.inj h, setUTC_some hv]
      · cases h
    · cases h

theorem instant_shape {year month day hour minute second fraction zone : List Char} (hdate : DateValues year month day)
    (htime : TimeValues hour minute second fraction) (hzone : IsTimezone zone) (hne : zone ≠ []) :
    DateTimeMatch.Shape ⟨year, month, day, hour, minute, second, some fraction, some zone⟩ zone where
  isYear := hdate.isYear.shape
  isMonth := hdate.isMonth.1
  isDay := hdate.isDay.1
  isHour := htime.isHour
  isMinute := htime.isMinute
  isSecond := htime.isSecond
  isFraction := htime.isFraction
  isZone := hzone.shape
  zones := (if_neg hne).symm

theorem instant_floor (c : Calendar) {value : List Char} {n : Int} {x : ℚ} (h : instantMilliseconds value = .ok n)
    (hx : Instant c value x) : (n : ℚ) ≤ x ∧ x < n + 1 := by
  obtain ⟨-, m, zone, hm, hz, rfl⟩ := instantMilliseconds_ok h
  obtain ⟨year, month, day, hour, minute, second, fraction, zone', hdate, htime, hzone, hne, rfl, rfl⟩ := hx
  obtain ⟨m', hm', -, hy, hmo, hd, hh, hmi, hs, hf, hz'⟩ := dateTimeMatch_complete (instant_shape hdate htime hzone hne)
  obtain rfl := Option.some.inj (hm.symm.trans hm')
  obtain rfl := Option.some.inj (hz.symm.trans hz')
  have hday := c.day_eq hdate.isMonth.2.1 hdate.isMonth.2.2 hdate.isDay.2.1
    (monthLength_eq (bigInt year) (decimal month) ▸ hdate.isDay.2.2)
  obtain ⟨hlow, hhigh⟩ := milliseconds_floor htime.isFraction
  rw [hy, hmo, hd, hh, hmi, hs, hf, zoneOffset_eq hzone hne, hday, makeTime, msPerDay]
  simp only [Option.getD_some]
  generalize milliseconds (fraction.drop 1) = ms at hlow hhigh
  push_cast
  constructor <;> linarith

theorem digit_not_space {c : Char} (h : c.isDigit) : Media.isSpace c = false := by
  have hrange : 48 ≤ c.toNat ∧ c.toNat ≤ 57 := by simpa [Char.isDigit, UInt32.le_iff_toNat_le] using h
  simp only [Media.isSpace, List.contains_eq_mem, List.mem_cons, List.not_mem_nil, or_false, Bool.or_eq_false_iff,
    Bool.and_eq_false_iff, decide_eq_false_iff_not]
  omega

theorem shape_not_space {m : DateTimeMatch} {zone : List Char} (h : m.Shape zone) :
    ∀ c ∈ m.chars zone, Media.isSpace c = false := by
  have hyear : ∀ c ∈ m.year, c.isDigit ∨ c = '-' := by
    obtain ⟨sign, digits, hy, hs, hd, -⟩ := h.isYear
    rw [hy]
    intro c hc
    rcases List.mem_append.mp hc with hc | hc
    · rcases hs with rfl | rfl
      · cases hc
      · exact .inr (List.mem_singleton.mp hc)
    · exact .inl (hd c hc)
  have hzone : ∀ c ∈ zone, c.isDigit ∨ c = 'Z' ∨ c = '+' ∨ c = '-' ∨ c = ':' := by
    intro c hc
    rcases h.isZone with rfl | hz
    · cases hc
    · rcases isZone_cases hz with rfl | ⟨sign, a, b, d, e, rfl, hs, ha, hb, hd, he⟩
      · exact .inr (.inl (List.mem_singleton.mp hc))
      · simp only [List.mem_cons, List.not_mem_nil, or_false] at hc
        rcases hc with rfl | rfl | rfl | rfl | rfl | rfl
        · rcases hs with rfl | rfl <;> simp
        · exact .inl ha
        · exact .inl hb
        · simp
        · exact .inl hd
        · exact .inl he
  intro c hc
  have hall : c.isDigit ∨ c = '-' ∨ c = 'T' ∨ c = ':' ∨ c = '.' ∨ c = 'Z' ∨ c = '+' := by
    simp only [DateTimeMatch.chars, List.mem_append, List.mem_cons] at hc
    rcases hc with hc | rfl | hc | rfl | hc | rfl | hc | rfl | hc | rfl | hc | hc | hc
    · exact (hyear c hc).imp_right .inl
    · simp
    · exact .inl (h.isMonth.digits c hc)
    · simp
    · exact .inl (h.isDay.digits c hc)
    · simp
    · exact .inl (h.isHour.digits c hc)
    · simp
    · exact .inl (h.isMinute.digits c hc)
    · simp
    · exact .inl (h.isSecond.digits c hc)
    · rcases h.isFraction.chars c hc with hc | hc <;> simp [hc]
    · rcases hzone c hc with hc | hc | hc | hc | hc <;> simp [hc]
  rcases hall with hc | rfl | rfl | rfl | rfl | rfl | rfl
  · exact digit_not_space hc
  all_goals decide

theorem instant_exists (c : Calendar) {value : List Char} {n : Int} (h : instantMilliseconds value = .ok n) :
    ∃ x, Instant c value x := by
  obtain ⟨haccepted, m, zone, hm, hz, -⟩ := instantMilliseconds_ok h
  obtain ⟨zone', hshape, hchars⟩ := dateTimeMatch_sound hm
  obtain ⟨hlexical, _⟩ := accepted_iff.mp haccepted
  -- Without white space around it the text is what has been checked.
  have hcollapsed : collapsed value = value := by
    obtain ⟨before, after, heq, hspace⟩ := (collapsed_iff hlexical).mp rfl
    have hnone : before ++ after = [] := by
      refine List.eq_nil_iff_forall_not_mem.mpr fun c hc => ?_
      have hmem : c ∈ value := by
        rw [heq]
        rcases List.mem_append.mp hc with hc | hc <;> simp [hc]
      rw [hchars] at hmem
      have := shape_not_space hshape c hmem
      rw [hspace c hc] at this
      cases this
    obtain ⟨rfl, rfl⟩ := List.append_eq_nil_iff.mp hnone
    simpa using heq.symm
  rw [hcollapsed] at haccepted
  have hvalid : validDateTime value := haccepted
  rw [validDateTime, hm, Option.any_some] at hvalid
  obtain ⟨-, hdate, htime, hzone⟩ := (validMatch_iff hshape).mp hvalid
  have hne : zone' ≠ [] := by
    rintro rfl
    rw [hshape.zones, if_pos rfl] at hz
    cases hz
  exact ⟨_, m.year, m.month, m.day, m.hour, m.minute, m.second, m.fraction.getD [], zone', hdate, htime, hzone, hne, hchars, rfl⟩

end WotAv.Events
