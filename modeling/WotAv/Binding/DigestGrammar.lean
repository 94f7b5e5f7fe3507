import Mathlib.Data.List.Forall2
import Mathlib.Data.List.Induction
import WotAv.Binding.Digest

/-!
# The grammar of challenges

What `splitFields` and `challenges` read, said without them: segments between
commas that are outside of quotes, a scheme with what follows it, and the
parameters up to the next scheme. Each reader accepts what the grammar derives,
and nothing else.
-/

namespace WotAv.Binding

open WotAv.Lib
open WotAv.Media (isSpace isControlCharacter)

-- Segments

inductive Quoted : List Char → Prop
  | nil : Quoted []
  | plain : ch ≠ '"' → ch ≠ '\\' → Quoted rest → Quoted (ch :: rest)
  | escaped : Quoted rest → Quoted ('\\' :: ch :: rest)

inductive Segment : List Char → Prop
  | nil : Segment []
  | plain : ch ≠ '"' → ch ≠ ',' → Segment rest → Segment (ch :: rest)
  | quotes : Quoted inside → Segment rest → Segment ('"' :: (inside ++ '"' :: rest))

theorem Segment.append (h : Segment a) (h' : Segment b) : Segment (a ++ b) := by
  induction h with
  | nil => exact h'
  | plain hq hc _ ih => exact .plain hq hc ih
  | quotes hi _ ih =>
    rw [List.cons_append, List.append_assoc]
    exact .quotes hi ih

theorem Segment.of_plain {text : List Char} (h : ∀ ch ∈ text, ch ≠ '"' ∧ ch ≠ ',') : Segment text := by
  induction text with
  | nil => exact .nil
  | cons ch text ih =>
    obtain ⟨hq, hc⟩ := h ch List.mem_cons_self
    exact .plain hq hc (ih fun ch hch => h ch (List.mem_cons_of_mem _ hch))

theorem splitLoop_quoted (h : Quoted inside) (rest current : List Char) (result : List (List Char)) :
    splitLoop (inside ++ '"' :: rest) true false current result =
      splitLoop rest false false (current ++ inside ++ ['"']) result := by
  induction h generalizing current with
  | nil => simp [splitLoop]
  | @plain ch inside hq hb _ ih =>
    rw [List.cons_append, splitLoop]
    simpa [hq, hb] using ih (current ++ [ch])
  | @escaped inside ch _ ih =>
    rw [List.cons_append, List.cons_append, splitLoop]
    simpa [splitLoop] using ih (current ++ ['\\', ch])

theorem splitLoop_segment {segment : List Char} (h : Segment segment) (rest current : List Char) (result : List (List Char)) :
    splitLoop (segment ++ rest) false false current result = splitLoop rest false false (current ++ segment) result := by
  induction h generalizing current with
  | nil => simp
  | @plain ch segment hq hc _ ih =>
    rw [List.cons_append, splitLoop]
    simpa [hq, hc] using ih (current ++ [ch])
  | @quotes inside segment hi _ ih =>
    rw [List.cons_append, List.append_assoc, splitLoop]
    simpa [splitLoop_quoted hi] using ih (current ++ '"' :: (inside ++ ['"']))

theorem splitLoop_segments {segment : List Char} {others : List (List Char)} (h : ∀ s ∈ segment :: others, Segment s)
    (current : List Char) (result : List (List Char)) :
    splitLoop (List.intercalate [','] (segment :: others)) false false current result =
      .ok (result ++ trim (current ++ segment) :: others.map trim) := by
  induction others generalizing segment current result with
  | nil =>
    have hlast := splitLoop_segment (h segment List.mem_cons_self) [] current result
    rw [List.append_nil] at hlast
    rw [List.intercalate_singleton, hlast]
    rfl
  | cons next others ih =>
    rw [List.intercalate_cons_cons, List.append_assoc, splitLoop_segment (h segment List.mem_cons_self)]
    have hnext := ih (fun s hs => h s (List.mem_cons_of_mem _ hs)) [] (result ++ [trim (current ++ segment)])
    simpa [splitLoop] using hnext

def Remains (quoted escaped : Bool) (text : List Char) : Prop := match quoted, escaped with
  | false, _ => Segment text
  | true, false => ∃ inside rest, text = inside ++ '"' :: rest ∧ Quoted inside ∧ Segment rest
  | true, true => ∃ ch inside rest, text = ch :: (inside ++ '"' :: rest) ∧ Quoted inside ∧ Segment rest

theorem splitLoop_sound {parts : List (List Char)} (text : List Char) : ∀ (quoted escaped : Bool) (current : List Char)
    (result : List (List Char)), (escaped → quoted) → splitLoop text quoted escaped current result = .ok parts →
    ∃ first others, text = List.intercalate [','] (first :: others) ∧ Remains quoted escaped first ∧
      (∀ s ∈ others, Segment s) ∧ parts = result ++ trim (current ++ first) :: others.map trim := by
  induction text with
  | nil =>
    intro quoted escaped current result _ h
    rw [splitLoop] at h
    cases quoted with
    | true => cases h
    | false =>
      cases escaped with
      | true => cases h
      | false => exact ⟨[], [], rfl, .nil, nofun, by simpa using (Except.ok.inj h).symm⟩
  | cons ch text ih =>
    intro quoted escaped current result hstate h
    -- A character that stays in its segment.
    have hstays {quoted' escaped' : Bool} (h : splitLoop text quoted' escaped' (current ++ [ch]) result = .ok parts)
        (hstate' : escaped' → quoted')
        (hr : ∀ first, Remains quoted' escaped' first → Remains quoted escaped (ch :: first)) :
        ∃ first others, ch :: text = List.intercalate [','] (first :: others) ∧ Remains quoted escaped first ∧
          (∀ s ∈ others, Segment s) ∧ parts = result ++ trim (current ++ first) :: others.map trim := by
      obtain ⟨first, others, rfl, hfirst, hothers, hparts⟩ := ih quoted' escaped' _ _ hstate' h
      refine ⟨ch :: first, others, ?_, hr first hfirst, hothers, by simpa using hparts⟩
      cases others with
      | nil => simp
      | cons next others => simp [List.intercalate_cons_cons]
    cases escaped with
    | true =>
      obtain rfl : quoted = true := hstate rfl
      rw [splitLoop] at h
      exact hstays h nofun fun first ⟨inside, rest, he, hi, hs⟩ => ⟨ch, inside, rest, by rw [he], hi, hs⟩
    | false =>
      rw [splitLoop] at h
      cases quoted with
      | true =>
        by_cases hb : ch = '\\'
        · subst hb
          simp only [decide_true, Bool.and_true, if_true] at h
          refine hstays h (fun _ => rfl) fun first ⟨c, inside, rest, he, hi, hs⟩ => ?_
          exact ⟨'\\' :: c :: inside, rest, by rw [he]; rfl, .escaped hi, hs⟩
        · by_cases hq : ch = '"'
          · subst hq
            simp at h
            exact hstays h nofun fun first hs => ⟨[], first, rfl, .nil, hs⟩
          · simp [hb, hq] at h
            refine hstays h nofun fun first ⟨inside, rest, he, hi, hs⟩ => ?_
            exact ⟨ch :: inside, rest, by rw [he]; rfl, .plain hq hb hi, hs⟩
      | false =>
        by_cases hq : ch = '"'
        · subst hq
          simp at h
          refine hstays h nofun fun first ⟨inside, rest, he, hi, hs⟩ => ?_
          rw [he]
          exact Segment.quotes hi hs
        · by_cases hc : ch = ','
          · subst hc
            simp at h
            obtain ⟨first, others, rfl, hfirst, hothers, hparts⟩ := ih false false [] _ nofun h
            refine ⟨[], first :: others, by simp [List.intercalate_cons_cons], .nil, ?_, by simpa using hparts⟩
            intro s hs
            rcases List.mem_cons.mp hs with rfl | hs
            · exact hfirst
            · exact hothers s hs
          · simp [hq, hc] at h
            exact hstays h nofun fun first hs => Segment.plain hq hc hs

def Parts (header : String) (parts : List (List Char)) : Prop :=
  ∃ first others, header.toList = List.intercalate [','] (first :: others) ∧ (∀ s ∈ first :: others, Segment s) ∧
    parts = (first :: others).map trim

theorem splitFields_iff (header : String) (parts : List (List Char)) :
    splitFields header = .ok parts ↔
      (utf16Length header ≤ 16384 ∧ ∀ ch ∈ header.toList, isControlCharacter ch = false) ∧ Parts header parts := by
  unfold splitFields
  constructor
  · intro h
    split at h
    · cases h
    · rename_i hbounds
      rw [not_or, not_lt, Bool.not_eq_true, List.any_eq_false] at hbounds
      obtain ⟨first, others, he, hfirst, hothers, hparts⟩ := splitLoop_sound header.toList false false [] [] nofun h
      refine ⟨⟨hbounds.1, fun ch hch => by simpa using hbounds.2 ch hch⟩, first, others, he, ?_, by simpa using hparts⟩
      exact List.forall_mem_cons.mpr ⟨hfirst, hothers⟩
  · rintro ⟨⟨hlength, hcontrol⟩, first, others, he, hs, rfl⟩
    rw [if_neg, he, splitLoop_segments hs]
    · simp
    · rw [not_or, not_lt, Bool.not_eq_true, List.any_eq_false]
      exact ⟨hlength, fun ch hch => by simp [hcontrol ch hch]⟩

-- Parameters

theorem tokenChar_range {ch : Char} (h : tokenChar ch) : 0x21 ≤ ch.toNat ∧ ch.toNat ≤ 0x7e := by
  rcases Bool.or_eq_true_iff.mp h with h | h
  · rw [isAlphanum_iff] at h
    omega
  · revert h
    have hall : ∀ c ∈ ['!', '#', '$', '%', '&', '\'', '*', '+', '.', '^', '_', '`', '|', '~', '-'],
        0x21 ≤ c.toNat ∧ c.toNat ≤ 0x7e := by decide
    exact fun h => hall ch (List.contains_iff_mem.mp h)

theorem tokenChar_space {ch : Char} (h : tokenChar ch) : isSpace ch = false := by
  have := tokenChar_range h
  simp [isSpace]
  omega

theorem key_split {key spaces rest : List Char} (hk : key.all tokenChar) (hs : spaces.all isSpace)
    (hr : ∀ ch ∈ rest.head?, isSpace ch = false) (hn : spaces = [] → ∀ ch ∈ rest.head?, tokenChar ch = false) :
    (key ++ (spaces ++ rest)).takeWhile tokenChar = key ∧
      ((key ++ (spaces ++ rest)).drop key.length).dropWhile isSpace = rest := by
  rw [List.all_eq_true] at hk hs
  constructor
  · rw [List.takeWhile_append_of_pos hk]
    cases spaces with
    | nil =>
      cases rest with
      | nil => simp
      | cons ch rest => simp [hn rfl ch rfl]
    | cons space spaces =>
      have hspace : tokenChar space = false := by
        by_contra h
        rw [Bool.not_eq_false] at h
        exact absurd (hs space List.mem_cons_self) (by simp [tokenChar_space h])
      simp [hspace]
  · rw [List.drop_left, List.dropWhile_append_of_pos hs]
    cases rest with
    | nil => rfl
    | cons ch rest => simp [hr ch rfl]

theorem key_read (text : List Char) : ∃ spaces rest,
    text = text.takeWhile tokenChar ++ (spaces ++ rest) ∧ spaces.all isSpace ∧
    (∀ ch ∈ rest.head?, isSpace ch = false) ∧
    rest = (text.drop (text.takeWhile tokenChar).length).dropWhile isSpace ∧
    text.drop (text.takeWhile tokenChar).length = spaces ++ rest := by
  have hdrop : text = text.takeWhile tokenChar ++ text.drop (text.takeWhile tokenChar).length :=
    (List.prefix_iff_eq_append.mp (List.takeWhile_prefix tokenChar)).symm
  generalize text.drop (text.takeWhile tokenChar).length = after at hdrop ⊢
  refine ⟨after.takeWhile isSpace, after.dropWhile isSpace, ?_, ?_, fun ch hch => ?_, rfl, ?_⟩
  · rw [List.takeWhile_append_dropWhile]
    exact hdrop
  · exact List.all_takeWhile
  · have h := List.head?_dropWhile_not isSpace after
    rw [show (after.dropWhile isSpace).head? = some ch from hch] at h
    simpa using h
  · rw [List.takeWhile_append_dropWhile]

/-- What stands between quotes, and the text that it is written for. -/
inductive Escaped : List Char → List Char → Prop
  | nil : Escaped [] []
  | plain : ch ≠ '"' → ch ≠ '\\' → Escaped inside value → Escaped (ch :: inside) (ch :: value)
  | escaped : oneLine [ch] → Escaped inside value → Escaped ('\\' :: ch :: inside) (ch :: value)

theorem quotedValue_plain (hq : ch ≠ '"') (hb : ch ≠ '\\') (rest : List Char) :
    quotedValue (ch :: rest) = (quotedValue rest).map (ch :: ·) :=
  quotedValue.eq_6 ch rest (fun h _ => hq h) (fun _ _ h _ => hb h) (fun h _ => hb h) hq

theorem quotedValue_iff (text value : List Char) :
    quotedValue text = some value ↔ ∃ inside, text = inside ++ ['"'] ∧ Escaped inside value := by
  constructor
  · intro h
    induction text using quotedValue.induct generalizing value with
    | case1 => exact ⟨[], rfl, Option.some.inj h ▸ .nil⟩
    | case2 ch rest hline ih =>
      rw [quotedValue, if_pos hline, Option.map_eq_some_iff] at h
      obtain ⟨value, hv, rfl⟩ := h
      obtain ⟨inside, rfl, hi⟩ := ih value hv
      exact ⟨'\\' :: ch :: inside, rfl, .escaped hline hi⟩
    | case3 ch rest hline =>
      rw [quotedValue, if_neg hline] at h
      cases h
    | case4 => cases h
    | case5 rest hq =>
      rw [quotedValue] at h
      · cases h
      · exact hq
    | case6 => cases h
    | case7 ch rest hend hescape hlast hq ih =>
      have hb : ch ≠ '\\' := by
        rintro rfl
        cases rest with
        | nil => exact hlast rfl rfl
        | cons c rest => exact hescape c rest rfl rfl
      rw [quotedValue_plain hq hb, Option.map_eq_some_iff] at h
      obtain ⟨value, hv, rfl⟩ := h
      obtain ⟨inside, rfl, hi⟩ := ih value hv
      exact ⟨ch :: inside, rfl, .plain hq hb hi⟩
  · rintro ⟨inside, rfl, h⟩
    induction h with
    | nil => rfl
    | plain hq hb _ ih =>
      rw [List.cons_append, quotedValue_plain hq hb, ih]
      rfl
    | escaped hline _ ih =>
      rw [List.cons_append, List.cons_append, quotedValue, if_pos hline, ih]
      rfl

def Starts (text : List Char) : Prop :=
  ∃ key spaces rest, text = key ++ (spaces ++ '=' :: rest) ∧ key ≠ [] ∧ key.all tokenChar ∧ spaces.all isSpace

theorem startsParameter_iff (text : List Char) : startsParameter text ↔ Starts text := by
  unfold startsParameter
  constructor
  · intro h
    obtain ⟨spaces, rest, htext, hs, -, hrest, -⟩ := key_read text
    simp only [← hrest, Bool.and_eq_true, decide_eq_true_eq] at h
    obtain ⟨hkey, hhead⟩ := h
    cases rest with
    | nil => cases hhead
    | cons ch rest =>
      obtain rfl := Option.some.inj hhead
      exact ⟨_, spaces, rest, htext, hkey, List.all_takeWhile, hs⟩
  · rintro ⟨key, spaces, rest, rfl, hkey, hk, hs⟩
    have hsplit := @key_split key spaces ('=' :: rest) hk hs (by rintro ch ⟨⟩; decide) (by rintro - ch ⟨⟩; decide)
    simp only [hsplit.1, hsplit.2]
    simp [hkey]

def Written (key value text : List Char) : Prop :=
  ∃ before after body, text = key ++ (before ++ '=' :: (after ++ body)) ∧ key ≠ [] ∧ key.all tokenChar ∧
    before.all isSpace ∧ after.all isSpace ∧
    ((∃ inside, body = '"' :: (inside ++ ['"']) ∧ Escaped inside value) ∨
      body = value ∧ value ≠ [] ∧ value.all tokenChar)

theorem Written.starts (h : Written key value text) : Starts text := by
  obtain ⟨before, after, body, rfl, hkey, hk, hb, -⟩ := h
  exact ⟨key, before, _, rfl, hkey, hk, hb⟩

theorem parameter_iff (text key value : List Char) : parameter text = some (key, value) ↔ Written key value text := by
  unfold parameter
  constructor
  · intro h
    obtain ⟨spaces, rest, htext, hs, -, hrest, -⟩ := key_read text
    simp only [← hrest] at h
    split at h
    · rename_i rest
      split at h
      · cases h
      · rename_i hkey
        have hafter : rest = rest.takeWhile isSpace ++ rest.dropWhile isSpace := (List.takeWhile_append_dropWhile).symm
        split at h
        · rename_i quoted hbody
          obtain ⟨value', hvalue, he⟩ := Option.map_eq_some_iff.mp h
          obtain ⟨rfl, rfl⟩ := Prod.mk.inj he
          obtain ⟨inside, rfl, hi⟩ := (quotedValue_iff _ _).mp hvalue
          refine ⟨spaces, rest.takeWhile isSpace, rest.dropWhile isSpace, ?_, hkey, List.all_takeWhile, hs,
            List.all_takeWhile, .inl ⟨inside, hbody, hi⟩⟩
          rw [← hafter]
          exact htext
        · rename_i body _
          split at h
          · rename_i hbody
            obtain ⟨rfl, rfl⟩ := Prod.mk.inj (Option.some.inj h)
            refine ⟨spaces, rest.takeWhile isSpace, rest.dropWhile isSpace, ?_, hkey, List.all_takeWhile, hs,
              List.all_takeWhile, .inr ⟨rfl, hbody⟩⟩
            rw [← hafter]
            exact htext
          · cases h
    · cases h
  · rintro ⟨before, after, body, rfl, hkey, hk, hb, ha, hbody⟩
    have hsplit := @key_split key before ('=' :: (after ++ body)) hk hb (by rintro ch ⟨⟩; decide)
      (by rintro - ch ⟨⟩; decide)
    have hdrop : body.dropWhile isSpace = body := by
      rcases hbody with ⟨inside, rfl, -⟩ | ⟨rfl, hne, hv⟩
      · rfl
      · cases body with
        | nil => rfl
        | cons ch body =>
          rw [List.dropWhile_cons_of_neg]
          rw [List.all_cons, Bool.and_eq_true] at hv
          simp [tokenChar_space hv.1]
    simp only [hsplit.1, hsplit.2, if_neg hkey]
    rw [List.dropWhile_append_of_pos (by simpa using ha), hdrop]
    rcases hbody with ⟨inside, rfl, hi⟩ | ⟨rfl, hne, hv⟩
    · simp [(quotedValue_iff _ _).mpr ⟨inside, rfl, hi⟩]
    · split
      · rename_i quoted _
        rw [List.all_cons, Bool.and_eq_true] at hv
        exact absurd hv.1 (by decide)
      · rw [if_pos ⟨hne, hv⟩]

-- Schemes

def Opens (name first text : List Char) : Prop :=
  ¬Starts text ∧ name ≠ [] ∧ name.all tokenChar ∧
    (first = [] ∧ text = name ∨
      ∃ spaces, spaces ≠ [] ∧ spaces.all isSpace ∧ text = name ++ (spaces ++ first) ∧ oneLine first ∧
        ∀ ch ∈ first.head?, isSpace ch = false)

theorem scheme_iff (hn : ¬Starts text) (name first : List Char) :
    scheme text = some (name, first) ↔ Opens name first text := by
  unfold scheme
  constructor
  · intro h
    obtain ⟨spaces, rest, htext, hs, hspace, hrest, hafter⟩ := key_read text
    rw [hafter] at hrest
    simp only [hafter, ← hrest] at h
    split at h
    · cases h
    · rename_i hname
      split at h
      · rename_i hnil
        obtain ⟨rfl, rfl⟩ := Prod.mk.inj (Option.some.inj h)
        refine ⟨hn, hname, List.all_takeWhile, .inl ⟨rfl, ?_⟩⟩
        rw [hnil, List.append_nil] at htext
        exact htext
      · split at h
        · rename_i hfound
          obtain ⟨rfl, rfl⟩ := Prod.mk.inj (Option.some.inj h)
          refine ⟨hn, hname, List.all_takeWhile, .inr ⟨spaces, ?_, hs, htext, hfound.2, hspace⟩⟩
          rintro rfl
          cases rest with
          | nil => simp at hfound
          | cons ch rest =>
            have := hspace ch rfl
            simp [this] at hfound
        · cases h
  · rintro ⟨-, hname, hk, ⟨rfl, rfl⟩ | ⟨spaces, hne, hs, rfl, hline, hspace⟩⟩
    · have htake : text.takeWhile tokenChar = text := by
        have happend : (text ++ []).takeWhile tokenChar = text ++ [].takeWhile tokenChar :=
          List.takeWhile_append_of_pos (List.all_eq_true.mp hk)
        simpa using happend
      simp [htake, hname]
    · have hsplit := key_split hk hs hspace (fun h => absurd h hne)
      simp only [hsplit.1, hsplit.2, if_neg hname]
      rw [List.drop_left, if_neg (by simp [hne]), if_pos]
      cases spaces with
      | nil => exact absurd rfl hne
      | cons space spaces => simpa [hline] using (List.all_cons.symm.trans hs |> Bool.and_eq_true_iff.mp).1

/-- The parts of a `Digest` challenge, with its parameters. -/
def Offer (texts : List (List Char)) (values : Parameters) : Prop :=
  ∃ opening others name first, texts = opening :: others ∧ Opens name first opening ∧ lower name = "digest".toList ∧
    List.Forall₂ (fun text value => ∃ key, value.1 = lower key ∧ Written key value.2 text)
      ((if first = [] then [] else [first]) ++ others) values ∧
    (values.map (·.1)).Nodup

/-- The parts hold the challenge, which ends with them or where a scheme follows. -/
def Offers (parts : List (List Char)) (values : Parameters) : Prop :=
  ∃ before texts after, parts = before ++ texts ++ after ∧ Offer texts values ∧ ∀ next ∈ after.head?, ¬Starts next

theorem addParameter_ok (c : Challenges) (values : Parameters) (hc : c.current = some values) (text : List Char) :
    addParameter c text = .ok c' ↔
      text = [] ∧ c' = c ∨
        text ≠ [] ∧ ∃ key value, Written key value text ∧ (∀ entry ∈ values, entry.1 ≠ lower key) ∧
          c' = { c with current := some (values ++ [(lower key, value)]) } := by
  unfold addParameter
  rw [hc]
  dsimp only
  by_cases ht : text = []
  · rw [if_pos ht]
    constructor
    · exact fun h => .inl ⟨ht, (Except.ok.inj h).symm⟩
    · rintro (⟨-, rfl⟩ | ⟨hn, -⟩)
      · rfl
      · exact absurd ht hn
  · rw [if_neg ht]
    constructor
    · intro h
      refine .inr ⟨ht, ?_⟩
      split at h
      · cases h
      · rename_i key value hp
        split at h
        · cases h
        · rename_i hnew
          rw [Bool.not_eq_true, List.any_eq_false] at hnew
          exact ⟨key, value, (parameter_iff _ _ _).mp hp, fun entry he => by simpa using hnew entry he,
            (Except.ok.inj h).symm⟩
    · rintro (⟨hn, -⟩ | ⟨-, key, value, hw, hnew, rfl⟩)
      · exact absurd hn ht
      · rw [(parameter_iff _ _ _).mpr hw]
        dsimp only
        rw [if_neg]
        rw [Bool.not_eq_true, List.any_eq_false]
        exact fun entry he => by simpa using hnew entry he

theorem addPart_starts {part : List Char} (hs : Starts part) (c : Challenges) : addPart c part = addParameter c part := by
  rw [addPart, if_pos ((startsParameter_iff part).mpr hs)]

theorem addPart_opens {part : List Char} (hs : ¬Starts part) (h : addPart c part = .ok c') : ∃ name first,
    Opens name first part ∧
    addParameter { read := c.all, current := if lower name = "digest".toList then some [] else none } first = .ok c' := by
  rw [addPart, if_neg (by rwa [startsParameter_iff])] at h
  split at h
  · cases h
  · rename_i name first hscheme
    exact ⟨name, first, (scheme_iff hs name first).mp hscheme, h⟩

theorem addPart_opened {part : List Char} (ho : Opens name first part) (c : Challenges) : addPart c part =
    addParameter { read := c.all, current := if lower name = "digest".toList then some [] else none } first := by
  rw [addPart, if_neg (by rw [startsParameter_iff]; exact ho.1), (scheme_iff ho.1 name first).mpr ho]

/-- The challenges that have been read are in the parts so far, and the one that
is being read ends with them. -/
structure Reads (done : List (List Char)) (c : Challenges) : Prop where
  read : ∀ values ∈ c.read, ∃ before texts next after, done = before ++ texts ++ next :: after ∧ ¬Starts next ∧
    Offer texts values
  current : ∀ values ∈ c.current, ∃ before texts, done = before ++ texts ∧ Offer texts values

theorem Reads.next {done : List (List Char)} {part : List Char} (hr : Reads done c) (h : addPart c part = .ok c') :
    Reads (done ++ [part]) c' := by
  have hread : ∀ values ∈ c.read, ∃ before texts next after, done ++ [part] = before ++ texts ++ next :: after ∧
      ¬Starts next ∧ Offer texts values := by
    intro values hv
    obtain ⟨before, texts, next, after, rfl, hn, ho⟩ := hr.read values hv
    exact ⟨before, texts, next, after ++ [part], by simp, hn, ho⟩
  by_cases hs : Starts part
  · rw [addPart_starts hs] at h
    cases hc : c.current with
    | none =>
      rw [addParameter, hc] at h
      obtain rfl := Except.ok.inj h
      exact ⟨hread, by simp [hc]⟩
    | some values =>
      have hne : part ≠ [] := by
        rintro rfl
        obtain ⟨key, spaces, rest, he, -⟩ := hs
        simp at he
      rcases (addParameter_ok c values hc part).mp h with ⟨rfl, -⟩ | ⟨-, key, value, hw, hnew, rfl⟩
      · exact absurd rfl hne
      · refine ⟨hread, ?_⟩
        rintro _ ⟨⟩
        obtain ⟨before, texts, rfl, opening, others, name, first, rfl, hopens, hname, hvalues, hnodup⟩ :=
          hr.current values hc
        refine ⟨before, opening :: others ++ [part], by simp, opening, others ++ [part], name, first, rfl, hopens, hname,
          ?_, ?_⟩
        · rw [← List.append_assoc]
          exact List.rel_append hvalues (.cons ⟨key, rfl, hw⟩ .nil)
        · rw [List.map_append, List.map_singleton, List.nodup_append]
          refine ⟨hnodup, by simp, ?_⟩
          intro a ha b hb
          obtain ⟨entry, he, rfl⟩ := List.mem_map.mp ha
          rw [List.mem_singleton.mp hb]
          exact hnew entry he
  · obtain ⟨name, first, hopens, h⟩ := addPart_opens hs h
    -- The challenge that was being read has ended.
    have hclosed : ∀ values ∈ c.all, ∃ before texts next after, done ++ [part] = before ++ texts ++ next :: after ∧
        ¬Starts next ∧ Offer texts values := by
      intro values hv
      rcases List.mem_append.mp hv with hv | hv
      · exact hread values hv
      · obtain ⟨before, texts, rfl, ho⟩ := hr.current values (by simpa using hv)
        exact ⟨before, texts, part, [], by simp, hs, ho⟩
    by_cases hname : lower name = "digest".toList
    · rw [if_pos hname] at h
      rcases (addParameter_ok _ [] rfl first).mp h with ⟨rfl, rfl⟩ | ⟨hne, key, value, hw, -, rfl⟩
      · refine ⟨hclosed, ?_⟩
        rintro _ ⟨⟩
        exact ⟨done, [part], rfl, part, [], name, [], rfl, hopens, hname, by simp, by simp⟩
      · refine ⟨hclosed, ?_⟩
        rintro _ ⟨⟩
        refine ⟨done, [part], rfl, part, [], name, first, rfl, hopens, hname, ?_, by simp⟩
        rw [if_neg hne]
        exact .cons ⟨key, rfl, hw⟩ .nil
    · rw [if_neg hname, addParameter] at h
      obtain rfl := Except.ok.inj h
      exact ⟨hclosed, nofun⟩

theorem reads (parts : List (List Char)) (h : parts.foldlM addPart {} = .ok c) : Reads parts c := by
  induction parts using List.reverseRecOn generalizing c with
  | nil =>
    obtain rfl := Except.ok.inj h
    exact ⟨nofun, nofun⟩
  | append_singleton parts part ih =>
    rw [List.foldlM_append] at h
    obtain ⟨c', hc', h⟩ := except_bind_ok h
    rw [List.foldlM_cons] at h
    obtain ⟨c'', hc'', h⟩ := except_bind_ok h
    obtain rfl := Except.ok.inj h
    exact (ih hc').next hc''

-- The other direction

theorem addParameters (others : List (List Char)) {values more : Parameters} (c : Challenges) (hc : c.current = some values)
    (h : List.Forall₂ (fun text value => ∃ key, value.1 = lower key ∧ Written key value.2 text) others more)
    (hnodup : ((values ++ more).map (·.1)).Nodup) :
    others.foldlM addPart c = .ok { c with current := some (values ++ more) } := by
  induction h generalizing values c with
  | nil =>
    rw [List.append_nil, ← hc]
    rfl
  | @cons text value others more hw _ ih =>
    obtain ⟨key, hkey, hw⟩ := hw
    have hnew : ∀ entry ∈ values, entry.1 ≠ lower key := by
      intro entry he hsame
      rw [List.map_append, List.map_cons, List.nodup_append] at hnodup
      exact hnodup.2.2 _ (List.mem_map_of_mem he) _ List.mem_cons_self (hsame.trans hkey.symm)
    have hne : text ≠ [] := by
      rintro rfl
      obtain ⟨key, spaces, rest, he, -⟩ := hw.starts
      simp at he
    have hadd : addPart c text = .ok { c with current := some (values ++ [value]) } := by
      rw [addPart_starts hw.starts, addParameter_ok c values hc]
      exact .inr ⟨hne, key, value.2, hw, hnew, by rw [← hkey]⟩
    rw [List.foldlM_cons, hadd]
    have hrest := ih { c with current := some (values ++ [value]) } rfl (by simpa using hnodup)
    rw [List.append_assoc] at hrest
    exact hrest

theorem addOffer {texts : List (List Char)} (h : Offer texts values) (c : Challenges) :
    texts.foldlM addPart c = .ok { read := c.all, current := some values } := by
  obtain ⟨opening, others, name, first, rfl, hopens, hname, hvalues, hnodup⟩ := h
  rw [List.foldlM_cons, addPart_opened hopens, if_pos hname]
  by_cases hfirst : first = []
  · rw [if_pos hfirst] at hvalues
    rw [(addParameter_ok _ [] rfl first).mpr (.inl ⟨hfirst, rfl⟩)]
    exact @addParameters others [] values { read := c.all, current := some [] } rfl hvalues hnodup
  · rw [if_neg hfirst] at hvalues
    obtain ⟨value, rest, ⟨key, hkey, hw⟩, hrest, rfl⟩ := List.forall₂_cons_left_iff.mp hvalues
    rw [(addParameter_ok _ [] rfl first).mpr (.inr ⟨hfirst, key, value.2, hw, nofun, rfl⟩), ← hkey]
    exact @addParameters others [value] rest { read := c.all, current := some [value] } rfl hrest hnodup

theorem addPart_all (h : addPart c part = .ok c') : (∀ values ∈ c.read, values ∈ c'.read) ∧
    (¬Starts part → ∀ values ∈ c.all, values ∈ c'.read) := by
  have hkeep {c c' : Challenges} {text : List Char} (h : addParameter c text = .ok c') : c'.read = c.read := by
    unfold addParameter at h
    split at h
    · rw [← Except.ok.inj h]
    · split at h
      · rw [← Except.ok.inj h]
      · split at h
        · cases h
        · split at h
          · cases h
          · rw [← Except.ok.inj h]
  by_cases hs : Starts part
  · rw [addPart_starts hs] at h
    rw [hkeep h]
    exact ⟨fun _ hv => hv, fun hn => absurd hs hn⟩
  · obtain ⟨name, first, -, h⟩ := addPart_opens hs h
    rw [hkeep h]
    exact ⟨fun values hv => List.mem_append_left _ hv, fun _ values hv => hv⟩

theorem foldlM_read (parts : List (List Char)) (h : parts.foldlM addPart c = .ok c') (hv : values ∈ c.read) :
    values ∈ c'.read := by
  induction parts generalizing c with
  | nil =>
    obtain rfl := Except.ok.inj h
    exact hv
  | cons part parts ih =>
    rw [List.foldlM_cons] at h
    obtain ⟨c₁, hc₁, h⟩ := except_bind_ok h
    exact ih h ((addPart_all hc₁).1 values hv)

theorem foldlM_iff (parts : List (List Char)) (h : parts.foldlM addPart {} = .ok c) (values : Parameters) :
    values ∈ c.all ↔ Offers parts values := by
  constructor
  · intro hv
    have hr := reads parts h
    rcases List.mem_append.mp hv with hv | hv
    · obtain ⟨before, texts, next, after, he, hn, ho⟩ := hr.read values hv
      exact ⟨before, texts, next :: after, he, ho, by rintro _ ⟨⟩; exact hn⟩
    · obtain ⟨before, texts, he, ho⟩ := hr.current values (by simpa using hv)
      exact ⟨before, texts, [], by simpa using he, ho, nofun⟩
  · rintro ⟨before, texts, after, rfl, ho, hn⟩
    rw [List.append_assoc, List.foldlM_append] at h
    obtain ⟨c₁, -, h⟩ := except_bind_ok h
    rw [List.foldlM_append, addOffer ho] at h
    cases after with
    | nil =>
      obtain rfl := Except.ok.inj h
      exact List.mem_append_right _ (by simp)
    | cons next after =>
      change (next :: after).foldlM addPart { read := c₁.all, current := some values } = .ok c at h
      rw [List.foldlM_cons] at h
      obtain ⟨c₂, hc₂, h⟩ := except_bind_ok h
      have hin : values ∈ c₂.read := (addPart_all hc₂).2 (hn next rfl) values (List.mem_append_right _ (by simp))
      exact List.mem_append_left _ (foldlM_read after h hin)

def Holds (header : String) (values : Parameters) : Prop := ∃ parts, Parts header parts ∧ Offers parts values

theorem challengesOf_iff {header : String} (h : challengesOf header = .ok offered) (values : Parameters) :
    values ∈ offered ↔ Holds header values := by
  obtain ⟨parts, hparts, h⟩ := except_bind_ok h
  obtain ⟨c, hc, h⟩ := except_bind_ok h
  obtain rfl := Except.ok.inj h
  obtain ⟨hbounds, hp⟩ := (splitFields_iff header parts).mp hparts
  rw [foldlM_iff parts hc]
  constructor
  · exact fun ho => ⟨parts, hp, ho⟩
  · rintro ⟨parts', hp', ho⟩
    have hsame := (splitFields_iff header parts').mpr ⟨hbounds, hp'⟩
    rw [hparts] at hsame
    rwa [Except.ok.inj hsame]

end WotAv.Binding
