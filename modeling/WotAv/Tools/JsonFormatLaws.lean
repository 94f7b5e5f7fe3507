import WotAv.Tools.JsonWriting

/-!
# Strict JSON survives writing

Of an accepted text both writers keep the value, but for the decimals whose
exponent is zero, which `json_bytes` writes as integers. Formatting keeps the
tokens themselves.
-/

namespace WotAv.Tools

open WotAv.Lib
open Json (readChar codeUnit hexDigit)

-- What is accepted

variable {text rest : List Char}

theorem codeUnit_split {n : ℕ} (h : codeUnit text = some (n, rest)) :
    ∃ a b c d, text = a :: b :: c :: d :: rest ∧ ∀ x ∈ [a, b, c, d], (hexDigit x).isSome := by
  unfold codeUnit at h
  split at h
  · rename_i a b c d cs
    simp only [Option.bind_eq_bind, Option.bind_eq_some_iff] at h
    obtain ⟨x, hx, y, hy, z, hz, w, hw, h⟩ := h
    simp only [pure, Option.some.injEq, Prod.mk.injEq] at h
    exact ⟨a, b, c, d, by rw [← h.2], by simp [hx, hy, hz, hw]⟩
  · cases h

theorem hexDigit_line : (hexDigit '\n').isSome = false := by decide

theorem unit_line {n : ℕ} (h : codeUnit text = some (n, rest)) :
    ∃ before, text = before ++ rest ∧ '\n' ∉ before := by
  obtain ⟨a, b, c, d, rfl, hx⟩ := codeUnit_split h
  refine ⟨[a, b, c, d], rfl, fun hm => ?_⟩
  have := hx _ hm
  rw [hexDigit_line] at this
  contradiction

theorem readChar_line {c : Char} (h : readChar text = some (c, rest)) :
    ∃ before, text = before ++ rest ∧ '\n' ∉ before := by
  unfold readChar at h
  split at h
  · rename_i cs
    obtain ⟨⟨high, cs'⟩, hhigh, hnext⟩ := Option.bind_eq_some_iff.mp h
    obtain ⟨before, rfl, hline⟩ := unit_line hhigh
    simp only at hnext
    split at hnext
    · cases hnext
      exact ⟨'\\' :: 'u' :: before, rfl, by simp [hline]⟩
    · split at hnext
      · obtain ⟨⟨low, rest'⟩, hlow, hlast⟩ := Option.bind_eq_some_iff.mp hnext
        obtain ⟨before', rfl, hline'⟩ := unit_line hlow
        simp only at hlast
        split at hlast
        · simp only [Option.some.injEq, Prod.mk.injEq] at hlast
          obtain ⟨-, rfl⟩ := hlast
          exact ⟨'\\' :: 'u' :: (before ++ '\\' :: 'u' :: before'), by simp, by simp [hline, hline']⟩
        · cases hlast
      · cases hnext
  · cases h; exact ⟨['\\', 'b'], rfl, by decide⟩
  · cases h; exact ⟨['\\', 't'], rfl, by decide⟩
  · cases h; exact ⟨['\\', 'n'], rfl, by decide⟩
  · cases h; exact ⟨['\\', 'f'], rfl, by decide⟩
  · cases h; exact ⟨['\\', 'r'], rfl, by decide⟩
  · rename_i c' cs _ _ _ _ _ _
    split at h
    · rename_i hc
      cases h
      exact ⟨['\\', c], rfl, by rcases hc with rfl | rfl | rfl <;> decide⟩
    · cases h
  · cases h
  · split at h
    · cases h
    · rename_i hc
      cases h
      refine ⟨[c], rfl, ?_⟩
      rw [List.mem_singleton]
      rintro rfl
      exact hc (by decide)
  · cases h

theorem decodeLoop_line {fuel : ℕ} {content text : List Char} (h : decodeLoop fuel content = some text) :
    '\n' ∉ content := by
  induction fuel generalizing content text with
  | zero =>
    cases content with
    | nil => simp
    | cons c content => cases h
  | succ fuel ih =>
    cases content with
    | nil => simp
    | cons c content =>
      obtain ⟨⟨d, rest⟩, hread, h⟩ := Option.bind_eq_some_iff.mp h
      obtain ⟨text', htext, -⟩ := Option.bind_eq_some_iff.mp h
      obtain ⟨before, heq, hline⟩ := readChar_line hread
      rw [heq, List.mem_append, not_or]
      exact ⟨hline, ih htext⟩

theorem scanString_closed {text content rest : List Char} (h : scanString text = some (content, rest)) (after : List Char) :
    scanString (content ++ '"' :: after) = some (content, after) := by
  fun_induction scanString text generalizing content with
  | case1 rest => cases h; rfl
  | case2 c rest ih =>
    obtain ⟨⟨content', rest'⟩, hr, h⟩ := Option.map_eq_some_iff.mp h
    cases h
    simp only [List.cons_append, scanString, ih hr, Option.map_some]
  | case3 c rest hq hb ih =>
    obtain ⟨⟨content', rest'⟩, hr, h⟩ := Option.map_eq_some_iff.mp h
    cases h
    have hlone : c ≠ '\\' := by
      rintro rfl
      cases rest with
      | nil => cases hr
      | cons d rest => exact hb d rest rfl rfl
    rw [List.cons_append, scanString, ih hr]
    · rfl
    · exact hq
    · exact fun _ _ hc _ => hlone hc
  | case4 => cases h

def Token.Raw : Token → Prop
  | .punct c => isPunct c
  | .string content => ∀ rest, scanString (content ++ '"' :: rest) = some (content, rest)
  | .word text => text ≠ []
  | .bad => True

theorem lex_raw (text : List Char) : ∀ token ∈ lex text, token.Raw := by
  induction hn : text.length using Nat.strongRecOn generalizing text with
  | ind n ih =>
    subst hn
    cases text with
    | nil => simp
    | cons c rest =>
      rw [lex_cons]
      split
      · exact ih _ (by simp) rest rfl
      split
      · rename_i hp
        intro token ht
        rcases List.mem_cons.mp ht with rfl | ht
        · exact hp
        · exact ih _ (by simp) rest rfl token ht
      split
      · split
        · rename_i content rest' hs
          have hlen := congrArg List.length (scanString_length hs)
          simp only [List.length_append, List.length_cons] at hlen
          intro token ht
          rcases List.mem_cons.mp ht with rfl | ht
          · exact scanString_closed hs
          · exact ih _ (by rw [List.length_cons]; omega) rest' rfl token ht
        · intro token ht
          rw [List.mem_singleton.mp ht]
          trivial
      · intro token ht
        rcases List.mem_cons.mp ht with rfl | ht
        · exact List.cons_ne_nil _ _
        · refine ih _ ?_ _ rfl token ht
          have := List.length_dropWhile_le isWordChar rest
          rw [List.length_cons]
          omega

-- Scalars that are accepted

theorem someDigits_split {text digits rest : List Char} (h : someDigits text = some (digits, rest)) :
    text = digits ++ rest ∧ ∀ c ∈ digits, c.isDigit := by
  unfold someDigits at h
  split at h
  · cases h
  · cases h
    exact ⟨(List.takeWhile_append_dropWhile).symm, fun c hc => List.mem_takeWhile_imp hc⟩

theorem digit_text {c : Char} (h : c.isDigit) : isWordText c := by simp [isWordText, Char.isAlphanum, h]

theorem readFraction_text {text fraction rest : List Char} (h : readFraction text = some (fraction, rest)) :
    ∃ before, text = before ++ rest ∧ ∀ c ∈ before, isWordText c := by
  unfold readFraction at h
  split at h
  · obtain ⟨rfl, hd⟩ := someDigits_split h
    refine ⟨'.' :: fraction, rfl, fun c hc => ?_⟩
    rcases List.mem_cons.mp hc with rfl | hc
    · rfl
    · exact digit_text (hd c hc)
  · cases h
    exact ⟨[], rfl, by simp⟩

theorem readSigned_text {e : ℤ} (h : readSigned text = some (e, rest)) :
    ∃ before, text = before ++ rest ∧ ∀ c ∈ before, isWordText c := by
  have signed : ∀ (c : Char) (cs : List Char), isWordText c → ∀ f : List Char × List Char → ℤ × List Char,
      (∀ p, (f p).2 = p.2) → (someDigits cs).map f = some (e, rest) →
      ∃ before, c :: cs = before ++ rest ∧ ∀ d ∈ before, isWordText d := by
    intro c cs hc f hf h
    obtain ⟨⟨digits, rest'⟩, hd, hsome⟩ := Option.map_eq_some_iff.mp h
    obtain ⟨rfl, hdigits⟩ := someDigits_split hd
    have hrest := hf (digits, rest')
    rw [hsome] at hrest
    obtain rfl : rest = rest' := hrest
    refine ⟨c :: digits, rfl, fun d hm => ?_⟩
    rcases List.mem_cons.mp hm with rfl | hm
    · exact hc
    · exact digit_text (hdigits d hm)
  unfold readSigned at h
  split at h
  · exact signed '-' _ rfl _ (fun _ => rfl) h
  · exact signed '+' _ rfl _ (fun _ => rfl) h
  · obtain ⟨⟨digits, rest'⟩, hd, h⟩ := Option.map_eq_some_iff.mp h
    cases h
    obtain ⟨rfl, hdigits⟩ := someDigits_split hd
    exact ⟨digits, rfl, fun d hm => digit_text (hdigits d hm)⟩

theorem readExponent_text {e : ℤ} (h : readExponent? text = some (e, rest)) :
    ∃ before, text = before ++ rest ∧ ∀ c ∈ before, isWordText c := by
  have marked : ∀ (c : Char) (cs : List Char), isWordText c → readSigned cs = some (e, rest) →
      ∃ before, c :: cs = before ++ rest ∧ ∀ d ∈ before, isWordText d := by
    intro c cs hc h
    obtain ⟨before, rfl, hb⟩ := readSigned_text h
    refine ⟨c :: before, rfl, fun d hd => ?_⟩
    rcases List.mem_cons.mp hd with rfl | hd
    · exact hc
    · exact hb d hd
  unfold readExponent? at h
  split at h
  · exact marked 'e' _ rfl h
  · exact marked 'E' _ rfl h
  · cases h
    exact ⟨[], rfl, by simp⟩

variable {text : List Char}

theorem unsignedNumeral_text {negative : Bool} {n : Numeral}
    (h : unsignedNumeral negative text = some n) : ∀ c ∈ text, isWordText c := by
  obtain ⟨⟨whole, rest⟩, hwhole, hrest⟩ := Option.bind_eq_some_iff.mp h
  obtain ⟨rfl, hdigits⟩ := someDigits_split hwhole
  simp only at hrest
  split at hrest
  · cases hrest
  · obtain ⟨⟨fraction, rest'⟩, hfraction, hrest⟩ := Option.bind_eq_some_iff.mp hrest
    obtain ⟨⟨e, rest''⟩, hexp, hend⟩ := Option.bind_eq_some_iff.mp hrest
    obtain ⟨before, rfl, hb⟩ := readFraction_text hfraction
    obtain ⟨before', rfl, hb'⟩ := readExponent_text hexp
    simp only at hend
    split at hend
    · rename_i hnil
      subst hnil
      intro c hc
      simp only [List.mem_append, List.not_mem_nil, or_false] at hc
      rcases hc with hc | hc | hc
      · exact digit_text (hdigits c hc)
      · exact hb c hc
      · exact hb' c hc
    · cases hend

theorem numeral_text {n : Numeral} (h : numeral text = some n) : ∀ c ∈ text, isWordText c := by
  unfold numeral at h
  split at h
  · intro c hc
    rcases List.mem_cons.mp hc with rfl | hc
    · rfl
    · exact unsignedNumeral_text h c hc
  · exact unsignedNumeral_text h

-- Values that are accepted

mutual
def numbersOf : Value → List Number
  | .object members => numbersOfMembers members
  | .array items => numbersOfItems items
  | .number value => [value]
  | .string _ => []
  | .bool _ => []
  | .null => []
def numbersOfItems : List Value → List Number
  | [] => []
  | item :: items => numbersOf item ++ numbersOfItems items
def numbersOfMembers : List (String × Value) → List Number
  | [] => []
  | (_, value) :: members => numbersOf value ++ numbersOfMembers members
end

def tokenNumber : Token → Option Number
  | .word text =>
    match numeral text with
    | some n => (number text n).toOption
    | none => none
  | _ => none

def numbersIn (tokens : List Token) : List Number := tokens.filterMap tokenNumber

variable {v : Value}

theorem scalar_ok (h : scalar text = .ok v) :
    (∀ c ∈ text, isWordText c) ∧ v.Distinct ∧ numbersOf v = numbersIn [.word text] := by
  unfold scalar at h
  split at h
  · rename_i ht
    cases h
    rw [ht]
    exact ⟨by decide, trivial, by rw [numbersOf]; decide⟩
  split at h
  · rename_i ht
    cases h
    rw [ht]
    exact ⟨by decide, trivial, by rw [numbersOf]; decide⟩
  split at h
  · rename_i ht
    cases h
    rw [ht]
    exact ⟨by decide, trivial, by rw [numbersOf]; decide⟩
  split at h
  · rename_i n hn
    obtain ⟨value, hvalue, h⟩ := except_bind_ok h
    cases h
    refine ⟨numeral_text hn, trivial, ?_⟩
    simp [numbersOf, numbersIn, tokenNumber, hn, hvalue, Except.toOption]
  · split at h <;> cases h

theorem spaced_append {a b : List Token} (ha : Spaced a) (hb : Spaced b) (h : ∀ next ∈ b.head?, ¬next.IsAtom) :
    Spaced (a ++ b) := by
  induction a with
  | nil => exact hb
  | cons token a ih =>
    obtain ⟨hplain, hnext, hrest⟩ := ha
    refine ⟨hplain, fun hatom next hn => ?_, ih hrest⟩
    cases a with
    | nil => exact h next hn
    | cons token' a => exact hnext hatom next hn

theorem spaced_punct {c : Char} {tokens : List Token} (hc : isPunct c) (h : Spaced tokens) : Spaced (.punct c :: tokens) :=
  ⟨hc, fun h => absurd h id, h⟩

theorem pairsLoop_ok {values result members : List (String × Value)} (h : pairsLoop result values = .ok members)
    (hr : (result.map (·.1)).Nodup) : members = result ++ values ∧ (members.map (·.1)).Nodup := by
  induction values generalizing result with
  | nil =>
    cases h
    exact ⟨by simp, hr⟩
  | cons member values ih =>
    obtain ⟨key, value⟩ := member
    rw [pairsLoop] at h
    split at h
    · cases h
    · rename_i hkey
      obtain ⟨rfl, hm⟩ := ih h (by
        rw [List.map_append, List.nodup_append]
        exact ⟨hr, by simp, by simpa using fun k v hm hk => hkey (List.mem_map.mpr ⟨(k, v), hm, hk⟩)⟩)
      exact ⟨by simp, hm⟩

theorem numbersIn_append (a b : List Token) : numbersIn (a ++ b) = numbersIn a ++ numbersIn b := List.filterMap_append

/-- What parsing takes off the front of the tokens. -/
def Taken (tokens rest : List Token) (numbers : List Number) : Prop :=
  ∃ before, tokens = before ++ rest ∧ Spaced before ∧ numbers = numbersIn before

variable {tokens rest : List Token}

theorem Taken.punct {c : Char} {numbers : List Number} (hc : isPunct c)
    (h : Taken tokens rest numbers) : Taken (.punct c :: tokens) rest numbers := by
  obtain ⟨before, rfl, hs, rfl⟩ := h
  exact ⟨.punct c :: before, rfl, spaced_punct hc hs, rfl⟩

theorem Taken.single (c : Char) (hc : isPunct c) (rest : List Token) : Taken (.punct c :: rest) rest [] :=
  ⟨[.punct c], rfl, spaced_punct hc trivial, rfl⟩

theorem Taken.append {c : Char} {tokens middle rest : List Token} {first second : List Number}
    (h : Taken tokens (.punct c :: middle) first) (h' : Taken (.punct c :: middle) rest second) : Taken tokens rest (first ++ second) := by
  obtain ⟨before, rfl, hs, rfl⟩ := h
  obtain ⟨before', heq, hs', rfl⟩ := h'
  refine ⟨before ++ before', by rw [List.append_assoc, ← heq], spaced_append hs hs' fun next hn => ?_, (numbersIn_append _ _).symm⟩
  cases before' with
  | nil => cases hn
  | cons token before' =>
    rw [← Option.some.inj hn, ← (List.cons.inj heq).1]
    exact id

theorem Taken.raw {numbers : List Number} (h : Taken tokens rest numbers)
    (hraw : ∀ token ∈ tokens, token.Raw) : ∀ token ∈ rest, token.Raw := by
  obtain ⟨before, rfl, -, -⟩ := h
  exact fun token ht => hraw token (List.mem_append_right _ ht)

theorem string_plain {content : List Char} {text : String} (hraw : Token.Raw (.string content))
    (h : decodeString content = .ok text) : Token.Plain (.string content) := by
  unfold decodeString at h
  split at h
  · rename_i hdecode
    exact ⟨decodeLoop_line hdecode, hraw⟩
  · cases h

structure Sound (fuel : ℕ) : Prop where
  value : ∀ tokens v rest, (∀ token ∈ tokens, token.Raw) → parseValue fuel tokens = .ok (v, rest) →
    v.Distinct ∧ Taken tokens rest (numbersOf v)
  items : ∀ tokens items rest, (∀ token ∈ tokens, token.Raw) → parseItems fuel tokens = .ok (items, rest) →
    Json.DistinctItems items ∧ Taken tokens rest (numbersOfItems items)
  members : ∀ tokens members rest, (∀ token ∈ tokens, token.Raw) → parseMembers fuel tokens = .ok (members, rest) →
    Json.DistinctMembers members ∧ Taken tokens rest (numbersOfMembers members)

theorem sound_value {fuel : ℕ} (ih : Sound fuel)
    (hraw : ∀ token ∈ tokens, token.Raw) (h : parseValue (fuel + 1) tokens = .ok (v, rest)) :
    v.Distinct ∧ Taken tokens rest (numbersOf v) := by
  rw [parseValue.eq_def] at h
  split at h
  · rename_i fuel' tokens hfuel
    obtain rfl := Nat.succ.inj hfuel
    have hraw' := fun token ht => hraw token (List.mem_cons_of_mem _ ht)
    split at h
    · cases h
      exact ⟨⟨List.nodup_nil, trivial⟩, .punct rfl (.single '}' rfl rest)⟩
    · obtain ⟨⟨values, rest'⟩, hvalues, h⟩ := except_bind_ok h
      obtain ⟨members, hpairs, h⟩ := except_bind_ok h
      cases h
      obtain ⟨hd, ht⟩ := ih.members _ _ _ hraw' hvalues
      obtain ⟨rfl, hnodup⟩ := pairsLoop_ok hpairs List.nodup_nil
      exact ⟨⟨hnodup, hd⟩, .punct rfl ht⟩
  · rename_i fuel' tokens hfuel
    obtain rfl := Nat.succ.inj hfuel
    have hraw' := fun token ht => hraw token (List.mem_cons_of_mem _ ht)
    split at h
    · cases h
      exact ⟨trivial, .punct rfl (.single ']' rfl rest)⟩
    · obtain ⟨⟨items, rest'⟩, hitems, h⟩ := except_bind_ok h
      cases h
      obtain ⟨hd, ht⟩ := ih.items _ _ _ hraw' hitems
      exact ⟨hd, .punct rfl ht⟩
  · rename_i content tokens hfuel
    obtain ⟨text, htext, h⟩ := except_bind_ok h
    cases h
    exact ⟨trivial, [.string content], rfl, ⟨string_plain (hraw _ (by simp)) htext, by simp, trivial⟩, rfl⟩
  · rename_i text tokens hfuel
    obtain ⟨value, hvalue, h⟩ := except_bind_ok h
    cases h
    obtain ⟨hchars, hd, hn⟩ := scalar_ok hvalue
    exact ⟨hd, [.word text], rfl, ⟨⟨hraw (.word text) (by simp), hchars⟩, by simp, trivial⟩, hn⟩
  · cases h

theorem sound_items {fuel : ℕ} (ih : Sound fuel) {items : List Value}
    (hraw : ∀ token ∈ tokens, token.Raw) (h : parseItems (fuel + 1) tokens = .ok (items, rest)) :
    Json.DistinctItems items ∧ Taken tokens rest (numbersOfItems items) := by
  rw [parseItems] at h
  obtain ⟨⟨item, middle⟩, hitem, h⟩ := except_bind_ok h
  obtain ⟨hd, ht⟩ := ih.value _ _ _ hraw hitem
  have hraw' := ht.raw hraw
  simp only at h hraw'
  split at h
  · cases h
    exact ⟨⟨hd, trivial⟩, ht.append (.single ']' rfl _)⟩
  · rename_i middle
    obtain ⟨⟨others, rest'⟩, hothers, h⟩ := except_bind_ok h
    cases h
    obtain ⟨hd', ht'⟩ := ih.items _ _ _ (fun token hm => hraw' token (List.mem_cons_of_mem _ hm)) hothers
    exact ⟨⟨hd, hd'⟩, ht.append (ht'.punct rfl)⟩
  · cases h

theorem sound_members {fuel : ℕ} (ih : Sound fuel) {members : List (String × Value)}
    (hraw : ∀ token ∈ tokens, token.Raw) (h : parseMembers (fuel + 1) tokens = .ok (members, rest)) :
    Json.DistinctMembers members ∧ Taken tokens rest (numbersOfMembers members) := by
  rw [parseMembers.eq_def] at h
  split at h
  · rename_i fuel' content tokens hfuel
    obtain rfl := Nat.succ.inj hfuel
    obtain ⟨key, hkey, h⟩ := except_bind_ok h
    obtain ⟨⟨value, middle⟩, hvalue, h⟩ := except_bind_ok h
    have hname : ∀ {middle : List Token} {numbers : List Number}, Taken tokens middle numbers →
        Taken (.string content :: .punct ':' :: tokens) middle numbers := by
      rintro middle numbers ⟨before, rfl, hs, rfl⟩
      exact ⟨.string content :: .punct ':' :: before, rfl,
        ⟨string_plain (hraw _ (by simp)) hkey, by simp [Token.IsAtom], spaced_punct rfl hs⟩, rfl⟩
    obtain ⟨hd, ht⟩ := ih.value _ _ _ (fun token hm => hraw token (by simp [hm])) hvalue
    have hraw' := (hname ht).raw hraw
    simp only at h hraw'
    split at h
    · cases h
      exact ⟨⟨hd, trivial⟩, hname (ht.append (.single '}' rfl _))⟩
    · rename_i middle
      obtain ⟨⟨others, rest'⟩, hothers, h⟩ := except_bind_ok h
      cases h
      obtain ⟨hd', ht'⟩ := ih.members _ _ _ (fun token hm => hraw' token (List.mem_cons_of_mem _ hm)) hothers
      exact ⟨⟨hd, hd'⟩, hname (ht.append (ht'.punct rfl))⟩
    · cases h
  · cases h

theorem parse_sound (fuel : ℕ) : Sound fuel := by
  induction fuel with
  | zero =>
    refine ⟨?_, ?_, ?_⟩
    · intro tokens v rest _ h
      rw [parseValue.eq_def] at h
      cases h
    · intro tokens items rest _ h
      rw [parseItems] at h
      cases h
    · intro tokens members rest _ h
      rw [parseMembers.eq_def] at h
      cases h
  | succ fuel ih =>
    exact ⟨fun _ _ _ hraw h => sound_value ih hraw h, fun _ _ _ hraw h => sound_items ih hraw h,
      fun _ _ _ hraw h => sound_members ih hraw h⟩

theorem loads_sound (h : loads text = .ok v) :
    v.Distinct ∧ Spaced (lex text) ∧ numbersOf v = numbersIn (lex text) := by
  obtain ⟨⟨value, rest⟩, hvalue, h⟩ := except_bind_ok h
  simp only at h
  split at h
  · rename_i hrest
    cases h
    subst hrest
    obtain ⟨hd, before, hbefore, hs, hn⟩ := (parse_sound _).value _ _ _ (lex_raw text) hvalue
    rw [List.append_nil] at hbefore
    rw [hbefore]
    exact ⟨hd, hs, hn⟩
  · cases h

-- The JSON domain

mutual
theorem budgeted_of_checked : ∀ (value : Value) (depth : ℕ), check_json_domain depth value = .ok () → Budgeted value
  | .object members, depth, h => by
    rw [check_json_domain] at h
    obtain ⟨_, _, h⟩ := except_bind_ok h
    exact budgeted_members members _ h
  | .array items, depth, h => by
    rw [check_json_domain] at h
    obtain ⟨_, _, h⟩ := except_bind_ok h
    exact budgeted_items items _ h
  | .number value, depth, h => by
    rw [check_json_domain] at h
    obtain ⟨_, _, h⟩ := except_bind_ok h
    exact h
  | .string _, _, _ => trivial
  | .bool _, _, _ => trivial
  | .null, _, _ => trivial
theorem budgeted_items : ∀ (items : List Value) (depth : ℕ), checkItems depth items = .ok () → BudgetedItems items
  | [], _, _ => trivial
  | item :: items, depth, h => by
    rw [checkItems] at h
    obtain ⟨_, hitem, h⟩ := except_bind_ok h
    exact ⟨budgeted_of_checked item _ hitem, budgeted_items items _ h⟩
theorem budgeted_members : ∀ (members : List (String × Value)) (depth : ℕ), checkMembers depth members = .ok () →
    BudgetedMembers members
  | [], _, _ => trivial
  | (_, value) :: members, depth, h => by
    rw [checkMembers] at h
    obtain ⟨_, hvalue, h⟩ := except_bind_ok h
    exact ⟨budgeted_of_checked value _ hvalue, budgeted_members members _ h⟩
end

mutual
theorem map_eq_self (f : Number → Number) : ∀ v : Value, v.map f = v ↔ ∀ n ∈ numbersOf v, f n = n
  | .object members => by
    rw [Json.map, Json.object.injEq, numbersOf]
    exact mapMembers_eq_self f members
  | .array items => by
    rw [Json.map, Json.array.injEq, numbersOf]
    exact mapItems_eq_self f items
  | .number value => by simp [Json.map, numbersOf]
  | .string _ => by simp [Json.map, numbersOf]
  | .bool _ => by simp [Json.map, numbersOf]
  | .null => by simp [Json.map, numbersOf]
theorem mapItems_eq_self (f : Number → Number) : ∀ items : List Value,
    Json.mapItems f items = items ↔ ∀ n ∈ numbersOfItems items, f n = n
  | [] => by simp [Json.mapItems, numbersOfItems]
  | item :: items => by
    rw [Json.mapItems, List.cons.injEq, map_eq_self f item, mapItems_eq_self f items, numbersOfItems]
    simp only [List.mem_append, or_imp, forall_and]
theorem mapMembers_eq_self (f : Number → Number) : ∀ members : List (String × Value),
    Json.mapMembers f members = members ↔ ∀ n ∈ numbersOfMembers members, f n = n
  | [] => by simp [Json.mapMembers, numbersOfMembers]
  | (key, value) :: members => by
    rw [Json.mapMembers, List.cons.injEq, Prod.mk.injEq, map_eq_self f value, mapMembers_eq_self f members,
      numbersOfMembers]
    simp only [true_and, List.mem_append, or_imp, forall_and]
end

/-- No token is a decimal whose exponent is zero: one with a fraction or an
exponent, and as many digits after its point as its exponent says. -/
def NoWhole (tokens : List Token) : Prop := ∀ d, .decimal d ∈ numbersIn tokens → d.exponent ≠ 0

theorem reread_eq (n : Number) : n.reread = n ↔ ∀ d, n = .decimal d → d.exponent ≠ 0 := by
  cases n with
  | integer n => simp [Number.reread]
  | decimal d =>
    simp only [Number.reread, Number.decimal.injEq, forall_eq']
    split
    · rename_i h
      simp [h]
    · rename_i h
      simp [h]

theorem reread_all (numbers : List Number) :
    (∀ n ∈ numbers, n.reread = n) ↔ ∀ d, .decimal d ∈ numbers → d.exponent ≠ 0 := by
  simp only [reread_eq]
  exact ⟨fun h d hd => h _ hd d rfl, fun h n hn d hd => h d (hd ▸ hn)⟩

-- Bytes

theorem decode_utf8Bytes (text : List Char) : (Source.bytes (utf8Bytes text)).decode = .ok text := by
  have hencode : (utf8Bytes text).toByteArray = text.utf8Encode := rfl
  rw [Source.decode, hencode, List.utf8Decode?_utf8Encode]

theorem length_utf8Bytes (text : List Char) : text.length ≤ (utf8Bytes text).length := by
  induction text with
  | nil => exact Nat.zero_le _
  | cons c text ih =>
    have hpos := Char.utf8Size_pos c
    rw [utf8Bytes, List.flatMap_cons, List.length_append, String.length_utf8EncodeChar, List.length_cons]
    change _ ≤ c.utf8Size + (utf8Bytes text).length
    omega

theorem strict_json_ok {source : Source} : strict_json source = .ok v ↔
    source.length ≤ MAX_JSON_BYTES ∧ ∃ text, source.decode = .ok text ∧ loads text = .ok v ∧
      check_json_domain 0 v = .ok () := by
  constructor
  · intro h
    unfold strict_json at h
    split at h
    · cases h
    · rename_i hlen
      obtain ⟨text, htext, h⟩ := except_bind_ok h
      obtain ⟨value, hvalue, h⟩ := except_bind_ok h
      obtain ⟨_, hcheck, h⟩ := except_bind_ok h
      cases h
      exact ⟨Nat.le_of_not_lt hlen, text, htext, hvalue, hcheck⟩
  · rintro ⟨hlen, text, htext, hvalue, hcheck⟩
    unfold strict_json
    rw [if_neg (Nat.not_lt.mpr hlen), htext]
    simp only [Bind.bind, Except.bind, hvalue, hcheck]

-- Both writers

def written (v : Value) : Bytes := utf8Bytes (encode 0 v ++ ['\n'])

theorem strict_json_written (hd : v.Distinct) (hcheck : check_json_domain 0 v = .ok ())
    (hlen : (written v).length ≤ MAX_JSON_BYTES) : strict_json (.bytes (written v)) = .ok v ↔ v.map Number.reread = v := by
  have hloads := loads_encode hd (budgeted_of_checked v 0 hcheck)
  have hdecode : (Source.bytes (written v)).decode = .ok (encode 0 v ++ ['\n']) := decode_utf8Bytes _
  rw [strict_json_ok]
  constructor
  · rintro ⟨-, text, htext, hvalue, -⟩
    rw [hdecode] at htext
    obtain rfl := Except.ok.inj htext
    rw [hloads] at hvalue
    exact Except.ok.inj hvalue
  · intro hmap
    exact ⟨hlen, _, hdecode, by rw [hloads, hmap], hcheck⟩

theorem loads_congr {text text' : List Char} (h : lex text = lex text') : loads text = loads text' := by
  rw [loads, loads, h]

theorem format_json_ok {source : Source} (h : strict_json source = .ok v)
    (htext : source.decode = .ok text) (hlen : (utf8Bytes (formatted text)).length ≤ MAX_JSON_BYTES) :
    format_json source = .ok (utf8Bytes (formatted text)) ∧ lex (formatted text) = lex text ∧
      strict_json (.bytes (utf8Bytes (formatted text))) = .ok v := by
  obtain ⟨-, text', htext', hloads, hcheck⟩ := strict_json_ok.mp h
  obtain rfl := Except.ok.inj (htext.symm.trans htext')
  obtain ⟨-, hspaced, -⟩ := loads_sound hloads
  have hlex := lex_formatted hspaced (findall_lex text hspaced)
  have hagain : loads (formatted text) = .ok v := (loads_congr hlex).trans hloads
  have hchars : strict_json (.text (formatted text)) = .ok v :=
    strict_json_ok.mpr ⟨Nat.le_trans (length_utf8Bytes _) hlen, _, rfl, hagain, hcheck⟩
  refine ⟨?_, hlex, strict_json_ok.mpr ⟨hlen, _, decode_utf8Bytes _, hagain, hcheck⟩⟩
  unfold format_json
  rw [h]
  simp only [Bind.bind, Except.bind, htext, hchars]

theorem formatted_again (h : Spaced (lex text)) : formatted (formatted text) = formatted text := by
  have hlex := lex_formatted h (findall_lex text h)
  have hfind : findall (formatted text) = findall text := by
    rw [findall_lex text h, findall_lex (formatted text) (hlex ▸ h), hlex]
  unfold formatted at hfind ⊢
  rw [hfind]

/-- Both writers keep what was accepted: `json_bytes` the value, `format_json`
the tokens, too, and what it gives it does not change. Each is read again within
the byte limit. -/
structure Survives (source : Source) (v : Value) : Prop where
  bytes_kept : ∃ out, json_bytes v = .ok out ∧ (out.length ≤ MAX_JSON_BYTES → strict_json (.bytes out) = .ok v)
  format_kept : ∀ text, source.decode = .ok text → (utf8Bytes (formatted text)).length ≤ MAX_JSON_BYTES →
    ∃ out, format_json source = .ok out ∧ (Source.bytes out).decode = .ok (formatted text) ∧
      lex (formatted text) = lex text ∧ strict_json (.bytes out) = .ok v ∧ format_json (.bytes out) = .ok out

theorem json_bytes_ok (h : check_json_domain 0 v = .ok ()) : json_bytes v = .ok (written v) := by
  unfold json_bytes
  simp only [h, Bind.bind, Except.bind]
  rfl

theorem survives_accepted {source : Source} (h : strict_json source = .ok v)
    (htext : source.decode = .ok text) :
    Survives source v ↔ ((written v).length ≤ MAX_JSON_BYTES → NoWhole (lex text)) := by
  obtain ⟨-, text', htext', hloads, hcheck⟩ := strict_json_ok.mp h
  obtain rfl := Except.ok.inj (htext.symm.trans htext')
  obtain ⟨hd, hspaced, hnumbers⟩ := loads_sound hloads
  have hkept : v.map Number.reread = v ↔ NoWhole (lex text) := by
    rw [map_eq_self, hnumbers, reread_all]
    rfl
  constructor
  · rintro ⟨⟨out, hout, hread⟩, -⟩ hlen
    rw [json_bytes_ok hcheck] at hout
    obtain rfl := Except.ok.inj hout
    exact hkept.mp ((strict_json_written hd hcheck hlen).mp (hread hlen))
  · intro hwhole
    refine ⟨⟨_, json_bytes_ok hcheck, fun hlen => (strict_json_written hd hcheck hlen).mpr (hkept.mpr (hwhole hlen))⟩, ?_⟩
    intro text' ht hlen
    obtain rfl := Except.ok.inj (ht.symm.trans htext)
    obtain ⟨hformat, hlex, hstrict⟩ := format_json_ok h htext hlen
    have hagain := formatted_again hspaced
    obtain ⟨hformat', -, -⟩ := format_json_ok hstrict (decode_utf8Bytes _) (by rw [hagain]; exact hlen)
    rw [hagain] at hformat'
    exact ⟨_, hformat, decode_utf8Bytes _, hlex, hstrict, hformat'⟩

/-- Strict JSON survives writing iff no decimal of the text has a zero exponent. -/
theorem survives_writing (source : Source) :
    (∀ v, strict_json source = .ok v → Survives source v) ↔
      ∀ v text, strict_json source = .ok v → source.decode = .ok text → (written v).length ≤ MAX_JSON_BYTES →
        NoWhole (lex text) := by
  constructor
  · intro h v text hv htext
    exact (survives_accepted hv htext).mp (h v hv)
  · intro h v hv
    obtain ⟨-, text, htext, -⟩ := strict_json_ok.mp hv
    exact (survives_accepted hv htext).mpr (h v text hv htext)

/-- `1e0` is written as `1`, which is read as an integer. -/
theorem writing_loses : ¬∀ v, strict_json (.text "1e0".toList) = .ok v → Survives (.text "1e0".toList) v := by
  intro h
  have haccepted : strict_json (.text "1e0".toList) = .ok (.number (.decimal ⟨false, 1, 0⟩)) := by rfl
  have hwhole := (survives_accepted haccepted rfl).mp (h _ haccepted)
  exact hwhole (by decide) ⟨false, 1, 0⟩ (by decide) rfl

end WotAv.Tools
