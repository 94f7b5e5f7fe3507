import WotAv.Tools.JsonFormat

/-!
# The tokens of JSON texts

What the lexer reads off the front of a text, and that formatting a list of
tokens changes nothing but the space between them.
-/

namespace WotAv.Tools

open WotAv.Lib
open Json (isSpace)

-- The lexer

variable {text content rest : List Char}

theorem scanString_length (h : scanString text = some (content, rest)) :
    text = content ++ '"' :: rest := by
  fun_induction scanString text generalizing content with
  | case1 rest => cases h; rfl
  | case2 c rest ih =>
    obtain ⟨⟨content', rest'⟩, hr, h⟩ := Option.map_eq_some_iff.mp h
    cases h
    rw [ih hr]
    rfl
  | case3 c rest _ _ ih =>
    obtain ⟨⟨content', rest'⟩, hr, h⟩ := Option.map_eq_some_iff.mp h
    cases h
    rw [ih hr]
    rfl
  | case4 => cases h

theorem loop_fuel {β : Type} {loop : ℕ → List Char → β} (hnil : ∀ fuel, loop fuel [] = loop 0 [])
    (hstep : ∀ (c : Char) (rest : List Char) (fuel fuel' : ℕ),
      (∀ text : List Char, text.length ≤ rest.length → loop fuel text = loop fuel' text) →
      loop (fuel + 1) (c :: rest) = loop (fuel' + 1) (c :: rest))
    (fuel : ℕ) (text : List Char) (h : text.length ≤ fuel) : loop fuel text = loop text.length text := by
  induction fuel using Nat.strongRecOn generalizing text with
  | ind fuel ih =>
    cases text with
    | nil => exact hnil fuel
    | cons c rest =>
      rw [List.length_cons] at h
      obtain ⟨fuel, rfl⟩ : ∃ k, fuel = k + 1 := ⟨fuel - 1, by omega⟩
      refine hstep c rest fuel rest.length fun text hl => ?_
      rw [ih fuel (by omega) text (by omega)]
      by_cases hlt : rest.length = fuel
      · rw [hlt, ih fuel (by omega) text (by omega)]
      · rw [ih rest.length (by omega) text hl]

theorem lexLoop_fuel (fuel : ℕ) (text : List Char) (h : text.length ≤ fuel) : lexLoop fuel text = lex text := by
  refine loop_fuel (fun fuel => by cases fuel <;> rfl) (fun c rest fuel fuel' same => ?_) fuel text h
  rw [lexLoop, lexLoop, same rest (Nat.le_refl _)]
  split
  · rfl
  split
  · rfl
  split
  · cases hs : scanString rest with
    | none => rfl
    | some r =>
      have hlen := congrArg List.length (scanString_length hs)
      simp only [List.length_append, List.length_cons] at hlen
      simp only [same r.2 (by omega)]
  · rw [same _ (List.length_dropWhile_le _ _)]

@[simp] theorem lex_nil : lex [] = [] := rfl

theorem lex_cons (c : Char) (rest : List Char) : lex (c :: rest) =
    if isSpace c then lex rest
    else if isPunct c then .punct c :: lex rest
    else if c = '"' then
      match scanString rest with
      | some (content, rest) => .string content :: lex rest
      | none => [.bad]
    else .word (c :: rest.takeWhile isWordChar) :: lex (rest.dropWhile isWordChar) := by
  rw [lex, List.length_cons, lexLoop, lexLoop_fuel _ _ (Nat.le_refl _), lexLoop_fuel _ _ (List.length_dropWhile_le _ _)]
  split
  · rfl
  split
  · rfl
  split
  · cases hs : scanString rest with
    | none => rfl
    | some r =>
      have hlen := congrArg List.length (scanString_length hs)
      simp only [List.length_append, List.length_cons] at hlen
      simp only [lexLoop_fuel rest.length r.2 (by omega)]
  · rfl

variable {c : Char}

theorem lex_space (h : isSpace c) (rest : List Char) : lex (c :: rest) = lex rest := by
  rw [lex_cons, if_pos h]

theorem lex_spaces {space : List Char} (h : ∀ c ∈ space, isSpace c) (rest : List Char) :
    lex (space ++ rest) = lex rest := by
  induction space with
  | nil => rfl
  | cons c space ih => rw [List.cons_append, lex_space (h c (by simp)), ih fun d hd => h d (by simp [hd])]

theorem punct_not_space (h : isPunct c) : isSpace c = false := by
  simp only [isPunct, Bool.or_eq_true, decide_eq_true_eq] at h
  rcases h with ((((rfl | rfl) | rfl) | rfl) | rfl) | rfl <;> decide

theorem lex_punct (h : isPunct c) (rest : List Char) : lex (c :: rest) = .punct c :: lex rest := by
  rw [lex_cons, punct_not_space h, if_neg (by simp), if_pos h]

theorem lex_string (h : scanString text = some (content, rest)) :
    lex ('"' :: text) = .string content :: lex rest := by
  rw [lex_cons, if_neg (by decide), if_neg (by decide), if_pos rfl, h]

/-- What a word can be followed by, if it is to end where it does. -/
def EndsWord (rest : List Char) : Prop := ∀ c ∈ rest.head?, isWordChar c = false

theorem lex_word {word rest : List Char} (hne : word ≠ []) (hw : ∀ c ∈ word, isWordChar c) (hr : EndsWord rest) :
    lex (word ++ rest) = .word word :: lex rest := by
  obtain ⟨c, cs, rfl⟩ := List.exists_cons_of_ne_nil hne
  have hc := hw c (by simp)
  simp only [isWordChar, Bool.and_eq_true, Bool.not_eq_true', bne_iff_ne] at hc
  have hstop : rest.takeWhile isWordChar = [] ∧ rest.dropWhile isWordChar = rest := by
    cases rest with
    | nil => exact ⟨rfl, rfl⟩
    | cons d rest =>
      have hd := hr d rfl
      simp [hd]
  have hcs : ∀ d ∈ cs, isWordChar d = true := fun d hd => hw d (by simp [hd])
  rw [List.cons_append, lex_cons, if_neg (by simp [hc.1.1]), if_neg (by simp [hc.1.2]), if_neg hc.2,
    List.takeWhile_append_of_pos hcs, List.dropWhile_append_of_pos hcs, hstop.1, hstop.2, List.append_nil]

-- Tokens apart

def Token.chars : Token → List Char
  | .punct c => [c]
  | .string content => '"' :: content ++ ['"']
  | .word text => text
  | .bad => []

/-- A string's content ends at the quote after it, and holds no line break. -/
def IsContent (content : List Char) : Prop :=
  '\n' ∉ content ∧ ∀ rest, scanString (content ++ '"' :: rest) = some (content, rest)

def isWordText (c : Char) : Bool := c.isAlphanum || c = '-' || c = '+' || c = '.'

/-- A token as it stands in an accepted text. -/
def Token.Plain : Token → Prop
  | .punct c => isPunct c
  | .string content => IsContent content
  | .word text => text ≠ [] ∧ ∀ c ∈ text, isWordText c
  | .bad => False

def Token.IsAtom : Token → Prop
  | .string _ => True
  | .word _ => True
  | _ => False

/-- Plain tokens, with punctuation between strings and words. -/
def Spaced : List Token → Prop
  | [] => True
  | token :: rest => token.Plain ∧ (token.IsAtom → ∀ next ∈ rest.head?, ¬next.IsAtom) ∧ Spaced rest

theorem wordText_small (h : isWordText c) : 33 ≤ c.toNat ∧ c.toNat < 127 ∧ isPunct c = false ∧ c ≠ '"' := by
  simp only [isWordText, Bool.or_eq_true, decide_eq_true_eq] at h
  rcases h with ((h | rfl) | rfl) | rfl
  · rw [isAlphanum_iff] at h
    refine ⟨by omega, by omega, ?_, ?_⟩
    · by_contra hp
      simp only [Bool.not_eq_false, isPunct, Bool.or_eq_true, decide_eq_true_eq] at hp
      rcases hp with ((((rfl | rfl) | rfl) | rfl) | rfl) | rfl <;> revert h <;> decide
    · rintro rfl
      revert h
      decide
  all_goals decide

theorem space_small (h : isSpace c) : c.toNat ≤ 32 := by
  simp only [isSpace, Bool.or_eq_true, decide_eq_true_eq] at h
  rcases h with ((rfl | rfl) | rfl) | rfl <;> decide

theorem wordText_word (h : isWordText c) : isWordChar c := by
  obtain ⟨hlow, -, hp, hq⟩ := wordText_small h
  have hs : isSpace c = false := by
    by_contra hs
    have := space_small (by simpa using hs)
    omega
  simp [isWordChar, hs, hp, hq]

theorem wordText_loose (h : isWordText c) : isLoose c := by
  obtain ⟨hlow, hhigh, hp, -⟩ := wordText_small h
  have hs : isUnicodeSpace c = false := by
    simp [isUnicodeSpace]
    omega
  simp [isLoose, hs, hp]

theorem punct_ends (h : isPunct c) (rest : List Char) : EndsWord (c :: rest) := by
  simp [EndsWord, isWordChar, h]

theorem space_ends (h : isSpace c) (rest : List Char) : EndsWord (c :: rest) := by
  simp [EndsWord, isWordChar, h]

theorem lex_token {token : Token} (h : token.Plain) {rest : List Char} (hr : token.IsAtom → EndsWord rest) :
    lex (token.chars ++ rest) = token :: lex rest := by
  cases token with
  | punct c => exact lex_punct h rest
  | string content =>
    rw [show Token.chars (.string content) ++ rest = '"' :: (content ++ '"' :: rest) by simp [Token.chars]]
    exact lex_string (h.2 rest)
  | word text => exact lex_word h.1 (fun c hc => wordText_word (h.2 c hc)) (hr trivial)
  | bad => exact absurd h id

-- Formatting

theorem newline_spaces (depth : ℤ) : ∀ c ∈ newline depth, isSpace c := by
  intro c hc
  rcases List.mem_cons.mp hc with rfl | hc
  · rfl
  · rw [List.eq_of_mem_replicate hc]
    rfl

theorem newline_ends (depth : ℤ) (rest : List Char) : EndsWord (newline depth ++ rest) := space_ends rfl _

theorem punct_chars {token : Token} (h : token.Plain) (hc : token.chars = [c]) (hp : isPunct c) :
    token = .punct c := by
  cases token with
  | punct d => rw [(List.cons.inj hc).1]
  | string content => simp [Token.chars] at hc
  | word text =>
    change text = [c] at hc
    have hout := (wordText_small (h.2 c (by simp [hc]))).2.2.1
    rw [hp] at hout
    contradiction
  | bad => exact absurd h id

theorem bracket_chars {token : Token} (h : token.Plain) (hb : isOpening token.chars ∨ isClosing token.chars) :
    ¬token.IsAtom := by
  simp only [isOpening, isClosing, Bool.or_eq_true, decide_eq_true_eq] at hb
  rcases hb with (hb | hb) | hb | hb <;> rw [punct_chars h hb (by decide)] <;> exact id

variable {tokens : List Token}

theorem pieces_ends (depth : ℤ) (previous : Option (List Char)) (h : Spaced tokens)
    (hhead : ∀ next ∈ tokens.head?, ¬next.IsAtom) (rest : List Char) (hrest : EndsWord rest) :
    EndsWord (pieces depth previous (tokens.map Token.chars) ++ rest) := by
  cases tokens with
  | nil => exact hrest
  | cons token tokens =>
    obtain ⟨hplain, -, -⟩ := h
    cases token with
    | punct c =>
      simp only [List.map_cons, pieces]
      split
      · split <;> exact punct_ends hplain _
      split
      · split
        · exact punct_ends hplain _
        · rw [List.append_assoc, List.append_assoc]
          exact newline_ends _ _
      split
      · exact punct_ends (c := ',') rfl _
      split
      · exact punct_ends (c := ':') rfl _
      · exact punct_ends hplain _
    | string content => exact absurd trivial (hhead _ rfl)
    | word text => exact absurd trivial (hhead _ rfl)
    | bad => exact absurd hplain id

theorem lex_pieces (depth : ℤ) (previous : Option (List Char)) (h : Spaced tokens)
    {rest : List Char} (hrest : EndsWord rest) :
    lex (pieces depth previous (tokens.map Token.chars) ++ rest) = tokens ++ lex rest := by
  induction tokens generalizing depth previous with
  | nil => rfl
  | cons token tokens ih =>
    have hends := fun d p => pieces_ends d p h.2.2
    obtain ⟨hplain, hnext, hspaced⟩ := h
    have hread : ∀ text, (token.IsAtom → EndsWord text) → lex text = tokens ++ lex rest →
        lex (token.chars ++ text) = token :: tokens ++ lex rest := by
      intro text htext hlex
      rw [lex_token hplain htext, hlex]
      rfl
    have hskip : ∀ d text, lex (newline d ++ text) = lex text := fun d text => lex_spaces (newline_spaces d) text
    rw [List.map_cons, pieces]
    split
    · rename_i ho
      have hatom := bracket_chars hplain (.inl ho)
      split
      · rw [List.append_assoc]
        exact hread _ (fun h => absurd h hatom) (ih _ _ hspaced)
      · rw [List.append_assoc, List.append_assoc]
        exact hread _ (fun h => absurd h hatom) (by rw [hskip, ih _ _ hspaced])
    split
    · rename_i hc
      have hatom := bracket_chars hplain (.inr hc)
      split
      · rw [List.append_assoc]
        exact hread _ (fun h => absurd h hatom) (ih _ _ hspaced)
      · rw [List.append_assoc, List.append_assoc, hskip]
        exact hread _ (fun h => absurd h hatom) (ih _ _ hspaced)
    split
    · rename_i hcomma
      obtain rfl := punct_chars hplain hcomma rfl
      have hrest := hread (newline depth ++ (pieces depth (some [',']) (tokens.map Token.chars) ++ rest))
        (fun h => absurd h id) (by rw [hskip, ih _ _ hspaced])
      simpa only [Token.chars, List.cons_append, List.nil_append, List.append_assoc] using hrest
    split
    · rename_i hcolon
      obtain rfl := punct_chars hplain hcolon rfl
      have hrest := hread (' ' :: (pieces depth (some [':']) (tokens.map Token.chars) ++ rest))
        (fun h => absurd h id) (by rw [lex_space rfl, ih _ _ hspaced])
      simpa only [Token.chars, List.cons_append, List.nil_append, List.append_assoc] using hrest
    · rw [List.append_assoc]
      exact hread _ (fun h => hends _ _ (hnext h) rest hrest) (ih _ _ hspaced)

theorem lex_formatted {text : List Char} (h : Spaced tokens)
    (hfind : findall text = tokens.map Token.chars) : lex (formatted text) = tokens := by
  rw [formatted, hfind, lex_pieces 0 none h (space_ends rfl _)]
  exact List.append_nil _

-- The regular expression

theorem quotedMatch_length {text quoted rest : List Char} (h : quotedMatch text = some (quoted, rest)) :
    text = quoted ++ rest := by
  fun_induction quotedMatch text generalizing quoted with
  | case1 rest => cases h; rfl
  | case2 => cases h
  | case3 c rest hn ih =>
    obtain ⟨⟨quoted', rest'⟩, hr, h⟩ := Option.map_eq_some_iff.mp h
    cases h
    rw [ih hr]
    rfl
  | case4 => cases h
  | case5 c rest _ _ _ ih =>
    obtain ⟨⟨quoted', rest'⟩, hr, h⟩ := Option.map_eq_some_iff.mp h
    cases h
    rw [ih hr]
    rfl
  | case6 => cases h

theorem quotedMatch_content (h : scanString text = some (content, rest))
    (hn : '\n' ∉ content) : quotedMatch text = some (content ++ ['"'], rest) := by
  fun_induction scanString text generalizing content with
  | case1 rest => cases h; rfl
  | case2 c rest ih =>
    obtain ⟨⟨content', rest'⟩, hr, h⟩ := Option.map_eq_some_iff.mp h
    cases h
    simp only [List.mem_cons, not_or] at hn
    rw [quotedMatch, if_neg (Ne.symm hn.2.1), ih hr hn.2.2]
    rfl
  | case3 c rest hq hb ih =>
    obtain ⟨⟨content', rest'⟩, hr, h⟩ := Option.map_eq_some_iff.mp h
    cases h
    simp only [List.mem_cons, not_or] at hn
    have hlone : ¬(c = '\\' ∧ rest = []) := by
      rintro ⟨-, rfl⟩
      cases hr
    rw [quotedMatch, ih hr hn.2]
    · rfl
    · exact hq
    · exact hb
    · exact fun hc hr => hlone ⟨hc, hr⟩
  | case4 => cases h

theorem findallLoop_fuel (fuel : ℕ) (text : List Char) (h : text.length ≤ fuel) :
    findallLoop fuel text = findall text := by
  refine loop_fuel (fun fuel => by cases fuel <;> rfl) (fun c rest fuel fuel' same => ?_) fuel text h
  rw [findallLoop, findallLoop]
  split
  · rename_i quoted rest' hq
    have hlen : rest'.length ≤ rest.length := by
      split at hq
      · have := congrArg List.length (quotedMatch_length hq)
        simp only [List.length_append] at this
        omega
      · cases hq
    rw [same rest' hlen]
  · rw [same rest (Nat.le_refl _), same _ (List.length_dropWhile_le _ _)]

theorem findall_cons (c : Char) (rest : List Char) : findall (c :: rest) =
    match if c = '"' then quotedMatch rest else none with
    | some (quoted, rest) => ('"' :: quoted) :: findall rest
    | none =>
      if isLoose c then (c :: rest.takeWhile isLoose) :: findall (rest.dropWhile isLoose)
      else if isPunct c then [c] :: findall rest
      else findall rest := by
  rw [findall, List.length_cons, findallLoop]
  cases hq : if c = '"' then quotedMatch rest else none with
  | some r =>
    have hlen : r.2.length ≤ rest.length := by
      split at hq
      · have := congrArg List.length (quotedMatch_length hq)
        simp only [List.length_append] at this
        omega
      · cases hq
    simp only [findallLoop_fuel _ _ hlen]
  | none => simp only [findallLoop_fuel _ _ (Nat.le_refl _), findallLoop_fuel _ _ (List.length_dropWhile_le _ _)]

theorem space_tight (h : isSpace c) : isLoose c = false := by
  simp only [isSpace, Bool.or_eq_true, decide_eq_true_eq] at h
  rcases h with ((rfl | rfl) | rfl) | rfl <;> decide

theorem punct_tight (h : isPunct c) : isLoose c = false := by simp [isLoose, h]

theorem word_tight {rest : List Char} (hr : EndsWord rest) (hnext : ∀ next ∈ (lex rest).head?, ¬next.IsAtom ∧ next.Plain) :
    ∀ c ∈ rest.head?, isLoose c = false := by
  intro c hc
  obtain ⟨rest, rfl⟩ : ∃ cs, rest = c :: cs := by
    cases rest with
    | nil => cases hc
    | cons d ds => exact ⟨ds, by rw [Option.some.inj hc]⟩
  have hword := hr c rfl
  simp only [isWordChar, Bool.and_eq_false_iff, Bool.not_eq_false', bne_eq_false_iff_eq] at hword
  rcases hword with (hs | hp) | rfl
  · exact space_tight hs
  · exact punct_tight hp
  · exfalso
    rw [lex_cons, if_neg (by decide), if_neg (by decide), if_pos rfl] at hnext
    split at hnext
    · exact (hnext _ rfl).1 trivial
    · exact (hnext _ rfl).2

theorem spaced_head (h : Spaced tokens) {next : Token} (hn : next ∈ tokens.head?) : next.Plain := by
  cases tokens with
  | nil => cases hn
  | cons token tokens => exact Option.some.inj hn ▸ h.1

theorem findall_lex (text : List Char) (h : Spaced (lex text)) : findall text = (lex text).map Token.chars := by
  induction hn : text.length using Nat.strongRecOn generalizing text with
  | ind n ih =>
    subst hn
    cases text with
    | nil => rfl
    | cons c rest =>
      have hlex := lex_cons c rest
      rw [findall_cons]
      by_cases hs : isSpace c
      · have hq : c ≠ '"' := by
          rintro rfl
          revert hs
          decide
        have hp : isPunct c = false := by
          by_contra hp
          rw [punct_not_space (by simpa using hp)] at hs
          contradiction
        rw [if_pos hs] at hlex
        rw [hlex] at h ⊢
        simp only [if_neg hq, space_tight hs, hp, Bool.false_eq_true, if_false]
        exact ih _ (by simp) rest h rfl
      rw [if_neg hs] at hlex
      by_cases hp : isPunct c
      · have hq : c ≠ '"' := by
          rintro rfl
          revert hp
          decide
        rw [if_pos hp] at hlex
        rw [hlex] at h ⊢
        simp only [if_neg hq, punct_tight hp, hp, Bool.false_eq_true, if_false, if_true]
        rw [ih _ (by simp) rest h.2.2 rfl]
        rfl
      rw [if_neg hp] at hlex
      by_cases hq : c = '"'
      · rw [if_pos hq] at hlex
        cases hscan : scanString rest with
        | none =>
          rw [hscan] at hlex
          rw [hlex] at h
          exact absurd h.1 id
        | some r =>
          obtain ⟨content, rest'⟩ := r
          have hlen := congrArg List.length (scanString_length hscan)
          simp only [List.length_append, List.length_cons] at hlen
          rw [hscan] at hlex
          rw [hlex] at h ⊢
          simp only [if_pos hq, quotedMatch_content hscan h.1.1]
          rw [ih _ (by rw [List.length_cons]; omega) rest' h.2.2 rfl]
          rfl
      · rw [if_neg hq] at hlex
        rw [hlex] at h ⊢
        obtain ⟨⟨-, hword⟩, hnext, hspaced⟩ := h
        have hsplit := List.takeWhile_append_dropWhile (p := isWordChar) (l := rest)
        have hends : EndsWord (rest.dropWhile isWordChar) := by
          intro d hd
          have hnot := List.head?_dropWhile_not isWordChar rest
          rw [Option.mem_def.mp hd] at hnot
          simpa using hnot
        have htight := word_tight hends fun next hn => ⟨hnext trivial next hn, spaced_head hspaced hn⟩
        generalize rest.takeWhile isWordChar = word at *
        generalize rest.dropWhile isWordChar = after at *
        subst hsplit
        have hloose : ∀ d ∈ word, isLoose d = true := fun d hd => wordText_loose (hword d (by simp [hd]))
        have hstop : after.takeWhile isLoose = [] ∧ after.dropWhile isLoose = after := by
          cases after with
          | nil => exact ⟨rfl, rfl⟩
          | cons d after => simp [htight d rfl]
        simp only [if_neg hq, wordText_loose (hword c (by simp)), if_true]
        rw [List.takeWhile_append_of_pos hloose, List.dropWhile_append_of_pos hloose, hstop.1, hstop.2, List.append_nil,
          ih _ (by simp only [List.length_cons, List.length_append]; omega) after hspaced rfl]
        rfl

end WotAv.Tools
