import Mathlib.Computability.Language

/-!
# Regular expressions of XML Schema

The expressions of XML Schema Part 2 without category escapes: how they are
written, and the language each denotes. A pattern is anchored at both ends.
`\i` and `\c` are the name characters of XML 1.0.
-/

namespace WotAv.Lib

open Computability

-- Separated words

section
variable {α : Type} {l : Language α} {x : α}

theorem intercalate_eq (x : α) (w : List α) (ws : List (List α)) :
    [x].intercalate (w :: ws) = w ++ (ws.map (x :: ·)).flatten := by
  induction ws generalizing w with
  | nil => simp [List.intercalate]
  | cons v ws ih =>
    have h := ih v
    simp only [List.intercalate] at h
    simp [List.intercalate, h]

theorem mem_separated [DecidableEq α] (hl : ∀ w ∈ l, x ∉ w) (s : List α) :
    s ∈ l * ({[x]} * l)∗ ↔ ∀ w ∈ s.splitOn x, w ∈ l := by
  constructor
  · intro h
    obtain ⟨w, hw, t, ht, rfl⟩ := Language.mem_mul.mp h
    obtain ⟨ts, rfl, hts⟩ := Language.mem_kstar.mp ht
    have hwords : ∃ ws : List (List α), ts = ws.map (x :: ·) ∧ ∀ v ∈ ws, v ∈ l := by
      clear ht h
      induction ts with
      | nil => exact ⟨[], rfl, by simp⟩
      | cons t ts ih =>
        obtain ⟨ws, rfl, hws⟩ := ih fun y hy => hts y (List.mem_cons_of_mem _ hy)
        obtain ⟨sep, rfl, v, hv, rfl⟩ := Language.mem_mul.mp (hts t List.mem_cons_self)
        exact ⟨v :: ws, rfl, by simpa using ⟨hv, hws⟩⟩
    obtain ⟨ws, rfl, hws⟩ := hwords
    have hall : ∀ v ∈ w :: ws, v ∈ l := by simpa using ⟨hw, hws⟩
    rw [← intercalate_eq, List.splitOn_intercalate x (fun v hv => hl v (hall v hv)) (by simp)]
    exact hall
  · intro h
    have hwords : s = List.intercalate [x] (s.splitOn x) := (List.intercalate_splitOn x).symm
    rw [hwords]
    cases hs : s.splitOn x with
    | nil => exact absurd hs (List.splitOnP_ne_nil _ _)
    | cons w ws =>
      rw [hs] at h
      rw [intercalate_eq]
      refine Language.mem_mul.mpr ⟨w, h w List.mem_cons_self, _, ?_, rfl⟩
      refine Language.mem_kstar.mpr ⟨_, rfl, fun y hy => ?_⟩
      obtain ⟨v, hv, rfl⟩ := List.mem_map.mp hy
      exact Language.mem_mul.mpr ⟨[x], rfl, v, h v (List.mem_cons_of_mem _ hv), rfl⟩

end

-- Name characters

def nameStart (c : Char) : Bool :=
  [(0x41, 0x5A), (0x5F, 0x5F), (0x61, 0x7A), (0xC0, 0xD6), (0xD8, 0xF6), (0xF8, 0x2FF), (0x370, 0x37D), (0x37F, 0x1FFF),
    (0x200C, 0x200D), (0x2070, 0x218F), (0x2C00, 0x2FEF), (0x3001, 0xD7FF), (0xF900, 0xFDCF), (0xFDF0, 0xFFFD),
    (0x10000, 0xEFFFF)].any fun range => range.1 ≤ c.toNat && c.toNat ≤ range.2

def namePart (c : Char) : Bool :=
  nameStart c || [(0x2D, 0x2E), (0x30, 0x39), (0xB7, 0xB7), (0x300, 0x36F), (0x203F, 0x2040)].any fun range =>
    range.1 ≤ c.toNat && c.toNat ≤ range.2

namespace Xsd

-- Expressions

inductive Class
  | char (c : Char)
  | range (first last : Char)
  | initial
  | name
  deriving DecidableEq, Repr

inductive Regex
  | char (c : Char)
  | escaped (c : Char)
  | dot
  | cls (items : Class)
  | without (items removed : Class)
  | seq (r s : Regex)
  | alt (r s : Regex)
  | group (r : Regex)
  | star (r : Regex)
  | plus (r : Regex)
  | opt (r : Regex)
  | times (r : Regex) (least most : ℕ)
  deriving DecidableEq, Repr

def Class.text : Class → List Char
  | .char c => [c]
  | .range first last => [first, '-', last]
  | .initial => ['\\', 'i']
  | .name => ['\\', 'c']

def Regex.text : Regex → List Char
  | .char c => [c]
  | .escaped c => ['\\', c]
  | .dot => ['.']
  | .cls items => '[' :: items.text ++ [']']
  | .without items removed => '[' :: items.text ++ ['-', '['] ++ removed.text ++ [']', ']']
  | .seq r s => r.text ++ s.text
  | .alt r s => r.text ++ '|' :: s.text
  | .group r => '(' :: r.text ++ [')']
  | .star r => r.text ++ ['*']
  | .plus r => r.text ++ ['+']
  | .opt r => r.text ++ ['?']
  | .times r least most => r.text ++ '\x7b' :: Nat.toDigits 10 least ++ ',' :: Nat.toDigits 10 most ++ ['\x7d']

def Class.has : Class → Char → Bool
  | .char c, d => d = c
  | .range first last, d => first ≤ d && d ≤ last
  | .initial, d => d = ':' || nameStart d
  | .name, d => d = ':' || namePart d

def one (p : Char → Bool) : Language Char := { s | ∃ c, p c ∧ s = [c] }

def Regex.language : Regex → Language Char
  | .char c | .escaped c => {[c]}
  | .dot => one fun c => c ≠ '\n' && c ≠ '\r'
  | .cls items => one items.has
  | .without items removed => one fun c => items.has c && !removed.has c
  | .seq r s => r.language * s.language
  | .alt r s => r.language + s.language
  | .group r => r.language
  | .star r => r.language∗
  | .plus r => r.language * r.language∗
  | .opt r => r.language + 1
  | .times r least most => { s | ∃ n, least ≤ n ∧ n ≤ most ∧ s ∈ r.language ^ n }

variable {p : Char → Bool} {s : List Char}

theorem mem_one : s ∈ one p ↔ ∃ c, p c ∧ s = [c] := Iff.rfl

theorem mem_one_star : s ∈ (one p)∗ ↔ ∀ c ∈ s, p c := by
  rw [Language.mem_kstar]
  constructor
  · rintro ⟨ws, rfl, hws⟩ c hc
    obtain ⟨w, hw, hc⟩ := List.mem_flatten.mp hc
    obtain ⟨d, hd, rfl⟩ := hws w hw
    rw [List.mem_singleton.mp hc]
    exact hd
  · intro h
    have hs : s = (s.map fun c => [c]).flatten := by
      rw [← List.flatMap_def]
      exact (List.flatMap_singleton' s).symm
    refine ⟨s.map fun c => [c], hs, fun w hw => ?_⟩
    obtain ⟨c, hc, rfl⟩ := List.mem_map.mp hw
    exact ⟨c, h c hc, rfl⟩

theorem mem_one_pow {n : ℕ} :
    s ∈ one p ^ n ↔ s.length = n ∧ ∀ c ∈ s, p c := by
  induction n generalizing s with
  | zero =>
    rw [pow_zero, Language.mem_one]
    exact ⟨fun h => by simp [h], fun h => List.eq_nil_of_length_eq_zero h.1⟩
  | succ n ih =>
    rw [pow_succ', Language.mem_mul]
    constructor
    · rintro ⟨w, ⟨c, hc, rfl⟩, t, ht, rfl⟩
      obtain ⟨hlen, hall⟩ := ih.mp ht
      simpa using ⟨hlen, hc, hall⟩
    · intro h
      cases s with
      | nil => simp at h
      | cons c s =>
        obtain ⟨hlen, hall⟩ := h
        refine ⟨[c], ⟨c, hall c List.mem_cons_self, rfl⟩, s, ih.mpr ⟨by simpa using hlen, ?_⟩, rfl⟩
        exact fun d hd => hall d (List.mem_cons_of_mem _ hd)

theorem cons_mem_one_mul {l : Language Char} {c : Char} :
    c :: s ∈ one p * l ↔ p c ∧ s ∈ l := by
  rw [Language.mem_mul]
  constructor
  · rintro ⟨w, ⟨d, hd, rfl⟩, t, ht, h⟩
    obtain ⟨rfl, rfl⟩ := List.cons.inj h
    exact ⟨hd, ht⟩
  · rintro ⟨hc, hs⟩
    exact ⟨[c], ⟨c, hc, rfl⟩, s, hs, rfl⟩

theorem nil_not_mem_one_mul {l : Language Char} : [] ∉ one p * l := by
  rintro ⟨w, ⟨c, -, rfl⟩, t, -, h⟩
  simp at h

def Regex.has : Regex → Char → Bool
  | .char c, d | .escaped c, d => d = c
  | .dot, d => d ≠ '\n' && d ≠ '\r'
  | .cls items, d => items.has d
  | .without items removed, d => items.has d && !removed.has d
  | .seq r s, d | .alt r s, d => r.has d || s.has d
  | .group r, d | .star r, d | .plus r, d | .opt r, d | .times r _ _, d => r.has d

theorem forall_mem_star {l : Language Char} {p : Char → Prop} (h : ∀ s ∈ l, ∀ c ∈ s, p c) :
    ∀ s ∈ l∗, ∀ c ∈ s, p c := by
  rintro s hs c hc
  obtain ⟨ws, rfl, hws⟩ := Language.mem_kstar.mp hs
  obtain ⟨w, hw, hc⟩ := List.mem_flatten.mp hc
  exact h w (hws w hw) c hc

theorem Regex.mem_has (r : Regex) : ∀ s ∈ r.language, ∀ c ∈ s, r.has c := by
  induction r with
  | char d | escaped d =>
    rintro s rfl c hc
    simpa [Regex.has] using hc
  | dot | cls items | without items removed =>
    rintro s ⟨d, hd, rfl⟩ c hc
    rw [List.mem_singleton.mp hc]
    simpa [Regex.has] using hd
  | seq r s ihr ihs =>
    rintro w ⟨u, hu, v, hv, rfl⟩ c hc
    rcases List.mem_append.mp hc with hc | hc
    · simp [Regex.has, ihr u hu c hc]
    · simp [Regex.has, ihs v hv c hc]
  | alt r s ihr ihs =>
    rintro w (hw | hw) c hc
    · simp [Regex.has, ihr w hw c hc]
    · simp [Regex.has, ihs w hw c hc]
  | group r ih => exact ih
  | star r ih => exact forall_mem_star ih
  | plus r ih =>
    rintro w ⟨u, hu, v, hv, rfl⟩ c hc
    exact (List.mem_append.mp hc).elim (ih u hu c) (forall_mem_star ih v hv c)
  | opt r ih =>
    rintro w (hw | hw) c hc
    · exact ih w hw c hc
    · rw [(Language.mem_one w).mp hw] at hc
      simp at hc
  | times r least most ih =>
    rintro w ⟨n, -, -, hw⟩ c hc
    obtain ⟨ws, rfl, -, hws⟩ := Language.mem_pow.mp hw
    exact forall_mem_star ih _ (Language.join_mem_kstar hws) c hc

end Xsd

end WotAv.Lib
