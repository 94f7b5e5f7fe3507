import Mathlib.Data.Nat.Digits.Lemmas
import WotAv.Lib.JsonParse
import WotAv.Lib.Numerals
import WotAv.Lib.Separators

/-!
# Addresses and segments (`discovery/policy.ts`)

`ipNumber` reads the texts that `net.isIP` accepts as numbers, and `inCidr` and
`sameIp` compare these.
-/

namespace WotAv.Discovery.Ip

open WotAv.Lib.Json (hexDigit)
open Nat (toDigits)

-- Texts of addresses

def positional (base : ℕ) (digits : List ℕ) : ℕ := Nat.ofDigits base digits.reverse

structure Quad where
  a : Fin 256
  b : Fin 256
  c : Fin 256
  d : Fin 256

def Quad.octets (q : Quad) : List ℕ := [q.a, q.b, q.c, q.d]

def Quad.text (q : Quad) : List Char := List.intercalate ['.'] (q.octets.map (toDigits 10))

def Quad.value (q : Quad) : ℕ := positional 256 q.octets

structure Group where
  digits : List Char
  hex : ∀ c ∈ digits, (hexDigit c).isSome
  ne_nil : digits ≠ []
  short : digits.length ≤ 4

def Group.value (g : Group) : ℕ := positional 16 (g.digits.map fun c => (hexDigit c).getD 0)

def join (words : List (List Char)) : List Char := List.intercalate [':'] words

/-- Groups, perhaps `::` and more groups, and perhaps a dotted quad in the place
of the last two. -/
structure Ipv6 where
  left : List Group
  right : Option (List Group)
  quad : Option Quad
  count : match right with
    | none => left.length + 2 * quad.toList.length = 8
    | some right => left.length + right.length + 2 * quad.toList.length ≤ 7

namespace Ipv6

def layout (a : Ipv6) (last : List (List Char)) : List Char := match a.right with
  | none => join (a.left.map (·.digits) ++ last)
  | some right => join (a.left.map (·.digits)) ++ ':' :: ':' :: join (right.map (·.digits) ++ last)

def text (a : Ipv6) : List Char := a.layout (a.quad.toList.map (·.text))

def words (a : Ipv6) : List ℕ :=
  let right := (a.right.getD []).map (·.value) ++ a.quad.toList.flatMap fun q => [q.value / 65536, q.value % 65536]
  a.left.map (·.value) ++ List.replicate (8 - a.left.length - right.length) 0 ++ right

end Ipv6

structure Zone where
  text : List Char
  named : text = [] ∨ ∃ name, text = '%' :: name ∧ name ≠ [] ∧ ∀ c ∈ name, c.isAlphanum ∨ c ∈ ['-', '.', ':']

inductive Address
  | four (quad : Quad)
  | six (a : Ipv6) (zone : Zone)

namespace Address

def text : Address → List Char
  | four quad => quad.text
  | six a zone => a.text ++ zone.text

def bits : Address → ℕ
  | four _ => 32
  | six .. => 128

def value : Address → ℕ
  | four quad => quad.value
  | six a _ => positional 65536 a.words

end Address

structure Net where
  isIP : List Char → ℕ
  four : ∀ text, isIP text = 4 ↔ ∃ quad : Quad, text = quad.text
  six : ∀ text, isIP text = 6 ↔ ∃ (a : Ipv6) (zone : Zone), text = a.text ++ zone.text

-- The code

inductive AddressError
  | configuration (message : String)
  | syntaxError

structure IpNumber where
  bits : ℕ
  value : ℕ

/-- `BigInt` of decimal digits, or of hexadecimal ones after `0x`. -/
def bigInt (base : ℕ) (digits : List Char) : Except AddressError ℕ :=
  digits.foldlM (fun n c => match hexDigit c with
    | some d => if d < base then .ok (base * n + d) else .error .syntaxError
    | none => .error .syntaxError) 0

def shiftIn (base width : ℕ) (words : List (List Char)) : Except AddressError ℕ :=
  words.foldlM (fun value word => return value <<< width ||| (← bigInt base word)) 0

def splitPair : List Char → List (List Char)
  | [] => [[]]
  | ':' :: ':' :: text => [] :: splitPair text
  | c :: text => (splitPair text).modifyHead (c :: ·)

/-- `words`, with `0` for what `::` leaves out. -/
def wordsOf (expanded : List Char) : List (List Char) :=
  let halves := splitPair expanded
  let left := ((halves.headD []).splitOn ':').filter (· ≠ [])
  let right := (((halves[1]?).getD []).splitOn ':').filter (· ≠ [])
  if halves.length = 1 then left else left ++ List.replicate (8 - left.length - right.length) ['0'] ++ right

def lastIndexOf (text : List Char) : ℕ := text.length - 1 - text.reverse.idxOf ':'

def ipNumber (net : Net) (input : List Char) : Except AddressError IpNumber :=
  -- `input.split("%")[0]`
  let address := input.takeWhile (· ≠ '%')
  let family := net.isIP address
  if family = 4 then do
    return ⟨32, ← shiftIn 10 8 (address.splitOn '.')⟩
  else if family ≠ 6 then .error (.configuration "A numeric IP address is required")
  else if _h : '.' ∈ address then do
    let lastColon := lastIndexOf address
    let v4 := (← ipNumber net (address.drop (lastColon + 1))).value
    return ⟨128, ← shiftIn 16 16 (wordsOf (address.take lastColon ++ ':' :: toDigits 16 (v4 >>> 16) ++
      ':' :: toDigits 16 (v4 &&& 65535)))⟩
  else do
    return ⟨128, ← shiftIn 16 16 (wordsOf address)⟩
termination_by input.length
decreasing_by
  have hle : (input.takeWhile (· ≠ '%')).length ≤ input.length := (List.takeWhile_prefix _).length_le
  have hpos : 0 < (input.takeWhile (· ≠ '%')).length := List.length_pos_of_mem _h
  rw [List.length_drop]
  omega

def inCidr (net : Net) (address cidr : List Char) : Except AddressError Bool := do
  let parts := cidr.splitOn '/'
  let digits := (parts[1]?).getD []
  if parts.length ≠ 2 ∨ digits = [] ∨ ¬digits.all Char.isDigit then
    .error (.configuration "Explicit numeric CIDR is required")
  else
    let network ← ipNumber net (parts.headD [])
    let length := Nat.ofDigitChars 10 digits 0
    if length ≤ 0 ∨ length > network.bits then .error (.configuration "CIDR must confine a nonzero network prefix")
    else
      let input ← ipNumber net address
      if input.bits ≠ network.bits then return false
      else
        let shift := network.bits - length
        if network.value >>> shift <<< shift ≠ network.value then
          .error (.configuration "CIDR must use its canonical network address")
        else return decide (input.value >>> shift = network.value >>> shift)

def sameIp (net : Net) (a b : List Char) : Except AddressError Bool := do
  let left ← ipNumber net a
  let right ← ipNumber net b
  return left.bits = right.bits && left.value = right.value

-- Digits

theorem foldlM_ok {α β ε : Type} {f : β → α → Except ε β} {g : β → α → β} :
    ∀ (as : List α) (b : β), (∀ b, ∀ a ∈ as, f b a = .ok (g b a)) → as.foldlM f b = .ok (as.foldl g b)
  | [], _, _ => rfl
  | a :: as, b, h => by
    rw [List.foldlM_cons, h b a List.mem_cons_self]
    exact foldlM_ok as (g b a) fun b a ha => h b a (List.mem_cons_of_mem _ ha)

theorem positional_foldl (base : ℕ) (digits : List ℕ) :
    digits.foldl (fun n d => base * n + d) 0 = positional base digits := by
  rw [positional, Nat.ofDigits_eq_foldr, List.foldr_reverse]
  simp only [Nat.cast_id, add_comm]

theorem positional_lt {base : ℕ} {digits : List ℕ} (hb : 1 < base) (h : ∀ d ∈ digits, d < base) :
    positional base digits < base ^ digits.length := by
  rw [← List.length_reverse]
  exact Nat.ofDigits_lt_base_pow_length hb fun d hd => h d (List.mem_reverse.mp hd)

theorem hexDigit_lt {c : Char} {d : ℕ} (h : hexDigit c = some d) : d < 16 := by
  unfold hexDigit at h
  split at h
  · rename_i hc
    have := Lib.isDigit_iff_toNat.mp hc
    obtain rfl := Option.some.inj h
    omega
  · split at h
    · rename_i hc
      have : c.toNat ≤ 102 := hc.2
      obtain rfl := Option.some.inj h
      omega
    · split at h
      · rename_i hc
        have : c.toNat ≤ 70 := hc.2
        obtain rfl := Option.some.inj h
        omega
      · cases h

theorem bigInt_hex {text : List Char} (h : ∀ c ∈ text, (hexDigit c).isSome) :
    bigInt 16 text = .ok (positional 16 (text.map fun c => (hexDigit c).getD 0)) := by
  rw [← positional_foldl, List.foldl_map]
  refine foldlM_ok text 0 fun n c hc => ?_
  obtain ⟨d, hd⟩ := Option.isSome_iff_exists.mp (h c hc)
  rw [hd]
  exact if_pos (hexDigit_lt hd)

theorem bigInt_toDigits {base : ℕ} (hb : 1 < base) (hb' : base ≤ 16) (n : ℕ) : bigInt base (toDigits base n) = .ok n := by
  have hdigit : ∀ d < 16, hexDigit (Nat.digitChar d) = some d := by decide
  induction n using Nat.strong_induction_on with
  | _ n ih =>
    by_cases hn : n < base
    · rw [Nat.toDigits_of_lt_base hn]
      simp [bigInt, hdigit n (by omega), hn]
    · have hlast : n % base < base := Nat.mod_lt _ (by omega)
      rw [Nat.toDigits_of_base_le hb (by omega), bigInt, List.foldlM_append]
      rw [show List.foldlM _ 0 (toDigits base (n / base)) = _ from ih (n / base) (Nat.div_lt_self (by omega) hb)]
      simp only [List.foldlM_cons, List.foldlM_nil, hdigit _ (by omega : n % base < 16), hlast, if_true]
      exact congrArg Except.ok (Nat.div_add_mod n base)

-- Words

theorem shiftIn_ok {α : Type} {base width : ℕ} {text : α → List Char} {value : α → ℕ} {words : List α}
    (h : ∀ a ∈ words, bigInt base (text a) = .ok (value a) ∧ value a < 2 ^ width) :
    shiftIn base width (words.map text) = .ok (positional (2 ^ width) (words.map value)) := by
  rw [← positional_foldl, List.foldl_map, shiftIn, List.foldlM_map]
  refine foldlM_ok words 0 fun n a ha => ?_
  obtain ⟨hread, hsmall⟩ := h a ha
  rw [hread]
  refine congrArg Except.ok ?_
  rw [← Nat.shiftLeft_add_eq_or_of_lt hsmall, Nat.shiftLeft_eq, Nat.mul_comm]

structure Word where
  text : List Char
  value : ℕ
  reads : bigInt 16 text = .ok value
  small : value < 2 ^ 16
  ne_nil : text ≠ []
  hex : ∀ c ∈ text, (hexDigit c).isSome

theorem Word.not_mem (w : Word) {c : Char} (hc : hexDigit c = none) : c ∉ w.text := fun h => by
  have := w.hex c h
  rw [hc] at this
  cases this

def Group.word (g : Group) : Word where
  text := g.digits
  value := g.value
  reads := bigInt_hex g.hex
  small := by
    refine lt_of_lt_of_le (positional_lt (by decide) fun d hd => ?_) (Nat.pow_le_pow_right (by decide) (?_ : _ ≤ 4))
    · obtain ⟨c, hc, rfl⟩ := List.mem_map.mp hd
      obtain ⟨d, hd⟩ := Option.isSome_iff_exists.mp (g.hex c hc)
      rw [hd]
      exact hexDigit_lt hd
    · rw [List.length_map]
      exact g.short
  ne_nil := g.ne_nil
  hex := g.hex

theorem toDigits_hex (n : ℕ) : ∀ c ∈ toDigits 16 n, (hexDigit c).isSome := by
  have hdigit : ∀ d < 16, (hexDigit (Nat.digitChar d)).isSome := by decide
  induction n using Nat.strong_induction_on with
  | _ n ih =>
    intro c hc
    by_cases hn : n < 16
    · rw [Nat.toDigits_of_lt_base hn, List.mem_singleton] at hc
      exact hc ▸ hdigit n hn
    · rw [Nat.toDigits_of_base_le (by decide) (by omega), List.mem_append, List.mem_singleton] at hc
      rcases hc with hc | rfl
      · exact ih _ (by omega) c hc
      · exact hdigit _ (Nat.mod_lt _ (by decide))

def Word.ofNat (n : ℕ) (h : n < 2 ^ 16) : Word :=
  ⟨toDigits 16 n, n, bigInt_toDigits (by decide) (by decide) n, h, Nat.toDigits_ne_nil, toDigits_hex n⟩

theorem splitPair_append {text : List Char} (h : ':' ∉ text) (rest : List Char) :
    splitPair (text ++ rest) = (splitPair rest).modifyHead (text ++ ·) := by
  induction text with
  | nil =>
    rw [List.nil_append]
    cases splitPair rest <;> rfl
  | cons c text ih =>
    rw [List.mem_cons, not_or] at h
    rw [List.cons_append, splitPair, ih h.2]
    · cases splitPair rest <;> rfl
    · rintro _ rfl
      exact absurd rfl h.1

theorem splitPair_join : ∀ (words : List Word) (rest : List Char),
    splitPair (join (words.map (·.text)) ++ rest) = (splitPair rest).modifyHead (join (words.map (·.text)) ++ ·)
  | [], rest => by
    change splitPair rest = _
    cases splitPair rest <;> rfl
  | [w], rest => by simpa [join] using splitPair_append (w.not_mem rfl) rest
  | w :: w' :: words, rest => by
    have hjoin : join ((w :: w' :: words).map (·.text)) = w.text ++ ':' :: join ((w' :: words).map (·.text)) := by
      simp [join, List.intercalate_cons_cons]
    obtain ⟨c, text, hc⟩ := List.exists_cons_of_ne_nil w'.ne_nil
    have hcolon : splitPair (':' :: (join ((w' :: words).map (·.text)) ++ rest)) =
        (splitPair (join ((w' :: words).map (·.text)) ++ rest)).modifyHead (':' :: ·) := by
      rw [splitPair]
      rintro text' - he
      have hfirst : c = ':' := by
        cases words <;> simp [join, List.intercalate_cons_cons, hc] at he <;> exact he.1
      exact w'.not_mem (c := ':') rfl (hc ▸ hfirst ▸ List.mem_cons_self)
    rw [hjoin, List.append_assoc, List.cons_append, splitPair_append (w.not_mem rfl), hcolon, splitPair_join]
    cases splitPair rest <;> simp

theorem split_join (words : List Word) :
    ((join (words.map (·.text))).splitOn ':').filter (· ≠ []) = words.map (·.text) := by
  cases words with
  | nil => rfl
  | cons w words =>
    rw [join, List.splitOn_intercalate ':' ?_ (by simp), List.filter_eq_self]
    · rintro _ ht
      obtain ⟨w, -, rfl⟩ := List.mem_map.mp ht
      simpa using w.ne_nil
    · rintro _ ht
      obtain ⟨w, -, rfl⟩ := List.mem_map.mp ht
      exact w.not_mem rfl

theorem wordsOf_join (words : List Word) : wordsOf (join (words.map (·.text))) = words.map (·.text) := by
  have hsplit : splitPair (join (words.map (·.text))) = [join (words.map (·.text))] := by
    simpa [splitPair] using splitPair_join words []
  simpa only [wordsOf, hsplit, List.headD_cons, List.length_singleton, if_true] using split_join words

theorem wordsOf_pair (left right : List Word) :
    wordsOf (join (left.map (·.text)) ++ ':' :: ':' :: join (right.map (·.text))) =
      (left ++ List.replicate (8 - left.length - right.length) (Word.ofNat 0 (by decide)) ++ right).map (·.text) := by
  have hsplit : splitPair (join (left.map (·.text)) ++ ':' :: ':' :: join (right.map (·.text))) =
      [join (left.map (·.text)), join (right.map (·.text))] := by
    have hright : splitPair (join (right.map (·.text))) = [join (right.map (·.text))] := by
      simpa [splitPair] using splitPair_join right []
    rw [splitPair_join, splitPair, hright]
    simp
  simp only [wordsOf, hsplit, List.headD_cons, split_join, List.getElem?_cons_succ, List.getElem?_cons_zero, Option.getD_some,
    List.length_cons, List.length_nil, List.length_map, List.map_append, List.map_replicate]
  rfl

-- Addresses

theorem mem_quad {q : Quad} {c : Char} (h : c ∈ q.text) : c = '.' ∨ c.isDigit := by
  refine (Lib.mem_intercalate h).imp List.mem_singleton.mp ?_
  rintro ⟨_, hw, hc⟩
  obtain ⟨n, -, rfl⟩ := List.mem_map.mp hw
  exact Lib.toDigits_isDigit n c hc

theorem isDigit_hex {c : Char} (h : c.isDigit) : (hexDigit c).isSome := by
  rw [hexDigit, if_pos h]
  rfl

theorem mem_layout {a : Ipv6} {last : List (List Char)} {c : Char} (h : c ∈ a.layout last) :
    c = ':' ∨ (hexDigit c).isSome ∨ ∃ w ∈ last, c ∈ w := by
  have hjoin {groups : List Group} {last' : List (List Char)} (hl : last' ⊆ last)
      (hc : c ∈ join (groups.map (·.digits) ++ last')) : c = ':' ∨ (hexDigit c).isSome ∨ ∃ w ∈ last, c ∈ w := by
    refine (Lib.mem_intercalate hc).imp List.mem_singleton.mp ?_
    rintro ⟨w, hw, hc⟩
    rcases List.mem_append.mp hw with hw | hw
    · obtain ⟨g, -, rfl⟩ := List.mem_map.mp hw
      exact .inl (g.hex c hc)
    · exact .inr ⟨w, hl hw, hc⟩
  unfold Ipv6.layout at h
  split at h
  · exact hjoin (List.Subset.refl _) h
  · rw [List.mem_append, List.mem_cons, List.mem_cons] at h
    rcases h with h | rfl | rfl | h
    · exact hjoin (List.nil_subset _) (by rwa [List.append_nil])
    · exact .inl rfl
    · exact .inl rfl
    · exact hjoin (List.Subset.refl _) h

theorem mem_ipv6 {a : Ipv6} {c : Char} (h : c ∈ a.text) : c = ':' ∨ c = '.' ∨ (hexDigit c).isSome := by
  rcases mem_layout h with h | h | ⟨w, hw, hc⟩
  · exact .inl h
  · exact .inr (.inr h)
  · obtain ⟨q, -, rfl⟩ := List.mem_map.mp hw
    exact .inr ((mem_quad hc).imp_right isDigit_hex)

theorem takeWhile_zone {text zone : List Char} (ht : '%' ∉ text) (hz : zone = [] ∨ ∃ name, zone = '%' :: name) :
    (text ++ zone).takeWhile (· ≠ '%') = text := by
  rw [List.takeWhile_append_of_pos fun c hc => by simpa using ne_of_mem_of_not_mem hc ht]
  rcases hz with rfl | ⟨name, rfl⟩ <;> simp

theorem lastIndexOf_append {before last : List Char} (h : ':' ∉ last) :
    lastIndexOf (before ++ ':' :: last) = before.length := by
  have : ':' ∉ last.reverse := by simpa using h
  simp [lastIndexOf, List.idxOf_append_of_notMem this]

theorem octets_lt (q : Quad) : ∀ n ∈ q.octets, n < 256 := by
  simp only [Quad.octets, List.forall_mem_cons, Fin.is_lt, List.not_mem_nil, false_imp_iff, implies_true, and_self]

theorem quad_lt (q : Quad) : q.value < 2 ^ 32 :=
  lt_of_lt_of_eq (positional_lt (by decide) (octets_lt q)) (by norm_num [Quad.octets])

variable (net : Net)

theorem ipNumber_quad (q : Quad) : ipNumber net q.text = .ok ⟨32, q.value⟩ := by
  have haddress : q.text.takeWhile (· ≠ '%') = q.text := by
    have : (q.text ++ []).takeWhile (· ≠ '%') = q.text :=
      takeWhile_zone (fun h => by rcases mem_quad h with h | h <;> cases h) (.inl rfl)
    rwa [List.append_nil] at this
  have hsplit : q.text.splitOn '.' = q.octets.map (toDigits 10) :=
    List.splitOn_intercalate '.' (by
      simp only [List.forall_mem_map]
      exact fun n _ h => by cases Lib.toDigits_isDigit n '.' h) (by simp [Quad.octets])
  rw [ipNumber]
  simp only [haddress, (net.four q.text).mpr ⟨q, rfl⟩, if_true, hsplit]
  rw [@shiftIn_ok ℕ 10 8 (toDigits 10) id q.octets fun n hn =>
    ⟨bigInt_toDigits (by decide) (by decide) n, octets_lt q n hn⟩, List.map_id]
  rfl

def Ipv6.read (a : Ipv6) (last : List Word) : List Word :=
  let right := (a.right.getD []).map Group.word ++ last
  a.left.map Group.word ++ List.replicate (8 - a.left.length - right.length) (.ofNat 0 (by decide)) ++ right

theorem wordsOf_layout {a : Ipv6} {last : List Word} (hl : last.length = 2 * a.quad.toList.length) :
    wordsOf (a.layout (last.map (·.text))) = (a.read last).map (·.text) := by
  have hgroups (groups : List Group) : groups.map (·.digits) = (groups.map Group.word).map (·.text) := by
    rw [List.map_map]
    rfl
  obtain ⟨left, right, quad, count⟩ := a
  cases right with
  | none =>
    have hnone : 8 - left.length - last.length = 0 := by simp only at count hl; omega
    simp only [Ipv6.layout, hgroups, ← List.map_append, wordsOf_join]
    simp [Ipv6.read, hnone]
  | some right =>
    simp only [Ipv6.layout, hgroups, ← List.map_append, wordsOf_pair]
    simp [Ipv6.read]

theorem shiftIn_layout {a : Ipv6} {last : List Word} (hl : last.length = 2 * a.quad.toList.length) :
    shiftIn 16 16 (wordsOf (a.layout (last.map (·.text)))) = .ok (positional 65536 ((a.read last).map (·.value))) := by
  rw [wordsOf_layout hl]
  exact shiftIn_ok fun w _ => ⟨w.reads, w.small⟩

theorem layout_last {a : Ipv6} (h : a.quad.isSome) :
    ∃ before, ∀ w last, a.layout (w :: last) = before ++ ':' :: join (w :: last) := by
  obtain ⟨left, right, quad, count⟩ := a
  obtain ⟨q, rfl⟩ := Option.isSome_iff_exists.mp h
  rcases right with _ | _ | ⟨g, right⟩
  · have hleft : left.map (·.digits) ≠ [] := by
      rintro hnil
      rw [List.map_eq_nil_iff.mp hnil] at count
      simp at count
    exact ⟨join (left.map (·.digits)), fun w last => by simp [Ipv6.layout, join, Lib.intercalate_append _ _ _ hleft]⟩
  · exact ⟨join (left.map (·.digits)) ++ [':'], fun w last => by simp [Ipv6.layout]⟩
  · have hright : (g :: right).map (·.digits) ≠ [] := List.cons_ne_nil _ _
    refine ⟨join (left.map (·.digits)) ++ ':' :: ':' :: join ((g :: right).map (·.digits)), fun w last => ?_⟩
    simp only [Ipv6.layout, join, Lib.intercalate_append _ _ _ hright, List.append_assoc, List.cons_append, List.nil_append]

theorem ipNumber_six (a : Ipv6) (zone : Zone) :
    ipNumber net (a.text ++ zone.text) = .ok ⟨128, positional 65536 a.words⟩ := by
  have haddress : (a.text ++ zone.text).takeWhile (· ≠ '%') = a.text :=
    takeWhile_zone (fun h => by rcases mem_ipv6 h with h | h | h <;> cases h)
      (zone.named.imp_right fun ⟨name, h, _⟩ => ⟨name, h⟩)
  have hsix : net.isIP a.text = 6 := (net.six _).mpr ⟨a, ⟨[], .inl rfl⟩, (List.append_nil _).symm⟩
  have hfour : ¬(6 : ℕ) = 4 := by decide
  rw [ipNumber]
  simp only [haddress, hsix, hfour, if_false, ne_eq, not_true_eq_false]
  cases hq : a.quad with
  | none =>
    have htext : a.text = a.layout (([] : List Word).map (·.text)) := by rw [Ipv6.text, hq]; rfl
    have hdot : '.' ∉ a.text := fun h => by
      rw [htext] at h
      rcases mem_layout h with h | h | ⟨_, h, _⟩ <;> cases h
    rw [dif_neg hdot, htext, shiftIn_layout (by rw [hq]; rfl)]
    simp [Ipv6.read, Ipv6.words, hq, Function.comp_def, Group.word, Word.ofNat]
  | some q =>
    obtain ⟨before, hbefore⟩ := layout_last (a := a) (by rw [hq]; rfl)
    have htext : a.text = before ++ ':' :: q.text := by
      rw [Ipv6.text, hq]
      exact (hbefore _ _).trans (by simp [join])
    have hdot : '.' ∈ a.text := by
      rw [htext]
      simp [Quad.text, Quad.octets, List.intercalate_cons_cons]
    have hindex : lastIndexOf a.text = before.length := by
      rw [htext]
      exact lastIndexOf_append fun h => by rcases mem_quad h with h | h <;> cases h
    have hdrop : a.text.drop (before.length + 1) = q.text := by rw [htext]; simp
    have htake : a.text.take before.length = before := by rw [htext]; simp
    have hhi : q.value >>> 16 = q.value / 65536 := Nat.shiftRight_eq_div_pow _ 16
    have hlo : q.value &&& 65535 = q.value % 65536 := Nat.and_two_pow_sub_one_eq_mod _ 16
    have hlt := quad_lt q
    have hexpanded := hbefore (toDigits 16 (q.value / 65536)) [toDigits 16 (q.value % 65536)]
    have hwords := @shiftIn_layout a [.ofNat (q.value / 65536) (by omega), .ofNat (q.value % 65536) (by omega)]
      (by rw [hq]; rfl)
    rw [dif_pos hdot, hindex, hdrop, htake, ipNumber_quad]
    simp only [Word.ofNat, List.map_cons, List.map_nil, hexpanded] at hwords
    simp only [join, List.intercalate_cons_cons, List.intercalate_singleton, List.append_assoc, List.cons_append,
      List.nil_append] at hwords
    change (do return (⟨128, ← shiftIn 16 16 (wordsOf (before ++ ':' :: toDigits 16 (q.value >>> 16) ++
      ':' :: toDigits 16 (q.value &&& 65535)))⟩ : IpNumber)) = _
    rw [hhi, hlo, List.append_assoc, List.cons_append, hwords]
    simp [Ipv6.read, Ipv6.words, hq, Function.comp_def, Group.word, Word.ofNat]

theorem ipNumber_text (a : Address) : ipNumber net a.text = .ok ⟨a.bits, a.value⟩ := by
  cases a with
  | four quad => exact ipNumber_quad net quad
  | six a zone => exact ipNumber_six net a zone

-- Segments

theorem slash_not_mem (a : Address) : '/' ∉ a.text := by
  cases a with
  | four quad => exact fun h => by rcases mem_quad h with h | h <;> cases h
  | six a zone =>
    rw [Address.text, List.mem_append, not_or]
    refine ⟨fun h => (by rcases mem_ipv6 h with h | h | h <;> cases h), fun h => ?_⟩
    rcases zone.named with hnil | ⟨name, hname, -, hall⟩
    · rw [hnil] at h
      cases h
    · rw [hname, List.mem_cons] at h
      rcases h with h | h
      · cases h
      · exact absurd (hall _ h) (by decide)

theorem value_lt (a : Address) : a.value < 2 ^ a.bits := by
  cases a with
  | four quad => exact quad_lt quad
  | six a zone =>
    have hwords : ∀ w ∈ a.words, w < 65536 := by
      simp only [Ipv6.words, List.mem_append, List.mem_map, List.mem_replicate, List.mem_flatMap, List.mem_cons,
        List.not_mem_nil, or_false]
      rintro _ ((⟨g, -, rfl⟩ | ⟨-, rfl⟩) | ⟨g, -, rfl⟩ | ⟨q, -, rfl | rfl⟩)
      · exact g.word.small
      · decide
      · exact g.word.small
      · exact Nat.div_lt_of_lt_mul (quad_lt q)
      · exact Nat.mod_lt _ (by decide)
    have hlength : a.words.length = 8 := by
      obtain ⟨left, right, quad, count⟩ := a
      cases right <;> cases quad <;> simp [Ipv6.words] at count ⊢ <;> omega
    have := positional_lt (by decide) hwords
    rw [hlength] at this
    exact lt_of_lt_of_eq this (by norm_num [Address.bits])

structure Cidr where
  network : Address
  digits : List Char
  ne_nil : digits ≠ []
  decimal : ∀ c ∈ digits, c.isDigit
  positive : 0 < Nat.ofDigitChars 10 digits 0
  confined : Nat.ofDigitChars 10 digits 0 ≤ network.bits
  canonical : 2 ^ (network.bits - Nat.ofDigitChars 10 digits 0) ∣ network.value

def Cidr.length (cidr : Cidr) : ℕ := Nat.ofDigitChars 10 cidr.digits 0

def Cidr.text (cidr : Cidr) : List Char := cidr.network.text ++ '/' :: cidr.digits

theorem shiftRight_eq_iff {x y bits length : ℕ} (hx : x < 2 ^ bits) (hy : y < 2 ^ bits) (h : length ≤ bits) :
    x >>> (bits - length) = y >>> (bits - length) ↔
      ∀ i < length, x.testBit (bits - 1 - i) = y.testBit (bits - 1 - i) := by
  constructor
  · intro he i hi
    have := congrArg (Nat.testBit · (length - 1 - i)) he
    simp only [Nat.testBit_shiftRight] at this
    rwa [show bits - length + (length - 1 - i) = bits - 1 - i by omega] at this
  · intro he
    refine Nat.eq_of_testBit_eq fun j => ?_
    rw [Nat.testBit_shiftRight, Nat.testBit_shiftRight]
    by_cases hj : j < length
    · have := he (length - 1 - j) (by omega)
      rwa [show bits - 1 - (length - 1 - j) = bits - length + j by omega] at this
    · have hbits : 2 ^ bits ≤ 2 ^ (bits - length + j) := Nat.pow_le_pow_right (by decide) (by omega)
      rw [Nat.testBit_lt_two_pow (hx.trans_le hbits), Nat.testBit_lt_two_pow (hy.trans_le hbits)]

theorem inCidr_text (a : Address) (cidr : Cidr) : inCidr net a.text cidr.text = .ok (decide (a.bits = cidr.network.bits ∧
    ∀ i < cidr.length, a.value.testBit (a.bits - 1 - i) = cidr.network.value.testBit (a.bits - 1 - i))) := by
  have hparts : cidr.text.splitOn '/' = [cidr.network.text, cidr.digits] := by
    have hdigits : '/' ∉ cidr.digits := fun h => by cases cidr.decimal _ h
    rw [Cidr.text, List.splitOn_append_cons_self_of_not_mem (slash_not_mem _), List.splitOn_eq_singleton hdigits]
  have hall : cidr.digits.all Char.isDigit := List.all_eq_true.mpr cidr.decimal
  have hrange : ¬(Nat.ofDigitChars 10 cidr.digits 0 ≤ 0 ∨ Nat.ofDigitChars 10 cidr.digits 0 > cidr.network.bits) := by
    have := cidr.positive
    have := cidr.confined
    omega
  have hcanonical : cidr.network.value >>> (cidr.network.bits - Nat.ofDigitChars 10 cidr.digits 0) <<<
      (cidr.network.bits - Nat.ofDigitChars 10 cidr.digits 0) = cidr.network.value := by
    rw [Nat.shiftRight_eq_div_pow, Nat.shiftLeft_eq, Nat.div_mul_cancel cidr.canonical]
  unfold inCidr
  simp only [hparts, List.getElem?_cons_succ, List.getElem?_cons_zero, Option.getD_some, List.headD_cons, List.length_cons,
    List.length_nil, cidr.ne_nil, hall, ipNumber_text, ne_eq, not_true_eq_false, or_self, if_false]
  change (if _ then _ else if _ then _ else if _ then _ else _) = _
  rw [if_neg hrange]
  by_cases hbits : a.bits = cidr.network.bits
  · have hlt := value_lt a
    rw [hbits] at hlt
    have hsame := shiftRight_eq_iff hlt (value_lt cidr.network) cidr.confined
    rw [if_neg (not_not.mpr hbits), if_neg (not_not.mpr hcanonical)]
    simp only [hbits, true_and]
    exact congrArg Except.ok (decide_eq_decide.mpr hsame)
  · rw [if_pos hbits]
    simp only [hbits, false_and, decide_false]
    rfl

/-- Of the texts that `net.isIP` accepts, `ipNumber` returns the width and the
value, so `sameIp` and `inCidr` compare these. -/
theorem addresses_exact :
    (∀ text, net.isIP text = 4 ∨ net.isIP text = 6 → ∃ a : Address, a.text = text) ∧
    (∀ a : Address, (net.isIP a.text = 4 ∨ net.isIP a.text = 6) ∧ ipNumber net a.text = .ok ⟨a.bits, a.value⟩ ∧
      a.value < 2 ^ a.bits) ∧
    (∀ a b : Address, sameIp net a.text b.text = .ok (decide (a.bits = b.bits ∧ a.value = b.value))) ∧
    ∀ (a : Address) (cidr : Cidr), inCidr net a.text cidr.text = .ok (decide (a.bits = cidr.network.bits ∧
      ∀ i < cidr.length, a.value.testBit (a.bits - 1 - i) = cidr.network.value.testBit (a.bits - 1 - i))) := by
  refine ⟨?_, fun a => ⟨?_, ipNumber_text net a, value_lt a⟩, fun a b => ?_, inCidr_text net⟩
  · rintro text (h | h)
    · obtain ⟨quad, rfl⟩ := (net.four text).mp h
      exact ⟨.four quad, rfl⟩
    · obtain ⟨a, zone, rfl⟩ := (net.six text).mp h
      exact ⟨.six a zone, rfl⟩
  · cases a with
    | four quad => exact .inl ((net.four _).mpr ⟨quad, rfl⟩)
    | six a zone => exact .inr ((net.six _).mpr ⟨a, zone, rfl⟩)
  · unfold sameIp
    rw [ipNumber_text, ipNumber_text]
    exact congrArg Except.ok (Bool.decide_and _ _).symm

theorem colon_mem (a : Ipv6) : ':' ∈ a.text := by
  obtain ⟨left, right, quad, count⟩ := a
  cases right with
  | some right => exact List.mem_append_right _ List.mem_cons_self
  | none =>
    have hlength : 2 ≤ (left.map (·.digits) ++ quad.toList.map (·.text)).length := by
      cases quad <;> simp at count ⊢ <;> omega
    change ':' ∈ join (left.map (·.digits) ++ quad.toList.map (·.text))
    match left.map (·.digits) ++ quad.toList.map (·.text), hlength with
    | _ :: _ :: _, _ => simp [join, List.intercalate_cons_cons]

open Classical in
noncomputable def Net.accepting : Net where
  isIP text := if ∃ quad : Quad, text = quad.text then 4
    else if ∃ (a : Ipv6) (zone : Zone), text = a.text ++ zone.text then 6 else 0
  four text := by
    split
    · rename_i h
      exact iff_of_true rfl h
    · rename_i h
      exact iff_of_false (by split <;> decide) h
  six text := by
    split
    · rename_i h
      obtain ⟨quad, rfl⟩ := h
      refine iff_of_false (by decide) ?_
      rintro ⟨a, zone, ha⟩
      have hcolon : ':' ∈ quad.text := ha ▸ List.mem_append_left _ (colon_mem a)
      rcases mem_quad hcolon with h | h <;> cases h
    · split
      · rename_i h
        exact iff_of_true rfl h
      · rename_i h
        exact iff_of_false (by decide) h

theorem addresses_exact_accepting : ipNumber .accepting "192.168.0.7".toList = .ok ⟨32, 3232235527⟩ :=
  ((addresses_exact .accepting).2.1 (.four ⟨192, 168, 0, 7⟩)).2.1

end WotAv.Discovery.Ip
