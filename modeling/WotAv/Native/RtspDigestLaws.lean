import Mathlib.Data.Option.Basic
import WotAv.Native.RtspDigest

/-!
# Replay of RTSP Digest headers

A header is read back with the grammar of its parameters. Where a nonce does
not come back after another one, no two headers have one nonce and one count.
-/

namespace WotAv.Native.Digest

open WotAv.Lib

-- The grammar of headers

def isTokenByte (b : UInt8) : Bool := 33 ≤ b && b ≤ 126 && b ∉ utf8 "\"(),/:;<=>?@[\\]\x7b\x7d"

def unquote : Bytes → Option (Bytes × Bytes)
  | [] => none
  | 34 :: rest => some ([], rest)
  | 92 :: b :: rest => (unquote rest).map fun (value, rest) => (b :: value, rest)
  | b :: rest => (unquote rest).map fun (value, rest) => (b :: value, rest)

def parameter (text : Bytes) : Option ((Bytes × Bytes) × Bytes) :=
  let name := text.takeWhile isTokenByte
  if name = [] then none
  else match text.dropWhile isTokenByte with
    | 61 :: 34 :: rest => (unquote rest).map fun (value, rest) => ((name, value), rest)
    | 61 :: rest =>
      if rest.takeWhile isTokenByte = [] then none
      else some ((name, rest.takeWhile isTokenByte), rest.dropWhile isTokenByte)
    | _ => none

def parameters : ℕ → Bytes → Option Table
  | 0, _ => none
  | fuel + 1, text => match parameter text with
    | none => none
    | some (param, []) => some [param]
    | some (param, b :: rest) =>
      if b = 44 then (parameters fuel (rest.dropWhile (· = 32))).map (param :: ·) else none

def splitHeader (text : Bytes) : Option Table :=
  if utf8 "Digest " <+: text then parameters text.length (text.drop 7) else none

structure Field where
  name : Bytes
  value : Bytes
  isQuoted : Bool

def Field.render (field : Field) : Bytes :=
  field.name ++ 61 :: (if field.isQuoted then quoted field.value else field.value)

def joined : List Field → Bytes
  | [] => []
  | [field] => field.render
  | field :: fields => field.render ++ 44 :: 32 :: joined fields

def Token (text : Bytes) : Prop := text ≠ [] ∧ ∀ b ∈ text, isTokenByte b = true

instance (text : Bytes) : Decidable (Token text) :=
  decidable_of_iff (text ≠ [] ∧ text.all isTokenByte = true) (by simp [Token])

structure Field.Valid (field : Field) : Prop where
  name : Token field.name
  value : field.isQuoted = false → Token field.value

theorem unquote_quoted (value rest : Bytes) :
    unquote (value.flatMap (fun b => if b = 34 ∨ b = 92 then [92, b] else [b]) ++ 34 :: rest) = some (value, rest) := by
  induction value with
  | nil => simp [unquote]
  | cons b value ih =>
    by_cases hb : b = 34 ∨ b = 92
    · simp [hb, unquote, ih]
    · obtain ⟨hquote, hslash⟩ := not_or.mp hb
      simp only [List.flatMap_cons, hb, if_false, List.cons_append]
      rw [unquote]
      · simp [ih]
      · exact hquote
      · rintro e rest' rfl
        exact absurd rfl hslash

theorem Token.take {text rest : Bytes} (h : Token text) (hrest : ∀ b ∈ rest.head?, isTokenByte b = false) :
    (text ++ rest).takeWhile isTokenByte = text ∧ (text ++ rest).dropWhile isTokenByte = rest := by
  have hnone : rest.takeWhile isTokenByte = [] ∧ rest.dropWhile isTokenByte = rest := by
    cases rest with
    | nil => simp
    | cons b rest => simp [hrest b rfl]
  rw [List.takeWhile_append_of_pos h.2, List.dropWhile_append_of_pos h.2, hnone.1, hnone.2, List.append_nil]
  exact ⟨rfl, rfl⟩

theorem parameter_render {field : Field} (h : field.Valid) {rest : Bytes}
    (hrest : rest = [] ∨ ∃ more, rest = 44 :: more) :
    parameter (field.render ++ rest) = some ((field.name, field.value), rest) := by
  obtain ⟨name, value, isQuoted⟩ := field
  have hstop : ∀ b ∈ rest.head?, isTokenByte b = false := by
    rcases hrest with rfl | ⟨more, rfl⟩
    · simp
    · rintro b ⟨rfl⟩
      decide
  have hname : Token name := h.name
  have hequals : ∀ b ∈ (61 :: ((if isQuoted then quoted value else value) ++ rest)).head?, isTokenByte b = false := by
    rintro b ⟨rfl⟩
    decide
  have hsplit := hname.take hequals
  rw [Field.render, List.append_assoc, List.cons_append]
  unfold parameter
  rw [hsplit.1, hsplit.2, if_neg hname.1]
  cases isQuoted with
  | true => simp [quoted, unquote_quoted]
  | false =>
    have hvalue : Token value := h.value rfl
    obtain ⟨htake, hdrop⟩ := hvalue.take hstop
    cases value with
    | nil => exact absurd rfl hvalue.1
    | cons b value =>
      have hb : b ≠ 34 := by
        rintro rfl
        exact absurd (hvalue.2 34 List.mem_cons_self) (by decide)
      simp only [Bool.false_eq_true, if_false, List.cons_append] at htake hdrop ⊢
      split
      · rename_i heq
        simp at heq
        exact absurd heq.1 hb
      · rename_i heq
        obtain rfl := (List.cons.inj heq).2
        rw [htake, hdrop, if_neg (by simp)]
      · rename_i hnot
        exact absurd rfl (hnot _)

theorem parameters_joined {fields : List Field} (hne : fields ≠ []) (h : ∀ field ∈ fields, field.Valid) {fuel : ℕ}
    (hfuel : fields.length ≤ fuel) :
    parameters fuel (joined fields) = some (fields.map fun field => (field.name, field.value)) := by
  induction fields generalizing fuel with
  | nil => exact absurd rfl hne
  | cons field fields ih =>
    obtain ⟨hfield, hfields⟩ := List.forall_mem_cons.mp h
    cases fuel with
    | zero => simp at hfuel
    | succ fuel =>
      cases fields with
      | nil =>
        have hlast := parameter_render hfield (.inl rfl)
        rw [List.append_nil] at hlast
        simp [joined, parameters, hlast]
      | cons next fields =>
        have hfirst : parameter (field.render ++ 44 :: 32 :: joined (next :: fields)) =
            some ((field.name, field.value), 44 :: 32 :: joined (next :: fields)) :=
          parameter_render hfield (.inr ⟨_, rfl⟩)
        have hnext := ih (by simp) hfields (Nat.le_of_succ_le_succ hfuel)
        have hspace : (32 :: joined (next :: fields)).dropWhile (· = 32) = joined (next :: fields) := by
          obtain ⟨⟨hname, htoken⟩, -⟩ := hfields next List.mem_cons_self
          obtain ⟨b, name, hb⟩ := List.exists_cons_of_ne_nil hname
          have hhead : ∃ more, joined (next :: fields) = b :: more := by
            cases fields <;> simp [joined, Field.render, hb]
          obtain ⟨more, hmore⟩ := hhead
          have hbyte : b ≠ 32 := by
            rintro rfl
            exact absurd (htoken 32 (by simp [hb])) (by decide)
          simp [hmore, hbyte]
        simp [joined, parameters, hfirst, hspace, hnext]

-- Fields

def digitValue (b : UInt8) : ℕ := if b ≤ 57 then b.toNat - 48 else b.toNat - 87

def hexValue (text : Bytes) : ℕ := text.foldl (fun n b => 16 * n + digitValue b) 0

theorem digitValue_hexDigit : ∀ n < 16, digitValue (hexDigit n) = n := by decide

theorem isTokenByte_hexDigit : ∀ n < 16, isTokenByte (hexDigit n) = true := by decide

theorem token_hex (width n : ℕ) : Token (hex (width + 1) n) := by
  refine ⟨by simp [hex], ?_⟩
  generalize width + 1 = width
  induction width with
  | zero => simp [hex]
  | succ width ih => simpa [hex] using ⟨isTokenByte_hexDigit _ (Nat.mod_lt _ (by decide)), ih⟩

theorem hexValue_hex (width n : ℕ) : hexValue (hex width n) = n % 16 ^ width := by
  have hfold : ∀ m, (hex width n).foldl (fun n b => 16 * n + digitValue b) m = m * 16 ^ width + n % 16 ^ width := by
    induction width with
    | zero => simp [hex, Nat.mod_one]
    | succ width ih =>
      intro m
      rw [hex, List.foldl_cons, ih, digitValue_hexDigit _ (Nat.mod_lt _ (by decide)), pow_succ, Nat.mod_mul]
      ring
  simpa [hexValue] using hfold 0

def fieldsOf (c : Checked) (state : P0DigestState) (response : Bytes) : List Field :=
  [⟨utf8 "username", c.user, true⟩, ⟨utf8 "realm", c.realm, true⟩, ⟨utf8 "nonce", c.nonce, true⟩,
    ⟨utf8 "uri", c.uri, true⟩, ⟨utf8 "response", response, true⟩, ⟨utf8 "algorithm", algorithmOf c.rank, false⟩] ++
  (if 1 < c.rank then
    [⟨utf8 "qop", utf8 "auth", false⟩, ⟨utf8 "nc", hex 8 state.count, false⟩, ⟨utf8 "cnonce", state.cnonce, true⟩]
  else []) ++
  (match c.opaqueValue with
  | some value => [⟨utf8 "opaque", value, true⟩]
  | none => [])

def pairsOf (c : Checked) (state : P0DigestState) (response : Bytes) : Table :=
  (fieldsOf c state response).map fun field => (field.name, field.value)

theorem text_eq (c : Checked) (state : P0DigestState) (response : Bytes) :
    text c state response = utf8 "Digest " ++ joined (fieldsOf c state response) := by
  cases hvalue : c.opaqueValue <;> by_cases hrank : 1 < c.rank <;>
    simp only [text, fieldsOf, hvalue, hrank, if_true, if_false, joined, Field.render, List.cons_append,
      List.nil_append, List.append_nil, List.append_assoc, Bool.false_eq_true] <;> rfl

theorem Field.valid_quoted (name : String) (h : Token (utf8 name)) (value : Bytes) :
    Field.Valid ⟨utf8 name, value, true⟩ := ⟨h, nofun⟩

theorem fieldsOf_valid (c : Checked) (state : P0DigestState) (response : Bytes) :
    ∀ field ∈ fieldsOf c state response, field.Valid := by
  have halgorithm : Field.Valid ⟨utf8 "algorithm", algorithmOf c.rank, false⟩ := by
    refine ⟨(by decide : Token (utf8 "algorithm")), fun _ => ?_⟩
    unfold algorithmOf
    split
    · exact (by decide : Token (utf8 "SHA-256"))
    · exact (by decide : Token (utf8 "MD5"))
  have hqop : Field.Valid ⟨utf8 "qop", utf8 "auth", false⟩ :=
    ⟨(by decide : Token (utf8 "qop")), fun _ => (by decide : Token (utf8 "auth"))⟩
  have hnc : Field.Valid ⟨utf8 "nc", hex 8 state.count, false⟩ :=
    ⟨(by decide : Token (utf8 "nc")), fun _ => token_hex 7 _⟩
  intro field hfield
  rcases List.mem_append.mp hfield with hfield | hfield
  · rcases List.mem_append.mp hfield with hfield | hfield
    · simp only [List.mem_cons, List.not_mem_nil, or_false] at hfield
      rcases hfield with rfl | rfl | rfl | rfl | rfl | rfl
      · exact Field.valid_quoted "username" (by decide) _
      · exact Field.valid_quoted "realm" (by decide) _
      · exact Field.valid_quoted "nonce" (by decide) _
      · exact Field.valid_quoted "uri" (by decide) _
      · exact Field.valid_quoted "response" (by decide) _
      · exact halgorithm
    · split at hfield
      · simp only [List.mem_cons, List.not_mem_nil, or_false] at hfield
        rcases hfield with rfl | rfl | rfl
        · exact hqop
        · exact hnc
        · exact Field.valid_quoted "cnonce" (by decide) _
      · cases hfield
  · split at hfield
    · obtain rfl := List.mem_singleton.mp hfield
      exact Field.valid_quoted "opaque" (by decide) _
    · cases hfield

theorem length_joined (fields : List Field) : fields.length ≤ (joined fields).length := by
  induction fields with
  | nil => simp
  | cons field fields ih =>
    cases fields with
    | nil =>
      simp only [joined, Field.render, List.length_append, List.length_cons, List.length_nil]
      omega
    | cons next fields =>
      rw [joined]
      · generalize joined (next :: fields) = rest at ih ⊢
        simp only [List.length_append, List.length_cons] at ih ⊢
        omega
      · simp

theorem splitHeader_text (c : Checked) (state : P0DigestState) (response : Bytes) :
    splitHeader (text c state response) = some (pairsOf c state response) := by
  have hne : fieldsOf c state response ≠ [] := by simp [fieldsOf]
  have hlength : (fieldsOf c state response).length ≤ (text c state response).length := by
    rw [text_eq, List.length_append]
    exact Nat.le_add_left_of_le (length_joined _)
  unfold splitHeader
  rw [text_eq, if_pos (List.prefix_append _ _)]
  rw [text_eq] at hlength
  exact parameters_joined hne (fieldsOf_valid c state response) hlength

-- What a header says

def nonceIn (fields : Table) : Option Bytes := fields.lookup (utf8 "nonce")

def realmIn (fields : Table) : Option Bytes := fields.lookup (utf8 "realm")

def countIn (fields : Table) : Option ℕ := (fields.lookup (utf8 "nc")).map hexValue

def rankIn (fields : Table) : ℕ :=
  if fields.lookup (utf8 "algorithm") = some (utf8 "SHA-256") then 3
  else if (fields.lookup (utf8 "qop")).isSome then 2 else 1

def Splits (call : Call) (header : Bytes) : Prop :=
  ∃ params fields, call.params = some params ∧ splitHeader header = some fields ∧ (fields.map Prod.fst).Nodup ∧
    fields.lookup (utf8 "username") = call.user ∧ realmIn fields = params.lookup (utf8 "realm") ∧
    nonceIn fields = params.lookup (utf8 "nonce") ∧ fields.lookup (utf8 "uri") = call.uri ∧
    fields.lookup (utf8 "opaque") = params.lookup (utf8 "opaque")

section
variable (c : Checked) (state : P0DigestState) (response : Bytes)

theorem pairsOf_eq : pairsOf c state response =
    [(utf8 "username", c.user), (utf8 "realm", c.realm), (utf8 "nonce", c.nonce), (utf8 "uri", c.uri),
      (utf8 "response", response), (utf8 "algorithm", algorithmOf c.rank)] ++
    (if 1 < c.rank then
      [(utf8 "qop", utf8 "auth"), (utf8 "nc", hex 8 state.count), (utf8 "cnonce", state.cnonce)] else []) ++
    (c.opaqueValue.map fun value => (utf8 "opaque", value)).toList := by
  unfold pairsOf fieldsOf
  cases c.opaqueValue <;> split <;> rfl

theorem nodup_pairsOf : ((pairsOf c state response).map Prod.fst).Nodup := by
  rw [pairsOf_eq]
  cases c.opaqueValue <;> split <;> simp only [List.map_append, List.map_cons, List.map_nil, Option.map_some,
    Option.map_none, Option.toList_some, Option.toList_none] <;> decide

theorem lookup_pairsOf : (pairsOf c state response).lookup (utf8 "username") = some c.user ∧
    realmIn (pairsOf c state response) = some c.realm ∧ nonceIn (pairsOf c state response) = some c.nonce ∧
    (pairsOf c state response).lookup (utf8 "uri") = some c.uri ∧
    (pairsOf c state response).lookup (utf8 "opaque") = c.opaqueValue := by
  rw [pairsOf_eq]
  refine ⟨rfl, rfl, rfl, rfl, ?_⟩
  cases c.opaqueValue <;> split <;> rfl

theorem rankIn_pairsOf (h : c.rank ≠ 0 ∧ c.rank ≤ 3) : rankIn (pairsOf c state response) = c.rank := by
  rw [pairsOf_eq]
  unfold algorithmOf
  obtain ⟨hpos, hle⟩ := h
  have hcases : c.rank = 1 ∨ c.rank = 2 ∨ c.rank = 3 := by omega
  rcases hcases with hrank | hrank | hrank <;> rw [hrank] <;> cases c.opaqueValue <;> rfl

theorem countIn_pairsOf (h : state.count ≤ G_MAXUINT32) :
    countIn (pairsOf c state response) = if 1 < c.rank then some state.count else none := by
  have hvalue : hexValue (hex 8 state.count) = state.count := by
    rw [hexValue_hex]
    refine Nat.mod_eq_of_lt (Nat.lt_of_le_of_lt h ?_)
    norm_num [G_MAXUINT32]
  rw [pairsOf_eq]
  by_cases hrank : 1 < c.rank
  · rw [if_pos hrank, if_pos hrank]
    cases c.opaqueValue <;> exact congrArg some hvalue
  · rw [if_neg hrank, if_neg hrank]
    cases c.opaqueValue <;> rfl

end

-- Calls

variable {lib : Library}

theorem rank_le (algorithm qop charset userhash : Option Bytes) : rank lib algorithm qop charset userhash ≤ 3 := by
  unfold rank
  dsimp only
  repeat' split
  all_goals simp

theorem filter_some {value : Option Bytes} {kept : Bytes} (h : value.filter (safeAscii lib) = some kept) :
    value = some kept ∧ safeAscii lib kept = true := by
  obtain ⟨hvalue, hkept⟩ := Option.filter_eq_some_iff.mp h
  exact ⟨hvalue, hkept⟩

structure Passes (lib : Library) (state : P0DigestState) (call : Call) (c : Checked) : Prop where
  params : ∃ params, call.params = some params ∧ c.rank = tableRank lib params ∧
    params.lookup (utf8 "realm") = some c.realm ∧ params.lookup (utf8 "nonce") = some c.nonce ∧
    params.lookup (utf8 "opaque") = c.opaqueValue
  rank : c.rank ≠ 0 ∧ c.rank ≤ 3
  strongest : state.strongest ≤ c.rank
  realm : ∀ realm, state.realm = some realm → realm = c.realm
  user : call.user = some c.user
  uri : call.uri = some c.uri
  safe : safeAscii lib c.method ∧ safeAscii lib c.realm ∧ safeAscii lib c.user ∧ safeAscii lib c.password ∧
    safeAscii lib c.uri ∧ safeAscii lib c.nonce

variable {state : P0DigestState} {call : Call}

variable {c : Checked}

theorem checked_some (h : checked lib state call = some c) :
    Passes lib state call c := by
  unfold checked at h
  simp only [Option.bind_eq_bind, Option.bind_eq_some_iff, Option.guard_eq_some', Option.pure_def, Option.some.injEq] at h
  obtain ⟨params, hparams, -, ⟨hrank, hstrongest⟩, realm, hrealm, nonce, hnonce, -, ⟨-, -, hpinned⟩, user, huser, -, -,
    password, hpassword, method, hmethod, uri, huri, rfl⟩ := h
  obtain ⟨hrealm, hrealmSafe⟩ := filter_some hrealm
  obtain ⟨hnonce, hnonceSafe⟩ := filter_some hnonce
  obtain ⟨huser, huserSafe⟩ := filter_some huser
  obtain ⟨-, hpasswordSafe⟩ := filter_some hpassword
  obtain ⟨-, hmethodSafe⟩ := filter_some hmethod
  obtain ⟨huri, huriSafe⟩ := filter_some huri
  exact {
    params := ⟨params, hparams, rfl, hrealm, hnonce, rfl⟩
    rank := ⟨hrank, rank_le _ _ _ _⟩
    strongest := hstrongest
    realm := by
      intro pinned hstate
      simpa [hstate] using hpinned
    user := huser
    uri := huri
    safe := ⟨hmethodSafe, hrealmSafe, huserSafe, hpasswordSafe, huriSafe, hnonceSafe⟩ }

theorem Passes.splits (h : Passes lib state call c)
    (after : P0DigestState) (response : Bytes) : Splits call (text c after response) := by
  obtain ⟨params, hparams, -, hrealm, hnonce, hopaque⟩ := h.params
  obtain ⟨huser, hrealmIn, hnonceIn, huri, hopaqueIn⟩ := lookup_pairsOf c after response
  exact ⟨params, _, hparams, splitHeader_text c after response, nodup_pairsOf c after response, huser.trans h.user.symm,
    hrealmIn.trans hrealm.symm, hnonceIn.trans hnonce.symm, huri.trans h.uri.symm, hopaqueIn.trans hopaque.symm⟩

section
variable (state : P0DigestState) (c : Checked)

theorem adopt_eq : state.adopt c = { state with
    realm := state.realm.or (some c.realm), nonce := some c.nonce
    count := if state.nonce = some c.nonce then state.count else 0
    cnonce := if state.nonce = some c.nonce then state.cnonce else [] } := by
  obtain ⟨nonce, realm, cnonce, count, strongest⟩ := state
  unfold P0DigestState.adopt
  by_cases hnonce : nonce = some c.nonce <;> cases realm <;> simp [hnonce]

theorem adopt_realm (h : ∀ realm, state.realm = some realm → realm = c.realm) :
    (state.adopt c).realm = some c.realm := by
  rw [adopt_eq]
  cases hrealm : state.realm with
  | none => rfl
  | some realm => exact congrArg some (h realm hrealm)

@[simp] theorem adopt_nonce : (state.adopt c).nonce = some c.nonce := by rw [adopt_eq]

@[simp] theorem adopt_strongest : (state.adopt c).strongest = state.strongest := by rw [adopt_eq]

theorem adopt_count : (state.adopt c).count = if state.nonce = some c.nonce then state.count else 0 := by rw [adopt_eq]

theorem adopt_cnonce : (state.adopt c).cnonce = if state.nonce = some c.nonce then state.cnonce else [] := by rw [adopt_eq]

theorem adopt_self (hrealm : state.realm ≠ none) (hnonce : state.nonce = some c.nonce) : state.adopt c = state := by
  unfold P0DigestState.adopt
  simp [hnonce, Option.isNone_iff_eq_none, hrealm]

end

theorem isTokenByte_range {b : UInt8} (h : isTokenByte b = true) : 33 ≤ b ∧ b ≤ 126 := by
  simp only [isTokenByte, Bool.and_eq_true, decide_eq_true_eq] at h
  exact h.1

theorem safeAscii_token (hascii : lib.Ascii) {value : Bytes} (h : ∀ b ∈ value, isTokenByte b = true)
    (hlength : value.length ≤ 2048) : safeAscii lib value = true := by
  have hbyte : ∀ b ∈ value, b < 128 ∧ 0x20 ≤ b ∧ b ≠ 0x7f := by
    intro b hb
    have hrange := isTokenByte_range (h b hb)
    simp only [UInt8.le_iff_toNat_le, UInt8.lt_iff_toNat_lt, ne_eq, ← UInt8.toNat_inj] at hrange ⊢
    simp only [UInt8.reduceToNat] at hrange ⊢
    omega
  have hvalid := hascii value fun b hb => (hbyte b hb).1
  simp only [safeAscii, hvalid, Bool.and_true, Bool.and_eq_true, decide_eq_true_eq, List.all_eq_true]
  exact ⟨hlength, fun b hb => (hbyte b hb).2⟩

theorem length_hex (width n : ℕ) : (hex width n).length = width := by
  induction width with
  | zero => rfl
  | succ width ih => simp [hex, ih]

def SafeCnonce (lib : Library) (state : P0DigestState) : Prop := state.cnonce = [] ∨ safeAscii lib state.cnonce = true

theorem SafeCnonce.adopt (h : SafeCnonce lib state) (c : Checked) :
    SafeCnonce lib (state.adopt c) := by
  unfold SafeCnonce
  rw [adopt_cnonce]
  split
  · exact h
  · exact .inl rfl

theorem draw_some (hascii : lib.Ascii) {state drawn : P0DigestState} {random : Option (Fin 16 → UInt8)}
    (h : state.draw c random = some drawn) (hsafe : SafeCnonce lib state) :
    drawn = { state with cnonce := drawn.cnonce } ∧ SafeCnonce lib drawn ∧ (1 < c.rank → drawn.cnonce ≠ []) ∧
      (¬ NeedsCnonce state c → drawn = state) := by
  unfold P0DigestState.draw at h
  split at h
  · rename_i hneeds
    obtain ⟨bytes, -, rfl⟩ := Option.map_eq_some_iff.mp h
    have htoken : ∀ b ∈ (List.ofFn bytes).flatMap fun b => hex 2 b.toNat, isTokenByte b = true := by
      intro b hb
      obtain ⟨byte, -, hb⟩ := List.mem_flatMap.mp hb
      exact (token_hex 1 byte.toNat).2 b hb
    have hlength : ((List.ofFn bytes).flatMap fun b => hex 2 b.toNat).length = 32 := by
      simp [length_hex]
    refine ⟨rfl, .inr (safeAscii_token hascii htoken ?_), fun _ hnil => ?_, absurd hneeds⟩
    · dsimp only
      omega
    · dsimp only at hnil
      rw [hnil] at hlength
      cases hlength
  · rename_i hneeds
    obtain rfl := Option.some.inj h
    exact ⟨rfl, hsafe, fun hrank hnil => hneeds ⟨hrank, hnil⟩, fun _ => rfl⟩

theorem response_some (h : Passes lib state call c)
    (after : P0DigestState) (hsafe : SafeCnonce lib after) (hcnonce : 1 < c.rank → after.cnonce ≠ [])
    (hcount : after.count ≠ 0) : ∃ value, response lib (some (algorithmOf c.rank)) c.method c.realm c.user c.password
      c.uri c.nonce after.cnonce after.count (1 < c.rank) = some value := by
  unfold response
  rw [if_neg]
  · have hmd5 : c.rank ≠ 3 → (some (algorithmOf c.rank)).all (sameText (utf8 "MD5")) = true := by
      intro hrank
      rw [algorithmOf, if_neg hrank]
      rfl
    by_cases hrank : c.rank = 3
    · rw [algorithmOf, if_pos hrank, hrank]
      exact ⟨_, rfl⟩
    · rw [hmd5 hrank]
      exact ⟨_, rfl⟩
  · rintro (hnot | ⟨hrank, hbad⟩)
    · exact hnot h.safe
    · have hrank : 1 < c.rank := by simpa using hrank
      rcases hbad with hbad | hbad | hbad
      · exact hbad (hsafe.resolve_left (hcnonce hrank))
      · exact hcnonce hrank hbad
      · exact hcount hbad

theorem header_cases (hascii : lib.Ascii) (hsafe : SafeCnonce lib state) (call : Call) :
    header lib state call = (state, none) ∨ ∃ c, checked lib state call = some c ∧
      ((NeedsCnonce (state.adopt c) c ∧ call.random = none ∧ header lib state call = (state.adopt c, none)) ∨
      ∃ drawn, (state.adopt c).draw c call.random = some drawn ∧ SafeCnonce lib drawn ∧
        ((drawn.count = G_MAXUINT32 ∧ header lib state call = (drawn, none)) ∨
        (drawn.count ≠ G_MAXUINT32 ∧ ∃ value, header lib state call =
          ({ drawn with count := drawn.count + 1, strongest := max drawn.strongest c.rank },
            some (text c { drawn with count := drawn.count + 1 } value))))) := by
  cases hchecked : checked lib state call with
  | none => exact .inl (by simp [header, hchecked])
  | some c =>
    refine .inr ⟨c, rfl, ?_⟩
    cases hdraw : (state.adopt c).draw c call.random with
    | none =>
      refine .inl ?_
      have hheader : header lib state call = (state.adopt c, none) := by simp [header, hchecked, hdraw]
      unfold P0DigestState.draw at hdraw
      split at hdraw
      · rename_i hneeds
        exact ⟨hneeds, Option.map_eq_none_iff.mp hdraw, hheader⟩
      · cases hdraw
    | some drawn =>
      obtain ⟨-, hsafe, hcnonce, -⟩ := draw_some hascii hdraw (hsafe.adopt c)
      refine .inr ⟨drawn, rfl, hsafe, ?_⟩
      by_cases hcount : drawn.count = G_MAXUINT32
      · exact .inl ⟨hcount, by simp [header, hchecked, hdraw, hcount]⟩
      · obtain ⟨value, hvalue⟩ := response_some (checked_some hchecked)
          { drawn with count := drawn.count + 1 } hsafe hcnonce (Nat.succ_ne_zero _)
        exact .inr ⟨hcount, value, by simp [header, hchecked, hdraw, hcount, hvalue]⟩

-- Runs

structure World where
  state : P0DigestState := {}
  sent : List (Call × Bytes) := []

def fieldsIn (sent : Call × Bytes) : Table := (splitHeader sent.2).getD []

def World.next (lib : Library) (w : World) (call : Call) : World where
  state := (header lib w.state call).1
  sent := w.sent ++ ((header lib w.state call).2.map (call, ·)).toList

def digests (lib : Library) : System World Call := .ofFun (· = {}) (World.next lib)

/-- The nonce is the current one, or no header counted it; and what a call changes before it fails, it needs not. -/
structure Meets (lib : Library) (w : World) (call : Call) (c : Checked) : Prop where
  fresh : w.state.nonce ≠ some c.nonce → ∀ sent ∈ w.sent, nonceIn (fieldsIn sent) = some c.nonce →
    countIn (fieldsIn sent) = none
  random : NeedsCnonce (w.state.adopt c) c → call.random = none → w.state.adopt c = w.state
  exhausted : NeedsCnonce (w.state.adopt c) c → call.random ≠ none → (w.state.adopt c).count ≠ G_MAXUINT32

def MeetsAll (lib : Library) (w : World) (call : Call) : Prop :=
  ∀ c, checked lib w.state call = some c → Meets lib w call c

structure ReplayFree (w : World) : Prop where
  splits : ∀ sent ∈ w.sent, Splits sent.1 sent.2
  rank : w.sent.Pairwise fun a b => rankIn (fieldsIn a) ≤ rankIn (fieldsIn b)
  realm : w.sent.Pairwise fun a b => realmIn (fieldsIn a) = realmIn (fieldsIn b)
  count : w.sent.Pairwise fun a b => nonceIn (fieldsIn a) = nonceIn (fieldsIn b) →
    ∀ n m, countIn (fieldsIn a) = some n → countIn (fieldsIn b) = some m → n < m

structure Remembers (lib : Library) (w : World) : Prop where
  replayFree : ReplayFree w
  safe : SafeCnonce lib w.state
  bound : w.state.count ≤ G_MAXUINT32
  pinned : w.state.realm = none → w.state.count = 0
  rank : ∀ sent ∈ w.sent, rankIn (fieldsIn sent) ≤ w.state.strongest
  realm : ∀ sent ∈ w.sent, ∃ realm, w.state.realm = some realm ∧ realmIn (fieldsIn sent) = some realm
  count : ∀ sent ∈ w.sent, nonceIn (fieldsIn sent) = w.state.nonce → ∀ n, countIn (fieldsIn sent) = some n →
    n ≤ w.state.count

variable {w : World}

theorem World.next_none (h : header lib w.state call = (w.state, none)) :
    w.next lib call = w := by
  simp [World.next, h]

theorem Remembers.unchanged (hascii : lib.Ascii) (hw : Remembers lib w)
    (hmeets : MeetsAll lib w call) (hnone : (header lib w.state call).2 = none) : header lib w.state call = (w.state, none) := by
  obtain hsame | ⟨c, hchecked, hcase⟩ := header_cases hascii hw.safe call
  · exact hsame
  obtain ⟨-, hrandom, hexhausted⟩ := hmeets c hchecked
  obtain ⟨hneeds, hfails, hheader⟩ | ⟨drawn, hdraw, -, hcase⟩ := hcase
  · rw [hheader, hrandom hneeds hfails]
  obtain ⟨hcount, hheader⟩ | ⟨-, value, hheader⟩ := hcase
  · obtain ⟨hdrawn, -, -, hkept⟩ := draw_some hascii hdraw (hw.safe.adopt c)
    have hsame : (w.state.adopt c).count = G_MAXUINT32 := by
      rw [← hcount, hdrawn]
    have hneeds : ¬ NeedsCnonce (w.state.adopt c) c := by
      intro hneeds
      refine hexhausted hneeds ?_ hsame
      rintro hfails
      simp [P0DigestState.draw, hneeds, hfails] at hdraw
    -- an exhausted count belongs to the current nonce and to a pinned realm
    rw [adopt_count] at hsame
    split at hsame
    · rename_i hnonce
      have hrealm : w.state.realm ≠ none := by
        intro hrealm
        rw [hw.pinned hrealm] at hsame
        cases hsame
      rw [hheader, hkept hneeds, adopt_self _ _ hrealm hnonce]
    · cases hsame
  · rw [hheader] at hnone
    cases hnone

theorem Remembers.produced (hascii : lib.Ascii) (hw : Remembers lib w) {value : Bytes}
    (hvalue : (header lib w.state call).2 = some value) : ∃ c, checked lib w.state call = some c ∧
      Splits call value ∧ rankIn (fieldsIn (call, value)) = c.rank ∧ realmIn (fieldsIn (call, value)) = some c.realm ∧
      nonceIn (fieldsIn (call, value)) = some c.nonce ∧
      countIn (fieldsIn (call, value)) = (if 1 < c.rank then some (w.next lib call).state.count else none) ∧
      SafeCnonce lib (w.next lib call).state ∧ (w.next lib call).state.realm = some c.realm ∧
      (w.next lib call).state.nonce = some c.nonce ∧ (w.next lib call).state.strongest = max w.state.strongest c.rank ∧
      (w.next lib call).state.count = (if w.state.nonce = some c.nonce then w.state.count else 0) + 1 ∧
      (w.next lib call).state.count ≤ G_MAXUINT32 := by
  obtain hsame | ⟨c, hchecked, hcase⟩ := header_cases hascii hw.safe call
  · rw [hsame] at hvalue
    cases hvalue
  have hpasses := checked_some hchecked
  obtain ⟨-, -, hheader⟩ | ⟨drawn, hdraw, hsafe, hcase⟩ := hcase
  · rw [hheader] at hvalue
    cases hvalue
  obtain ⟨-, hheader⟩ | ⟨hcount, response, hheader⟩ := hcase
  · rw [hheader] at hvalue
    cases hvalue
  rw [hheader] at hvalue
  obtain rfl := Option.some.inj hvalue
  obtain ⟨hdrawn, -⟩ := draw_some hascii hdraw (hw.safe.adopt c)
  have hdrawnCount : drawn.count = if w.state.nonce = some c.nonce then w.state.count else 0 := by
    rw [hdrawn]
    exact adopt_count _ _
  have hbound : drawn.count + 1 ≤ G_MAXUINT32 := by
    have hle : drawn.count ≤ G_MAXUINT32 := by
      rw [hdrawnCount]
      split
      · exact hw.bound
      · exact Nat.zero_le _
    omega
  have hstate : (w.next lib call).state =
      { drawn with count := drawn.count + 1, strongest := max drawn.strongest c.rank } := by
    rw [World.next, hheader]
  have hfields : fieldsIn (call, text c { drawn with count := drawn.count + 1 } response) =
      pairsOf c { drawn with count := drawn.count + 1 } response := by
    rw [fieldsIn, splitHeader_text, Option.getD_some]
  obtain ⟨-, hrealmIn, hnonceIn, -⟩ := lookup_pairsOf c { drawn with count := drawn.count + 1 } response
  rw [hfields, hstate]
  refine ⟨c, hchecked, hpasses.splits _ _, rankIn_pairsOf _ _ _ hpasses.rank, hrealmIn, hnonceIn,
    countIn_pairsOf _ _ _ hbound, hsafe, ?_, ?_, ?_, ?_, hbound⟩
  · rw [hdrawn]
    exact adopt_realm _ _ hpasses.realm
  · rw [hdrawn]
    exact adopt_nonce _ _
  · rw [hdrawn]
    exact congrArg (max · c.rank) (adopt_strongest _ _)
  · exact congrArg (· + 1) hdrawnCount

theorem Remembers.next (hascii : lib.Ascii) (hw : Remembers lib w)
    (hmeets : MeetsAll lib w call) : Remembers lib (w.next lib call) := by
  cases hvalue : (header lib w.state call).2 with
  | none =>
    rw [World.next_none (hw.unchanged hascii hmeets hvalue)]
    exact hw
  | some value =>
    obtain ⟨c, hchecked, hsplits, hrank, hrealm, hnonce, hcount, hsafe, hstateRealm, hstateNonce, hstrongest, hnext,
      hbound⟩ := hw.produced hascii hvalue
    have hpasses := checked_some hchecked
    have hsent : (w.next lib call).sent = w.sent ++ [(call, value)] := by simp [World.next, hvalue]
    -- an earlier count of this nonce is at most that of the state
    have hcounted : ∀ sent ∈ w.sent, nonceIn (fieldsIn sent) = some c.nonce → ∀ n, countIn (fieldsIn sent) = some n →
        n < (w.next lib call).state.count := by
      intro sent hmem hsame n hn
      by_cases hcurrent : w.state.nonce = some c.nonce
      · rw [hnext, if_pos hcurrent]
        exact Nat.lt_succ_of_le (hw.count sent hmem (hsame.trans hcurrent.symm) n hn)
      · rw [(hmeets c hchecked).fresh hcurrent sent hmem hsame] at hn
        cases hn
    have hearlier : ∀ sent ∈ w.sent, realmIn (fieldsIn sent) = some c.realm := by
      intro sent hmem
      obtain ⟨realm, hstate, hin⟩ := hw.realm sent hmem
      rw [hin, hpasses.realm realm hstate]
    have hpairwise {r : Call × Bytes → Call × Bytes → Prop} (h : w.sent.Pairwise r)
        (hlast : ∀ sent ∈ w.sent, r sent (call, value)) : (w.next lib call).sent.Pairwise r := by
      rw [hsent, List.pairwise_append]
      exact ⟨h, List.pairwise_singleton _ _, fun a ha b hb => List.mem_singleton.mp hb ▸ hlast a ha⟩
    have hall {p : Call × Bytes → Prop} (h : ∀ sent ∈ w.sent, p sent) (hlast : p (call, value)) :
        ∀ sent ∈ (w.next lib call).sent, p sent := by
      rw [hsent]
      intro sent hmem
      rcases List.mem_append.mp hmem with hmem | hmem
      · exact h sent hmem
      · exact List.mem_singleton.mp hmem ▸ hlast
    exact {
      replayFree := {
        splits := hall hw.replayFree.splits hsplits
        rank := hpairwise hw.replayFree.rank fun sent hmem => by
          rw [hrank]
          exact (hw.rank sent hmem).trans hpasses.strongest
        realm := hpairwise hw.replayFree.realm fun sent hmem => (hearlier sent hmem).trans hrealm.symm
        count := hpairwise hw.replayFree.count fun sent hmem hsame n m hn hm => by
          rw [hcount] at hm
          split at hm
          · obtain rfl := Option.some.inj hm
            exact hcounted sent hmem (hsame.trans hnonce) n hn
          · cases hm }
      safe := hsafe
      bound := hbound
      pinned := fun hnone => by
        rw [hstateRealm] at hnone
        cases hnone
      rank := hall (fun sent hmem => hstrongest ▸ (hw.rank sent hmem).trans (le_max_left _ _))
        (by rw [hrank, hstrongest]; exact le_max_right _ _)
      realm := hall (fun sent hmem => ⟨c.realm, hstateRealm, hearlier sent hmem⟩) ⟨c.realm, hstateRealm, hrealm⟩
      count := hall (fun sent hmem hsame n hn => (hcounted sent hmem (hsame.trans hstateNonce) n hn).le)
        (fun _ n hn => by
          rw [hcount] at hn
          split at hn
          · exact (Option.some.inj hn).ge
          · cases hn) }

theorem remembers_initial : Remembers lib {} where
  replayFree := ⟨nofun, .nil, .nil, .nil⟩
  safe := .inl rfl
  bound := Nat.zero_le _
  pinned _ := rfl
  rank := nofun
  realm := nofun
  count := nofun

theorem remembers_reachable (hascii : lib.Ascii) (h : ((digests lib).when (MeetsAll lib)).Reachable w) :
    Remembers lib w := by
  refine h.invariant ?_ ?_
  · rintro w rfl
    exact remembers_initial
  · rintro w call w' hw ⟨hmeets, rfl⟩
    exact hw.next hascii hmeets

-- Selection

structure Permitted (lib : Library) (policy : P0MediaAuth) (credential : GstRTSPAuthCredential) : Prop where
  scheme : credential.scheme = .digest
  rank : paramsRank lib credential.params ≠ 0
  allowed : 3 ≤ paramsRank lib credential.params ∨ policy.allowMd5 = true
  realm : realmOf credential = policy.realm

structure Best (lib : Library) (policy : P0MediaAuth) (seen : List GstRTSPAuthCredential) (strongest : ℕ)
    (selected : Option GstRTSPAuthCredential) : Prop where
  nothing : selected = none → strongest = 0
  chosen : ∀ best, selected = some best → best ∈ seen ∧ Permitted lib policy best ∧
    paramsRank lib best.params = strongest
  le : ∀ credential ∈ seen, Permitted lib policy credential → paramsRank lib credential.params ≤ strongest

section
variable {policy : P0MediaAuth} {seen : List GstRTSPAuthCredential} {strongest : ℕ}
  {selected : Option GstRTSPAuthCredential}

theorem Best.skip (h : Best lib policy seen strongest selected) {credential : GstRTSPAuthCredential}
    (hle : Permitted lib policy credential → paramsRank lib credential.params ≤ strongest) :
    Best lib policy (seen ++ [credential]) strongest selected where
  nothing := h.nothing
  chosen best hbest := by
    obtain ⟨hmem, hpermitted, hrank⟩ := h.chosen best hbest
    exact ⟨List.mem_append_left _ hmem, hpermitted, hrank⟩
  le := by
    rintro other hother hpermitted
    rcases List.mem_append.mp hother with hother | hother
    · exact h.le other hother hpermitted
    · obtain rfl := List.mem_singleton.mp hother
      exact hle hpermitted

theorem Best.take (h : Best lib policy seen strongest selected) {credential : GstRTSPAuthCredential}
    (hpermitted : Permitted lib policy credential) (hlt : strongest < paramsRank lib credential.params) :
    Best lib policy (seen ++ [credential]) (paramsRank lib credential.params) (some credential) where
  nothing := nofun
  chosen := by
    rintro _ ⟨rfl⟩
    exact ⟨List.mem_append_right _ List.mem_cons_self, hpermitted, rfl⟩
  le := by
    rintro other hother hother'
    rcases List.mem_append.mp hother with hother | hother
    · exact (h.le other hother hother').trans hlt.le
    · obtain rfl := List.mem_singleton.mp hother
      exact le_rfl

theorem choose_best (credentials : List GstRTSPAuthCredential) (i : ℕ)
    (h : Best lib policy seen strongest selected) :
    (choose lib policy i credentials strongest selected = none ∧ credentials ≠ [] ∧ 8 < i + credentials.length) ∨
      ∃ strongest', Best lib policy (seen ++ credentials) strongest' (choose lib policy i credentials strongest selected) := by
  induction credentials generalizing i seen strongest selected with
  | nil => exact .inr ⟨strongest, by simpa [choose] using h⟩
  | cons credential credentials ih =>
    have hrest {strongest' : ℕ} {selected' : Option GstRTSPAuthCredential}
        (hbest : Best lib policy (seen ++ [credential]) strongest' selected') :=
      ih (i + 1) hbest
    simp only [List.append_assoc, List.singleton_append] at hrest
    have hcarry {result : Option GstRTSPAuthCredential}
        (hresult : (result = none ∧ credentials ≠ [] ∧ 8 < i + 1 + credentials.length) ∨
          ∃ strongest', Best lib policy (seen ++ credential :: credentials) strongest' result) :
        (result = none ∧ credential :: credentials ≠ [] ∧ 8 < i + (credential :: credentials).length) ∨
          ∃ strongest', Best lib policy (seen ++ credential :: credentials) strongest' result :=
      hresult.imp_left fun ⟨hnone, _, hlength⟩ => ⟨hnone, by simp, by rw [List.length_cons]; omega⟩
    rw [choose]
    split
    · rename_i hfull
      exact .inl ⟨rfl, by simp, by rw [List.length_cons]; omega⟩
    split
    · rename_i hscheme
      exact hcarry (hrest (h.skip fun hpermitted => absurd hpermitted.scheme hscheme))
    rename_i hscheme
    dsimp only
    split
    · rename_i hreason
      refine hcarry (hrest (h.skip fun hpermitted => ?_))
      rcases hreason with hzero | ⟨hweak, hmd5⟩ | hrealm | hle
      · exact absurd hzero hpermitted.rank
      · rcases hpermitted.allowed with hallowed | hallowed
        · exact absurd hallowed (Nat.not_le.mpr hweak)
        · simp [hallowed] at hmd5
      · exact absurd hpermitted.realm hrealm
      · exact hle
    · rename_i hreason
      simp only [not_or, not_and] at hreason
      obtain ⟨hrank, hweak, hrealm, hlt⟩ := hreason
      have hallowed : 3 ≤ paramsRank lib credential.params ∨ policy.allowMd5 = true := by
        by_cases hthree : 3 ≤ paramsRank lib credential.params
        · exact .inl hthree
        · exact .inr (by simpa using hweak (Nat.lt_of_not_le hthree))
      exact hcarry (hrest (h.take ⟨Decidable.not_not.mp hscheme, hrank, hallowed, Decidable.not_not.mp hrealm⟩
        (Nat.lt_of_not_le hlt)))

end

theorem gather_some {params : List GstRTSPAuthParam} {i : ℕ} {values table : Table}
    (h : gather lib i params values = some table) :
    table = (params.map fun param => (asciiStrdown (param.name.getD []), param.value.getD [])).reverse ++ values ∧
      ∀ param ∈ params, ∃ name value, param = ⟨some name, some value⟩ := by
  induction params generalizing i values with
  | nil =>
    obtain rfl := Option.some.inj h
    exact ⟨rfl, nofun⟩
  | cons param params ih =>
    obtain ⟨name, value⟩ := param
    cases name with
    | none => cases h
    | some name =>
      cases value with
      | none => cases h
      | some value =>
        simp only [gather] at h
        split at h
        · cases h
        split at h
        · cases h
        obtain ⟨rfl, hrest⟩ := ih h
        exact ⟨by simp, List.forall_mem_cons.mpr ⟨⟨name, value, rfl⟩, hrest⟩⟩

theorem tableOf_rank {credential : GstRTSPAuthCredential} (h : paramsRank lib credential.params ≠ 0) :
    tableRank lib (tableOf credential) = paramsRank lib credential.params ∧
      (tableOf credential).lookup (utf8 "realm") = realmOf credential := by
  unfold paramsRank at h ⊢
  split at h
  · exact absurd rfl h
  rename_i values hvalues
  obtain ⟨params, hparams, hgather⟩ := Option.bind_eq_some_iff.mp hvalues
  obtain ⟨htable, hnamed⟩ := gather_some hgather
  have htableOf : tableOf credential = values := by rw [tableOf, hparams, Option.getD_some, htable, List.append_nil]
  constructor
  · split at h
    · split at h
      · exact absurd rfl h
      · rename_i realm nonce hrealm hnonce hne
        rw [htableOf, if_neg hne]
    · exact absurd rfl h
  · rw [tableOf, realmOf, hparams, Option.getD_some]
    clear h hvalues hparams hgather htable htableOf
    -- the last parameter of that name comes first in the table
    induction params using List.reverseRecOn with
    | nil => rfl
    | append_singleton params param ih =>
      obtain ⟨hparams, hlast⟩ := List.forall_mem_append.mp hnamed
      obtain ⟨name, value, rfl⟩ := hlast param List.mem_cons_self
      rw [List.map_append, List.reverse_append, List.foldl_append]
      have hlower : asciiStrdown (utf8 "realm") = utf8 "realm" := by decide
      by_cases hname : utf8 "realm" = asciiStrdown name
      · simp [sameText, hlower, ← hname]
      · have hbeq : (utf8 "realm" == asciiStrdown name) = false := by simpa using hname
        simpa [sameText, hlower, hname, List.lookup_cons, hbeq] using ih hparams

/-- The challenge that is selected, if any: no permitted one is stronger, whatever their order. -/
structure Selects (lib : Library) (policy : P0MediaAuth) (credentials : List GstRTSPAuthCredential) : Prop where
  strongest : ∀ table, select lib (some policy) (some credentials) = some table →
    table.lookup (utf8 "realm") = policy.realm ∧ (3 ≤ tableRank lib table ∨ policy.allowMd5 = true) ∧
      (∃ credential ∈ credentials, Permitted lib policy credential ∧ table = tableOf credential) ∧
      ∀ credential ∈ credentials, Permitted lib policy credential → paramsRank lib credential.params ≤ tableRank lib table
  order : credentials.length ≤ 8 → ∀ other, credentials.Perm other →
    (select lib (some policy) (some other)).map (tableRank lib) =
      (select lib (some policy) (some credentials)).map (tableRank lib)

theorem best_none (lib : Library) (policy : P0MediaAuth) : Best lib policy [] 0 none := ⟨fun _ => rfl, nofun, nofun⟩

variable {policy : P0MediaAuth}

theorem select_some {credentials : List GstRTSPAuthCredential} :
    select lib (some policy) (some credentials) =
      if policy.username.any (· ≠ []) ∧ policy.realm.isSome then
        (choose lib policy 0 credentials 0 none).map tableOf
      else none := by
  by_cases h : policy.username.any (· ≠ []) ∧ policy.realm.isSome
  · rw [if_pos h]
    simp only [select, Option.bind_eq_bind, Option.bind_some, guard, if_pos h]
    rfl
  · rw [if_neg h]
    simp only [select, Option.bind_eq_bind, Option.bind_some, guard, if_neg h]
    rfl

theorem Best.map_rank {seen : List GstRTSPAuthCredential} {strongest : ℕ}
    {selected : Option GstRTSPAuthCredential} (h : Best lib policy seen strongest selected) :
    (selected.map tableOf).map (tableRank lib) = if strongest = 0 then none else some strongest := by
  cases hselected : selected with
  | none => simp [h.nothing hselected]
  | some best =>
    obtain ⟨-, hpermitted, hrank⟩ := h.chosen best hselected
    have hne : strongest ≠ 0 := hrank ▸ hpermitted.rank
    simp [(tableOf_rank hpermitted.rank).1, hrank, hne]

theorem Best.strongest_le {seen other : List GstRTSPAuthCredential} {strongest strongest' : ℕ}
    {selected selected' : Option GstRTSPAuthCredential} (h : Best lib policy seen strongest selected)
    (h' : Best lib policy other strongest' selected') (hsub : seen ⊆ other) : strongest ≤ strongest' := by
  cases hselected : selected with
  | none =>
    rw [h.nothing hselected]
    exact Nat.zero_le _
  | some best =>
    obtain ⟨hmem, hpermitted, hrank⟩ := h.chosen best hselected
    exact hrank ▸ h'.le best (hsub hmem) hpermitted

theorem selects (policy : P0MediaAuth) (credentials : List GstRTSPAuthCredential) : Selects lib policy credentials where
  strongest table htable := by
    rw [select_some] at htable
    split at htable
    · obtain ⟨best, hchosen, rfl⟩ := Option.map_eq_some_iff.mp htable
      obtain ⟨hnone, -⟩ | ⟨strongest, hbest⟩ := choose_best credentials 0 (best_none lib policy)
      · exact absurd (hnone.symm.trans hchosen) nofun
      · obtain ⟨hmem, hpermitted, hrank⟩ := hbest.chosen best hchosen
        obtain ⟨htableRank, hrealm⟩ := tableOf_rank hpermitted.rank
        rw [htableRank]
        exact ⟨hrealm.trans hpermitted.realm, hpermitted.allowed, ⟨best, hmem, hpermitted, rfl⟩,
          fun other hother hpermitted' => hrank ▸ hbest.le other hother hpermitted'⟩
    · cases htable
  order hlength other hperm := by
    have hfound : ∀ found : List GstRTSPAuthCredential, found.length ≤ 8 →
        ∃ strongest, Best lib policy found strongest (choose lib policy 0 found 0 none) := by
      intro found hfound
      obtain ⟨-, -, hlong⟩ | hbest := choose_best found 0 (best_none lib policy)
      · omega
      · exact hbest
    obtain ⟨strongest, hbest⟩ := hfound credentials hlength
    obtain ⟨strongest', hbest'⟩ := hfound other (hperm.length_eq ▸ hlength)
    have heq : strongest' = strongest :=
      Nat.le_antisymm (hbest'.strongest_le hbest hperm.symm.subset) (hbest.strongest_le hbest' hperm.subset)
    rw [select_some, select_some]
    split
    · rw [hbest.map_rank, hbest'.map_rank, heq]
    · rfl

def asciiLibrary : Library where
  utf8Validate text := text.all (· < 128)
  checksum _ text := text

theorem asciiLibrary_ascii : asciiLibrary.Ascii := by
  intro text h
  simpa [asciiLibrary] using h

def challenged (nonce : String) (byte : UInt8) : Call where
  params := some [(utf8 "qop", utf8 "auth"), (utf8 "nonce", utf8 nonce), (utf8 "realm", utf8 "camera")]
  method := some (utf8 "PLAY")
  user := some (utf8 "user")
  password := some (utf8 "word")
  uri := some (utf8 "rtsp://h/")
  random := some fun _ => byte

def thrice : World := [challenged "A" 1, challenged "B" 2, challenged "A" 3].foldl (World.next asciiLibrary) {}

end WotAv.Native.Digest
